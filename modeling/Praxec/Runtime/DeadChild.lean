import Praxec.Runtime.Livelock
import Praxec.Runtime.Registered
import Praxec.Runtime.Slots

namespace Praxec

open Json Effect Prog Monitor

def Firing.awaits (f : Firing) (child : String) : Bool :=
  (f.before.context.get "_subworkflow_wait").any fun wait =>
    strField wait "transition" = some f.transition && strField wait "child_workflow_id" = some child

def WorkflowInstance.resolved (inst : WorkflowInstance) : Bool :=
  inst.cancelledAt.isSome || isTerminal inst.definition inst.state

/-- How the step that an activation fires stands: no executor under way, its executor has failed, or there is nothing
left to take back. -/
inductive Refire where
  | idle
  | failed (f : Firing)
  | closed

/-- A failed step goes on from the slot updates it has stored; it is closed once its dead wait is consumed, and
excused once the store has refused the updates or the child turns out not to be dead. -/
def Refire.next : Refire → Event Sig → Refire
  | _, .op (.executeEnd (.declared f) _) (.error _) => .failed f
  | _, .op (.executeEnd (.declared _) _) (.ok _) => .closed
  | _, .op (.executeEnd _ _) _ => .idle
  | _, .op (.storeSave (.transition _) _ _) (.ok _) => .idle
  | .failed f, .op (.storeSave (.slotUpdates ..) next _) (.ok _) => .failed { f with before := next }
  | .failed _, .op (.storeSave (.slotUpdates ..) _ _) (.error _) => .idle
  | .failed _, .op (.storeSave (.deadWait _) _ _) _ => .closed
  | .failed f, .op (.storeLoad id) (.ok child) => if f.awaits id && !child.resolved then .idle else .failed f
  | .failed f, .op (.storeLoad id) (.error _) => if f.awaits id then .idle else .failed f
  | g, _ => g

def Refire.TakesBack : Refire → Prop
  | .idle => True
  | .failed f => f.site = .submit
  | .closed => False

def Refire.demands (g : Refire) : Event Sig → Prop
  | .op (.storeSave (.slotUpdates ..) _ _) _ => g.TakesBack
  | .op (.storeSave (.deadWait _) next _) _ =>
    g.TakesBack ∧ ((∃ f, g = .failed f) → next.context.get "_subworkflow_wait" = none)
  | _ => True

def Refire.allows : Event Sig → Prop
  | .op (.storeSave _ next _) (.ok saved) => saved = next
  | _ => True

def refireMonitor : Monitor Sig Refire :=
  ⟨Refire.next, fun _ => Refire.allows, Refire.demands⟩

variable {g : Refire} {e : Event Sig} {id : String} {f : Firing}

namespace Refire

variable {cfg : RuntimeConfig}

abbrev mon : Monitor Sig Refire := refireMonitor

abbrev Idle (g : Refire) : Prop := g = .idle

def Ended (g : Refire) : Prop :=
  ∀ f child, g = .failed f → f.site = .submit → f.awaits child = false

def Driving (g : Refire) : Prop :=
  ∀ f, g = .failed f → f.site ≠ .submit

def Merged (g : Refire) : Prop :=
  ∀ f, g ≠ .failed f

theorem mon_next (g : Refire) (e : Event Sig) : mon.next g e = g.next e :=
  rfl

theorem Idle.driving (h : Idle g) : Driving g := by
  subst h
  exact fun _ h => nomatch h

theorem Driving.ended (h : Driving g) : Ended g :=
  fun f _ hg hsite => absurd hsite (h f hg)

theorem Merged.driving (h : Merged g) : Driving g :=
  fun f hg => absurd hg (h f)

theorem Idle.merged (h : Idle g) : Merged g := by
  subst h
  exact fun _ h => nomatch h

def Undead : Event Sig → Prop
  | .op (.storeSave (.deadWait _) _ _) _ | .op (.storeSave (.slotUpdates ..) _ _) _ => False
  | e => Minor e

theorem Undead.minor (h : Undead e) : Minor e := by
  unfold Undead at h
  split at h
  · exact h.elim
  · exact h.elim
  · exact h

theorem Undead.demands (h : Undead e) (g : Refire) : g.demands e := by
  unfold Refire.demands
  split
  · exact h.elim
  · exact h.elim
  · trivial

theorem Undead.next (h : Undead e) (g : Refire) : g.next e = g ∨ (∃ f, g = .failed f) ∧ g.next e = .idle := by
  unfold Refire.next
  split
  · exact nomatch h.minor
  · exact nomatch h.minor
  · exact nomatch h.minor
  · exact nomatch h.minor
  · exact h.elim
  · exact h.elim
  · exact h.elim
  · split
    · exact .inr ⟨⟨_, rfl⟩, rfl⟩
    · exact .inl rfl
  · split
    · exact .inr ⟨⟨_, rfl⟩, rfl⟩
    · exact .inl rfl
  · exact .inl rfl

theorem keeps_undead (hidle : P .idle) (h : Undead e) : mon.Keeps P e := by
  intro g hg _
  refine ⟨h.demands g, ?_⟩
  rw [mon_next]
  rcases h.next g with heq | ⟨-, heq⟩
  · rwa [heq]
  · rwa [heq]

theorem keeps_idle (h : Minor e) : mon.Keeps Idle e := by
  intro g hg _
  subst hg
  constructor
  · change Refire.demands .idle e
    unfold Refire.demands
    split
    · trivial
    · exact ⟨trivial, fun ⟨_, hf⟩ => nomatch hf⟩
    · trivial
  · change Refire.next .idle e = .idle
    unfold Refire.next
    split
    · exact nomatch h
    · exact nomatch h
    · exact nomatch h
    · exact nomatch h
    · cases ‹Refire.idle = .failed _›
    · cases ‹Refire.idle = .failed _›
    · cases ‹Refire.idle = .failed _›
    · cases ‹Refire.idle = .failed _›
    · cases ‹Refire.idle = .failed _›
    · rfl

theorem Calm.undead (h : Calm e) : Undead e := by
  unfold Undead
  split
  · exact nomatch h
  · exact nomatch h
  · exact h.minor

theorem Quiet.undead (h : Quiet e) : Undead e :=
  Calm.undead h.calm

theorem Handback.undead (h : Handback e) : Undead e :=
  Calm.undead h.calm

variable {i : WorkflowInstance} {v : Nat}

theorem suspendStep_undead : UsesE Undead (suspendStep cfg d i t v p s) := by
  cases s <;>
  exact .bind (.perform fun _ => rfl) fun _ => .bind (.lift (recordIgnored_uses.mono fun _ => Quiet.undead)) fun _ =>
    .lift (response_quiet.mono fun _ => Quiet.undead)

theorem cancelIgnored_undead : (cancelIgnored cfg id reason).Uses Undead := by
  have hquiet {α : Type} {x : Run α} (hx : x.Uses Quiet) : x.Uses Undead := hx.mono fun _ => Quiet.undead
  have hcalm {α : Type} {x : Run α} (hx : x.Uses Calm) : x.Uses Undead := hx.mono fun _ => Calm.undead
  have hcancel : UsesE Undead (cancel cfg id reason) := by
    refine .bind (hquiet load_uses) fun i => ?_
    split
    · trivial
    exact .bind (.lift (hquiet now_uses)) fun _ => .bind (.perform fun _ => rfl) fun _ =>
      .bind (.lift (hquiet recordOrSelfEvent_uses)) fun _ => .bind (.lift (hcalm releaseRunLeases_uses)) fun _ =>
      .lift (hcalm resumeParentIfAny_uses)
  exact .bind hcancel fun _ => trivial

theorem idle_quiet (e : Event Sig) (h : Quiet e) : mon.Keeps Idle e :=
  keeps_idle h.minor

theorem driving_quiet (e : Event Sig) (h : Quiet e) : mon.Keeps Driving e :=
  keeps_undead (Idle.driving rfl) (Quiet.undead h)

theorem merged_quiet (e : Event Sig) (h : Quiet e) : mon.Keeps Merged e :=
  keeps_undead (Idle.merged rfl) (Quiet.undead h)

variable {request : ExecuteRequest}

section

variable {a : Admitted}

def Trying (f : Firing) (g : Refire) : Prop :=
  g = .idle ∨ g = .failed f

theorem trying_quiet (e : Event Sig) (h : Quiet e) : mon.Keeps (Trying f) e :=
  keeps_undead (.inl rfl) (Quiet.undead h)

theorem bracket (f : Firing) :
    Bracket mon cfg i declared Idle (fun _ => Trying f) (fun _ _ => Trying f) (fun _ => Trying f) (fun _ _ => Merged)
    fun _ => Merged where
  quiet := idle_quiet
  trials _ := .plain trying_quiet fun _ => merged_quiet
  settled_quiet _ := merged_quiet
  acquire := acquireOwnedFiles_returns (fun _ => .inl) (fun _ => trying_quiet) (.perform fun g r hg _ => by
    subst hg
    cases r with
    | ok _ => exact ⟨trivial, .inl rfl⟩
    | error _ => exact ⟨trivial, rfl⟩)
  release _ _ := .of_uses (releaseLease_uses.mono fun _ h => keeps_undead (Idle.merged rfl) (Handback.undead h))
  abandon _ _ := .of_uses (releaseLease_uses.mono fun _ h => keeps_undead (.inl rfl) (Handback.undead h))

theorem execute_trying :
    mon.Returns (Trying f) (execute (.declared f) request) (Settled (fun _ => Trying f) fun _ => Merged) := by
  have hbegin : mon.Returns (Trying f) (Prog.perform (S := Sig) (.executeBegin (.declared f) request))
      fun _ _ => True :=
    .perform fun _ _ _ _ => ⟨trivial, trivial⟩
  refine hbegin.bind fun _ => .perform fun g r _ _ => ?_
  cases r with
  | ok r => exact ⟨trivial, fun _ h => nomatch h⟩
  | error err => exact ⟨trivial, .inr rfl⟩

/-- The step has failed with the run as in `inst`, if it is not excused. -/
def Effective (f : Firing) (inst : WorkflowInstance) (g : Refire) : Prop :=
  g = .idle ∨ g = .failed { f with before := inst }

theorem consumeDeadSubworkflowWait_ended (hsite : f.site = .submit) :
    mon.Returns (fun g => g = .idle ∨ g = .failed f) (consumeDeadSubworkflowWait f.before f.transition) fun _ => Ended := by
  have hidle {g : Refire} (hg : g = .idle) : Ended g := Driving.ended (Idle.driving hg)
  have hfree {g : Refire} (hg : g = .idle ∨ g = .failed f) (h : ∀ child, f.awaits child = false) : Ended g := by
    rcases hg with hg | rfl
    · exact hidle hg
    · intro f' child hf _
      cases hf
      exact h child
  unfold consumeDeadSubworkflowWait
  split
  · rename_i hnone
    exact .pure fun g hg => hfree hg fun child => by simp [Firing.awaits, hnone]
  rename_i wait hwait
  split
  · rename_i hother
    exact .pure fun g hg => hfree hg fun child => by simp [Firing.awaits, hwait, hother]
  rename_i htransition
  have htransition : strField wait "transition" = some f.transition := by simpa using htransition
  split
  · rename_i hnone
    exact .pure fun g hg => hfree hg fun child => by simp [Firing.awaits, hwait, hnone]
  rename_i childId hchild
  have hawaits : f.awaits childId := by simp [Firing.awaits, hwait, htransition, hchild]
  -- the child is looked up; it excuses the step unless it is resolved
  have hload : mon.Returns (fun g => g = .idle ∨ g = .failed f) (load childId).run fun loaded g =>
      g = .idle ∨ g = .failed f ∧ ∃ child, loaded = .ok child ∧ child.resolved := by
    refine .perform fun g r hg _ => ⟨trivial, ?_⟩
    rcases hg with rfl | rfl
    · cases r <;> exact .inl rfl
    rw [mon_next]
    cases r with
    | error e => exact .inl (by simp [Refire.next, hawaits])
    | ok child =>
      cases hresolved : child.resolved with
      | true => exact .inr ⟨by simp [Refire.next, hresolved], child, rfl, hresolved⟩
      | false => exact .inl (by simp [Refire.next, hawaits, hresolved])
  refine hload.bind fun loaded => ?_
  cases loaded with
  | error e => exact .pure fun g hg => hidle (hg.resolve_right fun ⟨_, _, h, _⟩ => nomatch h)
  | ok child =>
    dsimp only
    split
    · rename_i hlive
      have hlive : child.resolved = false := by simpa [WorkflowInstance.resolved] using hlive
      refine .pure fun g hg => hidle (hg.resolve_right ?_)
      rintro ⟨-, _, ⟨⟩, hresolved⟩
      cases hlive.symm.trans hresolved
    · have hsave (v : Nat) : mon.Returns (fun g => g = .idle ∨ g = .failed f ∧
          ∃ other, (Except.ok child : Except Err WorkflowInstance) = .ok other ∧ other.resolved)
          (saveIfVersion (.deadWait f.before) { f.before with
            context := f.before.context.remove "_subworkflow_wait", version := f.before.version + 1 } v).run
          fun _ => Merged := by
        refine .perform fun g r hg _ => ?_
        rcases hg with rfl | ⟨rfl, -⟩
        · exact ⟨⟨trivial, fun ⟨_, hf⟩ => nomatch hf⟩, Idle.merged rfl⟩
        · exact ⟨⟨hsite, fun _ => by simp [Value.get_remove]⟩, fun _ h => nomatch h⟩
      refine (hsave _).bind fun saved => ?_
      cases saved with
      | error e => exact .pure fun _ hg => (Merged.driving hg).ended
      | ok saved =>
        exact (Returns.of_uses (recordOrSelfEvent_uses.mono merged_quiet)).bind fun _ =>
          .pure fun _ hg => (Merged.driving hg).ended

theorem persistSlotUpdates_effective :
    mon.Triple (Trying (a.firing arguments)) (persistSlotUpdates cfg a arguments updates)
    (fun kept => Effective (a.firing arguments) kept.1) fun _ => Ended := by
  have hkept {dropped : Bool} : mon.Triple (Trying (a.firing arguments))
      (pure (a.inst, dropped) : DispatchStage (WorkflowInstance × Bool))
      (fun kept => Effective (a.firing arguments) kept.1) fun _ => Ended :=
    .pure fun _ => id
  unfold persistSlotUpdates
  split
  · exact hkept
  split
  · exact hkept
  rename_i context _
  have hsave : mon.Triple (Trying (a.firing arguments)) (saveIfVersion (.slotUpdates a.inst (a.transition.get "output"))
      { a.inst with context := context, version := a.inst.version + 1 } a.request.expectedVersion)
      (Effective (a.firing arguments)) fun _ => Idle := by
    refine .perform fun g r hg hallows => ?_
    rcases hg with rfl | rfl
    · cases r with
      | ok saved => exact ⟨trivial, .inl rfl⟩
      | error e => exact ⟨trivial, rfl⟩
    · cases r with
      | ok saved =>
        cases hallows
        exact ⟨rfl, .inr rfl⟩
      | error e => exact ⟨rfl, rfl⟩
  refine (Triple.lift hsave).bind fun saved => ?_
  cases saved with
  | ok saved => exact .pure fun _ => id
  | error e =>
    dsimp only
    split
    · have hcode : "STALE_WORKFLOW_VERSION" ≠ "TRANSITION_FIRE_CAP_EXCEEDED" := by decide
      exact reject_triple (P := Idle) idle_quiet (fun _ _ _ hg => Driving.ended (Idle.driving hg)) fun h => absurd h hcode
    · exact .pure fun _ => .inl

theorem failSubmit_ended :
    mon.Triple (Trying (a.firing arguments)) (failSubmit cfg a arguments err) Q fun _ => Ended := by
  have hundead (e : Event Sig) (h : Undead e) : mon.Keeps Ended e := keeps_undead (Driving.ended (Idle.driving rfl)) h
  have hquiet (e : Event Sig) (h : Quiet e) : mon.Keeps Ended e := hundead e (Quiet.undead h)
  refine persistSlotUpdates_effective.bind fun kept =>
    (Triple.lift (consumeDeadSubworkflowWait_ended (f := { a.firing arguments with before := kept.1 }) rfl)).bind
    fun effective => (Triple.attempt (.of_uses (auditRecord_uses.mono hquiet) fun _ _ => id)).bind fun _ =>
    (Triple.onlyIf fun _ => .lift (.of_uses (cancelIgnored_undead.mono hundead))).bind fun _ =>
    replyWith_triple (response_shows hquiet) fun _ g hg => hg.2

theorem mergeResult_merged (hexecutor : (a.transition.get "executor").isSome) :
    mon.Triple Merged (mergeResult cfg a arguments r) (fun _ => Merged) fun _ => Ended := by
  refine (mergeResult_triple merged_quiet (fun _ g _ hg => hg.driving.ended) hexecutor
    fun suspend => ?_).mono fun _ _ => And.right
  exact (Triple.of_uses (suspendStep_undead.mono fun _ => keeps_undead (Idle.merged rfl)) fun _ _ hg => hg.driving.ended).mono
    fun _ _ hg => hg.driving.ended

theorem runSubmitExecutor_merged :
    mon.Triple Idle (runSubmitExecutor cfg a arguments) (fun _ => Merged) fun _ => Ended :=
  runSubmitExecutor_triple (fun _ h => keeps_undead (P := Idle) rfl (Quiet.undead h)) (fun _ _ _ hg => Driving.ended (Idle.driving hg))
    (bracket (a.firing arguments)) (fun _ _ _ _ _ hg => Idle.merged hg)
    (fun _ _ _ => minor_ends (fun _ => keeps_idle) (fun _ hg => Driving.ended (Idle.driving hg)) parkOnLock_minor)
    (fun _ _ _ _ _ _ _ _ => execute_trying) (fun hexecutor _ => mergeResult_merged hexecutor) fun _ => failSubmit_ended

end

/-- The assertions of the runtime's procedures under which no failed submit leaves a dead wait behind. -/
def outline : Outline Refire where
  idle := Idle
  ended := Ended
  validated _ _ := Idle
  ready _ _ := Idle
  worked _ _ _ := Merged
  driving _ _ := Driving
  chosen _ _ hop g := hop.site ≠ .submit ∧ Driving g
  hopDone _ _ _ _ := Driving

theorem idle_triple (hx : UsesE (mon.Keeps Idle) x) : mon.Triple Idle x (fun _ => Idle) fun _ => Ended :=
  .of_uses hx fun _ _ hg => Driving.ended (Idle.driving hg)

theorem execute_idle (hsite : ∀ f, site ≠ .declared f) :
    mon.Returns P (execute site request) (Settled (fun _ => Idle) fun _ => Idle) := by
  have hbegin : mon.Returns P (Prog.perform (S := Sig) (.executeBegin site request)) fun _ _ => True :=
    .perform fun _ _ _ _ => ⟨trivial, trivial⟩
  refine hbegin.bind fun _ => .perform fun g r _ _ => ?_
  cases site with
  | declared f => exact absurd rfl (hsite f)
  | _ => cases r <;> exact ⟨trivial, rfl⟩

theorem execute_driving (hsite : f.site ≠ .submit) :
    mon.Returns P (execute (.declared f) request) (Settled (fun _ => Driving) fun _ => Driving) := by
  have hbegin : mon.Returns P (Prog.perform (S := Sig) (.executeBegin (.declared f) request)) fun _ _ => True :=
    .perform fun _ _ _ _ => ⟨trivial, trivial⟩
  refine hbegin.bind fun _ => .perform fun g r _ _ => ?_
  cases r with
  | ok r => exact ⟨trivial, fun _ h => nomatch h⟩
  | error err =>
    refine ⟨trivial, fun f' hf => ?_⟩
    cases hf
    exact hsite

variable {next : WorkflowInstance}

theorem save_idle : mon.Triple Driving (saveIfVersion (.transition firing) next v) (fun _ => Idle) fun _ => Ended :=
  .perform fun g r hg _ => by
    cases r with
    | ok _ => exact ⟨trivial, rfl⟩
    | error _ => exact ⟨trivial, hg.ended⟩

theorem record_driving :
    mon.Triple Driving (emitTransitionRecord firing next params) (fun _ => Driving) fun _ => Ended :=
  .of_uses (emitTransitionRecord_uses fun _ _ hg _ => ⟨trivial, hg⟩) fun _ _ => Driving.ended

theorem commit_idle : mon.Triple Driving (commitTransition firing next note v) (fun _ => Idle) fun _ => Ended :=
  record_driving.bind fun _ => save_idle

theorem recordEvidence_idle : mon.Returns Idle (recordEvidence cfg id evs) fun _ => Idle :=
  .of_uses (recordEvidence_uses fun _ _ _ _ hg _ => ⟨trivial, hg ▸ rfl⟩)

theorem runOnEnter_idle : mon.Triple Idle (runOnEnter cfg definition i c) (fun _ => Idle) fun _ => Ended := by
  refine runOnEnter_triple idle_quiet (fun _ _ hg => Driving.ended (Idle.driving hg)) (fun _ => idle_quiet)
    (fun _ _ _ hg => Driving.ended (Idle.driving hg)) (fun _ => id) (fun _ _ => execute_idle fun _ h => nomatch h)
    fun onEnter r context _ _ _ _ => (Triple.lift recordEvidence_idle).bind fun _ => ?_
  exact idle_triple (.perform fun _ => keeps_idle rfl)

theorem sound : outline.Plain mon cfg where
  called _ _ _ := trivial
  timed _ _ _ := trivial
  idle_ended _ hg := Driving.ended (Idle.driving hg)
  driving_ended _ _ _ := Driving.ended
  idle_minor _ := keeps_idle
  created _ _ g hg _ := ⟨trivial, hg ▸ rfl⟩
  driving_quiet _ _ := driving_quiet
  chosen_quiet _ _ _ e h g hg ha := ⟨(driving_quiet e h g hg.2 ha).1, hg.1, (driving_quiet e h g hg.2 ha).2⟩
  checkArguments _ _ := idle_triple (checkArguments_quiet.mono idle_quiet)
  checkGuards _ _ _ := idle_triple (checkGuards_quiet.mono idle_quiet)
  runSubmitExecutor _ _ _ := runSubmitExecutor_merged
  commitSubmit _ _ _ _ _ _ := commitSubmit_triple (C := fun _ => Idle) (.none merged_quiet)
    (fun _ _ hg => (Merged.driving hg).ended) (fun _ _ => commit_idle.pre fun _ hg => Merged.driving hg.2)
    (fun _ _ => idle_triple (auditRecord_uses.mono idle_quiet)) (fun _ => recordEvidence_idle) (fun _ => runOnEnter_idle)
    fun _ _ => idle_triple (auditRecord_uses.mono idle_quiet)
  checkAndApplyTimeout _ _ _ := (checkAndApplyTimeout_triple (N := fun _ => Idle) (R := fun _ => Idle) idle_quiet
    (fun _ _ h => keeps_idle h.minor)
    (fun _ _ _ => .of_uses (emitTransitionRecord_uses fun _ g hg _ => ⟨trivial, hg ▸ rfl⟩) fun _ _ => id)
    fun _ _ => save_idle.pre fun _ hg => Idle.driving hg).mono fun out _ hg => by cases out <;> exact hg
  runOnEnter _ _ _ := runOnEnter_idle
  selectHop args d := by
    refine selectHop_triple driving_quiet (fun _ _ _ hg => hg.ended) (fun candidates direct _ => ?_) fun candidate _ => ?_
    · exact (Triple.of_uses (selectDeterministicTransition_quiet.mono driving_quiet) fun _ _ => id).mono
        fun _ _ hg => ⟨nofun, hg⟩
    · have hback (e : Event Sig) (h : Handback e) : mon.Keeps Driving e :=
        keeps_undead (Idle.driving rfl) (Handback.undead h)
      exact autoDriveHop_triple (.plain hback (fun _ => hback) fun _ _ _ _ g hg _ => ⟨trivial, hg⟩)
        (fun _ _ _ hg => hg.ended) (fun _ _ => id) (fun _ _ _ _ hg => hg.ended) (fun _ _ _ _ hg => hg.ended)
        (fun _ _ _ _ _ _ _ _ => (execute_idle (by intro _ h; cases h)).mono fun r g hg => by cases r <;> exact Idle.driving hg)
        fun _ _ _ _ hg => ⟨nofun, hg⟩
  runHopExecutor args d hop := .assume fun hsite =>
    runHopExecutor_triple driving_quiet (fun _ _ _ hg => hg.ended) (fun _ => driving_quiet) (fun _ _ _ _ hg => hg.ended)
      (fun _ _ _ hg => hg.ended) (fun _ _ _ _ _ _ _ hg => hg.ended) (fun _ _ _ _ _ _ _ hg => hg.ended)
      (fun _ _ _ _ hg => hg) (fun _ _ _ _ _ _ _ => execute_driving hsite) fun _ _ _ _ _ _ hg => hg
  commitHop _ _ _ _ _ := commitHop_triple (C := fun _ => Idle) (.none driving_quiet) (fun _ _ => Driving.ended)
    (fun _ => idle_quiet) (fun _ _ => commit_idle.pre fun _ => And.right) (fun _ => recordEvidence_idle)
    (fun _ => runOnEnter_idle) fun _ _ _ hg => Idle.driving hg

end Refire

def SaveKind.takesBack : SaveKind → Bool
  | .slotUpdates .. | .deadWait _ => true
  | _ => false

def leavesStep (inst : WorkflowInstance) : Event Sig → WorkflowInstance
  | .op (.storeSave kind _ _) (.ok saved) => if kind.takesBack then saved else inst
  | _ => inst

def Firing.leaves (f : Firing) (events : History) : Firing :=
  { f with before := events.foldl leavesStep f.before }

def Concludes : Event Sig → Prop
  | .op (.executeEnd ..) _ | .op (.storeSave (.transition _) _ _) (.ok _) => True
  | _ => False

def Firing.FindsDead (f : Firing) (events : History) : Prop :=
  ∀ before id r after, events = before ++ .op (.storeLoad id) r :: after → (f.leaves before).awaits id = true →
    ∃ child, r = .ok child ∧ child.resolved = true

def SavesTaken (events : History) : Prop :=
  ∀ kind next v r, kind.takesBack = true → .op (.storeSave kind next v) r ∈ events → ∃ saved, r = .ok saved

variable {events : History}

namespace Refire

theorem leaves_cons :
    f.leaves (e :: events) = ({ f with before := leavesStep f.before e } : Firing).leaves events :=
  rfl

theorem FindsDead.tail (h : f.FindsDead (e :: events)) :
    ({ f with before := leavesStep f.before e } : Firing).FindsDead events := by
  rintro before id r after rfl hawaits
  exact h (e :: before) id r after rfl hawaits

def Shut (f : Firing) (g : Refire) : Prop :=
  g = .closed ∨ g = .failed f ∧ f.site ≠ .submit

theorem Shut.not_takesBack (h : Shut f g) : ¬ g.TakesBack := by
  rcases h with rfl | ⟨rfl, hsite⟩
  · exact id
  · exact hsite

theorem Shut.leavesStep (h : Shut f g) (hdemands : g.demands e) : leavesStep f.before e = f.before := by
  unfold Praxec.leavesStep
  split
  · rename_i kind next v saved
    cases kind with
    | slotUpdates base mapping => exact absurd hdemands h.not_takesBack
    | deadWait base => exact absurd hdemands.1 h.not_takesBack
    | _ => rfl
  · rfl

theorem next_of_findsDead (h : f.awaits id → ∃ child, r = .ok child ∧ child.resolved) :
    Refire.next (.failed f) (.op (.storeLoad id) r) = .failed f := by
  cases hawaits : f.awaits id with
  | false => cases r <;> simp [Refire.next, hawaits]
  | true =>
    obtain ⟨child, rfl, hresolved⟩ := h hawaits
    simp [Refire.next, hresolved]

theorem Shut.next (h : Shut f g) (hdemands : g.demands e) (hlast : ¬ Concludes e)
    (hdead : ∀ id r, e = .op (.storeLoad id) r → f.awaits id → ∃ child, r = .ok child ∧ child.resolved) :
    g.next e = g := by
  have hnot := h.not_takesBack
  unfold Refire.next
  split
  · exact absurd trivial hlast
  · exact absurd trivial hlast
  · exact absurd trivial hlast
  · exact absurd trivial hlast
  · exact absurd hdemands hnot
  · exact absurd hdemands hnot
  · exact absurd hdemands.1 hnot
  · rename_i f' id child
    cases (h.resolve_left (fun h => nomatch h)).1
    exact next_of_findsDead (hdead id _ rfl)
  · rename_i f' id err
    cases (h.resolve_left (fun h => nomatch h)).1
    exact next_of_findsDead (hdead id _ rfl)
  · rfl

theorem Shut.leaves (h : Shut f g) (hmet : mon.Met g events)
    (hlast : ∀ e ∈ events, ¬ Concludes e) (hdead : f.FindsDead events) : f.leaves events = f := by
  induction events generalizing g with
  | nil => rfl
  | cons e events ih =>
    have hstep : Praxec.leavesStep f.before e = f.before := h.leavesStep hmet.1
    have hnext : g.next e = g := by
      refine h.next hmet.1 (hlast e (.head _)) fun id r he hawaits => ?_
      exact hdead [] id r events (by rw [he]; rfl) hawaits
    have hrest : f.FindsDead events := by
      have htail := FindsDead.tail hdead
      rwa [hstep] at htail
    have hmet' : mon.Met g events := by
      have htail := hmet.2
      rwa [mon_next, hnext] at htail
    rw [leaves_cons, hstep]
    exact ih h hmet' (fun e he => hlast e (.tail _ he)) hrest

theorem failed_leaves (hsite : f.site = .submit)
    (hmet : mon.Met (.failed f) events) (hallowed : ∀ e ∈ events, Refire.allows e) (hlast : ∀ e ∈ events, ¬ Concludes e)
    (hdead : f.FindsDead events) (hsaved : SavesTaken events) (hended : Ended (mon.after (.failed f) events))
     : (f.leaves events).awaits child = false := by
  induction events generalizing f with
  | nil => exact hended f child rfl hsite
  | cons e events ih =>
    have hlast' : ∀ e ∈ events, ¬ Concludes e := fun e he => hlast e (.tail _ he)
    have hallowed' : ∀ e ∈ events, Refire.allows e := fun e he => hallowed e (.tail _ he)
    have hsaved' : SavesTaken events := fun kind next v r hkind hr => hsaved kind next v r hkind (.tail _ hr)
    have hdead' := FindsDead.tail hdead
    obtain ⟨hdemands, hmet'⟩ := hmet
    rw [leaves_cons]
    rw [after_cons] at hended
    -- every event but the three kinds of requests below leaves the step as it is
    have hkept (hnext : mon.next (.failed f) e = .failed f) (hstep : leavesStep f.before e = f.before) :
        (({ f with before := leavesStep f.before e } : Firing).leaves events).awaits child = false := by
      rw [hnext] at hmet' hended
      rw [hstep] at hdead' ⊢
      exact ih hsite hmet' hallowed' hlast' hdead' hsaved' hended
    cases e with
    | call p v | timeout p v => exact hkept rfl rfl
    | op o r =>
      cases o with
      | executeEnd site request => exact absurd trivial (hlast _ (.head _))
      | storeLoad id => exact hkept (next_of_findsDead fun hawaits => hdead [] id r events rfl hawaits) rfl
      | storeSave kind next v =>
        cases kind with
        | slotUpdates base mapping =>
          obtain ⟨saved, rfl⟩ := hsaved _ next v r rfl (.head _)
          cases hallowed _ (.head _)
          exact ih hsite hmet' hallowed' hlast' hdead' hsaved' hended
        | deadWait base =>
          obtain ⟨saved, rfl⟩ := hsaved _ next v r rfl (.head _)
          cases hallowed _ (.head _)
          have hnone : next.context.get "_subworkflow_wait" = none := hdemands.2 ⟨f, rfl⟩
          rw [Shut.leaves (.inl rfl) hmet' hlast' hdead']
          simp [Firing.awaits, leavesStep, SaveKind.takesBack, hnone]
        | transition firing =>
          cases r with
          | ok saved => exact absurd trivial (hlast _ (.head _))
          | error err => exact hkept rfl rfl
        | _ => cases r <;> exact hkept rfl rfl
      | _ => exact hkept rfl rfl

variable {definitions : Fields} {m : Gateway}

theorem allows_of_appends (hm : Gateway.Reachable cfg definitions m) (hact : m.act (body cfg) a = some m')
    (happ : m.Appends a p hist (.op o r)) : Refire.allows (.op o r) := by
  have hlineage := lineage_of_reaches hm
  have hout := hlineage.handsOut hact happ
  cases o with
  | storeSave kind next v =>
    cases r with
    | ok saved => exact hout.1
    | error _ => trivial
  | _ => trivial

theorem allowed_of_reachable (hm : Gateway.Reachable cfg definitions m) :
    ∀ t ∈ m.threads, ∀ x ∈ t.activations, ∀ e ∈ x.2, Refire.allows e := by
  refine hm.from_reached.events (A := fun _ e => Refire.allows e) rfl (fun _ _ _ h => h) fun hact hok p hist e happ => ?_
  cases e with
  | op o r => exact allows_of_appends hok.1 hact happ
  | call _ _ | timeout _ _ => trivial

theorem verified (hm : Gateway.Reachable cfg definitions m) : m.Verified mon (fun _ => .idle) outline.plain.fin := by
  have hplain : outline.Plain mon cfg := sound
  have hbody : mon.Verifies (fun _ => .idle) outline.plain.fin outline.plain.pre (body cfg) :=
    hplain.sound.verified (fun _ _ => rfl) fun _ _ => Idle.driving rfl
  exact hm.from_reached.verified hbody (fun p _ => outline.plain_pre p)
    (fun ⟨hm, hact, _⟩ p hist o r happ => allows_of_appends hm hact happ) rfl

theorem ended_of_fin (h : outline.plain.fin p v g) : Ended g := by
  cases p with
  | runDeterministicChain args | start args | submit request => cases v <;> exact h
  | _ => exact h

theorem leaves_cases (inst : WorkflowInstance) (events : History) :
    events.foldl leavesStep inst = inst ∨ ∃ e ∈ events, SavesAs (fun _ => True) (events.foldl leavesStep inst) e := by
  induction events generalizing inst with
  | nil => exact .inl rfl
  | cons e events ih =>
    rw [List.foldl_cons]
    rcases ih (leavesStep inst e) with heq | ⟨e', he', hsaves⟩
    · rw [heq]
      unfold leavesStep
      split
      · rename_i kind next v saved
        split
        · exact .inr ⟨_, .head _, kind, next, v, trivial, rfl⟩
        · exact .inl rfl
      · exact .inl rfl
    · exact .inr ⟨e', .tail _ he', hsaves⟩

end Refire

/-- A step that fires a transition its run waits in for a dead child leaves the run without that wait exactly when
it is a submit and its executor has failed. -/
theorem dead_wait_consumed_iff {cfg : RuntimeConfig} {definitions : Fields} {m : Gateway}
    (hm : Gateway.Reachable cfg definitions m) {p : Proc} {before after : History} {f : Firing}
    {request : ExecuteRequest} {answer : Except ExecutorError ExecuteResult} {v : p.Ret} {stack : Stack Sig p}
    (ht : ⟨p, before ++ .op (.executeEnd (.declared f) request) answer :: after, .pure v, stack⟩ ∈ m.threads)
    (hlast : ∀ e ∈ after, ¬ Concludes e) {child : String} (hawaits : f.awaits child = true) (hdead : f.FindsDead after)
    (hsaved : SavesTaken after) :
    ((∀ other, (f.leaves after).awaits other = false) ↔ f.site = .submit ∧ ∃ err, answer = .error err) ∧
    (f.leaves after ≠ f → Journaled m.world.journal (f.leaves after).before) := by
  have hx : (p, before ++ .op (.executeEnd (.declared f) request) answer :: after) ∈
      Thread.activations ⟨p, before ++ .op (.executeEnd (.declared f) request) answer :: after, .pure v, stack⟩ := .head _
  have hverified := Refire.verified hm _ ht
  have hmet := (refireMonitor.met_append.mp hverified.met).2
  have hended : Refire.Ended (refireMonitor.after .idle
    (before ++ .op (.executeEnd (.declared f) request) answer :: after)) := Refire.ended_of_fin hverified.code
  rw [after_append] at hended
  refine ⟨⟨fun hfree => ?_, ?_⟩, fun hne => ?_⟩
  · -- a step that takes nothing back leaves the wait it has found
    by_contra hsite
    have hshut : Refire.Shut f (refireMonitor.next (refireMonitor.after .idle before)
        (.op (.executeEnd (.declared f) request) answer)) := by
      cases answer with
      | ok r => exact .inl rfl
      | error err => exact .inr ⟨rfl, fun h => hsite ⟨h, err, rfl⟩⟩
    have hwait := hfree child
    rw [hshut.leaves hmet.2 hlast hdead, hawaits] at hwait
    cases hwait
  · rintro ⟨hsite, err, rfl⟩ other
    refine Refire.failed_leaves hsite hmet.2 (fun e he => ?_) hlast hdead hsaved hended
    exact Refire.allowed_of_reachable hm _ ht _ hx e (List.mem_append_right _ (.tail _ he))
  · rcases Refire.leaves_cases f.before after with heq | ⟨e, he, hsaves⟩
    · exact absurd (congrArg (fun inst => { f with before := inst }) heq) hne
    · exact Gateway.ReachableWith.snapshots hm _ ht _ hx e (List.mem_append_right _ (.tail _ he)) _ (.inr hsaves)

def childDefinition : Value :=
  definitionOf "b" [("b", terminalState)]

def firesParent (i version : Nat) (correlation : String) (r : Execution) : List GatewayAction :=
  .spawn (.submit (goSubmit "wf_1" version)) :: answers i 1 ++ [.answer i (.fresh correlation)] ++ answers i 3 ++
    [.answer i (.executed r)]

def refireScript (r : Execution) : List GatewayAction :=
  launch 0 "d" "1" ++ launch 1 "c" "2" ++
    firesParent 2 0 "3" (.ok ⟨.emptyObject, [], some "wf_2", none, some (.subworkflow "wf_2")⟩) ++ answers 2 2 ++ firesParent 3 1 "4" r

def fruitless : Event Sig → Bool
  | .op (.executeEnd ..) _ | .op (.storeSave (.transition _) _ _) (.ok _) | .op (.storeSave ..) (.error _) => false
  | .op (.storeLoad _) answer => match (answer : Except Err WorkflowInstance) with
    | .ok child => child.resolved
    | .error _ => false
  | _ => true

theorem fruitless_spec (h : events.all fruitless) :
    (∀ e ∈ events, ¬ Concludes e) ∧ f.FindsDead events ∧ SavesTaken events := by
  rw [List.all_eq_true] at h
  refine ⟨fun e he hconcludes => ?_, ?_, fun kind next v r _ he => ?_⟩
  · have hfruitless := h e he
    unfold Concludes at hconcludes
    split at hconcludes
    · cases hfruitless
    · cases hfruitless
    · exact hconcludes
  · rintro before id r after rfl -
    have hfruitless := h _ (List.mem_append_right _ (.head _))
    cases r with
    | ok child => exact ⟨child, rfl, hfruitless⟩
    | error err => cases hfruitless
  · have hfruitless := h _ he
    cases r with
    | ok saved => exact ⟨saved, rfl⟩
    | error err => cases kind <;> cases hfruitless

def hasRefired (r : Execution) (stored : Option WorkflowInstance) : Thread Sig → Bool
  | ⟨_, hist, .pure _, _⟩ => match hist.drop 5 with
    | .op (.executeEnd (.declared f) _) (answer : Execution) :: after =>
      decide (answer = r ∧ f.awaits "wf_2" = true ∧ f.site = .submit ∧ stored = some (f.leaves after).before) &&
        after.all fruitless
    | _ => false
  | _ => false

theorem hasRefired_spec (h : hasRefired r stored t) : ∃ p before f request after v, ∃ stack : Stack Sig p,
    t = ⟨p, before ++ .op (.executeEnd (.declared f) request) r :: after, .pure v, stack⟩ ∧ f.awaits "wf_2" ∧
    f.site = .submit ∧ stored = some (f.leaves after).before ∧
    (∀ e ∈ after, ¬ Concludes e) ∧ f.FindsDead after ∧ SavesTaken after := by
  unfold hasRefired at h
  split at h
  · rename_i p hist v stack
    split at h
    · rename_i f request answer after hdrop
      obtain ⟨hfired, hafter⟩ := Bool.and_eq_true_iff.mp h
      obtain ⟨rfl, hawaits, hsite, hstored⟩ := of_decide_eq_true hfired
      refine ⟨p, hist.take 5, f, request, after, v, stack, ?_, hawaits, hsite, hstored, fruitless_spec hafter⟩
      rw [← hdrop, List.take_append_drop]
    · cases h
  · cases h

def refired (r : Execution) (m : Gateway) : Bool :=
  m.threads.any (hasRefired r (m.world.find "wf_1")) && (m.world.find "wf_2").any WorkflowInstance.resolved

def misfit : ExecuteResult :=
  ⟨.object [("x", .emptyObject)], [], some "wf_2", none, none⟩

/-- A step whose output the parent's typed slot rejects leaves the parent waiting for its dead child. -/
theorem rejected_output_keeps_dead_wait :
    ∃ m, Gateway.Reachable .requiring [("d", typedDefinition), ("c", childDefinition)] m ∧
      ((m.world.find "wf_2").any WorkflowInstance.resolved) = true ∧
      ∃ p before f request r after v, ∃ stack : Stack Sig p,
        ⟨p, before ++ .op (.executeEnd (.declared f) request) (.ok r) :: after, .pure v, stack⟩ ∈ m.threads ∧
        f.site = .submit ∧ f.awaits "wf_2" = true ∧ (∀ e ∈ after, ¬ Concludes e) ∧ f.FindsDead after ∧ SavesTaken after ∧
        m.world.find "wf_1" = some (f.leaves after).before ∧ (f.leaves after).awaits "wf_2" = true := by
  obtain ⟨m, hm, h⟩ := Gateway.reachable_of_script .requiring [("d", typedDefinition), ("c", childDefinition)]
    (refireScript (.ok misfit) ++ answers 3 3) (refired (.ok misfit) ·)
  obtain ⟨hfired, hchild⟩ := Bool.and_eq_true_iff.mp h
  obtain ⟨t, ht, hfired⟩ := List.any_eq_true.mp hfired
  obtain ⟨p, before, f, request, after, v, stack, rfl, hawaits, hsite, hstored, hlast, hdead, hsaved⟩ :=
    hasRefired_spec hfired
  refine ⟨m, hm, hchild, p, before, f, request, misfit, after, v, stack, ht, hsite, hawaits, hlast, hdead, hsaved, hstored, ?_⟩
  have hverified := Refire.verified hm _ ht
  have hmet := (refireMonitor.met_append.mp hverified.met).2
  rw [Refire.Shut.leaves (.inl rfl) hmet.2 hlast hdead]
  exact hawaits

/-- A step whose executor fails leaves the parent without the wait. -/
theorem failed_executor_consumes_dead_wait :
    ∃ m, Gateway.Reachable .requiring [("d", typedDefinition), ("c", childDefinition)] m ∧
      ∃ f : Firing, f.awaits "wf_2" = true ∧ ∃ after, m.world.find "wf_1" = some (f.leaves after).before ∧
        (∀ other, (f.leaves after).awaits other = false) ∧ Journaled m.world.journal (f.leaves after).before := by
  obtain ⟨m, hm, h⟩ := Gateway.reachable_of_script .requiring [("d", typedDefinition), ("c", childDefinition)]
    (refireScript (.error ⟨.permanent, "child failed", none⟩) ++ answers 3 6)
    (refired (.error ⟨.permanent, "child failed", none⟩) ·)
  obtain ⟨hfired, -⟩ := Bool.and_eq_true_iff.mp h
  obtain ⟨t, ht, hfired⟩ := List.any_eq_true.mp hfired
  obtain ⟨p, before, f, request, after, v, stack, rfl, hawaits, hsite, hstored, hlast, hdead, hsaved⟩ :=
    hasRefired_spec hfired
  obtain ⟨hiff, hjournaled⟩ := dead_wait_consumed_iff hm ht hlast hawaits hdead hsaved
  have hfree := hiff.mpr ⟨hsite, _, rfl⟩
  refine ⟨m, hm, f, hawaits, after, hstored, hfree, hjournaled fun heq => ?_⟩
  have hwait := hfree "wf_2"
  rw [heq, hawaits] at hwait
  cases hwait

end Praxec
