import Praxec.Executors.Parallel
import Praxec.Runtime.Outline

namespace Praxec

open Json Effect Prog Monitor Gateway Joined

def Proceeds : Event Sig → Prop
  | .op (.executeBegin ..) _ | .op (.executeEnd ..) _ | .op (.evidenceRecord ..) _ | .op (.auditTransition ..) _
  | .op (.storeSave (.transition _) _ _) _ | .op (.storeSave (.onEnter ..) _ _) _
  | .op (.storeSave (.slotUpdates ..) _ _) _ => True
  | _ => False

def suspensionMonitor : Monitor Sig Bool where
  next parked e := match e with
    | .op (.executeEnd ..) (.ok r) => r.suspend.isSome
    | _ => parked
  allows _ e := match e with
    | .op (.executeEnd site _) (.ok r) => r.suspend = none ∨ ∃ f, site = .declared f
    | _ => True
  demands parked e := Proceeds e → parked = false

variable {r : ExecuteResult}

namespace Suspension

variable {cfg : RuntimeConfig}

abbrev mon : Monitor Sig Bool := suspensionMonitor

abbrev Clean (parked : Bool) : Prop := parked = false

def Returned (r : ExecuteResult) (parked : Bool) : Prop :=
  parked = r.suspend.isSome

theorem Returned.clean (hs : r.suspend = none) (h : Returned r parked) : Clean parked := by
  unfold Returned at h
  rwa [hs] at h

def Apart : Event Sig → Prop
  | .op (.executeEnd ..) _ => False
  | _ => True

variable {e : Event Sig}

theorem next_apart (h : Apart e) : mon.next parked e = parked := by
  cases e with
  | call p r | timeout p r => rfl
  | op o r =>
    cases o with
    | executeEnd site request => exact h.elim
    | _ => rfl

theorem keeps_clean (h : Apart e) : mon.Keeps Clean e := by
  intro g hg _
  subst hg
  exact ⟨fun _ => rfl, next_apart h⟩

theorem Minor.apart (h : Minor e) : Apart e := by
  cases e with
  | call p r | timeout p r => trivial
  | op o r =>
    cases o with
    | executeEnd site request => exact nomatch h
    | _ => trivial

theorem clean_minor (h : Minor e) : mon.Keeps Clean e :=
  keeps_clean (Minor.apart h)

theorem clean_quiet (e : Event Sig) (h : Quiet e) : mon.Keeps Clean e :=
  clean_minor h.minor

theorem keeps_parked (h : Minor e) (hproceeds : ¬ Proceeds e) : mon.Keeps P e := by
  intro g hg _
  refine ⟨fun hp => absurd hp hproceeds, ?_⟩
  rwa [next_apart (Minor.apart h)]

theorem Handback.not_proceeds (h : Handback e) : ¬ Proceeds e := by
  intro hp
  unfold Proceeds at hp
  split at hp
  · exact nomatch h
  · exact nomatch h
  · exact nomatch h
  · exact nomatch h
  · exact nomatch h
  · exact nomatch h
  · exact nomatch h
  · exact hp

theorem parked_handback (e : Event Sig) (h : Handback e) : mon.Keeps P e :=
  keeps_parked h.calm.minor (Handback.not_proceeds h)

theorem parked_quiet (e : Event Sig) (h : Quiet e) : mon.Keeps P e :=
  parked_handback e h.handback

theorem clean_triple (hx : UsesE (mon.Keeps Clean) x) : mon.Triple Clean x (fun _ => Clean) fun _ _ => True :=
  .of_uses hx fun _ _ _ => trivial

variable {i next : WorkflowInstance}

theorem bracket :
    Bracket mon cfg i declared Clean (fun _ => Clean) (fun _ _ => Clean) (fun _ => Clean) (fun _ => Returned) Returned :=
  .plain (fun _ => parked_handback _) (fun _ => parked_handback) fun _ _ _ _ => keeps_clean trivial

theorem execute_returned : mon.Returns Clean (execute site request) (Settled (fun _ => Clean) Returned) := by
  have hbegin : mon.Returns Clean (Prog.perform (S := Sig) (.executeBegin site request)) fun _ => Clean :=
    .of_uses (.perform fun _ => keeps_clean trivial)
  refine hbegin.bind fun _ => .perform fun g r hg _ => ?_
  subst hg
  cases r with
  | ok r => exact ⟨fun _ => rfl, rfl⟩
  | error e => exact ⟨fun _ => rfl, rfl⟩

theorem execute_clean (hsite : ∀ f, site ≠ .declared f) :
    mon.Returns Clean (execute site request) (Settled (fun _ => Clean) fun _ => Clean) := by
  have hbegin : mon.Returns Clean (Prog.perform (S := Sig) (.executeBegin site request)) fun _ => Clean :=
    .of_uses (.perform fun _ => keeps_clean trivial)
  refine hbegin.bind fun _ => .perform fun g r hg ha => ?_
  subst hg
  cases r with
  | error e => exact ⟨fun _ => rfl, rfl⟩
  | ok r =>
    have hnone : r.suspend = none := ha.resolve_right fun ⟨f, hf⟩ => hsite f hf
    refine ⟨fun _ => rfl, ?_⟩
    change r.suspend.isSome = false
    rw [hnone]
    rfl

theorem suspendStep_parked : UsesE (fun e => Minor e ∧ ¬ Proceeds e) (suspendStep cfg d i t v p s) := by
  have hquiet {α : Type} {x : Run α} (hx : x.Uses Quiet) : x.Uses fun e => Minor e ∧ ¬ Proceeds e :=
    hx.mono fun _ h => ⟨h.minor, Handback.not_proceeds h.handback⟩
  cases s <;>
  exact .bind (.perform fun _ => ⟨rfl, id⟩) fun _ => .bind (.lift (hquiet recordIgnored_uses)) fun _ =>
    .lift (hquiet response_quiet)

theorem mergeResult_clean (hexecutor : (a.transition.get "executor").isSome) :
    mon.Triple (Returned r) (mergeResult cfg a arguments r) (fun _ => Clean) fun _ _ => True := by
  have hsuspend (s : StepSuspend) : mon.Triple (Returned r) (suspendStep cfg a.inst.definition a.inst a.request.transition
      a.request.expectedVersion a.request.principal s) (fun _ _ => True) fun _ _ => True :=
    (Triple.of_uses (suspendStep_parked.mono fun _ h => keeps_parked h.1 h.2) fun _ _ _ => trivial).mono fun _ _ _ => trivial
  cases hs : r.suspend with
  | some s => exact (mergeResult_parks hs (hsuspend s)).mono fun _ _ => False.elim
  | none =>
    refine (mergeResult_triple parked_quiet (fun _ _ _ _ => trivial) hexecutor hsuspend).mono fun _ g hg => ?_
    exact hg.2.clean hs

theorem failSubmit_clean : mon.Triple Clean (failSubmit cfg a arguments err) Q fun _ _ => True :=
  failSubmit_triple (fun _ => clean_minor) fun _ _ => trivial

theorem recordEvidence_clean {id : String} {evs : List Evidence} :
    mon.Returns Clean (recordEvidence cfg id evs) fun _ => Clean :=
  .of_uses (recordEvidence_uses fun _ _ _ => keeps_clean trivial)

theorem save_clean : mon.Triple Clean (saveIfVersion kind next v) (fun _ => Clean) fun _ _ => True :=
  clean_triple (.perform fun _ => keeps_clean trivial)

theorem commit_clean : mon.Triple Clean (commitTransition firing next note v) (fun _ => Clean) fun _ _ => True :=
  clean_triple (commitTransition_uses (fun _ => keeps_clean trivial) fun _ => keeps_clean trivial)

theorem runOnEnter_clean : mon.Triple Clean (runOnEnter cfg definition i c) (fun _ => Clean) fun _ _ => True := by
  refine runOnEnter_triple clean_quiet (fun _ _ _ => trivial) (fun _ => clean_quiet) (fun _ _ _ _ => trivial) (fun _ => id)
    (fun _ _ => execute_clean (by intro _ h; cases h)) fun onEnter r context _ _ _ _ => ?_
  exact (Triple.lift recordEvidence_clean).bind fun _ => save_clean

def outline : Outline Bool where
  idle := Clean
  ended _ := True
  validated _ _ := Clean
  ready _ _ := Clean
  worked _ _ _ := Clean
  driving _ _ := Clean
  chosen _ _ _ := Clean
  hopDone _ _ _ _ := Clean

theorem sound : outline.Plain mon cfg where
  called _ _ _ := trivial
  timed _ _ _ := trivial
  idle_ended _ _ := trivial
  driving_ended _ _ _ _ := trivial
  idle_minor _ := clean_minor
  created _ _ := keeps_clean trivial
  driving_quiet _ _ := clean_quiet
  chosen_quiet _ _ _ := clean_quiet
  checkArguments _ _ := clean_triple (checkArguments_quiet.mono clean_quiet)
  checkGuards _ _ _ := clean_triple (checkGuards_quiet.mono clean_quiet)
  runSubmitExecutor _ _ _ := runSubmitExecutor_triple clean_quiet (fun _ _ _ _ => trivial) bracket
    (fun _ _ _ _ _ hg => hg) (fun _ _ _ => minor_ends (fun _ => clean_minor) (fun _ _ => trivial) parkOnLock_minor)
    (fun _ _ _ _ _ _ _ _ => execute_returned) (fun hexecutor _ => mergeResult_clean hexecutor) fun _ => failSubmit_clean
  commitSubmit _ _ _ _ _ _ := commitSubmit_triple (C := fun _ => Clean) (.none clean_quiet) (fun _ _ _ => trivial)
    (fun _ _ => commit_clean.pre fun _ => And.right) (fun _ _ => clean_triple (auditRecord_uses.mono clean_quiet))
    (fun _ => recordEvidence_clean) (fun _ => runOnEnter_clean) fun _ _ => clean_triple (auditRecord_uses.mono clean_quiet)
  checkAndApplyTimeout _ _ _ := (checkAndApplyTimeout_triple (N := fun _ => Clean) clean_quiet
    (fun _ _ h => clean_minor h.minor)
    (fun _ _ _ => .of_uses (emitTransitionRecord_uses fun _ => keeps_clean trivial) fun _ _ => id)
    fun _ _ => save_clean).mono fun out _ hg => by cases out <;> exact hg
  runOnEnter _ _ _ := runOnEnter_clean
  selectHop args d := by
    refine selectHop_triple clean_quiet (fun _ _ _ _ => trivial) (fun candidates direct _ => ?_) fun candidate _ => ?_
    · exact .of_uses (selectDeterministicTransition_quiet.mono clean_quiet) fun _ _ => id
    · exact autoDriveHop_triple (.plain (fun _ h => clean_minor h.calm.minor) (fun _ _ h => clean_minor h.calm.minor)
          fun _ _ _ _ => keeps_clean trivial)
        (fun _ _ _ _ => trivial) (fun _ _ => id) (fun _ _ _ _ _ => trivial) (fun _ _ _ _ _ => trivial)
        (fun _ _ _ _ _ _ _ _ => execute_clean (by intro _ h; cases h)) fun _ _ _ _ => id
  runHopExecutor args d hop := runHopExecutor_triple clean_quiet (fun _ _ _ _ => trivial) (fun _ => parked_quiet)
    (fun _ _ _ _ _ => trivial) (fun _ _ _ _ => trivial) (fun _ _ _ _ _ _ _ _ => trivial) (fun _ _ _ _ _ _ _ _ => trivial)
    (fun _ _ _ _ hg => hg) (fun _ _ _ _ _ _ _ => execute_returned) fun _ _ hs _ _ _ => Returned.clean hs
  commitHop _ _ _ _ _ := commitHop_triple (C := fun _ => Clean) (.none clean_quiet) (fun _ _ _ => trivial)
    (fun _ => clean_quiet) (fun _ _ => commit_clean.pre fun _ => And.right) (fun _ => recordEvidence_clean)
    (fun _ => runOnEnter_clean) fun _ _ _ hg => hg

theorem parked_met (h : mon.Met true hist) : ∀ e ∈ hist, ¬ Proceeds e := by
  induction hist with
  | nil => simp
  | cons e rest ih =>
    have hproceeds : ¬ Proceeds e := fun hp => absurd (h.1 hp) (by simp)
    have hapart : Apart e := by
      cases e with
      | call p r | timeout p r => trivial
      | op o r =>
        cases o with
        | executeEnd site request => exact absurd trivial hproceeds
        | _ => trivial
    refine List.forall_mem_cons.mpr ⟨hproceeds, ih ?_⟩
    have hrest := h.2
    rwa [next_apart hapart] at hrest

end Suspension

def SuspendsDeclared (m : Gateway) (a : GatewayAction) (_ : Gateway) : Prop :=
  ∀ p hist site request r, m.Appends a p hist (.op (.executeEnd site request) (.ok r)) →
    r.suspend = none ∨ ∃ f, site = .declared f

variable {m : Gateway}

theorem suspendsDeclared_allows (h : SuspendsDeclared m a m')
    (p : Proc) (hist : History) (o : Op) (r : o.Res) (he : m.Appends a p hist (.op o r)) :
    suspensionMonitor.allows (suspensionMonitor.after false hist) (.op o r) := by
  cases o with
  | executeEnd site request =>
    cases r with
    | error _ => trivial
    | ok r => exact h p hist site request r he
  | _ => trivial

theorem workflowResult_terminal {lib : Libraries} {config : Value} {definitionId : String} {call : ChildCall}
    {response : Response} (h : workflowResult lib config definitionId call response = .ok r)
    (hs : r.suspend = none) : isTerminal response.workflow.definition response.workflow.state := by
  have hconcluded {childId : String} {context : Value} {status : MissionStatus}
      (h : concludeSubworkflow lib config definitionId childId status context = .ok r) : status = .succeeded := by
    cases status with
    | succeeded => rfl
    | failed reason => cases h
    | running | waiting =>
      cases h
      cases hs
  have hstatus : response.status = .succeeded := by
    unfold workflowResult at h
    split at h
    · cases h
    · exact hconcluded h
    · exact hconcluded h
  unfold Response.status deriveMissionStatus at hstatus
  cases hterminal : isTerminal response.workflow.definition response.workflow.state with
  | true => rfl
  | false =>
    rw [hterminal] at hstatus
    revert hstatus
    cases response.hint <;> simp <;> split <;> simp

def childEntryDefinition : Value :=
  definitionOf "a" [("a", stateOf [("go", transitionOf "b" "deterministic" [])]),
    ("b", .object [("terminal", .bool true), ("onEnter", .object [("executor", .object [("kind", "workflow")]),
      ("output", .object [("x", "$.output.x")])])])]

def childHopDefinition : Value :=
  definitionOf "a" [("a", stateOf [("go", transitionOf "b" "deterministic"
    [("executor", .object [("kind", "workflow")])])]), ("b", terminalState)]

def parkedResult : ExecuteResult :=
  ⟨.object [("x", .nat 1)], [], some "wf_2", none, some (.subworkflow "wf_2")⟩

def handedAt (n : Nat) (φ : History → Bool) (x : Proc × History) : Bool :=
  match x.2.drop n with
  | .op (.executeEnd ..) (answer : Execution) :: after => decide (answer = .ok parkedResult) && φ after
  | _ => false

theorem handedAt_spec (h : (m.threads.any fun t => t.activations.any (handedAt n φ))) :
    ∃ t ∈ m.threads, ∃ x ∈ t.activations, ∃ before site request after,
    x.2 = before ++ .op (.executeEnd site request) (.ok parkedResult) :: after ∧ φ after := by
  obtain ⟨t, ht, h⟩ := List.any_eq_true.mp h
  obtain ⟨x, hx, h⟩ := List.any_eq_true.mp h
  unfold handedAt at h
  split at h
  · rename_i site request answer after hdrop
    obtain ⟨hanswer, hafter⟩ := Bool.and_eq_true_iff.mp h
    obtain rfl := of_decide_eq_true hanswer
    exact ⟨t, ht, x, hx, x.2.take n, site, request, after, by rw [← hdrop, List.take_append_drop], hafter⟩
  · cases h

def storesEntry : Event Sig → Bool
  | .op (.storeSave (.onEnter ..) next _) (.ok _) => decide (next.context.get "x" = some (.nat 1))
  | _ => false

def parksDeclared (m : Gateway) (a : GatewayAction) : Bool :=
  match a with
  | .answer i (.executed (.ok r)) => r.suspend.isNone || match m.pending (.answer i (.executed (.ok r))) with
    | some (.executeEnd (.declared _) _) => true
    | _ => false
  | _ => true

theorem suspendsDeclared_of_action (h : parksDeclared m a) : SuspendsDeclared m a m' := by
  intro p hist site request r happ
  obtain ⟨i, rfl⟩ := executed_of_appends happ
  unfold parksDeclared at h
  dsimp only at h
  rw [happ.pending] at h
  rcases Bool.or_eq_true_iff.mp h with hnone | hsite
  · exact .inl (by simpa using hnone)
  · cases site with
    | declared f => exact .inr ⟨f, rfl⟩
    | _ => cases hsite

end Praxec
