import Praxec.Runtime.Solo

namespace Praxec

open Json Effect Prog Monitor List Option Bool Gateway

variable {cfg : RuntimeConfig} {request : SubmitTransition}

def Op.passive : Op → Bool
  | .storeLoad _ | .auditRecord _ | .guardEvaluate .. | .lockHeld | .now | .freshId => true
  | _ => false

def Passive : Event Sig → Prop
  | .op o _ => o.passive = true
  | _ => False

structure SameRuns (w w' : World) : Prop where
  instances : w'.instances = w.instances
  leases : w'.locks.reap w'.now = w.locks.reap w.now
  scheduler : w'.scheduler = w.scheduler

theorem RepoLockSpace.reap_reap (space : RepoLockSpace) (now : Nat) : (space.reap now).reap now = space.reap now := by
  simp [reap, List.filter_filter]

theorem World.handle_passive {w w' : World} {o : Op} {input : Input} {r : o.Res} (ho : o.passive)
    (hr : w.handle o input = some (r, w')) : SameRuns w w' := by
  cases o with
  | lockHeld =>
    cases input with
    | auto =>
      cases hr
      exact ⟨rfl, RepoLockSpace.reap_reap _ _, rfl⟩
    | _ => cases hr
  | storeLoad _ | auditRecord _ | guardEvaluate _ _ _ _ | now | freshId => cases input <;> cases hr <;> exact ⟨rfl, rfl, rfl⟩
  | _ => cases ho

theorem recordOrSelfEvent_passive : (recordOrSelfEvent e).Uses Passive := by
  refine .bind (.perform fun _ => rfl) fun r => ?_
  cases r with
  | ok _ => trivial
  | error _ => exact .bind (.perform fun _ => rfl) fun _ => trivial

theorem freshId_passive : (freshId tag).Uses Passive :=
  .bind (.perform fun _ => rfl) fun _ => trivial

theorem evaluateOutcomes_passive : (evaluateOutcomes d i p).Uses Passive := by
  unfold evaluateOutcomes
  induction ((d.get "outcomes").bind Value.asArray).getD [] with
  | nil => trivial
  | cons oc rest ih => exact .bind (.perform fun _ => rfl) fun _ => .bind ih fun _ => trivial

variable {inst : WorkflowInstance}

def Overdue (inst : WorkflowInstance) (time : Nat) : Prop :=
  ∃ timeoutMs target, u64Field inst.definition "timeoutMs" = some timeoutMs ∧
    isTerminal inst.definition inst.state = false ∧ inst.startedAt ≤ time ∧ timeoutMs ≤ time - inst.startedAt ∧
    (inst.definition.walk ["onTimeout", "target"]).bind Value.asStr = some target

def Loaded (request : SubmitTransition) (inst : WorkflowInstance) (h : History) : Prop :=
  h.head? = some (.op (.storeLoad request.workflowId) (.ok inst))

/-- The submit has loaded a run whose state does not declare its transition, and no deadline was due when the clock
was read. -/
def Blocked (request : SubmitTransition) (h : History) : Prop :=
  ∃ inst, Loaded request inst h ∧ transitionDefinition inst.definition inst.state request.transition = none ∧
    ∀ time : Nat, Event.op (S := Sig) .now time ∈ h → ¬ Overdue inst time

def Free (request : SubmitTransition) (h : History) : Prop :=
  h ≠ [] ∧ ¬ Blocked request h

theorem Loaded.stable (inst : WorkflowInstance) : Stable (Loaded request inst) := by
  intro h e hh
  cases h with
  | nil => cases hh
  | cons _ _ => exact hh

theorem Free.stable : Stable (Free request) := by
  intro h e ⟨hne, hfree⟩
  refine ⟨by simp, fun ⟨inst, hloaded, hnone, hdue⟩ => hfree ⟨inst, ?_, hnone, fun time ht => ?_⟩⟩
  · cases h with
    | nil => exact absurd rfl hne
    | cons _ _ => exact hloaded
  · exact hdue time (mem_append_left _ ht)

abbrev blocking (request : SubmitTransition) : Monitor Sig History :=
  .history (fun _ => True) fun h e => h = [] ∨ Blocked request h → Passive e

theorem free_any : (blocking request).Returns (Free request) x fun _ => Free request :=
  .of_uses (.all (fun _ => Free.stable.keeps fun _ hh _ hblocked => (hblocked.elim hh.1 hh.2).elim) x)

theorem free_stage
    (hB : ∀ e h, Free request h → B e h) : (blocking request).Triple (Free request) x (fun _ => Free request) B := by
  refine (free_any).mono fun r h hh => ?_
  cases r with
  | ok a => exact hh
  | error e => exact hB e h hh

theorem loaded_passive (he : Passive e) : (blocking request).Keeps (Loaded request inst) e :=
  (Loaded.stable inst).keeps fun _ _ _ _ => he

theorem passive_returns (hx : x.Uses Passive) :
    (blocking request).Returns (Loaded request inst) x fun _ => Loaded request inst :=
  .of_uses (hx.mono fun _ => loaded_passive)

theorem recordRejected_passive : (blocking request).Returns (Loaded request inst)
    (recordRejected inst.definition inst request.principal cfg code message request.transition c)
    fun r h => (r.hint = .rejected ∧ r.workflow = inst) ∧ Loaded request inst h := by
  have hheld : (Prog.perform (S := Sig) .lockHeld : Run (List HeldLock)).Uses Passive := .perform fun _ => rfl
  refine (passive_returns recordOrSelfEvent_passive).bind fun _ => (passive_returns evaluateOutcomes_passive).bind fun _ => ?_
  split
  · exact (passive_returns hheld).bind fun _ => .pure fun _ hh => ⟨⟨rfl, rfl⟩, hh⟩
  · exact .pure fun _ hh => ⟨⟨rfl, rfl⟩, hh⟩

def Unaudited (h : History) : Prop :=
  ∃ event e, Event.op (S := Sig) (.auditRecord event) (.error e) ∈ h

/-- How a blocked submit ends: in a rejection that shows the loaded run, or in an error if the run is cancelled, its
input is not valid or the audit sink fails. -/
def RefusedWith (cfg : RuntimeConfig) (inst : WorkflowInstance) (h : History) : Except Err Response → Prop
  | .ok r => r.hint = .rejected ∧ r.workflow = inst
  | .error _ => inst.cancelledAt.isSome ∨ validateInput cfg inst.definition inst.input ≠ .ok () ∨ Unaudited h

def Turned (cfg : RuntimeConfig) (request : SubmitTransition) (e : Exit Err Response) (h : History) : Prop :=
  Free request h ∨ ∃ inst, Loaded request inst h ∧ RefusedWith cfg inst h (match e with
    | .fail e => .error e
    | .reply r => .ok r)

theorem checkAndApplyTimeout_blocked : (blocking request).Triple (Loaded request inst)
    (checkAndApplyTimeout inst.definition inst request.principal)
    (fun out h => Free request h ∨ out = none ∧ Loaded request inst h) fun _ h => Free request h := by
  have hnone : (blocking request).Triple (Loaded request inst) (pure none : Fallible (Option WorkflowInstance))
      (fun out h => Free request h ∨ out = none ∧ Loaded request inst h) fun _ h => Free request h :=
    .pure fun _ hh => .inr ⟨rfl, hh⟩
  unfold checkAndApplyTimeout
  split
  · exact hnone
  rename_i timeoutMs hdeclared
  split
  · exact hnone
  rename_i hterminal
  have hclock : (blocking request).Returns (Loaded request inst) now fun time h =>
      Loaded request inst h ∧ Event.op (S := Sig) .now time ∈ h :=
    .perform fun h time hh _ => ⟨fun _ => rfl, Loaded.stable inst h _ hh, mem_append_right _ (.head _)⟩
  refine (Triple.lift hclock).bind fun time => ?_
  split
  · exact hnone.pre fun _ hh => hh.1
  split
  · exact ((Triple.lift (passive_returns recordOrSelfEvent_passive)).bind fun _ => hnone).pre fun _ hh => hh.1
  rename_i target htarget
  have hoverdue : Overdue inst time :=
    ⟨timeoutMs, target, hdeclared, eq_false_iff.mpr hterminal, by omega, by omega, htarget⟩
  refine ((free_stage fun _ _ => id).mono fun _ _ => .inl).pre fun h hh => ?_
  obtain ⟨hloaded, hnow⟩ := hh
  constructor
  · rintro rfl
    cases hloaded
  · rintro ⟨inst', hloaded', -, hdue⟩
    cases hloaded.symm.trans hloaded'
    exact hdue time hnow hoverdue

theorem admitSubmit_blocked (hhalt : request.transition ≠ haltTransition) : (blocking request).Triple (fun h => h = [])
    (admitSubmit cfg request) (fun _ => Free request) (Turned cfg request) := by
  have hload : (blocking request).Triple (fun h => h = []) (load request.workflowId)
      (fun inst => Loaded request inst) fun _ => Free request := by
    refine Returns.perform fun h r hh _ => ⟨fun _ => rfl, ?_⟩
    subst hh
    cases r with
    | ok inst => rfl
    | error e => exact ⟨cons_ne_nil _ _, fun ⟨_, hloaded, _⟩ => by cases hloaded⟩
  refine (Triple.attempt (hload.failing fun _ _ => .inl)).bind fun inst => ?_
  by_cases hnone : transitionDefinition inst.definition inst.state request.transition = none
  swap
  · refine (free_stage fun _ _ => .inl).pre fun h hloaded => ⟨?_, ?_⟩
    · rintro rfl
      cases hloaded
    · rintro ⟨inst', hloaded', hnone', -⟩
      cases hloaded.symm.trans hloaded'
      exact hnone hnone'
  have hturn {e : Err} {h : History} (hloaded : Loaded request inst h) (herr : RefusedWith cfg inst h (.error e)) :
      Turned cfg request (.fail e) h :=
    .inr ⟨inst, hloaded, herr⟩
  have hreject {α : Type} {Q : α → History → Prop} {code message c : String} :
      (blocking request).Triple (Loaded request inst) (reject cfg inst request c code message) Q (Turned cfg request) :=
    replyWith_triple recordRejected_passive fun r h hr => .inr ⟨inst, hr.2, hr.1⟩
  have haudit {event : AuditEvent} : (blocking request).Triple (Loaded request inst) (auditRecord event)
      (fun _ => Loaded request inst) fun e => Turned cfg request (.fail e) := by
    refine Returns.perform fun h r hh _ => ⟨fun _ => rfl, ?_⟩
    have hloaded := Loaded.stable inst h (.op (.auditRecord event) r) hh
    cases r with
    | ok _ => exact hloaded
    | error e => exact hturn hloaded (.inr (.inr ⟨event, e, mem_append_right _ (.head _)⟩))
  refine (Triple.lift (passive_returns freshId_passive)).bind fun c =>
    (Triple.onlyIf fun heq => absurd heq hhalt).bind fun _ => ?_
  refine .computeStage (fun e hinvalid h hloaded => hturn hloaded (.inr (.inl (by simp [hinvalid])))) fun _ _ => ?_
  refine (Triple.exitIf fun hcancelled => .throw fun h hloaded => hturn hloaded (.inl hcancelled)).bind fun _ =>
    .assume fun _ => ?_
  refine (Triple.attempt (checkAndApplyTimeout_blocked.failing fun _ _ => .inl)).bind fun out h hout => ?_
  rcases hout with hfree | ⟨rfl, hloaded⟩
  · exact free_stage (fun _ _ => .inl) h hfree
  refine (Triple.bind (Triple.attempt haudit) fun _ => ?_) h hloaded
  refine (Triple.exitIf fun _ => hreject).bind fun _ => .assume fun _ => ?_
  rw [hnone]
  exact hreject

theorem dispatchOnce_blocked (hhalt : request.transition ≠ haltTransition) : (blocking request).Triple (fun h => h = [])
    (dispatchOnce cfg request)
    (fun outcome h => Free request h ∨ outcome.nextTransition = none ∧ Turned cfg request (.reply outcome.response) h)
    fun e => Turned cfg request (.fail e) := by
  refine (Triple.finish ((admitSubmit_blocked hhalt).bind fun a => free_stage fun _ _ => .inl)).mono fun outcome h hh => ?_
  rcases hh with hfree | ⟨r, rfl, hturned⟩
  · exact .inl hfree
  · exact .inr ⟨rfl, hturned⟩

theorem submit_blocked (hhalt : request.transition ≠ haltTransition) : (blocking request).wp (submit cfg request).run
    (fun v h => Free request h ∨ ∃ inst, Loaded request inst h ∧ RefusedWith cfg inst h v) [] := by
  suffices htriple : (blocking request).Triple (fun h => h = []) (submit cfg request)
      (fun r => Turned cfg request (.reply r)) fun e => Turned cfg request (.fail e) by
    refine wp_mono (fun v h hv => ?_) (htriple [] rfl)
    cases v with
    | ok r => exact hv
    | error e => exact hv
  unfold submit submitLoop
  refine (dispatchOnce_blocked hhalt).bind fun outcome h hh => ?_
  rcases hh with hfree | ⟨hnext, hturned⟩
  · exact ((free_stage fun _ _ => .inl).mono fun _ _ => .inl) h hfree
  · rw [hnext]
    exact hturned

def namedSubmit (transition : String) : SubmitTransition :=
  { goSubmit "wf_1" 0 with transition := transition }

def answeredWith (request : SubmitTransition) (hint : StatusHint) : Thread Sig → Bool
  | ⟨.submit request', _, .pure (.ok r), .root _⟩ => decide (request' = request ∧ r.hint = hint)
  | _ => false

theorem answeredWith_spec (h : answeredWith request hint t) :
    ∃ hist r, ∃ stack : Stack Sig (Proc.submit request), t = ⟨Proc.submit request, hist, .pure (.ok r), stack⟩ ∧
    r.hint = hint := by
  unfold answeredWith at h
  split at h
  · obtain ⟨rfl, hhint⟩ := of_decide_eq_true h
    exact ⟨_, _, _, rfl, hhint⟩
  · cases h

def idleFor (transition : String) (inst : WorkflowInstance) : Prop :=
  inst.cancelledAt = none ∧ u64Field inst.definition "timeoutMs" = none ∧
    transitionDefinition inst.definition inst.state transition = none

instance (transition : String) (inst : WorkflowInstance) : Decidable (idleFor transition inst) :=
  inferInstanceAs (Decidable (_ ∧ _ ∧ _))

def loadedIdle (transition : String) (h : History) : Bool :=
  match h with
  | .op (.storeLoad id) (.ok inst) :: _ => decide (id = "wf_1" ∧ idleFor transition inst)
  | _ => false

theorem loadedIdle_spec (hloaded : loadedIdle transition h) : Blocked (namedSubmit transition) h := by
  unfold loadedIdle at hloaded
  split at hloaded
  · rename_i id inst rest
    obtain ⟨rfl, -, hdeadline, hnone⟩ := of_decide_eq_true hloaded
    refine ⟨inst, rfl, hnone, fun time _ ⟨timeoutMs, _, hdeclared, _⟩ => ?_⟩
    cases hdeadline.symm.trans hdeclared
  · cases hloaded

end Praxec
