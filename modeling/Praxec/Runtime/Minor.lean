import Praxec.Runtime.Footprint

namespace Praxec

open Json Effect Prog

variable {cfg : RuntimeConfig}

/-- Requests that neither run an executor, store evidence, record or commit a transition, create a run nor lease
declared files. -/
def Op.minor : Op → Bool
  | .storeSave (.transition _) .. | .storeCreate _ | .auditTransition .. | .evidenceRecord .. | .executeBegin ..
  | .executeEnd .. | .lockAcquire .. => false
  | _ => true

def Proc.outermost : Proc → Bool
  | .start _ => true
  | _ => false

def Minor : Event Sig → Prop
  | .op o _ => o.minor = true
  | .call p _ | .timeout p _ => p.outermost = false

variable {e : Event Sig}

theorem Quiet.minor (h : Quiet e) : Minor e := by
  cases e with
  | op o r => cases o <;> simp_all [Quiet, Minor, Op.quiet, Op.minor]
  | call p r | timeout p r => trivial

theorem minor_of_quiet {α : Type} {x : Run α} (hx : x.Uses Quiet) : x.Uses Minor :=
  hx.mono fun _ => Quiet.minor

def Op.calm : Op → Bool
  | .storeSave .. | .storeCreate _ => false
  | o => o.minor

def Calm : Event Sig → Prop
  | .op o _ => o.calm = true
  | .call (.runDeterministicChain _) _ | .timeout .. => False
  | .call p _ => p.outermost = false

theorem Calm.minor (h : Calm e) : Minor e := by
  cases e with
  | op o r => cases o <;> first | exact h | exact nomatch h
  | call p r => cases p <;> first | exact h | exact h.elim
  | timeout p r => exact h.elim

theorem Quiet.calm (h : Quiet e) : Calm e := by
  cases e with
  | op o r => cases o <;> first | rfl | exact nomatch h
  | call p r | timeout p r => exact h.elim

theorem calm_of_quiet {α : Type} {x : Run α} (hx : x.Uses Quiet) : x.Uses Calm :=
  hx.mono fun _ => Quiet.calm

def Handback : Event Sig → Prop
  | .op (.lockRelease ..) _ | .call .resumeReadyLocks _ => True
  | e => Quiet e

theorem Quiet.handback (h : Quiet e) : Handback e := by
  cases e with
  | op o r => cases o <;> first | exact h | trivial
  | call p r | timeout p r => exact h.elim

theorem Handback.calm (h : Handback e) : Calm e := by
  cases e with
  | op o r => cases o <;> first | rfl | exact (Quiet.calm h)
  | call p r => cases p <;> trivial
  | timeout p r => exact h.elim

theorem Handback.minor (h : Handback e) : Minor e :=
  Calm.minor (Handback.calm h)

class Frees (A : Event Sig → Prop) : Prop extends Reports A where
  release (files : List Path) (holder : String) (r : Unit) : A (.op (.lockRelease files holder) r)
  wake (r : Unit) : A (.call .resumeReadyLocks r)

/-- Footprints with everything calm in them, but for the evaluation of guards. -/
class Calms (A : Event Sig → Prop) : Prop extends Frees A where
  calm (o : Op) (r : o.Res) : o.calm = true → o.governed = false → A (.op o r)
  submit (request : SubmitTransition) (r : Except Err Response) : A (.call (.submit request) r)

class Minors (A : Event Sig → Prop) : Prop extends Calms A where
  minor (o : Op) (r : o.Res) : o.minor = true → o.governed = false → A (.op o r)

instance : Frees Handback where
  report _ _ h _ := Quiet.handback h
  release _ _ _ := trivial
  wake _ := trivial

instance : Calms Calm where
  report _ _ h _ := Quiet.calm h
  release _ _ _ := rfl
  wake _ := rfl
  calm _ _ h _ := h
  submit _ _ := rfl

instance : Minors Minor where
  report _ _ h _ := Quiet.minor h
  release _ _ _ := rfl
  wake _ := rfl
  calm _ _ h _ := Calm.minor h
  submit _ _ := rfl
  minor _ _ h _ := h

variable {id reason : String}

section

variable {A : Event Sig → Prop}

theorem releaseLease_uses [Frees A] : (releaseLease cfg lease i).Uses A := by
  unfold releaseLease
  split
  · trivial
  cases cfg.repoLocks with
  | false => trivial
  | true =>
    exact .bind (.perform fun r => Frees.release (A := A) _ _ r) fun _ =>
      .bind recordIgnored_uses fun _ => fun r => ⟨Frees.wake (A := A) r, trivial⟩

section

variable [Calms A]

theorem perform_calm (hcalm : o.calm) (hfree : o.governed = false) :
    (Prog.perform (S := Sig) o).Uses A :=
  .perform fun r => Calms.calm o r hcalm hfree

theorem releaseMembers_uses : (releaseMembers members holder).Uses A :=
  .onlyIf fun _ => perform_calm rfl rfl

theorem acquirePools_uses : UsesE A (acquirePools cfg holder pools env acquired) := by
  induction pools generalizing env acquired with
  | nil => trivial
  | cons pool rest ih =>
    unfold acquirePools
    split
    · exact ih
    · refine .bind (.onlyIf fun _ => .bind (.lift releaseMembers_uses) fun _ => trivial) fun _ =>
        .bind (.lift (perform_calm rfl rfl)) fun result => ?_
      cases result with
      | ok member => exact .bind (.lift recordIgnored_uses) fun _ => ih
      | error _ => exact .bind (.lift releaseMembers_uses) fun _ => trivial

theorem acquireRunLeases_uses : UsesE A (acquireRunLeases cfg d env isRoot) := by
  unfold acquireRunLeases
  split
  · trivial
  dsimp only
  split
  · trivial
  cases cfg.repoLocks with
  | false => trivial
  | true =>
    cases runLeaseHolder env with
    | none => trivial
    | some holder => exact acquirePools_uses

theorem releaseRunLeases_uses : (releaseRunLeases cfg i).Uses A := by
  unfold releaseRunLeases
  split
  · trivial
  cases cfg.repoLocks with
  | false => trivial
  | true =>
    cases runLeaseHolder i.runEnv with
    | none => trivial
    | some holder =>
      exact .bind releaseMembers_uses fun _ => .bind recordIgnored_uses fun _ =>
        fun r => ⟨Frees.wake (A := A) r, trivial⟩

theorem resumeParentIfAny_uses : (resumeParentIfAny i).Uses A := by
  unfold resumeParentIfAny
  split
  · trivial
  split
  · trivial
  refine .bind load_uses fun loaded => ?_
  cases loaded with
  | error _ => trivial
  | ok parent =>
    exact .bind recordOrSelfEvent_uses fun _ => fun r => ⟨Calms.submit (A := A) _ r, trivial⟩

theorem redrive_uses : (redrive w).Uses A := by
  refine .bind load_uses fun loaded => ?_
  cases loaded with
  | error _ => trivial
  | ok _ => exact .bind recordIgnored_uses fun _ => fun r => ⟨Calms.submit (A := A) _ r, trivial⟩

theorem resumeReadyLocks_uses : (resumeReadyLocks cfg).Uses A := by
  unfold resumeReadyLocks
  cases (cfg.repoLocks && cfg.lockScheduler) with
  | false => trivial
  | true =>
    refine .bind (perform_calm rfl rfl) fun held => .bind (perform_calm rfl rfl) fun ready => ?_
    cases ready with
    | none => trivial
    | some w => exact .bind redrive_uses fun _ => fun r => ⟨Frees.wake (A := A) r, trivial⟩

theorem recoverOneLock_uses : (recoverOneLock i).Uses A := by
  unfold recoverOneLock
  split
  · trivial
  dsimp only
  split
  · exact recordOrSelfEvent_uses
  · exact perform_calm rfl rfl

theorem recoverLocks_uses : (recoverLocks insts).Uses A := by
  induction insts with
  | nil => trivial
  | cons inst rest ih => exact .bind recoverOneLock_uses fun _ => ih

theorem recoverSuspendedLocks_uses : (recoverSuspendedLocks cfg).Uses A := by
  unfold recoverSuspendedLocks
  split
  · trivial
  · exact .bind (perform_calm rfl rfl) fun _ => recoverLocks_uses

theorem recoverOneSubworkflow_uses : (recoverOneSubworkflow i).Uses A := by
  unfold recoverOneSubworkflow
  split
  · trivial
  dsimp only
  split
  · exact recordOrSelfEvent_uses
  · exact .bind recordOrSelfEvent_uses fun _ => fun r => ⟨Calms.submit (A := A) _ r, trivial⟩

theorem recoverSubworkflows_uses : (recoverSubworkflows insts).Uses A := by
  induction insts with
  | nil => trivial
  | cons inst rest ih => exact .bind recoverOneSubworkflow_uses fun _ => ih

theorem recoverSuspendedSubworkflows_uses : recoverSuspendedSubworkflows.Uses A :=
  .bind (perform_calm rfl rfl) fun _ => recoverSubworkflows_uses

end

section

variable [Minors A]

theorem perform_minor (hminor : o.minor) (hfree : o.governed = false) :
    (Prog.perform (S := Sig) o).Uses A :=
  .perform fun r => Minors.minor o r hminor hfree

theorem cancel_uses : UsesE A (cancel cfg id reason) := by
  refine .bind load_uses fun i => ?_
  split
  · trivial
  exact .bind (.lift now_uses) fun _ => .bind (perform_minor rfl rfl) fun _ =>
    .bind (.lift recordOrSelfEvent_uses) fun _ =>
    .bind (.lift releaseRunLeases_uses) fun _ => .lift resumeParentIfAny_uses

theorem cancelIgnored_uses : (cancelIgnored cfg id reason).Uses A :=
  .bind cancel_uses fun _ => trivial

theorem consumeDeadSubworkflowWait_uses : (consumeDeadSubworkflowWait i t).Uses A := by
  unfold consumeDeadSubworkflowWait
  split
  · trivial
  split
  · trivial
  split
  · trivial
  refine .bind load_uses fun loaded => ?_
  cases loaded with
  | error _ => trivial
  | ok child =>
    dsimp only
    split
    · trivial
    refine .bind (perform_minor rfl rfl) fun saved => ?_
    cases saved with
    | error _ => trivial
    | ok _ => exact .bind recordOrSelfEvent_uses fun _ => trivial

theorem bindSpawnIgnored_uses : (bindSpawnIgnored link childId).Uses A := by
  have hbind : UsesE A (recordSubworkflowSpawnBinding link childId) :=
    .bind load_uses fun _ => .bind (perform_minor rfl rfl) fun _ => trivial
  exact .bind hbind fun _ => trivial

end

end

theorem parkOnLock_minor : UsesE Minor (parkOnLock cfg d i t v p files conflict) :=
  .bind (.perform fun _ => rfl) fun _ => .bind (.onlyIf fun _ => .lift (.perform fun _ => rfl)) fun _ =>
    .bind (.lift recordIgnored_uses) fun _ => .lift (minor_of_quiet response_quiet)

theorem suspendStep_minor : UsesE Minor (suspendStep cfg d i t v p s) := by
  cases s <;>
  exact .bind (.perform fun _ => rfl) fun _ => .bind (.lift recordIgnored_uses) fun _ =>
    .lift (minor_of_quiet response_quiet)

section

theorem persistSlotUpdates_minor : UsesE Minor (persistSlotUpdates cfg a arguments updates) := by
  unfold persistSlotUpdates
  split
  · trivial
  split
  · trivial
  refine .bind (.lift (.perform fun _ => rfl)) fun saved => ?_
  cases saved with
  | ok _ => trivial
  | error e =>
    dsimp only
    split
    · exact minor_of_quiet reject_quiet
    · trivial

end

section

theorem driveChainWithDeadline_minor : UsesE Minor (driveChainWithDeadline cfg args) := by
  unfold driveChainWithDeadline
  dsimp only
  split
  · exact fun _ => ⟨rfl, trivial⟩
  split
  · exact .lift missionDeadlineExceededOutcome_uses
  refine .bind (.lift fun _ => ⟨rfl, trivial⟩) fun inner => ?_
  cases inner with
  | some outcome => trivial
  | none =>
    exact .bind load_uses fun _ => .lift missionDeadlineExceededOutcome_uses

variable {r : DriveReport}

theorem respond_minor {result : ChainResult} {hint : StatusHint} {e : Option ResponseError} :
    (r.respond cfg result hint e).Uses Minor :=
  .bind (minor_of_quiet response_quiet) fun _ => trivial

theorem cancelled_minor : UsesE Minor (r.cancelled cfg result code reason detail) :=
  .bind cancel_uses fun _ => .bind load_uses fun _ => .bind (.lift (minor_of_quiet response_quiet)) fun _ => trivial

theorem settle_minor : UsesE Minor (r.settle cfg outcome) := by
  cases outcome with
  | completed result =>
    refine .bind (.onlyIf fun _ => ?_) fun _ => .lift respond_minor
    exact .bind (.lift releaseRunLeases_uses) fun _ => .bind auditRecord_uses fun _ =>
      .bind (.lift (minor_of_quiet emitOutcomeRecorded_quiet)) fun _ =>
      .onlyIf fun _ => .lift resumeParentIfAny_uses
  | failed result error errorClass failedTransition =>
    exact .bind (.lift releaseRunLeases_uses) fun _ => .bind (.lift respond_minor) fun _ =>
      .bind (.onlyIf fun _ => .lift cancelIgnored_uses) fun _ => trivial
  | waitingOnLock result transition files conflict => exact parkOnLock_minor
  | suspended result suspend transition => exact suspendStep_minor
  | quarantined result reason | deadlineExceeded result reason _ _ => exact cancelled_minor
  | aborted result reason => exact .lift respond_minor

theorem driveAndSettle_minor : UsesE Minor (driveAndSettle cfg r i) :=
  .bind driveChainWithDeadline_minor fun _ => .bind settle_minor fun _ => trivial

end

section

variable {A : Event Sig → Prop}

theorem emitTransitionRecord_uses (h : ∀ r, A (.op (.auditTransition firing (transitionRecord i p)) r)) :
    UsesE A (emitTransitionRecord firing i p) := by
  refine .bind (.lift (.perform h)) fun written => ?_
  cases written <;> trivial

theorem commitTransition_uses
    (hrecord : ∀ r, A (.op (.auditTransition firing (transitionRecord next (recordParams firing next note))) r))
    (hsave : ∀ r, A (.op (.storeSave (.transition firing) next v) r)) :
    UsesE A (commitTransition firing next note v) :=
  .bind (emitTransitionRecord_uses hrecord) fun _ => .perform hsave

theorem recordEvidence_uses
    (h : ∀ ev ∈ evs, ∀ r, A (.op (.evidenceRecord id ev) r)) : (recordEvidence cfg id evs).Uses A := by
  induction evs with
  | nil => trivial
  | cons ev rest ih =>
    refine .bind (.onlyIf fun _ => ?_) fun _ => ih fun ev hev => h ev (.tail _ hev)
    exact .bind (.perform (h ev (.head _))) fun _ => trivial

def timedOut (inst : WorkflowInstance) (target : String) : WorkflowInstance :=
  { inst with state := target, version := inst.version + 1 }

end

end Praxec
