import Praxec.Runtime.Entry

namespace Praxec

open Json Effect Prog

def Op.quiet : Op → Bool
  | .storeSave .. | .storeCreate _ | .auditTransition .. | .evidenceRecord .. | .executeBegin ..
  | .executeEnd .. | .lockAcquire .. | .lockAcquireAny .. | .lockRelease .. | .enqueue .. | .takeReady _ =>
      false
  | _ => true

def Quiet : Event Sig → Prop
  | .op o _ => o.quiet = true
  | _ => False

def Op.governed : Op → Bool
  | .guardEvaluate .. | .storeCreate _ => true
  | _ => false

/-- Footprints with every look and report in them, but for the evaluation of guards. -/
class Reports (A : Event Sig → Prop) : Prop where
  report (o : Op) (r : o.Res) : o.quiet = true → o.governed = false → A (.op o r)

instance : Reports Quiet :=
  ⟨fun _ _ h _ => h⟩

variable {id : String}

section

variable {A : Event Sig → Prop} [Reports A]

theorem perform_report (hquiet : o.quiet) (hfree : o.governed = false) :
    (Prog.perform (S := Sig) o).Uses A :=
  .perform fun r => Reports.report o r hquiet hfree

theorem auditRecord_uses : UsesE A (auditRecord e) :=
  perform_report rfl rfl

theorem recordIgnored_uses : (recordIgnored e).Uses A :=
  .bind auditRecord_uses fun _ => trivial

theorem recordOrWarn_uses : (recordOrWarn e).Uses A :=
  .bind auditRecord_uses fun _ => trivial

theorem recordOrSelfEvent_uses : (recordOrSelfEvent e).Uses A := by
  refine .bind auditRecord_uses fun r => ?_
  cases r with
  | ok _ => trivial
  | error _ => exact .bind auditRecord_uses fun _ => trivial

theorem load_uses : UsesE A (load id) :=
  perform_report rfl rfl

theorem now_uses : now.Uses A :=
  perform_report rfl rfl

theorem freshId_uses : (freshId tag).Uses A :=
  .bind (perform_report rfl rfl) fun _ => trivial

theorem refreshRunLeases_uses : (refreshRunLeases cfg i).Uses A := by
  unfold refreshRunLeases
  split
  · trivial
  · cases cfg.repoLocks with
    | false => trivial
    | true =>
      cases runLeaseHolder i.runEnv with
      | none => trivial
      | some holder => exact perform_report rfl rfl

theorem clearStateLocalSlotsOnExit_uses : (clearStateLocalSlotsOnExit d from_ target next c p).Uses A := by
  unfold clearStateLocalSlotsOnExit
  split
  · trivial
  · dsimp only
    split
    · trivial
    · exact .bind recordOrSelfEvent_uses fun _ => trivial

section

theorem missionDeadlineExceededOutcome_uses : (missionDeadlineExceededOutcome args d elapsed deadline).Uses A :=
  .bind recordOrSelfEvent_uses fun _ => trivial

theorem hopChecks_uses : UsesE A (hopChecks cfg args d) := by
  refine .bind (.lift refreshRunLeases_uses) fun _ => .bind (.lift (perform_report rfl rfl)) fun cancelled =>
    .bind (.onlyIf fun _ => .bind (.lift recordOrSelfEvent_uses) fun _ => trivial) fun _ =>
    .bind (.lift recordOrSelfEvent_uses) fun _ => ?_
  split
  · trivial
  split
  · trivial
  exact .bind (.onlyIf fun _ => .bind (.lift recordOrSelfEvent_uses) fun _ => trivial) fun _ =>
    .bind (.onlyIf fun _ => .bind (.lift missionDeadlineExceededOutcome_uses) fun _ => trivial) fun _ => trivial

theorem chainFailed_uses {α : Type} {payload : Fields} {e t : String} :
    UsesE A (chainFailed (α := α) args d payload e c t) :=
  .bind (.lift recordOrSelfEvent_uses) fun _ => trivial

theorem pastTimeout_uses : (pastTimeout args i).Uses A := by
  unfold pastTimeout
  split
  · trivial
  · exact .bind now_uses fun _ => trivial

theorem finishChain_uses : UsesE A (finishChain cfg args d) := by
  refine .bind (.onlyIf fun _ => .onlyIf fun _ => ?_) fun _ =>
    .bind (.onlyIf fun _ => .lift recordOrSelfEvent_uses) fun _ => trivial
  exact .bind (.lift recordOrSelfEvent_uses) fun _ => trivial

theorem checkHopWrites_uses {hop : Hop} : UsesE A (checkHopWrites cfg args d hop context) := by
  unfold checkHopWrites
  split
  · trivial
  · exact chainFailed_uses

end

end

section

theorem evaluateGuard_quiet : (evaluateGuard g i a p).Uses Quiet :=
  .perform fun _ => rfl

theorem guardHolds_quiet : UsesE Quiet (guardHolds g i a p) := by
  refine .bind (.lift evaluateGuard_quiet) fun r => ?_
  cases r <;> trivial

theorem evaluateOutcomes_quiet : (evaluateOutcomes d i p).Uses Quiet := by
  unfold evaluateOutcomes
  induction ((d.get "outcomes").bind Value.asArray).getD [] with
  | nil => trivial
  | cons oc rest ih =>
    exact .bind evaluateGuard_quiet fun _ => .bind ih fun _ => trivial

theorem response_quiet : (response d i p cfg h e).Uses Quiet := by
  refine .bind evaluateOutcomes_quiet fun _ => ?_
  split
  · exact .bind (.perform fun _ => rfl) fun _ => trivial
  · trivial

theorem emitOutcomeRecorded_quiet : (emitOutcomeRecorded d i p c).Uses Quiet :=
  .bind evaluateOutcomes_quiet fun _ => recordOrSelfEvent_uses

theorem recordRejected_quiet : (recordRejected d i p cfg code message attempted c).Uses Quiet :=
  .bind recordOrSelfEvent_uses fun _ => response_quiet

theorem evaluateGuards_quiet : UsesE Quiet (evaluateGuards i a p c guards idx evaluated) := by
  induction guards generalizing idx evaluated with
  | nil => trivial
  | cons guard rest ih =>
    refine .bind evaluateGuard_quiet fun r => .bind (.lift auditRecord_uses) fun w => ?_
    cases w with
    | error e => trivial
    | ok _ =>
      dsimp only
      split
      · exact ih
      · trivial

theorem selectionGuardsPass_quiet : UsesE Quiet (selectionGuardsPass i p c guards) := by
  induction guards with
  | nil => trivial
  | cons guard rest ih =>
    refine .bind guardHolds_quiet fun pass => .bind (.lift recordOrSelfEvent_uses) fun _ => ?_
    split
    · exact ih
    · trivial

theorem viableCandidates_quiet : UsesE Quiet (viableCandidates i p c candidates) := by
  induction candidates with
  | nil => trivial
  | cons candidate rest ih =>
    unfold viableCandidates
    split
    · exact .bind ih fun _ => trivial
    · exact .bind selectionGuardsPass_quiet fun _ => .bind ih fun _ => trivial

theorem selectDeterministicTransition_quiet : UsesE Quiet (selectDeterministicTransition candidates i p c) := by
  unfold selectDeterministicTransition
  split
  · trivial
  · refine .bind viableCandidates_quiet fun found => ?_
    dsimp only
    split <;> trivial

section

theorem replyWith_quiet (hr : r.Uses Quiet) : UsesE Quiet (replyWith (α := α) r) :=
  .bind (.lift hr) fun _ => trivial

theorem reject_quiet : UsesE Quiet (reject (α := α) cfg i r c code message) :=
  replyWith_quiet recordRejected_quiet

theorem checkArguments_quiet : UsesE Quiet (checkArguments cfg a) := by
  unfold checkArguments
  dsimp only
  split
  · trivial
  · exact reject_quiet

theorem checkGuards_quiet : UsesE Quiet (checkGuards cfg a arguments) := by
  refine .bind (.lift evaluateGuards_quiet) fun result => ?_
  rcases result with (_ | _) | outcome
  · exact reject_quiet
  · trivial
  · dsimp only
    split
    · trivial
    · exact reject_quiet

theorem checkSubmitWrites_quiet : UsesE Quiet (checkSubmitWrites cfg a context) := by
  unfold checkSubmitWrites
  split
  · trivial
  · exact reject_quiet

theorem checkConstraints_quiet : UsesE Quiet (checkConstraints cfg a context) := by
  unfold checkConstraints
  split
  · trivial
  · exact reject_quiet

end

end

end Praxec
