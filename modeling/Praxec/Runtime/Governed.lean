import Praxec.Runtime.Minor

namespace Praxec

open Json Effect Prog

inductive HasTransition (definition transition : Value) : Prop where
  | found {state name : String} (h : transitionDefinition definition state name = some transition) :
      HasTransition definition transition
  | listed {state name : String} {transitions : Fields}
      (h : (definition.walk ["states", state, "transitions"]).bind Value.asObject = some transitions)
      (hmem : (name, transition) ∈ transitions) : HasTransition definition transition

def HopPlan.candidates : HopPlan → List Candidate
  | .stop => []
  | .select candidates _ => candidates
  | .autoDrive candidate => [candidate]

variable {definition : Value}

theorem hopPlan_listed (ht : t ∈ (hopPlan cfg definition state).candidates) :
    ∃ transitions, (definition.walk ["states", state, "transitions"]).bind Value.asObject = some transitions ∧
    t ∈ transitions ∧ t.1 ≠ haltTransition := by
  unfold hopPlan at ht
  cases htransitions : (definition.walk ["states", state, "transitions"]).bind Value.asObject with
  | none =>
    rw [htransitions] at ht
    cases ht
  | some transitions =>
    refine ⟨transitions, rfl, ?_⟩
    rw [htransitions] at ht
    dsimp only at ht
    generalize hagents : (if cfg.autoDriveAgents && !boolField definition "proxySurface" false then
      transitions.filter fun t => actorOf t.2 = some "agent" ∧ t.1 ≠ "escalate" ∧ t.1 ≠ haltTransition else []) = agents at ht
    have hdriven {t : Candidate} (ht : t ∈ agents) : t ∈ transitions ∧ t.1 ≠ haltTransition := by
      subst hagents
      split at ht
      · obtain ⟨hmem, hkind⟩ := List.mem_filter.mp ht
        exact ⟨hmem, (of_decide_eq_true hkind).2.2⟩
      · cases ht
    split at ht
    · cases ht
    split at ht
    · cases ht
    · split at ht
      · exact hdriven ht
      · exact hdriven (List.mem_singleton.mp ht ▸ .head _)
    · obtain ⟨hmem, hkind⟩ := List.mem_filter.mp ht
      exact ⟨hmem, (of_decide_eq_true hkind).1⟩

theorem hopPlan_hasTransition
    (ht : t ∈ (hopPlan cfg definition state).candidates) : HasTransition definition t.2 := by
  obtain ⟨transitions, htransitions, hmem, -⟩ := hopPlan_listed ht
  exact .listed htransitions hmem

def outcomeGuard (outcome : Value) : Value :=
  .object [("kind", "expr"), ("expr", .string ((strField outcome "check").getD ""))]

inductive Guards (definition : Value) : Value → Prop where
  | transition {transition guard : Value} (ht : HasTransition definition transition) (hg : guard ∈ guardsOf transition) :
      Guards definition guard
  | branch {transition branch guard : Value} {branches : List Value} (ht : HasTransition definition transition)
      (hbranches : (transition.get "branches").bind Value.asArray = some branches) (hb : branch ∈ branches)
      (hwhen : branch.get "when" = some guard) : Guards definition guard
  | loop {state : String} {stateDef guard : Value} (hs : stateDefinition definition state = some stateDef)
      (hwhile : stateDef.get "while" = some guard) : Guards definition guard
  | outcome {outcome : Value} (ho : outcome ∈ ((definition.get "outcomes").bind Value.asArray).getD []) :
      Guards definition (outcomeGuard outcome)

def Ungoverned : Event Sig → Prop
  | .op o _ => o.governed = false
  | .call (.submit _) _ | .call .resumeReadyLocks _ => True
  | _ => False

/-- Everything that a stage does under a definition: guards are its guards, and drives are made under it. -/
def Governed (definition : Value) : Event Sig → Prop
  | .op (.guardEvaluate guard ..) _ => Guards definition guard
  | .call (.runDeterministicChain args) _ | .timeout (.runDeterministicChain args) _ => args.definition = definition
  | e => Ungoverned e

theorem Ungoverned.governed (h : Ungoverned e) (definition : Value) : Governed definition e := by
  cases e with
  | op o r => cases o <;> first | exact h | cases h
  | call p v => cases p <;> first | exact h | exact h.elim
  | timeout p v => exact h.elim

/-- Footprints with everything in them that no definition has to be in force for. -/
class Works (A : Event Sig → Prop) : Prop extends Minors A where
  work (o : Op) (r : o.Res) : o.governed = false → A (.op o r)

theorem Works.of_ungoverned (h : ∀ e, Ungoverned e → A e) : Works A where
  report _ _ _ hfree := h _ hfree
  release _ _ _ := h _ rfl
  wake _ := h _ trivial
  calm _ _ _ hfree := h _ hfree
  submit _ _ := h _ trivial
  minor _ _ _ hfree := h _ hfree
  work _ _ hfree := h _ hfree

instance : Works Ungoverned :=
  .of_ungoverned fun _ => id

instance (definition : Value) : Works (Governed definition) :=
  .of_ungoverned fun _ h => h.governed definition

variable {id : String}

section

variable {A : Event Sig → Prop} [Works A]

theorem perform_work (hfree : o.governed = false) : (Prog.perform (S := Sig) o).Uses A :=
  .perform fun r => Works.work o r hfree

theorem attemptCandidate_works : (attemptCandidate job config kind candidate left attempt).Uses A := by
  induction left generalizing attempt with
  | zero =>
    unfold attemptCandidate
    refine .bind recordOrWarn_uses fun _ =>
      .bind (.bind (perform_work rfl) fun _ => perform_work rfl) fun result => ?_
    cases result <;> exact .bind recordOrWarn_uses fun _ => trivial
  | succ left ih =>
    unfold attemptCandidate
    refine .bind recordOrWarn_uses fun _ =>
      .bind (.bind (perform_work rfl) fun _ => perform_work rfl) fun result => ?_
    cases result with
    | ok _ => exact .bind recordOrWarn_uses fun _ => trivial
    | error err =>
      dsimp only
      split
      · exact .bind recordOrWarn_uses fun _ => ih
      · exact .bind recordOrWarn_uses fun _ => trivial

theorem tryCandidates_works : (tryCandidates registered job candidates n last).Uses A := by
  induction candidates generalizing n last with
  | nil => trivial
  | cons config rest ih =>
    refine .bind (.onlyIf fun _ => recordOrWarn_uses) fun _ => ?_
    split
    · refine .bind attemptCandidate_works fun outcome => ?_
      cases outcome with
      | ok _ => trivial
      | error _ => exact ih
    · exact ih

theorem executeWithReliability_works :
    (executeWithReliability registered site inst transition arguments primary policy c).Uses A :=
  tryCandidates_works

theorem acquireOwnedFiles_works : (acquireOwnedFiles cfg config inst).Uses A := by
  unfold acquireOwnedFiles
  dsimp only
  split
  · trivial
  split
  · trivial
  refine .bind (perform_work rfl) fun acquired => ?_
  cases acquired with
  | error _ => trivial
  | ok _ => exact .bind recordIgnored_uses fun _ => trivial

theorem executeLeased_works : (executeLeased cfg lease site inst transition arguments primary policy c).Uses A :=
  .bind executeWithReliability_works fun _ => .bind releaseLease_uses fun _ => trivial

theorem recordEvidence_works : (recordEvidence cfg id evs).Uses A :=
  recordEvidence_uses fun ev _ r => Works.work (.evidenceRecord id ev) r rfl

theorem commitTransition_works : UsesE A (commitTransition firing next note v) :=
  commitTransition_uses (fun r => Works.work (.auditTransition ..) r rfl) fun r => Works.work (.storeSave ..) r rfl

theorem runOnEnter_works : UsesE A (runOnEnter cfg definition inst c) := by
  unfold runOnEnter
  split
  · trivial
  split
  · trivial
  refine .bind trivial fun policy => .bind (.lift executeWithReliability_works) fun outcome => ?_
  cases outcome with
  | error _ => trivial
  | ok result =>
    refine .bind (.onlyIf fun _ => trivial) fun _ => .bind trivial fun context => ?_
    split
    · trivial
    · exact .bind (.lift recordEvidence_works) fun _ => perform_work rfl

theorem checkAndApplyTimeout_works : UsesE A (checkAndApplyTimeout definition inst principal) := by
  unfold checkAndApplyTimeout
  split
  · trivial
  split
  · trivial
  refine .bind (.lift now_uses) fun time => ?_
  split
  · trivial
  split
  · exact .bind (.lift recordOrSelfEvent_uses) fun _ => trivial
  refine .bind (.lift freshId_uses) fun c =>
    .bind (.lift (emitTransitionRecord_uses fun r => Works.work (.auditTransition ..) r rfl)) fun written => ?_
  cases written with
  | error _ => trivial
  | ok _ =>
    exact .bind (perform_work rfl) fun saved => .bind (.lift recordOrSelfEvent_uses) fun _ =>
      .bind (.onlyIf fun _ => .lift resumeParentIfAny_uses) fun _ => trivial

theorem reapRuns_works : UsesE A (reapRuns cfg insts reaped) := by
  induction insts generalizing reaped with
  | nil => trivial
  | cons inst rest ih =>
    unfold reapRuns
    split
    · exact ih
    · exact .bind cancel_uses fun _ => ih

theorem reapOrphanedRuns_works : UsesE A (reapOrphanedRuns cfg) :=
  .bind (perform_work rfl) fun _ => reapRuns_works

section

variable {args : ChainArgs}

theorem runHopExecutor_works : UsesE A (runHopExecutor cfg args d hop) := by
  unfold runHopExecutor
  split
  · exact .bind trivial fun _ => .bind checkHopWrites_uses fun _ => trivial
  refine .bind trivial fun policy => .bind (.lift executeWithReliability_works) fun outcome => ?_
  cases outcome with
  | error _ => exact chainFailed_uses
  | ok result =>
    exact .bind (.forSome fun _ => .bind (.lift recordOrSelfEvent_uses) fun _ => trivial) fun _ =>
      .bind (.onlyIf fun _ => trivial) fun _ => .bind trivial fun _ =>
      .bind checkHopWrites_uses fun _ => trivial

end

end

section

theorem evaluateGuard_governed (hg : Guards D g) : (evaluateGuard g i a p).Uses (Governed D) :=
  .perform fun _ => hg

theorem guardHolds_governed (hg : Guards D g) : UsesE (Governed D) (guardHolds g i a p) := by
  refine .bind (.lift (evaluateGuard_governed hg)) fun r => ?_
  cases r <;> trivial

theorem evaluateOutcomeChecks_governed
    (h : ∀ oc ∈ outcomes, Guards D (outcomeGuard oc)) : (evaluateOutcomeChecks i p outcomes).Uses (Governed D) := by
  induction outcomes with
  | nil => trivial
  | cons oc rest ih =>
    exact .bind (evaluateGuard_governed (h oc (.head _))) fun _ => .bind (ih fun x hx => h x (.tail _ hx)) fun _ => trivial

theorem evaluateOutcomes_governed : (evaluateOutcomes D i p).Uses (Governed D) :=
  evaluateOutcomeChecks_governed fun _ => .outcome

theorem response_governed : (response D i p cfg h e).Uses (Governed D) := by
  refine .bind evaluateOutcomes_governed fun _ => ?_
  split
  · exact .bind (.perform fun _ => rfl) fun _ => trivial
  · trivial

theorem emitOutcomeRecorded_governed : (emitOutcomeRecorded D i p c).Uses (Governed D) :=
  .bind evaluateOutcomes_governed fun _ => recordOrSelfEvent_uses

theorem recordRejected_governed : (recordRejected D i p cfg code message attempted c).Uses (Governed D) :=
  .bind recordOrSelfEvent_uses fun _ => response_governed

theorem evaluateGuards_governed (h : ∀ g ∈ guards, Guards D g) :
    UsesE (Governed D) (evaluateGuards i a p c guards idx evaluated) := by
  induction guards generalizing idx evaluated with
  | nil => trivial
  | cons guard rest ih =>
    refine .bind (evaluateGuard_governed (h guard (.head _))) fun r => .bind (.lift auditRecord_uses) fun w => ?_
    cases w with
    | error e => trivial
    | ok _ =>
      dsimp only
      split
      · exact ih fun g hg => h g (.tail _ hg)
      · trivial

theorem firstBranch_governed (h : ∀ b ∈ branches, ∀ g, b.get "when" = some g → Guards D g) :
    UsesE (Governed D) (firstBranch i a p c dflt branches idx) := by
  induction branches generalizing idx with
  | nil => trivial
  | cons branch rest ih =>
    have hrest : UsesE (Governed D) (firstBranch i a p c dflt rest (idx + 1)) := ih fun b hb => h b (.tail _ hb)
    unfold firstBranch
    split
    · rename_i hwhen _
      refine .bind (guardHolds_governed (h branch (.head _) _ hwhen)) fun pass => ?_
      split
      · exact .bind (.lift recordOrSelfEvent_uses) fun _ => trivial
      · exact hrest
    · exact hrest

theorem resolveTarget_governed (ht : HasTransition D t) : UsesE (Governed D) (resolveTarget t i a p c) := by
  refine .bind trivial fun dflt => ?_
  split
  · trivial
  · rename_i branches hbranches
    exact firstBranch_governed fun _ hb _ => .branch ht hbranches hb

theorem applyWhileLoop_governed : UsesE (Governed D) (applyWhileLoop D from_ next a p c) := by
  unfold applyWhileLoop
  split
  · trivial
  rename_i hs
  split
  · trivial
  rename_i hwhile
  split
  · trivial
  refine .bind (guardHolds_governed (.loop hs hwhile)) fun truthy => ?_
  split
  · trivial
  · exact .bind trivial fun current => .bind (.onlyIf fun _ => trivial) fun _ =>
      .bind (.lift recordOrSelfEvent_uses) fun _ => trivial

theorem selectionGuardsPass_governed
    (h : ∀ g ∈ guards, Guards D g) : UsesE (Governed D) (selectionGuardsPass i p c guards) := by
  induction guards with
  | nil => trivial
  | cons guard rest ih =>
    refine .bind (guardHolds_governed (h guard (.head _))) fun pass =>
      .bind (.lift recordOrSelfEvent_uses) fun _ => ?_
    split
    · exact ih fun g hg => h g (.tail _ hg)
    · trivial

theorem commitHop_governed
    (ht : HasTransition D hop.definition) : UsesE (Governed D) (commitHop cfg args d hop work startedAt) :=
  .bind (.attempt (resolveTarget_governed ht)) fun _ => .bind trivial fun _ => .bind (.lift now_uses) fun _ =>
    .bind (.attempt commitTransition_works) fun _ =>
    .bind (.lift recordEvidence_works) fun _ =>
    .bind (.lift recordOrSelfEvent_uses) fun _ =>
    .bind (.attempt runOnEnter_works) fun _ => trivial

section

theorem replyWith_governed (hr : r.Uses (Governed D)) : UsesE (Governed D) (replyWith (α := α) r) :=
  .bind (.lift hr) fun _ => trivial

theorem haltRun_governed : UsesE (Governed i.definition) (haltRun (α := α) cfg r i) :=
  .bind (.attempt cancel_uses) fun _ => .bind (.attempt load_uses) fun _ => replyWith_governed response_governed

theorem reject_governed : UsesE (Governed i.definition) (reject (α := α) cfg i r c code message) :=
  replyWith_governed recordRejected_governed

theorem parkOnLock_governed : UsesE (Governed D) (parkOnLock cfg D i t v p files conflict) :=
  .bind (.perform fun _ => rfl) fun _ => .bind (.onlyIf fun _ => .lift (.perform fun _ => rfl)) fun _ =>
    .bind (.lift recordIgnored_uses) fun _ => .lift response_governed

theorem suspendStep_governed : UsesE (Governed D) (suspendStep cfg D i t v p s) := by
  cases s <;>
  exact .bind (.perform fun _ => rfl) fun _ => .bind (.lift recordIgnored_uses) fun _ => .lift response_governed

theorem modelAcceptanceEvent_governed : UsesE (Governed D) (modelAcceptanceEvent cfg a) := by
  unfold modelAcceptanceEvent
  split
  · trivial
  · refine .bind (.attempt (.perform fun _ => rfl)) fun listed => ?_
    cases listed with
    | none => trivial
    | some events => exact .bind (.attempt trivial) fun _ => trivial

theorem checkActor_governed : UsesE (Governed a.inst.definition) (checkActor cfg a) :=
  .bind (.onlyIf fun _ => reject_governed) fun _ =>
    .bind (.onlyIf fun _ => .forSome fun _ => reject_governed) fun _ => .onlyIf fun _ => reject_governed

theorem checkFireCap_governed : UsesE (Governed a.inst.definition) (checkFireCap cfg a) := by
  unfold checkFireCap
  split
  · trivial
  · exact .bind (.attempt trivial) fun _ => .onlyIf fun _ => reject_governed

theorem checkArguments_governed : UsesE (Governed a.inst.definition) (checkArguments cfg a) := by
  unfold checkArguments
  dsimp only
  split
  · trivial
  · exact reject_governed

theorem checkGuards_governed (ht : HasTransition a.inst.definition a.transition) :
    UsesE (Governed a.inst.definition) (checkGuards cfg a arguments) := by
  refine .bind (.lift (evaluateGuards_governed fun _ => .transition ht)) fun result => ?_
  rcases result with (_ | _) | outcome
  · exact reject_governed
  · trivial
  · dsimp only
    split
    · trivial
    · exact reject_governed

theorem checkSubmitWrites_governed : UsesE (Governed a.inst.definition) (checkSubmitWrites cfg a context) := by
  unfold checkSubmitWrites
  split
  · trivial
  · exact reject_governed

theorem checkConstraints_governed : UsesE (Governed a.inst.definition) (checkConstraints cfg a context) := by
  unfold checkConstraints
  split
  · trivial
  · exact reject_governed

theorem checkConfidences_governed : UsesE (Governed a.inst.definition) (checkConfidences cfg a evs) := by
  induction evs with
  | nil => trivial
  | cons ev rest ih =>
    unfold checkConfidences
    split
    · exact ih
    · exact reject_governed

theorem persistSlotUpdates_governed :
    UsesE (Governed a.inst.definition) (persistSlotUpdates cfg a arguments updates) := by
  unfold persistSlotUpdates
  split
  · trivial
  split
  · trivial
  refine .bind (.lift (.perform fun _ => rfl)) fun saved => ?_
  cases saved with
  | ok _ => trivial
  | error e =>
    dsimp only
    split
    · exact reject_governed
    · trivial

theorem failSubmit_governed : UsesE (Governed a.inst.definition) (failSubmit (α := α) cfg a arguments err) :=
  .bind persistSlotUpdates_governed fun _ => .bind (.lift consumeDeadSubworkflowWait_uses) fun _ =>
    .bind (.attempt auditRecord_uses) fun _ =>
    .bind (.onlyIf fun _ => .lift cancelIgnored_uses) fun _ =>
    replyWith_governed response_governed

theorem mergeResult_governed : UsesE (Governed a.inst.definition) (mergeResult cfg a arguments result) :=
  .bind (.forSome fun _ => .bind (.attempt suspendStep_governed) fun _ => trivial) fun _ =>
    .bind trivial fun _ => .bind checkSubmitWrites_governed fun _ => .bind checkConstraints_governed fun _ =>
    .bind checkConfidences_governed fun _ => trivial

theorem runSubmitExecutor_governed : UsesE (Governed a.inst.definition) (runSubmitExecutor cfg a arguments) := by
  unfold runSubmitExecutor
  split
  · exact .bind trivial fun _ => .bind checkSubmitWrites_governed fun _ => trivial
  refine .bind trivial fun policy => .bind (.lift acquireOwnedFiles_works) fun acquired => ?_
  cases acquired with
  | error _ => exact .bind (.attempt parkOnLock_governed) fun _ => trivial
  | ok lease =>
    refine .bind (.lift executeLeased_works) fun outcome => ?_
    cases outcome with
    | ok _ => exact mergeResult_governed
    | error _ => exact failSubmit_governed

theorem commitSubmit_governed (ht : HasTransition a.inst.definition a.transition) :
    UsesE (Governed a.inst.definition) (commitSubmit cfg a arguments guards acceptance work) :=
  .bind trivial fun _ => .bind (.attempt (resolveTarget_governed ht)) fun _ =>
    .bind (.attempt applyWhileLoop_governed) fun _ =>
    .bind (.lift clearStateLocalSlotsOnExit_uses) fun _ =>
    .bind (.attempt commitTransition_works) fun _ =>
    .bind (.forSome fun _ => .attempt auditRecord_uses) fun _ =>
    .bind (.lift recordEvidence_works) fun _ =>
    .bind (.attempt runOnEnter_works) fun _ =>
    .bind (.attempt auditRecord_uses) fun _ => trivial

end

section

theorem driveChainWithDeadline_governed (h : args.definition = D) :
    UsesE (Governed D) (driveChainWithDeadline cfg args) := by
  have houtcome {d : Drive} {elapsed deadline : Nat} :
      (missionDeadlineExceededOutcome args d elapsed deadline).Uses (Governed D) :=
    missionDeadlineExceededOutcome_uses
  unfold driveChainWithDeadline
  dsimp only
  split
  · exact fun _ => ⟨h, trivial⟩
  split
  · exact .lift houtcome
  refine .bind (.lift fun _ => ⟨h, trivial⟩) fun inner => ?_
  cases inner with
  | some outcome => trivial
  | none => exact .bind load_uses fun _ => .lift houtcome

variable {r : DriveReport}

theorem respond_governed : (r.respond cfg result hint e).Uses (Governed r.definition) :=
  .bind response_governed fun _ => trivial

theorem cancelled_governed : UsesE (Governed r.definition) (r.cancelled cfg result code reason detail) :=
  .bind cancel_uses fun _ => .bind load_uses fun _ => .bind (.lift response_governed) fun _ => trivial

theorem settle_governed : UsesE (Governed r.definition) (r.settle cfg outcome) := by
  cases outcome with
  | completed result =>
    refine .bind (.onlyIf fun _ => ?_) fun _ => .lift respond_governed
    exact .bind (.lift releaseRunLeases_uses) fun _ =>
      .bind auditRecord_uses fun _ => .bind (.lift emitOutcomeRecorded_governed) fun _ =>
      .onlyIf fun _ => .lift resumeParentIfAny_uses
  | failed result error errorClass failedTransition =>
    exact .bind (.lift releaseRunLeases_uses) fun _ => .bind (.lift respond_governed) fun _ =>
      .bind (.onlyIf fun _ => .lift cancelIgnored_uses) fun _ => trivial
  | waitingOnLock result transition files conflict => exact parkOnLock_governed
  | suspended result suspend transition => exact suspendStep_governed
  | quarantined result reason | deadlineExceeded result reason _ _ => exact cancelled_governed
  | aborted result reason => exact .lift respond_governed

theorem driveAndSettle_governed (h : r.definition = D) : UsesE (Governed D) (driveAndSettle cfg r i) := by
  subst h
  exact .bind (driveChainWithDeadline_governed rfl) fun _ => .bind settle_governed fun _ => trivial

end

end

end Praxec
