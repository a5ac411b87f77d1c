import Praxec.Runtime.Submit

namespace Praxec

open Json Effect

variable (cfg : RuntimeConfig)

structure DriveReport where
  definition : Value
  principal : Principal
  correlationId : String
  hint : StatusHint
  evidence : List Evidence
  resumesParent : Bool

def DriveReport.respond (r : DriveReport) (result : ChainResult) (hint : StatusHint)
    (error : Option ResponseError) : Run Response := do
  let response ← response r.definition result.inst r.principal cfg hint error
  return { response with evidence := r.evidence ++ result.evidence, chain := result.steps }

def DriveReport.cancelled (r : DriveReport) (result : ChainResult) (code reason : String) (detail : Fields) :
    Fallible Response := do
  cancel cfg result.inst.id reason
  let cancelled ← load result.inst.id
  let response ← liftM (response r.definition cancelled r.principal cfg .cancelled
    (some ⟨code, reason, detail ++ [("cancelled_reason", (cancelled.cancelledReason.map Value.string).getD .null)]⟩))
  return { response with chain := result.steps }

def DriveReport.settle (r : DriveReport) : ChainOutcome → Fallible Response
  | .completed result => do
      onlyIf (isTerminal r.definition result.inst.state) do
        liftM (releaseRunLeases cfg result.inst)
        auditRecord ((result.inst.auditEvent "workflow.completed"
          [("state", .string result.inst.state)]).withCorrelation r.correlationId)
        liftM (emitOutcomeRecorded r.definition result.inst r.principal r.correlationId)
        onlyIf r.resumesParent (liftM (resumeParentIfAny result.inst))
      liftM (r.respond cfg result r.hint none)
  | .failed result error errorClass failedTransition => do
      liftM (releaseRunLeases cfg result.inst)
      let response ← liftM (r.respond cfg result .failed (some ⟨"CHAIN_FAILED", error,
        [("errorClass", .string errorClass), ("attemptedTransition", .string failedTransition)]⟩))
      onlyIf (isAgentExhaustion error) (liftM (cancelIgnored cfg result.inst.id error))
      return response
  | .waitingOnLock result transition files conflict =>
      parkOnLock cfg r.definition result.inst transition result.inst.version r.principal files conflict
  | .suspended result suspend transition =>
      suspendStep cfg r.definition result.inst transition result.inst.version r.principal suspend
  | .quarantined result reason => r.cancelled cfg result "LIVELOCK_QUARANTINE" reason []
  | .deadlineExceeded result reason elapsedMs deadlineMs =>
      r.cancelled cfg result "MISSION_DEADLINE_EXCEEDED" reason
        [("elapsedMs", .nat elapsedMs), ("deadlineMs", .nat deadlineMs)]
  | .aborted result reason => liftM (r.respond cfg result r.hint (some ⟨"CLIENT_ABORTED", reason, []⟩))

def ChainOutcome.isCompleted : ChainOutcome → Bool
  | .completed _ => true
  | _ => false

def driveAndSettle (r : DriveReport) (inst : WorkflowInstance) : Fallible (Response × Bool) := do
  let outcome ← driveChainWithDeadline cfg ⟨r.definition, inst, r.principal, r.correlationId,
    maxChainDepthOf r.definition, livelockBudgetOf r.definition⟩
  let response ← r.settle cfg outcome
  return (response, outcome.isCompleted)

def dispatchOnce (request : SubmitTransition) : Fallible DispatchOutcome :=
  Stage.finish (fun response => ⟨response, none⟩) do
    let a ← admitSubmit cfg request
    let acceptance ← modelAcceptanceEvent cfg a
    checkActor cfg a
    checkFireCap cfg a
    let arguments ← checkArguments cfg a
    let guards ← checkGuards cfg a arguments
    let work ← runSubmitExecutor cfg a arguments
    let entered ← commitSubmit cfg a arguments guards acceptance work
    let (response, completed) ← Stage.attempt (driveAndSettle cfg
      ⟨a.inst.definition, request.principal, a.correlationId, .executed, work.evidence, true⟩ entered)
    return ⟨response, if completed then work.nextTransition else none⟩

/-- Submit cycles while executors keep selecting transitions; `fuel` is what is left of the turn cap. -/
def submitLoop : Nat → SubmitTransition → Fallible Response
  | fuel, request => do
    let outcome ← dispatchOnce cfg request
    match outcome.nextTransition with
    | none => return outcome.response
    | some next =>
        match fuel with
        | 0 =>
            liftM (recordOrSelfEvent (AuditEvent.withActor ⟨"transition.rejected",
              some outcome.response.workflow.id, none, none, .object [("transition", .string next.transition),
                ("code", "LLM_CHAIN_DEPTH_EXCEEDED")]⟩ request.principal.subject))
            throw s!"LLM_CHAIN_DEPTH_EXCEEDED: LLM chain depth exceeded (cap = {cfg.maxChainedLlmTurns})"
        | fuel + 1 =>
            submitLoop fuel ⟨outcome.response.workflow.id, outcome.response.workflow.version, next.transition,
              next.arguments, request.principal, next.summary, request.traceId, request.runId⟩

def submit (request : SubmitTransition) : Fallible Response :=
  submitLoop cfg cfg.maxChainedLlmTurns request

def pendingSubject (definition : Value) : Option String :=
  match (definition.get "_lexiconLibrary").bind Value.asObject with
  | none => none
  | some terms => (terms.find? fun entry => match cfg.pendingSubjects with
      | some pending => entry.1 ∈ pending
      | none => strField entry.2 "state" = some "PENDING_DEFINITION").map Prod.fst

def initialContext (definition input : Value) : Value :=
  match (definition.get "initialContext").getD .emptyObject, input with
  | .object ctx, .object fields => .object (fields.foldl
      (fun acc entry => if Fields.contains acc entry.1 then acc else Fields.insert acc entry.1 entry.2) ctx)
  | ctx, _ => ctx

def recordSubworkflowSpawnBinding (link : ParentLink) (childId : String) : Fallible Unit := do
  let parent ← load link.workflowId
  let wait : Value := .object [("child_workflow_id", .string childId), ("transition", .string link.transition)]
  let _ ← saveIfVersion (.spawnBinding parent)
    { parent with context := writeMarker parent.context "_subworkflow_wait" wait } parent.version

def bindSpawnIgnored (link : ParentLink) (childId : String) : Run Unit := do
  let _ ← (recordSubworkflowSpawnBinding link childId).run
  return ()

def start (request : StartWorkflow) : Fallible Response := do
  onlyIf cfg.draining <|
    throw "gateway is shutting down; please retry shortly"
  onlyIf request.parent.isNone <|
    forSome request.runEnv.runId fun runId => do
      let existing ← (ExceptT.mk (Prog.perform (S := Sig) (.storeFindByRunId runId)) : Fallible (Option String))
      forSome existing fun id =>
        throw s!"run_id '{runId}' is already in flight (existing workflow id: {id})"
  let definition ← (ExceptT.mk (Prog.perform (S := Sig) (.definitionGet request.definitionId)) : Fallible Value)
  ExceptT.mk (pure (validateInput cfg definition request.input) : Run _)
  forSome (pendingSubject cfg definition) fun term =>
    throw s!"subject '{term}' is unresolved in workflow 'workflow:{request.definitionId}'"
  let schema := definition.get "inputSchema"
  let input := applySchemaDefaults schema request.input
  ExceptT.mk (pure (validateSchema cfg.lib schema input "workflow input") : Run _)
  let initialState ← ExceptT.mk (pure (requiredStr definition "initialState") : Run _)
  let version ← ExceptT.mk (pure ((requiredStr definition "version").mapError fun _ =>
    s!"CORRUPT_DEFINITION: workflow definition '{request.definitionId}' has no string version") : Run _)
  let id ← liftM (freshId "wf_")
  let env := if request.parent.isNone then { request.runEnv with runRef := some id } else request.runEnv
  let env ← acquireRunLeases cfg definition env request.parent.isNone
  let time ← liftM now
  let correlationId ← liftM (freshId "cor_")
  let inst ← (ExceptT.mk (Prog.perform (S := Sig) (.storeCreate ⟨id, request.definitionId, version, definition,
    initialState, 0, input, initialContext definition input, time, env, request.depth, none, none,
    request.parent⟩)) : Fallible WorkflowInstance)
  forSome inst.parent fun link =>
    onlyIf (link.transition ≠ "") (liftM (bindSpawnIgnored link inst.id))
  auditRecord (((inst.auditEvent "workflow.started" [("definitionId", .string inst.definitionId),
    ("state", .string inst.state), ("version", .nat inst.version)]).withCorrelation correlationId).withActor
      request.principal.subject)
  let entered ← runOnEnter cfg definition inst correlationId
  let (response, _) ← driveAndSettle cfg
    ⟨definition, request.principal, correlationId, .started, [], false⟩ entered
  return response

def get (workflowId : String) (principal : Principal) : Fallible Response := do
  let inst ← load workflowId
  if inst.cancelledAt.isSome then
    return ← liftM (response inst.definition inst principal cfg .cancelled none)
  let timedOut ← checkAndApplyTimeout inst.definition inst principal
  match timedOut with
  | some saved => liftM (response inst.definition saved principal cfg .timedOut none)
  | none => liftM (response inst.definition inst principal cfg .waitingForAction none)

def body : (p : Proc) → Run p.Ret
  | .start request => (start cfg request).run
  | .submit request => (submit cfg request).run
  | .get workflowId principal => (get cfg workflowId principal).run
  | .cancel workflowId reason => (cancel cfg workflowId reason).run
  | .runDeterministicChain args => (runDeterministicChain cfg args).run
  | .resumeReadyLocks => resumeReadyLocks cfg
  | .recoverSuspendedLocks => recoverSuspendedLocks cfg
  | .recoverSuspendedSubworkflows => recoverSuspendedSubworkflows
  | .reapOrphanedRuns => (reapOrphanedRuns cfg).run

end Praxec
