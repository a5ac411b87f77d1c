import Praxec.Runtime.Chain

namespace Praxec

open Json Effect

variable (cfg : RuntimeConfig)

structure DispatchOutcome where
  response : Response
  nextTransition : Option NextTransition

abbrev DispatchStage := Stage Sig Err Response

structure Admitted where
  request : SubmitTransition
  inst : WorkflowInstance
  correlationId : String
  transition : Value

def Admitted.firing (a : Admitted) (arguments : Value) : Firing :=
  ⟨.submit, a.inst, a.request.transition, a.transition, arguments⟩

def replyWith (r : Run Response) : DispatchStage α := do
  let response ← liftM r
  Stage.reply response

def reject (inst : WorkflowInstance) (request : SubmitTransition) (correlationId code message : String) :
    DispatchStage α :=
  replyWith (recordRejected inst.definition inst request.principal cfg code message request.transition
    correlationId)

def Admitted.reject (a : Admitted) (code message : String) : DispatchStage α :=
  Praxec.reject cfg a.inst a.request a.correlationId code message

def cancelledError (inst : WorkflowInstance) : Err :=
  s!"WORKFLOW_CANCELLED: workflow {inst.id} was cancelled"

def haltRun (request : SubmitTransition) (inst : WorkflowInstance) : DispatchStage α := do
  let reason := (strField request.arguments "reason").getD
    ("halted via " ++ haltTransition ++ " by " ++ request.principal.subject)
  Stage.attempt (cancel cfg request.workflowId reason)
  let cancelled ← Stage.attempt (load request.workflowId)
  replyWith (response inst.definition cancelled request.principal cfg .cancelled
    (some ⟨"WORKFLOW_HALTED", reason, []⟩))

/-- Load the instance, honour halt, cancellation and deadline, and find the transition at the
expected version. -/
def admitSubmit (request : SubmitTransition) : DispatchStage Admitted := do
  let inst ← Stage.attempt (load request.workflowId)
  let correlationId ← liftM (freshId "cor_")
  onlyIf (request.transition = haltTransition) (haltRun cfg request inst)
  Stage.attempt (ExceptT.mk (pure (validateInput cfg inst.definition inst.input) : Run _))
  onlyIf inst.cancelledAt.isSome (throw (.fail (cancelledError inst)))
  let timedOut ← Stage.attempt (checkAndApplyTimeout inst.definition inst request.principal)
  forSome timedOut fun saved =>
    replyWith (response inst.definition saved request.principal cfg .timedOut none)
  Stage.attempt (auditRecord (((inst.auditEvent "transition.requested"
    [("transition", .string request.transition), ("expectedVersion", .nat request.expectedVersion),
      ("fromState", .string inst.state)]).withCorrelation correlationId).withActor request.principal.subject))
  onlyIf (inst.version ≠ request.expectedVersion) <|
    reject cfg inst request correlationId "STALE_WORKFLOW_VERSION"
      s!"Expected workflow version {request.expectedVersion}, but current version is {inst.version}."
  match transitionDefinition inst.definition inst.state request.transition with
  | none =>
      reject cfg inst request correlationId "INVALID_TRANSITION"
        s!"Transition '{request.transition}' is not valid from state '{inst.state}'."
  | some transition => return ⟨request, inst, correlationId, transition⟩

def modelAcceptanceEvent (a : Admitted) : DispatchStage (Option AuditEvent) := do
  if (a.transition.get "model_acceptance").isNone then
    return none
  let listed : Option (List AuditEvent) ←
    Stage.attempt (ExceptT.mk (Prog.perform (S := Sig) .auditListEvents) : Fallible _)
  match listed with
  | none => throw (.fail "MODEL_ACCEPTANCE_INVALID: acceptance requires a readable audit sink")
  | some events =>
      let event ← Stage.attempt (ExceptT.mk (pure (cfg.checks.humanAcceptanceEvent events a.inst.id
        a.transition a.request.transition a.request.principal a.request.arguments) : Run _))
      return some event

def checkActor (a : Admitted) : DispatchStage Unit := do
  let principal := a.request.principal
  onlyIf (actorOf a.transition = some "human" ∧ principal.isHuman = false) <|
    a.reject cfg "ACTOR_MISMATCH" s!"Transition '{a.request.transition}' requires a human principal; submitter '{principal.subject}' has no 'human' role."
  onlyIf (a.transition.get "choices").isSome <|
    forSome (cfg.checks.choiceMismatch a.transition a.inst.context a.request.arguments) fun message =>
      a.reject cfg "CHOICE_MISMATCH" message
  onlyIf ((agentAwaitFor a.inst.context a.request.transition).isSome ∧ principal.isHuman = false) <|
    a.reject cfg "AWAIT_RESUME_NOT_HUMAN" s!"Transition '{a.request.transition}' is parked on an agent await_human gate; only a human principal may resume it (submitter '{principal.subject}' has no 'human' role)."

def maxFires (transition : Value) : Option Nat :=
  u64Field transition "max_fires_per_visit"

def checkFireCap (a : Admitted) : DispatchStage Unit := do
  match maxFires a.transition with
  | none => return ()
  | some cap =>
      let current ← Stage.attempt (ExceptT.mk (pure (readCounterSlot a.inst.context
        (fireCountKey a.inst.state a.request.transition)) : Run _))
      onlyIf (cap ≤ current) <|
        a.reject cfg "TRANSITION_FIRE_CAP_EXCEEDED" s!"Transition '{a.request.transition}' has fired {current} times in state '{a.inst.state}' (max_fires_per_visit = {cap})."

def checkArguments (a : Admitted) : DispatchStage Value := do
  let schema := a.transition.get "inputSchema"
  let arguments := applySchemaDefaults schema a.request.arguments
  match validateSchema cfg.lib schema arguments "transition input" with
  | .ok _ => return arguments
  | .error e => a.reject cfg "INPUT_SCHEMA_VIOLATION" e

def guardRejection (diagnostic : Option String) : String × String :=
  if diagnostic = some "EVIDENCE_DIGEST_REQUIRED" then
    ("EVIDENCE_DIGEST_REQUIRED", "Evidence guard quorum failed: a require_digest clause excluded records missing a content digest.")
  else if diagnostic = some "EVIDENCE_CONFIDENCE_BELOW_THRESHOLD" then
    ("EVIDENCE_CONFIDENCE_BELOW_THRESHOLD", "Evidence guard quorum failed: a min_confidence clause excluded records whose confidence was below threshold (or missing entirely).")
  else ("GUARD_REJECTED", "One or more guards rejected the transition.")

def checkGuards (a : Admitted) (arguments : Value) : DispatchStage (List (String × Bool)) := do
  let result ← liftM
    (guardsPass a.transition a.inst arguments a.request.principal a.correlationId).run
  match result with
  | .error (.unsetSlot message) => a.reject cfg "GUARD_UNSET_SLOT" message
  | .error (.other message) => throw (.fail message)
  | .ok outcome =>
      if outcome.pass then return outcome.evaluated
      else a.reject cfg (guardRejection outcome.diagnostic).1 (guardRejection outcome.diagnostic).2

structure SubmitWork where
  next : WorkflowInstance
  evidence : List Evidence
  childWorkflowId : Option String
  executorOk : Option Bool
  nextTransition : Option NextTransition

def mergeSubmit (a : Admitted) (arguments output : Value) : Except Err Value :=
  mergeOutput cfg.lib ⟨arguments, a.inst.context, a.inst.input, some output, some a.inst.runEnv⟩
    (a.transition.get "output")

def checkSubmitWrites (a : Admitted) (context : Value) : DispatchStage Unit := do
  match validateBlackboardWrites cfg.lib a.inst.definition (a.transition.get "output") context with
  | .ok _ => return ()
  | .error (slot, reason) =>
      a.reject cfg "BLACKBOARD_TYPE_ERROR" s!"output write to typed slot '{slot}': {reason}"

def checkConstraints (a : Admitted) (context : Value) : DispatchStage Unit := do
  match evaluateConstraints cfg.lib a.inst.definition a.inst.state context with
  | .ok _ => return ()
  | .error violation => a.reject cfg "SLOT_CONSTRAINT_VIOLATED" violation.message

def checkConfidences (a : Admitted) : List Evidence → DispatchStage Unit
  | [] => return ()
  | ev :: rest => do
    match ev.validateConfidence with
    | .ok _ => checkConfidences a rest
    | .error bad =>
        a.reject cfg "INVALID_CONFIDENCE" s!"Evidence record (kind='{ev.kind}', id='{ev.id}') has confidence={cfg.lib.formatF32 bad} outside the allowed range 0.0..=1.0 (SPEC §20.1)."

/-- Persist the slot updates of an abandoned model turn; only a stale version refuses the submit. The
flag says that the updates were dropped. -/
def persistSlotUpdates (a : Admitted) (arguments : Value) :
    Option Value → DispatchStage (WorkflowInstance × Bool)
  | none => return (a.inst, false)
  | some updates => do
    match mergeSubmit cfg a arguments updates with
    | .error _ => return (a.inst, true)
    | .ok context =>
        let saved ← liftM (saveIfVersion (.slotUpdates a.inst (a.transition.get "output"))
          { a.inst with context := context, version := a.inst.version + 1 } a.request.expectedVersion).run
        match saved with
        | .ok saved => return (saved, false)
        | .error e =>
            if Text.contains e "stale workflow version" then
              a.reject cfg "STALE_WORKFLOW_VERSION" s!"Concurrent writer advanced workflow {a.inst.id} while persisting executor side-effects; expected version {a.request.expectedVersion}. Reload and retry."
            else return (a.inst, true)

/-- A failed executor: keep what it counted, consume a dead wait, record the failure, and give up on
an exhausted agent. -/
def failSubmit (a : Admitted) (arguments : Value) (err : ExecutorError) : DispatchStage α := do
  let (effective, dropped) ← persistSlotUpdates cfg a arguments err.slotUpdates
  let effective ← liftM (consumeDeadSubworkflowWait effective a.request.transition)
  Stage.attempt (auditRecord (((effective.auditEvent "transition.rejected"
    [("transition", .string a.request.transition), ("code", "EXECUTOR_FAILED"),
      ("errorClass", .string err.errorClass.token), ("message", .string err.message),
      ("persistenceDropped", .bool dropped)]).withCorrelation a.correlationId).withActor
        a.request.principal.subject))
  onlyIf (isAgentExhaustion err.message) (liftM (cancelIgnored cfg effective.id err.message))
  replyWith (failedResponse a.inst.definition effective a.request.principal cfg err a.request.transition)

def mergeResult (a : Admitted) (arguments : Value) (result : ExecuteResult) : DispatchStage SubmitWork := do
  forSome result.suspend fun suspend => do
    let response ← Stage.attempt (suspendStep cfg a.inst.definition a.inst a.request.transition
      a.request.expectedVersion a.request.principal suspend)
    Stage.reply response
  let merged ← Stage.attempt (ExceptT.mk (pure (mergeSubmit cfg a arguments result.output) : Run _))
  let context := clearAgentAwaitOnAdvance
    (clearSubworkflowWaitOnAdvance merged a.request.transition) a.request.transition
  checkSubmitWrites cfg a context
  checkConstraints cfg a context
  checkConfidences cfg a result.evidence
  return ⟨{ a.inst with context := context }, result.evidence, result.childWorkflowId, some true,
    result.nextTransition⟩

def runSubmitExecutor (a : Admitted) (arguments : Value) : DispatchStage SubmitWork := do
  match a.transition.get "executor" with
  | none =>
      let context ← Stage.attempt (ExceptT.mk (pure (mergeSubmit cfg a arguments .null) : Run _))
      checkSubmitWrites cfg a context
      return ⟨{ a.inst with context := context }, [], none, none, none⟩
  | some executorConfig =>
      let policy ← Stage.attempt
        (ExceptT.mk (pure (ReliabilityPolicy.fromValue (a.transition.get "reliability")) : Run _))
      let acquired ← liftM (acquireOwnedFiles cfg executorConfig a.inst)
      match acquired with
      | .error (files, conflict) =>
          let response ← Stage.attempt (parkOnLock cfg a.inst.definition a.inst a.request.transition
            a.request.expectedVersion a.request.principal files conflict)
          Stage.reply response
      | .ok lease =>
          let outcome ← liftM (executeLeased cfg lease (.declared (a.firing arguments)) a.inst
            (some a.request.transition) arguments executorConfig policy a.correlationId)
          match outcome with
          | .ok result => mergeResult cfg a arguments result
          | .error err => failSubmit cfg a arguments err

def withSummary (summary : Option String) (context : Value) : Value :=
  match summary with
  | some s => context.insert "summary" (.string s)
  | none => context

def countFire (a : Admitted) (context : Value) : Except Err Value :=
  match maxFires a.transition with
  | none => .ok context
  | some _ =>
      let key := fireCountKey a.inst.state a.request.transition
      (readCounterSlot context key).map fun n => context.insert key (.nat (saturate (n + 1)))

/-- Commit a submitted transition: record first, then the snapshot, then evidence and `onEnter`. -/
def commitSubmit (a : Admitted) (arguments : Value) (guards : List (String × Bool))
    (acceptance : Option AuditEvent) (work : SubmitWork) : DispatchStage WorkflowInstance := do
  let principal := a.request.principal
  let context ← Stage.attempt
    (ExceptT.mk (pure (countFire a (withSummary a.request.summary work.next.context)) : Run _))
  let next := { work.next with context := context }
  let target ← Stage.attempt (resolveTarget a.transition next arguments principal a.correlationId)
  let (rerouted, next) ← Stage.attempt
    (applyWhileLoop a.inst.definition a.inst.state next arguments principal a.correlationId)
  let target := rerouted.getD target
  let next ← liftM (clearStateLocalSlotsOnExit a.inst.definition a.inst.state target next a.correlationId
    principal)
  let next := { next with state := target, version := next.version + 1 }
  let actor := (actorOf a.transition).getD "agent"
  let saved ← Stage.attempt (commitTransition (a.firing arguments) next
    ⟨actor, if actor = "deterministic" ∨ actor = "system" then none else some principal.subject, guards,
      work.childWorkflowId, work.executorOk, a.correlationId⟩ a.request.expectedVersion)
  forSome acceptance fun event => Stage.attempt (auditRecord event)
  liftM (recordEvidence cfg saved.id work.evidence)
  let entered ← Stage.attempt (runOnEnter cfg a.inst.definition saved a.correlationId)
  Stage.attempt (auditRecord (((entered.auditEvent "workflow.transitioned"
    [("transition", .string a.request.transition), ("state", .string entered.state),
      ("version", .nat entered.version)]).withCorrelation a.correlationId).withActor principal.subject))
  return entered

def maxChainDepthOf (definition : Value) : Nat :=
  (u64Field definition "maxChainDepth").getD 50

end Praxec
