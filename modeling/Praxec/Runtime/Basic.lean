import Praxec.Reliability
import Praxec.SlotConstraint
import Praxec.UseBinding
import Praxec.Effect.Stage

namespace Praxec

open Json Effect

structure Checks where
  amplifierValidate : Value → Except Err Unit
  humanAcceptanceEvent : List AuditEvent → String → Value → String → Principal → Value → Except Err AuditEvent
  choiceMismatch : (transition context arguments : Value) → Option String
  agentConfig : (definition : Value) → WorkflowInstance → (transition : Value) → Except Err Value

structure RuntimeConfig where
  lib : Libraries
  checks : Checks
  repoLocks : Bool
  lockScheduler : Bool
  evidence : Bool
  draining : Bool
  inTokioRuntime : Bool
  maxChainedLlmTurns : Nat
  missionDeadlineSecs : Nat
  autoDriveAgents : Bool
  exclusivePools : List (String × List Path)
  registered : String → Bool
  pendingSubjects : Option (List String)

def haltTransition : String := "halt_run"

def lockTtl : Nat := 300000

def poolLeaseTtl : Nat := 3600000

def defaultLivelockHopBudget : Nat := 300

def chainHopsTotalKey : String := "_chain_hops_total"

def chainWallMsTotalKey : String := "_chain_wall_ms_total"

def continuationReadsKey : String := "_agent_continuation_reads"

def saturate (n : Nat) : Nat :=
  min n (2 ^ 64 - 1)

def load (id : String) : Fallible WorkflowInstance :=
  ExceptT.mk (Prog.perform (S := Sig) (.storeLoad id))

def saveIfVersion (kind : SaveKind) (inst : WorkflowInstance) (expectedVersion : Nat) :
    Fallible WorkflowInstance :=
  ExceptT.mk (Prog.perform (S := Sig) (.storeSave kind inst expectedVersion))

def auditRecord (event : AuditEvent) : Fallible Unit :=
  ExceptT.mk (Prog.perform (S := Sig) (.auditRecord event))

def evaluateGuard (guard : Value) (inst : WorkflowInstance) (arguments : Value) (principal : Principal) :
    Run (Except GuardError (Bool × Option String)) :=
  Prog.perform (S := Sig) (.guardEvaluate guard inst arguments principal)

def now : Run Nat :=
  Prog.perform (S := Sig) .now

def freshId (tag : String) : Run String := do
  let id : String ← Prog.perform (S := Sig) .freshId
  return tag ++ id

def enqueue (workflowId transition : String) (files : List Path) (principal : Principal) : Run Unit :=
  Prog.perform (S := Sig) (.enqueue workflowId transition files principal)

def lockRelease (files : List Path) (holder : String) : Run Unit :=
  Prog.perform (S := Sig) (.lockRelease files holder)

def recordOrSelfEvent (event : AuditEvent) : Run Unit := do
  let written : Except Err Unit ← Prog.perform (S := Sig) (.auditRecord event)
  match written with
  | .ok _ => return ()
  | .error e =>
      let _ ← Prog.perform (S := Sig) (.auditRecord ⟨"audit.write_failed", none, none, none, .object
        [("originalEvent", .string event.eventType), ("error", .string e)]⟩)
      return ()

def recordOneEvidence (workflowId : String) (ev : Evidence) : Run Unit := do
  let _ ← Prog.perform (S := Sig) (.evidenceRecord workflowId ev)
  return ()

def recordEvidence (cfg : RuntimeConfig) (workflowId : String) : List Evidence → Run Unit
  | [] => return ()
  | ev :: rest => do
    onlyIf cfg.evidence (recordOneEvidence workflowId ev)
    recordEvidence cfg workflowId rest

def stateDefinition (definition : Value) (state : String) : Option Value :=
  definition.walk ["states", state]

def transitionDefinition (definition : Value) (state transition : String) : Option Value :=
  definition.walk ["states", state, "transitions", transition]

def isTerminal (definition : Value) (state : String) : Bool :=
  ((definition.walk ["states", state, "terminal"]).bind Value.asBool).getD false

def strField (v : Value) (key : String) : Option String :=
  (v.get key).bind Value.asStr

def u64Field (v : Value) (key : String) : Option Nat :=
  (v.get key).bind Value.asU64

def boolField (v : Value) (key : String) (dflt : Bool) : Bool :=
  ((v.get key).bind Value.asBool).getD dflt

def guardsOf (transition : Value) : List Value :=
  ((transition.get "guards").bind Value.asArray).getD []

section

variable (definition : Value) (inst : WorkflowInstance) (principal : Principal)

def evaluateOutcomeChecks : List Value → Run Bool
  | [] => return true
  | oc :: rest => do
    let check := (strField oc "check").getD ""
    let result ← evaluateGuard (.object [("kind", "expr"), ("expr", .string check)]) inst .null principal
    let met := match result with
      | .ok (b, _) => b
      | .error _ => false
    let others ← evaluateOutcomeChecks rest
    return met && others

def evaluateOutcomes : Run Bool :=
  evaluateOutcomeChecks inst principal (((definition.get "outcomes").bind Value.asArray).getD [])

def response (cfg : RuntimeConfig) (hint : StatusHint) (error : Option ResponseError) : Run Response := do
  let outcomesMet ← evaluateOutcomes definition inst principal
  let locks : List HeldLock ← if cfg.repoLocks then Prog.perform (S := Sig) .lockHeld else pure []
  return ⟨inst, hint, error, outcomesMet, [], [], locks⟩

def Response.status (r : Response) : MissionStatus :=
  let state := stateDefinition r.workflow.definition r.workflow.state
  let terminal := isTerminal r.workflow.definition r.workflow.state
  deriveMissionStatus r.hint terminal
    (if terminal then (state.bind fun s => strField s "outcome").bind TerminalOutcome.fromToken else none)
    r.outcomesMet (decide (state.bind (fun s => strField s "actor") = some "human"))

def emitOutcomeRecorded (correlationId : String) : Run Unit := do
  let met ← evaluateOutcomes definition inst principal
  recordOrSelfEvent ((inst.auditEvent "outcome.recorded"
    [("definitionId", .string inst.definitionId), ("outcomesMet", .bool met)]).withCorrelation correlationId)

def recordRejected (cfg : RuntimeConfig) (code message attemptedTransition correlationId : String) :
    Run Response := do
  recordOrSelfEvent (((inst.auditEvent "transition.rejected"
    [("transition", .string attemptedTransition), ("code", .string code), ("message", .string message),
      ("fromState", .string inst.state)]).withCorrelation correlationId).withActor principal.subject)
  response definition inst principal cfg .rejected
    (some ⟨code, message, [("attemptedTransition", .string attemptedTransition)]⟩)

def failedResponse (cfg : RuntimeConfig) (err : ExecutorError) (attemptedTransition : String) : Run Response :=
  response definition inst principal cfg .failed (some ⟨"EXECUTOR_FAILED", err.message,
    [("errorClass", .string err.errorClass.token), ("attemptedTransition", .string attemptedTransition)]⟩)

end

end Praxec
