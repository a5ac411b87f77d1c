import Praxec.Effect.Machine
import Praxec.Mapping
import Praxec.Mission

namespace Praxec

open Json Effect

abbrev Err := String

structure AuditEvent where
  eventType : String
  workflowId : Option String
  correlationId : Option String
  actor : Option String
  payload : Value
deriving DecidableEq

def WorkflowInstance.auditEvent (inst : WorkflowInstance) (eventType : String) (payload : Fields) : AuditEvent :=
  ⟨eventType, some inst.id, none, none, .object payload⟩

def AuditEvent.withCorrelation (e : AuditEvent) (correlationId : String) : AuditEvent :=
  { e with correlationId := some correlationId }

def AuditEvent.withActor (e : AuditEvent) (actor : String) : AuditEvent :=
  { e with actor := some actor }

structure TransitionRecord where
  workflowId : String
  definitionId : String
  definitionVersion : String
  seq : Nat
  fromState : String
  toState : String
  transition : String
  actor : String
  principal : Option String
  guards : List (String × Bool)
  arguments : Value
  blackboardDelta : Value
  childWorkflowId : Option String
  executor : Option (String × Option Bool)
  lightweight : Bool
  correlationId : String
deriving DecidableEq

inductive GuardError where
  | unsetSlot (message : String)
  | other (message : String)
deriving DecidableEq

def GuardError.message : GuardError → String
  | .unsetSlot m | .other m => m

/-- What makes a state change: a submit, a chain hop selected among its state's candidates or driven by
an agent, or the workflow's deadline. -/
inductive CommitSite where
  | submit
  | selected (candidates : Fields)
  | agent
  | timeout
deriving DecidableEq

structure Firing where
  site : CommitSite
  before : WorkflowInstance
  transition : String
  definition : Value
  arguments : Value
deriving DecidableEq

/-- What an executor is dispatched for: the declared executor of a fired transition, the agent that is
to drive a transition, or a state's `onEnter`. -/
inductive ExecSite where
  | declared (firing : Firing)
  | agent (transition : Value)
  | onEnter
deriving DecidableEq

def ExecSite.isSubmit : ExecSite → Bool
  | .declared f => f.site = .submit
  | _ => false

inductive SaveKind where
  | transition (firing : Firing)
  | lockWait (base : WorkflowInstance) (files : List Path) (transition : String)
  | subworkflowWait (base : WorkflowInstance)
  | agentAwait (base : WorkflowInstance)
  | slotUpdates (base : WorkflowInstance) (mapping : Option Value)
  | deadWait (base : WorkflowInstance)
  | onEnter (base : WorkflowInstance) (mapping : Option Value)
  | cancel (base : WorkflowInstance)
  | spawnBinding (base : WorkflowInstance)
deriving DecidableEq

def SaveKind.base : SaveKind → WorkflowInstance
  | .transition f => f.before
  | .lockWait base .. | .subworkflowWait base | .agentAwait base | .slotUpdates base _ | .deadWait base
  | .onEnter base _ | .cancel base | .spawnBinding base => base

structure ChainStep where
  fromState : String
  transition : String
  toState : String
  version : Nat
deriving DecidableEq

structure ResponseError where
  code : String
  message : String
  detail : Fields
deriving DecidableEq

structure Response where
  workflow : WorkflowInstance
  hint : StatusHint
  error : Option ResponseError
  outcomesMet : Bool
  evidence : List Evidence
  chain : List ChainStep
  locks : List HeldLock
deriving DecidableEq

structure ChainResult where
  inst : WorkflowInstance
  steps : List ChainStep
  evidence : List Evidence
deriving DecidableEq

inductive ChainOutcome where
  | completed (result : ChainResult)
  | failed (progress : ChainResult) (error errorClass failedTransition : String)
  | suspended (progress : ChainResult) (suspend : StepSuspend) (transition : String)
  | waitingOnLock (progress : ChainResult) (transition : String) (files : List Path) (conflict : LockConflict)
  | quarantined (progress : ChainResult) (reason : String)
  | deadlineExceeded (progress : ChainResult) (reason : String) (elapsedMs deadlineMs : Nat)
  | aborted (progress : ChainResult) (reason : String)
deriving DecidableEq

structure ChainArgs where
  definition : Value
  inst : WorkflowInstance
  principal : Principal
  correlationId : String
  maxDepth : Nat
  livelockBudget : Nat
deriving DecidableEq

/-- Requests to the ports of the runtime. An executor call is two requests, so that other tasks may
run while it is being executed. -/
inductive Op where
  | storeLoad (id : String)
  | storeSave (kind : SaveKind) (inst : WorkflowInstance) (expectedVersion : Nat)
  | storeCreate (inst : WorkflowInstance)
  | storeListWaitingOnLock
  | storeListWaitingOnSubworkflow
  | storeListAll
  | storeFindByRunId (runId : String)
  | definitionGet (id : String)
  | auditRecord (event : AuditEvent)
  | auditTransition (firing : Firing) (record : TransitionRecord)
  | auditListEvents
  | evidenceRecord (workflowId : String) (evidence : Evidence)
  | guardEvaluate (guard : Value) (inst : WorkflowInstance) (arguments : Value) (principal : Principal)
  | executeBegin (site : ExecSite) (request : ExecuteRequest)
  | executeEnd (site : ExecSite) (request : ExecuteRequest)
  | lockAcquire (files : List Path) (holder : String) (ttl : Nat)
  | lockAcquireAny (candidates : List Path) (holder : String) (ttl : Nat)
  | lockRelease (files : List Path) (holder : String)
  | lockHeartbeat (files : List Path) (holder : String)
  | lockHeld
  | enqueue (workflowId transition : String) (files : List Path) (principal : Principal)
  | takeReady (held : List Path)
  | now
  | freshId
  | cancelRequested
deriving DecidableEq

def Op.Res : Op → Type
  | .storeLoad _ | .storeSave .. | .storeCreate _ => Except Err WorkflowInstance
  | .storeListWaitingOnLock | .storeListWaitingOnSubworkflow | .storeListAll =>
      Except Err (List WorkflowInstance)
  | .storeFindByRunId _ => Except Err (Option String)
  | .definitionGet _ => Except Err Value
  | .auditRecord _ | .auditTransition .. | .evidenceRecord .. => Except Err Unit
  | .auditListEvents => Except Err (Option (List AuditEvent))
  | .guardEvaluate .. => Except GuardError (Bool × Option String)
  | .executeBegin .. => Unit
  | .executeEnd .. => Execution
  | .lockAcquire .. => Except LockConflict Unit
  | .lockAcquireAny .. => Except LockConflict Path
  | .lockRelease .. | .lockHeartbeat .. | .enqueue .. => Unit
  | .lockHeld => List HeldLock
  | .takeReady _ => Option Waiter
  | .now => Nat
  | .freshId => String
  | .cancelRequested => Bool

/-- Entry points of the runtime, and the two procedures that recur: the deterministic chain, which a
deadline may cut, and the wake-up loop. -/
inductive Proc where
  | start (request : StartWorkflow)
  | submit (request : SubmitTransition)
  | get (workflowId : String) (principal : Principal)
  | cancel (workflowId reason : String)
  | runDeterministicChain (args : ChainArgs)
  | resumeReadyLocks
  | recoverSuspendedLocks
  | recoverSuspendedSubworkflows
  | reapOrphanedRuns
deriving DecidableEq

def Proc.Ret : Proc → Type
  | .start _ | .submit _ | .get .. => Except Err Response
  | .cancel .. => Except Err Unit
  | .runDeterministicChain _ => Except Err ChainOutcome
  | .resumeReadyLocks | .recoverSuspendedLocks | .recoverSuspendedSubworkflows => Unit
  | .reapOrphanedRuns => Except Err Nat

abbrev Sig : Signature :=
  ⟨Op, Op.Res, Proc, Proc.Ret⟩

abbrev History := List (Event Sig)

abbrev Run := Prog Sig

abbrev Fallible := ExceptT Err Run

end Praxec
