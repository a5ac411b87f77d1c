import Praxec.Json.Pointer
import Praxec.LockScheduler
import Praxec.Text

namespace Praxec

open Json

abbrev F32 := BitVec 32

namespace F32

def magnitude (x : F32) : Nat :=
  x.toNat % 2 ^ 31

def isNaN (x : F32) : Bool :=
  0x7F800000 < magnitude x

/-- The order of the represented numbers; both zeros have key `0`. -/
def key (x : F32) : Int :=
  if x.toNat < 2 ^ 31 then magnitude x else -magnitude x

def le (x y : F32) : Bool :=
  !isNaN x && !isNaN y && key x ≤ key y

def zero : F32 := 0#32

def one : F32 := 0x3F800000#32

end F32

structure Evidence where
  kind : String
  id : String
  uri : Option String
  summary : Option String
  digest : Option String
  confidence : Option F32
deriving DecidableEq

/-- A stated confidence lies in `0.0..=1.0`; `Err` carries the offending value. -/
def Evidence.validateConfidence (e : Evidence) : Except F32 Unit :=
  match e.confidence with
  | some c => if F32.le F32.zero c && F32.le c F32.one then .ok () else .error c
  | none => .ok ()

def Evidence.ConfidenceOk (e : Evidence) : Prop :=
  e.validateConfidence = .ok ()

instance (e : Evidence) : Decidable e.ConfidenceOk :=
  match h : e.validateConfidence with
  | .ok () => isTrue h
  | .error _ => isFalse (by simp [Evidence.ConfidenceOk, h])

structure RunEnv where
  repoRoot : String
  runId : Option String
  traceId : Option String
  runRef : Option String
  leased : List (String × String)
deriving DecidableEq

structure ParentLink where
  workflowId : String
  transition : String
deriving DecidableEq

structure WorkflowInstance where
  id : String
  definitionId : String
  definitionVersion : String
  definition : Value
  state : String
  version : Nat
  input : Value
  context : Value
  startedAt : Nat
  runEnv : RunEnv
  depth : Nat
  cancelledAt : Option Nat
  cancelledReason : Option String
  parent : Option ParentLink
deriving DecidableEq

/-- A gateway-maintained counter: an absent or null slot is zero, anything but an unsigned integer is
corruption. -/
def readCounterSlot (context : Value) (key : String) : Except String Nat :=
  match context.get key with
  | none | some .null => .ok 0
  | some v => match v.asU64 with
    | some n => .ok n
    | none => .error s!"CORRUPT_COUNTER_SLOT: context slot {key} holds a non-numeric value"

structure SubmitTransition where
  workflowId : String
  expectedVersion : Nat
  transition : String
  arguments : Value
  principal : Principal
  summary : Option String
  traceId : Option String
  runId : Option String
deriving DecidableEq

structure StartWorkflow where
  definitionId : String
  input : Value
  principal : Principal
  runEnv : RunEnv
  depth : Nat
  parent : Option ParentLink
deriving DecidableEq

structure NextTransition where
  transition : String
  arguments : Value
  summary : Option String
deriving DecidableEq

inductive StepSuspend where
  | subworkflow (childWorkflowId : String)
  | agentAwait (correlationId prompt : String)
deriving DecidableEq

structure ExecuteRequest where
  workflow : WorkflowInstance
  transition : Option String
  arguments : Value
  executorConfig : Value
  idempotencyKey : Option String
  correlationId : Option String
deriving DecidableEq

structure ExecuteResult where
  output : Value
  evidence : List Evidence
  childWorkflowId : Option String
  nextTransition : Option NextTransition
  suspend : Option StepSuspend
deriving DecidableEq

inductive ErrorClass where
  | timeout | rateLimited | auth | connection | transient | permanent
deriving DecidableEq

def ErrorClass.token : ErrorClass → String
  | .timeout => "timeout"
  | .rateLimited => "rate_limited"
  | .auth => "auth_error"
  | .connection => "connection_error"
  | .transient => "transient_error"
  | .permanent => "permanent_error"

/-- What an executor can fail with: a class for the retry policy, the text it displays, and the slot
updates an abandoned model turn still carries. -/
structure ExecutorError where
  errorClass : ErrorClass
  message : String
  slotUpdates : Option Value
deriving DecidableEq

abbrev Execution := Except ExecutorError ExecuteResult

def ExecutorError.permanent (message : String) : ExecutorError :=
  ⟨.permanent, "permanent error: " ++ message, none⟩

def isAgentExhaustion (message : String) : Bool :=
  Text.contains message "AGENT_CHAIN_EXHAUSTED" || Text.contains message "AGENT_STEP_BUDGET_EXHAUSTED"

end Praxec
