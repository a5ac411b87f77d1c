import Praxec.Ports

namespace Praxec

open Json Effect

inductive Backoff where
  | none | fixed | exponential
deriving DecidableEq

structure RetryPolicy where
  maxAttempts : Nat
  backoff : Backoff
  initialDelayMs : Nat
  maxDelayMs : Option Nat
  retryOn : List String
deriving DecidableEq

structure ReliabilityPolicy where
  timeoutMs : Option Nat
  retry : Option RetryPolicy
  fallback : Option (String × List Value)
deriving DecidableEq

def RetryPolicy.default : RetryPolicy :=
  ⟨1, .none, 0, none, ["timeout", "transient_error", "rate_limited"]⟩

def recordFields (keys : List String) : Value → Option Fields
  | .object fields => some fields
  | .array xs => if xs.length ≤ keys.length then some (keys.zip xs) else none
  | _ => none

def optionalField {α : Type} (fields : Fields) (key : String) (parse : Value → Option α) : Option (Option α) :=
  match fields.get key with
  | none | some .null => some none
  | some v => (parse v).map some

def defaultedField {α : Type} (fields : Fields) (key : String) (dflt : α) (parse : Value → Option α) :
    Option α :=
  match fields.get key with
  | none => some dflt
  | some v => parse v

def parseU32 (v : Value) : Option Nat :=
  v.asU64.bind fun n => if n < 2 ^ 32 then some n else none

def parseBackoff (v : Value) : Option Backoff :=
  match v.asStr with
  | some "none" => some .none
  | some "fixed" => some .fixed
  | some "exponential" => some .exponential
  | _ => none

def parseRetry (v : Value) : Option RetryPolicy := do
  let fields ← recordFields ["maxAttempts", "backoff", "initialDelayMs", "maxDelayMs", "retryOn"] v
  let maxAttempts ← defaultedField fields "maxAttempts" 1 parseU32
  let backoff ← defaultedField fields "backoff" .none parseBackoff
  let initialDelayMs ← defaultedField fields "initialDelayMs" 0 Value.asU64
  let maxDelayMs ← optionalField fields "maxDelayMs" Value.asU64
  let retryOn ← defaultedField fields "retryOn" RetryPolicy.default.retryOn fun v =>
    v.asArray.bind fun xs => xs.mapM Value.asStr
  return ⟨maxAttempts, backoff, initialDelayMs, maxDelayMs, retryOn⟩

def parseFallback (v : Value) : Option (String × List Value) := do
  let fields ← recordFields ["strategy", "executors"] v
  let strategy ← defaultedField fields "strategy" "first_success" Value.asStr
  let executors ← (fields.get "executors").bind Value.asArray
  return (strategy, executors)

def parsePolicy (v : Value) : Option ReliabilityPolicy := do
  let fields ← recordFields ["timeoutMs", "retry", "fallback"] v
  let timeoutMs ← optionalField fields "timeoutMs" Value.asU64
  let retry ← optionalField fields "retry" parseRetry
  let fallback ← optionalField fields "fallback" parseFallback
  return ⟨timeoutMs, retry, fallback⟩

namespace ReliabilityPolicy

def fromValue (value : Option Value) : Except Err ReliabilityPolicy :=
  match value with
  | none => .ok ⟨none, none, none⟩
  | some v => match parsePolicy v with
    | some policy => .ok policy
    | none => .error "INVALID_RELIABILITY_POLICY: malformed reliability block"

def retryPolicy (policy : ReliabilityPolicy) : RetryPolicy :=
  policy.retry.getD RetryPolicy.default

def fallbackExecutors (policy : ReliabilityPolicy) : List Value :=
  match policy.fallback with
  | some (_, executors) => executors
  | none => []

def candidates (policy : ReliabilityPolicy) (primary : Value) : List Value :=
  primary :: policy.fallbackExecutors

end ReliabilityPolicy

def RetryPolicy.retryable (retry : RetryPolicy) (errorClass : ErrorClass) : Bool :=
  retry.retryOn.any fun c => c = errorClass.token

def computeIdempotencyKey (primary : Value) (inst : WorkflowInstance) (transition : Option String)
    (correlationId : String) : Option String :=
  let name := transition.getD "on_enter"
  match primary.get "idempotencyKey" with
  | some (.bool true) => some (inst.id ++ "." ++ name ++ "." ++ correlationId)
  | some (.string template) =>
      let key := Text.replaceAll template "\x7bworkflowId\x7d" inst.id
      let key := Text.replaceAll key "\x7btransition\x7d" name
      some (Text.replaceAll key "\x7bcorrelationId\x7d" correlationId)
  | _ => none

structure ExecJob where
  site : ExecSite
  inst : WorkflowInstance
  transition : Option String
  arguments : Value
  idempotencyKey : Option String
  correlationId : String
  retry : RetryPolicy

namespace ExecJob

def request (job : ExecJob) (executorConfig : Value) : ExecuteRequest :=
  ⟨job.inst, job.transition, job.arguments, executorConfig, job.idempotencyKey, some job.correlationId⟩

def event (job : ExecJob) (eventType kind : String) (candidate : Nat) (extra : Fields) : AuditEvent :=
  (job.inst.auditEvent eventType
    ([("transition", (job.transition.map Value.string).getD .null), ("candidate", .nat candidate),
      ("kind", .string kind)] ++ extra)).withCorrelation job.correlationId

end ExecJob

def recordOrWarn (event : AuditEvent) : Run Unit := do
  let _ ← Prog.perform (S := Sig) (.auditRecord event)
  return ()

def execute (site : ExecSite) (request : ExecuteRequest) : Run Execution := do
  let _ ← Prog.perform (S := Sig) (.executeBegin site request)
  Prog.perform (S := Sig) (.executeEnd site request)

def failure (attempt : Nat) (err : ExecutorError) : Fields :=
  [("attempt", .nat attempt), ("errorClass", .string err.errorClass.token), ("error", .string err.message)]

def attemptCandidate (job : ExecJob) (executorConfig : Value) (kind : String) (candidate : Nat) :
    (left attempt : Nat) → Run Execution
  | left, attempt => do
    recordOrWarn (job.event "executor.started" kind candidate
      [("attempt", .nat attempt), ("idempotencyKey", (job.idempotencyKey.map Value.string).getD .null)])
    let result ← execute job.site (job.request executorConfig)
    match result with
    | .ok r =>
        recordOrWarn (job.event "executor.succeeded" kind candidate [("attempt", .nat attempt)])
        return .ok r
    | .error err =>
        match left with
        | left' + 1 =>
            if job.retry.retryable err.errorClass then
              recordOrWarn (job.event "executor.retrying" kind candidate (failure attempt err))
              attemptCandidate job executorConfig kind candidate left' (attempt + 1)
            else
              recordOrWarn (job.event "executor.failed" kind candidate (failure attempt err))
              return .error err
        | 0 =>
            recordOrWarn (job.event "executor.failed" kind candidate (failure attempt err))
            return .error err

def unregistered (kind : String) : String :=
  if kind = "llm" then
    "executor kind 'llm' is not registered — this build does not include the LLM executor; re-install with the " ++
      "`llm-executor` feature (default-on for `cargo install praxec`)"
  else "executor kind '" ++ kind ++ "' is not registered"

def tryCandidates (registered : String → Bool) (job : ExecJob) :
    List Value → Nat → ExecutorError → Run Execution
  | [], _, last => return .error last
  | executorConfig :: rest, candidate, last => do
    let kind := ((executorConfig.get "kind").bind Value.asStr).getD ""
    onlyIf (candidate > 0) <|
      recordOrWarn (job.event "fallback.selected" kind candidate [("previousError", .string last.message)])
    if registered kind then
      match ← attemptCandidate job executorConfig kind candidate (job.retry.maxAttempts - 1) 1 with
      | .ok r => return .ok r
      | .error err => tryCandidates registered job rest (candidate + 1) err
    else
      tryCandidates registered job rest (candidate + 1) (.permanent (unregistered kind))

def executeWithReliability (registered : String → Bool) (site : ExecSite) (inst : WorkflowInstance)
    (transition : Option String) (arguments primary : Value) (policy : ReliabilityPolicy)
    (correlationId : String) : Run Execution :=
  let job : ExecJob := ⟨site, inst, transition, arguments,
    computeIdempotencyKey primary inst transition correlationId, correlationId, policy.retryPolicy⟩
  tryCandidates registered job (policy.candidates primary) 0 (.permanent "no executor candidates")

end Praxec
