import Praxec.Runtime.Leases

namespace Praxec

open Json Effect

variable (cfg : RuntimeConfig)

def guardHolds (guard : Value) (inst : WorkflowInstance) (arguments : Value) (principal : Principal) :
    Fallible Bool := do
  let result ← liftM (evaluateGuard guard inst arguments principal)
  match result with
  | .ok (pass, _) => return pass
  | .error e => throw e.message

structure GuardsOutcome where
  pass : Bool
  evaluated : List (String × Bool)
  diagnostic : Option String

def evaluateGuards (inst : WorkflowInstance) (arguments : Value) (principal : Principal)
    (correlationId : String) : List Value → Nat → List (String × Bool) → ExceptT GuardError Run GuardsOutcome
  | [], _, evaluated => return ⟨true, evaluated, none⟩
  | guard :: rest, idx, evaluated => do
    let (pass, diagnostic) ← ExceptT.mk (evaluateGuard guard inst arguments principal)
    let evaluated := evaluated ++ [((strField guard "kind").getD "", pass)]
    let written ← liftM (auditRecord ((inst.auditEvent "guard.evaluated" [("guardIndex", .nat idx),
      ("guard", guard), ("passed", .bool pass)]).withCorrelation correlationId)).run
    match written with
    | .error e => throw (.other e)
    | .ok _ =>
        if pass then evaluateGuards inst arguments principal correlationId rest (idx + 1) evaluated
        else return ⟨false, evaluated, diagnostic⟩

def guardsPass (transition : Value) (inst : WorkflowInstance) (arguments : Value) (principal : Principal)
    (correlationId : String) : ExceptT GuardError Run GuardsOutcome :=
  evaluateGuards inst arguments principal correlationId (guardsOf transition) 0 []

def firstBranch (inst : WorkflowInstance) (arguments : Value) (principal : Principal) (correlationId : String)
    (defaultTarget : String) : List Value → Nat → Fallible String
  | [], _ => return defaultTarget
  | branch :: rest, idx =>
      match branch.get "when", strField branch "target" with
      | some condition, some target => do
          let pass ← guardHolds condition inst arguments principal
          if pass then
            liftM (recordOrSelfEvent (((inst.auditEvent "transition.branched" [("branchIndex", .nat idx),
              ("fromState", .string inst.state), ("toState", .string target)]).withCorrelation
                correlationId).withActor principal.subject))
            return target
          firstBranch inst arguments principal correlationId defaultTarget rest (idx + 1)
      | _, _ => firstBranch inst arguments principal correlationId defaultTarget rest (idx + 1)

def resolveTarget (transition : Value) (inst : WorkflowInstance) (arguments : Value) (principal : Principal)
    (correlationId : String) : Fallible String := do
  let defaultTarget ← ExceptT.mk (pure (requiredStr transition "target") : Run _)
  match (transition.get "branches").bind Value.asArray with
  | none => return defaultTarget
  | some branches => firstBranch inst arguments principal correlationId defaultTarget branches 0

def whileIterKey (state : String) : String :=
  "_while_iter." ++ state

def fireCountStem (state : String) : String :=
  "_fire_count." ++ state ++ "."

def fireCountKey (state transition : String) : String :=
  fireCountStem state ++ transition

def clearWhileIter (inst : WorkflowInstance) (state : String) : WorkflowInstance :=
  { inst with context := inst.context.remove (whileIterKey state) }

def writeWhileIter (inst : WorkflowInstance) (state : String) (n : Nat) : WorkflowInstance :=
  { inst with context := inst.context.insert (whileIterKey state) (.nat n) }

def readWhileIter (inst : WorkflowInstance) (state : String) : Except Err Nat :=
  (readCounterSlot inst.context (whileIterKey state)).map fun n => min n (2 ^ 32 - 1)

/-- A state's `while` guard may send the run back to the state it was leaving; the iteration counter
lives only as long as it does. -/
def applyWhileLoop (definition : Value) (fromState : String) (next : WorkflowInstance) (arguments : Value)
    (principal : Principal) (correlationId : String) : Fallible (Option String × WorkflowInstance) := do
  match stateDefinition definition fromState with
  | none => return (none, next)
  | some stateDef =>
      match stateDef.get "while" with
      | none => return (none, clearWhileIter next fromState)
      | some whileGuard =>
          match u64Field stateDef "max_iterations" with
          | none => throw s!"INVALID_STATE_CONFIG: state '{fromState}' declares while but no max_iterations cap"
          | some declared =>
              let maxIter := declared % 2 ^ 32
              let truthy ← guardHolds whileGuard next arguments principal
              if !truthy then
                return (none, clearWhileIter next fromState)
              let current ← ExceptT.mk (pure (readWhileIter next fromState) : Run _)
              let nextIter := min (current + 1) (2 ^ 32 - 1)
              onlyIf (maxIter < nextIter) <|
                throw s!"WHILE_ITERATION_CAP_EXCEEDED: state '{fromState}' after {maxIter} iterations"
              let next := writeWhileIter next fromState nextIter
              liftM (recordOrSelfEvent (((next.auditEvent "workflow.state.iteration"
                [("state", .string fromState), ("iteration", .nat nextIter), ("max_iterations", .nat maxIter)]
                ).withCorrelation correlationId).withActor principal.subject))
              return (some fromState, next)

def stateLocalSlots (definition : Value) (state : String) : List String :=
  match ((stateDefinition definition state).bind fun s => s.get "slots").bind Value.asObject with
  | none => []
  | some slots => (slots.filter fun entry => (strField entry.2 "scope").getD "workflow" = "state").map Prod.fst

def clearedContext (definition : Value) (fromState : String) (context : Value) : Value :=
  (stateLocalSlots definition fromState).foldl (fun ctx name => ctx.remove name)
    (context.retain fun key => !Text.startsWith key (fireCountStem fromState))

def clearStateLocalSlotsOnExit (definition : Value) (fromState target : String) (next : WorkflowInstance)
    (correlationId : String) (principal : Principal) : Run WorkflowInstance := do
  if fromState = target then
    return next
  let scrubbed := next.context.retain fun key => !Text.startsWith key (fireCountStem fromState)
  let cleared := (stateLocalSlots definition fromState).filter fun name => scrubbed.hasKey name
  let next := { next with context := clearedContext definition fromState next.context }
  if cleared.isEmpty then
    return next
  recordOrSelfEvent (((next.auditEvent "workflow.slot.cleared" [("state", .string fromState),
    ("slots", .array (cleared.map Value.string))]).withCorrelation correlationId).withActor principal.subject)
  return next

structure RecordParams where
  fromState : String
  transition : String
  definition : Value
  actor : String
  principal : Option String
  arguments : Value
  delta : Value
  guards : List (String × Bool)
  childWorkflowId : Option String
  executorOk : Option Bool
  correlationId : String

def transitionRecord (inst : WorkflowInstance) (p : RecordParams) : TransitionRecord :=
  ⟨inst.id, inst.definitionId, inst.definitionVersion, inst.version, p.fromState, inst.state, p.transition,
    p.actor, p.principal, p.guards, p.arguments, p.delta, p.childWorkflowId,
    ((p.definition.get "executor").bind fun e => strField e "kind").map fun kind => (kind, p.executorOk),
    boolField p.definition "lightweight" false, p.correlationId⟩

def emitTransitionRecord (firing : Firing) (inst : WorkflowInstance) (p : RecordParams) : Fallible Unit := do
  let written : Except Err Unit ←
    liftM (Prog.perform (S := Sig) (.auditTransition firing (transitionRecord inst p)) : Run _)
  match written with
  | .ok _ => return ()
  | .error e => throw s!"RECORD_WRITE_FAILED: failed to write transition record for workflow '{inst.id}' at seq {inst.version}: {e}"

structure CommitNote where
  actor : String
  principal : Option String
  guards : List (String × Bool)
  childWorkflowId : Option String
  executorOk : Option Bool
  correlationId : String

def recordParams (firing : Firing) (next : WorkflowInstance) (note : CommitNote) : RecordParams :=
  ⟨firing.before.state, firing.transition, firing.definition, note.actor, note.principal, firing.arguments,
    blackboardDelta firing.before.context next.context, note.guards, note.childWorkflowId, note.executorOk,
    note.correlationId⟩

def commitTransition (firing : Firing) (next : WorkflowInstance) (note : CommitNote) (expectedVersion : Nat) :
    Fallible WorkflowInstance := do
  emitTransitionRecord firing next (recordParams firing next note)
  saveIfVersion (.transition firing) next expectedVersion

def checkAndApplyTimeout (definition : Value) (inst : WorkflowInstance) (principal : Principal) :
    Fallible (Option WorkflowInstance) := do
  match u64Field definition "timeoutMs" with
  | none => return none
  | some timeoutMs =>
      if isTerminal definition inst.state then
        return none
      let time ← liftM now
      if time < inst.startedAt ∨ time - inst.startedAt < timeoutMs then
        return none
      let elapsed : Fields := [("elapsedMs", .nat (time - inst.startedAt)), ("timeoutMs", .nat timeoutMs),
        ("fromState", .string inst.state)]
      match (definition.walk ["onTimeout", "target"]).bind Value.asStr with
      | none =>
          liftM (recordOrSelfEvent ((inst.auditEvent "workflow.timed_out"
            (elapsed ++ [("applied", .bool false)])).withActor principal.subject))
          return none
      | some target =>
          let next := { inst with state := target, version := inst.version + 1 }
          let correlationId ← liftM (freshId "cor_")
          let name := ((definition.walk ["onTimeout", "transition"]).bind Value.asStr).getD "onTimeout"
          let onTimeout := (definition.get "onTimeout").getD .null
          let firing : Firing := ⟨.timeout, inst, name, onTimeout, .emptyObject⟩
          let written ← liftM (emitTransitionRecord firing next ⟨inst.state, name, onTimeout, "system", none,
            .emptyObject, .emptyObject, [], none, none, correlationId⟩).run
          match written with
          | .error _ => return none
          | .ok _ =>
              let saved ← saveIfVersion (.transition firing) next inst.version
              liftM (recordOrSelfEvent (((saved.auditEvent "workflow.timed_out" (elapsed ++
                [("toState", .string target), ("applied", .bool true)])).withCorrelation
                  correlationId).withActor principal.subject))
              onlyIf (isTerminal definition saved.state) (liftM (resumeParentIfAny saved))
              return some saved

def commitOnEnter (inst : WorkflowInstance) (mapping : Option Value) (context : Value)
    (evidence : List Evidence) : Fallible WorkflowInstance := do
  liftM (recordEvidence cfg inst.id evidence)
  saveIfVersion (.onEnter inst mapping) { inst with context := context, version := inst.version + 1 } inst.version

def mergeOnEnter (inst : WorkflowInstance) (onEnter output : Value) : Except Err Value :=
  mergeOutput cfg.lib ⟨.emptyObject, inst.context, inst.input, some output, some inst.runEnv⟩
    (onEnter.get "output")

def runOnEnter (definition : Value) (inst : WorkflowInstance) (correlationId : String) :
    Fallible WorkflowInstance := do
  match definition.walk ["states", inst.state, "onEnter"] with
  | none => return inst
  | some onEnter =>
      match onEnter.get "executor" with
      | none => return inst
      | some executorConfig =>
          let policy ← ExceptT.mk (pure (ReliabilityPolicy.fromValue (onEnter.get "reliability")) : Run _)
          let outcome ← liftM (executeWithReliability cfg.registered .onEnter inst none .emptyObject
            executorConfig policy correlationId)
          match outcome with
          | .error e => throw ("onEnter executor failed: " ++ e.message)
          | .ok result =>
              onlyIf result.nextTransition.isSome <|
                throw "NEXT_TRANSITION_UNSUPPORTED: an onEnter executor returned a next_transition"
              let context ← ExceptT.mk (pure (mergeOnEnter cfg inst onEnter result.output) : Run _)
              match validateBlackboardWrites cfg.lib definition (onEnter.get "output") context with
              | .error (slot, reason) =>
                  throw s!"BLACKBOARD_TYPE_ERROR: onEnter output write to typed slot '{slot}': {reason}"
              | .ok _ =>
                  commitOnEnter cfg inst (onEnter.get "output") context result.evidence

end Praxec
