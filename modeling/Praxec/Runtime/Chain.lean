import Praxec.Runtime.Transition

namespace Praxec

open Json Effect ReliabilityPolicy

variable (cfg : RuntimeConfig)

abbrev Candidate := String × Value

def selectionGuardsPass (inst : WorkflowInstance) (principal : Principal) (correlationId : String) :
    List Value → Fallible Bool
  | [] => return true
  | guard :: rest => do
    let pass ← guardHolds guard inst .emptyObject principal
    liftM (recordOrSelfEvent ((inst.auditEvent "guard.evaluated" [("guard", guard), ("passed", .bool pass),
      ("context", "deterministic_selection")]).withCorrelation correlationId))
    if pass then selectionGuardsPass inst principal correlationId rest else return false

def viableCandidates (inst : WorkflowInstance) (principal : Principal) (correlationId : String) :
    List Candidate → Fallible (List Candidate × List Candidate)
  | [] => return ([], [])
  | candidate :: rest =>
      if (guardsOf candidate.2).isEmpty then do
        let (viable, defaults) ← viableCandidates inst principal correlationId rest
        return (viable, candidate :: defaults)
      else do
        let pass ← selectionGuardsPass inst principal correlationId (guardsOf candidate.2)
        let (viable, defaults) ← viableCandidates inst principal correlationId rest
        return (if pass then candidate :: viable else viable, defaults)

/-- A single candidate is taken as it is; among several, the one whose guards pass, or else the one
unguarded default. -/
def selectDeterministicTransition (candidates : List Candidate) (inst : WorkflowInstance)
    (principal : Principal) (correlationId : String) : Fallible Candidate := do
  match candidates with
  | [candidate] => return candidate
  | candidates =>
      let (viable, defaults) ← viableCandidates inst principal correlationId candidates
      match viable, defaults with
      | [candidate], _ => return candidate
      | [], [candidate] => return candidate
      | [], [] => throw s!"no viable deterministic transition in state '{inst.state}': all {candidates.length} candidates had failing guards and there is no default"
      | [], _ => throw s!"ambiguous default in state '{inst.state}': {defaults.length} unguarded deterministic transitions; at most one default is allowed"
      | _, _ => throw s!"ambiguous deterministic transition in state '{inst.state}': {viable.length} of {candidates.length} candidates had passing guards; exactly one must be viable"

def actorOf (transition : Value) : Option String :=
  strField transition "actor"

inductive HopPlan where
  | stop
  | select (candidates : List Candidate) (directModelDrive : Bool)
  | autoDrive (candidate : Candidate)

/-- Deterministic transitions go first; agent transitions are driven only when there are none, and
any other state changer stops the chain. -/
def hopPlan (definition : Value) (state : String) : HopPlan :=
  match (definition.walk ["states", state, "transitions"]).bind Value.asObject with
  | none => .stop
  | some transitions =>
      let deterministic := transitions.filter fun t => t.1 ≠ haltTransition ∧ actorOf t.2 = some "deterministic"
      let callerDriven := boolField definition "proxySurface" false
      let agentDrivable := if cfg.autoDriveAgents && !callerDriven then
          transitions.filter fun t => actorOf t.2 = some "agent" ∧ t.1 ≠ "escalate" ∧ t.1 ≠ haltTransition
        else []
      let useAgentDrive := deterministic.isEmpty && !agentDrivable.isEmpty
      let blocking := transitions.filter fun t => actorOf t.2 ≠ some "deterministic" ∧
        boolField t.2 "lightweight" false = false ∧
        ¬ (cfg.autoDriveAgents ∧ actorOf t.2 = some "agent" ∧ t.1 ≠ "escalate")
      if !blocking.isEmpty && !useAgentDrive then .stop
      else match deterministic, agentDrivable with
        | [], [] => .stop
        | [], candidate :: rest =>
            if (definition.get "amplifier").isSome then .select (candidate :: rest) true
            else .autoDrive candidate
        | candidates, _ => .select candidates false

structure Drive where
  inst : WorkflowInstance
  steps : List ChainStep
  evidence : List Evidence

def Drive.result (d : Drive) : ChainResult :=
  ⟨d.inst, d.steps, d.evidence⟩

abbrev ChainStage := Stage Sig Err ChainOutcome

variable (args : ChainArgs)

def Drive.event (d : Drive) (eventType : String) (payload : Fields) : AuditEvent :=
  (d.inst.auditEvent eventType payload).withCorrelation args.correlationId

def missionDeadlineExceededOutcome (d : Drive) (elapsedMs deadlineMs : Nat) : Run ChainOutcome := do
  recordOrSelfEvent (d.event args "chain.deadline_exceeded" [("state", .string d.inst.state),
    ("elapsedMs", .nat elapsedMs), ("deadlineMs", .nat deadlineMs),
    ("reason", "mission_deadline_exceeded")])
  return .deadlineExceeded d.result s!"mission_deadline_exceeded: run spent {elapsedMs}ms of active drive time (deadline {deadlineMs}ms) without reaching a terminal state" elapsedMs deadlineMs

def missionDeadlineMs : Nat :=
  saturate (missionDeadlineSecsFor cfg args.definition * 1000)

def hopChecks (d : Drive) : ChainStage Bool := do
  liftM (refreshRunLeases cfg d.inst)
  let cancelled : Bool ← liftM (Prog.perform (S := Sig) .cancelRequested : Run Bool)
  onlyIf cancelled do
    liftM (recordOrSelfEvent (d.event args "chain.aborted" [("state", .string d.inst.state),
      ("chainDepth", .nat d.steps.length), ("reason", "client_aborted")]))
    Stage.reply (.aborted d.result s!"client_aborted: the controlling MCP client cancelled or disconnected the in-flight call at state '{d.inst.state}' after {d.steps.length} hop(s)")
  let hops := (u64Field d.inst.context chainHopsTotalKey).getD 0
  liftM (recordOrSelfEvent (d.event args "chain.heartbeat" [("state", .string d.inst.state),
    ("chainDepth", .nat d.steps.length), ("chainHopsTotal", .nat hops)]))
  if isTerminal args.definition d.inst.state then
    return false
  if args.maxDepth ≤ d.steps.length then
    return false
  onlyIf (args.livelockBudget ≤ hops) do
    liftM (recordOrSelfEvent (d.event args "chain.quarantined" [("state", .string d.inst.state),
      ("chainHopsTotal", .nat hops), ("livelockBudget", .nat args.livelockBudget),
      ("reason", "livelock_quarantine")]))
    Stage.reply (.quarantined d.result s!"livelock_quarantine: run took {hops} cumulative chain hops (budget {args.livelockBudget}) without reaching a terminal state")
  let deadlineMs := missionDeadlineMs cfg args
  let wallMs := (u64Field d.inst.context chainWallMsTotalKey).getD 0
  onlyIf (0 < deadlineMs ∧ deadlineMs ≤ wallMs) do
    let outcome ← liftM (missionDeadlineExceededOutcome args d wallMs deadlineMs)
    Stage.reply outcome
  return true

structure Hop where
  name : String
  definition : Value
  arguments : Value
  actor : String
  site : CommitSite
  snapshot : Option Value

def Hop.firing (hop : Hop) (d : Drive) : Firing :=
  ⟨hop.site, d.inst, hop.name, hop.definition, hop.arguments⟩

def chainFailed (d : Drive) (payload : Fields) (error errorClass failedTransition : String) :
    ChainStage α := do
  liftM (recordOrSelfEvent (d.event args "chain.failed" payload))
  Stage.reply (.failed d.result error errorClass failedTransition)

/-- Run the agent of an auto-driven hop under the lease of the transition's declared executor; its
output becomes the arguments of the transition. -/
def autoDriveHop (d : Drive) (candidate : Candidate) : ChainStage Hop := do
  let snapshot ← Stage.attempt (ExceptT.mk (pure (captureContinuation args.definition d.inst) : Run _))
  forSome snapshot fun s => do
    let unchanged ← Stage.attempt (ExceptT.mk (pure (continuationUnchanged d.inst s) : Run _))
    onlyIf unchanged do
      liftM (recordOrSelfEvent (d.event args "chain.quarantined" [("state", .string d.inst.state),
        ("reason", "continuation_unchanged")]))
      Stage.reply (.quarantined d.result s!"continuation_unchanged: state '{d.inst.state}' has no change in its declared continuation reads")
  let (name, transition) := candidate
  let agentConfig ← Stage.attempt
    (ExceptT.mk (pure (cfg.checks.agentConfig args.definition d.inst transition) : Run _))
  let declared := (transition.get "executor").getD .emptyObject
  let acquired ← liftM (acquireOwnedFiles cfg declared d.inst)
  match acquired with
  | .error (files, conflict) => Stage.reply (.waitingOnLock d.result name files conflict)
  | .ok lease =>
      liftM (recordOrSelfEvent (d.event args "agent.invoked" [("transition", .string name),
        ("state", .string d.inst.state)]))
      let policy ← Stage.attempt
        (ExceptT.mk (pure (fromValue (transition.get "reliability")) : Run _))
      let outcome ← liftM (executeLeased cfg lease (.agent transition) d.inst (some name) .emptyObject
        agentConfig policy args.correlationId)
      match outcome with
      | .ok result =>
          liftM (recordOrSelfEvent (d.event args "agent.completed" [("transition", .string name)]))
          return ⟨name, transition, result.output, "agent", .agent, snapshot⟩
      | .error e =>
          chainFailed args d [("fromState", .string d.inst.state), ("transition", .string name),
            ("chainDepth", .nat d.steps.length), ("errorClass", .string e.errorClass.token),
            ("message", .string e.message)] e.message e.errorClass.token name

def selectHop (d : Drive) : ChainStage (Option Hop) := do
  match hopPlan cfg args.definition d.inst.state with
  | .stop => return none
  | .autoDrive candidate => return some (← autoDriveHop cfg args d candidate)
  | .select candidates direct =>
      let selected ← liftM
        (selectDeterministicTransition candidates d.inst args.principal args.correlationId).run
      match selected with
      | .ok (name, transition) =>
          return some ⟨name, transition, .emptyObject, if direct then "agent" else "deterministic",
            .selected candidates, none⟩
      | .error e =>
          chainFailed args d [("fromState", .string d.inst.state), ("chainDepth", .nat d.steps.length),
            ("errorClass", "selection_error"), ("message", .string e)] e "selection_error" ""

structure HopWork where
  inst : WorkflowInstance
  childWorkflowId : Option String
  executorOk : Option Bool
  evidence : List Evidence

def mergeHop (d : Drive) (hop : Hop) (output : Value) : Except Err Value :=
  mergeOutput cfg.lib ⟨hop.arguments, d.inst.context, d.inst.input, some output, some d.inst.runEnv⟩
    (hop.definition.get "output")

def checkHopWrites (d : Drive) (hop : Hop) (context : Value) : ChainStage Unit := do
  match validateBlackboardWrites cfg.lib args.definition (hop.definition.get "output") context with
  | .ok _ => return ()
  | .error (slot, reason) =>
      let message := s!"BLACKBOARD_TYPE_ERROR: output write to typed slot '{slot}': {reason}"
      chainFailed args { d with inst := { d.inst with context := context } }
        [("transition", .string hop.name), ("fromState", .string d.inst.state),
          ("chainDepth", .nat d.steps.length), ("code", "BLACKBOARD_TYPE_ERROR"),
          ("message", .string message)] message "blackboard_type_error" hop.name

def runHopExecutor (d : Drive) (hop : Hop) : ChainStage HopWork := do
  match hop.definition.get "executor" with
  | none =>
      let context ← Stage.attempt (ExceptT.mk (pure (mergeHop cfg d hop .null) : Run _))
      checkHopWrites cfg args d hop context
      return ⟨{ d.inst with context := context }, none, none, d.evidence⟩
  | some executorConfig =>
      let policy ← Stage.attempt
        (ExceptT.mk (pure (fromValue (hop.definition.get "reliability")) : Run _))
      let outcome ← liftM (executeWithReliability cfg.registered (.declared (hop.firing d)) d.inst
        (some hop.name) hop.arguments executorConfig policy args.correlationId)
      match outcome with
      | .error e =>
          chainFailed args d [("transition", .string hop.name), ("fromState", .string d.inst.state),
            ("chainDepth", .nat d.steps.length), ("errorClass", .string e.errorClass.token),
            ("message", .string e.message)] e.message e.errorClass.token hop.name
      | .ok result =>
          forSome result.suspend fun suspend => do
            liftM (recordOrSelfEvent (d.event args "chain.suspended" [("transition", .string hop.name),
              ("fromState", .string d.inst.state), ("chainDepth", .nat d.steps.length)]))
            Stage.reply (.suspended d.result suspend hop.name)
          onlyIf result.nextTransition.isSome <|
            throw (.fail "NEXT_TRANSITION_UNSUPPORTED: a deterministic executor returned a next_transition")
          let merged ← Stage.attempt (ExceptT.mk (pure (mergeHop cfg d hop result.output) : Run _))
          let context := clearAgentAwaitOnAdvance (clearSubworkflowWaitOnAdvance merged hop.name) hop.name
          checkHopWrites cfg args d hop context
          return ⟨{ d.inst with context := context }, result.childWorkflowId, some true,
            d.evidence ++ result.evidence⟩

def chargedContext (context : Value) (hopMs : Nat) : Value :=
  let hops := (u64Field context chainHopsTotalKey).getD 0
  let wallMs := (u64Field context chainWallMsTotalKey).getD 0
  (context.insert chainHopsTotalKey (.nat (hops + 1))).insert chainWallMsTotalKey (.nat (saturate (wallMs + hopMs)))

def commitHop (d : Drive) (hop : Hop) (work : HopWork) (startedAt : Nat) : ChainStage Drive := do
  let target ← Stage.attempt
    (resolveTarget hop.definition work.inst hop.arguments args.principal args.correlationId)
  let restored ← Stage.attempt (ExceptT.mk (pure (commitContinuation work.inst.context
    (d.inst.context.get continuationReadsKey) d.inst.state hop.snapshot) : Run _))
  let time ← liftM now
  let next := { work.inst with
    state := target, version := work.inst.version + 1, context := chargedContext restored (time - startedAt) }
  let saved ← Stage.attempt (commitTransition (hop.firing d) next
    ⟨hop.actor, none, [], work.childWorkflowId, work.executorOk, args.correlationId⟩ work.inst.version)
  liftM (recordEvidence cfg saved.id work.evidence)
  let steps := d.steps ++ [⟨d.inst.state, hop.name, target, saved.version⟩]
  liftM (recordOrSelfEvent ((Drive.event args ⟨saved, steps, []⟩ "workflow.transitioned"
    [("transition", .string hop.name), ("state", .string saved.state), ("version", .nat saved.version),
      ("deterministic", .bool (hop.actor = "deterministic")), ("chainDepth", .nat steps.length)]).withActor
        args.principal.subject))
  let entered ← Stage.attempt (runOnEnter cfg args.definition saved args.correlationId)
  return ⟨entered, steps, work.evidence⟩

def pastTimeout (inst : WorkflowInstance) : Run Bool := do
  match u64Field args.definition "timeoutMs" with
  | none => return false
  | some timeoutMs =>
      let time ← now
      return inst.startedAt ≤ time && timeoutMs ≤ time - inst.startedAt

/-- Hops until the chain stops; `fuel` is the part of the depth limit that is left. -/
def chainLoop : Nat → Drive → ChainStage Drive
  | fuel, d => do
    let startedAt ← liftM now
    let proceed ← hopChecks cfg args d
    if !proceed then
      return d
    match fuel with
    | 0 => return d
    | fuel + 1 =>
        match ← selectHop cfg args d with
        | none => return d
        | some hop =>
            liftM (recordOrSelfEvent (d.event args "chain.step" [("transition", .string hop.name),
              ("fromState", .string d.inst.state), ("chainDepth", .nat d.steps.length)]))
            let work ← runHopExecutor cfg args d hop
            let d' ← commitHop cfg args d hop work startedAt
            let late ← liftM (pastTimeout args d'.inst)
            if late then
              return d'
            chainLoop fuel d'

def finishChain (d : Drive) : ChainStage ChainOutcome := do
  onlyIf (isTerminal args.definition d.inst.state) do
    let violations := enforceDeclaredOutputs cfg.lib args.definition d.inst.context
    onlyIf (violations ≠ []) do
      liftM (recordOrSelfEvent (d.event args "cap.output.schema_violation"
        [("definitionId", .string d.inst.definitionId), ("terminalState", .string d.inst.state),
          ("caughtAt", "terminal")]))
      let failed := (d.steps.getLast?.map ChainStep.transition).getD ""
      Stage.reply (.failed d.result (s!"definition '{d.inst.definitionId}' reached terminal state '{d.inst.state}' with outputs failing its declared contract: " ++
        "; ".intercalate (violations.map fun v => v.slot ++ ": " ++ v.reason)) "cap_output_schema_violation" failed)
  onlyIf (d.steps ≠ []) <|
    liftM (recordOrSelfEvent (d.event args "chain.completed" [("steps", .nat d.steps.length),
      ("finalState", .string d.inst.state)]))
  return .completed d.result

def amplifierInputs : List String := ["intent", "context", "deliverable", "acceptance"]

def validateInput (definition input : Value) : Except Err Unit :=
  if (definition.get "amplifier").isNone then .ok ()
  else do
    cfg.checks.amplifierValidate definition
    amplifierInputs.forM fun key => match strField input key with
      | some s => if Text.isBlank s then .error s!"AMPLIFIER_INPUT_INVALID: {key} must be a nonempty string" else .ok ()
      | none => .error s!"AMPLIFIER_INPUT_INVALID: {key} must be a nonempty string"

variable {cfg} in
theorem validateInput_defaults (h : validateInput cfg definition input = .ok ()) :
    validateInput cfg definition (applySchemaDefaults schema input) = .ok () := by
  unfold validateInput at h ⊢
  split at h
  · rw [if_pos ‹_›]
  rw [if_neg ‹_›]
  cases hamplifier : cfg.checks.amplifierValidate definition with
  | error e => rw [hamplifier] at h; cases h
  | ok _ =>
    rw [hamplifier] at h
    refine (forM_ok_iff _ _).mpr fun key hkey => ?_
    have hvalid := (forM_ok_iff _ _).mp h key hkey
    cases hfield : strField input key with
    | none => simp [hfield] at hvalid
    | some s =>
      rw [strField_applySchemaDefaults schema hfield]
      simpa [hfield] using hvalid

/-- Fire deterministic and auto-driven transitions until a decision point, a terminal state, a limit
or a failure. -/
def runDeterministicChain : Fallible ChainOutcome :=
  Stage.finish id do
    Stage.attempt (ExceptT.mk (pure (validateInput cfg args.definition args.inst.input) : Run _))
    let d ← chainLoop cfg args args.maxDepth ⟨args.inst, [], []⟩
    finishChain cfg args d

/-- Race the chain against what is left of the active-drive budget; a chain that is cut is dropped and the last
committed snapshot reloaded. -/
def driveChainWithDeadline : Fallible ChainOutcome := do
  let deadlineSecs := missionDeadlineSecsFor cfg args.definition
  if deadlineSecs = 0 || !cfg.inTokioRuntime then
    ExceptT.mk (Prog.invoke (S := Sig) (.runDeterministicChain args))
  else
    let deadlineMs := missionDeadlineMs cfg args
    let wallMs := (u64Field args.inst.context chainWallMsTotalKey).getD 0
    if deadlineMs ≤ wallMs then
      return ← liftM (missionDeadlineExceededOutcome args ⟨args.inst, [], []⟩ wallMs deadlineMs)
    let inner : Option (Except Err ChainOutcome) ←
      liftM (Prog.invokeTimeout (S := Sig) (.runDeterministicChain args) : Run _)
    match inner with
    | some outcome => ExceptT.mk (pure outcome)
    | none =>
        let reloaded ← load args.inst.id
        return ← liftM (missionDeadlineExceededOutcome args ⟨reloaded, [], []⟩ deadlineMs deadlineMs)

end Praxec
