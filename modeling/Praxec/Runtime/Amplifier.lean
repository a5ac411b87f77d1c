import Mathlib.Algebra.Ring.Nat
import Praxec.Graph.Kahn
import Praxec.Runtime.Chain

namespace Praxec.Amplifier

open Json List Option Value

def index (v : Value) (key : String) : Value :=
  (v.get key).getD .null

def ensure (ok : Bool) (message : String) : Except Err Unit :=
  if ok then .ok () else .error ("AMPLIFIER_INVALID: " ++ message)

theorem ensure_ok (h : ensure ok message = .ok ()) : ok := by
  unfold ensure at h
  split at h
  · assumption
  · cases h

inductive WorkKind where
  | generative
  | deterministic
  | verification
  | intent
deriving DecidableEq

def WorkKind.parse : String → Option WorkKind
  | "generative" => some .generative
  | "deterministic" => some .deterministic
  | "verification" => some .verification
  | "intent" => some .intent
  | _ => none

structure Move where
  target : String
  role : WorkKind
deriving DecidableEq

section

variable (name transitionName : String) (t : Value)

def executorOf : Value :=
  index t "executor"

def executorKind : String :=
  (strField (executorOf t) "kind").getD ""

def actor : String :=
  (strField t "actor").getD ""

def contractGuard : Value :=
  .object [("kind", "amplifier_contract")]

def checkHalt : Except Err Unit :=
  ensure ((t.get "executor").isNone && (t.get "output").isNone && strField t "actor" = some "agent" &&
      index t "lightweight" = .bool true && strField t "target" = some name)
    "halt must be a caller-driven, lightweight, effect-free self-loop"

def checkInitial : Except Err Unit :=
  ensure (strField t "work_kind" = some "deterministic" && strField t "actor" = some "deterministic" &&
      strField (executorOf t) "kind" = some "noop" && (t.get "output").isNone &&
      (((t.get "guards").bind Value.asArray).any fun gs => gs.any fun g => g.same contractGuard))
    "initial transitions require an effect-free deterministic noop with amplifier_contract guard"

def placeholder (path : String) : String :=
  "\x7b\x7b " ++ path ++ " \x7d\x7d"

def checkGenerative : Except Err Unit := do
  let executor := executorOf t
  ensure ((executor.get "untrusted").all fun v => v = .bool false)
    "untrusted agent mode does not enforce this profile's grounding/budget contract"
  ensure ((t.walk ["reliability", "retry", "maxAttempts"]).all fun v => v = .nat 1)
    "model retries belong within the agent step budget or a new task attempt"
  ensure (actor t = "agent" && executorKind t = "agent")
    s!"{name}/{transitionName} generative work requires an agent executor"
  ensure (index executor "enforce_input_grounding" = .bool true) "generative work must preserve input grounding"
  ensure (strField (index t "output") "candidate" = some "$.output")
    "preserve the generated candidate as complete executor output"
  let seconds := (u64Field executor "max_seconds").getD 0
  let total := (u64Field executor "step_budget_seconds").getD 0
  ensure (0 < seconds && seconds ≤ total && total ≤ 3600)
    "generative work requires 0 < max_seconds <= step_budget_seconds <= 3600"
  amplifierInputs.forM fun key =>
    ensure (Text.contains ((strField executor "goal").getD "") (placeholder ("$.workflow.input." ++ key)))
      s!"generative goal must include immutable task input {key}"

def checkVerification : Except Err Unit := do
  ensure (executorKind t = "script" && index (executorOf t) "treatNonZeroAsFailure" = .bool true)
    "verification requires a script with treatNonZeroAsFailure: true"
  ensure (strField (index t "output") "verification" = some "$.output" &&
      (index t "output").asObject.any fun o => o.length = 1)
    "preserve complete tool output in verification, not a caller/model pass claim"
  [placeholder "$.context.candidate", placeholder "$.workflow.input.acceptance"].forM fun binding =>
    ensure (((executorOf t).get "args").bind Value.asArray |>.any fun args => args.any fun v => v = .string binding)
      ("verification args must bind " ++ binding)

def checkMechanical : Except Err Unit := do
  ensure (actor t = "deterministic") s!"{name}/{transitionName} mechanical work must be auto-driven"
  ensure (executorKind t ∈ ["script", "mcp", "noop"])
    "mechanical work requires a direct script, mcp, or noop executor; opaque/composite work is unsupported"

def checkIntent : Except Err Unit :=
  ensure (actor t = "human" && (t.get "executor").isNone && (t.get "output").isNone)
    "intent decisions must be executor-free human transitions without context writes"

def checkWork : Except Err WorkKind :=
  match WorkKind.parse ((strField t "work_kind").getD "") with
  | some .generative => (checkGenerative name transitionName t).map fun _ => .generative
  | some .deterministic => (checkMechanical name transitionName t).map fun _ => .deterministic
  | some .verification => do
      checkMechanical name transitionName t
      checkVerification t
      return .verification
  | some .intent => (checkIntent t).map fun _ => .intent
  | none => .error s!"AMPLIFIER_INVALID: {name}/{transitionName} requires work_kind generative|deterministic|verification|intent"

def targetOf (v : Value) : String :=
  (strField v "target").getD ""

def branchesOf : List Value :=
  ((t.get "branches").bind Value.asArray).getD []

def targets : List String :=
  targetOf t :: (branchesOf t).map targetOf

end

variable (definition : Value) (states : Fields) (initial : String)

def onlyInitial (name : String) (t : Value) : Except Err Unit :=
  if name = initial then checkInitial t else .ok ()

def checkTransition (name : String) (entry : String × Value) : Except Err (List Move) :=
  let t := entry.2
  if entry.1 = haltTransition then (checkHalt name t).map fun _ => []
  else do
    onlyInitial initial name t
    ensure ((t.walk ["reliability", "fallback"]).isNone)
      "fallback executors can bypass classified work; use explicit transitions"
    let role ← checkWork name entry.1 t
    ensure (executorKind t ≠ "script" || (strField (executorOf t) "subject").any fun s =>
        s ≠ "" && !Text.contains s "\x7b\x7b")
      "scripts must reference an operator-defined subject"
    ensure (states.contains (targetOf t)) ("unknown target " ++ targetOf t)
    (branchesOf t).forM fun branch =>
      ensure (states.contains (targetOf branch)) ("unknown branch target " ++ targetOf branch)
    return (targets t).map fun target => ⟨target, role⟩

def terminal (state : Value) : Bool :=
  index state "terminal" = .bool true

def transitionsOf (state : Value) : Fields :=
  ((state.get "transitions").bind Value.asObject).getD []

def checkTerminal (name : String) (state : Value) : Except Err Unit :=
  if terminal state then do
    ensure (strField state "outcome" = some "success" || strField state "outcome" = some "failure")
      s!"terminal {name} requires explicit success|failure outcome"
    ensure ((transitionsOf state).isEmpty) s!"terminal {name} must not have transitions"
  else .ok ()

def checkState (entry : String × Value) : Except Err (String × List Move) := do
  let (name, state) := entry
  ensure ((state.get "onEnter").isNone && (state.get "delegate").isNone && (state.get "while").isNone &&
      (state.get "slots").isNone)
    s!"{name} has hidden onEnter/delegate/while/slots effects; use classified acyclic transitions"
  checkTerminal name state
  let moves ← (transitionsOf state).mapM (checkTransition states initial name)
  ensure (terminal state || !moves.flatten.isEmpty) s!"nonterminal {name} has no classified continuation"
  return (name, moves.flatten)

def checkTimeout : Except Err Unit :=
  match definition.get "onTimeout" with
  | none => .ok ()
  | some timeout =>
      ensure ((timeout.asObject.any fun t => t.length = 1) && (states.get (targetOf timeout)).any fun s =>
          terminal s && strField s "outcome" = some "failure")
        "timeout may only enter a failure terminal without execution"

abbrev StateGraph := List (String × List Move)

def StateGraph.moves (graph : StateGraph) (state : String) : List Move :=
  (graph.lookup state).getD []

def StateGraph.successors (graph : StateGraph) (state : String) : List String :=
  (graph.moves state).map Move.target

def checkAcyclic (graph : StateGraph) : Except Err Unit :=
  ensure ((Graph.kahn graph.successors (states.map Prod.fst).dedup).length = states.length)
    "cycles require a new bounded task attempt, not an unbounded model loop"

/-- A state as a path reaches it: how many models have worked, and whether a tool has verified the result since. -/
structure Visit where
  state : String
  models : Nat
  verified : Bool
deriving DecidableEq

def Visit.follow (visit : Visit) (move : Move) : Visit where
  state := move.target
  models := visit.models + if move.role = .generative then 1 else 0
  verified := match move.role with
    | .verification => 0 < visit.models
    | .intent => visit.verified
    | _ => false

def succeeds (state : String) : Bool :=
  (states.get state).any fun s => terminal s && strField s "outcome" = some "success"

/-- Whether some success is reached, breadth first. `fuel` need only count the edges once for every number of models
and verdict. -/
def followPaths (graph : StateGraph) (budget : Nat) : Nat → List Visit → List Visit → Bool → Except Err Bool
  | fuel + 1, visit :: queue, seen, success =>
      if visit ∈ seen then followPaths graph budget fuel queue seen success
      else do
        ensure (visit.models ≤ budget) "path exceeds max_model_steps"
        ensure (!succeeds states visit.state || (0 < visit.models && visit.verified))
          "success path must produce a deliverable then verify it after the last mechanical/generative change"
        followPaths graph budget fuel (queue ++ (graph.moves visit.state).map visit.follow) (visit :: seen)
          (success || succeeds states visit.state)
  | _, _, _, success => .ok success

def checkPaths (graph : StateGraph) (budget : Nat) : Except Err Unit := do
  let edges := (graph.map fun entry => entry.2.length).sum
  let success ← followPaths states graph budget (edges * (2 * (budget + 1)) + 1) [⟨initial, 0, false⟩] [] false
  ensure success "no reachable verified success terminal"

def checkPolicy (policy : Value) (budget : Nat) : Except Err Unit :=
  ensure ((policy.asObject.any fun p => p.length = 1) && 1 ≤ budget && budget ≤ 16)
    "declare only max_model_steps (1..=16)"

def checkInputs : Except Err Unit :=
  let schema := index definition "inputSchema"
  amplifierInputs.forM fun key =>
    ensure (strField schema "type" = some "object" &&
        (((schema.get "required").bind Value.asArray).any fun required => required.any fun v => v = .string key) &&
        strField (index (index schema "properties") key) "type" = some "string")
      s!"inputSchema must require string {key}"

def checkSlots : Except Err Unit :=
  ["candidate", "verification"].forM fun slot =>
    ensure (strField (index (index definition "blackboard") slot) "type" = some "object")
      s!"declare a typed object blackboard slot for {slot}"

def requireStates : Except Err Fields :=
  match (definition.get "states").bind Value.asObject with
  | some states => .ok states
  | none => .error "AMPLIFIER_INVALID: states required"

def validate : Except Err Unit :=
  match definition.get "amplifier" with
  | none => .ok ()
  | some policy => do
      let budget := (u64Field policy "max_model_steps").getD 0
      checkPolicy policy budget
      checkInputs definition
      checkSlots definition
      let states ← requireStates definition
      let initial := (strField definition "initialState").getD ""
      ensure (states.contains initial) "unknown initialState"
      let graph ← states.mapM (checkState states initial)
      checkTimeout definition states
      checkAcyclic states graph
      checkPaths states initial graph budget

section

variable {ε α β : Type}

theorem exists_of_mapM {f : α → Except ε β} {xs : List α} {ys : List β} (h : xs.mapM f = .ok ys) :
    (∀ x ∈ xs, ∃ y ∈ ys, f x = .ok y) ∧ ∀ y ∈ ys, ∃ x ∈ xs, f x = .ok y := by
  induction xs generalizing ys with
  | nil =>
    cases h
    exact ⟨nofun, nofun⟩
  | cons x rest ih =>
    rw [mapM_cons] at h
    obtain ⟨y, hy, h⟩ := bind_ok h
    obtain ⟨zs, hzs, h⟩ := bind_ok h
    cases h
    obtain ⟨hto, hfrom⟩ := ih hzs
    constructor
    · refine forall_mem_cons.mpr ⟨⟨y, .head _, hy⟩, fun x hx => ?_⟩
      obtain ⟨z, hz, hxz⟩ := hto x hx
      exact ⟨z, .tail _ hz, hxz⟩
    · refine forall_mem_cons.mpr ⟨⟨x, .head _, hy⟩, fun z hz => ?_⟩
      obtain ⟨x, hx, hxz⟩ := hfrom z hz
      exact ⟨x, .tail _ hx, hxz⟩

theorem lookup_of_mapM {f : String × α → Except ε (String × β)} (hkey : ∀ x y, f x = .ok y → y.1 = x.1)
    {xs : List (String × α)} {ys : List (String × β)} (h : xs.mapM f = .ok ys) {key : String} {v : α}
    (hv : xs.lookup key = some v) : ∃ w, ys.lookup key = some w ∧ f (key, v) = .ok (key, w) := by
  induction xs generalizing ys with
  | nil => cases hv
  | cons x rest ih =>
    rw [mapM_cons] at h
    obtain ⟨y, hy, h⟩ := bind_ok h
    obtain ⟨zs, hzs, h⟩ := bind_ok h
    cases h
    obtain ⟨name, u⟩ := x
    obtain ⟨name', w⟩ := y
    obtain rfl : name' = name := hkey _ _ hy
    rw [lookup_cons] at hv ⊢
    by_cases heq : key = name'
    · subst heq
      simp only [beq_self_eq_true] at hv ⊢
      cases hv
      exact ⟨w, rfl, hy⟩
    · rw [beq_false_of_ne heq] at hv ⊢
      exact ih hzs hv

end

section

variable {definition states initial} {entry : String × Value} {graph : StateGraph}

theorem checkTransition_moves (h : checkTransition states initial name entry = .ok moves) :
    (∀ move ∈ moves, states.contains move.target) ∧
    (entry.1 ≠ haltTransition → ∀ target ∈ targets entry.2, ∃ move ∈ moves, move.target = target) := by
  unfold checkTransition at h
  dsimp only at h
  split at h
  · rename_i hhalt
    cases hchecked : checkHalt name entry.2 with
    | error e => rw [hchecked] at h; cases h
    | ok _ =>
      rw [hchecked] at h
      cases h
      exact ⟨nofun, fun hne => absurd hhalt hne⟩
  · obtain ⟨_, -, h⟩ := bind_ok h
    obtain ⟨_, -, h⟩ := bind_ok h
    obtain ⟨role, -, h⟩ := bind_ok h
    obtain ⟨_, -, h⟩ := bind_ok h
    obtain ⟨_, htarget, h⟩ := bind_ok h
    obtain ⟨_, hbranches, h⟩ := bind_ok h
    cases h
    refine ⟨fun move hmove => ?_, fun _ target htarget => ⟨⟨target, role⟩, mem_map_of_mem htarget, rfl⟩⟩
    obtain ⟨target, hmem, rfl⟩ := mem_map.mp hmove
    rcases mem_cons.mp hmem with rfl | hbranch
    · exact ensure_ok htarget
    · obtain ⟨branch, hb, rfl⟩ := mem_map.mp hbranch
      exact ensure_ok ((forM_ok_iff _ _).mp hbranches branch hb)

structure Checked (states : Fields) (name : String) (state : Value) (moves : List Move) : Prop where
  known : ∀ move ∈ moves, states.contains move.target = true
  covers : ∀ entry ∈ transitionsOf state, entry.1 ≠ haltTransition → ∀ target ∈ targets entry.2,
    ∃ move ∈ moves, move.target = target
  unlooped : state.get "while" = none
  ends : terminal state = true → transitionsOf state = []

theorem checkState_checked {entry : String × Value} {out : String × List Move}
    (h : checkState states initial entry = .ok out) : out.1 = entry.1 ∧ Checked states entry.1 entry.2 out.2 := by
  obtain ⟨_, hhidden, h⟩ := bind_ok h
  obtain ⟨_, hterminal, h⟩ := bind_ok h
  obtain ⟨moves, hmoves, h⟩ := bind_ok h
  obtain ⟨_, -, h⟩ := bind_ok h
  cases h
  obtain ⟨hto, hfrom⟩ := exists_of_mapM hmoves
  refine ⟨rfl, fun move hmove => ?_, fun entry hentry hne target htarget => ?_, ?_, fun hend => ?_⟩
  · obtain ⟨some, hsome, hmem⟩ := mem_flatten.mp hmove
    obtain ⟨entry, -, hchecked⟩ := hfrom some hsome
    exact (checkTransition_moves hchecked).1 move hmem
  · obtain ⟨some, hsome, hchecked⟩ := hto entry hentry
    obtain ⟨move, hmove, heq⟩ := (checkTransition_moves hchecked).2 hne target htarget
    exact ⟨move, mem_flatten.mpr ⟨some, hsome, hmove⟩, heq⟩
  · have hensured := ensure_ok hhidden
    simp only [Bool.and_eq_true, isNone_iff_eq_none] at hensured
    exact hensured.1.2
  · unfold checkTerminal at hterminal
    rw [if_pos hend] at hterminal
    obtain ⟨_, -, hempty⟩ := bind_ok hterminal
    exact isEmpty_iff.mp (ensure_ok hempty)

structure Classified (definition : Value) (states : Fields) (graph : StateGraph) : Prop where
  listed : (definition.get "states").bind Value.asObject = some states
  checked : ∀ name state, states.get name = some state →
    ∃ moves, graph.lookup name = some moves ∧ Checked states name state moves
  known : ∀ name, ∀ target ∈ graph.successors name, states.contains target = true
  timeout : checkTimeout definition states = .ok ()
  acyclic : checkAcyclic states graph = .ok ()

theorem validate_classified (h : validate definition = .ok ()) (hprofile : (definition.get "amplifier").isSome) :
    ∃ states graph, Classified definition states graph := by
  obtain ⟨policy, hpolicy⟩ := isSome_iff_exists.mp hprofile
  unfold validate at h
  rw [hpolicy] at h
  obtain ⟨_, -, h⟩ := bind_ok h
  obtain ⟨_, -, h⟩ := bind_ok h
  obtain ⟨_, -, h⟩ := bind_ok h
  obtain ⟨states, hstates, h⟩ := bind_ok h
  obtain ⟨_, -, h⟩ := bind_ok h
  obtain ⟨graph, hgraph, h⟩ := bind_ok h
  obtain ⟨_, htimeout, h⟩ := bind_ok h
  obtain ⟨_, hacyclic, -⟩ := bind_ok h
  refine ⟨states, graph, ?_, fun name state hstate => ?_, fun name target htarget => ?_, htimeout, hacyclic⟩
  · unfold requireStates at hstates
    split at hstates
    · rename_i hlisted
      cases hstates
      exact hlisted
    · cases hstates
  · obtain ⟨moves, hmoves, hchecked⟩ := lookup_of_mapM (fun _ _ hx => (checkState_checked hx).1) hgraph hstate
    exact ⟨moves, hmoves, (checkState_checked hchecked).2⟩
  · obtain ⟨move, hmove, rfl⟩ := mem_map.mp htarget
    unfold StateGraph.moves at hmove
    cases hlookup : graph.lookup name with
    | none => simp [hlookup] at hmove
    | some moves =>
      rw [hlookup] at hmove
      obtain ⟨_, _, hsplit, -⟩ := lookup_eq_some_iff.mp hlookup
      obtain ⟨entry, -, hchecked⟩ := (exists_of_mapM hgraph).2 (name, moves) (by simp [hsplit])
      exact (checkState_checked hchecked).2.known move hmove

def Leads (definition : Value) (source target : String) : Prop :=
  ∃ fields entry, (definition.walk ["states", source, "transitions"]).bind Value.asObject = some fields ∧
    entry ∈ fields ∧ entry.1 ≠ haltTransition ∧ target ∈ targets entry.2

theorem Classified.state {state : String} {tail : List String} {v : Value} (h : Classified definition states graph)
    (hv : definition.walk ("states" :: state :: tail) = some v) :
    ∃ found, states.get state = some found ∧ found.walk tail = some v := by
  obtain ⟨listed, hlisted, hobject⟩ := bind_eq_some_iff.mp h.listed
  obtain rfl := asObject_eq_some hobject
  have hstep : definition.step "states" = some (.object states) := by
    rw [step_eq_get _ (by decide), hlisted]
  rw [walk_cons, hstep] at hv
  exact bind_eq_some_iff.mp hv

theorem get_of_walk {v w : Value} {key : String} (hkey : parseIndex key = none) (h : v.walk [key] = some w) :
    v.get key = some w := by
  rw [walk_cons, step_eq_get v hkey] at h
  simpa using h

theorem Classified.transitions {state : String} {fields : Fields} (h : Classified definition states graph)
    (hfields : (definition.walk ["states", state, "transitions"]).bind Value.asObject = some fields) :
    ∃ found, states.get state = some found ∧ transitionsOf found = fields := by
  obtain ⟨listed, hlisted, hobject⟩ := bind_eq_some_iff.mp hfields
  obtain ⟨found, hfound, hwalk⟩ := h.state hlisted
  refine ⟨found, hfound, ?_⟩
  rw [transitionsOf, get_of_walk (by decide) hwalk]
  simp [hobject]

theorem Classified.isTerminal_eq {state : String} {found : Value} (h : Classified definition states graph)
    (hfound : states.get state = some found) : isTerminal definition state = terminal found := by
  obtain ⟨listed, hlisted, hobject⟩ := bind_eq_some_iff.mp h.listed
  obtain rfl := asObject_eq_some hobject
  have hread : definition.walk ["states", state, "terminal"] = found.get "terminal" := by
    rw [walk_cons, step_eq_get _ (by decide), hlisted]
    simp [hfound, step_eq_get found (show parseIndex "terminal" = none by decide)]
  rw [isTerminal, hread, terminal, index]
  cases found.get "terminal" with
  | none => rfl
  | some v => cases v <;> simp [Value.asBool]

theorem Classified.final {state target : String} (h : Classified definition states graph)
    (hend : isTerminal definition state) : ¬ Leads definition state target := by
  rintro ⟨fields, entry, hfields, hentry, -, -⟩
  obtain ⟨found, hfound, rfl⟩ := h.transitions hfields
  obtain ⟨moves, -, hchecked⟩ := h.checked state found hfound
  rw [h.isTerminal_eq hfound] at hend
  rw [hchecked.ends hend] at hentry
  exact nomatch hentry

theorem Leads.edge {source target : String} (h : Classified definition states graph)
    (hlead : Leads definition source target) :
    Graph.Edge graph.successors (states.map Prod.fst).dedup source target := by
  obtain ⟨fields, entry, hfields, hentry, hne, htarget⟩ := hlead
  obtain ⟨found, hfound, rfl⟩ := h.transitions hfields
  obtain ⟨moves, hmoves, hchecked⟩ := h.checked source found hfound
  obtain ⟨move, hmove, rfl⟩ := hchecked.covers entry hentry hne target htarget
  refine ⟨mem_dedup.mpr (mem_map_of_mem (Fields.mem_of_get hfound)), ?_⟩
  rw [StateGraph.successors, StateGraph.moves, hmoves]
  exact mem_map_of_mem hmove

theorem Classified.no_cycle (h : Classified definition states graph) (state : String) :
    ¬ Relation.TransGen (Leads definition) state state := by
  have hclosed : ∀ a ∈ (states.map Prod.fst).dedup, ∀ b ∈ graph.successors a, b ∈ (states.map Prod.fst).dedup := by
    intro a _ b hb
    obtain ⟨v, hv⟩ := isSome_iff_exists.mp (h.known a b hb)
    exact mem_dedup.mpr (mem_map_of_mem (Fields.mem_of_get hv))
  have hdistinct := nodup_dedup (states.map Prod.fst)
  have hvisited : (Graph.kahn graph.successors (states.map Prod.fst).dedup).length = states.length :=
    of_decide_eq_true (ensure_ok h.acyclic)
  have hle := (Graph.kahn_sorted hdistinct hclosed).length_le
  have hdedup := (dedup_sublist (states.map Prod.fst)).length_le
  rw [length_map] at hdedup
  have hall : (Graph.kahn graph.successors (states.map Prod.fst).dedup).length = (states.map Prod.fst).dedup.length := by
    omega
  intro hcycle
  exact Graph.acyclic_of_kahn hdistinct hclosed hall state (hcycle.lift id fun _ _ hlead => hlead.edge h)

theorem Classified.unlooped {state : String} {found : Value} (h : Classified definition states graph)
    (hfound : stateDefinition definition state = some found) : found.get "while" = none := by
  obtain ⟨v, hv, hwalk⟩ := h.state hfound
  cases hwalk
  obtain ⟨moves, -, hchecked⟩ := h.checked state found hv
  exact hchecked.unlooped

theorem Classified.timeout_terminal {target : String} (h : Classified definition states graph)
    (htarget : (definition.walk ["onTimeout", "target"]).bind Value.asStr = some target) :
    isTerminal definition target := by
  obtain ⟨v, hv, hstr⟩ := Option.bind_eq_some_iff.mp htarget
  rw [Value.walk_cons, Value.step_eq_get _ (by decide)] at hv
  obtain ⟨timeout, htimeout, hv⟩ := Option.bind_eq_some_iff.mp hv
  have hnamed : targetOf timeout = target := by
    rw [targetOf, strField, get_of_walk (by decide) hv]
    simp [hstr]
  have hchecked := h.timeout
  unfold checkTimeout at hchecked
  rw [htimeout] at hchecked
  have hensured := ensure_ok hchecked
  rw [hnamed] at hensured
  simp only [Bool.and_eq_true, Option.any_eq_true] at hensured
  obtain ⟨-, found, hfound, hterminal, -⟩ := hensured
  exact (h.isTerminal_eq hfound).trans hterminal

end

end Praxec.Amplifier
