import Praxec.Validate.Reachability

namespace Praxec

open Json Praxec.Graph Relation

namespace DeterministicLoops

open Reachability List Option

def transitionsIn (state : Value) : Fields :=
  ((state.get "transitions").bind Value.asObject).getD []

def isDeterministic (transition : Value) : Bool :=
  (strField transition "actor").getD "agent" == "deterministic"

def transitionTargets (transition : Value) : List String :=
  (strField transition "target").toList ++
    (((transition.get "branches").bind Value.asArray).getD []).filterMap (strField · "target")

def deterministicTargets (state : Value) : List String :=
  ((transitionsIn state).filter fun t => isDeterministic t.2).flatMap fun t => transitionTargets t.2

def offersEscape (state : Value) : Bool :=
  boolField state "terminal" false || (transitionsIn state).any fun t => !isDeterministic t.2

section

variable (id : String) (states : Fields)

def detSuccessors (s : String) : List String :=
  ((states.get s).map deterministicTargets).getD []

def isEscape (s : String) : Bool :=
  (states.get s).any offersEscape

def nodes : List String :=
  stateNames states ++ (stateNames states).flatMap (detSuccessors states)

def walkFrom (s : String) : Bool × Bool :=
  Bfs.searchUntil (detSuccessors states) (isEscape states) (fun v => v ≠ s && s ∈ detSuccessors states v)
    (nodes states).length ([s], [s]) false

def isLoop (s : String) : Bool :=
  !(walkFrom states s).1 && (walkFrom states s).2

def loopDiagnostic (s : String) : Diagnostic :=
  .error s!"DETERMINISTIC_LOOP: workflow '{id}' state '{s}' is in a deterministic cycle with no exit (terminal or agent/human transition)"

def validateDeterministicLoops : List Diagnostic :=
  ((stateNames states).filter (isLoop states)).map (loopDiagnostic id)

end

section

variable {id : String} {states : Fields} {s t : String}

def DetMoves (states : Fields) (a b : String) : Prop :=
  b ∈ detSuccessors states a

theorem DetMoves.source (h : DetMoves states a b) : a ∈ stateNames states := by
  unfold DetMoves detSuccessors at h
  cases hget : states.get a with
  | none =>
    rw [hget] at h
    cases h
  | some state => exact mem_keys_of_get hget

theorem nodes_closed : ∀ v ∈ nodes states, ∀ t ∈ detSuccessors states v, t ∈ nodes states := by
  intro v _ t (ht : DetMoves states v t)
  exact mem_append_right _ (mem_flatMap.mpr ⟨v, ht.source, ht⟩)

theorem mem_of_isEscape (h : isEscape states s) : s ∈ stateNames states := by
  obtain ⟨state, hget, -⟩ := (any_eq_true _ _).mp h
  exact mem_keys_of_get hget

theorem isLoop_iff (hs : s ∈ stateNames states) : isLoop states s ↔
    (∀ t, ReflTransGen (DetMoves states) s t → isEscape states t = false) ∧
      ∃ v, v ≠ s ∧ ReflTransGen (DetMoves states) s v ∧ DetMoves states v s := by
  unfold isLoop
  rcases Bfs.searchUntil_start nodes_closed (mem_append_left _ hs) with
    ⟨hfound, t, hreach, hescape⟩ | ⟨hnone, hclear, hback⟩
  · rw [walkFrom, hfound]
    refine ⟨nofun, fun h => ?_⟩
    rw [h.1 t hreach] at hescape
    cases hescape
  · rw [walkFrom, hnone, Bool.not_false, Bool.true_and, hback]
    simp only [Bool.and_eq_true, decide_eq_true_eq]
    refine ⟨fun ⟨v, hreach, hne, hedge⟩ => ⟨hclear, v, hne, hreach, hedge⟩, fun ⟨_, v, hne, hreach, hedge⟩ => ⟨v, hreach, hne, hedge⟩⟩

theorem loopDiagnostic_inj (h : loopDiagnostic id s = loopDiagnostic id t) : s = t := by
  have htext := congrArg String.toList (Diagnostic.error.inj h)
  simp only [String.toList_append] at htext
  have hstate := append_cancel_left (append_cancel_right htext)
  exact String.toList_injective hstate

theorem reported_iff : loopDiagnostic id s ∈ validateDeterministicLoops id states ↔
    s ∈ stateNames states ∧ isLoop states s := by
  constructor
  · intro h
    obtain ⟨t, ht, heq⟩ := mem_map.mp h
    cases loopDiagnostic_inj heq
    exact mem_filter.mp ht
  · intro h
    exact mem_map_of_mem (mem_filter.mpr h)

theorem silent_iff : validateDeterministicLoops id states = [] ↔ ∀ s ∈ stateNames states, isLoop states s = false := by
  simp [validateDeterministicLoops]

end

section

variable (cfg : RuntimeConfig) (definition : Value)

structure BlocksChain (t : String × Value) : Prop where
  actor : actorOf t.2 ≠ some "deterministic"
  changes : boolField t.2 "lightweight" false = false
  external : ¬ (cfg.autoDriveAgents = true ∧ actorOf t.2 = some "agent" ∧ t.1 ≠ "escalate")

def Stops (s : String) : Prop :=
  isTerminal definition s = true ∨ (hopPlan cfg definition s matches .stop) ∧ ∃ transitions,
    (definition.walk ["states", s, "transitions"]).bind Value.asObject = some transitions ∧
      ∃ t ∈ transitions, BlocksChain cfg t

def LeadsToStop (s : String) : Prop :=
  ∃ t, ReflTransGen (DetMoves (statesOf definition)) s t ∧ Stops cfg definition t

def LeadsToEscape (s : String) : Prop :=
  ∃ t, ReflTransGen (DetMoves (statesOf definition)) s t ∧ isEscape (statesOf definition) t = true

variable {cfg definition} {s : String}

theorem Stops.isEscape (hstates : definition.get "states" = some (.object (statesOf definition)))
    (h : Stops cfg definition s) : isEscape (statesOf definition) s := by
  unfold DeterministicLoops.isEscape offersEscape
  rcases h with hterminal | ⟨-, transitions, hwalk, t, ht, hblocks⟩
  · rw [isTerminal_of_states hstates] at hterminal
    obtain ⟨state, hget, hstate⟩ := (any_eq_true _ _).mp hterminal
    rw [hget, Option.any_some, hstate, Bool.true_or]
  · rw [walk_states hstates s "transitions" (by decide)] at hwalk
    cases hget : (statesOf definition).get s with
    | none =>
      rw [hget] at hwalk
      cases hwalk
    | some state =>
      rw [hget, bind_some] at hwalk
      have hdeclared : transitionsIn state = transitions := by
        rw [transitionsIn, hwalk, getD_some]
      have hactor : isDeterministic t.2 = false := by
        have hne := hblocks.actor
        unfold actorOf at hne
        unfold isDeterministic
        cases hstr : strField t.2 "actor" with
        | none => rfl
        | some actor => simpa [hstr] using hne
      rw [Option.any_some, hdeclared, Bool.or_eq_true, List.any_eq_true]
      exact .inr ⟨t, ht, by rw [hactor]; rfl⟩

theorem LeadsToStop.leadsToEscape (hstates : definition.get "states" = some (.object (statesOf definition)))
    (h : LeadsToStop cfg definition s) : LeadsToEscape definition s := by
  obtain ⟨t, hreach, hstop⟩ := h
  exact ⟨t, hreach, hstop.isEscape hstates⟩

/-- Where the check reports nothing every state leads to a stop of the chain, and no state it reports does. -/
structure LoopCheckSound (cfg : RuntimeConfig) (id : String) (definition : Value) : Prop where
  silent : validateDeterministicLoops id (statesOf definition) = [] →
    ∀ s ∈ stateNames (statesOf definition), LeadsToStop cfg definition s
  reported : ∀ s, loopDiagnostic id s ∈ validateDeterministicLoops id (statesOf definition) → ¬ LeadsToStop cfg definition s

def LoopsWithOther (definition : Value) (s : String) : Prop :=
  ¬ LeadsToEscape definition s ∧ ∃ v, v ≠ s ∧ ReflTransGen (DetMoves (statesOf definition)) s v ∧
    DetMoves (statesOf definition) v s

theorem isLoop_iff_loopsWithOther (hs : s ∈ stateNames (statesOf definition)) :
    isLoop (statesOf definition) s ↔ LoopsWithOther definition s := by
  rw [isLoop_iff hs, LoopsWithOther, LeadsToEscape]
  simp only [not_exists, not_and, Bool.not_eq_true]

/-- The check is sound for the chain exactly where it reports a loop of several states, or every state leads to an escape
and every escape to a state in which the chain stops. -/
theorem loopCheck_sound_iff (cfg : RuntimeConfig) (id : String) (definition : Value) : LoopCheckSound cfg id definition ↔
    (∃ s ∈ stateNames (statesOf definition), LoopsWithOther definition s) ∨
      ∀ s ∈ stateNames (statesOf definition), LeadsToEscape definition s ∧
        (isEscape (statesOf definition) s = true → LeadsToStop cfg definition s) := by
  have hreported (s : String) (h : loopDiagnostic id s ∈ validateDeterministicLoops id (statesOf definition)) :
      ¬ LeadsToStop cfg definition s := by
    obtain ⟨hs, hloop⟩ := reported_iff.mp h
    intro hstop
    exact ((isLoop_iff_loopsWithOther hs).mp hloop).1 (hstop.leadsToEscape (get_states hs))
  by_cases hloop : ∃ s ∈ stateNames (statesOf definition), LoopsWithOther definition s
  · refine ⟨fun _ => .inl hloop, fun _ => ⟨fun hsilent => ?_, hreported⟩⟩
    obtain ⟨s, hs, hother⟩ := hloop
    have hloop := (isLoop_iff_loopsWithOther hs).mpr hother
    rw [silent_iff.mp hsilent s hs] at hloop
    cases hloop
  · have hsilent : validateDeterministicLoops id (statesOf definition) = [] := by
      refine silent_iff.mpr fun s hs => Bool.eq_false_iff.mpr fun h => hloop ⟨s, hs, ?_⟩
      exact (isLoop_iff_loopsWithOther hs).mp h
    rw [or_iff_right hloop]
    constructor
    · intro h s hs
      have hstop := h.silent hsilent s hs
      exact ⟨hstop.leadsToEscape (get_states hs), fun _ => hstop⟩
    · intro h
      refine ⟨fun _ s hs => ?_, hreported⟩
      obtain ⟨t, hreach, hescape⟩ := (h s hs).1
      obtain ⟨u, hrest, hstop⟩ := (h t (mem_of_isEscape hescape)).2 hescape
      exact ⟨u, hreach.trans hrest, hstop⟩

end

/-- Put a transition into a state that is not terminal and has none of the name; `none` stands for the panic on
transitions that are no object. -/
def injectState (name : String) (transition : Value) (state : Value) : Option Value :=
  if boolField state "terminal" false then some state
  else match state with
    | .object fields =>
        match Fields.get fields "transitions" with
        | none => some (.object (Fields.insert fields "transitions" (.object [(name, transition)])))
        | some (.object transitions) =>
            if Fields.contains transitions name then some state
            else some (.object (Fields.insert fields "transitions" (.object (Fields.insert transitions name transition))))
        | some _ => none
    | _ => some state

def injectStates (name : String) (transition : String → Value) (states : Fields) : Option Fields :=
  states.mapM fun entry => (injectState name (transition entry.1) entry.2).map (entry.1, ·)

def injectTransition (name : String) (transition : String → Value) (definition : Value) : Option Value :=
  match (definition.get "states").bind Value.asObject with
  | some states => (injectStates name transition states).map fun injected => definition.insert "states" (.object injected)
  | none => some definition

def askTransition (cap : Nat) (state : String) : Value :=
  .object [("target", .string state), ("actor", "human"), ("purpose", "ask"), ("lightweight", .bool true),
    ("max_fires_per_visit", .nat cap)]

def haltRunTransition (state : String) : Value :=
  .object [("target", .string state), ("actor", "agent"), ("purpose", "halt"), ("lightweight", .bool true)]

def injectHumanAskTransitions (definition : Value) : Option Value :=
  if boolField definition "enable_human_ask" false then
    injectTransition "ask_human" (askTransition ((u64Field definition "human_ask_cap").getD 5)) definition
  else some definition

def injectHaltTransitions (definition : Value) : Option Value :=
  if boolField definition "enable_halt" false && !boolField definition "proxySurface" false then
    injectTransition haltTransition haltRunTransition definition
  else some definition

theorem not_stops_of_light (hopen : isTerminal definition s = false)
    (hlight : ∀ t ∈ ((definition.walk ["states", s, "transitions"]).bind Value.asObject).getD [],
    actorOf t.2 = some "deterministic" ∨ boolField t.2 "lightweight" false) : ¬ Stops cfg definition s := by
  rintro (hterminal | ⟨-, transitions, hwalk, t, ht, hblocks⟩)
  · rw [hopen] at hterminal
    cases hterminal
  · rw [hwalk] at hlight
    rcases hlight t ht with hactor | hlight
    · exact hblocks.actor hactor
    · rw [hblocks.changes] at hlight
      cases hlight

theorem not_leadsToStop (group : List String) (hs : s ∈ group)
    (hclosed : ∀ a ∈ group, ∀ b ∈ detSuccessors (statesOf definition) a, b ∈ group)
    (hstop : ∀ a ∈ group, ¬ Stops cfg definition a) : ¬ LeadsToStop cfg definition s := by
  rintro ⟨t, hreach, ht⟩
  have hmem : t ∈ group := by
    clear ht
    induction hreach with
    | refl => exact hs
    | tail _ hedge ih => exact hclosed _ ih _ hedge
  exact hstop t hmem ht

def moveTo (target : String) : Value :=
  .object [("go", .object [("actor", "deterministic"), ("target", .string target)])]

def selfLoop : Value :=
  .object [("states", .object [("a", .object [("transitions", moveTo "a")])])]

def haltedLoop : Value :=
  .object [("enable_halt", .bool true), ("states", .object [("a", .object [("transitions", moveTo "b")]),
    ("b", .object [("transitions", moveTo "a")])])]

theorem selfLoop_unsound : ¬ LoopCheckSound .plain "w" selfLoop := by
  intro h
  have hstop := h.silent (by decide) "a" (by decide)
  refine not_leadsToStop ["a"] (by decide) (by decide) (fun a ha => ?_) hstop
  cases mem_singleton.mp ha
  exact not_stops_of_light (by decide) (by decide)

theorem haltedLoop_unsound (h : injectHaltTransitions haltedLoop = some injected) :
    ¬ LoopCheckSound .plain "w" injected := by
  cases h
  intro h
  have hstop := h.silent (by decide) "a" (by decide)
  refine not_leadsToStop ["a", "b"] (by decide) (by decide) (fun a ha => ?_) hstop
  rcases mem_cons.mp ha with rfl | ha
  · exact not_stops_of_light (by decide) (by decide)
  · cases mem_singleton.mp ha
    exact not_stops_of_light (by decide) (by decide)

/-- A state that leads to itself is not reported, and the kill switch hides a loop that is. -/
theorem loops_unreported : ¬ LoopCheckSound .plain "w" selfLoop ∧
    validateDeterministicLoops "w" (statesOf haltedLoop) = [loopDiagnostic "w" "a", loopDiagnostic "w" "b"] ∧
    ∃ injected, injectHaltTransitions haltedLoop = some injected ∧ ¬ LoopCheckSound .plain "w" injected :=
  ⟨selfLoop_unsound, by decide, _, rfl, haltedLoop_unsound rfl⟩

end DeterministicLoops

end Praxec
