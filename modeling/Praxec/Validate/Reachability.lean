import Praxec.Graph.Bfs
import Praxec.Validate.Guards

namespace Praxec

open Json Praxec.Graph Relation List Option Value String

namespace Reachability

def stateTargets (state : Value) : List String :=
  (((state.get "transitions").bind Value.asObject).getD []).flatMap fun (_, transition) =>
    (strField transition "target").toList ++
      (((transition.get "branches").bind Value.asArray).getD []).filterMap (strField · "target")

section

variable (id : String) (definition : Value) (states : Fields) (initial : String) (strict : Bool)

def stateNames : List String :=
  states.map Prod.fst

def successors (state : String) : List String :=
  (((states.get state).map stateTargets).getD []).filter (· ∈ stateNames states)

def predecessors (state : String) : List String :=
  (stateNames states).flatMap fun source => ((successors states source).filter (· = state)).map fun _ => source

def isTerminalState (state : String) : Bool :=
  (states.get state).any (boolField · "terminal" false)

def timeoutTarget : Option String :=
  (definition.walk ["onTimeout", "target"]).bind Value.asStr

def reachable : List String :=
  Bfs.reach (successors states) (stateNames states).length [initial] ++
    (timeoutTarget definition).toList.filter (· ∈ stateNames states)

def canReachTerminal : List String :=
  Bfs.reach (predecessors states) (stateNames states).length ((stateNames states).filter (isTerminalState states))

def timeoutEscape : Bool :=
  (timeoutTarget definition).any (· ∈ canReachTerminal states)

def severity (message : String) : Diagnostic :=
  if strict then .error message else .warning message

def unreachableDiagnostic (state : String) : Diagnostic :=
  severity strict s!"workflow '{id}': state '{state}' is unreachable from initialState '{initial}'"

def stuckDiagnostic (state : String) : Diagnostic :=
  severity strict s!"workflow '{id}': state '{state}' cannot reach any terminal state (no path to completion — a mission parked here would wedge)"

def unreachableDiagnostics : List Diagnostic :=
  ((stateNames states).filter (· ∉ reachable definition states initial)).map (unreachableDiagnostic id initial strict)

def stuckDiagnostics : List Diagnostic :=
  if timeoutEscape definition states then []
  else
    ((stateNames states).filter fun s => !isTerminalState states s && s ∈ reachable definition states initial &&
      s ∉ canReachTerminal states).map (stuckDiagnostic id strict)

end

def statesOf (definition : Value) : Fields :=
  ((definition.get "states").bind Value.asObject).getD []

def validateReachability (id : String) (definition : Value) (strict : Bool) : List Diagnostic :=
  match strField definition "initialState" with
  | some initial =>
      if initial ∈ stateNames (statesOf definition) then
        unreachableDiagnostics id definition (statesOf definition) initial strict ++
          stuckDiagnostics id definition (statesOf definition) initial strict
      else []
  | none => []

section

variable (definition : Value)

def Moves (a b : String) : Prop :=
  b ∈ successors (statesOf definition) a

structure Deadline (a b : String) : Prop where
  source : a ∈ stateNames (statesOf definition)
  target : b ∈ stateNames (statesOf definition)
  declared : (u64Field definition "timeoutMs").isSome
  unresolved : isTerminal definition a = false
  named : timeoutTarget definition = some b

def Leads (a b : String) : Prop :=
  Moves definition a b ∨ Deadline definition a b

def Reached (s : String) : Prop :=
  ∃ initial, strField definition "initialState" = some initial ∧ ReflTransGen (Leads definition) initial s

end

section

variable {definition : Value} {a b s t initial : String}

theorem get_states (h : s ∈ stateNames (statesOf definition)) :
    definition.get "states" = some (.object (statesOf definition)) := by
  unfold statesOf at h ⊢
  cases hget : definition.get "states" with
  | none => simp [hget, stateNames] at h
  | some v =>
    cases hobject : v.asObject with
    | none => simp [hget, hobject, stateNames] at h
    | some fields => rw [bind_some, hobject, getD_some, asObject_eq_some hobject]

theorem walk_states (hstates : definition.get "states" = some (.object (statesOf definition))) (s key : String)
    (hkey : parseIndex key = none) :
    definition.walk ["states", s, key] = ((statesOf definition).get s).bind (·.get key) := by
  rw [walk_cons, step_eq_get _ (by decide), hstates, bind_some, walk_cons, step_object]
  cases (statesOf definition).get s with
  | none => rfl
  | some state =>
    rw [bind_some, walk_cons, step_eq_get _ hkey, bind_some]
    cases state.get key <;> rfl

theorem isTerminal_of_states (hstates : definition.get "states" = some (.object (statesOf definition))) (s : String) :
    isTerminal definition s = isTerminalState (statesOf definition) s := by
  unfold isTerminal isTerminalState boolField
  rw [walk_states hstates s "terminal" (by decide)]
  cases (statesOf definition).get s with
  | none => rfl
  | some state => rfl

theorem isTerminal_eq (h : s ∈ stateNames (statesOf definition)) :
    isTerminal definition s = isTerminalState (statesOf definition) s :=
  isTerminal_of_states (get_states h) s

theorem Moves.source (h : Moves definition a b) : a ∈ stateNames (statesOf definition) := by
  unfold Moves successors at h
  cases hget : (statesOf definition).get a with
  | none =>
    rw [hget] at h
    cases h
  | some state => exact mem_keys_of_get hget

theorem Moves.target (h : Moves definition a b) : b ∈ stateNames (statesOf definition) := by
  simpa using (mem_filter.mp h).2

theorem mem_predecessors_iff : a ∈ predecessors (statesOf definition) b ↔ Moves definition a b := by
  unfold predecessors
  simp only [mem_flatMap, List.mem_map, mem_filter, decide_eq_true_eq]
  constructor
  · rintro ⟨source, -, target, ⟨htarget, rfl⟩, rfl⟩
    exact htarget
  · intro h
    exact ⟨a, h.source, b, ⟨h, rfl⟩, rfl⟩

theorem mem_reach_successors_iff (hinitial : initial ∈ stateNames (statesOf definition)) :
    s ∈ Bfs.reach (successors (statesOf definition)) (stateNames (statesOf definition)).length [initial] ↔
      ReflTransGen (Moves definition) initial s := by
  rw [Bfs.mem_reach_iff (fun v _ t (ht : Moves definition v t) => ht.target) (by simpa using hinitial)]
  simp only [mem_singleton, exists_eq_left]
  rfl

def Completes (definition : Value) (s : String) : Prop :=
  ∃ t ∈ stateNames (statesOf definition), isTerminal definition t = true ∧ ReflTransGen (Moves definition) s t

theorem mem_canReachTerminal_iff : s ∈ canReachTerminal (statesOf definition) ↔ Completes definition s := by
  unfold canReachTerminal
  rw [Bfs.mem_reach_iff (fun v _ t ht => (mem_predecessors_iff.mp ht).source) (fun t ht => (mem_filter.mp ht).1)]
  simp only [mem_predecessors_iff, mem_filter]
  constructor
  · rintro ⟨t, ⟨ht, hterminal⟩, hpath⟩
    exact ⟨t, ht, (isTerminal_eq ht).trans hterminal, reflTransGen_swap.mp hpath⟩
  · rintro ⟨t, ht, hterminal, hpath⟩
    exact ⟨t, ⟨ht, (isTerminal_eq ht).symm.trans hterminal⟩, reflTransGen_swap.mpr hpath⟩

theorem mem_of_moves (ha : a ∈ stateNames (statesOf definition)) (h : ReflTransGen (Moves definition) a b) :
    b ∈ stateNames (statesOf definition) := by
  cases h with
  | refl => exact ha
  | tail _ hedge => exact hedge.target

theorem leads_of_moves (h : ReflTransGen (Moves definition) a b) : ReflTransGen (Leads definition) a b :=
  ReflTransGen.mono (fun _ _ => .inl) _ _ h

theorem Completes.mem (h : Completes definition s) : s ∈ stateNames (statesOf definition) := by
  obtain ⟨t, ht, -, hpath⟩ := h
  cases hpath using ReflTransGen.head_induction_on with
  | refl => exact ht
  | head hedge _ => exact hedge.source

theorem leads_iff : ReflTransGen (Leads definition) a s ↔ ReflTransGen (Moves definition) a s ∨
    ∃ b target, ReflTransGen (Moves definition) a b ∧ Deadline definition b target ∧
      ReflTransGen (Moves definition) target s := by
  constructor
  · intro h
    induction h with
    | refl => exact .inl .refl
    | tail _ hedge ih =>
      rcases ih, hedge with ⟨hmoves | ⟨b, target, hb, hdeadline, hrest⟩, hmove | hlate⟩
      · exact .inl (hmoves.tail hmove)
      · exact .inr ⟨_, _, hmoves, hlate, .refl⟩
      · exact .inr ⟨b, target, hb, hdeadline, hrest.tail hmove⟩
      · cases hdeadline.named.symm.trans hlate.named
        exact .inr ⟨b, _, hb, hdeadline, .refl⟩
  · rintro (hmoves | ⟨b, target, hb, hdeadline, hrest⟩)
    · exact leads_of_moves hmoves
    · exact ((leads_of_moves hb).tail (.inr hdeadline)).trans (leads_of_moves hrest)

theorem moves_of_leads (hnone : u64Field definition "timeoutMs" = none) (h : ReflTransGen (Leads definition) a b) :
    ReflTransGen (Moves definition) a b := by
  refine ReflTransGen.mono (fun c d hedge => hedge.elim id fun hdeadline => ?_) _ _ h
  have hdeclared := hdeadline.declared
  rw [hnone] at hdeclared
  cases hdeclared

end

section

variable {id : String} {definition : Value} {initial : String} {strict : Bool} {s t : String}

theorem severity_inj (h : severity strict m = severity strict m') : m = m' := by
  cases strict <;> exact (by simpa [severity] using h)

theorem unreachableDiagnostic_inj (h : unreachableDiagnostic id initial strict s = unreachableDiagnostic id initial strict t) :
    s = t := by
  have htext := congrArg String.toList (severity_inj h)
  simp only [toList_append] at htext
  have hstate := append_cancel_left (append_cancel_right (append_cancel_right (append_cancel_right htext)))
  exact toList_injective hstate

theorem unreachableDiagnostic_ne_stuck : unreachableDiagnostic id initial strict s ≠ stuckDiagnostic id strict t := by
  intro h
  have htext := congrArg String.toList (severity_inj h)
  have hlast := congrArg List.getLast? htext
  simp only [toList_append, getLast?_append] at hlast
  have hne : some '\x27' = some ')' := hlast
  cases hne

theorem mem_reachable_iff (hinitial : initial ∈ stateNames (statesOf definition)) (hs : s ∈ stateNames (statesOf definition)) :
    s ∈ reachable definition (statesOf definition) initial ↔
      ReflTransGen (Moves definition) initial s ∨ timeoutTarget definition = some s := by
  unfold reachable
  rw [mem_append, mem_reach_successors_iff hinitial, mem_filter, mem_toList]
  simp only [hs, decide_true, and_true]

theorem timeoutEscape_iff : timeoutEscape definition (statesOf definition) ↔
    ∃ target, timeoutTarget definition = some target ∧ Completes definition target := by
  simp only [timeoutEscape, Option.any_eq_true, decide_eq_true_eq, mem_canReachTerminal_iff]

variable (hget : strField definition "initialState" = some initial) (hinitial : initial ∈ stateNames (statesOf definition))
include hget hinitial

theorem validateReachability_eq : validateReachability id definition strict =
    unreachableDiagnostics id definition (statesOf definition) initial strict ++
      stuckDiagnostics id definition (statesOf definition) initial strict := by
  unfold validateReachability
  rw [hget]
  exact if_pos hinitial

theorem unreachable_mem_iff (hs : s ∈ stateNames (statesOf definition)) :
    unreachableDiagnostic id initial strict s ∈ validateReachability id definition strict ↔
      ¬ ReflTransGen (Moves definition) initial s ∧ timeoutTarget definition ≠ some s := by
  rw [validateReachability_eq hget hinitial, mem_append, ← not_or, ← mem_reachable_iff hinitial hs]
  constructor
  · rintro (hmem | hmem)
    · obtain ⟨t, ht, heq⟩ := mem_map.mp hmem
      cases unreachableDiagnostic_inj heq
      simpa using (mem_filter.mp ht).2
    · unfold stuckDiagnostics at hmem
      split at hmem
      · cases hmem
      · obtain ⟨t, -, heq⟩ := mem_map.mp hmem
        exact absurd heq.symm unreachableDiagnostic_ne_stuck
  · intro h
    exact .inl (mem_map_of_mem (mem_filter.mpr ⟨hs, by simpa using h⟩))

theorem no_stuck_iff : (∀ s, stuckDiagnostic id strict s ∉ validateReachability id definition strict) ↔
    (∃ target, timeoutTarget definition = some target ∧ Completes definition target) ∨
      ∀ s ∈ stateNames (statesOf definition),
        ReflTransGen (Moves definition) initial s ∨ timeoutTarget definition = some s → Completes definition s := by
  rw [validateReachability_eq hget hinitial, ← timeoutEscape_iff]
  unfold stuckDiagnostics
  cases hescape : timeoutEscape definition (statesOf definition) with
  | true =>
    refine ⟨fun _ => .inl rfl, fun _ s hmem => ?_⟩
    rw [if_pos rfl, append_nil] at hmem
    obtain ⟨t, -, heq⟩ := mem_map.mp hmem
    exact unreachableDiagnostic_ne_stuck heq
  | false =>
    rw [or_iff_right Bool.false_ne_true]
    constructor
    · intro h s hs hfound
      by_contra hstuck
      have hterminal : isTerminalState (statesOf definition) s = false :=
        Bool.eq_false_iff.mpr fun hterminal => hstuck ⟨s, hs, (isTerminal_eq hs).trans hterminal, .refl⟩
      refine h s (mem_append_right _ (mem_map_of_mem (mem_filter.mpr ⟨hs, ?_⟩)))
      simp [hterminal, mem_reachable_iff hinitial hs, hfound, mem_canReachTerminal_iff, hstuck]
    · intro h s hmem
      rcases mem_append.mp hmem with hmem | hmem
      · obtain ⟨t, -, heq⟩ := mem_map.mp hmem
        exact unreachableDiagnostic_ne_stuck heq
      · obtain ⟨t, ht, -⟩ := mem_map.mp hmem
        obtain ⟨ht, hwhy⟩ := mem_filter.mp ht
        simp only [Bool.and_eq_true, decide_eq_true_eq, mem_reachable_iff hinitial ht, mem_canReachTerminal_iff] at hwhy
        exact hwhy.2 (h t ht hwhy.1.2)

end

section

variable {id : String} {definition : Value} {initial : String} {strict : Bool}

def ReportsUnreachable (id : String) (definition : Value) (strict : Bool) (s : String) : Prop :=
  ∃ initial, strField definition "initialState" = some initial ∧
    unreachableDiagnostic id initial strict s ∈ validateReachability id definition strict

/-- A state is reported exactly when no path leads to it, and where none is reported to be stuck every state that a path
leads to has a path to a terminal one. -/
structure ReachabilityExact (id : String) (definition : Value) (strict : Bool) : Prop where
  unreachable : ∀ s ∈ stateNames (statesOf definition), ReportsUnreachable id definition strict s ↔ ¬ Reached definition s
  completion : (∀ s, stuckDiagnostic id strict s ∉ validateReachability id definition strict) →
    ∀ s ∈ stateNames (statesOf definition), Reached definition s →
      ∃ t ∈ stateNames (statesOf definition), isTerminal definition t = true ∧ ReflTransGen (Leads definition) s t

/-- The timeout target is a state that transitions lead to, or the deadline can pass and the target leads to no state
that transitions do not lead to; and it does not stand for completion where there is no deadline. -/
structure TimeoutSearched (definition : Value) (initial : String) : Prop where
  target : ∀ target ∈ stateNames (statesOf definition), timeoutTarget definition = some target →
    ReflTransGen (Moves definition) initial target ∨
      ((∃ a, ReflTransGen (Moves definition) initial a ∧ Deadline definition a target) ∧
        ∀ t, Moves definition target t → t = target ∨ ReflTransGen (Moves definition) initial t)
  escape : u64Field definition "timeoutMs" = none → ∀ target, timeoutTarget definition = some target →
    Completes definition target → ∀ s, ReflTransGen (Moves definition) initial s → Completes definition s

theorem reached_iff (hget : strField definition "initialState" = some initial) :
    Reached definition s ↔ ReflTransGen (Leads definition) initial s := by
  unfold Reached
  rw [hget]
  exact ⟨fun ⟨_, heq, hpath⟩ => by cases heq; exact hpath, fun hpath => ⟨initial, rfl, hpath⟩⟩

theorem found_iff_of_searched (h : TimeoutSearched definition initial) (hs : s ∈ stateNames (statesOf definition)) :
    ReflTransGen (Moves definition) initial s ∨ timeoutTarget definition = some s ↔ ReflTransGen (Leads definition) initial s := by
  constructor
  · rintro (hmoves | htarget)
    · exact leads_of_moves hmoves
    · rcases h.target s hs htarget with hmoves | ⟨⟨a, ha, hdeadline⟩, -⟩
      · exact leads_of_moves hmoves
      · exact (leads_of_moves ha).tail (.inr hdeadline)
  · intro hleads
    rcases leads_iff.mp hleads with hmoves | ⟨a, target, ha, hdeadline, hrest⟩
    · exact .inl hmoves
    · rcases h.target target hdeadline.target hdeadline.named with hmoves | ⟨-, hnext⟩
      · exact .inl (hmoves.trans hrest)
      · -- along the rest of the path, each state is the target or one that transitions lead to
        have hstay : s = target ∨ ReflTransGen (Moves definition) initial s := by
          clear hs hleads
          induction hrest with
          | refl => exact .inl rfl
          | tail _ hedge ih =>
            rcases ih with rfl | hmoves
            · exact hnext _ hedge
            · exact .inr (hmoves.tail hedge)
        rcases hstay with rfl | hmoves
        · exact .inr hdeadline.named
        · exact .inl hmoves

theorem Completes.leads (h : Completes definition s) :
    ∃ t ∈ stateNames (statesOf definition), isTerminal definition t ∧ ReflTransGen (Leads definition) s t := by
  obtain ⟨t, ht, hterminal, hpath⟩ := h
  exact ⟨t, ht, hterminal, leads_of_moves hpath⟩

theorem Completes.escape (h : Completes definition target)
    (hdeclared : (u64Field definition "timeoutMs").isSome) (htarget : timeoutTarget definition = some target)
    (hs : s ∈ stateNames (statesOf definition)) :
    ∃ t ∈ stateNames (statesOf definition), isTerminal definition t ∧ ReflTransGen (Leads definition) s t := by
  cases hterminal : isTerminal definition s with
  | true => exact ⟨s, hs, hterminal, .refl⟩
  | false =>
    obtain ⟨t, ht, hend, hpath⟩ := h.leads
    exact ⟨t, ht, hend, .head (.inr ⟨hs, h.mem, hdeclared, hterminal, htarget⟩) hpath⟩

section

variable (hget : strField definition "initialState" = some initial) (hinitial : initial ∈ stateNames (statesOf definition))
include hget hinitial

theorem reportsUnreachable_iff (hs : s ∈ stateNames (statesOf definition)) :
    ReportsUnreachable id definition strict s ↔
    ¬ (ReflTransGen (Moves definition) initial s ∨ timeoutTarget definition = some s) := by
  rw [not_or, ← unreachable_mem_iff hget hinitial hs]
  unfold ReportsUnreachable
  rw [hget]
  exact ⟨fun ⟨_, heq, hmem⟩ => by cases heq; exact hmem, fun hmem => ⟨initial, rfl, hmem⟩⟩

theorem exact_of_searched (h : TimeoutSearched definition initial) : ReachabilityExact id definition strict where
  unreachable s hs := by
    rw [reportsUnreachable_iff hget hinitial hs, reached_iff hget, found_iff_of_searched h hs]
  completion hnone s hs hreached := by
    rw [reached_iff hget] at hreached
    rcases (no_stuck_iff hget hinitial).mp hnone with ⟨target, htarget, hcompletes⟩ | hall
    · cases hdeclared : u64Field definition "timeoutMs" with
      | none => exact (h.escape hdeclared target htarget hcompletes s (moves_of_leads hdeclared hreached)).leads
      | some _ => exact hcompletes.escape (by rw [hdeclared]; rfl) htarget hs
    · rcases leads_iff.mp hreached with hmoves | ⟨a, target, -, hdeadline, -⟩
      · exact (hall s hs (.inl hmoves)).leads
      · exact (hall target hdeadline.target (.inr hdeadline.named)).escape hdeadline.declared hdeadline.named hs

theorem searched_of_exact (h : ReachabilityExact id definition strict) : TimeoutSearched definition initial where
  target target hmem htarget := by
    have hfound {s : String} (hs : s ∈ stateNames (statesOf definition)) :
        ReflTransGen (Moves definition) initial s ∨ timeoutTarget definition = some s ↔
          ReflTransGen (Leads definition) initial s := by
      have hexact := h.unreachable s hs
      rwa [reportsUnreachable_iff hget hinitial hs, reached_iff hget, not_iff_not] at hexact
    rcases leads_iff.mp ((hfound hmem).mp (.inr htarget)) with hmoves | ⟨a, late, ha, hdeadline, -⟩
    · exact .inl hmoves
    · cases hdeadline.named.symm.trans htarget
      refine .inr ⟨⟨a, ha, hdeadline⟩, fun t hmove => ?_⟩
      have hleads := ((leads_of_moves ha).tail (.inr hdeadline)).tail (.inl hmove)
      rcases (hfound hmove.target).mpr hleads with hmoves | hsame
      · exact .inr hmoves
      · exact .inl (Option.some.inj (hsame.symm.trans htarget))
  escape hnone target htarget hcompletes s hmoves := by
    obtain ⟨t, ht, hterminal, hpath⟩ := h.completion ((no_stuck_iff hget hinitial).mpr (.inl ⟨target, htarget, hcompletes⟩)) s
      (mem_of_moves hinitial hmoves) ((reached_iff hget).mpr (leads_of_moves hmoves))
    exact ⟨t, ht, hterminal, moves_of_leads hnone hpath⟩

end

theorem initial_of_exact (h : ReachabilityExact id definition strict) (hs : s ∈ stateNames (statesOf definition)) :
    ∃ initial, strField definition "initialState" = some initial ∧ initial ∈ stateNames (statesOf definition) := by
  by_contra hnot
  have hunreported : ¬ ReportsUnreachable id definition strict s := by
    rintro ⟨initial, hget, hmem⟩
    unfold validateReachability at hmem
    rw [hget] at hmem
    dsimp only at hmem
    rw [if_neg fun hinitial => hnot ⟨initial, hget, hinitial⟩] at hmem
    cases hmem
  have hreached : Reached definition s := by
    by_contra hreached
    exact hunreported ((h.unreachable s hs).mpr hreached)
  obtain ⟨initial, hget, hpath⟩ := hreached
  refine hnot ⟨initial, hget, ?_⟩
  cases hpath using ReflTransGen.head_induction_on with
  | refl => exact hs
  | head hedge _ => exact hedge.elim Moves.source Deadline.source

end

end Reachability

open Reachability

theorem reachability_reports_exact_iff (id : String) (definition : Value) (strict : Bool) :
    ReachabilityExact id definition strict ↔
      stateNames (statesOf definition) = [] ∨ ∃ initial, strField definition "initialState" = some initial ∧
        initial ∈ stateNames (statesOf definition) ∧ TimeoutSearched definition initial := by
  constructor
  · intro h
    rcases eq_nil_or_concat (stateNames (statesOf definition)) with hnil | ⟨_, s, hstates⟩
    · exact .inl hnil
    · obtain ⟨initial, hget, hinitial⟩ := initial_of_exact h (s := s) (by simp [hstates])
      exact .inr ⟨initial, hget, hinitial, searched_of_exact hget hinitial h⟩
  · rintro (hnil | ⟨initial, hget, hinitial, h⟩)
    · exact ⟨by simp [hnil], by simp [hnil]⟩
    · exact exact_of_searched hget hinitial h

def stepState (target : String) : Value :=
  .object [("transitions", .object [("go", .object [("target", .string target)])])]

def lateCleanup : Value :=
  .object [("initialState", "open"), ("timeoutMs", .nat 1000), ("onTimeout", .object [("target", "late")]),
    ("states", .object [("open", stepState "closed"), ("late", stepState "cleanup"), ("cleanup", stepState "closed"),
      ("closed", .object [("terminal", .bool true)])])]

def unclocked : Value :=
  .object [("initialState", "open"), ("onTimeout", .object [("target", "closed")]),
    ("states", .object [("open", stepState "parked"), ("parked", stepState "parked"),
      ("closed", .object [("terminal", .bool true)])])]

theorem unclocked_stays (ha : a = "open" ∨ a = "parked") (h : ReflTransGen (Leads unclocked) a t) :
    t = a ∨ t = "parked" := by
  have hopen : successors (statesOf unclocked) "open" = ["parked"] := by decide +kernel
  have hparked : successors (statesOf unclocked) "parked" = ["parked"] := by decide +kernel
  have hmoves := moves_of_leads (by decide) h
  clear h
  induction hmoves with
  | refl => exact .inl rfl
  | @tail b c _ hedge ih =>
    have hb : b = "open" ∨ b = "parked" := ih.elim (fun h => h ▸ ha) .inr
    have hc : c ∈ successors (statesOf unclocked) b := hedge
    rcases hb with rfl | rfl
    · exact .inr (mem_singleton.mp hc)
    · exact .inr (mem_singleton.mp hc)

theorem cleanup_reported_unreachable :
    (ReportsUnreachable "w" lateCleanup false "cleanup" ∧ Reached lateCleanup "cleanup") ∧
      validateReachability "w" unclocked true = [] ∧ ¬ Reached unclocked "closed" ∧ Reached unclocked "parked" ∧
        ∀ t, ReflTransGen (Leads unclocked) "parked" t → isTerminal unclocked t = false := by
  have hlate : Deadline lateCleanup "open" "late" := ⟨by decide, by decide, by decide, by decide, by decide⟩
  have hclean : Moves lateCleanup "late" "cleanup" := by unfold Moves; decide +kernel
  have hpark : Moves unclocked "open" "parked" := by unfold Moves; decide +kernel
  refine ⟨⟨⟨"open", by decide, by decide +kernel⟩, "open", by decide, .tail (.single (.inr hlate)) (.inl hclean)⟩,
    by decide +kernel, ?_, ⟨"open", by decide, .single (.inl hpark)⟩, ?_⟩
  · rintro ⟨initial, hget, hpath⟩
    cases hget
    exact absurd (unclocked_stays (.inl rfl) hpath) (by decide)
  · intro t hpath
    rcases unclocked_stays (.inr rfl) hpath with rfl | rfl <;> decide

end Praxec
