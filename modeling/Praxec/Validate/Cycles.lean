import Praxec.Graph.Dfs
import Praxec.Validate.Guards
import Mathlib.Data.List.Sort

namespace Praxec

open Json Praxec.Graph List

mutual
/-- The definitions that a document refers to, wherever in it an object of kind `workflow` stands. -/
def collectWorkflowRefs : Value → List String
  | .object fields =>
      (if strField (.object fields) "kind" = some "workflow" then (strField (.object fields) "definitionId").toList else []) ++
        collectWorkflowRefsOfFields fields
  | .array xs => collectWorkflowRefsOfList xs
  | _ => []

def collectWorkflowRefsOfList : List Value → List String
  | [] => []
  | v :: rest => collectWorkflowRefs v ++ collectWorkflowRefsOfList rest

def collectWorkflowRefsOfFields : Fields → List String
  | [] => []
  | (_, v) :: rest => collectWorkflowRefs v ++ collectWorkflowRefsOfFields rest
end

section

variable (workflows : Fields)

def workflowRefs (id : String) : List String :=
  match workflows.get id with
  | some definition => (collectWorkflowRefs definition).filter fun t => (workflows.get t).isSome
  | none => []

def isRecursive (id : String) : Bool :=
  (workflows.get id).bind (fun definition => (definition.get "recursive").bind Value.asBool) = some true

structure CycleReport where
  reported : List String
  out : List Diagnostic

def cycleOf (path : List String) (target : String) : List String :=
  match path.idxOf? target with
  | some i => path.drop i
  | none => path.getLast?.toList ++ [target]

def cycleError (cycle : List String) (target : String) : Diagnostic :=
  .error ("CYCLE_DETECTED: the `kind: workflow` reference graph has a cycle [" ++
    String.intercalate " → " (cycle ++ [target]) ++
    "] — cross-workflow recursion with no declared bound. If this is intentional, mark a definition on the cycle `recursive: true` (the runtime depth guard then bounds it); otherwise break the cycle (SPEC §3, mirrors `while:`→`max_iterations`).")

/-- A back edge is an error unless a definition on its cycle has opted in, or the same nodes were reported before. -/
def reportCycle (r : CycleReport) (path : List String) (target : String) : CycleReport :=
  let cycle := cycleOf path target
  if cycle.any (isRecursive workflows) then r
  else
    let key := String.intercalate "|" (cycle.insertionSort (· ≤ ·))
    if key ∈ r.reported then r else ⟨key :: r.reported, r.out ++ [cycleError cycle target]⟩

def validateNoReferenceCycles : List Diagnostic :=
  let ids := workflows.map Prod.fst
  (Dfs.search (workflowRefs workflows) (reportCycle workflows) (2 * ids.length) ids [] ⟨[], []⟩).2.out

end

variable {workflows workflows' : Fields}

def Refers (workflows : Fields) (id target : String) : Prop :=
  target ∈ workflowRefs workflows id

theorem Refers.mem_keys {id target : String} (h : Refers workflows id target) :
    id ∈ workflows.map Prod.fst ∧ target ∈ workflows.map Prod.fst := by
  unfold Refers workflowRefs at h
  cases hget : workflows.get id with
  | none =>
    rw [hget] at h
    cases h
  | some definition =>
    rw [hget] at h
    obtain ⟨named, hnamed⟩ := Option.isSome_iff_exists.mp (mem_filter.mp h).2
    exact ⟨mem_keys_of_get hget, mem_keys_of_get hnamed⟩

theorem cycleOf_simple (h : Dfs.BackEdge (workflowRefs workflows) path target)
    (hu : path.getLast? = some u) : SimpleChain (Refers workflows) target u (cycleOf path target) := by
  unfold cycleOf
  split
  case h_2 hnone => exact absurd h.mem (idxOf?_eq_none_iff.mp hnone)
  case h_1 i hsome =>
    obtain ⟨hi, htarget, -⟩ := idxOf?_eq_some_iff.mp hsome
    have hdrop := drop_eq_getElem_cons hi
    exact {
      head := by rw [hdrop, htarget, head?_cons]
      last := by rw [getLast?_drop, if_neg (Nat.not_le.mpr hi), hu]
      nodup := h.nodup.sublist (drop_sublist i path)
      chain := h.chain.suffix (drop_suffix i path) }

theorem cycleOf_isCycle (h : Dfs.BackEdge (workflowRefs workflows) path target) :
    IsCycle (Refers workflows) (cycleOf path target) := by
  obtain ⟨u, hu, hedge⟩ := h.edge
  exact (cycleOf_simple h hu).isCycle hedge

def CycleReport.Keyed (r : CycleReport) : Prop :=
  r.out = [] → r.reported = []

theorem reportCycle_keyed (hr : r.Keyed) :
    (reportCycle workflows r path target).Keyed := by
  unfold reportCycle
  dsimp only
  split
  · exact hr
  · split
    · exact hr
    · intro hout
      exact absurd hout (by simp)

theorem reportCycle_out_eq_nil_iff (hr : r.Keyed) :
    (reportCycle workflows r path target).out = [] ↔
    r.out = [] ∧ ∃ id ∈ cycleOf path target, isRecursive workflows id := by
  unfold reportCycle
  dsimp only
  split
  case isTrue hany => simp only [any_eq_true.mp hany, and_true]
  case isFalse hany =>
    rw [← any_eq_true, eq_false hany, and_false, iff_false]
    split
    case isTrue hkey =>
      intro hout
      rw [hr hout] at hkey
      cases hkey
    case isFalse => simp

theorem fold_out_eq_nil_iff (hr : r.Keyed) :
    (Dfs.fold (reportCycle workflows) r backs).out = [] ↔
    r.out = [] ∧ ∀ back ∈ backs, ∃ id ∈ cycleOf back.1 back.2, isRecursive workflows id := by
  induction backs generalizing r with
  | nil => simp [Dfs.fold]
  | cons back rest ih =>
    have hkeyed : (reportCycle workflows r back.1 back.2).Keyed := reportCycle_keyed hr
    have hrest := ih hkeyed
    rw [reportCycle_out_eq_nil_iff hr] at hrest
    rw [forall_mem_cons, ← and_assoc, ← hrest]
    rfl

def CyclesOptIn (workflows : Fields) : Prop :=
  ∀ cycle, IsCycle (Refers workflows) cycle → ∃ id ∈ cycle, isRecursive workflows id = true

/-- Definitions that do not opt in and each refer to another of them, where no chain of references that goes through a
definition that opts in leads from the target of such a reference back to its source. -/
structure Exposed (workflows : Fields) (C : String → Prop) : Prop where
  inhabited : ∃ v, C v
  refers : ∀ v, C v → ∃ t, C t ∧ Refers workflows v t
  direct : ∀ u t, C u → C t → Refers workflows u t →
    ∀ path, SimpleChain (Refers workflows) t u path → ∀ id ∈ path, isRecursive workflows id = false

def CyclesExposed (workflows : Fields) : Prop :=
  ¬ CyclesOptIn workflows → ∃ C, Exposed workflows C

structure SameReferences (workflows workflows' : Fields) : Prop where
  refers : ∀ id target, Refers workflows id target ↔ Refers workflows' id target
  recursive : ∀ id, isRecursive workflows id = isRecursive workflows' id

theorem SameReferences.refers_eq (h : SameReferences workflows workflows') : Refers workflows = Refers workflows' :=
  funext₂ fun id target => propext (h.refers id target)

theorem SameReferences.cyclesOptIn_iff (h : SameReferences workflows workflows') : CyclesOptIn workflows ↔ CyclesOptIn workflows' := by
  simp only [CyclesOptIn, h.refers_eq, h.recursive]

theorem SameReferences.exposed (h : SameReferences workflows workflows') (hC : Exposed workflows C) :
    Exposed workflows' C where
  inhabited := hC.inhabited
  refers := by
    rw [← h.refers_eq]
    exact hC.refers
  direct := by
    rw [← h.refers_eq]
    simpa only [h.recursive] using hC.direct

theorem SameReferences.cyclesExposed (h : SameReferences workflows workflows') (hw : CyclesExposed workflows) :
    CyclesExposed workflows' := by
  intro hopt
  obtain ⟨C, hC⟩ := hw fun hin => hopt (h.cyclesOptIn_iff.mp hin)
  exact ⟨C, h.exposed hC⟩

theorem validateNoReferenceCycles_eq_nil_iff (h : CyclesExposed workflows) :
    validateNoReferenceCycles workflows = [] ↔ CyclesOptIn workflows := by
  have hclosed : ∀ v ∈ workflows.map Prod.fst, ∀ t ∈ workflowRefs workflows v, t ∈ workflows.map Prod.fst :=
    fun v _ t (ht : Refers workflows v t) => ht.mem_keys.2
  obtain ⟨backs, hfold, hback, hmet⟩ := Dfs.search_backs hclosed (reportCycle workflows) ⟨[], []⟩
  have hnil : validateNoReferenceCycles workflows = [] ↔
      ∀ back ∈ backs, ∃ id ∈ cycleOf back.1 back.2, isRecursive workflows id := by
    unfold validateNoReferenceCycles
    dsimp only
    rw [hfold, fold_out_eq_nil_iff fun _ => rfl]
    simp
  rw [hnil]
  refine ⟨fun hall => ?_, fun hopt back hb => hopt _ (cycleOf_isCycle (hback back hb))⟩
  by_contra hopt
  obtain ⟨C, hC⟩ := h hopt
  -- the search closes a back edge inside the set, and the chain it closes avoids the definitions that opt in
  obtain ⟨back, hb, u, hu, huC, htC⟩ := hmet C (fun v hv => by
      obtain ⟨t, ht, hedge⟩ := hC.refers v hv
      exact ⟨hedge.mem_keys.1, t, hedge, ht⟩) hC.inhabited
  obtain ⟨u', hu', hedge⟩ := (hback back hb).edge
  cases hu.symm.trans hu'
  obtain ⟨id, hid, hrecursive⟩ := hall back hb
  have hplain := hC.direct u back.2 huC htC hedge _ (cycleOf_simple (hback back hb) hu) id hid
  exact absurd hrecursive (by rw [hplain]; exact Bool.false_ne_true)

theorem reference_cycles_exact (h : CyclesExposed workflows) :
    (validateNoReferenceCycles workflows = [] ↔ CyclesOptIn workflows) ∧
      ∀ workflows', SameReferences workflows workflows' →
        (validateNoReferenceCycles workflows' = [] ↔ validateNoReferenceCycles workflows = []) := by
  have hexact := validateNoReferenceCycles_eq_nil_iff h
  refine ⟨hexact, fun workflows' hsame => ?_⟩
  rw [hexact, validateNoReferenceCycles_eq_nil_iff (hsame.cyclesExposed h)]
  exact hsame.cyclesOptIn_iff.symm

def calling (targets : List String) (recursive : Bool) : Value :=
  .object [("recursive", .bool recursive),
    ("steps", .array (targets.map fun t => .object [("kind", "workflow"), ("definitionId", .string t)]))]

def mutualCalls : Fields :=
  [("ingest", calling ["parse"] false), ("parse", calling ["ingest"] false), ("walk", calling ["walk", "ingest"] true)]

theorem mutualCalls_exposed : Exposed mutualCalls fun id => id = "ingest" ∨ id = "parse" where
  inhabited := ⟨"ingest", .inl rfl⟩
  refers := by
    rintro v (rfl | rfl)
    · exact ⟨"parse", .inr rfl, by unfold Refers; decide⟩
    · exact ⟨"ingest", .inl rfl, by unfold Refers; decide⟩
  direct := by
    intro u t _ ht _ path hpath id hid
    have hclosed : ∀ a b, Refers mutualCalls a b → (a = "ingest" ∨ a = "parse") → (b = "ingest" ∨ b = "parse") := by
      rintro a b hab (rfl | rfl)
      · exact .inr (mem_singleton.mp hab)
      · exact .inl (mem_singleton.mp hab)
    obtain ⟨rest, rfl⟩ := head?_eq_some_iff.mp hpath.head
    have hreach := reaches_of_isChain_cons hpath.chain id hid
    clear hpath hid
    have hstay : id = "ingest" ∨ id = "parse" := by
      induction hreach with
      | refl => exact ht
      | tail _ hedge ih => exact hclosed _ _ hedge ih
    rcases hstay with rfl | rfl <;> decide

theorem mutualCalls_reported : CyclesExposed mutualCalls ∧
    ((validateNoReferenceCycles mutualCalls = [] ↔ CyclesOptIn mutualCalls) ∧
      ∀ workflows', SameReferences mutualCalls workflows' →
        (validateNoReferenceCycles workflows' = [] ↔ validateNoReferenceCycles mutualCalls = [])) :=
  have h : CyclesExposed mutualCalls := fun _ => ⟨_, mutualCalls_exposed⟩
  ⟨h, reference_cycles_exact h⟩

def twoWays (targets : List String) : Fields :=
  [("first", calling targets false), ("last", calling ["first"] false),
    ("left", calling ["last"] true), ("right", calling ["last"] false)]

theorem twoWays_same : SameReferences (twoWays ["left", "right"]) (twoWays ["right", "left"]) := by
  have hget : ∀ id, id ≠ "first" → (twoWays ["left", "right"]).get id = (twoWays ["right", "left"]).get id := by
    intro id hid
    unfold twoWays
    rw [Fields.get_cons "first", if_neg hid, Fields.get_cons "first", if_neg hid]
  have hsome : ∀ id, ((twoWays ["left", "right"]).get id).isSome = ((twoWays ["right", "left"]).get id).isSome := by
    intro id
    by_cases hid : id = "first"
    · subst hid
      decide +kernel
    · rw [hget id hid]
  refine ⟨fun id target => ?_, fun id => ?_⟩
  · by_cases hid : id = "first"
    · subst hid
      have hleft : workflowRefs (twoWays ["left", "right"]) "first" = ["left", "right"] := by decide +kernel
      have hright : workflowRefs (twoWays ["right", "left"]) "first" = ["right", "left"] := by decide +kernel
      rw [Refers, Refers, hleft, hright]
      simp [or_comm]
    · unfold Refers workflowRefs
      rw [hget id hid]
      simp only [hsome]
  · by_cases hid : id = "first"
    · subst hid
      decide +kernel
    · unfold isRecursive
      rw [hget id hid]

theorem right_cycle_unreported : validateNoReferenceCycles (twoWays ["left", "right"]) = [] ∧
    ¬ CyclesOptIn (twoWays ["left", "right"]) ∧
    validateNoReferenceCycles (twoWays ["right", "left"]) ≠ [] ∧
    SameReferences (twoWays ["left", "right"]) (twoWays ["right", "left"]) := by
  refine ⟨by decide +kernel, fun hopt => ?_, by decide +kernel, twoWays_same⟩
  obtain ⟨id, hid, hrec⟩ := hopt ["first", "right", "last"] ⟨"first", rfl, by unfold Refers; decide +kernel⟩
  revert id
  decide +kernel

end Praxec
