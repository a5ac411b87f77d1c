import Mathlib.Data.List.Dedup
import Mathlib.Data.List.Perm.Basic
import Mathlib.Logic.Relation

namespace Praxec.Graph

open List Relation

variable {α : Type} [DecidableEq α] {succ : α → List α} {left ready : List α} {pending : α → Nat}

def indegree (succ : α → List α) (nodes : List α) (a : α) : Nat :=
  (nodes.flatMap succ).count a

def relax : List α → (α → Nat) → List α → (α → Nat) × List α
  | [], pending, ready => (pending, ready)
  | a :: rest, pending, ready =>
      relax rest (Function.update pending a (pending a - 1)) (if pending a - 1 = 0 then ready ++ [a] else ready)

def visit (succ : α → List α) : Nat → (α → Nat) → List α → List α
  | fuel + 1, pending, a :: ready =>
      a :: visit succ fuel (relax (succ a) pending ready).1 (relax (succ a) pending ready).2
  | _, _, _ => []

def kahn (succ : α → List α) (nodes : List α) : List α :=
  visit succ nodes.length (indegree succ nodes) (nodes.filter fun a => indegree succ nodes a = 0)

def Edge (succ : α → List α) (nodes : List α) (a b : α) : Prop :=
  a ∈ nodes ∧ b ∈ succ a

def Sorted (succ : α → List α) : List α → List α → Prop
  | _, [] => True
  | left, a :: rest => a ∈ left ∧ (∀ b ∈ left, a ∉ succ b) ∧ Sorted succ (left.erase a) rest

theorem Sorted.length_le (h : Sorted succ left order) : order.length ≤ left.length := by
  induction order generalizing left with
  | nil => exact Nat.zero_le _
  | cons a rest ih =>
    obtain ⟨hmem, -, hrest⟩ := h
    have hlength := length_erase_of_mem hmem
    have hpos := length_pos_of_mem hmem
    have hle := ih hrest
    simp only [length_cons]
    omega

omit [DecidableEq α] in
theorem edge_target_ne (hsource : ∀ b ∈ left, a ∉ succ b) (h : TransGen (Edge succ left) c d) : d ≠ a := by
  intro hd
  subst hd
  cases h with
  | single hedge => exact hsource _ hedge.1 hedge.2
  | tail _ hedge => exact hsource _ hedge.1 hedge.2

theorem path_erase (hsource : ∀ b ∈ left, a ∉ succ b) (hc : c ≠ a)
    (h : TransGen (Edge succ left) c d) : TransGen (Edge succ (left.erase a)) c d := by
  induction h with
  | single hedge => exact .single ⟨(mem_erase_of_ne hc).mpr hedge.1, hedge.2⟩
  | tail hpath hedge ih =>
    have hne := edge_target_ne hsource hpath
    exact .tail ih ⟨(mem_erase_of_ne hne).mpr hedge.1, hedge.2⟩

theorem Sorted.acyclic (h : Sorted succ left order) (hall : order.length = left.length) (c : α) :
    ¬ TransGen (Edge succ left) c c := by
  induction order generalizing left with
  | nil =>
    intro hcycle
    obtain ⟨_, hedge, -⟩ := TransGen.head'_iff.mp hcycle
    rw [length_eq_zero_iff.mp hall.symm] at hedge
    exact nomatch hedge.1
  | cons a rest ih =>
    obtain ⟨hmem, hsource, hrest⟩ := h
    intro hcycle
    have hlength := length_erase_of_mem hmem
    have hne := edge_target_ne hsource hcycle
    refine ih hrest ?_ (path_erase hsource hne hcycle)
    rw [hlength, ← hall]
    rfl

theorem count_le_update (h : ∀ b, (a :: rest).count b ≤ pending b) (b : α) :
    rest.count b ≤ Function.update pending a (pending a - 1) b := by
  have hb := h b
  by_cases hba : b = a
  · subst hba
    rw [count_cons_self] at hb
    rw [Function.update_self]
    omega
  · rw [count_cons_of_ne (Ne.symm hba)] at hb
    rwa [Function.update_of_ne hba]

theorem relax_pending (htargets : ∀ b, targets.count b ≤ pending b) {b : α} :
    (relax targets pending ready).1 b = pending b - targets.count b := by
  induction targets generalizing pending ready with
  | nil => rfl
  | cons a rest ih =>
    unfold relax
    rw [ih (count_le_update htargets)]
    by_cases hba : b = a
    · subst hba
      rw [Function.update_self, count_cons_self]
      omega
    · rw [Function.update_of_ne hba, count_cons_of_ne (Ne.symm hba)]

theorem mem_relax (htargets : ∀ b, targets.count b ≤ pending b) {b : α} :
    b ∈ (relax targets pending ready).2 ↔ b ∈ ready ∨ b ∈ targets ∧ pending b = targets.count b := by
  induction targets generalizing pending ready with
  | nil => simp [relax]
  | cons a rest ih =>
    have hb := htargets b
    unfold relax
    rw [ih (count_le_update htargets)]
    by_cases hba : b = a
    · subst hba
      rw [count_cons_self] at hb
      rw [Function.update_self, count_cons_self]
      by_cases hlast : pending b - 1 = 0
      · have heq : pending b = rest.count b + 1 := by omega
        rw [if_pos hlast]
        simp [heq]
      · have hmem : pending b = rest.count b + 1 → b ∈ rest := fun h => count_pos_iff.mp (by omega)
        have heq : pending b - 1 = rest.count b ↔ pending b = rest.count b + 1 := by omega
        rw [if_neg hlast, heq]
        exact or_congr_right ⟨fun h => ⟨.head _, h.2⟩, fun h => ⟨hmem h.2, h.2⟩⟩
    · rw [count_cons_of_ne (Ne.symm hba)]
      split <;> simp [hba]

theorem nodup_relax (htargets : ∀ b, targets.count b ≤ pending b) (hready : ready.Nodup)
    (hdone : ∀ b ∈ ready, pending b = 0) : (relax targets pending ready).2.Nodup := by
  induction targets generalizing pending ready with
  | nil => exact hready
  | cons a rest ih =>
    have ha := htargets a
    rw [count_cons_self] at ha
    have hfresh : a ∉ ready := fun hmem => by
      have := hdone a hmem
      omega
    have hkept (b : α) (hb : b ∈ ready) : Function.update pending a (pending a - 1) b = 0 := by
      have hne : b ≠ a := fun h => hfresh (h ▸ hb)
      rw [Function.update_of_ne hne]
      exact hdone b hb
    refine ih (count_le_update htargets) ?_ ?_
    · split
      · exact nodup_append'.mpr ⟨hready, nodup_singleton a, disjoint_singleton.mpr hfresh⟩
      · exact hready
    · intro b hb
      split at hb
      · rename_i hlast
        rcases mem_append.mp hb with hold | hnew
        · exact hkept b hold
        · rw [mem_singleton.mp hnew, Function.update_self, hlast]
      · exact hkept b hb

structure Counts (succ : α → List α) (left : List α) (pending : α → Nat) (ready : List α) : Prop where
  counted : ∀ a, pending a = indegree succ left a
  free : ∀ a, a ∈ ready ↔ a ∈ left ∧ indegree succ left a = 0
  nodup : ready.Nodup
  distinct : left.Nodup
  closed : ∀ a ∈ left, ∀ b ∈ succ a, b ∈ left

omit [DecidableEq α] in
theorem mem_flatMap_of_edge (ha : a ∈ left) (hb : b ∈ succ a) : b ∈ left.flatMap succ :=
  mem_flatMap.mpr ⟨a, ha, hb⟩

theorem not_mem_of_indegree (h : indegree succ left a = 0) (b : α) (hb : b ∈ left) : a ∉ succ b :=
  fun hedge => count_eq_zero.mp h (mem_flatMap_of_edge hb hedge)

theorem indegree_erase (ha : a ∈ left) :
    indegree succ left b = (succ a).count b + indegree succ (left.erase a) b := by
  unfold indegree
  rw [((perm_cons_erase ha).flatMap_right succ).count_eq, flatMap_cons, count_append]

theorem Counts.next (h : Counts succ left pending (a :: ready)) :
    Counts succ (left.erase a) (relax (succ a) pending ready).1 (relax (succ a) pending ready).2 := by
  obtain ⟨ha, hzero⟩ := (h.free a).mp (.head _)
  obtain ⟨hfresh, hnodup⟩ := nodup_cons.mp h.nodup
  have hle (b : α) : (succ a).count b ≤ pending b := by
    rw [h.counted, indegree_erase ha]
    exact Nat.le_add_right _ _
  have hne {b c : α} (hb : b ∈ left) (hc : c ∈ succ b) : c ≠ a := fun heq =>
    not_mem_of_indegree hzero b hb (heq ▸ hc)
  refine ⟨fun b => ?_, fun b => ?_, ?_, h.distinct.erase a, fun b hb c hc => ?_⟩
  · rw [relax_pending hle, h.counted, indegree_erase ha]
    omega
  · rw [mem_relax hle, h.counted]
    by_cases hba : b = a
    · subst hba
      have hself : b ∉ succ b := not_mem_of_indegree hzero b ha
      have hout : b ∉ left.erase b := h.distinct.not_mem_erase
      simp [hfresh, hself, hout]
    · have hin : b ∈ ready ↔ b ∈ left ∧ indegree succ left b = 0 := by
        rw [← h.free b, mem_cons]
        exact (or_iff_right hba).symm
      rw [hin, mem_erase_of_ne hba, indegree_erase ha]
      constructor
      · rintro (⟨hmem, hsum⟩ | ⟨hmem, hsum⟩)
        · exact ⟨hmem, by omega⟩
        · exact ⟨h.closed a ha b hmem, by omega⟩
      · rintro ⟨hmem, hrest⟩
        by_cases htarget : b ∈ succ a
        · exact .inr ⟨htarget, by omega⟩
        · have hcount := count_eq_zero.mpr htarget
          exact .inl ⟨hmem, by omega⟩
  · refine nodup_relax hle hnodup fun b hb => ?_
    rw [h.counted]
    exact ((h.free b).mp (.tail _ hb)).2
  · have hb' := mem_of_mem_erase hb
    exact (mem_erase_of_ne (hne hb' hc)).mpr (h.closed b hb' c hc)

theorem visit_sorted {fuel : Nat} (h : Counts succ left pending ready) :
    Sorted succ left (visit succ fuel pending ready) := by
  induction fuel generalizing left pending ready with
  | zero => trivial
  | succ fuel ih =>
    cases ready with
    | nil => trivial
    | cons a rest =>
      obtain ⟨ha, hzero⟩ := (h.free a).mp (.head _)
      exact ⟨ha, not_mem_of_indegree hzero, ih h.next⟩

theorem kahn_sorted (hdistinct : nodes.Nodup) (hclosed : ∀ a ∈ nodes, ∀ b ∈ succ a, b ∈ nodes) :
    Sorted succ nodes (kahn succ nodes) := by
  refine visit_sorted ⟨fun _ => rfl, fun a => ?_, hdistinct.filter _, hdistinct, hclosed⟩
  rw [mem_filter, decide_eq_true_eq]

theorem acyclic_of_kahn (hdistinct : nodes.Nodup)
    (hclosed : ∀ a ∈ nodes, ∀ b ∈ succ a, b ∈ nodes) (hall : (kahn succ nodes).length = nodes.length) (a : α) :
    ¬ TransGen (Edge succ nodes) a a :=
  (kahn_sorted hdistinct hclosed).acyclic hall a

end Praxec.Graph
