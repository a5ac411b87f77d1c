import Mathlib.Algebra.Order.Group.Nat
import Mathlib.Algebra.Ring.Nat
import Mathlib.Data.List.Forall2

/-! Maps as lists sorted by key, with the update of one entry through its default. -/

namespace Praxec.SortedMap

open List

variable [LinearOrder K] {m : List (K × V)} {k : K} {fresh : V} {g : V → V}

/-- The entry of `k` is updated by `g`, from `fresh` when the map has none. -/
def entry (k : K) (fresh : V) (g : V → V) : List (K × V) → List (K × V)
  | [] => [(k, g fresh)]
  | (k', v) :: m =>
    if k < k' then (k, g fresh) :: (k', v) :: m
    else if k = k' then (k', g v) :: m else (k', v) :: entry k fresh g m

theorem forall_entry {P : K × V → Prop} (hf : P (k, g fresh)) (hg : ∀ v, P (k, v) → P (k, g v))
    (hm : ∀ e ∈ m, P e) : ∀ e ∈ entry k fresh g m, P e := by
  induction m with
  | nil => simpa [entry] using hf
  | cons e m ih =>
    obtain ⟨he, htail⟩ := forall_mem_cons.mp hm
    rw [entry]
    split_ifs with hlt heq
    · exact forall_mem_cons.mpr ⟨hf, hm⟩
    · subst heq
      exact forall_mem_cons.mpr ⟨hg _ he, htail⟩
    · exact forall_mem_cons.mpr ⟨he, ih htail⟩

def Sorted (m : List (K × V)) : Prop := m.Pairwise fun a b => a.1 < b.1

theorem Sorted.entry (hm : Sorted m) : Sorted (entry k fresh g m) := by
  induction m with
  | nil => exact pairwise_singleton _ _
  | cons e m ih =>
    obtain ⟨he, hm⟩ := pairwise_cons.mp hm
    rw [SortedMap.entry]
    split_ifs with hlt heq
    · have hall : ∀ a ∈ e :: m, k < a.1 :=
        forall_mem_cons.mpr ⟨hlt, fun a ha => hlt.trans (he a ha)⟩
      exact pairwise_cons.mpr ⟨hall, pairwise_cons.mpr ⟨he, hm⟩⟩
    · exact pairwise_cons.mpr ⟨he, hm⟩
    · have hk : e.1 < k := lt_of_le_of_ne (not_lt.mp hlt) (Ne.symm heq)
      exact pairwise_cons.mpr ⟨forall_entry hk (fun _ h => h) he, ih hm⟩

def total (f : V → ℕ) (m : List (K × V)) : ℕ := (m.map fun e => f e.2).sum

theorem total_entry {f : V → ℕ} (d : ℕ) (hf : f fresh = 0) (hg : ∀ v, f (g v) = f v + d) :
    total f (entry k fresh g m) = total f m + d := by
  induction m with
  | nil => simp [entry, total, hg, hf]
  | cons e m ih =>
    simp only [total] at ih
    rw [entry]
    split_ifs <;> simp only [total, map_cons, sum_cons, hg, hf, ih] <;> omega

/-- Maps with the same keys, related at each key, are related entry by entry. -/
theorem forall₂_of_lookup {m' : List (K × V)} {R : V → V → Prop} (hm : Sorted m)
    (hkeys : m.map Prod.fst = m'.map Prod.fst)
    (hR : ∀ e ∈ m, ∃ v ∈ m'.lookup e.1, R e.2 v) : m.Forall₂ (fun a b => R a.2 b.2) m' := by
  induction m generalizing m' with
  | nil =>
    rw [map_nil, eq_comm, map_eq_nil_iff] at hkeys
    subst hkeys
    exact .nil
  | cons e m ih =>
    obtain ⟨he, hm⟩ := pairwise_cons.mp hm
    obtain ⟨hhead, hR⟩ := forall_mem_cons.mp hR
    cases m' with
    | nil => cases hkeys
    | cons e' m' =>
      obtain ⟨k', v'⟩ := e'
      obtain ⟨hkey : e.1 = k', hkeys⟩ := List.cons.inj hkeys
      refine .cons (by simpa [lookup_cons, hkey] using hhead) (ih hm hkeys fun a ha => ?_)
      have hne : (a.1 == k') = false := beq_false_of_ne (hkey ▸ (he a ha).ne')
      simpa [lookup_cons, hne] using hR a ha

end Praxec.SortedMap
