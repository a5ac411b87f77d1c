import Mathlib.Algebra.Group.Nat.Defs
import Mathlib.Data.List.Basic
import Mathlib.Data.List.Nodup

namespace Praxec

open List Option

structure Lease where
  holder : String
  expiresAt : Nat
  ttl : Nat
deriving DecidableEq

def Lease.isLive (now : Nat) (l : Lease) : Bool :=
  now ≤ l.expiresAt

def Lease.renew (now : Nat) (l : Lease) : Lease :=
  { l with expiresAt := now + l.ttl }

theorem Lease.isLive_of_le {now now' : Nat} {l : Lease} (hle : now ≤ now') (h : l.isLive now') :
    l.isLive now := by
  unfold isLive at h ⊢
  simp only [decide_eq_true_eq] at h ⊢
  omega

abbrev LeaseTable (F : Type) := List (F × Lease)

namespace LeaseTable

variable {F K : Type} [DecidableEq K] (keyOf : F → K)

def find (t : LeaseTable F) (k : K) : Option Lease :=
  (List.find? (fun row => keyOf row.1 = k) t).map Prod.snd

def view (t : LeaseTable F) (now : Nat) (k : K) : Option Lease :=
  (find keyOf t k).filter (Lease.isLive now)

def reap (t : LeaseTable F) (now : Nat) : LeaseTable F :=
  t.filter fun row => row.2.isLive now

def upsert : LeaseTable F → F → Lease → LeaseTable F
  | [], f, l => [(f, l)]
  | (g, m) :: rest, f, l => if keyOf g = keyOf f then (g, l) :: rest else (g, m) :: upsert rest f l

def remove (t : LeaseTable F) (k : K) (holder : String) : LeaseTable F :=
  t.filter fun row => !(keyOf row.1 = k && row.2.holder = holder)

def renew (t : LeaseTable F) (k : K) (holder : String) (now : Nat) : LeaseTable F :=
  t.map fun row => if keyOf row.1 = k ∧ row.2.holder = holder then (row.1, Lease.renew now row.2) else row

def Keyed (t : LeaseTable F) : Prop :=
  (t.map fun row => keyOf row.1).Nodup

variable {keyOf} {t : LeaseTable F} {k : K} {f : F} {l : Lease} {holder : String} {now : Nat}

theorem find_cons : find keyOf ((g, m) :: t) k = if keyOf g = k then some m else find keyOf t k := by
  unfold find
  by_cases h : keyOf g = k <;> simp [h]

theorem find_eq_none_of_notMem (h : k ∉ t.map fun row => keyOf row.1) : find keyOf t k = none := by
  induction t with
  | nil => rfl
  | cons row t ih =>
    rw [map_cons, mem_cons, not_or] at h
    rw [find_cons, if_neg (Ne.symm h.1), ih h.2]

theorem find_upsert : find keyOf (upsert keyOf t f l) k = if k = keyOf f then some l else find keyOf t k := by
  induction t with
  | nil =>
    rw [upsert]
    by_cases h : k = keyOf f <;> simp [h, eq_comm, find]
  | cons row t ih =>
    obtain ⟨g, m⟩ := row
    unfold upsert
    by_cases hg : keyOf g = keyOf f
    · rw [if_pos hg, find_cons, find_cons, hg]
      by_cases h : k = keyOf f
      · rw [if_pos h.symm, if_pos h]
      · rw [if_neg (Ne.symm h), if_neg h, if_neg (Ne.symm h)]
    · rw [if_neg hg, find_cons, find_cons, ih]
      by_cases h : keyOf g = k
      · rw [if_pos h, if_pos h, if_neg (fun hk => hg (h.trans hk))]
      · rw [if_neg h, if_neg h]

theorem keys_upsert : (upsert keyOf t f l).map (fun row => keyOf row.1) =
    if keyOf f ∈ t.map (fun row => keyOf row.1) then t.map (fun row => keyOf row.1)
    else t.map (fun row => keyOf row.1) ++ [keyOf f] := by
  induction t with
  | nil => rfl
  | cons row t ih =>
    obtain ⟨g, m⟩ := row
    unfold upsert
    by_cases hg : keyOf g = keyOf f
    · simp [hg]
    · rw [if_neg hg, map_cons, ih]
      by_cases h : keyOf f ∈ t.map fun row => keyOf row.1
      · rw [if_pos h, map_cons, if_pos (mem_cons_of_mem _ h)]
      · rw [if_neg h, if_neg (by simp [mem_cons, Ne.symm hg, h])]
        rfl

theorem Keyed.upsert (h : Keyed keyOf t) : Keyed keyOf (upsert keyOf t f l) := by
  unfold Keyed
  rw [keys_upsert]
  split
  · exact h
  · rename_i hf
    exact h.append (nodup_singleton _) (by simpa using hf)

theorem find_filter (h : Keyed keyOf t) (hp : ∀ row ∈ t, keyOf row.1 = k → p row = q row.2) :
    find keyOf (t.filter p) k = (find keyOf t k).filter q := by
  induction t with
  | nil => rfl
  | cons row t ih =>
    obtain ⟨g, m⟩ := row
    obtain ⟨hg, hrest⟩ := nodup_cons.mp h
    have ih := ih hrest fun row hrow => hp row (mem_cons_of_mem _ hrow)
    rw [find_cons, filter_cons]
    by_cases hk : keyOf g = k
    · have hnone : find keyOf t k = none := find_eq_none_of_notMem (hk ▸ hg)
      rw [hnone] at ih
      rw [if_pos hk, hp (g, m) mem_cons_self hk, filter_some]
      split
      · rw [find_cons, if_pos hk]
      · exact ih
    · split
      · rw [find_cons, if_neg hk, ih]
      · exact ih

theorem Keyed.filter (h : Keyed keyOf t) (p : F × Lease → Bool) : Keyed keyOf (t.filter p) :=
  h.sublist (filter_sublist.map _)

theorem find_reap (h : Keyed keyOf t) : find keyOf (t.reap now) k = view keyOf t now k :=
  find_filter h fun _ _ _ => rfl

theorem filter_view (hle : now ≤ now') : (view keyOf t now k).filter (Lease.isLive now') = view keyOf t now' k := by
  unfold view
  cases find keyOf t k with
  | none => rfl
  | some l =>
    cases hlive : l.isLive now' with
    | true => simp [filter_some, hlive, Lease.isLive_of_le hle hlive]
    | false => by_cases hnow : l.isLive now <;> simp [filter_some, hlive, hnow]

theorem view_reap (h : Keyed keyOf t) (hle : now ≤ now') : view keyOf (t.reap now) now' k = view keyOf t now' k := by
  rw [view, find_reap h, filter_view hle]

section

variable {P : Type} {file : P → F} {files : List P}

def grant (keyOf : F → K) (file : P → F) (l : Lease) (files : List P) (t : LeaseTable F) : LeaseTable F :=
  files.foldl (fun t f => upsert keyOf t (file f) l) t

theorem Keyed.grant (h : Keyed keyOf t) : Keyed keyOf (grant keyOf file l files t) := by
  induction files generalizing t with
  | nil => exact h
  | cons f files ih => exact ih h.upsert

theorem find_grant : find keyOf (grant keyOf file l files t) k =
    if k ∈ files.map (fun f => keyOf (file f)) then some l else find keyOf t k := by
  unfold grant
  induction files generalizing t with
  | nil => simp
  | cons f files ih =>
    rw [foldl_cons, ih, find_upsert]
    by_cases hk : k = keyOf (file f) <;> simp [hk]

def removeAll (keyOf : F → K) (file : P → F) (holder : String) (files : List P) (t : LeaseTable F) : LeaseTable F :=
  files.foldl (fun t f => remove keyOf t (keyOf (file f)) holder) t

theorem Keyed.remove (h : Keyed keyOf t) (k : K) : Keyed keyOf (remove keyOf t k holder) :=
  h.filter _

theorem find_remove (h : Keyed keyOf t) : find keyOf (remove keyOf t k' holder) k =
    if k = k' then (find keyOf t k).filter (fun l => l.holder ≠ holder) else find keyOf t k := by
  by_cases hk : k = k'
  · rw [if_pos hk]
    refine find_filter h fun row _ hrow => ?_
    simp [hrow, hk]
  · have hall : find keyOf t k = (find keyOf t k).filter fun _ => true := by
      cases find keyOf t k <;> rfl
    rw [if_neg hk, hall]
    refine find_filter h fun row _ hrow => ?_
    simp [hrow, hk]

theorem find_removeAll (h : Keyed keyOf t) : find keyOf (removeAll keyOf file holder files t) k =
    if k ∈ files.map (fun f => keyOf (file f)) then (find keyOf t k).filter (fun l => l.holder ≠ holder)
    else find keyOf t k := by
  unfold removeAll
  induction files generalizing t with
  | nil => simp
  | cons f files ih =>
    rw [foldl_cons, ih (h.remove _), find_remove h]
    by_cases hk : k = keyOf (file f) <;> simp [hk, Option.filter_filter]

def renewAll (keyOf : F → K) (file : P → F) (holder : String) (now : Nat) (files : List P) (t : LeaseTable F) : LeaseTable F :=
  files.foldl (fun t f => renew keyOf t (keyOf (file f)) holder now) t

theorem keys_renew : (renew keyOf t k' holder now).map (fun row => keyOf row.1) = t.map fun row => keyOf row.1 := by
  unfold renew
  rw [List.map_map]
  refine List.map_congr_left fun row _ => ?_
  rw [Function.comp_apply]
  split <;> rfl

theorem Keyed.renewAll (h : Keyed keyOf t) : Keyed keyOf (renewAll keyOf file holder now files t) := by
  induction files generalizing t with
  | nil => exact h
  | cons f files ih =>
    refine ih ?_
    unfold Keyed
    rw [keys_renew]
    exact h

theorem find_renew : find keyOf (renew keyOf t k' holder now) k =
    (find keyOf t k).map fun l => if k = k' ∧ l.holder = holder then l.renew now else l := by
  induction t with
  | nil => rfl
  | cons row t ih =>
    obtain ⟨g, m⟩ := row
    have hcons : renew keyOf ((g, m) :: t) k' holder now =
        (g, if keyOf g = k' ∧ m.holder = holder then m.renew now else m) :: renew keyOf t k' holder now := by
      unfold renew
      rw [map_cons]
      split <;> rfl
    rw [hcons, find_cons, find_cons, ih]
    by_cases hg : keyOf g = k <;> simp [hg]

theorem find_renewAll : find keyOf (renewAll keyOf file holder now files t) k =
    (find keyOf t k).map fun l => if k ∈ files.map (fun f => keyOf (file f)) ∧ l.holder = holder then l.renew now else l := by
  unfold renewAll
  induction files generalizing t with
  | nil => simp
  | cons f files ih =>
    rw [List.foldl_cons, ih, find_renew, Option.map_map]
    congr 1
    funext l
    by_cases hk : k = keyOf (file f) <;> by_cases hh : l.holder = holder <;>
      by_cases hm : k ∈ files.map (fun f => keyOf (file f)) <;> simp_all [Lease.renew]

end

end LeaseTable

end Praxec
