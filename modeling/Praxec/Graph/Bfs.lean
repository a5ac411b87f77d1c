import Mathlib.Data.List.Nodup
import Mathlib.Data.List.Perm.Subperm
import Mathlib.Logic.Relation

namespace Praxec.Graph.Bfs

open List Relation

variable {α : Type} [DecidableEq α] {succ : α → List α} {starts univ queue seen : List α}

def enqueue : List α → List α × List α → List α × List α
  | [], frontier => frontier
  | t :: rest, (queue, seen) =>
      enqueue rest (if t ∈ seen then (queue, seen) else (queue ++ [t], seen ++ [t]))

def explore (succ : α → List α) : Nat → List α × List α → List α
  | fuel + 1, (v :: queue, seen) => explore succ fuel (enqueue (succ v) (queue, seen))
  | _, (_, seen) => seen

def reach (succ : α → List α) (fuel : Nat) (starts : List α) : List α :=
  explore succ fuel (enqueue starts ([], []))

structure Frontier (succ : α → List α) (starts univ queue seen : List α) : Prop where
  nodup : seen.Nodup
  within : ∀ v ∈ seen, v ∈ univ
  queued : ∀ v ∈ queue, v ∈ seen
  found : ∀ v ∈ seen, ∃ s ∈ starts, ReflTransGen (fun a b => b ∈ succ a) s v
  done : ∀ v ∈ seen, v ∈ queue ∨ ∀ t ∈ succ v, t ∈ seen

theorem enqueue_spec (targets queue seen : List α) :
    ∃ fresh, enqueue targets (queue, seen) = (queue ++ fresh, seen ++ fresh) ∧ (∀ t ∈ fresh, t ∈ targets) ∧
      (seen.Nodup → (seen ++ fresh).Nodup) ∧ ∀ t ∈ targets, t ∈ seen ++ fresh := by
  induction targets generalizing queue seen with
  | nil => exact ⟨[], by simp [enqueue], by simp, by simp, by simp⟩
  | cons t rest ih =>
    unfold enqueue
    split
    case isTrue hseen =>
      obtain ⟨fresh, heq, hmem, hnodup, hall⟩ := ih queue seen
      refine ⟨fresh, heq, fun u hu => mem_cons_of_mem t (hmem u hu), hnodup, ?_⟩
      exact forall_mem_cons.mpr ⟨mem_append_left fresh hseen, hall⟩
    case isFalse hunseen =>
      obtain ⟨fresh, heq, hmem, hnodup, hall⟩ := ih (queue ++ [t]) (seen ++ [t])
      rw [append_assoc, append_assoc] at heq
      rw [append_assoc] at hnodup hall
      refine ⟨t :: fresh, heq, ?_, fun hseen => hnodup ?_, forall_mem_cons.mpr ⟨by simp, hall⟩⟩
      · exact forall_mem_cons.mpr ⟨mem_cons_self, fun u hu => mem_cons_of_mem t (hmem u hu)⟩
      · exact hseen.append (nodup_singleton t) (by simpa using hunseen)

omit [DecidableEq α] in
theorem Frontier.length_le (h : Frontier succ starts univ queue seen) : seen.length ≤ univ.length :=
  (h.nodup.subperm h.within).length_le

theorem frontier_starts {succ : α → List α} (hstarts : ∀ s ∈ starts, s ∈ univ) : ∃ fresh, enqueue starts ([], []) = (fresh, fresh) ∧
    Frontier succ starts univ fresh fresh ∧ ∀ s ∈ starts, s ∈ fresh := by
  obtain ⟨fresh, heq, hmem, hnodup, hall⟩ := enqueue_spec starts [] []
  refine ⟨fresh, heq, ?_, hall⟩
  exact ⟨hnodup nodup_nil, fun v hv => hstarts v (hmem v hv), fun _ => id, fun v hv => ⟨v, hmem v hv, .refl⟩, fun _ => .inl⟩

theorem Frontier.visit (h : Frontier succ starts univ (v :: queue) seen)
    (hclosed : ∀ v ∈ univ, ∀ t ∈ succ v, t ∈ univ) : ∃ fresh,
    enqueue (succ v) (queue, seen) = (queue ++ fresh, seen ++ fresh) ∧
    Frontier succ starts univ (queue ++ fresh) (seen ++ fresh) := by
  have hv : v ∈ seen := h.queued v mem_cons_self
  obtain ⟨fresh, heq, hmem, hnodup, hall⟩ := enqueue_spec (succ v) queue seen
  refine ⟨fresh, heq, ?_⟩
  exact {
    nodup := hnodup h.nodup
    within := forall_mem_append.mpr ⟨h.within, fun t ht => hclosed v (h.within v hv) t (hmem t ht)⟩
    queued := by
      refine forall_mem_append.mpr ⟨fun u hu => ?_, fun u hu => mem_append_right seen hu⟩
      exact mem_append_left fresh (h.queued u (mem_cons_of_mem v hu))
    found := by
      refine forall_mem_append.mpr ⟨h.found, fun t ht => ?_⟩
      obtain ⟨s, hs, hreach⟩ := h.found v hv
      exact ⟨s, hs, hreach.tail (hmem t ht)⟩
    done := by
      refine forall_mem_append.mpr ⟨fun u hu => ?_, fun u hu => .inl (mem_append_right queue hu)⟩
      rcases h.done u hu with hqueued | hdone
      · rcases mem_cons.mp hqueued with rfl | hrest
        · exact .inr hall
        · exact .inl (mem_append_left fresh hrest)
      · exact .inr fun t ht => mem_append_left fresh (hdone t ht) }

theorem explore_spec (hclosed : ∀ v ∈ univ, ∀ t ∈ succ v, t ∈ univ) (fuel : Nat)
    (h : Frontier succ starts univ queue seen) (hfuel : queue.length + univ.length ≤ fuel + seen.length) :
    Frontier succ starts univ [] (explore succ fuel (queue, seen)) ∧ ∀ v ∈ seen, v ∈ explore succ fuel (queue, seen) := by
  induction fuel generalizing queue seen with
  | zero =>
    have hle := h.length_le
    have hempty : queue = [] := eq_nil_of_length_eq_zero (by omega)
    subst hempty
    exact ⟨h, fun _ => id⟩
  | succ fuel ih =>
    cases queue with
    | nil => exact ⟨h, fun _ => id⟩
    | cons v queue =>
      obtain ⟨fresh, heq, hnext⟩ := h.visit hclosed
      have hstep : explore succ (fuel + 1) (v :: queue, seen) = explore succ fuel (queue ++ fresh, seen ++ fresh) := by
        rw [explore, heq]
      simp only [length_cons] at hfuel
      obtain ⟨hend, hkept⟩ := ih hnext (by simp only [length_append]; omega)
      rw [hstep]
      exact ⟨hend, fun u hu => hkept u (mem_append_left fresh hu)⟩

omit [DecidableEq α] in
theorem Frontier.mem_iff (h : Frontier succ starts univ [] seen) (hstarts : ∀ s ∈ starts, s ∈ seen) (v : α) :
    v ∈ seen ↔ ∃ s ∈ starts, ReflTransGen (fun a b => b ∈ succ a) s v := by
  refine ⟨h.found v, ?_⟩
  rintro ⟨s, hs, hreach⟩
  induction hreach with
  | refl => exact hstarts s hs
  | tail _ hedge ih =>
    rcases h.done _ ih with hqueued | hdone
    · cases hqueued
    · exact hdone _ hedge

theorem mem_reach_iff (hclosed : ∀ v ∈ univ, ∀ t ∈ succ v, t ∈ univ) (hstarts : ∀ s ∈ starts, s ∈ univ) (v : α) :
    v ∈ reach succ univ.length starts ↔ ∃ s ∈ starts, ReflTransGen (fun a b => b ∈ succ a) s v := by
  obtain ⟨fresh, heq, hfrontier, hall⟩ := frontier_starts hstarts
  obtain ⟨hend, hkept⟩ := explore_spec hclosed univ.length hfrontier (Nat.le_of_eq (Nat.add_comm _ _))
  rw [reach, heq]
  exact hend.mem_iff (fun s hs => hkept s (hall s hs)) v

section

variable {stop mark : α → Bool}

def searchUntil (succ : α → List α) (stop mark : α → Bool) : Nat → List α × List α → Bool → Bool × Bool
  | fuel + 1, (v :: queue, seen), marked =>
      if stop v then (true, marked)
      else searchUntil succ stop mark fuel (enqueue (succ v) (queue, seen)) (marked || mark v)
  | _, _, marked => (false, marked)

theorem searchUntil_nil :
    searchUntil succ stop mark fuel ([], seen) marked = (false, marked) := by
  cases fuel <;> rfl

theorem searchUntil_spec (hclosed : ∀ v ∈ univ, ∀ t ∈ succ v, t ∈ univ)
    (h : Frontier succ starts univ queue (visited ++ queue))
    (hfuel : queue.length + univ.length ≤ fuel + (visited ++ queue).length) (hvisited : ∀ v ∈ visited, stop v = false) :
    ((searchUntil succ stop mark fuel (queue, visited ++ queue) (visited.any mark)).1 ∧
      ∃ s ∈ starts, ∃ v, ReflTransGen (fun a b => b ∈ succ a) s v ∧ stop v) ∨
    ∃ seen, Frontier succ starts univ [] seen ∧ (∀ v ∈ visited ++ queue, v ∈ seen) ∧ (∀ v ∈ seen, stop v = false) ∧
      searchUntil succ stop mark fuel (queue, visited ++ queue) (visited.any mark) = (false, seen.any mark) := by
  induction fuel generalizing queue visited with
  | zero =>
    have hle := h.length_le
    have hnil : queue = [] := eq_nil_of_length_eq_zero (by omega)
    subst hnil
    rw [append_nil] at h ⊢
    exact .inr ⟨visited, h, fun _ => id, hvisited, searchUntil_nil⟩
  | succ fuel ih =>
    cases queue with
    | nil =>
      rw [append_nil] at h ⊢
      exact .inr ⟨visited, h, fun _ => id, hvisited, searchUntil_nil⟩
    | cons v queue =>
      unfold searchUntil
      cases hstop : stop v with
      | true =>
        obtain ⟨s, hs, hreach⟩ := h.found v (mem_append_right visited mem_cons_self)
        exact .inl ⟨rfl, s, hs, v, hreach, hstop⟩
      | false =>
        obtain ⟨fresh, heq, hnext⟩ := h.visit hclosed
        have hsplit : visited ++ v :: queue ++ fresh = visited ++ [v] ++ (queue ++ fresh) := by simp
        have hmarked : (visited.any mark || mark v) = (visited ++ [v]).any mark := by simp
        rw [hsplit] at heq hnext
        simp only [length_append, length_cons] at hfuel
        rw [heq, hmarked]
        have hclear : ∀ u ∈ visited ++ [v], stop u = false := by
          intro u hu
          rcases mem_append.mp hu with hu | hu
          · exact hvisited u hu
          · rwa [mem_singleton.mp hu]
        rcases ih hnext (by simp only [length_append, length_cons, length_nil]; omega) hclear with hfound | hdone
        · exact .inl hfound
        · obtain ⟨seen, hend, hkept, hout⟩ := hdone
          refine .inr ⟨seen, hend, fun u hu => hkept u ?_, hout⟩
          rw [← hsplit]
          exact mem_append_left fresh hu

theorem searchUntil_start (hclosed : ∀ v ∈ univ, ∀ t ∈ succ v, t ∈ univ) (hs : s ∈ univ) :
    ((searchUntil succ stop mark univ.length ([s], [s]) false).1 ∧
    ∃ v, ReflTransGen (fun a b => b ∈ succ a) s v ∧ stop v) ∨
    ((searchUntil succ stop mark univ.length ([s], [s]) false).1 = false ∧
    (∀ v, ReflTransGen (fun a b => b ∈ succ a) s v → stop v = false) ∧
    ((searchUntil succ stop mark univ.length ([s], [s]) false).2 ↔
    ∃ v, ReflTransGen (fun a b => b ∈ succ a) s v ∧ mark v)) := by
  have hstart : Frontier succ [s] univ [s] ([] ++ [s]) := by
    refine ⟨nodup_singleton s, by simpa using hs, fun _ => id, fun v hv => ⟨v, hv, .refl⟩, fun _ => .inl⟩
  rcases searchUntil_spec hclosed hstart (Nat.le_of_eq (Nat.add_comm _ _)) (by simp) with
    ⟨hfound, s', hs', v, hreach, hstop⟩ | ⟨seen, hend, hkept, hclear, hout⟩
  · rw [mem_singleton.mp hs'] at hreach
    exact .inl ⟨hfound, v, hreach, hstop⟩
  · have hmem (v : α) : v ∈ seen ↔ ReflTransGen (fun a b => b ∈ succ a) s v := by
      rw [hend.mem_iff hkept]
      simp
    have hout : searchUntil succ stop mark univ.length ([s], [s]) false = (false, seen.any mark) := hout
    rw [hout]
    refine .inr ⟨rfl, fun v hv => hclear v ((hmem v).mpr hv), ?_⟩
    simp only [any_eq_true, hmem]

end

end Praxec.Graph.Bfs
