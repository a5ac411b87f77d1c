import Mathlib.Logic.Relation
import Praxec.LockScheduler

namespace Praxec.LockQueue

open List Relation

/-- Calls of `enqueue_with_mode` that have drawn their number and not pushed their waiter, and the scheduler. -/
structure Calls where
  scheduler : LockScheduler := .new
  drawn : List Waiter := []

def Calls.queue (s : Calls) : List Waiter :=
  s.scheduler.queue

def Calls.draw (s : Calls) (w : Waiter) : Calls :=
  ⟨{ s.scheduler with seq := s.scheduler.seq + 1 }, s.drawn ++ [{ w with seq := s.scheduler.seq }]⟩

def Calls.push (s : Calls) (w : Waiter) : Calls :=
  ⟨{ s.scheduler with queue := (s.queue.filter fun v => v.workflowId ≠ w.workflowId) ++ [w] }, s.drawn.erase w⟩

def Calls.take (s : Calls) (held : List Path) : Calls :=
  { s with scheduler := (s.scheduler.takeReady held).2 }

inductive Step (ok : Calls → Waiter → Prop) : Calls → Calls → Prop
  | draw (s : Calls) (w : Waiter) : Step ok s (s.draw w)
  | push (s : Calls) (w : Waiter) (hw : w ∈ s.drawn) (hok : ok s w) : Step ok s (s.push w)
  | take (s : Calls) (held : List Path) : Step ok s (s.take held)

/-- A draw and a push with nothing between them are a whole call. -/
theorem push_draw (s : LockScheduler) (workflowId transition : String) (files : List Path) (principal : Principal)
    (mode : AcquireMode) : ((Calls.mk s []).draw ⟨0, workflowId, transition, files, principal, mode⟩).push
      ⟨s.seq, workflowId, transition, files, principal, mode⟩ =
    ⟨s.enqueueWithMode workflowId transition files principal mode, []⟩ := by
  simp [Calls.draw, Calls.push, Calls.queue, LockScheduler.enqueueWithMode]

theorem take_eq (s : Calls) (held : List Path) :
    s.take held = ⟨{ s.scheduler with queue := s.queue.eraseP fun w => w.ready held }, s.drawn⟩ := by
  unfold Calls.take Calls.queue LockScheduler.takeReady
  split
  · rfl
  · rename_i hnone
    rw [eraseP_of_forall_not (by simpa using find?_eq_none.mp hnone)]

variable {ok : Calls → Waiter → Prop} {s s' : Calls} {R : Waiter → Waiter → Prop}

/-- A step keeps entries in their order and pushes at the end, so it keeps what relates each entry to those after it. -/
theorem Step.pairwise (h : Step ok s s') (hs : s.queue.Pairwise R)
    (hnew : ∀ w, ok s w → ∀ v ∈ s.queue, v.workflowId ≠ w.workflowId → R v w) : s'.queue.Pairwise R := by
  cases h with
  | draw w => exact hs
  | push w hw hok =>
    refine pairwise_append.mpr ⟨hs.sublist filter_sublist, pairwise_singleton _ _, fun v hv u hu => ?_⟩
    rw [mem_singleton.mp hu]
    obtain ⟨hv, hne⟩ := mem_filter.mp hv
    exact hnew w hok v hv (of_decide_eq_true hne)
  | take held =>
    rw [take_eq]
    exact hs.sublist eraseP_sublist

theorem pairwise_of_run (h : ReflTransGen (Step ok) s s') (hs : s.queue.Pairwise R)
    (hnew : ∀ s w, ok s w → ∀ v ∈ s.queue, v.workflowId ≠ w.workflowId → R v w) : s'.queue.Pairwise R := by
  induction h with
  | refl => exact hs
  | tail _ hstep ih => exact hstep.pairwise ih (hnew _)

def Numbered (s : Calls) : Prop :=
  ∀ w, w ∈ s.queue ∨ w ∈ s.drawn → w.seq < s.scheduler.seq

theorem Step.numbered (h : Step ok s s') (hs : Numbered s) : Numbered s' := by
  cases h with
  | draw w =>
    intro v hv
    rcases hv with hv | hv
    · exact Nat.lt_succ_of_lt (hs v (.inl hv))
    · rcases mem_append.mp hv with hv | hv
      · exact Nat.lt_succ_of_lt (hs v (.inr hv))
      · rw [mem_singleton.mp hv]
        exact Nat.lt_succ_self _
  | push w hw _ =>
    intro v hv
    rcases hv with hv | hv
    · rcases mem_append.mp hv with hv | hv
      · exact hs v (.inl (mem_of_mem_filter hv))
      · rw [mem_singleton.mp hv]
        exact hs w (.inr hw)
    · exact hs v (.inr (mem_of_mem_erase hv))
  | take held =>
    rw [take_eq]
    intro v hv
    exact hs v (hv.imp_left mem_of_mem_eraseP)

theorem numbered_of_run (h : ReflTransGen (Step ok) {} s) : Numbered s := by
  induction h with
  | refl => simp [Numbered, Calls.queue, LockScheduler.new]
  | tail _ hstep ih => exact hstep.numbered ih

theorem seq_le_of_run (h : ReflTransGen (Step ok) s s') : s.scheduler.seq ≤ s'.scheduler.seq := by
  induction h with
  | refl => exact Nat.le_refl _
  | tail _ hstep ih =>
    apply Nat.le_trans ih
    cases hstep with
    | draw w => exact Nat.le_succ _
    | push w _ _ => exact Nat.le_refl _
    | take held => exact Nat.le_of_eq (by rw [take_eq])

theorem takeReady_split {w : Waiter} {held : List Path} (h : (s.scheduler.takeReady held).1 = some w) :
    w.ready held ∧ ∃ before after, s.queue = before ++ w :: after ∧ ∀ v ∈ before, ¬ v.ready held := by
  have hfind : s.queue.find? (fun w => w.ready held) = some w := by
    unfold LockScheduler.takeReady at h
    split at h
    · rename_i hv
      exact hv.trans h
    · cases h
  simpa using find?_eq_some_iff_append.mp hfind

/-- Entries relate to those after them, so the served one relates to every other ready one. -/
theorem takeReady_pairwise {v w : Waiter} {held : List Path} (hs : s.queue.Pairwise R) (hv : v ∈ s.queue)
    (hready : v.ready held) (h : (s.scheduler.takeReady held).1 = some w) : v = w ∨ R w v := by
  obtain ⟨_, before, after, hq, hbefore⟩ := takeReady_split h
  rw [hq] at hs hv
  rcases mem_append.mp hv with hv | hv
  · exact absurd hready (hbefore v hv)
  · rcases mem_cons.mp hv with hv | hv
    · exact .inl hv
    · exact .inr (rel_of_pairwise_cons (pairwise_append.mp hs).2.1 hv)

/-- A take serves a ready entry whenever there is one, and it is the one with the least number. -/
def ServesLeast (s : Calls) : Prop :=
  ∀ held, match (s.scheduler.takeReady held).1 with
    | some w => w ∈ s.queue ∧ w.ready held ∧ ∀ v ∈ s.queue, v.ready held → w.seq ≤ v.seq
    | none => ∀ v ∈ s.queue, ¬ v.ready held

/-- A take never serves a waiter whose call began after `s`, while `a`, queued at `s`, is there and ready. -/
def Keeps (s : Calls) (a : Waiter) : Prop :=
  ∀ t w u held, ReflTransGen (Step fun _ v => v.workflowId ≠ a.workflowId) s t →
    ReflTransGen (Step fun _ v => v.workflowId ≠ a.workflowId) (t.draw w) u → a ∈ u.queue → a.ready held →
    (u.scheduler.takeReady held).1 ≠ some { w with seq := t.scheduler.seq }

/-- No other workflow's waiter with a larger number is queued. -/
def InOrder (s : Calls) (w : Waiter) : Prop :=
  ∀ v ∈ s.queue, v.workflowId ≠ w.workflowId → v.seq < w.seq

theorem lockQueue_fair (s : Calls) :
    (ReflTransGen (Step fun _ _ => True) {} s →
      s.queue.Pairwise (·.workflowId ≠ ·.workflowId) ∧ ∀ a ∈ s.queue, Keeps s a) ∧
    (ReflTransGen (Step InOrder) {} s → ServesLeast s) := by
  refine ⟨fun h => ⟨pairwise_of_run h .nil fun _ _ _ _ _ hne => hne, fun a ha t w u held hst htu hau hready hw => ?_⟩,
    fun h held => ?_⟩
  · have hnum := numbered_of_run h
    have hle := seq_le_of_run hst
    have hpair : u.queue.Pairwise fun v v' => v' = a → v.seq < s.scheduler.seq := by
      apply pairwise_of_run ((hst.tail (.draw t w)).trans htu)
      · exact pairwise_of_forall_mem_list fun v hv _ _ _ => hnum v (.inl hv)
      · intro _ v hv _ _ _ heq
        exact absurd (congrArg _ heq) hv
    rcases takeReady_pairwise hpair hau hready hw with heq | hlt
    · have hlt := hnum a (.inl ha)
      rw [heq] at hlt
      exact absurd hle (Nat.not_le.mpr hlt)
    · exact absurd hle (Nat.not_le.mpr (hlt rfl))
  · have hsorted : s.queue.Pairwise (·.seq < ·.seq) := pairwise_of_run h .nil fun _ _ hok => hok
    split
    · rename_i w hw
      obtain ⟨hready, before, after, hq, _⟩ := takeReady_split hw
      refine ⟨by simp [hq], hready, fun v hv hv' => ?_⟩
      rcases takeReady_pairwise hsorted hv hv' hw with heq | hlt
      · exact Nat.le_of_eq (congrArg _ heq.symm)
      · exact Nat.le_of_lt hlt
    · rename_i hnone
      unfold LockScheduler.takeReady at hnone
      split at hnone
      · cases hnone
      · rename_i hfind
        exact find?_eq_none.mp hfind

def editing (seq : Nat) (workflowId : String) : Waiter :=
  ⟨seq, workflowId, "edit", ["a"], .anonymous, .all⟩

def inTurn : Calls :=
  ((({} : Calls).draw (editing 0 "A")).push (editing 0 "A")).draw (editing 1 "B") |>.push (editing 1 "B")

theorem inTurn_fair : ServesLeast inTurn ∧ (inTurn.scheduler.takeReady []).1 = some (editing 0 "A") := by
  refine ⟨(lockQueue_fair _).2 ?_, by decide⟩
  exact .tail (.tail (.tail (.single (.draw _ _)) (.push _ _ (by decide) (by unfold InOrder; decide))) (.draw _ _))
    (.push _ _ (by decide) (by unfold InOrder; decide))

def overtaken : Calls :=
  ((({} : Calls).draw (editing 0 "A")).draw (editing 1 "B")).push (editing 1 "B") |>.push (editing 0 "A")

theorem overtaken_served_last :
    ¬ ∀ s, ReflTransGen (Step fun _ _ => True) {} s → ServesLeast s := by
  intro h
  have hserves := h overtaken (.tail (.tail (.tail (.single (.draw _ _)) (.draw _ _))
    (.push _ _ (by decide) trivial)) (.push _ _ (by decide) trivial)) []
  exact absurd (hserves.2.2 (editing 0 "A") (by decide) rfl) (by decide)

/-- Runs that never serve `a` and in which its workflow pushes nothing, with how many takes found it ready. -/
inductive Waits (a : Waiter) (s : Calls) : Nat → Calls → Prop
  | start : Waits a s 0 s
  | draw {t : Calls} (h : Waits a s n t) (w : Waiter) : Waits a s n (t.draw w)
  | push {t : Calls} (h : Waits a s n t) (hw : w ∈ t.drawn) (hne : w.workflowId ≠ a.workflowId) : Waits a s n (t.push w)
  | take {t : Calls} (h : Waits a s n t) (hother : (t.scheduler.takeReady held).1 ≠ some a) :
      Waits a s (n + if a.ready held then 1 else 0) (t.take held)

variable {t : Calls} {a : Waiter} {before after : List Waiter}

theorem takeReady_fst (held : List Path) :
    (t.scheduler.takeReady held).1 = t.queue.find? fun w => w.ready held := by
  unfold LockScheduler.takeReady
  split <;> rename_i h <;> exact h.symm

/-- While `a` is ready, a take that serves another serves one that stands before it. -/
theorem take_ahead {held : List Path} (ht : t.queue = before ++ a :: after)
    (hother : (t.scheduler.takeReady held).1 ≠ some a) :
    ∃ before' after', (t.take held).queue = before' ++ a :: after' ∧
      (if a.ready held then 1 else 0) + before'.length ≤ before.length := by
  have htaken : (t.take held).queue = t.queue.eraseP fun w => w.ready held := by rw [take_eq]; rfl
  rw [htaken, ht, eraseP_append]
  split
  · rename_i hany
    obtain ⟨v, hv, hready⟩ := any_eq_true.mp hany
    have hpos := length_pos_of_mem hv
    refine ⟨_, after, rfl, ?_⟩
    rw [length_eraseP_of_mem hv hready]
    split <;> omega
  · rename_i hnone
    have ha : ¬ a.ready held := by
      intro ha
      rw [takeReady_fst, Ne, find?_eq_some_iff_append] at hother
      exact hother ⟨ha, before, after, ht, by simpa using hnone⟩
    exact ⟨before, _, by rw [eraseP_cons_of_neg (p := fun w : Waiter => w.ready held) ha], by simp [ha]⟩

/-- However calls interleave, a queued waiter is passed over while ready at most once for each entry before it. -/
theorem passed_over_at_most (h : Waits a s n t) (hs : s.queue = before ++ a :: after) :
    ∃ before' after', t.queue = before' ++ a :: after' ∧ n + before'.length ≤ before.length := by
  induction h with
  | start => exact ⟨before, after, hs, by omega⟩
  | draw _ w ih => exact ih
  | @push n w t _ _ hne ih =>
    obtain ⟨before', after', ht, hle⟩ := ih
    have hpushed : (t.push w).queue = t.queue.filter (fun v => v.workflowId ≠ w.workflowId) ++ [w] := rfl
    rw [hpushed, ht, filter_append, filter_cons_of_pos (by simpa using hne.symm), append_assoc, cons_append]
    exact ⟨_, _, rfl, Nat.le_trans (Nat.add_le_add_left (length_filter_le _ _) _) hle⟩
  | take _ hother ih =>
    obtain ⟨_, _, ht, hle⟩ := ih
    obtain ⟨before', after', htaken, hless⟩ := take_ahead ht hother
    exact ⟨before', after', htaken, by omega⟩

theorem second_passed_over_once : ∃ before after, (inTurn.take []).queue = before ++ editing 1 "B" :: after ∧
    1 + before.length ≤ 1 := by
  have hother : (inTurn.scheduler.takeReady []).1 ≠ some (editing 1 "B") := by decide
  exact passed_over_at_most (.take .start hother) (show inTurn.queue = [editing 0 "A"] ++ editing 1 "B" :: [] from rfl)

end Praxec.LockQueue
