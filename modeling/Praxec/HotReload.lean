import Mathlib.Logic.Function.Basic
import Mathlib.Logic.Relation

namespace Praxec.HotReload

open Function Relation

structure TrackerState (P : Type) where
  lastChecked : Nat
  tracked : List (P × Nat)

def shouldCheck (lastChecked now ttl : Nat) : Bool :=
  ttl ≤ now - lastChecked

def isStale (tracked : List (P × Nat)) (nowMtimes : P → Option Nat) : Bool :=
  tracked.any fun (path, captured) => match nowMtimes path with
    | some current => captured < current
    | none => false

def captureMtimes (paths : List P) (fsMtime : P → Option Nat) : List (P × Nat) :=
  paths.filterMap fun p => (fsMtime p).map (p, ·)

def staleCheckDue (ttl : Nat) (state : TrackerState P) (now : Nat) (fsMtime : P → Option Nat) :
    Bool × TrackerState P :=
  if shouldCheck state.lastChecked now ttl then (isStale state.tracked fsMtime, { state with lastChecked := now })
  else (false, state)

/-- The gateway and its config files: their mtimes, when each was last written, and the mtimes at which the last
reload has read them so far. -/
structure Serving (P : Type) where
  now : Nat
  disk : P → Nat
  wrote : P → Nat
  read : P → Option Nat
  tracker : TrackerState P

def Serving.recapture (files : List P) (s : Serving P) : Serving P :=
  { s with tracker := ⟨s.now, captureMtimes files fun p => some (s.disk p)⟩ }

/-- The staleness hook: a stale answer starts a reload, which has read nothing yet. -/
def Serving.probe (ttl : Nat) (s : Serving P) : Bool × Serving P :=
  let due := staleCheckDue ttl s.tracker s.now fun p => some (s.disk p)
  (due.1, { s with tracker := due.2, read := if due.1 then fun _ => none else s.read })

inductive Step [DecidableEq P] (ttl : Nat) (files : List P) (ok : Serving P → Prop) :
    Serving P → Serving P → Prop
  | tick (s) (d : Nat) : Step ttl files ok s { s with now := s.now + d }
  | write (s) (p : P) (mtime : Nat) (h : s.disk p < mtime) :
      Step ttl files ok s { s with disk := update s.disk p mtime, wrote := update s.wrote p s.now }
  | reload (s) : Step ttl files ok s { s with read := fun _ => none }
  | read (s) (p : P) : Step ttl files ok s { s with read := update s.read p (some (s.disk p)) }
  | recapture (s) (h : ok s) : Step ttl files ok s (s.recapture files)
  | probe (s) : Step ttl files ok s (s.probe ttl).2

variable {files : List P} {s s' start : Serving P}

/-- The last write to `p` came after the last reload had read it. -/
def Edited (s : Serving P) (p : P) : Prop :=
  ∃ mtime, s.read p = some mtime ∧ mtime < s.disk p

/-- No file has been written since the last reload read it. -/
def Unwritten (files : List P) (s : Serving P) : Prop :=
  ∀ p ∈ files, ¬ Edited s p

/-- Every file is tracked, and an edit is newer than its baseline and than the last probe. -/
structure Tracks (files : List P) (s : Serving P) : Prop where
  checked : s.tracker.lastChecked ≤ s.now
  captured : ∀ p ∈ files, ∃ mtime ≤ s.disk p, (p, mtime) ∈ s.tracker.tracked
  edited : ∀ p ∈ files, Edited s p →
    s.tracker.lastChecked ≤ s.wrote p ∧ ∃ mtime < s.disk p, (p, mtime) ∈ s.tracker.tracked

theorem Unwritten.tracks (h : Unwritten files s) : Tracks files (s.recapture files) where
  checked := Nat.le_refl _
  captured p hp := ⟨s.disk p, Nat.le_refl _, List.mem_filterMap.mpr ⟨p, hp, rfl⟩⟩
  edited p hp hedited := absurd hedited (h p hp)

theorem isStale_of_mem (h : (p, mtime) ∈ s.tracker.tracked) (hlt : mtime < s.disk p) :
    isStale s.tracker.tracked fun p => some (s.disk p) :=
  List.any_eq_true.mpr ⟨_, h, decide_eq_true hlt⟩

theorem Tracks.probe (h : Tracks files s) : Tracks files (s.probe ttl).2 := by
  unfold Serving.probe staleCheckDue
  split
  · refine ⟨Nat.le_refl _, h.captured, fun p hp ⟨mtime, hread, hlt⟩ => ?_⟩
    dsimp only at hread
    split at hread
    · cases hread
    · rename_i hfresh
      obtain ⟨-, c, hc, hmem⟩ := h.edited p hp ⟨mtime, hread, hlt⟩
      exact absurd (isStale_of_mem hmem hc) hfresh
  · exact h

variable [DecidableEq P]

theorem Tracks.write (h : Tracks files s) (hlt : s.disk p < mtime) :
    Tracks files { s with disk := update s.disk p mtime, wrote := update s.wrote p s.now } := by
  refine ⟨h.checked, fun q hq => ?_, fun q hq hedited => ?_⟩
  · obtain ⟨c, hc, hmem⟩ := h.captured q hq
    refine ⟨c, ?_, hmem⟩
    by_cases hqp : q = p
    · subst hqp
      simp only [update_self]
      omega
    · simpa [hqp] using hc
  · obtain ⟨r, hread, hr⟩ := hedited
    by_cases hqp : q = p
    · subst hqp
      obtain ⟨c, hc, hmem⟩ := h.captured q hq
      simp only [update_self]
      exact ⟨h.checked, c, Nat.lt_of_le_of_lt hc hlt, hmem⟩
    · simp only [update_of_ne hqp] at hr ⊢
      exact h.edited q hq ⟨r, hread, hr⟩

theorem Step.tracks (hstep : Step ttl files (Unwritten files) s s') (h : Tracks files s) : Tracks files s' := by
  cases hstep with
  | tick d => exact ⟨Nat.le_add_right_of_le h.checked, h.captured, h.edited⟩
  | write p mtime hlt => exact h.write hlt
  | reload => exact ⟨h.checked, h.captured, fun _ _ ⟨_, hread, _⟩ => by cases hread⟩
  | read p =>
    refine ⟨h.checked, h.captured, fun q hq ⟨r, hread, hr⟩ => ?_⟩
    by_cases hqp : q = p
    · subst hqp
      cases (update_self q _ s.read).symm.trans hread
      exact absurd hr (Nat.lt_irrefl _)
    · exact h.edited q hq ⟨r, by simpa [hqp] using hread, hr⟩
  | recapture hok => exact hok.tracks
  | probe => exact h.probe

theorem tracks_of_run (hstart : Unwritten files start)
    (hrun : ReflTransGen (Step ttl files (Unwritten files)) (start.recapture files) s) : Tracks files s := by
  induction hrun with
  | refl => exact hstart.tracks
  | tail _ hstep ih => exact hstep.tracks ih

/-- If the baseline is never captured while some file has been written since the last reload read it, every edit is
noticed. -/
theorem edit_noticed (hstart : Unwritten files start)
    (hrun : ReflTransGen (Step ttl files (Unwritten files)) (start.recapture files) s)
    (hp : p ∈ files) (hedited : Edited s p) (hlate : s.wrote p + ttl ≤ s.now) :
    (s.probe ttl).1 = true ∧ ∀ q, (s.probe ttl).2.read q = none := by
  obtain ⟨hchecked, c, hc, hmem⟩ := (tracks_of_run hstart hrun).edited p hp hedited
  have hdue : shouldCheck s.tracker.lastChecked s.now ttl := decide_eq_true (by omega)
  simp [Serving.probe, staleCheckDue, hdue, isStale_of_mem hmem hc]

def loaded : Serving String :=
  ⟨0, fun _ => 1, fun _ => 0, fun _ => some 1, ⟨0, []⟩⟩

theorem edit_after_capture_noticed : ∃ s, ReflTransGen (Step 10 ["praxec.yaml"] fun _ => True)
    (loaded.recapture ["praxec.yaml"]) s ∧ Edited s "praxec.yaml" ∧ (s.probe 10).1 = true := by
  have hloaded : Unwritten ["praxec.yaml"] loaded := by
    intro p _ ⟨mtime, hread, hlt⟩
    cases hread
    exact absurd hlt (Nat.lt_irrefl 1)
  refine ⟨_, .tail (.single (.write _ "praxec.yaml" 2 (by decide))) (.tick _ 11), ⟨1, rfl, by decide⟩, ?_⟩
  exact (edit_noticed hloaded (.tail (.single (.write _ "praxec.yaml" 2 (by decide))) (.tick _ 11)) (.head _)
    ⟨1, rfl, by decide⟩ (by decide)).1

end Praxec.HotReload
