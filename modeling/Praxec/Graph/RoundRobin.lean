import Mathlib.Data.List.Basic
import Mathlib.Data.List.Nodup
import Mathlib.Data.List.ProdSigma

namespace Praxec.Graph.RoundRobin

open List Nat

variable {α β : Type} [DecidableEq α] [DecidableEq β]

abbrev Table (α β : Type) := List (α × List β)

namespace Table

def get (t : Table α β) (a : α) : Option (List β) :=
  t.lookup a

def gathered (t : Table α β) (a : α) : List β :=
  (t.get a).getD []

def put : Table α β → α → List β → Table α β
  | [], a, l => [(a, l)]
  | (b, m) :: rest, a, l => if a = b then (a, l) :: rest else (b, m) :: put rest a l

omit [DecidableEq β] in
theorem get_cons (c : α) (m : List β) (rest : Table α β) (b : α) :
    get ((c, m) :: rest) b = if b = c then some m else get rest b := by
  unfold get
  rw [lookup_cons]
  by_cases h : b = c
  · simp [h]
  · simp [h, beq_false_of_ne h]

omit [DecidableEq β] in
theorem get_put (t : Table α β) (a b : α) (l : List β) : (t.put a l).get b = if b = a then some l else t.get b := by
  induction t with
  | nil => rw [put, get_cons]
  | cons entry rest ih =>
    obtain ⟨c, m⟩ := entry
    unfold put
    by_cases hc : a = c
    · subst hc
      rw [if_pos rfl, get_cons, get_cons]
      split <;> rfl
    · rw [if_neg hc, get_cons, get_cons, ih]
      split
      · rename_i hb
        rw [if_neg (hb ▸ Ne.symm hc)]
      · rfl

/-- The table has the nodes that `By` finds, and at each what it finds there. -/
structure Shows (t : Table α β) (By : α → List β → Prop) : Prop where
  entered : ∀ a, (t.get a).isSome = true ↔ ∃ l, By a l
  gathered : ∀ a x, x ∈ t.gathered a ↔ ∃ l, By a l ∧ x ∈ l

omit [DecidableEq β] in
theorem Shows.congr {t : Table α β} {By By' : α → List β → Prop} (h : t.Shows By) (heq : ∀ a l, By a l ↔ By' a l) :
    t.Shows By' := by
  have hsame : By = By' := funext fun a => funext fun l => propext (heq a l)
  exact hsame ▸ h

end Table

def merge (t : Table α β) (b : α) (slots : List β) : Table α β × Bool :=
  (t.put b (t.gathered b ++ slots.filter (· ∉ t.gathered b)), slots.any (· ∉ t.gathered b))

def deliver (held : List β) (s : Table α β × Bool) (edge : α × List β) : Table α β × Bool :=
  let merged := merge s.1 edge.1 (held ++ edge.2)
  (merged.1, s.2 || merged.2)

section

variable (order : List α) (out : α → List (α × List β))

def visit (s : Table α β × Bool) (a : α) : Table α β × Bool :=
  match s.1.get a with
  | none => s
  | some held => (out a).foldl (deliver held) s

def pass (t : Table α β) : Table α β × Bool :=
  order.foldl (visit out) (t, false)

def propagate : Nat → Table α β → Option (Table α β)
  | 0, _ => none
  | fuel + 1, t =>
      let next := pass order out t
      if next.2 then propagate fuel next.1 else some next.1

end

section

structure Grows (s s' : Table α β × Bool) : Prop where
  kept : ∀ a x, x ∈ s.1.gathered a → x ∈ s'.1.gathered a
  flag : s'.2 = true ↔ s.2 = true ∨ ∃ a x, x ∈ s'.1.gathered a ∧ x ∉ s.1.gathered a

omit [DecidableEq β] in
theorem Grows.refl (s : Table α β × Bool) : Grows s s :=
  ⟨fun _ _ => id, by simp⟩

omit [DecidableEq β] in
theorem Grows.trans {s s' s'' : Table α β × Bool} (h : Grows s s') (h' : Grows s' s'') : Grows s s'' := by
  refine ⟨fun a x hx => h'.kept a x (h.kept a x hx), ?_⟩
  rw [h'.flag, h.flag, or_assoc]
  refine or_congr_right ⟨?_, ?_⟩
  · rintro (⟨a, x, hx, hnew⟩ | ⟨a, x, hx, hnew⟩)
    · exact ⟨a, x, h'.kept a x hx, hnew⟩
    · exact ⟨a, x, hx, fun hold => hnew (h.kept a x hold)⟩
  · intro ⟨a, x, hx, hnew⟩
    by_cases hmid : x ∈ s'.1.gathered a
    · exact .inl ⟨a, x, hmid, hnew⟩
    · exact .inr ⟨a, x, hx, hmid⟩

theorem gathered_merge {t : Table α β} {b a : α} {slots : List β} {x : β} :
    x ∈ (merge t b slots).1.gathered a ↔ x ∈ t.gathered a ∨ a = b ∧ x ∈ slots := by
  unfold merge Table.gathered
  rw [Table.get_put]
  by_cases hab : a = b
  · subst hab
    by_cases hx : x ∈ (t.get a).getD [] <;> simp [hx]
  · simp [hab]

theorem merge_flag {t : Table α β} {b : α} {slots : List β} :
    (merge t b slots).2 ↔ ∃ x ∈ slots, x ∉ t.gathered b := by
  simp [merge]

theorem deliver_grows (held : List β) (s : Table α β × Bool) (edge : α × List β) : Grows s (deliver held s edge) := by
  refine ⟨fun a x hx => gathered_merge.mpr (.inl hx), ?_⟩
  unfold deliver
  rw [Bool.or_eq_true, merge_flag]
  refine or_congr_right ⟨?_, ?_⟩
  · intro ⟨x, hx, hnew⟩
    exact ⟨edge.1, x, gathered_merge.mpr (.inr ⟨rfl, hx⟩), hnew⟩
  · intro ⟨a, x, hx, hnew⟩
    rcases gathered_merge.mp hx with hold | ⟨rfl, hslots⟩
    · exact absurd hold hnew
    · exact ⟨x, hslots, hnew⟩

omit [DecidableEq β] in
theorem foldl_grows {γ : Type} {f : Table α β × Bool → γ → Table α β × Bool} (hf : ∀ s c, Grows s (f s c)) (l : List γ)
    (s : Table α β × Bool) : Grows s (l.foldl f s) := by
  induction l generalizing s with
  | nil => exact .refl s
  | cons c l ih => exact (hf s c).trans (ih (f s c))

theorem visit_grows (out : α → List (α × List β)) (s : Table α β × Bool) (a : α) : Grows s (visit out s a) := by
  unfold visit
  split
  · exact .refl s
  · exact foldl_grows (deliver_grows _) _ s

theorem pass_grows (order : List α) (out : α → List (α × List β)) (t : Table α β) :
    Grows (t, false) (pass order out t) :=
  foldl_grows (visit_grows out) order (t, false)

end

section

variable {out : α → List (α × List β)} {t : Table α β}

theorem entered_merge {b a : α} {slots : List β} :
    ((merge t b slots).1.get a).isSome ↔ (t.get a).isSome ∨ a = b := by
  unfold merge
  rw [Table.get_put]
  by_cases hab : a = b <;> simp [hab]

theorem deliver_foldl (held : List β) (edges : List (α × List β)) (s : Table α β × Bool) (b : α) :
    (((edges.foldl (deliver held) s).1.get b).isSome ↔ (s.1.get b).isSome ∨ ∃ w, (b, w) ∈ edges) ∧
    ∀ x, x ∈ (edges.foldl (deliver held) s).1.gathered b ↔ x ∈ s.1.gathered b ∨ ∃ w, (b, w) ∈ edges ∧ x ∈ held ++ w := by
  induction edges generalizing s with
  | nil => simp
  | cons edge edges ih =>
    obtain ⟨c, w⟩ := edge
    obtain ⟨hentered, hgathered⟩ := ih (deliver held s (c, w))
    have hfirst : ((deliver held s (c, w)).1.get b).isSome ↔ (s.1.get b).isSome ∨ b = c := entered_merge
    have hput (x : β) : x ∈ (deliver held s (c, w)).1.gathered b ↔ x ∈ s.1.gathered b ∨ b = c ∧ x ∈ held ++ w :=
      gathered_merge
    rw [foldl_cons, hentered, hfirst]
    refine ⟨?_, fun x => ?_⟩
    · simp only [mem_cons, Prod.mk.injEq, exists_or, exists_and_left, exists_eq, and_true, or_assoc]
    · rw [hgathered, hput]
      simp only [mem_cons, Prod.mk.injEq, or_and_right, exists_or, or_assoc]
      refine or_congr_right (or_congr_left ?_)
      constructor
      · intro ⟨hb, hx⟩
        exact ⟨w, ⟨hb, rfl⟩, hx⟩
      · rintro ⟨_, ⟨hb, rfl⟩, hx⟩
        exact ⟨hb, hx⟩

theorem visit_shows (h : t.Shows By) {c : Bool} {a : α} :
    (visit out (t, c) a).1.Shows fun b l => By b l ∨ ∃ l₀ w, By a l₀ ∧ (b, w) ∈ out a ∧ l = l₀ ++ w := by
  unfold visit
  split
  case h_1 hget =>
    have hnone (l : List β) : ¬ By a l := fun hl => by
      have hentered := (h.entered a).mpr ⟨l, hl⟩
      rw [hget] at hentered
      cases hentered
    exact h.congr fun b l => ⟨.inl, fun hl => hl.elim id fun ⟨l₀, _, hl₀, _⟩ => absurd hl₀ (hnone l₀)⟩
  case h_2 held hget =>
    have hheld (x : β) : x ∈ held ↔ ∃ l, By a l ∧ x ∈ l := by
      rw [← h.gathered, Table.gathered, hget, Option.getD_some]
    obtain ⟨l₀, hl₀⟩ : ∃ l, By a l := (h.entered a).mp (by rw [hget]; rfl)
    refine ⟨fun b => ?_, fun b x => ?_⟩
    · rw [(deliver_foldl held (out a) (t, c) b).1, h.entered, exists_or]
      refine or_congr_right ⟨?_, ?_⟩
      · intro ⟨w, hw⟩
        exact ⟨_, l₀, w, hl₀, hw, rfl⟩
      · intro ⟨_, _, w, _, hw, _⟩
        exact ⟨w, hw⟩
    · rw [(deliver_foldl held (out a) (t, c) b).2, h.gathered]
      simp only [or_and_right, exists_or]
      refine or_congr_right ⟨?_, ?_⟩
      · intro ⟨w, hw, hx⟩
        rcases mem_append.mp hx with hx | hx
        · obtain ⟨l, hl, hxl⟩ := (hheld x).mp hx
          exact ⟨_, ⟨l, w, hl, hw, rfl⟩, mem_append_left w hxl⟩
        · exact ⟨_, ⟨l₀, w, hl₀, hw, rfl⟩, mem_append_right l₀ hx⟩
      · rintro ⟨_, ⟨l, w, hl, hw, rfl⟩, hx⟩
        refine ⟨w, hw, ?_⟩
        rcases mem_append.mp hx with hx | hx
        · exact mem_append_left w ((hheld x).mpr ⟨l, hl, hx⟩)
        · exact mem_append_right held hx

end

section

variable (order : List α) (out : α → List (α × List β)) (initial : α) (seed : List β)

inductive Path : α → List β → Prop
  | start : Path initial seed
  | step {a b : α} {l w : List β} (h : Path a l) (ha : a ∈ order) (hedge : (b, w) ∈ out a) : Path b (l ++ w)

/-- The paths that go back in the order `d` times: to a node that is not listed behind the one before it. -/
inductive Walk : Nat → α → List β → Prop
  | start : Walk 0 initial seed
  | forward {d : Nat} {a b : α} {l w : List β} (h : Walk d a l) (ha : a ∈ order) (hedge : (b, w) ∈ out a)
      (hlater : order.idxOf a < order.idxOf b) : Walk d b (l ++ w)
  | back {d : Nat} {a b : α} {l w : List β} (h : Walk d a l) (ha : a ∈ order) (hedge : (b, w) ∈ out a)
      (hearlier : order.idxOf b ≤ order.idxOf a) : Walk (d + 1) b (l ++ w)

/-- The paths that go back fewer than `r` times before their last step. -/
def Found (r : Nat) (b : α) (l : List β) : Prop :=
  (b = initial ∧ l = seed) ∨ ∃ d < r, ∃ a l₀ w, Walk order out initial seed d a l₀ ∧ a ∈ order ∧ (b, w) ∈ out a ∧ l = l₀ ++ w

/-- Besides, the paths that go back `r` times before their last step, which is from one of `first`. -/
def FoundIn (r : Nat) (first : List α) (b : α) (l : List β) : Prop :=
  Found order out initial seed r b l ∨
    ∃ a ∈ first, ∃ l₀ w, Walk order out initial seed r a l₀ ∧ (b, w) ∈ out a ∧ l = l₀ ++ w

variable {order out initial seed}

variable {r : Nat}

omit [DecidableEq β] in
theorem Found.mono (h : Found order out initial seed r b l) (hr : r ≤ r') : Found order out initial seed r' b l := by
  refine h.imp_right ?_
  rintro ⟨d, hd, hwalk⟩
  exact ⟨d, by omega, hwalk⟩

omit [DecidableEq β] in
theorem foundIn_order : FoundIn order out initial seed r order b l ↔ Found order out initial seed (r + 1) b l := by
  constructor
  · rintro (hfound | ⟨a, ha, l₀, w, hwalk, hedge, hl⟩)
    · exact hfound.mono (le_succ r)
    · exact .inr ⟨r, lt_succ_self r, a, l₀, w, hwalk, ha, hedge, hl⟩
  · rintro (hstart | ⟨d, hd, a, l₀, w, hwalk, ha, hedge, hl⟩)
    · exact .inl (.inl hstart)
    · obtain hd | rfl := Nat.lt_or_eq_of_le (Nat.le_of_lt_succ hd)
      · exact .inl (.inr ⟨d, hd, a, l₀, w, hwalk, ha, hedge, hl⟩)
      · exact .inr ⟨a, ha, l₀, w, hwalk, hedge, hl⟩

omit [DecidableEq β] in
theorem Found.walk (h : Found order out initial seed r a l) : ∃ d ≤ r, Walk order out initial seed d a l := by
  rcases h with ⟨rfl, rfl⟩ | ⟨d, hd, c, l₀, w, hwalk, hc, hedge, rfl⟩
  · exact ⟨0, zero_le r, .start⟩
  · by_cases hlater : order.idxOf c < order.idxOf a
    · exact ⟨d, by omega, hwalk.forward hc hedge hlater⟩
    · exact ⟨d + 1, hd, hwalk.back hc hedge (by omega)⟩

omit [DecidableEq β] in
/-- When a node's turn comes in pass `r`, the paths found to it are those that go back `r` times at most. -/
theorem foundIn_turn (horder : order = pre ++ a :: post) (hnodup : order.Nodup) :
    FoundIn order out initial seed r pre a l ↔ ∃ d ≤ r, Walk order out initial seed d a l := by
  have hfresh : a ∉ pre := by
    rw [horder] at hnodup
    exact fun ha => (nodup_append.mp hnodup).2.2 a ha a mem_cons_self rfl
  have hturn : order.idxOf a = pre.length := by
    rw [horder, idxOf_append_of_notMem hfresh, idxOf_cons_self, Nat.add_zero]
  have hbefore {c : α} : order.idxOf c < order.idxOf a ↔ c ∈ pre := by
    rw [hturn]
    constructor
    · intro hlt
      by_contra hc
      rw [horder, idxOf_append_of_notMem hc] at hlt
      omega
    · intro hc
      rw [horder, idxOf_append_of_mem hc]
      exact idxOf_lt_length_of_mem hc
  constructor
  · rintro (hfound | ⟨c, hc, l₀, w, hwalk, hedge, rfl⟩)
    · exact hfound.walk
    · have hmem : c ∈ order := by
        rw [horder]
        exact mem_append_left _ hc
      exact ⟨r, Nat.le_refl r, hwalk.forward hmem hedge (hbefore.mpr hc)⟩
  · rintro ⟨d, hd, hwalk⟩
    cases hwalk with
    | start => exact .inl (.inl ⟨rfl, rfl⟩)
    | @forward _ c _ l₀ w hwalk hc hedge hlater =>
      obtain hd | rfl := Nat.lt_or_eq_of_le hd
      · exact .inl (.inr ⟨d, hd, c, l₀, w, hwalk, hc, hedge, rfl⟩)
      · exact .inr ⟨c, hbefore.mp hlater, l₀, w, hwalk, hedge, rfl⟩
    | @back d' c _ l₀ w hwalk hc hedge hearlier =>
      exact .inl (.inr ⟨d', by omega, c, l₀, w, hwalk, hc, hedge, rfl⟩)

theorem visit_found {t : Table α β} {pre post : List α} {a : α} (horder : order = pre ++ a :: post)
    (hnodup : order.Nodup) (h : t.Shows (FoundIn order out initial seed r pre)) (c : Bool) :
    (visit out (t, c) a).1.Shows (FoundIn order out initial seed r (pre ++ [a])) := by
  have ha : a ∈ order := horder ▸ mem_append_right pre mem_cons_self
  refine (visit_shows h).congr fun b l => ?_
  constructor
  · rintro (hfound | ⟨l₀, w, hfound, hedge, rfl⟩)
    · refine hfound.imp_right ?_
      rintro ⟨e, he, hwalk⟩
      exact ⟨e, mem_append_left _ he, hwalk⟩
    · obtain ⟨d, hd, hwalk⟩ := (foundIn_turn horder hnodup).mp hfound
      obtain hd | rfl := Nat.lt_or_eq_of_le hd
      · exact .inl (.inr ⟨d, hd, a, l₀, w, hwalk, ha, hedge, rfl⟩)
      · exact .inr ⟨a, mem_append_right pre mem_cons_self, l₀, w, hwalk, hedge, rfl⟩
  · rintro (hfound | ⟨e, he, l₀, w, hwalk, hedge, rfl⟩)
    · exact .inl (.inl hfound)
    · rcases mem_append.mp he with he | he
      · exact .inl (.inr ⟨e, he, l₀, w, hwalk, hedge, rfl⟩)
      · cases mem_singleton.mp he
        exact .inr ⟨l₀, w, (foundIn_turn horder hnodup).mpr ⟨r, Nat.le_refl r, hwalk⟩, hedge, rfl⟩

theorem foldl_visit_found (hnodup : order.Nodup) (pre post : List α) (horder : order = pre ++ post)
    (s : Table α β × Bool) (h : s.1.Shows (FoundIn order out initial seed r pre)) :
    (post.foldl (visit out) s).1.Shows (FoundIn order out initial seed r order) := by
  induction post generalizing pre s with
  | nil =>
    rw [append_nil] at horder
    exact horder ▸ h
  | cons a post ih =>
    exact ih (pre ++ [a]) (by rw [horder, append_assoc]; rfl) _ (visit_found horder hnodup h s.2)

/-- Pass `r` finds the paths that go back `r` times before their last step. -/
theorem pass_found {t : Table α β} (hnodup : order.Nodup) (h : t.Shows (Found order out initial seed r)) :
    (pass order out t).1.Shows (Found order out initial seed (r + 1)) := by
  have hnone : t.Shows (FoundIn order out initial seed r []) :=
    h.congr fun b l => ⟨.inl, fun hl => hl.elim id fun ⟨_, hmem, _⟩ => nomatch hmem⟩
  exact (foldl_visit_found hnodup [] order rfl (t, false) hnone).congr fun _ _ => foundIn_order

section

variable (order out initial seed)

/-- A node is first reached by a path that goes back `r` times before its last step. -/
def Enters (r : Nat) : Prop :=
  ∃ b, (∃ l, Found order out initial seed (r + 1) b l) ∧ ¬ ∃ l, Found order out initial seed r b l

/-- Something is first brought to a node by a path that goes back `r` times before its last step. -/
def Brings (r : Nat) : Prop :=
  ∃ b x, (∃ l, Found order out initial seed (r + 1) b l ∧ x ∈ l) ∧ ¬ ∃ l, Found order out initial seed r b l ∧ x ∈ l

variable {order out initial seed}

theorem pass_flag_iff (hnodup : order.Nodup) (h : t.Shows (Found order out initial seed r)) :
    (pass order out t).2 ↔ Brings order out initial seed r := by
  rw [(pass_grows order out t).flag]
  simp only [Bool.false_eq_true, false_or, (pass_found hnodup h).gathered, h.gathered]
  rfl

theorem propagate_spec (hnodup : order.Nodup)
    (h : t.Shows (Found order out initial seed r)) (hrun : propagate order out fuel t = some t') :
    ∃ last, r ≤ last ∧ t'.Shows (Found order out initial seed (last + 1)) ∧
    (∀ j, r ≤ j → j < last → Brings order out initial seed j) ∧ ¬ Brings order out initial seed last := by
  induction fuel generalizing r t with
  | zero => cases hrun
  | succ fuel ih =>
    unfold propagate at hrun
    dsimp only at hrun
    split at hrun
    case isTrue hflag =>
      obtain ⟨last, hlast, hshows, hbrings, hnone⟩ := ih (pass_found hnodup h) hrun
      refine ⟨last, by omega, hshows, fun j hj hlt => ?_, hnone⟩
      obtain rfl | hj := Nat.eq_or_lt_of_le hj
      · exact (pass_flag_iff hnodup h).mp hflag
      · exact hbrings j hj hlt
    case isFalse hflag =>
      cases hrun
      exact ⟨r, Nat.le_refl r, pass_found hnodup h, fun j hj hlt => by omega, mt (pass_flag_iff hnodup h).mpr hflag⟩

omit [DecidableEq β] in
theorem Walk.path (h : Walk order out initial seed d a l) : Path order out initial seed a l := by
  induction h with
  | start => exact .start
  | forward _ ha hedge _ ih | back _ ha hedge _ ih => exact ih.step ha hedge

omit [DecidableEq β] in
theorem path_iff : Path order out initial seed b l ↔ ∃ r, Found order out initial seed r b l := by
  have hwalk {a : α} {l : List β} (h : Path order out initial seed a l) : ∃ d, Walk order out initial seed d a l := by
    induction h with
    | start => exact ⟨0, .start⟩
    | @step a b l w _ ha hedge ih =>
      obtain ⟨d, hd⟩ := ih
      by_cases hlater : order.idxOf a < order.idxOf b
      · exact ⟨d, hd.forward ha hedge hlater⟩
      · exact ⟨d + 1, hd.back ha hedge (by omega)⟩
  constructor
  · intro h
    cases h with
    | start => exact ⟨0, .inl ⟨rfl, rfl⟩⟩
    | @step a _ l w h ha hedge =>
      obtain ⟨d, hd⟩ := hwalk h
      exact ⟨d + 1, .inr ⟨d, lt_succ_self d, a, l, w, hd, ha, hedge, rfl⟩⟩
  · rintro ⟨r, ⟨rfl, rfl⟩ | ⟨d, -, a, l₀, w, hd, ha, hedge, rfl⟩⟩
    · exact .start
    · exact hd.path.step ha hedge

omit [DecidableEq β] in
theorem shows_start : Table.Shows [(initial, seed)] (Found order out initial seed 0) := by
  have hstart (b : α) (l : List β) : Found order out initial seed 0 b l ↔ b = initial ∧ l = seed :=
    ⟨fun h => h.elim id fun ⟨_, hlt, _⟩ => absurd hlt (not_lt_zero _), .inl⟩
  refine ⟨fun a => ?_, fun a x => ?_⟩
  · simp only [hstart, Table.get_cons]
    split <;> simp [*, Table.get]
  · simp only [hstart, Table.gathered, Table.get_cons]
    split <;> simp [*, Table.get]

omit [DecidableEq β] in
theorem exists_first {P : Nat → Prop} (h : P r) (h0 : ¬ P 0) : ∃ d < r, P (d + 1) ∧ ¬ P d := by
  induction r with
  | zero => exact absurd h h0
  | succ r ih =>
    by_cases hr : P r
    · obtain ⟨d, hd, hfirst⟩ := ih hr
      exact ⟨d, by omega, hfirst⟩
    · exact ⟨r, lt_succ_self r, h, hr⟩

omit [DecidableEq β] in
/-- The passes find every path exactly when whatever is first found by going back `r` times has a new thing brought by
going back each smaller number of times. -/
theorem shows_path_iff {t : Table α β} (hshows : t.Shows (Found order out initial seed (last + 1)))
    (hbrings : ∀ j < last, Brings order out initial seed j) (hnone : ¬ Brings order out initial seed last) :
    t.Shows (Path order out initial seed) ↔
      ∀ r, Enters order out initial seed r ∨ Brings order out initial seed r → ∀ j < r, Brings order out initial seed j := by
  constructor
  · intro hpath r hfirst j hj
    by_cases hlast : j < last
    · exact hbrings j hlast
    · exfalso
      rcases hfirst with ⟨b, ⟨l, hfound⟩, hnew⟩ | ⟨b, x, ⟨l, hfound, hx⟩, hnew⟩
      · obtain ⟨l', hl'⟩ := (hshows.entered b).mp ((hpath.entered b).mpr ⟨l, path_iff.mpr ⟨_, hfound⟩⟩)
        exact hnew ⟨l', hl'.mono (by omega)⟩
      · obtain ⟨l', hl', hx'⟩ := (hshows.gathered b x).mp ((hpath.gathered b x).mpr ⟨l, path_iff.mpr ⟨_, hfound⟩, hx⟩)
        exact hnew ⟨l', hl'.mono (by omega), hx'⟩
  · intro hgap
    have hfound {b : α} {P : List β → Prop} (hfirst : ∀ r, (∃ l, Found order out initial seed (r + 1) b l ∧ P l) →
        (¬ ∃ l, Found order out initial seed r b l ∧ P l) → r ≤ last) :
        (∃ l, Path order out initial seed b l ∧ P l) → ∃ l, Found order out initial seed (last + 1) b l ∧ P l := by
      rintro ⟨l, hpath, hl⟩
      obtain ⟨r, hr⟩ := path_iff.mp hpath
      by_contra hnot
      obtain ⟨d, -, hsome, hnew⟩ := exists_first (P := fun k => ∃ l, Found order out initial seed (last + 1 + k) b l ∧ P l)
        ⟨l, hr.mono (le_add_left r _), hl⟩ hnot
      have hle := hfirst (last + 1 + d) hsome hnew
      omega
    have hlate {r : Nat} (h : Enters order out initial seed r ∨ Brings order out initial seed r) : r ≤ last := by
      by_contra hgt
      exact hnone (hgap r h last (by omega))
    refine ⟨fun b => ?_, fun b x => ?_⟩
    · rw [hshows.entered]
      constructor
      · rintro ⟨l, hl⟩
        exact ⟨l, path_iff.mpr ⟨_, hl⟩⟩
      · rintro ⟨l, hl⟩
        have hall := hfound (b := b) (P := fun _ => True) (fun r hsome hnew => hlate (.inl ⟨b, by simpa using hsome, by simpa using hnew⟩))
        obtain ⟨l', hl', -⟩ := hall ⟨l, hl, trivial⟩
        exact ⟨l', hl'⟩
    · rw [hshows.gathered]
      constructor
      · rintro ⟨l, hl, hx⟩
        exact ⟨l, path_iff.mpr ⟨_, hl⟩, hx⟩
      · exact hfound fun r hsome hnew => hlate (.inr ⟨b, x, hsome, hnew⟩)

end

section

variable {t : Table α β}

def missing (places : List (α × β)) (t : Table α β) : List (α × β) :=
  places.filter fun p => p.2 ∉ t.gathered p.1

theorem propagate_terminates (hnodup : order.Nodup)
    (hplaces : ∀ b l x, Path order out initial seed b l → x ∈ l → (b, x) ∈ places)
    (h : t.Shows (Found order out initial seed r)) (hfuel : (missing places t).length < fuel) :
    ∃ t', propagate order out fuel t = some t' := by
  induction fuel generalizing r t with
  | zero => omega
  | succ fuel ih =>
    unfold propagate
    dsimp only
    split
    case isFalse => exact ⟨_, rfl⟩
    case isTrue hflag =>
      have hnext := pass_found hnodup h
      refine ih hnext (Nat.lt_of_lt_of_le ?_ (Nat.le_of_lt_succ hfuel))
      obtain ⟨a, x, hx, hnew⟩ := ((pass_grows order out t).flag.mp hflag).resolve_left Bool.false_ne_true
      obtain ⟨l, hfound, hl⟩ := (hnext.gathered a x).mp hx
      have hplace : (a, x) ∈ places := hplaces a l x (path_iff.mpr ⟨_, hfound⟩) hl
      have hleft : missing places (pass order out t).1 =
          (missing places t).filter fun p => p.2 ∉ (pass order out t).1.gathered p.1 := by
        unfold missing
        rw [List.filter_filter]
        refine List.filter_congr fun p _ => ?_
        have hkept := (pass_grows order out t).kept p.1 p.2
        by_cases hold : p.2 ∈ t.gathered p.1
        · simp [hold, hkept hold]
        · simp [hold]
      rw [hleft]
      refine List.length_filter_lt_length_iff_exists.mpr ⟨(a, x), List.mem_filter.mpr ⟨hplace, ?_⟩, ?_⟩
      · simpa using hnew
      · simpa using hx

variable (order out initial seed)

def allPlaces : List (α × β) :=
  (initial :: order.flatMap fun a => (out a).map Prod.fst) ×ˢ (seed ++ order.flatMap fun a => (out a).flatMap Prod.snd)

def gather : Option (Table α β) :=
  propagate order out ((allPlaces order out initial seed).length + 1) [(initial, seed)]

variable {order out initial seed}

omit [DecidableEq α] [DecidableEq β] in
theorem mem_allPlaces (b : α) (l : List β) (x : β) (h : Path order out initial seed b l) (hx : x ∈ l) :
    (b, x) ∈ allPlaces order out initial seed := by
  have hmem : b ∈ (initial :: order.flatMap fun a => (out a).map Prod.fst) ∧
      ∀ x ∈ l, x ∈ seed ++ order.flatMap fun a => (out a).flatMap Prod.snd := by
    clear hx
    induction h with
    | start => exact ⟨mem_cons_self, fun x hx => mem_append_left _ hx⟩
    | @step a b l w _ ha hedge ih =>
      refine ⟨mem_cons_of_mem _ (mem_flatMap.mpr ⟨a, ha, mem_map_of_mem hedge⟩), fun x hx => ?_⟩
      rcases mem_append.mp hx with hx | hx
      · exact ih.2 x hx
      · exact mem_append_right _ (mem_flatMap.mpr ⟨a, ha, mem_flatMap.mpr ⟨(b, w), hedge, hx⟩⟩)
  exact mem_product.mpr ⟨hmem.1, hmem.2 x hx⟩

theorem gather_spec (hnodup : order.Nodup) : ∃ t, gather order out initial seed = some t ∧
    (t.Shows (Path order out initial seed) ↔
      ∀ r, Enters order out initial seed r ∨ Brings order out initial seed r → ∀ j < r, Brings order out initial seed j) := by
  obtain ⟨t, ht⟩ := propagate_terminates hnodup mem_allPlaces shows_start
    (lt_succ_of_le (length_filter_le (fun p => p.2 ∉ Table.gathered [(initial, seed)] p.1)
      (allPlaces order out initial seed)))
  obtain ⟨last, -, hshows, hbrings, hnone⟩ := propagate_spec hnodup shows_start ht
  exact ⟨t, ht, shows_path_iff hshows (fun j hj => hbrings j (zero_le j) hj) hnone⟩

end

end

end Praxec.Graph.RoundRobin
