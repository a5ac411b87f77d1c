import Mathlib.Data.List.Chain
import Mathlib.Data.List.Nodup
import Mathlib.Logic.Relation

namespace Praxec.Graph

open List

section

variable {α : Type}

def IsCycle (R : α → α → Prop) (nodes : List α) : Prop :=
  ∃ v, nodes.head? = some v ∧ (nodes ++ [v]).IsChain R

theorem reaches_of_isChain_cons (h : (a :: nodes).IsChain R) : ∀ b ∈ a :: nodes, Relation.ReflTransGen R a b := by
  induction nodes generalizing a with
  | nil =>
    intro b hb
    rw [mem_singleton.mp hb]
  | cons c rest ih =>
    obtain ⟨hedge, hrest⟩ := isChain_cons_cons.mp h
    refine forall_mem_cons.mpr ⟨.refl, fun b hb => ?_⟩
    exact .head hedge (ih hrest b hb)

structure SimpleChain (R : α → α → Prop) (a b : α) (nodes : List α) : Prop where
  head : nodes.head? = some a
  last : nodes.getLast? = some b
  nodup : nodes.Nodup
  chain : nodes.IsChain R

theorem SimpleChain.isCycle (h : SimpleChain R a b nodes) (hedge : R b a) : IsCycle R nodes := by
  refine ⟨a, h.head, isChain_append.mpr ⟨h.chain, isChain_singleton a, fun x hx y hy => ?_⟩⟩
  rw [h.last] at hx
  cases hx
  cases hy
  exact hedge

end

inductive Color where
  | grey | black
deriving DecidableEq

namespace Dfs

variable {α σ : Type} [DecidableEq α] {succ : α → List α} {onBack : σ → List α → α → σ}

/-- Look at successors of the last node of `path`: fold in those that are grey, and stop at the first that has not
been seen. -/
def scan (onBack : σ → List α → α → σ) (colors : List (α × Color)) (path : List α) : List α → σ → σ × Option α
  | [], s => (s, none)
  | t :: rest, s => match colors.lookup t with
      | some .grey => scan onBack colors path rest (onBack s path t)
      | some .black => scan onBack colors path rest s
      | none => (s, some t)

def shade (colors : List (α × Color)) (node : α) : List (α × Color) :=
  if colors.lookup node = none then (node, .grey) :: colors else colors

/-- Explore from the top of the stack: a node goes back under its first unseen successor, or is done. `fuel` bounds
the visits. -/
def explore (succ : α → List α) (onBack : σ → List α → α → σ) :
    Nat → List (α × Color) → σ → List (α × List α) → List (α × Color) × σ
  | fuel + 1, colors, s, (node, path) :: rest =>
      if colors.lookup node = some .black then explore succ onBack fuel colors s rest
      else
        match scan onBack (shade colors node) path (succ node) s with
        | (s, some t) => explore succ onBack fuel (shade colors node) s ((t, path ++ [t]) :: (node, path) :: rest)
        | (s, none) => explore succ onBack fuel ((node, .black) :: shade colors node) s rest
  | _, colors, s, _ => (colors, s)

def search (succ : α → List α) (onBack : σ → List α → α → σ) (fuel : Nat) : List α → List (α × Color) → σ → List (α × Color) × σ
  | [], colors, s => (colors, s)
  | v :: rest, colors, s =>
      if (colors.lookup v).isSome then search succ onBack fuel rest colors s
      else
        let (colors, s) := explore succ onBack fuel colors s [(v, [v])]
        search succ onBack fuel rest colors s

def fold (onBack : σ → List α → α → σ) (s : σ) (backs : List (List α × α)) : σ :=
  backs.foldl (fun s back => onBack s back.1 back.2) s

structure BackEdge (succ : α → List α) (path : List α) (t : α) : Prop where
  mem : t ∈ path
  nodup : path.Nodup
  chain : path.IsChain fun a b => b ∈ succ a
  edge : ∃ v, path.getLast? = some v ∧ t ∈ succ v

def finished (colors : List (α × Color)) : List α :=
  (colors.filter fun entry => entry.2 = .black).map Prod.fst

def Stacked (succ : α → List α) : List (α × List α) → Prop
  | [] => True
  | [(v, path)] => path = [v]
  | (v, path) :: (u, path') :: rest => path = path' ++ [v] ∧ v ∈ succ u ∧ Stacked succ ((u, path') :: rest)

/-- The state of a search: what has been finished leads to what was finished before, or along a recorded back edge. -/
structure Inv (succ : α → List α) (colors : List (α × Color)) (backs : List (List α × α)) (stack : List (α × List α)) :
    Prop where
  back : ∀ b ∈ backs, BackEdge succ b.1 b.2
  led : ∀ later v earlier, finished colors = later ++ v :: earlier → ∀ t ∈ succ v,
    t ∈ earlier ∨ ∃ path, (path, t) ∈ backs ∧ path.getLast? = some v
  stacked : Stacked succ stack
  grey : ∀ v, colors.lookup v = some .grey → ∃ entry, stack.head? = some entry ∧ v ∈ entry.2
  nodup : (stack.map Prod.fst).Nodup
  below : ∀ entry ∈ stack.tail, colors.lookup entry.1 = some .grey
  top : ∀ entry ∈ stack.head?, colors.lookup entry.1 ≠ some .black

def ScanEnd (colors : List (α × Color)) (path targets : List α) (backs : List (List α × α)) : Option α → Prop
  | some t => t ∈ targets ∧ colors.lookup t = none
  | none => ∀ t ∈ targets, colors.lookup t = some .black ∨ (path, t) ∈ backs

theorem ScanEnd.cons {colors : List (α × Color)} {path targets : List α} {backs backs' : List (List α × α)} {out : Option α}
    (h : ScanEnd colors path targets backs out) (hsub : ∀ b ∈ backs, b ∈ backs')
    (ht : colors.lookup t = some .black ∨ (path, t) ∈ backs') : ScanEnd colors path (t :: targets) backs' out := by
  cases out with
  | some u => exact ⟨mem_cons_of_mem _ h.1, h.2⟩
  | none => exact forall_mem_cons.mpr ⟨ht, fun u hu => (h u hu).imp_right (hsub _)⟩

theorem scan_spec (onBack : σ → List α → α → σ) (colors : List (α × Color)) (path targets : List α) (s : σ) :
    ∃ backs, (scan onBack colors path targets s).1 = fold onBack s backs ∧
      (∀ b ∈ backs, b.1 = path ∧ b.2 ∈ targets ∧ colors.lookup b.2 = some .grey) ∧
      ScanEnd colors path targets backs (scan onBack colors path targets s).2 := by
  induction targets generalizing s with
  | nil => exact ⟨[], rfl, by simp, by simp [scan, ScanEnd]⟩
  | cons t rest ih =>
    unfold scan
    split
    case h_1 hgrey =>
      obtain ⟨backs, hfold, hbacks, hend⟩ := ih (onBack s path t)
      refine ⟨(path, t) :: backs, hfold, forall_mem_cons.mpr ⟨⟨rfl, mem_cons_self, hgrey⟩, fun b hb => ?_⟩,
        hend.cons (fun _ => mem_cons_of_mem _) (.inr mem_cons_self)⟩
      exact ⟨(hbacks b hb).1, mem_cons_of_mem _ (hbacks b hb).2.1, (hbacks b hb).2.2⟩
    case h_2 hblack =>
      obtain ⟨backs, hfold, hbacks, hend⟩ := ih s
      refine ⟨backs, hfold, fun b hb => ?_, hend.cons (fun _ => id) (.inl hblack)⟩
      exact ⟨(hbacks b hb).1, mem_cons_of_mem _ (hbacks b hb).2.1, (hbacks b hb).2.2⟩
    case h_3 hnone => exact ⟨[], rfl, by simp, mem_cons_self, hnone⟩

section

omit [DecidableEq α]

variable {v : α} {path : List α} {rest : List (α × List α)}

theorem Stacked.getLast (h : Stacked succ ((v, path) :: rest)) : path.getLast? = some v := by
  cases rest with
  | nil =>
    cases h
    rfl
  | cons below rest =>
    rw [h.1]
    exact getLast?_concat ..

theorem Stacked.chain (h : Stacked succ ((v, path) :: rest)) : path.IsChain fun a b => b ∈ succ a := by
  induction rest generalizing v path with
  | nil =>
    cases h
    exact isChain_singleton v
  | cons below rest ih =>
    obtain ⟨rfl, hedge, hbelow⟩ := h
    refine isChain_append.mpr ⟨ih hbelow, isChain_singleton v, fun a ha b hb => ?_⟩
    rw [hbelow.getLast] at ha
    cases ha
    cases hb
    exact hedge

theorem Stacked.path_eq (h : Stacked succ ((v, path) :: rest)) : path = (v :: rest.map Prod.fst).reverse := by
  induction rest generalizing v path with
  | nil => exact h
  | cons below rest ih =>
    obtain ⟨hpath, -, hbelow⟩ := h
    rw [hpath, ih hbelow, map_cons, ← reverse_cons]

theorem Stacked.tail (h : Stacked succ ((v, path) :: rest)) : Stacked succ rest := by
  cases rest with
  | nil => trivial
  | cons below rest => exact h.2.2

theorem Stacked.push (h : Stacked succ ((v, path) :: rest)) (ht : t ∈ succ v) :
    Stacked succ ((t, path ++ [t]) :: (v, path) :: rest) :=
  ⟨rfl, ht, h⟩

theorem Stacked.mem_below (h : Stacked succ ((v, path) :: rest)) (ha : a ∈ path) (hne : a ≠ v) :
    ∃ entry, rest.head? = some entry ∧ a ∈ entry.2 := by
  cases rest with
  | nil =>
    cases h
    exact absurd (mem_singleton.mp ha) hne
  | cons below rest =>
    rw [h.1] at ha
    rcases mem_append.mp ha with hbelow | hlast
    · exact ⟨below, rfl, hbelow⟩
    · exact absurd (mem_singleton.mp hlast) hne

theorem Stacked.mem_path (h : Stacked succ ((v, path) :: rest)) : v ∈ path :=
  mem_of_getLast? h.getLast

end

section

variable {colors : List (α × Color)} {node v : α}

theorem lookup_cons_self : ((node, c) :: colors).lookup node = some c := by
  simp

theorem lookup_cons_of_ne (h : v ≠ node) : ((node, c) :: colors).lookup v = colors.lookup v := by
  simp [lookup_cons, beq_false_of_ne h]

theorem lookup_shade_self (h : colors.lookup node ≠ some .black) : (shade colors node).lookup node = some .grey := by
  unfold shade
  cases hcolor : colors.lookup node with
  | none => simp
  | some c =>
    cases c with
    | grey => simpa using hcolor
    | black => exact absurd hcolor h

theorem lookup_shade_of_ne (h : v ≠ node) : (shade colors node).lookup v = colors.lookup v := by
  unfold shade
  split
  · exact lookup_cons_of_ne h
  · rfl

theorem isSome_lookup_shade (h : (colors.lookup v).isSome) : ((shade colors node).lookup v).isSome := by
  unfold shade
  split
  · by_cases hv : v = node
    · rw [hv, lookup_cons_self]
      rfl
    · rwa [lookup_cons_of_ne hv]
  · exact h

theorem finished_shade : finished (shade colors node) = finished colors := by
  unfold shade
  split <;> rfl

theorem mem_finished_of_lookup (h : colors.lookup v = some .black) : v ∈ finished colors := by
  induction colors with
  | nil => cases h
  | cons entry rest ih =>
    obtain ⟨u, c⟩ := entry
    by_cases hv : v = u
    · subst hv
      rw [lookup_cons_self] at h
      cases h
      exact mem_cons_self
    · rw [lookup_cons_of_ne hv] at h
      have hmem := ih h
      cases c with
      | grey => exact hmem
      | black => exact mem_cons_of_mem _ hmem

end

section

variable {colors : List (α × Color)} {backs : List (List α × α)} {node : α} {path : List α} {rest : List (α × List α)}

theorem Inv.mem_path (h : Inv succ colors backs ((node, path) :: rest))
    (hv : (shade colors node).lookup v = some .grey) : v ∈ path := by
  by_cases hnode : v = node
  · rw [hnode]
    exact h.stacked.mem_path
  · rw [lookup_shade_of_ne hnode] at hv
    obtain ⟨entry, hentry, hmem⟩ := h.grey v hv
    cases hentry
    exact hmem

theorem Inv.not_black (h : Inv succ colors backs ((node, path) :: rest)) : colors.lookup node ≠ some .black :=
  h.top (node, path) rfl

theorem Inv.scanned (h : Inv succ colors backs ((node, path) :: rest))
    (hmore : ∀ b ∈ more, b.1 = path ∧ b.2 ∈ succ node ∧ (shade colors node).lookup b.2 = some .grey) :
    ∀ b ∈ backs ++ more, BackEdge succ b.1 b.2 := by
  refine forall_mem_append.mpr ⟨h.back, fun b hb => ?_⟩
  obtain ⟨hpath, hedge, hgrey⟩ := hmore b hb
  rw [hpath]
  have hnodup : path.Nodup := by
    rw [h.stacked.path_eq]
    exact nodup_reverse.mpr h.nodup
  exact ⟨h.mem_path hgrey, hnodup, h.stacked.chain, node, h.stacked.getLast, hedge⟩

theorem Inv.led_append (h : Inv succ colors backs ((node, path) :: rest)) :
    ∀ later v earlier, finished colors = later ++ v :: earlier → ∀ t ∈ succ v,
      t ∈ earlier ∨ ∃ path, (path, t) ∈ backs ++ more ∧ path.getLast? = some v := by
  intro later v earlier hsplit t ht
  exact (h.led later v earlier hsplit t ht).imp_right fun ⟨path, hmem, hlast⟩ => ⟨path, mem_append_left _ hmem, hlast⟩

theorem Inv.below_ne (h : Inv succ colors backs ((node, path) :: rest)) (hentry : entry ∈ rest) : entry.1 ≠ node := by
  intro heq
  exact (nodup_cons.mp h.nodup).1 (mem_map.mpr ⟨entry, hentry, heq⟩)

theorem Inv.push (h : Inv succ colors backs ((node, path) :: rest))
    (hmore : ∀ b ∈ more, b.1 = path ∧ b.2 ∈ succ node ∧ (shade colors node).lookup b.2 = some .grey)
    (ht : t ∈ succ node) (hunseen : (shade colors node).lookup t = none) :
    Inv succ (shade colors node) (backs ++ more) ((t, path ++ [t]) :: (node, path) :: rest) where
  back := h.scanned hmore
  led := by
    rw [finished_shade]
    exact h.led_append
  stacked := h.stacked.push ht
  grey v hv := ⟨_, rfl, mem_append_left _ (h.mem_path hv)⟩
  nodup := by
    have hgrey : ∀ entry ∈ (node, path) :: rest, (shade colors node).lookup entry.1 = some .grey := by
      refine forall_mem_cons.mpr ⟨lookup_shade_self h.not_black, fun entry hentry => ?_⟩
      rw [lookup_shade_of_ne (h.below_ne hentry)]
      exact h.below entry hentry
    refine nodup_cons.mpr ⟨fun hmem => ?_, h.nodup⟩
    obtain ⟨entry, hentry, heq⟩ := mem_map.mp hmem
    have hcolor := hgrey entry hentry
    rw [heq, hunseen] at hcolor
    cases hcolor
  below := by
    refine forall_mem_cons.mpr ⟨lookup_shade_self h.not_black, fun entry hentry => ?_⟩
    rw [lookup_shade_of_ne (h.below_ne hentry)]
    exact h.below entry hentry
  top entry hentry := by
    cases hentry
    rw [hunseen]
    simp

theorem Inv.finish (h : Inv succ colors backs ((node, path) :: rest))
    (hmore : ∀ b ∈ more, b.1 = path ∧ b.2 ∈ succ node ∧ (shade colors node).lookup b.2 = some .grey)
    (hseen : ∀ t ∈ succ node, (shade colors node).lookup t = some .black ∨ (path, t) ∈ more) :
    Inv succ ((node, .black) :: shade colors node) (backs ++ more) rest where
  back := h.scanned hmore
  led := by
    have hfinished : finished ((node, .black) :: shade colors node) = node :: finished colors :=
      congrArg (List.cons node) finished_shade
    rw [hfinished]
    intro later v earlier hsplit t ht
    cases later with
    | nil =>
      cases hsplit
      rcases hseen t ht with hblack | hback
      · have hne : t ≠ node := by
          rintro rfl
          rw [lookup_shade_self h.not_black] at hblack
          cases hblack
        rw [lookup_shade_of_ne hne] at hblack
        exact .inl (mem_finished_of_lookup hblack)
      · exact .inr ⟨path, mem_append_right _ hback, h.stacked.getLast⟩
    | cons first later => exact h.led_append later v earlier (List.cons.inj hsplit).2 t ht
  stacked := h.stacked.tail
  grey v hv := by
    have hne : v ≠ node := by
      rintro rfl
      rw [lookup_cons_self] at hv
      cases hv
    rw [lookup_cons_of_ne hne] at hv
    exact h.stacked.mem_below (h.mem_path hv) hne
  nodup := (nodup_cons.mp h.nodup).2
  below entry hentry := by
    have hmem : entry ∈ rest := mem_of_mem_tail hentry
    rw [lookup_cons_of_ne (h.below_ne hmem), lookup_shade_of_ne (h.below_ne hmem)]
    exact h.below entry hmem
  top entry hentry := by
    have hmem : entry ∈ rest := mem_of_mem_head? hentry
    rw [lookup_cons_of_ne (h.below_ne hmem), lookup_shade_of_ne (h.below_ne hmem), h.below entry hmem]
    simp

end

section

variable {univ : List α}

omit [DecidableEq α] in
theorem countP_lt (hle : ∀ v, p v → q v) (hv : v ∈ univ) (hq : q v)
    (hp : p v = false) : univ.countP p < univ.countP q := by
  induction univ with
  | nil => cases hv
  | cons u rest ih =>
    have hmono : rest.countP p ≤ rest.countP q := countP_mono_left fun w _ => hle w
    rw [countP_cons, countP_cons]
    rcases mem_cons.mp hv with rfl | hmem
    · rw [hq, hp, if_pos rfl, if_neg (by simp)]
      omega
    · have hlt := ih hmem
      by_cases hu : p u
      · rw [if_pos hu, if_pos (hle u hu)]
        omega
      · rw [if_neg hu]
        omega

/-- Visits that are left: one for every node still to be pushed, and one for every node still to be finished. -/
def potential (univ : List α) (colors : List (α × Color)) (stack : List (α × List α)) : Nat :=
  univ.countP (fun v => colors.lookup v = none ∧ stack.head?.map Prod.fst ≠ some v) +
    univ.countP fun v => colors.lookup v ≠ some .black

variable {colors : List (α × Color)} {node : α} {path : List α} {rest : List (α × List α)}

theorem potential_push (hnode : colors.lookup node ≠ some .black) (ht : t ∈ univ)
    (hunseen : (shade colors node).lookup t = none) :
    potential univ (shade colors node) ((t, path ++ [t]) :: (node, path) :: rest) <
    potential univ colors ((node, path) :: rest) := by
  have hne : t ≠ node := by
    rintro rfl
    rw [lookup_shade_self hnode] at hunseen
    cases hunseen
  refine Nat.add_lt_add_of_lt_of_le (countP_lt (fun v hv => ?_) ht ?_ ?_) (countP_mono_left fun v _ hv => ?_)
  · have hv := of_decide_eq_true hv
    have hvne : v ≠ node := by
      rintro rfl
      rw [lookup_shade_self hnode] at hv
      cases hv.1
    rw [lookup_shade_of_ne hvne] at hv
    exact decide_eq_true ⟨hv.1, fun heq => hvne (Option.some.inj heq).symm⟩
  · rw [lookup_shade_of_ne hne] at hunseen
    exact decide_eq_true ⟨hunseen, fun heq => hne (Option.some.inj heq).symm⟩
  · simp
  · by_cases hvne : v = node
    · simpa [hvne] using hnode
    · simpa [lookup_shade_of_ne hvne] using hv

theorem potential_finish (hnode : colors.lookup node ≠ some .black) (hmem : node ∈ univ) :
    potential univ ((node, .black) :: shade colors node) rest < potential univ colors ((node, path) :: rest) := by
  refine Nat.add_lt_add_of_le_of_lt (countP_mono_left fun v _ hv => ?_) (countP_lt (fun v hv => ?_) hmem ?_ ?_)
  · have hv := of_decide_eq_true hv
    have hvne : v ≠ node := by
      rintro rfl
      rw [lookup_cons_self] at hv
      cases hv.1
    rw [lookup_cons_of_ne hvne, lookup_shade_of_ne hvne] at hv
    exact decide_eq_true ⟨hv.1, fun heq => hvne (Option.some.inj heq).symm⟩
  · by_cases hvne : v = node
    · simpa [hvne] using hnode
    · rw [lookup_cons_of_ne hvne, lookup_shade_of_ne hvne] at hv
      simpa using hv
  · simpa using hnode
  · simp

omit [DecidableEq α] in
theorem fold_append (s : σ) (backs more : List (List α × α)) :
    fold onBack s (backs ++ more) = fold onBack (fold onBack s backs) more :=
  foldl_append

theorem explore_spec (hclosed : ∀ v ∈ univ, ∀ t ∈ succ v, t ∈ univ) (fuel : Nat) (colors : List (α × Color)) (s : σ)
    (backs : List (List α × α)) (stack : List (α × List α)) (hinv : Inv succ colors backs stack)
    (hin : ∀ entry ∈ stack, entry.1 ∈ univ) (hfuel : potential univ colors stack ≤ fuel) :
    ∃ more, (explore succ onBack fuel colors s stack).2 = fold onBack s more ∧
      Inv succ (explore succ onBack fuel colors s stack).1 (backs ++ more) [] ∧
      ∀ v, (colors.lookup v).isSome ∨ v ∈ stack.map Prod.fst →
        ((explore succ onBack fuel colors s stack).1.lookup v).isSome := by
  induction fuel generalizing colors s backs stack with
  | zero =>
    cases stack with
    | nil => exact ⟨[], rfl, by simpa [explore] using hinv, by simp [explore]⟩
    | cons entry rest =>
      obtain ⟨node, path⟩ := entry
      have hlt : _ < potential univ colors ((node, path) :: rest) :=
        potential_finish hinv.not_black (hin _ mem_cons_self)
      omega
  | succ fuel ih =>
    cases stack with
    | nil => exact ⟨[], rfl, by simpa [explore] using hinv, by simp [explore]⟩
    | cons entry rest =>
      obtain ⟨node, path⟩ := entry
      obtain ⟨hnode, hrest⟩ := forall_mem_cons.mp hin
      obtain ⟨found, hfold, hfound, hend⟩ := scan_spec onBack (shade colors node) path (succ node) s
      rcases hscan : scan onBack (shade colors node) path (succ node) s with ⟨s', out⟩
      rw [hscan] at hfold hend
      cases out with
      | some t =>
        have hstep : explore succ onBack (fuel + 1) colors s ((node, path) :: rest) =
            explore succ onBack fuel (shade colors node) s' ((t, path ++ [t]) :: (node, path) :: rest) := by
          rw [explore, if_neg hinv.not_black, hscan]
        have ht : t ∈ univ := hclosed node hnode t hend.1
        have hlt : potential univ (shade colors node) ((t, path ++ [t]) :: (node, path) :: rest) <
            potential univ colors ((node, path) :: rest) := potential_push hinv.not_black ht hend.2
        obtain ⟨more, hmore, hinv', hseen⟩ := ih (shade colors node) s' (backs ++ found) _
          (hinv.push hfound hend.1 hend.2) (forall_mem_cons.mpr ⟨ht, hin⟩) (by omega)
        rw [hstep]
        refine ⟨found ++ more, ?_, by rwa [← append_assoc], fun v hv => hseen v ?_⟩
        · rw [hmore, fold_append, ← hfold]
        · exact hv.imp isSome_lookup_shade (mem_cons_of_mem _)
      | none =>
        have hstep : explore succ onBack (fuel + 1) colors s ((node, path) :: rest) =
            explore succ onBack fuel ((node, .black) :: shade colors node) s' rest := by
          rw [explore, if_neg hinv.not_black, hscan]
        have hlt : potential univ ((node, .black) :: shade colors node) rest <
            potential univ colors ((node, path) :: rest) := potential_finish hinv.not_black hnode
        obtain ⟨more, hmore, hinv', hseen⟩ := ih ((node, .black) :: shade colors node) s' (backs ++ found) rest
          (hinv.finish hfound hend) hrest (by omega)
        rw [hstep]
        refine ⟨found ++ more, ?_, by rwa [← append_assoc], fun v hv => hseen v ?_⟩
        · rw [hmore, fold_append, ← hfold]
        · by_cases hvne : v = node
          · exact .inl (by rw [hvne, lookup_cons_self]; rfl)
          · rw [lookup_cons_of_ne hvne]
            exact hv.imp isSome_lookup_shade fun hmem => (mem_cons.mp hmem).resolve_left hvne

theorem Inv.start (h : Inv succ colors backs []) (hunseen : colors.lookup v = none) :
    Inv succ colors backs [(v, [v])] where
  back := h.back
  led := h.led
  stacked := rfl
  grey u hu := by
    obtain ⟨entry, hentry, -⟩ := h.grey u hu
    cases hentry
  nodup := by simp
  below := by simp
  top entry hentry := by
    cases hentry
    rw [hunseen]
    simp

theorem search_spec (hclosed : ∀ v ∈ univ, ∀ t ∈ succ v, t ∈ univ) {fuel : Nat} (hfuel : 2 * univ.length ≤ fuel)
    (starts : List α) (hin : ∀ v ∈ starts, v ∈ univ) (colors : List (α × Color)) (s : σ) (backs : List (List α × α))
    (hinv : Inv succ colors backs []) :
    ∃ more, (search succ onBack fuel starts colors s).2 = fold onBack s more ∧
      Inv succ (search succ onBack fuel starts colors s).1 (backs ++ more) [] ∧
      ∀ v, (colors.lookup v).isSome ∨ v ∈ starts → ((search succ onBack fuel starts colors s).1.lookup v).isSome := by
  induction starts generalizing colors s backs with
  | nil => exact ⟨[], rfl, by simpa [search] using hinv, by simp [search]⟩
  | cons v rest ih =>
    obtain ⟨hv, hrest⟩ := forall_mem_cons.mp hin
    by_cases hseen : (colors.lookup v).isSome
    · have hstep : search succ onBack fuel (v :: rest) colors s = search succ onBack fuel rest colors s := by
        rw [search, if_pos hseen]
      obtain ⟨more, hmore, hinv', hall⟩ := ih hrest colors s backs hinv
      rw [hstep]
      refine ⟨more, hmore, hinv', fun u hu => hall u ?_⟩
      rcases hu with hu | hu
      · exact .inl hu
      · rcases mem_cons.mp hu with rfl | hmem
        · exact .inl hseen
        · exact .inr hmem
    · have hunseen : colors.lookup v = none := Option.not_isSome_iff_eq_none.mp hseen
      have hpotential : potential univ colors [(v, [v])] ≤ fuel := by
        have hpush := countP_le_length (l := univ)
          (p := fun u => decide (colors.lookup u = none ∧ [(v, [v])].head?.map Prod.fst ≠ some u))
        have hfinish := countP_le_length (l := univ) (p := fun u => decide (colors.lookup u ≠ some .black))
        unfold potential
        omega
      obtain ⟨found, hfound, hexplored, hstart⟩ := explore_spec hclosed fuel colors s backs [(v, [v])]
        (hinv.start hunseen) (forall_mem_cons.mpr ⟨hv, by simp⟩) hpotential
      obtain ⟨more, hmore, hinv', hall⟩ := ih hrest _ (fold onBack s found) (backs ++ found) hexplored
      have hstep : search succ onBack fuel (v :: rest) colors s =
          search succ onBack fuel rest (explore succ onBack fuel colors s [(v, [v])]).1 (fold onBack s found) := by
        rw [search, if_neg hseen, ← hfound]
      rw [hstep]
      refine ⟨found ++ more, by rw [hmore, fold_append], by rwa [← append_assoc], fun u hu => hall u ?_⟩
      rcases hu with hu | hu
      · exact .inl (hstart u (.inl hu))
      · rcases mem_cons.mp hu with rfl | hmem
        · exact .inl (hstart u (.inr mem_cons_self))
        · exact .inr hmem

theorem Inv.exists_back {backs : List (List α × α)} (h : Inv succ colors backs []) {C : α → Prop}
    (hC : ∀ v, C v → (colors.lookup v).isSome ∧ ∃ t ∈ succ v, C t) {v : α} (hv : C v) :
    ∃ b ∈ backs, ∃ u, b.1.getLast? = some u ∧ C u ∧ C b.2 := by
  by_contra hnone
  have hfree : ∀ earlier later, finished colors = later ++ earlier → ∀ u ∈ earlier, ¬ C u := by
    intro earlier
    induction earlier with
    | nil => simp
    | cons w rest ih =>
      intro later hsplit
      have hrest := ih (later ++ [w]) (by simpa using hsplit)
      refine forall_mem_cons.mpr ⟨fun hw => ?_, hrest⟩
      obtain ⟨-, t, ht, hCt⟩ := hC w hw
      rcases h.led later w rest hsplit t ht with hmem | ⟨path, hback, hlast⟩
      · exact hrest t hmem hCt
      · exact hnone ⟨(path, t), hback, w, hlast, hw, hCt⟩
  obtain ⟨hseen, -⟩ := hC v hv
  obtain ⟨c, hc⟩ := Option.isSome_iff_exists.mp hseen
  cases c with
  | grey =>
    obtain ⟨entry, hentry, -⟩ := h.grey v hc
    cases hentry
  | black => exact hfree (finished colors) [] rfl v (mem_finished_of_lookup hc) hv

theorem search_backs (hclosed : ∀ v ∈ univ, ∀ t ∈ succ v, t ∈ univ) (onBack : σ → List α → α → σ) (s : σ) :
    ∃ backs, (search succ onBack (2 * univ.length) univ [] s).2 = fold onBack s backs ∧
      (∀ b ∈ backs, BackEdge succ b.1 b.2) ∧
      ∀ C : α → Prop, (∀ v, C v → v ∈ univ ∧ ∃ t ∈ succ v, C t) → (∃ v, C v) →
        ∃ b ∈ backs, ∃ u, b.1.getLast? = some u ∧ C u ∧ C b.2 := by
  have hempty : Inv succ ([] : List (α × Color)) [] [] :=
    ⟨by simp, by simp [finished], trivial, by simp, nodup_nil, by simp, by simp⟩
  obtain ⟨backs, hfold, hinv, hseen⟩ :=
    search_spec hclosed (Nat.le_refl _) univ (fun _ => id) [] s [] hempty
  refine ⟨backs, hfold, hinv.back, fun C hC ⟨v, hv⟩ => hinv.exists_back (fun u hu => ?_) hv⟩
  exact ⟨hseen u (.inr (hC u hu).1), (hC u hu).2⟩

end

end Dfs

end Praxec.Graph
