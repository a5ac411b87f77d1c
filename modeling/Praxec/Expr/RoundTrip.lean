import Praxec.Expr

namespace Praxec

open List Option Text Text

section

def Unquoted (text : List Char) : Prop :=
  ∀ c ∈ text, c ≠ '\x22' ∧ c ≠ '\x27'

theorem splitOutsideQuotes_cons (hc : c ≠ '\x22' ∧ c ≠ '\x27') (rest : List Char) :
    splitOutsideQuotes k false false (c :: rest) =
    if k.isPrefixOf (c :: rest) then some ([], (c :: rest).drop k.length)
    else (splitOutsideQuotes k false false rest).map fun parts => (c :: parts.1, parts.2) := by
  simp [splitOutsideQuotes, hc.1, hc.2]

theorem splitOutsideQuotes_self (hop : k ≠ []) (hquotes : Unquoted k) :
    splitOutsideQuotes k false false (k ++ w) = some ([], w) := by
  obtain ⟨c, rest, rfl⟩ := exists_cons_of_ne_nil hop
  rw [cons_append, splitOutsideQuotes_cons (hquotes c (.head _)), ← cons_append,
    if_pos ( isPrefixOf_iff_prefix.mpr (prefix_append _ _)), drop_left]

theorem isPrefix_of_blank (hop : ' ' ∉ k) (h : k <+: u ++ ' ' :: w) : k <+: u := by
  have hblank : u ++ [' '] <+: u ++ ' ' :: w := ⟨w, by simp⟩
  rcases prefix_or_prefix_of_prefix h hblank with h | h
  · rcases prefix_concat_iff.mp h with rfl | h
    · simp at hop
    · exact h
  · exact absurd (h.subset (by simp)) hop

theorem splitOutsideQuotes_skip (hblank : ' ' ∉ k) (hop : k ≠ []) (hquotes : Unquoted u) (h : ¬ k <:+: u) :
    splitOutsideQuotes k false false (u ++ ' ' :: w) =
      (splitOutsideQuotes k false false w).map fun parts => (u ++ ' ' :: parts.1, parts.2) := by
  induction u with
  | nil =>
    have hprefix : ¬ k.isPrefixOf (' ' :: w) := by
      intro hprefix
      exact hop (prefix_nil.mp (isPrefix_of_blank (u := []) hblank ( isPrefixOf_iff_prefix.mp hprefix)))
    rw [nil_append, splitOutsideQuotes_cons (by decide), if_neg hprefix]
    rfl
  | cons c u ih =>
    have hprefix : ¬ k.isPrefixOf (c :: (u ++ ' ' :: w)) := by
      intro hprefix
      exact h (isPrefix_of_blank hblank ( isPrefixOf_iff_prefix.mp hprefix)).isInfix
    rw [cons_append, splitOutsideQuotes_cons (hquotes c (.head _)), if_neg hprefix,
      ih (fun c hc => hquotes c (.tail _ hc)) fun hwithin => h (hwithin.trans (List.suffix_cons c u).isInfix), Option.map_map]
    rfl

theorem splitOutsideQuotes_found (hop : k ≠ []) (hquotes : Unquoted u) (h : k <:+: u) :
    ∃ parts, splitOutsideQuotes k false false (u ++ w) = some parts ∧ parts.1.length < u.length := by
  induction u with
  | nil => exact absurd (infix_nil.mp h) hop
  | cons c u ih =>
    rw [cons_append, splitOutsideQuotes_cons (hquotes c (.head _))]
    split
    · exact ⟨_, rfl, Nat.succ_pos _⟩
    · rename_i hprefix
      rcases infix_cons_iff.mp h with h | h
      · exact absurd ( isPrefixOf_iff_prefix.mpr (h.trans (prefix_append (c :: u) w))) hprefix
      · obtain ⟨parts, hparts, hlength⟩ := ih (fun c hc => hquotes c (.tail _ hc)) h
        exact ⟨(c :: parts.1, parts.2), by rw [hparts]; rfl, Nat.succ_lt_succ hlength⟩

theorem splitOutsideQuotes_double (h : '\x22' ∉ u) : splitOutsideQuotes k false true (u ++ '\x22' :: w) =
    (splitOutsideQuotes k false false w).map fun parts => (u ++ '\x22' :: parts.1, parts.2) := by
  induction u with
  | nil => simp [splitOutsideQuotes]
  | cons c u ih =>
    obtain ⟨hc, hxs⟩ := not_or.mp (mt mem_cons.mpr h)
    simp [splitOutsideQuotes, Ne.symm hc, ih hxs, Option.map_map, Function.comp_def]

theorem splitOutsideQuotes_single (h : '\x27' ∉ u) : splitOutsideQuotes k true false (u ++ '\x27' :: w) =
    (splitOutsideQuotes k false false w).map fun parts => (u ++ '\x27' :: parts.1, parts.2) := by
  induction u with
  | nil => simp [splitOutsideQuotes]
  | cons c u ih =>
    obtain ⟨hc, hxs⟩ := not_or.mp (mt mem_cons.mpr h)
    simp [splitOutsideQuotes, Ne.symm hc, ih hxs, Option.map_map, Function.comp_def]

theorem splitOutsideQuotes_append (h : (splitOutsideQuotes k inSingle inDouble u).isSome) :
    (splitOutsideQuotes k inSingle inDouble (u ++ w)).isSome := by
  induction u generalizing inSingle inDouble with
  | nil => cases h
  | cons c u ih =>
    simp only [splitOutsideQuotes, cons_append] at h ⊢
    split
    · rename_i hquote
      rw [if_pos hquote, isSome_map] at h
      rw [isSome_map]
      exact ih h
    rename_i hdouble
    rw [if_neg hdouble] at h
    split
    · rename_i hquote
      rw [if_pos hquote, isSome_map] at h
      rw [isSome_map]
      exact ih h
    rename_i hsingle
    rw [if_neg hsingle] at h
    split
    · rfl
    · rename_i hprefix
      rw [if_neg, isSome_map] at h
      · rw [isSome_map]
        exact ih h
      · rintro hshort
        refine hprefix ?_
        simp only [Bool.and_eq_true, isPrefixOf_iff_prefix] at hshort ⊢
        exact ⟨hshort.1, hshort.2.trans (prefix_append (c :: u) w)⟩

end

section

variable {text : List Char}

structure Tight (text : List Char) : Prop where
  head : ∀ c ∈ text.head?, isWhiteSpace c = false
  last : ∀ c ∈ text.getLast?, isWhiteSpace c = false

theorem dropWhile_of_head (h : ∀ c ∈ text.head?, isWhiteSpace c = false) :
    text.dropWhile isWhiteSpace = text := by
  cases text with
  | nil => rfl
  | cons c rest => exact dropWhile_isWhiteSpace_cons (h c rfl)

theorem dropWhile_reverse_of_last (h : ∀ c ∈ text.getLast?, isWhiteSpace c = false) :
    text.reverse.dropWhile isWhiteSpace = text.reverse :=
  dropWhile_of_head fun c hc => h c (by simpa using hc)

theorem Tight.trimText_blank_cons (h : Tight text) : trimText (' ' :: text) = text := by
  rw [trimText, dropWhile_cons_of_pos (by decide), dropWhile_of_head h.head, dropWhile_reverse_of_last h.last,
    reverse_reverse]

theorem Tight.trimText_blank (h : Tight text) (hne : text ≠ []) : trimText (text ++ [' ']) = text := by
  obtain ⟨c, rest, rfl⟩ := exists_cons_of_ne_nil hne
  have hhead : (c :: rest ++ [' ']).dropWhile isWhiteSpace = c :: rest ++ [' '] :=
    dropWhile_of_head (by simpa using h.head)
  rw [trimText, hhead, reverse_append, reverse_singleton, singleton_append,
    dropWhile_cons_of_pos (by decide), dropWhile_reverse_of_last h.last, reverse_reverse]

theorem length_trimText_le (text : List Char) : (trimText text).length ≤ text.length := by
  unfold trimText
  rw [length_reverse]
  refine Nat.le_trans (dropWhile_suffix _).length_le ?_
  rw [length_reverse]
  exact (dropWhile_suffix _).length_le

end

structure Identifier where
  text : List Char
  nonempty : text ≠ []
  valid : ∀ c ∈ text, isWhiteSpace c = false ∧ c ∉ ['\x22', '\x27', '.', '<', '>', '=', '!']

structure NumberText where
  text : List Char
  nonempty : text ≠ []
  valid : ∀ c ∈ text, c ∈ "0123456789+-.eE".toList

inductive Operand where
  | path (first : Identifier) (rest : List Identifier)
  | number (n : NumberText)
  | bool (b : Bool)
  | null
  | double (body : {body : List Char // '\x22' ∉ body})
  | single (body : {body : List Char // '\x27' ∉ body})

namespace Operand

def chars : Operand → List Char
  | path first rest => "$.".toList ++ first.text ++ rest.flatMap fun segment => '.' :: segment.text
  | number n => n.text
  | bool b => (toString b).toList
  | null => "null".toList
  | double body => '\x22' :: body.1 ++ ['\x22']
  | single body => '\x27' :: body.1 ++ ['\x27']

def text (o : Operand) : String :=
  String.ofList o.chars

def Shows (op : CompareOp) : Operand → Prop
  | double _ | single _ => False
  | o => op.token.toList <:+: o.chars

theorem solid (h : (∀ body, o ≠ double body) ∧ ∀ body, o ≠ single body) :
    ∀ c ∈ o.chars, isWhiteSpace c = false ∧ c ≠ '\x22' ∧ c ≠ '\x27' := by
  have hidentifier (i : Identifier) : ∀ c ∈ i.text, isWhiteSpace c = false ∧ c ≠ '\x22' ∧ c ≠ '\x27' := by
    intro c hc
    obtain ⟨hblank, hnot⟩ := i.valid c hc
    simp only [mem_cons, not_or] at hnot
    exact ⟨hblank, hnot.1, hnot.2.1⟩
  cases o with
  | path first rest =>
    intro c hc
    rcases mem_append.mp hc with hc | hc
    · rcases mem_append.mp hc with hc | hc
      · have hdollar : ∀ c ∈ "$.".toList, isWhiteSpace c = false ∧ c ≠ '\x22' ∧ c ≠ '\x27' :=
          forall_mem_of_all (by decide)
        exact hdollar c hc
      · exact hidentifier first c hc
    · obtain ⟨segment, -, hc⟩ := mem_flatMap.mp hc
      rcases mem_cons.mp hc with rfl | hc
      · decide
      · exact hidentifier segment c hc
  | number n =>
    intro c hc
    have hnumeric : ∀ c ∈ "0123456789+-.eE".toList, isWhiteSpace c = false ∧ c ≠ '\x22' ∧ c ≠ '\x27' :=
      forall_mem_of_all (by decide)
    exact hnumeric c (n.valid c hc)
  | bool b => cases b <;> exact forall_mem_of_all (by decide)
  | null => exact forall_mem_of_all (by decide)
  | double body => exact absurd rfl (h.1 body)
  | single body => exact absurd rfl (h.2 body)

theorem chars_ne_nil (o : Operand) : o.chars ≠ [] := by
  cases o with
  | path first rest => exact nofun
  | number n => exact n.nonempty
  | bool b => cases b <;> decide +kernel
  | null => decide +kernel
  | double body | single body => exact nofun

theorem tight (o : Operand) : Tight o.chars := by
  have hsolid (h : (∀ body, o ≠ double body) ∧ ∀ body, o ≠ single body) : Tight o.chars :=
    ⟨fun c hc => (solid h c (mem_of_mem_head? hc)).1, fun c hc => (solid h c (mem_of_mem_getLast? hc)).1⟩
  cases o with
  | double body | single body =>
    refine ⟨?_, fun c hc => ?_⟩
    · rintro c ⟨⟩
      decide
    · rw [chars, getLast?_concat] at hc
      cases hc
      decide
  | _ => exact hsolid ⟨nofun, nofun⟩

end Operand

namespace CompareOp

def earlier (op : CompareOp) : List CompareOp :=
  CompareOp.all.takeWhile (· ≠ op)

theorem token_ne_nil (op : CompareOp) : op.token.toList ≠ [] := by
  cases op <;> decide

theorem blank_not_mem_token (op : CompareOp) : ' ' ∉ op.token.toList := by
  cases op <;> decide

theorem unquoted_token (op : CompareOp) : Unquoted op.token.toList := by
  cases op <;> exact forall_mem_of_all (by decide)

theorem not_infix_token {op op' : CompareOp} (h : op' ∈ op.earlier) : ¬ op'.token.toList <:+: op.token.toList := by
  have hall : ∀ op ∈ all, ∀ op' ∈ op.earlier, ¬ op'.token.toList <:+: op.token.toList := by decide +kernel
  exact hall op (by cases op <;> decide) op' h

theorem all_eq (op : CompareOp) : ∃ later, all = op.earlier ++ op :: later := by
  cases op <;> exact ⟨_, rfl⟩

theorem earlier_of_all_eq (h : all = before ++ op :: later) : op.earlier = before := by
  have hnodup : (before ++ op :: later).Nodup := h ▸ (by decide : all.Nodup)
  have hne : ∀ x ∈ before, decide (x ≠ op) := by
    intro x hx
    have hdisjoint := (nodup_append.mp hnodup).2.2 x hx op (.head _)
    simpa using hdisjoint
  rw [earlier, h, takeWhile_append_of_pos hne, takeWhile_cons_of_neg (by simp), append_nil]

end CompareOp

section

variable {o : Operand} {op : CompareOp}

theorem Operand.skip (h : ¬ o.Shows op) : splitOutsideQuotes op.token.toList false false (o.chars ++ ' ' :: w) =
    (splitOutsideQuotes op.token.toList false false w).map fun parts => (o.chars ++ ' ' :: parts.1, parts.2) := by
  have hblank : splitOutsideQuotes op.token.toList false false (' ' :: w) =
      (splitOutsideQuotes op.token.toList false false w).map fun parts => (' ' :: parts.1, parts.2) :=
    splitOutsideQuotes_skip (u := []) op.blank_not_mem_token op.token_ne_nil nofun
      fun h => op.token_ne_nil (infix_nil.mp h)
  have hsolid (hbare : (∀ body, o ≠ double body) ∧ ∀ body, o ≠ single body) (h : ¬ op.token.toList <:+: o.chars) :
      splitOutsideQuotes op.token.toList false false (o.chars ++ ' ' :: w) =
        (splitOutsideQuotes op.token.toList false false w).map fun parts => (o.chars ++ ' ' :: parts.1, parts.2) :=
    splitOutsideQuotes_skip op.blank_not_mem_token op.token_ne_nil (fun c hc => (solid hbare c hc).2) h
  cases o with
  | double body =>
    have hbody := splitOutsideQuotes_double (k := op.token.toList) (w := ' ' :: w) body.2
    rw [hblank] at hbody
    simp [chars, splitOutsideQuotes, hbody, Option.map_map, Function.comp_def]
  | single body =>
    have hbody := splitOutsideQuotes_single (k := op.token.toList) (w := ' ' :: w) body.2
    rw [hblank] at hbody
    simp [chars, splitOutsideQuotes, hbody, Option.map_map, Function.comp_def]
  | _ => exact hsolid ⟨nofun, nofun⟩ h

theorem Operand.none (h : ¬ o.Shows op) : splitOutsideQuotes op.token.toList false false o.chars = none := by
  have hskip := skip h (w := [])
  by_contra hsome
  have hfound := splitOutsideQuotes_append (w := [' ']) (isSome_iff_ne_none.mpr hsome)
  rw [hskip] at hfound
  cases hfound

theorem Operand.found (h : o.Shows op) : ∃ parts,
    splitOutsideQuotes op.token.toList false false (o.chars ++ w) = some parts ∧ parts.1.length < o.chars.length := by
  have hsolid (hbare : (∀ body, o ≠ double body) ∧ ∀ body, o ≠ single body) (h : op.token.toList <:+: o.chars) :=
    splitOutsideQuotes_found (w := w) op.token_ne_nil (fun c hc => (solid hbare c hc).2) h
  cases o with
  | double body | single body => cases h
  | _ => exact hsolid ⟨nofun, nofun⟩ h

end

section

variable (l r : Operand) (op : CompareOp)

def comparison : List Char :=
  l.chars ++ ' ' :: (op.token.toList ++ ' ' :: r.chars)

theorem split_earlier {op' : CompareOp} (h : op' ∈ op.earlier) :
    splitOutsideQuotes op'.token.toList false false (comparison l r op) = none ↔ ¬ l.Shows op' ∧ ¬ r.Shows op' := by
  have hskip (w : List Char) := splitOutsideQuotes_skip (w := w) op'.blank_not_mem_token op'.token_ne_nil op.unquoted_token
    (CompareOp.not_infix_token h)
  unfold comparison
  by_cases hl : l.Shows op'
  · obtain ⟨parts, hparts, -⟩ := Operand.found hl (w := ' ' :: (op.token.toList ++ ' ' :: r.chars))
    simp [hparts, hl]
  · rw [Operand.skip hl, hskip]
    by_cases hr : r.Shows op'
    · obtain ⟨parts, hparts, -⟩ := Operand.found hr (w := [])
      rw [append_nil] at hparts
      simp [hparts, hr]
    · simp [Operand.none hr, hl, hr]

theorem split_operator : (∃ parts, splitOutsideQuotes op.token.toList false false (comparison l r op) = some parts ∧
    trimText parts.1 = l.chars ∧ trimText parts.2 = r.chars) ↔ ¬ l.Shows op := by
  constructor
  · rintro ⟨parts, hparts, hleft, -⟩ hshows
    obtain ⟨parts', hparts', hlength⟩ := Operand.found hshows (w := ' ' :: (op.token.toList ++ ' ' :: r.chars))
    obtain rfl : parts' = parts := Option.some.inj (hparts'.symm.trans hparts)
    have hle := length_trimText_le parts'.1
    rw [hleft] at hle
    omega
  · intro hl
    refine ⟨(l.chars ++ [' '], ' ' :: r.chars), ?_, l.tight.trimText_blank l.chars_ne_nil, r.tight.trimText_blank_cons⟩
    rw [comparison, Operand.skip hl, splitOutsideQuotes_self op.token_ne_nil op.unquoted_token]
    rfl

end

/-- A comparison is read back as it was written unless an operand shows its operator on the left, or one that is looked
for before it. -/
theorem parseBinaryExpr_eq_iff (l r : Operand) (op : CompareOp) :
    parseBinaryExpr (l.text ++ " " ++ op.token ++ " " ++ r.text) = some ⟨l.text, op, r.text⟩ ↔
      ¬ l.Shows op ∧ ∀ op' ∈ op.earlier, ¬ l.Shows op' ∧ ¬ r.Shows op' := by
  have htext : (l.text ++ " " ++ op.token ++ " " ++ r.text).toList = comparison l r op := by
    simp [Operand.text, comparison]
  rw [parseBinaryExpr, htext, findSome?_eq_some_iff]
  constructor
  · rintro ⟨before, op', later, hall, hfound, hbefore⟩
    obtain ⟨parts, hparts, hexpr⟩ := map_eq_some_iff.mp hfound
    obtain rfl : op' = op := congrArg BinaryExpr.op hexpr
    have htrimmed : trimText parts.1 = l.chars ∧ trimText parts.2 = r.chars := by
      simpa [trim, Operand.text, String.ofList_inj] using hexpr
    refine ⟨(split_operator l r op').mp ⟨parts, hparts, htrimmed⟩, fun op₀ h₀ => ?_⟩
    refine (split_earlier l r op' h₀).mp (map_eq_none_iff.mp (hbefore op₀ ?_))
    exact CompareOp.earlier_of_all_eq hall ▸ h₀
  · rintro ⟨hl, hearlier⟩
    obtain ⟨later, hall⟩ := op.all_eq
    obtain ⟨parts, hparts, hleft, hright⟩ := (split_operator l r op).mpr hl
    refine ⟨op.earlier, op, later, hall, ?_, fun op' h' => ?_⟩
    · simp [hparts, trim, Operand.text, hleft, hright]
    · rw [(split_earlier l r op h').mpr (hearlier op' h')]
      rfl

/-- A slot whose name holds the text of an operator that is looked for first. -/
theorem parseBinaryExpr_shown : ∃ (l r : Operand) (op : CompareOp),
    parseBinaryExpr (l.text ++ " " ++ op.token ++ " " ++ r.text) ≠ some ⟨l.text, op, r.text⟩ := by
  refine ⟨.path ⟨"context".toList, by decide, forall_mem_of_all (by decide)⟩
    [⟨"contains_pii".toList, by decide, forall_mem_of_all (by decide)⟩], .bool true, .eq, ?_⟩
  decide +kernel

end Praxec
