import Mathlib.Data.List.Basic

namespace Praxec.Text

open List Nat String

def containsText (text needle : List Char) : Bool :=
  match text with
  | [] => needle.isEmpty
  | c :: rest => needle.isPrefixOf (c :: rest) || containsText rest needle

def splitOnce (sep : List Char) : List Char → Option (List Char × List Char)
  | [] => none
  | c :: rest =>
      if sep.isPrefixOf (c :: rest) then some ([], (c :: rest).drop sep.length)
      else (splitOnce sep rest).map fun parts => (c :: parts.1, parts.2)

def stripStart (start text : List Char) : Option (List Char) :=
  if start.isPrefixOf text then some (text.drop start.length) else none

def trimStart (c : Char) (text : List Char) : List Char :=
  text.dropWhile fun d => d = c

def trimEnd (c : Char) (text : List Char) : List Char :=
  (trimStart c text.reverse).reverse

def replaceChar (old new : Char) (text : List Char) : List Char :=
  text.map fun c => if c = old then new else c

/-- Replace every occurrence of `needle`, left to right and without overlaps; `fuel` bounds the
length of the text. -/
def replaceAllFrom (needle new : List Char) : Nat → List Char → List Char
  | 0, text => text
  | _, [] => []
  | fuel + 1, c :: rest =>
      if needle.isPrefixOf (c :: rest) then
        new ++ replaceAllFrom needle new fuel ((c :: rest).drop needle.length)
      else c :: replaceAllFrom needle new fuel rest

def replaceAll (s needle new : String) : String :=
  String.ofList (replaceAllFrom needle.toList new.toList s.length s.toList)

def startsWith (s start : String) : Bool :=
  start.toList.isPrefixOf s.toList

def contains (s needle : String) : Bool :=
  containsText s.toList needle.toList

def isWhiteSpace (c : Char) : Bool :=
  let n := c.toNat
  (9 ≤ n && n ≤ 13) || n == 0x20 || n == 0x85 || n == 0xA0 || n == 0x1680 || (0x2000 ≤ n && n ≤ 0x200A) ||
    n == 0x2028 || n == 0x2029 || n == 0x202F || n == 0x205F || n == 0x3000

def isBlank (s : String) : Bool :=
  s.toList.all isWhiteSpace

def trimText (text : List Char) : List Char :=
  ((text.dropWhile isWhiteSpace).reverse.dropWhile isWhiteSpace).reverse

def trim (s : String) : String :=
  String.ofList (trimText s.toList)

theorem startsWith_append (start rest : String) : startsWith (start ++ rest) start := by
  simp [startsWith]

theorem startsWith_iff (s start : String) : startsWith s start ↔ ∃ rest, s = start ++ rest := by
  constructor
  · intro h
    obtain ⟨rest, hrest⟩ := isPrefixOf_iff_prefix.mp h
    refine ⟨String.ofList rest, toList_injective ?_⟩
    simpa using hrest.symm
  · rintro ⟨rest, rfl⟩
    exact startsWith_append start rest

variable {text rest start sep : List Char} {c new : Char}

theorem head_dropWhile_isWhiteSpace (h : text.dropWhile isWhiteSpace = c :: rest) : isWhiteSpace c = false := by
  have hhead := head_dropWhile_not isWhiteSpace (l := text) (by rw [h]; exact nofun)
  simpa [h] using hhead

theorem dropWhile_isWhiteSpace_cons (h : isWhiteSpace c = false) :
    (c :: rest).dropWhile isWhiteSpace = c :: rest := by
  rw [dropWhile_cons_of_neg (by simp [h])]

theorem trimText_trimText : trimText (trimText text) = trimText text := by
  unfold trimText
  cases hends : (text.dropWhile isWhiteSpace).reverse.dropWhile isWhiteSpace with
  | nil => rfl
  | cons last inits =>
    have hlast := head_dropWhile_isWhiteSpace hends
    -- what is left after both trims starts with the first character that the first trim kept
    have hsuffix : last :: inits <:+ (text.dropWhile isWhiteSpace).reverse := hends ▸ dropWhile_suffix _
    have hfront : ((last :: inits).reverse).dropWhile isWhiteSpace = (last :: inits).reverse := by
      obtain ⟨dropped, hdropped⟩ := hsuffix
      have htext : text.dropWhile isWhiteSpace = (last :: inits).reverse ++ dropped.reverse := by
        rw [← reverse_append, hdropped, reverse_reverse]
      cases hkept : (last :: inits).reverse with
      | nil => rfl
      | cons first more =>
        rw [hkept] at htext
        exact dropWhile_isWhiteSpace_cons (head_dropWhile_isWhiteSpace htext)
    rw [hfront, reverse_reverse, dropWhile_isWhiteSpace_cons hlast]

@[simp]
theorem trim_trim (s : String) : trim (trim s) = trim s := by
  unfold trim
  rw [toList_ofList, trimText_trimText]

theorem forall_mem_of_all {α : Type} {P : α → Prop} [DecidablePred P] {xs : List α} (h : xs.all (P ·)) :
    ∀ x ∈ xs, P x :=
  fun x hx => of_decide_eq_true (all_eq_true.mp h x hx)

theorem startsWith_of_stripStart {s start : String}
    (h : stripStart start.toList s.toList = some rest) : startsWith s start := by
  unfold stripStart at h
  split at h
  · assumption
  · cases h

theorem eq_append_of_stripStart (h : stripStart start text = some rest) : text = start ++ rest := by
  unfold stripStart at h
  split at h
  case isTrue hstart =>
    cases h
    obtain ⟨rest, rfl⟩ := isPrefixOf_iff_prefix.mp hstart
    rw [drop_left]
  case isFalse => cases h

theorem replaceChar_eq_self (h : old ∉ cs) : replaceChar old new cs = cs := by
  induction cs with
  | nil => rfl
  | cons c rest ih =>
    obtain ⟨hc, hrest⟩ := ne_and_not_mem_of_not_mem_cons h
    change (if c = old then new else c) :: replaceChar old new rest = c :: rest
    rw [if_neg (Ne.symm hc), ih hrest]

theorem splitOnce_eq_none (hc : c ∈ sep) (h : c ∉ text) : splitOnce sep text = none := by
  induction text with
  | nil => rfl
  | cons d rest ih =>
    have hstart : ¬ sep.isPrefixOf (d :: rest) := by
      intro hprefix
      exact h (( isPrefixOf_iff_prefix.mp hprefix).subset hc)
    unfold splitOnce
    rw [if_neg hstart, ih (ne_and_not_mem_of_not_mem_cons h).2]
    rfl

theorem splitOnce_append (sep : List Char) (rest : List Char) (h : c ∉ text) :
    splitOnce (c :: sep) (text ++ (c :: sep) ++ rest) = some (text, rest) := by
  induction text with
  | nil => simp [splitOnce]
  | cons d more ih =>
    obtain ⟨hd, hmore⟩ := ne_and_not_mem_of_not_mem_cons h
    rw [cons_append, cons_append, splitOnce, if_neg (by simp [hd]), ih hmore]
    rfl

theorem eq_append_of_splitOnce (h : splitOnce sep text = some parts) : text = parts.1 ++ sep ++ parts.2 := by
  induction text generalizing parts with
  | nil => cases h
  | cons c rest ih =>
    unfold splitOnce at h
    split at h
    case isTrue hstart =>
      cases h
      obtain ⟨after, hafter⟩ := isPrefixOf_iff_prefix.mp hstart
      rw [← hafter, drop_left]
      rfl
    case isFalse =>
      obtain ⟨inner, hinner, rfl⟩ := Option.map_eq_some_iff.mp h
      rw [ih hinner]
      rfl

theorem length_trimEnd_le (c : Char) (text : List Char) : (trimEnd c text).length ≤ text.length := by
  unfold trimEnd trimStart
  have hdropped := (dropWhile_suffix (· == c) (l := text.reverse)).length_le
  rw [length_reverse] at hdropped ⊢
  exact hdropped

theorem trimText_append (rest : List Char) (hfront : ∀ more, (root ++ more).dropWhile isWhiteSpace = root ++ more)
    (hback : root.reverse.dropWhile isWhiteSpace = root.reverse) :
    trimText (root ++ rest) = root ++ (rest.reverse.dropWhile isWhiteSpace).reverse := by
  unfold trimText
  rw [hfront, reverse_append, dropWhile_append]
  split
  case isTrue hempty => simp [hback, isEmpty_iff.mp hempty]
  case isFalse => simp

variable {first : Char}

theorem trimText_prefix (rest : List Char) (h : isWhiteSpace first = false) :
    trimText (first :: rest) <+: first :: rest := by
  unfold trimText
  rw [dropWhile_isWhiteSpace_cons h]
  obtain ⟨dropped, hdropped⟩ := dropWhile_suffix isWhiteSpace (l := (first :: rest).reverse)
  refine ⟨dropped.reverse, ?_⟩
  rw [← reverse_append, hdropped, reverse_reverse]

theorem trimText_eq_self (h : ∀ c ∈ cs, isWhiteSpace c = false) : trimText cs = cs := by
  have hkeep {ds : List Char} (hds : ∀ c ∈ ds, isWhiteSpace c = false) : ds.dropWhile isWhiteSpace = ds := by
    cases ds with
    | nil => rfl
    | cons d rest => exact dropWhile_isWhiteSpace_cons (hds d mem_cons_self)
  unfold trimText
  rw [hkeep h, hkeep fun c hc => h c (mem_reverse.mp hc), reverse_reverse]

variable {needle tail : List Char} {x : Char}

theorem prefix_of_prefix_append (hx : x ∉ needle) (h : needle <+: text ++ x :: tail) : needle <+: text := by
  rcases Nat.le_total needle.length text.length with hle | hle
  · exact prefix_of_prefix_length_le h (prefix_append _ _) hle
  · obtain ⟨rest, rfl⟩ := prefix_of_prefix_length_le (prefix_append text (x :: tail)) h hle
    cases rest with
    | nil => exact (append_nil text).symm ▸ prefix_rfl
    | cons y rest =>
      have hy := (prefix_append_right_inj text).mp h
      obtain ⟨more, heq⟩ := hy
      cases heq
      exact absurd (mem_append_right _ (.head _)) hx

theorem replaceAllFrom_of_not_mem {new : List Char} (hneedle : needle.head? = some first)
    (h : first ∉ text) : replaceAllFrom needle new fuel text = text := by
  induction text generalizing fuel with
  | nil => cases fuel <;> rfl
  | cons c rest ih =>
    cases fuel with
    | zero => rfl
    | succ fuel =>
      have hno : needle.isPrefixOf (c :: rest) = false := by
        cases needle with
        | nil => cases hneedle
        | cons d needle =>
          cases hneedle
          have hne : first ≠ c := fun heq => h (heq ▸ .head _)
          simp [List.isPrefixOf, hne]
      rw [replaceAllFrom, hno, ih (fun hmem => h (.tail _ hmem))]
      rfl

theorem replaceAllFrom_append {new : List Char} (hneedle : needle.head? = some first)
    (hx : x ∉ needle) (htail : first ∉ x :: tail) {fuel fuel' : Nat} (hfuel : text.length ≤ fuel)
    (hfuel' : (text ++ x :: tail).length ≤ fuel') :
    replaceAllFrom needle new fuel' (text ++ x :: tail) = replaceAllFrom needle new fuel text ++ x :: tail := by
  induction fuel generalizing text fuel' with
  | zero =>
    cases eq_nil_of_length_eq_zero (le_zero.mp hfuel)
    exact replaceAllFrom_of_not_mem hneedle htail
  | succ fuel ih =>
    cases text with
    | nil => exact replaceAllFrom_of_not_mem hneedle htail
    | cons c rest =>
      cases fuel' with
      | zero => cases hfuel'
      | succ fuel' =>
        have hpositive : 0 < needle.length := by
          cases needle with
          | nil => cases hneedle
          | cons d needle => exact succ_pos _
        rw [cons_append, replaceAllFrom, replaceAllFrom]
        rw [List.length_append, List.length_cons, List.length_cons] at hfuel'
        rw [length_cons] at hfuel
        by_cases hfound : needle <+: c :: rest
        · have hfound' : needle <+: c :: (rest ++ x :: tail) := hfound.trans (prefix_append _ _)
          have hdrop : (c :: (rest ++ x :: tail)).drop needle.length = (c :: rest).drop needle.length ++ x :: tail :=
            drop_append_of_le_length hfound.length_le
          have hshort : ((c :: rest).drop needle.length).length ≤ rest.length := by
            rw [length_drop, length_cons]
            omega
          rw [if_pos ( isPrefixOf_iff_prefix.mpr hfound), if_pos ( isPrefixOf_iff_prefix.mpr hfound'), hdrop,
            ih (by omega) (by rw [List.length_append, List.length_cons]; omega), List.append_assoc]
        · have hmissing : ¬ needle <+: c :: (rest ++ x :: tail) := fun h => hfound (prefix_of_prefix_append hx h)
          rw [if_neg (mt isPrefixOf_iff_prefix.mp hfound), if_neg (mt isPrefixOf_iff_prefix.mp hmissing),
            ih (by omega) (by rw [List.length_append, List.length_cons]; omega), List.cons_append]

theorem replaceAll_append {s t needle new : String} (hneedle : needle.toList.head? = some first)
    (ht : t.toList = x :: tail) (hx : x ∉ needle.toList) (htail : first ∉ x :: tail) :
    replaceAll (s ++ t) needle new = replaceAll s needle new ++ t := by
  unfold replaceAll
  apply toList_injective
  rw [toList_append, toList_append, toList_ofList, toList_ofList, ht]
  have hlength : (s.toList ++ x :: tail).length ≤ (s ++ t).length := by
    rw [← ht, ← toList_append]
    exact Nat.le_of_eq length_toList
  exact replaceAllFrom_append hneedle hx htail (Nat.le_of_eq length_toList) hlength

theorem append_sep_inj {sep : Char} {a b c d : List Char} (hb : sep ∉ b) (hd : sep ∉ d) (h : a ++ sep :: b = c ++ sep :: d) :
    a = c ∧ b = d := by
  rcases append_eq_append_iff.mp h with ⟨mid, rfl, hmid⟩ | ⟨mid, rfl, hmid⟩
  · cases mid with
    | nil =>
      cases hmid
      exact ⟨(append_nil a).symm, rfl⟩
    | cons e mid =>
      cases hmid
      exact absurd (mem_append_right _ (.head _)) hb
  · cases mid with
    | nil =>
      cases hmid
      exact ⟨append_nil c, rfl⟩
    | cons e mid =>
      cases hmid
      exact absurd (mem_append_right _ (.head _)) hd

end Praxec.Text
