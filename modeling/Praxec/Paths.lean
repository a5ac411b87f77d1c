import Praxec.Guards.Verdicts
import Praxec.Mapping.WriteScopes
import Praxec.Templating

namespace Praxec

open Json List Text Nat String Text

variable {c : Char} {cs part path : List Char}

def charBytes (c : Char) : List Char :=
  (String.utf8EncodeChar c).map fun b => Char.ofNat b.toNat

theorem pathBytes_ofList : pathBytes (String.ofList cs) = cs.flatMap charBytes := by
  unfold pathBytes
  rw [toByteArray_ofList, List.utf8Encode, data_toByteArray, map_flatMap]
  rfl

theorem charBytes_of_ascii (h : c.toNat < 128) : charBytes c = [c] := by
  have hval : c.val.toNat ≤ 127 := le_of_lt_succ h
  have hbyte : (UInt8.ofNat c.val.toNat).toNat = c.toNat := by
    exact mod_eq_of_lt (by omega)
  simp only [charBytes, String.utf8EncodeChar, hval, if_true, map_cons, map_nil, hbyte, Char.ofNat_toNat]

theorem le_toNat_of_mem_charBytes (h : 128 ≤ c.toNat) (hd : d ∈ charBytes c) : 128 ≤ d.toNat := by
  have hbyte (n : Nat) (hlow : 128 ≤ n) (hhigh : n < 256) : 128 ≤ (Char.ofNat (UInt8.ofNat n).toNat).toNat := by
    have hvalid : n.isValidChar := .inl (by omega)
    rw [UInt8.toNat_ofNat', mod_eq_of_lt hhigh, Char.ofNat, dif_pos hvalid]
    exact hlow
  have hval : ¬ c.val.toNat ≤ 127 := by
    intro hle
    exact absurd h (Nat.not_le.mpr (lt_succ_of_le hle))
  obtain ⟨b, hb, rfl⟩ := mem_map.mp hd
  simp only [String.utf8EncodeChar, hval, if_false] at hb
  split at hb
  · simp only [mem_cons, not_mem_nil, or_false] at hb
    rcases hb with rfl | rfl <;> exact hbyte _ (by omega) (by omega)
  · split at hb
    · simp only [mem_cons, not_mem_nil, or_false] at hb
      rcases hb with rfl | rfl | rfl <;> exact hbyte _ (by omega) (by omega)
    · simp only [mem_cons, not_mem_nil, or_false] at hb
      rcases hb with rfl | rfl | rfl | rfl <;> exact hbyte _ (by omega) (by omega)

theorem flatMap_charBytes_of_ascii (h : ∀ c ∈ cs, c.toNat < 128) : cs.flatMap charBytes = cs := by
  induction cs with
  | nil => rfl
  | cons c rest ih =>
    obtain ⟨hc, hrest⟩ := forall_mem_cons.mp h
    rw [flatMap_cons, charBytes_of_ascii hc, ih hrest]
    rfl

theorem length_le_length_flatMap_charBytes (cs : List Char) : cs.length ≤ (cs.flatMap charBytes).length := by
  induction cs with
  | nil => exact Nat.le_refl 0
  | cons c rest ih =>
    have hpos : 0 < (charBytes c).length := by
      rw [charBytes, List.length_map, String.length_utf8EncodeChar]
      exact c.utf8Size_pos
    rw [List.flatMap_cons, List.length_append, List.length_cons]
    omega

theorem ascii_of_flatMap_charBytes (h : cs.flatMap charBytes = cs) : ∀ c ∈ cs, c.toNat < 128 := by
  induction cs with
  | nil => simp
  | cons c rest ih =>
    have hlength := congrArg List.length h
    have hrest := length_le_length_flatMap_charBytes rest
    rw [List.flatMap_cons, List.length_append, List.length_cons] at hlength
    have hsize : c.utf8Size ≤ 1 := by
      have hbytes : (charBytes c).length = c.utf8Size := by
        rw [charBytes, List.length_map, String.length_utf8EncodeChar]
      omega
    have hc : c.toNat < 128 :=
      lt_succ_of_le (Char.utf8Size_eq_one_iff.mp (Nat.le_antisymm hsize c.utf8Size_pos))
    rw [flatMap_cons, charBytes_of_ascii hc] at h
    exact forall_mem_cons.mpr ⟨hc, ih (List.cons.inj h).2⟩

def isSegmentChar (c : Char) : Bool :=
  !(['.', '[', ']', '*', '/', '~', '\x7b', '\x7d'].contains c || isWhiteSpace c)

structure PathSegment where
  name : List Char
  indexes : List Nat
  plain : ∀ c ∈ name, isSegmentChar c = true

def PathSegment.text (seg : PathSegment) : List Char :=
  seg.name ++ seg.indexes.flatMap fun n => '[' :: (toString n).toList ++ [']']

structure DotPath where
  first : PathSegment
  rest : List PathSegment

namespace DotPath

def segments (p : DotPath) : List PathSegment :=
  p.first :: p.rest

def text (p : DotPath) : List Char :=
  p.first.text ++ p.rest.flatMap fun seg => '.' :: seg.text

def expr (p : DotPath) : String :=
  String.ofList ("$.context.".toList ++ p.text)

def placeholder (p : DotPath) : String :=
  String.ofList ("\x7b\x7b".toList ++ p.expr.toList ++ "\x7d\x7d".toList)

end DotPath

inductive PathStep where
  | key (name : String)
  | index (n : Nat)

/-- A key of digits also counts into an array, as in `items.0.name`. -/
def takeStep : Value → PathStep → Option Value
  | v, .key name => v.step name
  | .array xs, .index n => xs[n]?
  | _, .index _ => none

def follow : Value → List PathStep → Option Value
  | v, [] => some v
  | v, step :: rest => (takeStep v step).bind fun w => follow w rest

def PathSegment.steps (seg : PathSegment) : List PathStep :=
  .key (String.ofList seg.name) :: seg.indexes.map .index

def DotPath.steps (p : DotPath) : List PathStep :=
  p.segments.flatMap PathSegment.steps

theorem replaceTilde_eq_self (h : '~' ∉ cs) : replaceTilde cs = cs := by
  induction cs with
  | nil => rfl
  | cons c rest ih =>
    obtain ⟨hc, hrest⟩ := ne_and_not_mem_of_not_mem_cons h
    simp [replaceTilde, Ne.symm hc, ih hrest]

theorem replaceSlash_eq_self (h : '/' ∉ cs) : replaceSlash cs = cs := by
  induction cs with
  | nil => rfl
  | cons c rest ih =>
    obtain ⟨hc, hrest⟩ := ne_and_not_mem_of_not_mem_cons h
    simp [replaceSlash, Ne.symm hc, ih hrest]

def IsToken (part : List Char) : Prop :=
  '.' ∉ part ∧ '/' ∉ part ∧ '~' ∉ part

theorem pointerEscape_of_isToken (h : IsToken part) : (pointerEscape (String.ofList part)).toList = part := by
  unfold pointerEscape
  rw [toList_ofList, toList_ofList, replaceTilde_eq_self h.2.2, replaceSlash_eq_self h.2.1]

theorem slashes_of_dots {parts : List (List Char)} (h : ∀ part ∈ parts, IsToken part) :
    replaceChar '.' '/' (parts.flatMap fun part => '.' :: part) =
      (parts.map String.ofList).flatMap fun token => '/' :: (pointerEscape token).toList := by
  induction parts with
  | nil => rfl
  | cons part rest ih =>
    obtain ⟨hpart, hrest⟩ := forall_mem_cons.mp h
    rw [flatMap_cons, map_cons, flatMap_cons, pointerEscape_of_isToken hpart, ← ih hrest]
    unfold replaceChar
    rw [map_append]
    exact congrArg (fun cs => '/' :: cs ++ _) (replaceChar_eq_self hpart.1)

theorem pointer_of_dots {rest : List (List Char)} (h : ∀ part ∈ first :: rest, IsToken part) :
    String.ofList ('/' :: replaceChar '.' '/' (first ++ rest.flatMap fun part => '.' :: part)) =
      pointerPath ((first :: rest).map String.ofList) := by
  obtain ⟨hfirst, hrest⟩ := forall_mem_cons.mp h
  unfold pointerPath
  rw [map_cons, flatMap_cons, pointerEscape_of_isToken hfirst, ← slashes_of_dots hrest]
  unfold replaceChar
  rw [map_append]
  exact congrArg (fun cs => String.ofList ('/' :: cs ++ _)) (replaceChar_eq_self hfirst.1)

theorem pathToPointerFrom_eq_replaceChar (h : '[' ∉ cs) :
    pathToPointerFrom false cs = replaceChar '.' '/' cs := by
  induction cs with
  | nil => rfl
  | cons c rest ih =>
    obtain ⟨hc, hrest⟩ := ne_and_not_mem_of_not_mem_cons h
    unfold pathToPointerFrom replaceChar
    by_cases hdot : c = '.'
    · simp [hdot, ih hrest, replaceChar]
    · simp [hdot, Ne.symm hc, ih hrest, replaceChar]

section

variable {seg : PathSegment} {c : Char}

theorem PathSegment.ne_of_mem_name (h : c ∈ seg.name) :
    c ∉ ['.', '[', ']', '*', '/', '~', '\x7b', '\x7d'] ∧ isWhiteSpace c = false := by
  have hplain := seg.plain c h
  unfold isSegmentChar at hplain
  rw [Bool.not_eq_true', Bool.or_eq_false_iff, contains_eq_mem, decide_eq_false_iff_not] at hplain
  exact hplain

theorem not_isDigit_of_mem (h : c ∈ ['.', '*', '/', '~']) : c.isDigit = false := by
  exact forall_mem_of_all (P := fun c => c.isDigit = false) (by decide) c h

theorem PathSegment.not_mem_text (hc : c ∈ ['.', '*', '/', '~']) : c ∉ seg.text := by
  intro hmem
  rcases mem_append.mp hmem with hname | hindex
  · have hspecial : ∀ d ∈ ['.', '*', '/', '~'], d ∈ ['.', '[', ']', '*', '/', '~', '\x7b', '\x7d'] :=
      forall_mem_of_all (by decide)
    exact (ne_of_mem_name hname).1 (hspecial c hc)
  · obtain ⟨n, -, hn⟩ := mem_flatMap.mp hindex
    rcases mem_append.mp hn with hopen | hclose
    · rcases mem_cons.mp hopen with rfl | hdigits
      · exact absurd hc (by decide)
      · have hdigit : c.isDigit := isDigit_of_mem_toDigits (b := 10) (by decide) (by decide)
          (by simpa [Nat.repr] using hdigits)
        rw [not_isDigit_of_mem hc] at hdigit
        cases hdigit
    · rcases mem_singleton.mp hclose with rfl
      exact absurd hc (by decide)

theorem PathSegment.isToken_text (seg : PathSegment) : IsToken seg.text :=
  ⟨seg.not_mem_text (by decide), seg.not_mem_text (by decide), seg.not_mem_text (by decide)⟩

theorem PathSegment.text_eq_name (h : seg.indexes = []) : seg.text = seg.name := by
  simp [text, h]

theorem PathSegment.indexes_eq_nil (h : seg.text = seg.name) : seg.indexes = [] := by
  have hnone := append_right_eq_self.mp h
  cases hindexes : seg.indexes with
  | nil => rfl
  | cons n rest =>
    rw [hindexes] at hnone
    cases hnone

theorem PathSegment.not_mem_bytes (hd : d ∈ ['.', '[', '/', '~']) : d ∉ seg.name.flatMap charBytes := by
  intro hmem
  obtain ⟨c, hc, hbyte⟩ := mem_flatMap.mp hmem
  have hlow : ∀ d ∈ ['.', '[', '/', '~'], d.toNat < 128 ∧ d ∈ ['.', '[', ']', '*', '/', '~', '\x7b', '\x7d'] :=
    forall_mem_of_all (by decide)
  by_cases hascii : c.toNat < 128
  · rw [charBytes_of_ascii hascii, mem_singleton] at hbyte
    subst hbyte
    exact (ne_of_mem_name hc).1 (hlow d hd).2
  · have hhigh := le_toNat_of_mem_charBytes (Nat.not_lt.mp hascii) hbyte
    exact absurd hhigh (Nat.not_le.mpr (hlow d hd).1)

theorem PathSegment.isToken_bytes (seg : PathSegment) : IsToken (seg.name.flatMap charBytes) :=
  ⟨seg.not_mem_bytes (by decide), seg.not_mem_bytes (by decide), seg.not_mem_bytes (by decide)⟩

end

namespace DotPath

variable {p : DotPath}

theorem not_mem_text (hc : c ∈ ['*', '/', '~']) : c ∉ p.text := by
  have hsub : ∀ c ∈ ['*', '/', '~'], c ∈ ['.', '*', '/', '~'] ∧ c ≠ '.' :=
    forall_mem_of_all (by decide)
  intro hmem
  rcases mem_append.mp hmem with hfirst | hrest
  · exact p.first.not_mem_text (hsub c hc).1 hfirst
  · obtain ⟨seg, -, hseg⟩ := mem_flatMap.mp hrest
    rcases mem_cons.mp hseg with hdot | htext
    · exact (hsub c hc).2 hdot
    · exact seg.not_mem_text (hsub c hc).1 htext

theorem resolvePath_text (root : Value) (p : DotPath) :
    resolvePath root p.text = root.walk (p.segments.map fun seg => String.ofList seg.text) := by
  have hwild : splitOnce "[*]".toList p.text = none :=
    splitOnce_eq_none (c := '*') (by decide) (p.not_mem_text (by decide))
  have hparts : ∀ part ∈ p.first.text :: p.rest.map PathSegment.text, IsToken part := by
    rw [← map_cons]
    exact forall_mem_map.mpr fun seg _ => seg.isToken_text
  have hpointer : dotPointer p.text = pointerPath (p.segments.map fun seg => String.ofList seg.text) := by
    have hdots := pointer_of_dots hparts
    rw [List.flatMap_map, ← List.map_cons, List.map_map] at hdots
    exact hdots
  unfold resolvePath resolvePathWithProjection
  rw [hwild]
  rw [hpointer, Value.pointer_pointerPath]

def Indexless (p : DotPath) : Prop :=
  ∀ seg ∈ p.segments, seg.indexes = []

instance (p : DotPath) : Decidable p.Indexless :=
  inferInstanceAs (Decidable (∀ seg ∈ p.segments, seg.indexes = []))

theorem Indexless.text_eq (h : p.Indexless) :
    p.text = p.first.name ++ p.rest.flatMap fun seg => '.' :: seg.name := by
  obtain ⟨hfirst, hrest⟩ := forall_mem_cons.mp h
  unfold text
  rw [PathSegment.text_eq_name hfirst]
  refine congrArg _ ?_
  refine congrArg List.flatten (map_congr_left fun seg hseg => ?_)
  rw [PathSegment.text_eq_name (hrest seg hseg)]

theorem Indexless.pointer_pathToPointer (h : p.Indexless) (root : Value) :
    root.pointer (pathToPointer (String.ofList p.text)) =
      root.walk (p.segments.map fun seg => String.ofList (seg.name.flatMap charBytes)) := by
  let bytes (seg : PathSegment) : List Char := seg.name.flatMap charBytes
  have hbytes : p.text.flatMap charBytes = bytes p.first ++ p.rest.flatMap fun seg => '.' :: bytes seg := by
    rw [h.text_eq, List.flatMap_append, List.flatMap_assoc]
    rfl
  have hparts : ∀ part ∈ bytes p.first :: p.rest.map bytes, IsToken part := by
    rw [← List.map_cons]
    exact List.forall_mem_map.mpr fun seg _ => seg.isToken_bytes
  have hopen : '[' ∉ p.text.flatMap charBytes := by
    rw [hbytes]
    intro hmem
    rcases List.mem_append.mp hmem with hfirst | hrest
    · exact p.first.not_mem_bytes (by decide) hfirst
    · obtain ⟨seg, -, hseg⟩ := List.mem_flatMap.mp hrest
      rcases List.mem_cons.mp hseg with hdot | htext
      · exact absurd hdot (by decide)
      · exact seg.not_mem_bytes (by decide) htext
  have hdots := pointer_of_dots hparts
  rw [List.flatMap_map, ← List.map_cons, List.map_map] at hdots
  unfold pathToPointer
  rw [pathBytes_ofList, pathToPointerFrom_eq_replaceChar hopen, hbytes]
  refine (congrArg root.pointer hdots).trans ?_
  rw [Value.pointer_pointerPath]
  rfl

theorem Indexless.follow_steps (h : p.Indexless) (root : Value) :
    follow root p.steps = root.walk (p.segments.map fun seg => String.ofList seg.name) := by
  unfold steps Indexless at *
  generalize p.segments = segs at h
  induction segs generalizing root with
  | nil => rfl
  | cons seg rest ih =>
    obtain ⟨hseg, hrest⟩ := forall_mem_cons.mp h
    rw [flatMap_cons, PathSegment.steps, hseg, map_cons]
    exact congrArg _ (funext fun w => ih w hrest)

end DotPath

def nest : List PathSegment → Value
  | [] => .null
  | seg :: rest =>
      .object [(String.ofList seg.name,
        seg.indexes.foldr (fun n inner => .array (List.replicate n .null ++ [inner])) (nest rest))]

theorem follow_indexes (indexes : List Nat) (v : Value) (steps : List PathStep) :
    follow (indexes.foldr (fun n inner => .array (List.replicate n .null ++ [inner])) v)
      (indexes.map .index ++ steps) = follow v steps := by
  induction indexes with
  | nil => rfl
  | cons n rest ih => simp [follow, takeStep, ih]

theorem follow_nest {segs : List PathSegment} : follow (nest segs) (segs.flatMap PathSegment.steps) = some .null := by
  induction segs with
  | nil => rfl
  | cons seg rest ih =>
    rw [flatMap_cons, PathSegment.steps]
    simp [follow, takeStep, nest, Fields.get, follow_indexes, ih]

theorem names_of_walk_nest (hindex : ∀ seg ∈ segs, token seg = String.ofList seg.name → seg.indexes = [])
    (h : (nest segs).walk (segs.map token) = some .null) : ∀ seg ∈ segs, token seg = String.ofList seg.name := by
  induction segs with
  | nil => simp
  | cons seg rest ih =>
    obtain ⟨hseg, hrest⟩ := forall_mem_cons.mp hindex
    by_cases htoken : token seg = String.ofList seg.name
    · rw [map_cons, nest, htoken, hseg htoken] at h
      exact forall_mem_cons.mpr ⟨htoken, ih hrest (by simpa [Fields.get] using h)⟩
    · rw [map_cons, nest] at h
      simp [Fields.get, lookup_cons, beq_false_of_ne htoken] at h

section

variable (lib : Libraries) (env : GuardEnv) (inst : WorkflowInstance) (arguments : Value)

theorem literalOperand_eq_none (hs : s.toList = '$' :: rest)
    (hparse : env.parseF64 s = none) : literalOperand lib env.parseF64 s = none := by
  have hne (t : String) (ht : t.toList.head? ≠ some '$') : s ≠ t := by
    rintro rfl
    exact ht (by rw [hs]; rfl)
  have hquote (q : Char) (hq : q ≠ '$') : quotedBy q s.toList = false := by
    rw [hs]
    simp [quotedBy, Ne.symm hq]
  unfold literalOperand
  rw [hquote _ (by decide), hquote _ (by decide), if_neg (hne _ (by decide)),
    if_neg (hne _ (by decide)), if_neg (hne _ (by decide)), hparse]
  rfl

theorem resolveOperand_context (hs : s.toList = "$.context.".toList ++ path)
    (hblank : ∀ c ∈ path, isWhiteSpace c = false) (hparse : env.parseF64 s = none) :
    resolveOperand lib env inst arguments s = match inst.context.pointer (pathToPointer (String.ofList path)) with
      | some v => .ok v
      | none => .error (.unsetSlot s) := by
  have htrim : Text.trim s = s := by
    unfold Text.trim
    rw [trimText_eq_self, ofList_toList]
    rw [hs]
    exact forall_mem_append.mpr ⟨forall_mem_of_all (by decide), hblank⟩
  have hne (t : String) (ht : "$.context.".toList.isPrefixOf t.toList = false) : s ≠ t := by
    rintro rfl
    rw [hs] at ht
    cases ht
  have htext : "$.context." ++ String.ofList path = s := toList_injective (by simp [hs])
  unfold resolveOperand
  dsimp only
  rw [htrim, literalOperand_eq_none lib env hs hparse]
  rw [if_neg (hne _ (by decide)), if_neg (hne _ (by decide)), if_neg (hne _ (by decide)), if_neg (hne _ (by decide)), hs]
  rw [← htext]
  rfl

theorem resolveTemplatePathChecked_context :
    resolveTemplatePathChecked lib inst ("$.context.".toList ++ path) =
      resolveTail lib inst.context ("$.context.".toList ++ path) path := by
  rfl

theorem renderTemplateFrom_nil :
    renderTemplateFrom lib inst fuel [] output unresolved = (output, unresolved) := by
  cases fuel <;> simp [renderTemplateFrom, splitOnce]

theorem renderTemplate_context
    (htemplate : template.toList = "\x7b\x7b".toList ++ ("$.context.".toList ++ path) ++ "\x7d\x7d".toList)
    (hblank : ∀ c ∈ path, isWhiteSpace c = false) (hclose : '\x7d' ∉ path) : renderTemplate lib inst template =
    match inst.context.pointer (pathToPointer (String.ofList path)) with
      | some v => displayValue lib v
      | none => unsetStub (lastSegment path) := by
  let body := "$.context.".toList ++ path
  have hopen : splitOnce "\x7b\x7b".toList ("\x7b\x7b".toList ++ body ++ "\x7d\x7d".toList) =
      some ([], body ++ "\x7d\x7d".toList) := rfl
  have hend : splitOnce "\x7d\x7d".toList (body ++ "\x7d\x7d".toList) = some (body, []) := by
    have hnot : '\x7d' ∉ body := by
      intro hmem
      rcases mem_append.mp hmem with hroot | hpath
      · exact absurd hroot (by decide)
      · exact hclose hpath
    have hsplit := splitOnce_append "\x7d".toList [] hnot
    rwa [append_nil] at hsplit
  have htrim : trimText body = body := trimText_eq_self (forall_mem_append.mpr ⟨forall_mem_of_all (by decide), hblank⟩)
  have hfuel : template.length = (body ++ "\x7d\x7d".toList).length + 1 + 1 := by
    rw [← length_toList, htemplate]
    rfl
  unfold renderTemplate renderTemplateTracked
  rw [hfuel, htemplate, renderTemplateFrom, hopen]
  dsimp only
  rw [hend]
  dsimp only
  rw [htrim, resolveTemplatePathChecked_context, resolveTail]
  cases inst.context.pointer (pathToPointer (String.ofList path)) with
  | none => simp [body, renderTemplateFrom_nil]
  | some v => simp [body, renderTemplateFrom_nil]

end

def OneReading (lib : Libraries) (env : GuardEnv) (p : DotPath) : Prop :=
  ∀ (inst : WorkflowInstance) (arguments : Value) (sc : Scopes), sc.context = inst.context →
    let value := follow inst.context p.steps
    resolveOperand lib env inst arguments p.expr =
        (match value with
        | some v => .ok v
        | none => .error (.unsetSlot p.expr)) ∧
      readInScopes sc p.expr = value ∧
      renderTemplate lib inst p.placeholder =
        match value with
        | some v => displayValue lib v
        | none => unsetStub (lastSegment p.text)

namespace DotPath

variable {p : DotPath}

def Ascii (p : DotPath) : Prop :=
  ∀ seg ∈ p.segments, ∀ c ∈ seg.name, c.toNat < 128

instance (p : DotPath) : Decidable p.Ascii :=
  decidable_of_iff ((p.segments.all fun seg => seg.name.all (·.toNat < 128)) = true)
    (by simp only [all_eq_true, decide_eq_true_eq, Ascii])

theorem expr_toList (p : DotPath) : p.expr.toList = "$.context.".toList ++ p.text :=
  toList_ofList

theorem placeholder_toList (p : DotPath) :
    p.placeholder.toList = "\x7b\x7b".toList ++ ("$.context.".toList ++ p.text) ++ "\x7d\x7d".toList := by
  rw [← p.expr_toList]
  exact toList_ofList

theorem Indexless.mem_text (h : p.Indexless) (hc : c ∈ p.text) : c = '.' ∨ ∃ seg ∈ p.segments, c ∈ seg.name := by
  rw [h.text_eq] at hc
  rcases mem_append.mp hc with hfirst | hrest
  · exact .inr ⟨p.first, mem_cons_self, hfirst⟩
  · obtain ⟨seg, hseg, hmem⟩ := mem_flatMap.mp hrest
    exact (mem_cons.mp hmem).imp_right fun hname => ⟨seg, mem_cons_of_mem _ hseg, hname⟩

theorem Indexless.not_blank (h : p.Indexless) : ∀ c ∈ p.text, isWhiteSpace c = false := by
  intro c hc
  rcases h.mem_text hc with rfl | ⟨seg, -, hname⟩
  · decide
  · exact (PathSegment.ne_of_mem_name hname).2

theorem Indexless.not_close (h : p.Indexless) : '\x7d' ∉ p.text := by
  intro hc
  rcases h.mem_text hc with hdot | ⟨seg, -, hname⟩
  · exact absurd hdot (by decide)
  · exact (PathSegment.ne_of_mem_name hname).1 (by decide)

theorem Indexless.pointer_eq_follow (h : p.Indexless) (hascii : p.Ascii) (root : Value) :
    root.pointer (pathToPointer (String.ofList p.text)) = follow root p.steps := by
  rw [h.pointer_pathToPointer, h.follow_steps]
  refine congrArg root.walk (map_congr_left fun seg hseg => ?_)
  rw [flatMap_charBytes_of_ascii (hascii seg hseg)]

theorem Indexless.resolvePath_eq_follow (h : p.Indexless) (root : Value) :
    resolvePath root p.text = follow root p.steps := by
  rw [p.resolvePath_text, h.follow_steps]
  refine congrArg root.walk (map_congr_left fun seg hseg => ?_)
  rw [PathSegment.text_eq_name (h seg hseg)]

end DotPath

section

variable (lib : Libraries) (env : GuardEnv) (p : DotPath)

/-- Output mappings read no index, and the other two readers no key with a character outside of ASCII. -/
theorem one_path_language_iff (hparse : ∀ s, Text.startsWith s "$" = true → env.parseF64 s = none) :
    OneReading lib env p ↔ p.Indexless ∧ p.Ascii := by
  have hunparsed : env.parseF64 p.expr = none := by
    refine hparse _ ?_
    unfold Text.startsWith
    rw [p.expr_toList]
    rfl
  constructor
  · intro hread
    let inst := guardedInstance .null (nest p.segments)
    obtain ⟨hguard, hmapping, -⟩ := hread inst .null ⟨.null, inst.context, .null, none, none⟩ rfl
    have hvalue : follow inst.context p.steps = some .null := follow_nest
    rw [hvalue] at hguard hmapping
    rw [readInScopes_context _ p.expr_toList, p.resolvePath_text] at hmapping
    have hindexless : p.Indexless := by
      have hbare : ∀ seg ∈ p.segments, String.ofList seg.text = String.ofList seg.name → seg.indexes = [] :=
        fun seg _ htext => seg.indexes_eq_nil (ofList_injective htext)
      intro seg hseg
      exact hbare seg hseg (names_of_walk_nest hbare hmapping seg hseg)
    refine ⟨hindexless, ?_⟩
    rw [resolveOperand_context lib env inst .null p.expr_toList hindexless.not_blank hunparsed,
      hindexless.pointer_pathToPointer] at hguard
    have hwalk : (nest p.segments).walk (p.segments.map fun seg => String.ofList (seg.name.flatMap charBytes)) =
        some .null := by
      split at hguard
      case h_1 v hv =>
        cases hguard
        exact hv
      case h_2 => cases hguard
    have hnames := names_of_walk_nest (fun seg hseg _ => hindexless seg hseg) hwalk
    exact fun seg hseg => ascii_of_flatMap_charBytes (ofList_injective (hnames seg hseg))
  · rintro ⟨hindexless, hascii⟩ inst arguments sc hcontext
    refine ⟨?_, ?_, ?_⟩
    · rw [resolveOperand_context lib env inst arguments p.expr_toList hindexless.not_blank hunparsed,
        hindexless.pointer_eq_follow hascii]
    · rw [readInScopes_context sc p.expr_toList, hcontext, hindexless.resolvePath_eq_follow]
    · rw [renderTemplate_context lib inst p.placeholder_toList hindexless.not_blank hindexless.not_close,
        hindexless.pointer_eq_follow hascii]

end

def dottedItem : DotPath :=
  ⟨⟨"items".toList, [], forall_mem_of_all (by decide)⟩, [⟨"0".toList, [], forall_mem_of_all (by decide)⟩,
    ⟨"name".toList, [], forall_mem_of_all (by decide)⟩]⟩

theorem dottedItem_read_alike : dottedItem.expr = "$.context.items.0.name" ∧
    (∀ s, Text.startsWith s "$" = true → GuardEnv.bare.parseF64 s = none) ∧
    OneReading Libraries.plain GuardEnv.bare dottedItem :=
  ⟨by decide, fun _ _ => rfl, (one_path_language_iff _ _ dottedItem fun _ _ => rfl).mpr ⟨by decide, by decide⟩⟩

theorem indexed_item_read_apart : ¬ ∀ (lib : Libraries) (env : GuardEnv) (p : DotPath),
    (∀ s, Text.startsWith s "$" = true → env.parseF64 s = none) → OneReading lib env p := by
  intro halike
  let context : Value := .object [("items", .array [.bool true])]
  let path : DotPath := ⟨⟨"items".toList, [0], forall_mem_of_all (by decide)⟩, []⟩
  have hread := halike Libraries.plain GuardEnv.bare path (fun _ _ => rfl) (guardedInstance .null context) .null
    ⟨.null, context, .null, none, none⟩ rfl
  have hmapping : readInScopes ⟨.null, context, .null, none, none⟩ "$.context.items[0]" = some (.bool true) := hread.2.1
  revert hmapping
  decide

end Praxec
