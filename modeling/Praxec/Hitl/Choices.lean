import Praxec.Hitl
import Praxec.Mapping.WriteScopes
import Praxec.World

namespace Praxec

open Json List Option Value Nat String Text Libraries

def presentsKey (pointer : String) : Option String :=
  (stripStart "$.context.".toList pointer.toList).bind fun key =>
    if key.isEmpty || key.contains '.' || key.contains '[' then none else some (String.ofList key)

structure ChoicesDecl where
  field : String
  source : String
  value : String
  title : Option String
deriving DecidableEq

def transitionChoices (transition : Value) : Option ChoicesDecl := do
  let decl ← transition.get "choices"
  let field ← strField decl "field"
  let source ← strField decl "from"
  let value ← strField decl "value"
  match decl.get "title" with
  | none => some ⟨field, source, value, none⟩
  | some t => t.asStr.map fun title => ⟨field, source, value, some title⟩

structure GateChoice where
  value : String
  title : Option String
deriving DecidableEq

variable (lib : Libraries)

def choiceString (element : Value) (path : String) : Option String :=
  match element.pointer (pathToPointer path) with
  | some (.string s) => some s
  | some (.number n) => some (lib.toText (.number n))
  | _ => none

def resolveTitle (i : Nat) (element : Value) : Option String → Except String (Option String)
  | none => .ok none
  | some path => match choiceString lib element path with
    | some title => .ok (some title)
    | none => .error ("choices title path '" ++ path ++ "' did not resolve to a string or number on element " ++ toString i)

def resolveChoice (decl : ChoicesDecl) (i : Nat) (element : Value) : Except String GateChoice :=
  match choiceString lib element decl.value with
  | none => .error ("choices value path '" ++ decl.value ++ "' did not resolve to a string or number on element " ++
      toString i)
  | some value => (resolveTitle lib i element decl.title).map fun title => ⟨value, title⟩

def resolveOptions (decl : ChoicesDecl) : Nat → List Value → Except String (List GateChoice)
  | _, [] => .ok []
  | i, element :: rest => do
      let choice ← resolveChoice lib decl i element
      let choices ← resolveOptions decl (i + 1) rest
      return choice :: choices

def resolveChoices (decl : ChoicesDecl) (context : Value) : Except String (List GateChoice) :=
  match presentsKey decl.source with
  | none => .error ("choices.from '" ++ decl.source ++ "' must be \"$.context.<key>\" (single key segment)")
  | some key => match (context.get key).bind Value.asArray with
    | none => .error ("choices.from '" ++ decl.source ++ "' did not resolve to an array")
    | some [] => .error ("choices.from '" ++ decl.source ++ "' resolved to an empty array")
    | some options => resolveOptions lib decl 0 options

def choiceListing (options : List GateChoice) : String :=
  if options.length ≤ 10 then
    ": [" ++ String.intercalate ", " (options.map fun o => "'" ++ o.value ++ "'") ++ "]"
  else ""

def submittedText : Option Value → String
  | none => "<absent>"
  | some (.string s) => s
  | some other => lib.toText other

def choiceMismatch (transition context arguments : Value) : Option String :=
  match transition.get "choices" with
  | none => none
  | some _ => match transitionChoices transition with
    | none => some "malformed `choices` declaration — expected \x7b field, from, value, title? \x7d strings"
    | some decl => match resolveChoices lib decl context with
      | .error detail => some ("live options for '" ++ decl.field ++ "' are unresolvable — " ++ detail ++
          "; a gate whose declared options cannot be resolved accepts no submission")
      | .ok options =>
          if ((arguments.get decl.field).bind Value.asStr).any fun got => options.any fun o => o.value = got then none
          else some ("value '" ++ submittedText lib (arguments.get decl.field) ++ "' is not among the " ++
            toString options.length ++ " live options for '" ++ decl.field ++ "'" ++ choiceListing options)

def pickSpec (decl : ChoicesDecl) : Value :=
  .object [("pick", .object [("from", .string decl.source), ("by", .string decl.value),
    ("eq", .string ("$.arguments." ++ decl.field))])]

section

variable {lib} {transition : Value} {decl : ChoicesDecl}

def Offers (lib : Libraries) (decl : ChoicesDecl) (options : List Value) (chosen : String) : Prop :=
  options ≠ [] ∧ ∃ choices, resolveOptions lib decl 0 options = .ok choices ∧ ∃ c ∈ choices, c.value = chosen

theorem get_choices_of_transitionChoices (h : transitionChoices transition = some decl) :
    ∃ v, transition.get "choices" = some v := by
  obtain ⟨v, hv, -⟩ := bind_eq_some_iff.mp h
  exact ⟨v, hv⟩

theorem resolveChoices_eq_ok_iff :
    resolveChoices lib decl context = .ok choices ↔ ∃ key options, presentsKey decl.source = some key ∧
    context.get key = some (.array options) ∧ options ≠ [] ∧ resolveOptions lib decl 0 options = .ok choices := by
  unfold resolveChoices
  constructor
  · intro h
    split at h
    case h_1 => cases h
    case h_2 key hkey =>
      split at h
      case h_1 => cases h
      case h_2 => cases h
      case h_3 options hne hoptions =>
        obtain ⟨v, hv, harray⟩ := bind_eq_some_iff.mp hoptions
        rw [asArray_eq_some harray] at hv
        exact ⟨key, options, hkey, hv, hne, h⟩
  · rintro ⟨key, options, hkey, hget, hne, hok⟩
    rw [hkey]
    dsimp only
    rw [hget]
    cases options with
    | nil => exact absurd rfl hne
    | cons option rest => exact hok

theorem choiceMismatch_eq_none_iff (hdecl : transitionChoices transition = some decl) :
    choiceMismatch lib transition context arguments = none ↔ ∃ key options chosen, presentsKey decl.source = some key ∧
      context.get key = some (.array options) ∧ arguments.get decl.field = some (.string chosen) ∧
      Offers lib decl options chosen := by
  obtain ⟨v, hv⟩ := get_choices_of_transitionChoices hdecl
  unfold choiceMismatch
  rw [hv, hdecl]
  dsimp only
  constructor
  · intro h
    split at h
    case h_1 => cases h
    case h_2 choices hchoices =>
      obtain ⟨key, options, hkey, hget, hne, hok⟩ := resolveChoices_eq_ok_iff.mp hchoices
      split at h
      case isFalse => cases h
      case isTrue hin =>
        cases hgot : (arguments.get decl.field).bind Value.asStr with
        | none =>
          rw [hgot] at hin
          cases hin
        | some chosen =>
          rw [hgot, Option.any_some, List.any_eq_true] at hin
          obtain ⟨c, hc, heq⟩ := hin
          obtain ⟨w, hw, htext⟩ := bind_eq_some_iff.mp hgot
          rw [asStr_eq_some htext] at hw
          exact ⟨key, options, chosen, hkey, hget, hw, hne, choices, hok, c, hc, by simpa using heq⟩
  · rintro ⟨key, options, chosen, hkey, hget, hchosen, hne, choices, hok, c, hc, rfl⟩
    rw [resolveChoices_eq_ok_iff.mpr ⟨key, options, hkey, hget, hne, hok⟩, hchosen]
    simpa [Value.asStr] using ⟨c, hc, rfl⟩

theorem choiceString_of_resolveOptions (h : resolveOptions lib decl i options = .ok choices) :
    ∀ option ∈ options, (choiceString lib option decl.value).isSome := by
  induction options generalizing i choices with
  | nil => simp
  | cons option rest ih =>
    obtain ⟨choice, hchoice, h⟩ := bind_ok h
    obtain ⟨others, hothers, -⟩ := bind_ok h
    refine forall_mem_cons.mpr ⟨?_, ih hothers⟩
    unfold resolveChoice at hchoice
    split at hchoice
    case h_1 => cases hchoice
    case h_2 value hvalue =>
      rw [hvalue]
      rfl

end

def PlainName (name : String) : Prop :=
  splitOnce "[*]".toList name.toList = none ∧ pointerTokens (dotPointer name.toList) = some [name]

instance (name : String) : Decidable (PlainName name) :=
  inferInstanceAs (Decidable (_ ∧ _))

theorem PlainName.resolvePath (h : PlainName name) (root : Value) :
    resolvePath root name.toList = root.step name := by
  unfold Praxec.resolvePath resolvePathWithProjection Value.pointer
  rw [h.1]
  rw [h.2, bind_some]
  exact bind_fun_some _

theorem length_restoreSlash_le : (restoreSlash cs).length ≤ cs.length := by
  fun_induction restoreSlash cs <;> grind

theorem length_restoreTilde_le : (restoreTilde cs).length ≤ cs.length := by
  fun_induction restoreTilde cs <;> grind

theorem splitSlash_shorter :
    ∃ part rest, splitSlash cs = part :: rest ∧ part.length ≤ cs.length ∧ (rest ≠ [] → part.length < cs.length) := by
  induction cs with
  | nil => exact ⟨[], [], rfl, Nat.le_refl 0, fun h => absurd rfl h⟩
  | cons c more ih =>
    obtain ⟨part, rest, hsplit, hle, hlt⟩ := ih
    unfold splitSlash
    split
    · exact ⟨[], splitSlash more, rfl, zero_le _, fun _ => succ_pos _⟩
    · rw [hsplit]
      refine ⟨c :: part, rest, rfl, succ_le_succ hle, fun hrest => succ_lt_succ (hlt hrest)⟩

theorem pointerTokens_dotPointer :
    ∃ token tokens, pointerTokens (dotPointer path) = some (token :: tokens) ∧ token.length ≤ path.length ∧
      (tokens ≠ [] → token.length < path.length) := by
  obtain ⟨part, rest, hsplit, hle, hlt⟩ := splitSlash_shorter
  have hlength : (replaceChar '.' '/' path).length = path.length := List.length_map _
  have htoken : (String.ofList (restoreTilde (restoreSlash part))).length ≤ part.length := by
    rw [String.length_ofList]
    exact Nat.le_trans (length_restoreTilde_le) (length_restoreSlash_le)
  refine ⟨_, rest.map fun t => String.ofList (restoreTilde (restoreSlash t)), ?_, Nat.le_trans htoken (hlength ▸ hle), ?_⟩
  · unfold pointerTokens dotPointer
    rw [String.toList_ofList]
    change some ((splitSlash (replaceChar '.' '/' path)).map _) = _
    rw [hsplit]
    rfl
  · intro hne
    refine Nat.lt_of_le_of_lt htoken (hlength ▸ hlt ?_)
    rintro rfl
    exact hne rfl

theorem pointer_single_eq_none (h : ∀ tokens, pointerTokens (dotPointer path) ≠ some (name :: tokens)) :
    (Value.object [(name, v)]).pointer (dotPointer path) = none := by
  obtain ⟨token, tokens, htokens, -⟩ := pointerTokens_dotPointer
  have hne : token ≠ name := by
    rintro rfl
    exact h tokens htokens
  unfold Value.pointer
  rw [htokens]
  simp [Fields.get, lookup_cons, beq_false_of_ne hne]

theorem resolvePath_single_eq_none (h : ¬ PlainName name) :
    resolvePath (.object [(name, v)]) name.toList = none := by
  unfold resolvePath resolvePathWithProjection
  cases hsplit : splitOnce "[*]".toList name.toList with
  | none =>
    refine pointer_single_eq_none fun tokens htokens => h ⟨hsplit, ?_⟩
    obtain ⟨token, more, hmore, -, hlt⟩ := pointerTokens_dotPointer
    cases hmore.symm.trans htokens
    cases tokens with
    | nil => exact hmore
    | cons next rest => exact absurd (hlt (cons_ne_nil _ _)) (by exact Nat.lt_irrefl _)
  | some parts =>
    have hshort : (trimEnd '.' parts.1).length < name.toList.length := by
      have htext := eq_append_of_splitOnce hsplit
      have htrim := length_trimEnd_le '.' parts.1
      rw [htext, List.length_append, List.length_append]
      change _ < parts.1.length + 3 + parts.2.length
      omega
    have hmiss : (Value.object [(name, v)]).pointer (dotPointer (trimEnd '.' parts.1)) = none := by
      refine pointer_single_eq_none fun tokens htokens => ?_
      obtain ⟨token, more, hmore, hle, -⟩ := pointerTokens_dotPointer
      cases hmore.symm.trans htokens
      rw [String.length_toList] at hshort
      omega
    dsimp only
    rw [hmiss]
    by_cases hempty : (trimEnd '.' parts.1).isEmpty
    · rw [if_pos hempty]
      rfl
    · rw [if_neg hempty]
      rfl

section

variable {lib} {decl : ChoicesDecl} {key : String} {options : List Value} {chosen : String}

def Chosen (lib : Libraries) (decl : ChoicesDecl) (options : List Value) (chosen : String) (v : Value) : Prop :=
  v ∈ options ∧ choiceString lib v decl.value = some chosen ∧ v ≠ .null

def pickFrom (source : Value) (path : String) (eq : Value) : Value :=
  match source.asArray with
  | some items => (items.find? fun element =>
      ((element.pointer (pathToPointer path)).map fun v => v.same eq).getD false).getD .null
  | none => .null

theorem source_toList (hkey : presentsKey decl.source = some key) :
    decl.source.toList = "$.context.".toList ++ key.toList := by
  obtain ⟨text, htext, hsome⟩ := bind_eq_some_iff.mp hkey
  split at hsome
  · cases hsome
  · cases hsome
    exact (eq_append_of_stripStart htext).trans (congrArg _ toList_ofList.symm)

theorem resolveValue_path (h : Text.startsWith s "$.") :
    resolveValue lib sc (.string s) = (readInScopes sc s).getD .null := by
  unfold resolveValue
  rw [h]
  rfl

theorem resolveValue_pickSpec (hkey : presentsKey decl.source = some key) :
    resolveValue lib sc (pickSpec decl) = pickFrom ((resolvePath sc.context key.toList).getD .null) decl.value
      ((resolvePath sc.arguments decl.field.toList).getD .null) := by
  have hsource : resolveValue lib sc (.string decl.source) = (resolvePath sc.context key.toList).getD .null := by
    have hstart : Text.startsWith decl.source "$." := by
      unfold Text.startsWith
      rw [source_toList hkey]
      rfl
    rw [resolveValue_path hstart, readInScopes_context sc (source_toList hkey)]
  have heq : resolveValue lib sc (.string ("$.arguments." ++ decl.field)) =
      (resolvePath sc.arguments decl.field.toList).getD .null := by
    have htext : ("$.arguments." ++ decl.field).toList = "$.arguments.".toList ++ decl.field.toList := toList_append
    have hstart : Text.startsWith ("$.arguments." ++ decl.field) "$." := by
      unfold Text.startsWith
      rw [htext]
      rfl
    rw [resolveValue_path hstart, readInScopes_arguments sc htext]
  rw [← hsource, ← heq]
  rfl

theorem same_string_iff (v : Value) (text : String) : v.same (.string text) ↔ v = .string text := by
  cases v <;> simp [Value.same]

theorem pointer_null : Value.null.pointer (pathToPointer path) = none := by
  obtain ⟨part, rest, hsplit, -⟩ := splitSlash_shorter
  unfold Value.pointer pointerTokens pathToPointer
  rw [toList_ofList]
  change (some ((splitSlash _).map _)).bind _ = _
  rw [hsplit]
  rfl

theorem chosen_of_pointer (hmem : v ∈ options)
    (hv : v.pointer (pathToPointer decl.value) = some (.string chosen)) : Chosen lib decl options chosen v := by
  refine ⟨hmem, ?_, ?_⟩
  · unfold choiceString
    rw [hv]
  · rintro rfl
    rw [pointer_null] at hv
    cases hv

theorem not_chosen_null : ¬ Chosen lib decl options chosen .null :=
  fun h => h.2.2 rfl

theorem pickFrom_null (hshown : ∀ option ∈ options, (choiceString lib option decl.value).isSome) :
    pickFrom (.array options) decl.value .null = .null := by
  have hnone : (options.find? fun element =>
      ((element.pointer (pathToPointer decl.value)).map fun v => v.same .null).getD false) = none := by
    refine find?_eq_none.mpr fun option hoption hsame => ?_
    have hoption := hshown option hoption
    unfold choiceString at hoption
    split at hoption
    case h_1 hv =>
      rw [hv] at hsame
      cases hsame
    case h_2 hv =>
      rw [hv] at hsame
      cases hsame
    case h_3 => cases hoption
  change (options.find? _).getD .null = .null
  rw [hnone]
  rfl

theorem chosen_pickFrom_iff : Chosen lib decl options chosen (pickFrom (.array options) decl.value (.string chosen)) ↔
    ∃ option ∈ options, option.pointer (pathToPointer decl.value) = some (.string chosen) := by
  have hholds (option : Value) :
      ((option.pointer (pathToPointer decl.value)).map fun v => v.same (.string chosen)).getD false ↔
        option.pointer (pathToPointer decl.value) = some (.string chosen) := by
    cases option.pointer (pathToPointer decl.value) with
    | none => simp
    | some v => simp [same_string_iff]
  change Chosen lib decl options chosen ((options.find? _).getD .null) ↔ _
  cases hfind : options.find? fun option =>
      ((option.pointer (pathToPointer decl.value)).map fun v => v.same (.string chosen)).getD false with
  | none =>
    refine iff_of_false not_chosen_null ?_
    rintro ⟨option, hoption, hv⟩
    exact find?_eq_none.mp hfind option hoption ((hholds option).mpr hv)
  | some option =>
    have hfound := find?_some hfind
    have hv := (hholds option).mp hfound
    have hmem := mem_of_find?_eq_some hfind
    exact iff_of_true (chosen_of_pointer hmem hv) ⟨option, hmem, hv⟩

/-- A governed choice is picked, in whatever context and arguments it is made, exactly where both names are plain
and an option holds the submitted text itself: the gate renders numbers, the operator does not. -/
theorem governed_choice_picked_iff {transition : Value} (hdecl : transitionChoices transition = some decl)
    (hkey : presentsKey decl.source = some key) (hoffers : Offers lib decl options chosen) :
    (∀ sc : Scopes, choiceMismatch lib transition sc.context sc.arguments = none →
        sc.context.get key = some (.array options) → sc.arguments.get decl.field = some (.string chosen) →
        Chosen lib decl options chosen (resolveValue lib sc (pickSpec decl))) ↔
      PlainName key ∧ PlainName decl.field ∧
        ∃ option ∈ options, option.pointer (pathToPointer decl.value) = some (.string chosen) := by
  constructor
  · intro hpicked
    -- the context and the arguments that hold nothing else
    let sc : Scopes := ⟨.object [(decl.field, .string chosen)], .object [(key, .array options)], .null, none, none⟩
    have hcontext : sc.context.get key = some (.array options) := by
      simp [sc, Value.get, Value.asObject, Fields.get]
    have hargument : sc.arguments.get decl.field = some (.string chosen) := by
      simp [sc, Value.get, Value.asObject, Fields.get]
    have hpass := (choiceMismatch_eq_none_iff hdecl).mpr ⟨key, options, chosen, hkey, hcontext, hargument, hoffers⟩
    have hchosen := hpicked sc hpass hcontext hargument
    rw [resolveValue_pickSpec hkey] at hchosen
    have hplain : PlainName key := by
      by_contra hkeyed
      rw [resolvePath_single_eq_none hkeyed] at hchosen
      exact not_chosen_null hchosen
    rw [hplain.resolvePath, step_of_get hcontext, getD_some] at hchosen
    have hfield : PlainName decl.field := by
      by_contra hnamed
      obtain ⟨-, choices, hchoices, -⟩ := hoffers
      rw [resolvePath_single_eq_none hnamed, getD_none,
        pickFrom_null (choiceString_of_resolveOptions hchoices)] at hchosen
      exact not_chosen_null hchosen
    rw [hfield.resolvePath, step_of_get hargument, getD_some, chosen_pickFrom_iff] at hchosen
    exact ⟨hplain, hfield, hchosen⟩
  · rintro ⟨hplain, hfield, hoption⟩ sc - hcontext hargument
    rw [resolveValue_pickSpec hkey, hplain.resolvePath, hfield.resolvePath, step_of_get hcontext,
      step_of_get hargument, getD_some, getD_some, chosen_pickFrom_iff]
    exact hoption

end

def Libraries.digits : Libraries :=
  { plain with
    toText := fun
      | .number (.posInt n) => toString n
      | _ => "" }

def sizeGate : ChoicesDecl :=
  ⟨"size", "$.context.sizes", "id", none⟩

def sizeTransition : Value :=
  .object [("choices", .object [("field", "size"), ("from", "$.context.sizes"), ("value", "id")])]

def sizeScopes (sizes : List Value) (size : String) : Scopes :=
  ⟨.object [("size", .string size)], .object [("sizes", .array sizes)], .null, none, none⟩

theorem text_size_picked :
    choiceMismatch digits sizeTransition (sizeScopes [.object [("id", "m")]] "m").context
        (sizeScopes [.object [("id", "m")]] "m").arguments = none ∧
      Chosen digits sizeGate [.object [("id", "m")]] "m"
        (resolveValue digits (sizeScopes [.object [("id", "m")]] "m") (pickSpec sizeGate)) := by
  have hdecl : transitionChoices sizeTransition = some sizeGate := rfl
  have hkey : presentsKey sizeGate.source = some "sizes" := by decide
  have hoffers : Offers digits sizeGate [.object [("id", "m")]] "m" :=
    ⟨by decide, [⟨"m", none⟩], by rfl, ⟨"m", none⟩, by decide, rfl⟩
  have hholds : ∃ option ∈ [Value.object [("id", "m")]],
      option.pointer (pathToPointer sizeGate.value) = some (.string "m") := by decide +kernel
  have hpass : choiceMismatch digits sizeTransition (sizeScopes [.object [("id", "m")]] "m").context
      (sizeScopes [.object [("id", "m")]] "m").arguments = none := by decide +kernel
  exact ⟨hpass, (governed_choice_picked_iff hdecl hkey hoffers).mpr ⟨by decide, by decide, hholds⟩ _ hpass rfl rfl⟩

/-- A size that is a number is accepted by its digits, and then not found. -/
theorem number_size_not_picked : ¬ ∀ (lib : Libraries) (transition : Value) (decl : ChoicesDecl) (key chosen : String)
    (options : List Value) (sc : Scopes), transitionChoices transition = some decl → presentsKey decl.source = some key →
    choiceMismatch lib transition sc.context sc.arguments = none → sc.context.get key = some (.array options) →
    sc.arguments.get decl.field = some (.string chosen) →
    Chosen lib decl options chosen (resolveValue lib sc (pickSpec decl)) := by
  intro hpicked
  let sizes : List Value := [.object [("id", .number (.posInt 5))]]
  have hchosen := hpicked digits sizeTransition sizeGate "sizes" "5" sizes (sizeScopes sizes "5") rfl (by decide)
    (by decide +kernel) rfl rfl
  have hnull : resolveValue digits (sizeScopes sizes "5") (pickSpec sizeGate) = .null := by decide +kernel
  exact hchosen.2.2 hnull

end Praxec
