import Praxec.Mapping.WriteScopes
import Praxec.Validate.Reachability

namespace Praxec

open Json List Option

namespace OperatorShapes

def isArithmetic (op : String) : Bool :=
  op = "add" || op = "subtract" || op = "multiply" || op = "divide"

section

def jsonTypeName : Value → String
  | .null => "null"
  | .bool _ => "bool"
  | .number _ => "number"
  | .string _ => "string"
  | .array _ => "array"
  | .object _ => "object"

def isPath (s : String) : Bool :=
  Text.startsWith s "$." || s = "$"

def isPathOrNumber : Value → Bool
  | .number _ => true
  | .string s => isPath s
  | _ => false

/-- What is wrong with an operator object, if it is one. A `pick` is passed over here, and so is
everything inside an operator. -/
def malformedOperatorReason : Value → Option String
  | .object [(op, args)] =>
      if isArithmetic op then match args with
        | .array operands =>
            if operands.length ≠ 2 then
              some s!"operator `{op}` requires exactly 2 operands, got {operands.length}"
            else (operands.zipIdx.find? fun entry => !isPathOrNumber entry.1).map fun (operand, i) =>
              s!"operator `{op}` operand #{i} must be a `$.` path string or a number, got {jsonTypeName operand}"
        | _ => some s!"operator `{op}` requires a 2-element array operand, got {jsonTypeName args}"
      else if op = "concat" then match args with
        | .array _ => none
        | _ => some s!"operator `concat` requires an array operand, got {jsonTypeName args}"
      else none
  | _ => none

/-- The strings of a spec that are read as scopes; `pick.by` is relative to an element. -/
def writeOperandStrings : Value → List String
  | .string s => [s]
  | .object [(op, args)] =>
      if isArithmetic op || op = "concat" then (args.asArray.getD []).filterMap Value.asStr
      else if op = "pick" then
        ["from", "eq"].filterMap fun key => (args.asObject.bind (Fields.get · key)).bind Value.asStr
      else []
  | _ => []

structure MappingSite where
  state : String
  place : String
  specs : Fields

variable (id : String)

def checkOperandScope (site : MappingSite) (key operand : String) : List Diagnostic :=
  pushScopeWhitespaceError id s!"state '{site.state}' {site.place} key '{key}'" operand ++
    if isRootedOperand operand && !isResolvableWriteScope operand then
      [.error s!"UNRESOLVABLE_WRITE_SCOPE: workflow '{id}' state '{site.state}' {site.place} key '{key}': operand '{operand}' names no resolvable scope — it would coalesce to null and silently write it. Use `$.context.*`, `$.output[.*]`, `$.arguments.*`, `$.workflow.input.*`, or `$` (SPEC §5.3, V27)"]
    else []

def checkSpec (site : MappingSite) (key : String) (spec : Value) : List Diagnostic :=
  (malformedOperatorReason spec).toList.map (fun msg =>
    .error s!"MALFORMED_OUTPUT_OPERATOR: workflow '{id}' state '{site.state}' {site.place} key '{key}': {msg}. A malformed operator silently resolves to null at runtime (FALLBACK-05).") ++
    (writeOperandStrings spec).flatMap (checkOperandScope id site key)

def checkMappingObject (site : MappingSite) : List Diagnostic :=
  site.specs.flatMap fun (key, spec) => checkSpec id site key spec

def mappingAt (state place : String) (mapping : Option Value) : List MappingSite :=
  (mapping.bind Value.asObject).toList.map fun specs => ⟨state, place, specs⟩

def mappingSites (definition : Value) : List MappingSite :=
  (Reachability.statesOf definition).flatMap fun (state, stateDef) =>
    mappingAt state "onEnter.output" (stateDef.walk ["onEnter", "output"]) ++
      (((stateDef.get "transitions").bind Value.asObject).getD []).flatMap fun (name, transition) =>
        mappingAt state s!"transition '{name}' output" (transition.get "output") ++
          mappingAt state s!"transition '{name}' prefill" (transition.get "prefill")

def validateOutputOperatorShapes (definition : Value) : List Diagnostic :=
  (mappingSites definition).flatMap (checkMappingObject id)

end

section

variable (lib : Libraries) (sc : Scopes)

/-- `pick` with the operator objects that it evaluates: those of `from`, and those of `eq` once
`from` has turned out to be an array. -/
def pickLogged (resolved : List (String × Value × List Value)) (decl : Fields) : Value × List Value :=
  match resolved.lookup "from", (decl.get "by").bind Value.asStr, resolved.lookup "eq" with
  | some source, some path, some eq =>
      match source.1.asArray with
      | some items => ((items.find? fun element =>
          ((element.pointer (pathToPointer path)).map fun v => v.same eq.1).getD false).getD .null,
          source.2 ++ eq.2)
      | none => (.null, source.2)
  | _, _, _ => (.null, [])

mutual
def resolveLogged : Value → Value × List Value
  | .string s => (if isPath s then (readInScopes sc s).getD .null else .string s, [])
  | .object [(op, args)] =>
      if op = "set" then (args, [.object [(op, args)]])
      else if isArithmetic op then (arithmetic lib sc op args, [.object [(op, args)]])
      else if op = "concat" then match args with
        | .array parts =>
            (.string (String.join ((resolveLoggedList parts).map fun part => concatPart lib part.1)),
              .object [(op, .array parts)] :: (resolveLoggedList parts).flatMap Prod.snd)
        | other => (.null, [.object [(op, other)]])
      else if op = "pick" then match args with
        | .object decl =>
            ((pickLogged (resolveLoggedFields decl) decl).1,
              .object [(op, .object decl)] :: (pickLogged (resolveLoggedFields decl) decl).2)
        | other => (.null, [.object [(op, other)]])
      else (.object [(op, args)], [])
  | other => (other, [])

def resolveLoggedList : List Value → List (Value × List Value)
  | [] => []
  | v :: rest => resolveLogged v :: resolveLoggedList rest

def resolveLoggedFields : Fields → List (String × Value × List Value)
  | [] => []
  | (k, v) :: rest => (k, resolveLogged v) :: resolveLoggedFields rest
end

theorem lookup_map (f : α → β) (key : String) (entries : List (String × α)) :
    (entries.map fun e => (e.1, f e.2)).lookup key = (entries.lookup key).map f := by
  induction entries with
  | nil => rfl
  | cons entry rest ih =>
    rw [map_cons, lookup_cons, lookup_cons, ih]
    cases key == entry.1 <;> rfl

theorem resolveLoggedFields_eq_map (fields : Fields) :
    resolveLoggedFields lib sc fields = fields.map fun e => (e.1, resolveLogged lib sc e.2) := by
  induction fields with
  | nil => rw [resolveLoggedFields, map_nil]
  | cons entry rest ih => rw [resolveLoggedFields, ih, map_cons]

theorem pickLogged_fst {resolved : List (String × Value × List Value)} {decl : Fields} :
    (pickLogged resolved decl).1 = pick (resolved.map fun e => (e.1, e.2.1)) decl := by
  unfold pickLogged pick Fields.get
  rw [lookup_map, lookup_map]
  rcases resolved.lookup "from" with _ | source
  · rfl
  rcases (decl.lookup "by").bind Value.asStr with _ | path
  · rfl
  rcases resolved.lookup "eq" with _ | eq
  · rfl
  dsimp only [map_some]
  rcases source.1.asArray with _ | items <;> rfl

mutual
theorem resolveLogged_fst : (spec : Value) → (resolveLogged lib sc spec).1 = resolveValue lib sc spec
  | .null | .bool _ | .number _ | .array _ | .object [] | .object (_ :: _ :: _) => by
    simp only [resolveLogged, resolveValue]
  | .string s => by
    unfold resolveLogged resolveValue
    rfl
  | .object [(op, args)] => by
    have hlist : ∀ parts, args = .array parts →
        (resolveLoggedList lib sc parts).map Prod.fst = resolveList lib sc parts := by
      rintro parts rfl
      exact resolveLoggedList_fst parts
    have hfields : ∀ decl, args = .object decl →
        (resolveLoggedFields lib sc decl).map (fun e => (e.1, e.2.1)) = resolveFields lib sc decl := by
      rintro decl rfl
      exact resolveLoggedFields_fst decl
    unfold resolveLogged resolveValue isArithmetic
    split
    · rfl
    split
    · rfl
    split
    · cases args with
      | array parts =>
        dsimp only
        rw [← hlist parts rfl, List.map_map]
        rfl
      | _ => rfl
    split
    · cases args with
      | object decl =>
        dsimp only
        rw [← hfields decl rfl, pickLogged_fst]
      | _ => rfl
    · rfl

theorem resolveLoggedList_fst : (parts : List Value) →
    (resolveLoggedList lib sc parts).map Prod.fst = resolveList lib sc parts
  | [] => rfl
  | v :: rest => by
    simp only [resolveLoggedList, resolveList, map_cons, resolveLogged_fst v, resolveLoggedList_fst rest]

theorem resolveLoggedFields_fst : (fields : Fields) →
    (resolveLoggedFields lib sc fields).map (fun e => (e.1, e.2.1)) = resolveFields lib sc fields
  | [] => rfl
  | (k, v) :: rest => by
    simp only [resolveLoggedFields, resolveFields, map_cons, resolveLogged_fst v, resolveLoggedFields_fst rest]
end

end

section

def isWrongOperand : Value → Bool
  | .null | .number _ | .string _ => false
  | _ => true

/-- What is written as the source of a `pick` is never an array: another literal, or an operator that
gives a number or a text. -/
def isNoArray : Value → Bool
  | .array _ => false
  | .string s => !isPath s
  | .object [(op, args)] => if op = "set" then args.asArray.isNone else op ≠ "pick"
  | _ => true

def isMisshapenPick (decl : Fields) : Bool :=
  match decl.get "from", (decl.get "by").bind Value.asStr, decl.get "eq" with
  | some source, some _, some _ => isNoArray source
  | _, _, _ => true

def isMisshapen : Value → Bool
  | .object [(op, args)] =>
      if isArithmetic op then match args with
        | .array [a, b] => isWrongOperand a || isWrongOperand b
        | _ => true
      else if op = "concat" then args.asArray.isNone
      else if op = "pick" then match args with
        | .object decl => isMisshapenPick decl
        | _ => true
      else false
  | _ => false

variable {lib : Libraries} (sc : Scopes)

end

section

/-- A place where an operator is evaluated: the sources of `pick` that must be arrays for it to be
reached, and the operator object. -/
abbrev Position := List Value × Value

def pickPositions (inner : List (String × List Position)) (decl : Fields) : List Position :=
  match decl.get "from", (decl.get "by").bind Value.asStr, decl.get "eq" with
  | some source, some _, some _ =>
      (inner.lookup "from").getD [] ++ ((inner.lookup "eq").getD []).map fun p => (source :: p.1, p.2)
  | _, _, _ => []

mutual
/-- The operators of a spec at every depth. What stands in `set` or as an arithmetic operand is not
evaluated. -/
def positions : Value → List Position
  | .object [(op, args)] =>
      if op = "set" || isArithmetic op then [([], .object [(op, args)])]
      else if op = "concat" then match args with
        | .array parts => ([], .object [(op, .array parts)]) :: positionsList parts
        | other => [([], .object [(op, other)])]
      else if op = "pick" then match args with
        | .object decl => ([], .object [(op, .object decl)]) :: pickPositions (positionsFields decl) decl
        | other => [([], .object [(op, other)])]
      else []
  | _ => []

def positionsList : List Value → List Position
  | [] => []
  | v :: rest => positions v ++ positionsList rest

def positionsFields : Fields → List (String × List Position)
  | [] => []
  | (k, v) :: rest => (k, positions v) :: positionsFields rest
end

variable (lib : Libraries) (sc : Scopes)

def Met (guards : List Value) : Prop :=
  ∀ g ∈ guards, (resolveValue lib sc g).asArray.isSome = true

def Logs (log : List Value) (ps : List Position) : Prop :=
  ∀ o, o ∈ log ↔ ∃ p ∈ ps, p.2 = o ∧ Met lib sc p.1

namespace Logs

variable {lib sc} {log : List Value} {ps : List Position}

theorem nil : Logs lib sc [] [] := by
  intro o
  simp

theorem append (h : Logs lib sc log ps) (h' : Logs lib sc log' ps') : Logs lib sc (log ++ log') (ps ++ ps') := by
  intro o
  simp only [mem_append, or_and_right, exists_or, h o, h' o]

theorem self (o : Value) : Logs lib sc [o] [([], o)] := by
  intro x
  rw [mem_singleton]
  constructor
  · rintro rfl
    exact ⟨_, .head _, rfl, nofun⟩
  · rintro ⟨p, hp, rfl, -⟩
    rw [mem_singleton.mp hp]

theorem cons (o : Value) (h : Logs lib sc log ps) : Logs lib sc (o :: log) (([], o) :: ps) :=
  (self o).append h

theorem guard (h : Logs lib sc log ps) (hsource : (resolveValue lib sc source).asArray.isSome) :
    Logs lib sc log (ps.map fun p => (source :: p.1, p.2)) := by
  intro o
  rw [h o]
  simp [Met, hsource]

theorem unreached (hsource : (resolveValue lib sc source).asArray = none) :
    Logs lib sc [] (ps.map fun p => (source :: p.1, p.2)) := by
  intro o
  simp [Met, hsource]

end Logs

theorem positionsFields_eq_map (fields : Fields) :
    positionsFields fields = fields.map fun e => (e.1, positions e.2) := by
  induction fields with
  | nil => rw [positionsFields, map_nil]
  | cons entry rest ih => rw [positionsFields, ih, map_cons]

theorem logs_pick (h : ∀ key v, decl.get key = some v → Logs lib sc (resolveLogged lib sc v).2 (positions v)) :
    Logs lib sc (pickLogged (resolveLoggedFields lib sc decl) decl).2 (pickPositions (positionsFields decl) decl) := by
  unfold pickLogged pickPositions Fields.get
  rw [resolveLoggedFields_eq_map, positionsFields_eq_map, lookup_map, lookup_map, lookup_map, lookup_map]
  rcases hsource : decl.lookup "from" with _ | source
  · exact .nil
  rcases (decl.lookup "by").bind Value.asStr with _ | path
  · exact .nil
  rcases heq : decl.lookup "eq" with _ | eq
  · exact .nil
  dsimp only [map_some, getD_some]
  rcases hitems : (resolveLogged lib sc source).1.asArray with _ | items
  · rw [resolveLogged_fst] at hitems
    simpa using (h _ _ hsource).append (Logs.unreached hitems)
  · rw [resolveLogged_fst] at hitems
    exact (h _ _ hsource).append ((h _ _ heq).guard (by rw [hitems]; rfl))

mutual
theorem logs_positions : (spec : Value) → Logs lib sc (resolveLogged lib sc spec).2 (positions spec)
  | .null | .bool _ | .number _ | .string _ | .array _ | .object [] | .object (_ :: _ :: _) => by
    simp only [resolveLogged, positions]
    exact .nil
  | .object [(op, args)] => by
    have hlist : ∀ parts, args = .array parts →
        Logs lib sc ((resolveLoggedList lib sc parts).flatMap Prod.snd) (positionsList parts) := by
      rintro parts rfl
      exact logs_positionsList parts
    have hfields : ∀ decl, args = .object decl → ∀ key v, Fields.get decl key = some v →
        Logs lib sc (resolveLogged lib sc v).2 (positions v) := by
      rintro decl rfl
      exact logs_positionsFields decl
    unfold resolveLogged positions
    by_cases hset : op = "set"
    · simpa [hset] using Logs.self _
    by_cases hop : isArithmetic op
    · simpa [hset, hop] using Logs.self _
    simp only [hset, hop, decide_false, Bool.or_self, Bool.false_eq_true, if_false]
    split
    · cases args with
      | array parts => exact (hlist parts rfl).cons _
      | _ => exact .self _
    split
    · cases args with
      | object decl => exact (logs_pick lib sc (hfields decl rfl)).cons _
      | _ => exact .self _
    · exact .nil

theorem logs_positionsList : (parts : List Value) →
    Logs lib sc ((resolveLoggedList lib sc parts).flatMap Prod.snd) (positionsList parts)
  | [] => by
    simp only [resolveLoggedList, positionsList, flatMap_nil]
    exact .nil
  | v :: rest => by
    simp only [resolveLoggedList, positionsList, flatMap_cons]
    exact (logs_positions v).append (logs_positionsList rest)

theorem logs_positionsFields : (fields : Fields) → ∀ key v, Fields.get fields key = some v →
    Logs lib sc (resolveLogged lib sc v).2 (positions v)
  | [], _, _, h => nomatch h
  | (k, w) :: rest, key, v, h => by
    rw [Fields.get_cons] at h
    split at h
    · cases h
      exact logs_positions w
    · exact logs_positionsFields rest key v h
end

theorem positions_cases : positions spec = [] ∨ ∃ rest, positions spec = ([], spec) :: rest := by
  match spec with
  | .null | .bool _ | .number _ | .string _ | .array _ | .object [] | .object (_ :: _ :: _) =>
    left
    simp only [positions]
  | .object [(op, args)] =>
    unfold positions
    split
    · exact .inr ⟨_, rfl⟩
    split
    · right
      cases args <;> exact ⟨_, rfl⟩
    split
    · right
      cases args <;> exact ⟨_, rfl⟩
    · exact .inl rfl

end

section

def isPick : Value → Bool
  | .object [(op, _)] => op = "pick"
  | _ => false

/-- The places that the check does not look at: a `pick`, and every operator inside another. -/
def unchecked (spec : Value) : List Position :=
  if isPick spec then positions spec else (positions spec).tail

theorem mem_positions_cases (hp : p ∈ positions spec) :
    p ∈ unchecked spec ∨ p = ([], spec) ∧ isPick spec = false := by
  unfold unchecked
  split
  · exact .inl hp
  rename_i hpick
  rcases positions_cases with hnil | ⟨rest, hrest⟩
  · rw [hnil] at hp
    cases hp
  · rw [hrest] at hp ⊢
    rcases mem_cons.mp hp with rfl | hp
    · exact .inr ⟨rfl, by simpa using hpick⟩
    · exact .inl hp

theorem mem_positions_of_unchecked (hp : p ∈ unchecked spec) : p ∈ positions spec := by
  unfold unchecked at hp
  split at hp
  · exact hp
  · exact mem_of_mem_tail hp

theorem isWrongOperand_of_isPathOrNumber (h : isPathOrNumber v) : isWrongOperand v = false := by
  cases v with
  | number _ | string _ => rfl
  | null | bool _ | array _ | object _ => cases h

theorem operands_of_checked (hop : isArithmetic op)
    (h : malformedOperatorReason (.object [(op, args)]) = none) :
    ∃ a b, args = .array [a, b] ∧ isPathOrNumber a ∧ isPathOrNumber b := by
  simp only [malformedOperatorReason, hop, if_true] at h
  cases args with
  | array operands =>
    match operands with
    | [] | [_] | _ :: _ :: _ :: _ => simp at h
    | [a, b] =>
      simp only [length_cons, length_nil, Nat.zero_add, Nat.reduceAdd, ne_eq, not_true_eq_false,
        if_false, map_eq_none_iff, find?_eq_none] at h
      exact ⟨a, b, rfl, by simpa using h (a, 0) (by simp), by simpa using h (b, 1) (by simp)⟩
  | null | bool _ | number _ | string _ | object _ => cases h

theorem isMisshapen_of_checked (h : malformedOperatorReason spec = none) (hpick : isPick spec = false) :
    isMisshapen spec = false := by
  match spec with
  | .null | .bool _ | .number _ | .string _ | .array _ | .object [] | .object (_ :: _ :: _) => rfl
  | .object [(op, args)] =>
    have hname : op ≠ "pick" := by simpa [isPick] using hpick
    by_cases hop : isArithmetic op
    · obtain ⟨a, b, rfl, ha, hb⟩ := operands_of_checked hop h
      simp [isMisshapen, hop, isWrongOperand_of_isPathOrNumber ha, isWrongOperand_of_isPathOrNumber hb]
    by_cases hconcat : op = "concat"
    · subst hconcat
      cases args with
      | array parts => rfl
      | null | bool _ | number _ | string _ | object _ => cases h
    · simp [isMisshapen, hop, hconcat, hname]

variable (lib : Libraries)

def Attainable (guards : List Value) : Prop :=
  ∃ sc : Scopes, sc.executorOutput.isSome = true ∧ Met lib sc guards

def EvaluatesShaped (spec : Value) : Prop :=
  ∀ sc : Scopes, sc.executorOutput.isSome = true → ∀ o ∈ (resolveLogged lib sc spec).2, isMisshapen o = false

def UncheckedShaped (spec : Value) : Prop :=
  ∀ p ∈ unchecked spec, Attainable lib p.1 → isMisshapen p.2 = false

variable {lib}

theorem evaluatesShaped_iff :
    EvaluatesShaped lib spec ↔ ∀ p ∈ positions spec, Attainable lib p.1 → isMisshapen p.2 = false := by
  constructor
  · rintro h p hp ⟨sc, hsc, hmet⟩
    exact h sc hsc p.2 ((logs_positions lib sc spec p.2).mpr ⟨p, hp, rfl, hmet⟩)
  · intro h sc hsc o ho
    obtain ⟨p, hp, rfl, hmet⟩ := (logs_positions lib sc spec o).mp ho
    exact h p hp ⟨sc, hsc, hmet⟩

theorem evaluatesShaped_iff_of_checked {spec : Value} (h : malformedOperatorReason spec = none) :
    EvaluatesShaped lib spec ↔ UncheckedShaped lib spec := by
  rw [evaluatesShaped_iff]
  constructor
  · intro hall p hp
    exact hall p (mem_positions_of_unchecked hp)
  · intro hunchecked p hp hattained
    rcases mem_positions_cases hp with hp | ⟨rfl, hpick⟩
    · exact hunchecked p hp hattained
    · exact isMisshapen_of_checked h hpick

theorem checked_of_accepted {id : String} {definition : Value}
    (h : Accepted (validateOutputOperatorShapes id definition)) {site : MappingSite}
    (hsite : site ∈ mappingSites definition) {entry : String × Value} (hentry : entry ∈ site.specs) :
    malformedOperatorReason entry.2 = none := by
  have hspec : Accepted (checkSpec id site entry.1 entry.2) := by
    have hobject := accepted_flatMap.mp h site hsite
    exact accepted_flatMap.mp hobject entry hentry
  rcases hreason : malformedOperatorReason entry.2 with _ | reason
  · rfl
  · have hmalformed := (accepted_append.mp hspec).1
    rw [hreason] at hmalformed
    exact absurd hmalformed (not_accepted_error _)

/-- The check is complete on an accepted mapping exactly when the places that it does not look at are
in order. -/
theorem accepted_mapping_shaped_iff (id : String) (definition : Value)
    (h : Accepted (validateOutputOperatorShapes id definition)) (site : MappingSite)
    (hsite : site ∈ mappingSites definition) :
    (∀ entry ∈ site.specs, EvaluatesShaped lib entry.2) ↔ ∀ entry ∈ site.specs, UncheckedShaped lib entry.2 := by
  have hiff : ∀ entry ∈ site.specs, (EvaluatesShaped lib entry.2 ↔ UncheckedShaped lib entry.2) := by
    intro entry hentry
    exact evaluatesShaped_iff_of_checked (checked_of_accepted h hsite hentry)
  exact ⟨fun hall entry hentry => (hiff entry hentry).mp (hall entry hentry),
    fun hall entry hentry => (hiff entry hentry).mpr (hall entry hentry)⟩

def workflowWriting (specs : Fields) : Value :=
  .object [("states", .object [("open", .object [("transitions", .object [("close", .object [("output", .object specs)])])])])]

def shapedSpecs : Fields :=
  [("label", .object [("concat", .array [.string "n = ", .object [("add", .array [.string "$.context.n", .nat 1])]])]),
    ("chosen", .object [("pick", .object [("from", "$.context.plans"), ("by", "id"),
      ("eq", "$.arguments.plan")])])]

theorem nested_addition_shaped : Accepted (validateOutputOperatorShapes "wf" (workflowWriting shapedSpecs)) ∧
      ∀ entry ∈ shapedSpecs, EvaluatesShaped .plain entry.2 := by
  have hunchecked : ∀ entry ∈ shapedSpecs, ∀ p ∈ unchecked entry.2, isMisshapen p.2 = false := by decide +kernel
  refine ⟨by decide +kernel, ?_⟩
  exact (accepted_mapping_shaped_iff "wf" (workflowWriting shapedSpecs) (by decide +kernel)
    ⟨"open", "transition 'close' output", shapedSpecs⟩ (.head _)).mpr
    fun entry hentry p hp _ => hunchecked entry hentry p hp

theorem unkeyed_pick_accepted :
    ¬ ∀ (lib : Libraries) (id : String) (definition : Value), Accepted (validateOutputOperatorShapes id definition) →
      ∀ site ∈ mappingSites definition, ∀ entry ∈ site.specs, EvaluatesShaped lib entry.2 := by
  intro hcomplete
  let spec : Value := .object [("pick", .object [("from", "$.context.plans"), ("eq", "$.arguments.plan")])]
  have hshaped := hcomplete .plain "wf" (workflowWriting [("chosen", spec)]) (by decide +kernel) _ (.head _) _ (.head _)
  have hevaluated := hshaped ⟨.emptyObject, .emptyObject, .emptyObject, some .null, none⟩ rfl spec (by decide +kernel)
  revert hevaluated
  decide +kernel

end

end OperatorShapes

end Praxec
