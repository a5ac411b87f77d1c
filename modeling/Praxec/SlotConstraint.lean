import Praxec.Mapping

namespace Praxec

open Json List Value

/-- What `evaluate_constraints` reports of the first slot that breaks its constraint. -/
structure ConstraintViolation where
  slot : String
  constraintKind : String
  message : String
deriving DecidableEq

def shortKind : Value → String
  | .null => "null"
  | .bool _ => "boolean"
  | .number _ => "number"
  | .string _ => "string"
  | .array _ => "array"
  | .object _ => "object"

theorem forM_ok_iff (xs : List α) (f : α → Except ε Unit) : xs.forM f = .ok () ↔ ∀ x ∈ xs, f x = .ok () := by
  induction xs with
  | nil => simp [pure, Except.pure]
  | cons x rest ih =>
    rw [forall_mem_cons, ← ih]
    cases hx : f x <;> simp [List.forM, hx, bind, Except.bind]

theorem forM_zipIdx_ok {ε α : Type} {xs : List α} {f : α × Nat → Except ε Unit} (h : xs.zipIdx.forM f = .ok ())
    {x : α} (hx : x ∈ xs) : ∃ i, f (x, i) = .ok () := by
  obtain ⟨i, hi⟩ := mem_iff_getElem?.mp hx
  exact ⟨i, (forM_ok_iff _ _).mp h _ (mem_zipIdx_iff_getElem?.mpr hi)⟩

theorem bind_ok {ε α β : Type} {x : Except ε α} {f : α → Except ε β} {b : β} (h : (x >>= f) = .ok b) :
    ∃ a, x = .ok a ∧ f a = .ok b := by
  cases x with
  | error e => cases h
  | ok a => exact ⟨a, rfl, h⟩

section

variable (lib : Libraries) (slot : String)

def pathViolation (message : String) : ConstraintViolation :=
  ⟨slot, "path_allowlist", "SLOT_CONSTRAINT_VIOLATED: " ++ message⟩

def subsetViolation (message : String) : ConstraintViolation :=
  ⟨slot, "subset_of", "SLOT_CONSTRAINT_VIOLATED: " ++ message⟩

def globPatterns (field : String) : List Value → Nat → Except ConstraintViolation (List String)
  | [], _ => .ok []
  | pattern :: rest, i =>
      match pattern.asStr with
      | none => .error (pathViolation slot
          s!"slot '{slot}' constraint.path_allowlist.{field} element {i} is not a string (got: {shortKind pattern}).")
      | some s => match lib.glob s with
        | .error e => .error (pathViolation slot
            s!"slot '{slot}' constraint.path_allowlist.{field}[{i}] '{s}' is not a valid glob pattern: {e}")
        | .ok _ => (globPatterns field rest (i + 1)).map (s :: ·)

def buildGlobSet (list : Option Value) (field : String) :
    Except ConstraintViolation (List String × (String → Bool)) := do
  let patterns ← globPatterns lib slot field ((list.bind Value.asArray).getD []) 0
  match lib.globSet patterns with
  | .ok matcher => return (patterns, matcher)
  | .error e => throw (pathViolation slot
      s!"slot '{slot}' constraint.path_allowlist.{field} could not be compiled into a glob set: {e}")

def checkPath (params : Value) (allow : String → Bool) (deny : Option (String → Bool)) (item : Value) (idx : Nat) :
    Except ConstraintViolation Unit :=
  match item.asStr with
  | none => .error (pathViolation slot s!"slot '{slot}' element at index {idx} is not a string (got: {shortKind item}); path_allowlist requires array of path strings.")
  | some s =>
      if allow s = false then
        .error (pathViolation slot (s!"slot '{slot}' element '{s}' (index {idx}) does not match any `allow:` glob. Allowed: " ++
          lib.debugText ((params.get "allow").getD (.array []))))
      else if (deny.map fun matcher => matcher s) = some true then
        .error (pathViolation slot (s!"slot '{slot}' element '{s}' (index {idx}) matched a `deny:` glob. Denied: " ++
          lib.debugText ((params.get "deny").getD (.array []))))
      else .ok ()

def checkPathAllowlist (params value : Value) : Except ConstraintViolation Unit :=
  match params.asObject with
  | none => .error (pathViolation slot s!"constraint.path_allowlist on slot '{slot}' must be an object with `allow: [<glob>...]` (required) and optional `deny: [<glob>...]`.")
  | some fields => match value.asArray with
    | none => .error (pathViolation slot s!"slot '{slot}' has path_allowlist constraint but its value is not an array (got: {shortKind value}); declare `type: array` on the slot.")
    | some items => do
        let (patterns, allow) ← buildGlobSet lib slot (fields.get "allow") "allow"
        if patterns = [] then
          throw (pathViolation slot s!"constraint.path_allowlist on slot '{slot}' has empty `allow:` — an allow-everything constraint is misconfiguration. Declare at least one glob, or remove the constraint.")
        let deny ← if fields.contains "deny" then
            (buildGlobSet lib slot (fields.get "deny") "deny").map fun built => some built.2
          else pure none
        items.zipIdx.forM fun item => checkPath lib slot params allow deny item.1 item.2

def resolveReference (path : String) (context : Value) : Option Value :=
  (Text.stripStart "$.context.".toList path.toList).bind fun p => context.pointer (dotPointer p)

def checkSubsetOf (params value context : Value) : Except ConstraintViolation Unit :=
  match params.asStr with
  | none => .error (subsetViolation slot s!"constraint.subset_of on slot '{slot}' must be a string path (e.g. \"$.context.declared_scope\"); got: {shortKind params}")
  | some path => match value.asArray with
    | none => .error (subsetViolation slot s!"slot '{slot}' has subset_of constraint but its value is not an array (got: {shortKind value}).")
    | some items => match resolveReference path context with
      | none => .error (subsetViolation slot s!"slot '{slot}' subset_of references path '{path}' but that path is unset / unresolvable. Constraint must reference an already-populated slot; check workflow ordering.")
      | some resolved => match resolved.asArray with
        | none => .error (subsetViolation slot s!"slot '{slot}' subset_of references path '{path}' which resolved to a non-array value ({shortKind resolved}).")
        | some reference => items.zipIdx.forM fun item =>
            if reference.any fun known => known.same item.1 then .ok ()
            else .error (subsetViolation slot s!"slot '{slot}' element at index {item.2} (value: {lib.toText item.1}) is not present in the reference array at '{path}'.")

def checkConstraint (constraint : Fields) (value context : Value) : Except ConstraintViolation Unit :=
  constraint.forM fun entry =>
    if entry.1 = "path_allowlist" then checkPathAllowlist lib slot entry.2 value
    else if entry.1 = "subset_of" then checkSubsetOf lib slot entry.2 value context
    else .error ⟨slot, entry.1, s!"SLOT_CONSTRAINT_VIOLATED: unknown constraint kind '{entry.1}' on slot '{slot}'. Supported: path_allowlist, subset_of. (Use slot's existing `type:` JSON Schema for regex / min / max / length / enum.)"⟩

end

def constraintOf (definition : Value) (state slot : String) : Option Fields :=
  ((((definition.get "blackboard").bind Value.asObject).bind fun slots => slots.get slot).orElse fun _ =>
    ((definition.walk ["states", state, "slots"]).bind Value.asObject).bind fun slots => slots.get slot).bind
      fun decl => (decl.get "constraint").bind Value.asObject

def evaluateConstraints (lib : Libraries) (definition : Value) (state : String) (context : Value) :
    Except ConstraintViolation Unit :=
  match context.asObject with
  | none => .ok ()
  | some fields => (fields.map Prod.fst).forM fun slot =>
      match constraintOf definition state slot, fields.get slot with
      | some constraint, some value => checkConstraint lib slot constraint value context
      | _, _ => .ok ()

section

variable (lib : Libraries) (slotId : String)

def invalidConstraint (message : String) : String :=
  s!"INVALID_CONSTRAINT_DECLARATION: slot '{slotId}' " ++ message

def validateGlobs (field : String) (patterns : List Value) : Except String Unit :=
  patterns.zipIdx.forM fun pattern => match pattern.1.asStr with
    | none => .error (invalidConstraint slotId s!"path_allowlist.{field}[{pattern.2}] is not a string")
    | some s => (lib.glob s).mapError fun e =>
        invalidConstraint slotId s!"path_allowlist.{field}[{pattern.2}] '{s}' is not a valid glob: {e}"

def validatePathAllowlist (params : Value) : Except String Unit :=
  match params.asObject with
  | none => .error (invalidConstraint slotId "path_allowlist must be an object with `allow:` and optional `deny:`")
  | some fields => match (fields.get "allow").bind Value.asArray with
    | none => .error (invalidConstraint slotId "path_allowlist requires a non-empty `allow: [<glob>...]` (empty/missing is misconfiguration)")
    | some [] => .error (invalidConstraint slotId "path_allowlist.allow is empty — an allow-everything constraint is misconfiguration, declare at least one glob or remove the constraint")
    | some allow => do
        validateGlobs lib slotId "allow" allow
        validateGlobs lib slotId "deny" (((fields.get "deny").bind Value.asArray).getD [])

def validateOneSlotConstraint (decl : Value) : Except String Unit :=
  match (decl.get "constraint").bind Value.asObject with
  | none => .ok ()
  | some [] => .error (invalidConstraint slotId "declares an empty `constraint:` block — either remove it or add a constraint kind")
  | some constraint => constraint.forM fun entry =>
      if entry.1 = "path_allowlist" then validatePathAllowlist lib slotId entry.2
      else if entry.1 = "subset_of" then
        match entry.2.asStr with
        | some _ => .ok ()
        | none => .error (invalidConstraint slotId "subset_of must be a string path (e.g. \"$.context.declared_scope\")")
      else .error (invalidConstraint slotId s!"unknown constraint kind '{entry.1}'. Supported: path_allowlist, subset_of. (Use the slot's existing `type:` JSON Schema for regex / min / max / length / enum.)")

def rejectConstraintInArrayBlackboard (scope : String) (elements : List Value) : Except String Unit :=
  elements.forM fun element =>
    if element.hasKey "constraint" then
      let named := (((element.get "name").bind Value.asStr).map fun n => s!" (slot '{n}')").getD ""
      .error (s!"CONSTRAINT_REQUIRES_OBJECT_BLACKBOARD: '{scope}' is declared in array form but carries a `constraint:`{named} — " ++
        "constraints cannot be honored under an array-form blackboard. Declare the blackboard in object form (slot-name → decl) to use constraints.")
    else .ok ()

/-- A block of slot declarations in either of its forms; `label` is how a slot of it is named. -/
def validateSlots (slots : Option Value) (scope : String) (label : String → String) : Except String Unit :=
  match slots with
  | some (.object fields) => fields.forM fun entry => validateOneSlotConstraint lib (label entry.1) entry.2
  | some (.array elements) => rejectConstraintInArrayBlackboard scope elements
  | _ => .ok ()

def validateConstraintsInDefinition (definition : Value) : Except String Unit := do
  validateSlots lib (definition.get "blackboard") "blackboard" id
  (((definition.get "states").bind Value.asObject).getD []).forM fun state =>
    validateSlots lib (state.2.get "slots") s!"states.{state.1}.slots" fun name => state.1 ++ "." ++ name

end

section

variable {lib : Libraries} {slot key : String}

def patternsOf (params : Value) (field : String) : List String :=
  (((params.get field).bind Value.asArray).getD []).filterMap Value.asStr

/-- Every element is a path that some `allow` glob matches and no `deny` glob does. -/
def WithinAllowlist (lib : Libraries) (params value : Value) : Prop :=
  ∃ items allow, value = .array items ∧ lib.globSet (patternsOf params "allow") = .ok allow ∧
    ∀ item ∈ items, ∃ path, item = .string path ∧ allow path = true ∧
      (params.hasKey "deny" → ∃ deny, lib.globSet (patternsOf params "deny") = .ok deny ∧ deny path = false)

def WithinReference (params value context : Value) : Prop :=
  ∃ items path reference, value = .array items ∧ params = .string path ∧
    resolveReference path context = some (.array reference) ∧ ∀ item ∈ items, reference.any fun known => known.same item

theorem globPatterns_ok
    (h : globPatterns lib slot field values i = .ok patterns) : patterns = values.filterMap Value.asStr := by
  induction values generalizing i patterns with
  | nil => cases h; rfl
  | cons value rest ih =>
    unfold globPatterns at h
    cases hs : value.asStr with
    | none => simp [hs] at h
    | some s =>
      rw [filterMap_cons, hs]
      cases hglob : lib.glob s with
      | error e => simp [hs, hglob] at h
      | ok u =>
        cases hrest : globPatterns lib slot field rest (i + 1) with
        | error e => simp [hs, hglob, hrest, Except.map] at h
        | ok found =>
          simp only [hs, hglob, hrest, Except.map, Except.ok.injEq] at h
          rw [← h, ih hrest]

variable {params : Value}

theorem buildGlobSet_ok {built : List String × (String → Bool)}
    (h : buildGlobSet lib slot (params.get field) field = .ok built) :
    built.1 = patternsOf params field ∧ lib.globSet (patternsOf params field) = .ok built.2 := by
  obtain ⟨patterns, hpatterns, h⟩ := bind_ok h
  have heq : patterns = patternsOf params field := globPatterns_ok hpatterns
  subst heq
  split at h
  · rename_i matcher hset
    cases h
    exact ⟨rfl, hset⟩
  · cases h

theorem checkPath_ok {allow : String → Bool} {deny : Option (String → Bool)} {idx : Nat}
    (h : checkPath lib slot params allow deny item idx = .ok ()) :
    ∃ path, item = .string path ∧ allow path ∧ ∀ matcher, deny = some matcher → matcher path = false := by
  unfold checkPath at h
  cases item with
  | string path =>
    refine ⟨path, rfl, ?_⟩
    simp only [Value.asStr] at h
    split at h
    · cases h
    split at h
    · cases h
    rename_i hallow hdeny
    refine ⟨by simpa using hallow, fun matcher hmatcher => ?_⟩
    subst hmatcher
    simpa using hdeny
  | _ => cases h

variable {value : Value}

theorem checkPathAllowlist_ok (h : checkPathAllowlist lib slot params value = .ok ()) :
    WithinAllowlist lib params value := by
  unfold checkPathAllowlist at h
  split at h
  · cases h
  rename_i fields hfields
  split at h
  · cases h
  rename_i items hitems
  have hget (field : String) : fields.get field = params.get field := by rw [Value.get, hfields]; rfl
  rw [hget, hget] at h
  obtain ⟨allow, hallow, h⟩ := bind_ok h
  obtain ⟨_, hallow⟩ := buildGlobSet_ok hallow
  dsimp only at h
  split at h
  · cases h
  have hvalue : value = .array items := by cases value <;> simp_all [Value.asArray]
  have hkey : fields.contains "deny" = params.hasKey "deny" := by rw [Fields.contains, hget]; rfl
  refine ⟨items, allow.2, hvalue, hallow, fun item hitem => ?_⟩
  split at h
  · obtain ⟨deny, hdeny, h⟩ := bind_ok h
    obtain ⟨built, hbuilt, rfl⟩ : ∃ built, buildGlobSet lib slot (params.get "deny") "deny" = .ok built ∧
        deny = some built.2 := by
      cases hbuilt : buildGlobSet lib slot (params.get "deny") "deny" with
      | error e => rw [hbuilt] at hdeny; cases hdeny
      | ok built => rw [hbuilt] at hdeny; cases hdeny; exact ⟨built, rfl, rfl⟩
    obtain ⟨i, hi⟩ := forM_zipIdx_ok h hitem
    obtain ⟨path, rfl, hmatch, hfree⟩ := checkPath_ok hi
    exact ⟨path, rfl, hmatch, fun _ => ⟨built.2, (buildGlobSet_ok hbuilt).2, hfree _ rfl⟩⟩
  · rename_i hdeny
    obtain ⟨i, hi⟩ := forM_zipIdx_ok h hitem
    obtain ⟨path, rfl, hmatch, _⟩ := checkPath_ok hi
    exact ⟨path, rfl, hmatch, fun hhas => (hdeny (hkey.trans hhas)).elim⟩

variable {context : Value}

theorem checkSubsetOf_ok (h : checkSubsetOf lib slot params value context = .ok ()) :
    WithinReference params value context := by
  unfold checkSubsetOf at h
  split at h
  · cases h
  rename_i path hpath
  split at h
  · cases h
  rename_i items hitems
  split at h
  · cases h
  rename_i resolved hresolved
  split at h
  · cases h
  rename_i reference hreference
  have hparams : params = .string path := by cases params <;> simp_all [Value.asStr]
  have hvalue : value = .array items := by cases value <;> simp_all [Value.asArray]
  have harray : resolved = .array reference := by cases resolved <;> simp_all [Value.asArray]
  refine ⟨items, path, reference, hvalue, hparams, harray ▸ hresolved, fun item hitem => ?_⟩
  obtain ⟨i, hi⟩ := forM_zipIdx_ok h hitem
  by_contra hmissing
  simp [hmissing] at hi

variable {fields fields' : Fields}

theorem mem_keys_of_get (h : fields.get key = some value) : key ∈ fields.map Prod.fst := by
  induction fields with
  | nil => cases h
  | cons entry rest ih =>
    rw [Fields.get_cons] at h
    split at h
    · simp [*]
    · exact mem_cons_of_mem _ (ih h)

variable {definition context' : Value} {state path : String}

theorem evaluateConstraints_ok_iff : evaluateConstraints lib definition state context = .ok () ↔
      ∀ slot constraint value, constraintOf definition state slot = some constraint → context.get slot = some value →
        checkConstraint lib slot constraint value context = .ok () := by
  cases context with
  | object fields =>
    simp only [evaluateConstraints, Value.asObject, forM_ok_iff, get_object]
    constructor
    · intro h slot constraint value hconstraint hvalue
      simpa [hconstraint, hvalue] using h slot (mem_keys_of_get hvalue)
    · intro h slot _
      split
      · exact h slot _ _ ‹_› ‹_›
      · rfl
  | _ => simp [evaluateConstraints, Value.asObject, Value.get]

def SlotsWithin (lib : Libraries) (definition : Value) (state : String) (context : Value) : Prop :=
  ∀ slot constraint value, constraintOf definition state slot = some constraint → context.get slot = some value →
    (∀ params, ("path_allowlist", params) ∈ constraint → WithinAllowlist lib params value) ∧
    ∀ params, ("subset_of", params) ∈ constraint → WithinReference params value context

theorem slotsWithin_of_evaluate
    (h : evaluateConstraints lib definition state context = .ok ()) : SlotsWithin lib definition state context := by
  intro slot constraint value hconstraint hvalue
  have hchecked := (forM_ok_iff _ _).mp (evaluateConstraints_ok_iff.mp h slot constraint value hconstraint hvalue)
  exact ⟨fun params hparams => checkPathAllowlist_ok (hchecked _ hparams),
    fun params hparams => checkSubsetOf_ok (hchecked _ hparams)⟩

def referenceKey (path : String) : Option String :=
  (Text.stripStart "$.context.".toList path.toList).bind fun p => (pointerTokens (dotPointer p)).bind List.head?

def Referenced (definition : Value) (state key : String) : Prop :=
  ∃ slot constraint path, constraintOf definition state slot = some constraint ∧
    ("subset_of", .string path) ∈ constraint ∧ referenceKey path = some key

theorem splitSlash_ne_nil : splitSlash cs ≠ [] := by
  cases cs with
  | nil => simp [splitSlash]
  | cons c rest =>
    unfold splitSlash
    split
    · simp
    · split <;> simp

theorem pointerTokens_dotPointer_ne : pointerTokens (dotPointer p) ≠ some [] := by
  simp [pointerTokens, dotPointer, splitSlash_ne_nil]

theorem resolveReference_congr (h : ∀ key, referenceKey path = some key → fields.get key = fields'.get key) :
    resolveReference path (.object fields) = resolveReference path (.object fields') := by
  unfold resolveReference referenceKey at *
  cases hp : Text.stripStart "$.context.".toList path.toList with
  | none => rfl
  | some p =>
    simp only [hp, Option.bind_some, Value.pointer] at h ⊢
    cases htokens : pointerTokens (dotPointer p) with
    | none => rfl
    | some tokens =>
      cases tokens with
      | nil => exact absurd htokens (pointerTokens_dotPointer_ne)
      | cons key rest =>
        have hkey : fields.get key = fields'.get key := h key (by simp [htokens])
        simp only [Option.bind_some, walk_cons, step_object, hkey]

theorem checkSubsetOf_congr
    (h : ∀ path key, params = .string path → referenceKey path = some key → fields.get key = fields'.get key) :
    checkSubsetOf lib slot params value (.object fields) = checkSubsetOf lib slot params value (.object fields') := by
  cases params with
  | string path =>
    simp only [checkSubsetOf, Value.asStr, resolveReference_congr fun key => h path key rfl]
  | _ => rfl

theorem evaluateConstraints_frame (hslots : ∀ slot, (constraintOf definition state slot).isSome →
      context'.get slot = context.get slot ∨ context'.get slot = none)
    (hreferenced : ∀ key, Referenced definition state key → context'.get key = context.get key)
    (h : evaluateConstraints lib definition state context = .ok ()) :
    evaluateConstraints lib definition state context' = .ok () := by
  refine evaluateConstraints_ok_iff.mpr fun slot constraint value hconstraint hvalue => ?_
  have hsame : context.get slot = some value := by
    rcases hslots slot (by simp [hconstraint]) with hkept | hgone
    · exact hkept ▸ hvalue
    · cases hgone.symm.trans hvalue
  have hchecked := (forM_ok_iff _ _).mp (evaluateConstraints_ok_iff.mp h slot constraint value hconstraint hsame)
  refine (forM_ok_iff _ _).mpr fun entry hentry => ?_
  have hentryOk := hchecked entry hentry
  obtain ⟨kind, params⟩ := entry
  dsimp only at hentryOk ⊢
  by_cases hkind : kind = "subset_of"
  · subst hkind
    rw [← hentryOk]
    have hget {v : Value} {w : Value} (hv : v.get slot = some w) : ∃ fields, v = .object fields := by
      cases v with
      | object fields => exact ⟨fields, rfl⟩
      | _ => cases hv
    obtain ⟨fields, rfl⟩ := hget hsame
    obtain ⟨fields', rfl⟩ := hget hvalue
    exact checkSubsetOf_congr fun path key hpath hkey =>
      hreferenced key ⟨slot, constraint, path, hconstraint, hpath ▸ hentry, hkey⟩
  · simpa [hkind] using hentryOk

end

end Praxec
