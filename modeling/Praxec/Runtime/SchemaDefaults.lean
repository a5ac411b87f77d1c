import Praxec.Json.Merge
import Praxec.Runtime.Records

namespace Praxec.SchemaDefaults

open Json Option Value Fields

def declared (schema : Value) (key : String) : Option Value :=
  (schema.get "properties").bind fun props => props.get key

/-- Every map of `properties` below `schema` has one entry per key, as a parsed document has. -/
inductive Keyed : Value → Prop where
  | intro {schema : Value} (here : ∀ props, schema.get "properties" = some (.object props) → Fields.Distinct props)
      (below : ∀ key prop, declared schema key = some prop → Keyed prop) : Keyed schema

inductive Throughout (φ : Value → Value → Prop) : Value → Value → Prop where
  | intro {schema value : Value} (here : value.isObject = true → φ schema value)
      (below : ∀ key prop child, declared schema key = some prop → value.get key = some child →
        Throughout φ prop child) : Throughout φ schema value

/-- Every property with a default is there, and is not null unless its default is. -/
def Complete : Value → Value → Prop :=
  Throughout fun schema value => ∀ key prop dflt, declared schema key = some prop → prop.get "default" = some dflt →
    ∃ child, value.get key = some child ∧ (dflt ≠ .null → child ≠ .null)

/-- Every default of a property that is missing or null is complete itself. -/
def Settled : Value → Value → Prop :=
  Throughout fun schema value => ∀ key prop dflt, declared schema key = some prop → prop.get "default" = some dflt →
    (value.get key).getD .null = .null → Complete prop dflt

/-- What `before` holds at a path and is not null is in `after` too; an object may have gained
entries, everything else is the same. -/
def Kept (before after : Value) : Prop :=
  ∀ path child, before.walk path = some child → child ≠ .null →
    ∃ child', after.walk path = some child' ∧ (child' = child ∨ child.isObject = true ∧ child'.isObject = true)

def fill (prop : Value) : Option Value → Option Value
  | none => prop.get "default"
  | some .null => some ((prop.get "default").getD .null)
  | some child => some (applyDefaults prop child)

section

variable {schema prop value child : Value} {props obj : Fields} {key : String}

theorem Throughout.of_not_isObject (h : value.isObject = false) : Throughout φ schema value := by
  constructor
  · intro hobject
    exact absurd (h.symm.trans hobject) Bool.false_ne_true
  · intro key prop child _ hchild
    rw [get_of_not_isObject h] at hchild
    cases hchild

theorem isObject_applyDefaults (schema value : Value) : (applyDefaults schema value).isObject = value.isObject := by
  rw [applyDefaults_eq]
  cases (schema.get "properties").bind Value.asObject with
  | none => rfl
  | some props =>
    rw [elim_some]
    induction props generalizing value with
    | nil => rfl
    | cons entry rest ih =>
      unfold applyDefaultsProps
      rw [ih]
      cases value <;> rfl

/-- A property is left missing or null, has its default filled in, or is there and gone into. -/
theorem fill_cases (prop : Value) (before : Option Value) :
    (before.getD .null = .null ∧ prop.get "default" = none ∧ fill prop before = before) ∨
      (∃ dflt, before.getD .null = .null ∧ prop.get "default" = some dflt ∧ fill prop before = some dflt) ∨
        ∃ child, before = some child ∧ child ≠ .null ∧ fill prop before = some (applyDefaults prop child) := by
  cases hdflt : prop.get "default" <;> cases before with
  | none => simp [fill, hdflt]
  | some child => cases child <;> simp [fill, hdflt]

theorem fill_child (prop : Value) (h : child ≠ .null) : fill prop (some child) = some (applyDefaults prop child) := by
  cases child with
  | null => exact absurd rfl h
  | _ => rfl

theorem applyDefaults_ne_null (h : value ≠ .null) : applyDefaults schema value ≠ .null := by
  cases hobject : value.isObject with
  | false => rwa [applyDefaults_of_not_isObject schema hobject]
  | true =>
    intro hnull
    rw [← isObject_applyDefaults schema, hnull] at hobject
    cases hobject

theorem insert_of_get (h : obj.get key = some child) : obj.insert key child = obj := by
  induction obj with
  | nil => cases h
  | cons entry rest ih =>
    obtain ⟨name, v⟩ := entry
    rw [get_cons] at h
    by_cases hname : key = name
    · subst hname
      rw [if_pos rfl] at h
      cases h
      exact if_pos rfl
    · rw [if_neg hname] at h
      rw [Fields.insert, if_neg (Ne.symm hname), ih h]

theorem applyDefaultsProps_cons :
    applyDefaultsProps ((key, prop) :: rest) (.object obj) =
      applyDefaultsProps rest (.object ((fill prop (obj.get key)).elim obj (obj.insert key))) := by
  have hnull : applyDefaults prop .null = .null := applyDefaults_of_not_isObject prop rfl
  rw [applyDefaultsProps]
  cases obj.get key with
  | none => cases hdflt : prop.get "default" <;> simp [fill, hdflt]
  | some child => cases hdflt : prop.get "default" <;> cases child <;> simp [fill, hdflt, hnull]

theorem get_applyDefaultsProps (hd : props.Distinct) :
    (applyDefaultsProps props (.object obj)).get key =
      ((props.get key).elim (obj.get key) fun prop => fill prop (obj.get key)) := by
  induction props generalizing obj with
  | nil => rfl
  | cons entry rest ih =>
    obtain ⟨name, prop⟩ := entry
    obtain ⟨hname, hrest⟩ := List.nodup_cons.mp hd
    rw [applyDefaultsProps_cons, ih hrest, get_cons]
    by_cases hkey : key = name
    · subst hkey
      rw [if_pos rfl, get_eq_none_iff.mpr hname, elim_some]
      cases hfill : fill prop (obj.get key) with
      | none =>
        rcases fill_cases prop (obj.get key) with ⟨-, -, h⟩ | ⟨_, -, -, h⟩ | ⟨_, -, -, h⟩
        · exact h.symm.trans hfill
        · cases h.symm.trans hfill
        · cases h.symm.trans hfill
      | some child => exact get_insert_self obj key child
    · rw [if_neg hkey]
      cases fill prop (obj.get name) with
      | none => rfl
      | some child => rw [elim_some, get_insert_of_ne obj child hkey]

theorem get_applyDefaults (hk : Keyed schema) (hobject : value.isObject) (key : String) :
    (applyDefaults schema value).get key =
      ((declared schema key).elim (value.get key) fun prop => fill prop (value.get key)) := by
  obtain ⟨here, -⟩ := hk
  obtain ⟨obj, rfl⟩ := (isObject_iff value).mp hobject
  rw [applyDefaults_eq, declared]
  cases hprops : schema.get "properties" with
  | none => rfl
  | some v =>
    cases v with
    | object props => exact get_applyDefaultsProps (here props hprops)
    | _ => rfl

theorem get_declared (hk : Keyed schema) (hobject : value.isObject) (h : declared schema key = some prop) :
    (applyDefaults schema value).get key = fill prop (value.get key) := by
  rw [get_applyDefaults hk hobject, h, elim_some]

theorem applyDefaultsProps_eq_self (h : ∀ entry ∈ props, fill entry.2 (obj.get entry.1) = obj.get entry.1) :
    applyDefaultsProps props (.object obj) = .object obj := by
  induction props with
  | nil => rfl
  | cons entry rest ih =>
    obtain ⟨hentry, hrest⟩ := List.forall_mem_cons.mp h
    rw [applyDefaultsProps_cons, hentry]
    cases hget : obj.get entry.1 with
    | none => exact ih hrest
    | some child =>
      rw [elim_some, insert_of_get hget]
      exact ih hrest

theorem declared_of_mem (h : schema.get "properties" = some (.object props)) (hd : props.Distinct)
    (hmem : (key, prop) ∈ props) : declared schema key = some prop := by
  have hget : props.get key ≠ none := by
    intro hnone
    exact get_eq_none_iff.mp hnone (List.mem_map_of_mem hmem)
  obtain ⟨prop', hprop⟩ := ne_none_iff_exists'.mp hget
  rw [declared, h, hd.value_unique hmem (mem_of_get hprop)]
  exact hprop

theorem Complete.applyDefaults_eq_self (h : Complete schema value) (hk : Keyed schema) :
    applyDefaults schema value = value := by
  induction h with
  | intro here below ih =>
    rename_i schema value
    obtain ⟨hdistinct, hkeyed⟩ := hk
    cases hobject : value.isObject with
    | false => exact applyDefaults_of_not_isObject schema hobject
    | true =>
      obtain ⟨obj, rfl⟩ := (isObject_iff value).mp hobject
      rw [applyDefaults_eq]
      cases hprops : (schema.get "properties").bind Value.asObject with
      | none => rfl
      | some props =>
        obtain ⟨v, hv, hasObject⟩ := bind_eq_some_iff.mp hprops
        rw [asObject_eq_some hasObject] at hv
        refine applyDefaultsProps_eq_self ?_
        intro entry hmem
        obtain ⟨key, prop⟩ := entry
        have hdecl := declared_of_mem hv (hdistinct props hv) hmem
        -- a default that is declared has been filled in already
        rcases fill_cases prop (Fields.get obj key) with ⟨-, -, hfill⟩ | ⟨dflt, hnull, hdflt, hfill⟩ | ⟨child, hget, -, hfill⟩
        · exact hfill
        · obtain ⟨child, hchild, hne⟩ := here hobject key prop dflt hdecl hdflt
          rw [get_object] at hchild
          rw [hchild, getD_some] at hnull
          rw [hfill, hchild, hnull, not_not.mp fun h => hne h hnull]
        · rw [hfill, hget, ih key prop child hdecl hget (hkeyed key prop hdecl)]

/-- The defaults that are filled in decide whether the result is complete. -/
theorem Settled.complete (h : Settled schema value) (hk : Keyed schema) :
    Complete schema (applyDefaults schema value) := by
  induction h with
  | intro here below ih =>
    rename_i schema value
    cases hobject : value.isObject with
    | false =>
      rw [applyDefaults_of_not_isObject schema hobject]
      exact .of_not_isObject hobject
    | true =>
      constructor
      · intro _ key prop dflt hdecl hdflt
        rw [get_declared hk hobject hdecl]
        rcases fill_cases prop (value.get key) with ⟨-, hnone, -⟩ | ⟨dflt', -, hdflt', hfill⟩ | ⟨child, -, hne, hfill⟩
        · cases hnone.symm.trans hdflt
        · cases hdflt'.symm.trans hdflt
          exact ⟨_, hfill, id⟩
        · exact ⟨_, hfill, fun _ => applyDefaults_ne_null hne⟩
      · intro key prop after hdecl hafter
        rw [get_declared hk hobject hdecl] at hafter
        rcases fill_cases prop (value.get key) with ⟨hnull, -, hfill⟩ | ⟨dflt, hnull, hdflt, hfill⟩ | ⟨child, hget, -, hfill⟩
        · rw [← hfill, hafter, getD_some] at hnull
          exact .of_not_isObject (hnull ▸ rfl)
        · cases hfill.symm.trans hafter
          exact here hobject key prop _ hdecl hdflt hnull
        · cases hfill.symm.trans hafter
          obtain ⟨-, hkeyed⟩ := hk
          exact ih key prop child hdecl hget (hkeyed key prop hdecl)

/-- What is complete afterwards tells what the defaults that were filled in are. -/
theorem Complete.settled (h : Complete schema after) (hk : Keyed schema)
    (hafter : after = applyDefaults schema value) : Settled schema value := by
  induction h generalizing value with
  | intro here below ih =>
    subst hafter
    cases hobject : value.isObject with
    | false => exact .of_not_isObject hobject
    | true =>
      constructor
      · intro _ key prop dflt hdecl hdflt hnull
        refine below key prop dflt hdecl ((get_declared hk hobject hdecl).trans ?_)
        rcases fill_cases prop (value.get key) with ⟨-, hnone, -⟩ | ⟨dflt', -, hdflt', hfill⟩ | ⟨child, hget, hne, -⟩
        · cases hnone.symm.trans hdflt
        · cases hdflt'.symm.trans hdflt
          exact hfill
        · rw [hget] at hnull
          exact absurd hnull hne
      · intro key prop child hdecl hchild
        have hget := get_declared hk hobject hdecl
        rcases fill_cases prop (value.get key) with ⟨hnull, -, -⟩ | ⟨dflt, hnull, -, -⟩ | ⟨child', hchild', -, hfill⟩
        · rw [hchild, Option.getD_some] at hnull
          exact .of_not_isObject (hnull ▸ rfl)
        · rw [hchild, Option.getD_some] at hnull
          exact .of_not_isObject (hnull ▸ rfl)
        · cases hchild'.symm.trans hchild
          obtain ⟨-, hkeyed⟩ := hk
          exact ih key prop (applyDefaults prop child) hdecl (hget.trans hfill) (hkeyed key prop hdecl) rfl

theorem walk_cons_of_get (h : value.get key = some child) (path : List String) :
    value.walk (key :: path) = child.walk path := by
  rw [walk_cons, step_of_get h, bind_some]

theorem kept_applyDefaults (hk : Keyed schema) (value : Value) : Kept value (applyDefaults schema value) := by
  intro path
  induction path generalizing schema value with
  | nil =>
    intro child hchild _
    cases hchild
    refine ⟨_, rfl, ?_⟩
    cases hobject : value.isObject with
    | false => exact .inl (applyDefaults_of_not_isObject schema hobject)
    | true => exact .inr ⟨rfl, (isObject_applyDefaults schema value).trans hobject⟩
  | cons key path ih =>
    intro child hchild hne
    cases hobject : value.isObject with
    | false =>
      rw [applyDefaults_of_not_isObject schema hobject]
      exact ⟨child, hchild, .inl rfl⟩
    | true =>
      have hbefore : (value.get key).bind (fun w => w.walk path) = some child := by
        obtain ⟨obj, rfl⟩ := (isObject_iff value).mp hobject
        exact hchild
      obtain ⟨next, hnext, hwalk⟩ := bind_eq_some_iff.mp hbefore
      have hnull : next ≠ .null := by
        intro hnull
        subst hnull
        cases path with
        | nil => exact hne (Option.some.inj hwalk).symm
        | cons _ _ => cases hwalk
      have hafter := get_applyDefaults hk hobject key
      rw [hnext] at hafter
      cases hdecl : declared schema key with
      | none =>
        rw [hdecl] at hafter
        exact ⟨child, (walk_cons_of_get hafter path).trans hwalk, .inl rfl⟩
      | some prop =>
        rw [hdecl, elim_some, fill_child prop hnull] at hafter
        obtain ⟨-, hkeyed⟩ := hk
        obtain ⟨child', hchild', hsame⟩ := ih (hkeyed key prop hdecl) next child hwalk hne
        exact ⟨child', (walk_cons_of_get hafter path).trans hchild', hsame⟩

end

/-- The three promises of schema defaults: the result is complete, what was there is kept, and a
second application changes nothing. -/
structure DefaultsHold (schema : Option Value) (value : Value) : Prop where
  complete : ∀ s, schema = some s → Complete s (applySchemaDefaults schema value)
  kept : Kept value (applySchemaDefaults schema value)
  stable : applySchemaDefaults schema (applySchemaDefaults schema value) = applySchemaDefaults schema value

/-- Schema defaults are complete and stable exactly when every default they fill in is complete
under its own schema. -/
theorem defaultsHold_iff (schema : Option Value) (value : Value) (hk : ∀ s, schema = some s → Keyed s) :
    DefaultsHold schema value ↔ ∀ s, schema = some s → Settled s value := by
  constructor
  · intro h s hs
    subst hs
    exact (h.complete s rfl).settled (hk s rfl) rfl
  · intro h
    cases schema with
    | none =>
      refine ⟨fun s hs => absurd hs (some_ne_none s).symm, ?_, rfl⟩
      intro path child hchild _
      exact ⟨child, hchild, .inl rfl⟩
    | some s =>
      have hcomplete : Complete s (applyDefaults s value) := (h s rfl).complete (hk s rfl)
      refine ⟨?_, kept_applyDefaults (hk s rfl) value, hcomplete.applyDefaults_eq_self (hk s rfl)⟩
      intro s' hs'
      cases hs'
      exact hcomplete

def flagSchema : Value :=
  .object [("properties", .object [("verbose", .object [("default", .bool false)])])]

theorem declared_flagSchema (h : declared flagSchema key = some prop) :
    prop = .object [("default", .bool false)] := by
  have hget : Fields.get [("verbose", .object [("default", .bool false)])] key = some prop := h
  rw [get_cons] at hget
  split at hget
  · exact (Option.some.inj hget).symm
  · cases hget

theorem defaultsHold_flagSchema :
    (∀ s, some flagSchema = some s → Keyed s) ∧ DefaultsHold (some flagSchema) .emptyObject := by
  have hkeyed : ∀ s, some flagSchema = some s → Keyed s := by
    intro s hs
    cases hs
    constructor
    · intro props hprops
      cases hprops
      exact List.pairwise_singleton _ _
    · intro key prop hdecl
      cases declared_flagSchema hdecl
      constructor
      · intro props hprops
        cases hprops
      · intro key prop hprop
        cases hprop
  refine ⟨hkeyed, (defaultsHold_iff (some flagSchema) .emptyObject hkeyed).mpr ?_⟩
  intro s hs
  cases hs
  constructor
  · intro key prop dflt _ hdecl hdflt _
    cases declared_flagSchema hdecl
    cases hdflt
    exact .of_not_isObject rfl
  · intro key prop child _ hchild
    cases hchild

def retrySchema : Value :=
  .object [("properties", .object [("retry", .object
    [("default", .emptyObject), ("properties", .object [("count", .object [("default", .nat 3)])])])])]

/-- The filled-in object misses its own default, and a second application adds it. -/
theorem nested_default_missed :
    applySchemaDefaults (some retrySchema) .emptyObject = .object [("retry", .emptyObject)] ∧
      ¬ DefaultsHold (some retrySchema) .emptyObject := by
  refine ⟨by decide +kernel, ?_⟩
  intro h
  have hstable := h.stable
  revert hstable
  decide +kernel

end Praxec.SchemaDefaults
