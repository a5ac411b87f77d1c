import Praxec.Runtime.Basic

namespace Praxec

open Json Value Fields

variable {key : String}

section

mutual
def applyDefaults : Value → Value → Value
  | .object fields, value => applyDefaultsFields fields value
  | _, value => value

/-- The `properties` entry of a schema, if there is one, decides. -/
def applyDefaultsFields : Fields → Value → Value
  | [], value => value
  | (key, schema) :: rest, value =>
      if key = "properties" then
        match schema with
        | .object props => applyDefaultsProps props value
        | _ => value
      else applyDefaultsFields rest value

def applyDefaultsProps : Fields → Value → Value
  | [], value => value
  | (key, prop) :: rest, value =>
      applyDefaultsProps rest (match value with
        | .object obj => .object (match Fields.get obj key, prop.get "default" with
          | none, some dflt => Fields.insert obj key dflt
          | none, none => obj
          | some .null, some dflt => Fields.insert obj key dflt
          | some child, _ => Fields.insert obj key (applyDefaults prop child))
        | other => other)
end

def applySchemaDefaults (schema : Option Value) (value : Value) : Value :=
  match schema with
  | some s => applyDefaults s value
  | none => value

theorem applyDefaults_eq (schema value : Value) : applyDefaults schema value =
      (((schema.get "properties").bind Value.asObject).elim value fun props => applyDefaultsProps props value) := by
  unfold applyDefaults
  split
  · rename_i fields
    rw [get_object]
    induction fields with
    | nil => rfl
    | cons entry rest ih =>
      obtain ⟨key, schema⟩ := entry
      unfold applyDefaultsFields
      rw [get_cons]
      by_cases hkey : key = "properties"
      · rw [if_pos hkey, if_pos hkey.symm]
        cases schema <;> rfl
      · rw [if_neg hkey, if_neg (Ne.symm hkey), ih]
  · rename_i hobject
    cases schema with
    | object fields => exact absurd rfl (hobject fields)
    | _ => rfl

variable {value : Value} {s : String}

theorem applyDefaultsProps_of_not_isObject (h : value.isObject = false) :
    applyDefaultsProps props value = value := by
  induction props with
  | nil => rfl
  | cons entry rest ih =>
    cases value with
    | object obj => cases h
    | _ => exact ih

theorem applyDefaults_of_not_isObject (schema : Value) (h : value.isObject = false) :
    applyDefaults schema value = value := by
  rw [applyDefaults_eq]
  cases (schema.get "properties").bind Value.asObject with
  | none => rfl
  | some props => exact applyDefaultsProps_of_not_isObject h

theorem get_applyDefaults_string
    (h : value.get key = some (.string s)) : (applyDefaults schema value).get key = some (.string s) := by
  rw [applyDefaults_eq]
  cases (schema.get "properties").bind Value.asObject with
  | none => exact h
  | some props =>
    induction props generalizing value with
    | nil => exact h
    | cons entry rest ih =>
      obtain ⟨name, prop⟩ := entry
      refine ih ?_
      cases value with
      | object obj =>
        have hobj : Fields.get obj key = some (.string s) := h
        by_cases hname : key = name
        · subst hname
          have hstring : applyDefaults prop (.string s) = .string s := applyDefaults_of_not_isObject prop rfl
          simp [hobj, hstring]
        · simp only [get_object]
          split <;> simp only [Fields.get_insert_of_ne _ _ hname, hobj]
      | _ => exact h

theorem strField_applySchemaDefaults (schema : Option Value)
    (h : strField value key = some s) : strField (applySchemaDefaults schema value) key = some s := by
  obtain ⟨v, hget, hv⟩ := Option.bind_eq_some_iff.mp h
  have hstring : v = .string s := by cases v <;> simp_all [Value.asStr]
  subst hstring
  have hkept : (applySchemaDefaults schema value).get key = some (.string s) := by
    cases schema with
    | none => exact hget
    | some schema => exact get_applyDefaults_string hget
  rw [strField, hkept]
  rfl

variable (lib : Libraries)

def Validates (schema value : Value) : Prop :=
  ∃ validator, lib.compileSchema schema = .ok validator ∧ validator value = []

def validateSchema (schema : Option Value) (value : Value) (label : String) : Except Err Unit :=
  match schema with
  | none => .ok ()
  | some s => match lib.compileSchema s with
    | .error e => .error ("invalid " ++ label ++ " schema: " ++ e)
    | .ok validator => match validator value with
      | [] => .ok ()
      | errors => .error ("invalid " ++ label ++ ": " ++ "; ".intercalate errors)

theorem validateSchema_ok_iff (schema : Option Value) (value : Value) (label : String) :
    validateSchema lib schema value label = .ok () ↔ ∀ s, schema = some s → Validates lib s value := by
  unfold validateSchema Validates
  cases schema with
  | none => simp
  | some s =>
    simp only [Option.some.injEq, forall_eq']
    cases hs : lib.compileSchema s with
    | error e => simp
    | ok validator =>
      cases hv : validator value with
      | nil => simp [hv]
      | cons e es => simp [hv]

def requiredStr (value : Value) (key : String) : Except Err String :=
  match strField value key with
  | some s => .ok s
  | none => .error ("required string missing at /" ++ key)

end

section

def blackboardDelta (pre post : Value) : Value :=
  let preFields := (pre.asObject).getD []
  let postFields := (post.asObject).getD []
  let changed := postFields.filter fun entry => match preFields.get entry.1 with
    | some prev => !prev.same entry.2
    | none => true
  let removed := (preFields.filter fun entry => !postFields.contains entry.1).map fun entry =>
    (entry.1, Value.null)
  .object (changed ++ removed)

variable (lib : Libraries)

def checkAgainst (schema value : Value) (invalidSchema violation : String → String) : Except String Unit :=
  match lib.compileSchema schema with
  | .error e => .error (invalidSchema e)
  | .ok validator => match validator value with
    | [] => .ok ()
    | errors => .error (violation ("; ".intercalate errors))

def checkTypedSlot (blackboard context : Value) (slot : String) : Except (String × String) Unit :=
  match blackboard.get slot with
  | some (.object (entry :: rest)) =>
      (checkAgainst lib (.object (entry :: rest)) ((context.get slot).getD .null)
        (fun e => "invalid blackboard schema: " ++ e) id).mapError fun reason => (slot, reason)
  | _ => .ok ()

def checkFinding (registry : Option Value) (slot : String) (i : Nat) (finding : Value) :
    Except (String × String) Unit :=
  match finding.get "fix" with
  | none => .ok ()
  | some fix => match strField fix "schema_ref" with
    | none => .ok ()
    | some ref =>
        let inner := (fix.get "value").getD .null
        match registry.bind fun r => r.get ref with
        | none => .error (slot, s!"SCHEMA_BOUND_VIOLATION: finding[{i}].fix.schema_ref '{ref}' is not a " ++
            "registered schema")
        | some schema => (checkAgainst lib schema inner
            (fun e => s!"SCHEMA_BOUND_VIOLATION: registered schema '{ref}' does not compile: {e}")
            (fun errs => s!"SCHEMA_BOUND_VIOLATION: finding[{i}].fix.value violates registered schema " ++
              s!"'{ref}': {errs}")).mapError fun reason => (slot, reason)

def checkFindings (registry : Option Value) (slot : String) : List Value → Nat → Except (String × String) Unit
  | [], _ => .ok ()
  | finding :: rest, i => do
    checkFinding lib registry slot i finding
    checkFindings registry slot rest (i + 1)

def checkSlots (check : String → Except (String × String) Unit) : List String → Except (String × String) Unit
  | [] => .ok ()
  | slot :: rest => do
    check slot
    checkSlots check rest

/-- The slots an output mapping wrote satisfy their declared types, and the engine's continuation
ledger is not among them; an error names the slot. -/
def validateBlackboardWrites (definition : Value) (mapping : Option Value) (context : Value) :
    Except (String × String) Unit :=
  let slots := writtenSlots mapping
  if continuationReadsKey ∈ slots then
    .error (continuationReadsKey, "reserved engine continuation slot cannot be written by a transition")
  else do
    match definition.get "blackboard" with
    | some (.object fields) => checkSlots (checkTypedSlot lib (.object fields) context) slots
    | _ => .ok ()
    let registry := (definition.get "_schemasRegistry").filter Value.isObject
    checkSlots (fun slot => match ((context.get slot).bind fun v => v.get "findings").bind Value.asArray with
      | some findings => checkFindings lib registry slot findings 0
      | none => .ok ()) slots

end

def clearWaitOnAdvance (key : String) (context : Value) (resolvedTransition : String) : Value :=
  if ((context.get key).bind fun w => strField w "transition") = some resolvedTransition then
    context.remove key
  else context

def clearSubworkflowWaitOnAdvance : Value → String → Value :=
  clearWaitOnAdvance "_subworkflow_wait"

def clearAgentAwaitOnAdvance : Value → String → Value :=
  clearWaitOnAdvance "_agent_await"

def agentAwaitFor (context : Value) (transition : String) : Option (String × String) :=
  (context.get "_agent_await").bind fun wait =>
    if strField wait "transition" = some transition then
      (strField wait "correlation_id").map fun c => (c, (strField wait "prompt").getD "")
    else none

def writeMarker (context : Value) (key : String) (wait : Value) : Value :=
  match context with
  | .object fields => .object (Fields.insert fields key wait)
  | _ => .object [(key, wait)]

theorem get_writeMarker_self (context : Value) (key : String) (wait : Value) :
    (writeMarker context key wait).get key = some wait := by
  cases context <;> simp [writeMarker, get_cons]

theorem get_writeMarker_of_ne (context wait : Value) (h : other ≠ key) :
    (writeMarker context key wait).get other = context.get other := by
  cases context with
  | object fields => exact get_insert_of_ne fields wait h
  | _ =>
    simp only [writeMarker, get_object, get_cons, if_neg h, get_nil]
    rfl

def continuationReads (config : Value) : Except Err (List String) :=
  match config with
  | .object [("reads", .array (first :: rest))] =>
      (first :: rest).foldlM (fun paths path => match path.asStr with
        | none => .error "CONTINUATION_CONFIG_INVALID: each read must be a path string"
        | some p =>
            let tail := (Text.stripStart "$.context.".toList p.toList).orElse fun _ =>
              Text.stripStart "$.workflow.input.".toList p.toList
            if (match tail with
                | none | some [] => true
                | some (c :: _) => c = '_') || Text.contains p "*" then
              .error s!"CONTINUATION_CONFIG_INVALID: read '{p}' must select a concrete public path"
            else if p ∈ paths then .error s!"CONTINUATION_CONFIG_INVALID: duplicate read '{p}'"
            else .ok (paths ++ [p])) []
  | .object [("reads", _)] => .error "CONTINUATION_CONFIG_INVALID: reads must be a nonempty array"
  | .object _ => .error "CONTINUATION_CONFIG_INVALID: continuation accepts only reads"
  | _ => .error "CONTINUATION_CONFIG_INVALID: continuation must be an object"

def captureReads (inst : WorkflowInstance) : List String → Except Err Fields
  | [] => .ok []
  | path :: rest =>
      match readInScopes ⟨.emptyObject, inst.context, inst.input, none, some inst.runEnv⟩ path with
      | none => .error s!"CONTINUATION_INPUT_UNRESOLVED: state '{inst.state}' read '{path}' is missing"
      | some v => (captureReads inst rest).map fun fields => (path, v) :: fields

def captureContinuation (definition : Value) (inst : WorkflowInstance) : Except Err (Option Value) :=
  match ((definition.get "states").bind fun s => s.get inst.state).bind fun s => s.get "continuation" with
  | none => .ok none
  | some config => do
      let reads ← continuationReads config
      let fields ← captureReads inst reads
      return some (.object fields)

def continuationUnchanged (inst : WorkflowInstance) (snapshot : Value) : Except Err Bool :=
  match inst.context.get continuationReadsKey with
  | none => .ok false
  | some (.object states) => .ok (((Fields.get states inst.state).map fun v => v.same snapshot).getD false)
  | some _ => .error "CONTINUATION_METADATA_INVALID: engine continuation metadata must be an object"

def commitContinuation (context : Value) (previous : Option Value) (state : String) (snapshot : Option Value) :
    Except Err Value :=
  match previous, snapshot with
  | none, none => .ok (context.remove continuationReadsKey)
  | _, _ =>
      match previous.getD (.object []) with
      | .object states =>
          let ledger := match snapshot with
            | some s => Fields.insert states state s
            | none => states
          match context with
          | .object fields => .ok (.object (Fields.insert fields continuationReadsKey (.object ledger)))
          | _ => .error "CONTINUATION_METADATA_INVALID: context must be an object"
      | _ => .error "CONTINUATION_METADATA_INVALID: engine continuation metadata must be an object"

theorem get_commitContinuation_of_ne (h : commitContinuation context previous state snapshot = .ok context')
    (hkey : key ≠ continuationReadsKey) : context'.get key = context.get key := by
  unfold commitContinuation at h
  split at h
  · cases h
    simp [Value.get_remove, hkey]
  · split at h
    · cases context with
      | object fields =>
        cases h
        exact get_insert_of_ne _ _ hkey
      | null | bool _ | number _ | string _ | array _ => simp at h
    · cases h

end Praxec
