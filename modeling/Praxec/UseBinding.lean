import Praxec.Mapping

namespace Praxec

open Json List Fields

structure SchemaViolation where
  slot : String
  reason : String
deriving DecidableEq

section

variable (sc : Scopes)

mutual
def resolveOne : Value → Value
  | .string s => if Text.startsWith s "$." then (readInScopes sc s).getD .null else .string s
  | .object fields => .object (resolveOneFields fields)
  | .array xs => .array (resolveOneList xs)
  | other => other

def resolveOneFields : Fields → Fields
  | [] => []
  | (k, v) :: rest => (k, resolveOne v) :: resolveOneFields rest

def resolveOneList : List Value → List Value
  | [] => []
  | v :: rest => resolveOne v :: resolveOneList rest
end

def resolveUseInputs (useInputs : Value) : Fields :=
  match useInputs.asObject with
  | none => []
  | some fields => resolveOneFields sc fields

end

section

def byName (bindings : Fields) (name : String) : Option String :=
  bindings.foldl (fun found entry => if entry.2.asStr = some name then some entry.1 else found) none

def projectOutput (childContext : Value) (out : Fields) (entry : String × Value) : Fields :=
  match entry.2.asStr with
  | none => out
  | some name => out.insert entry.1 ((childContext.get name).getD .null)

def projectUseOutputs (useOutputs childContext : Value) : Fields :=
  match useOutputs.asObject with
  | none => []
  | some bindings => bindings.foldl (projectOutput childContext) []

def deterministicEmptyFor (schema : Value) : Option Value :=
  match schema.get "default" with
  | some dflt => some dflt
  | none => match schema.get "type" with
    | some (.string t) => if t = "array" then some (.array []) else if t = "object" then some (.object []) else none
    | some (.array types) =>
        if types.any fun v => v.asStr = some "array" then some (.array [])
        else if types.any fun v => v.asStr = some "object" then some (.object [])
        else none
    | _ => none

def repairOutput (bindings projected : Fields) (entry : String × Value) : Fields :=
  match byName bindings entry.1 with
  | none => projected
  | some path => match projected.get path, deterministicEmptyFor entry.2 with
    | none, some empty | some .null, some empty => projected.insert path empty
    | _, _ => projected

def repairOutputsAgainstSnippet (snippetOutputs outputPaths : Value) (projected : Fields) : Fields :=
  match snippetOutputs.asObject, outputPaths.asObject with
  | some schemas, some bindings => schemas.foldl (repairOutput bindings) projected
  | _, _ => projected

variable (lib : Libraries)

def schemaViolation (name : String) (schema value : Value) : Option SchemaViolation :=
  match lib.compileSchema schema with
  | .error e => some ⟨name, "invalid snippet.outputs schema: " ++ e⟩
  | .ok validator => match validator value with
    | [] => none
    | errors => some ⟨name, "; ".intercalate errors⟩

def validateOutputsAgainstSnippet (snippetOutputs outputPaths : Value) (projected : Fields) : List SchemaViolation :=
  match snippetOutputs.asObject, outputPaths.asObject with
  | some schemas, some bindings => schemas.filterMap fun entry => (byName bindings entry.1).bind fun path =>
      schemaViolation lib entry.1 entry.2 ((projected.get path).getD .null)
  | _, _ => []

def declaredOutputs (definition : Value) : Option Value :=
  (definition.walk ["snippet", "outputs"]).or (definition.get "outputs")

def identityBinding (names : Fields) : Value :=
  .object (names.map fun entry => (entry.1, .string entry.1))

def enforceDeclaredOutputs (definition context : Value) : List SchemaViolation :=
  match declaredOutputs definition with
  | none => []
  | some schemas => match schemas.asObject with
    | none | some [] => []
    | some names =>
        let projected := projectUseOutputs (identityBinding names) context
        validateOutputsAgainstSnippet lib schemas (identityBinding names)
          (repairOutputsAgainstSnippet schemas (identityBinding names) projected)

end

section

variable {bindings names : Fields} {name path : String}

theorem byName_foldl
    (h : bindings.foldl (fun found entry => if entry.2.asStr = some name then some entry.1 else found) found = some path) :
    found = some path ∨ ∃ v, (path, v) ∈ bindings ∧ v.asStr = some name := by
  induction bindings generalizing found with
  | nil => exact .inl h
  | cons entry rest ih =>
    rw [foldl_cons] at h
    by_cases hname : entry.2.asStr = some name
    · rw [if_pos hname] at h
      rcases ih h with hfound | ⟨v, hmem, hv⟩
      · cases hfound
        exact .inr ⟨entry.2, .head _, hname⟩
      · exact .inr ⟨v, .tail _ hmem, hv⟩
    · rw [if_neg hname] at h
      exact (ih h).imp id fun ⟨v, hmem, hv⟩ => ⟨v, .tail _ hmem, hv⟩

theorem byName_foldl_isSome (h : found.isSome ∨ ∃ entry ∈ bindings, entry.2.asStr = some name) :
    (bindings.foldl (fun found entry => if entry.2.asStr = some name then some entry.1 else found) found).isSome := by
  induction bindings generalizing found with
  | nil => exact h.resolve_right nofun
  | cons entry rest ih =>
    rw [foldl_cons]
    refine ih ?_
    by_cases hname : entry.2.asStr = some name
    · exact .inl (by rw [if_pos hname]; rfl)
    · rw [if_neg hname]
      refine h.imp id fun ⟨other, hmem, hother⟩ => ⟨other, ?_, hother⟩
      rcases mem_cons.mp hmem with rfl | hmem
      · exact absurd hother hname
      · exact hmem

theorem mem_of_byName (h : byName bindings name = some path) : ∃ v, (path, v) ∈ bindings ∧ v.asStr = some name :=
  (byName_foldl h).resolve_left nofun

theorem distinct_identityBinding (hd : names.Distinct) :
    Fields.Distinct (names.map fun entry => (entry.1, Value.string entry.1)) := by
  unfold Fields.Distinct
  rw [map_map]
  exact hd

theorem byName_identity (h : (name, schema) ∈ names) :
    byName (names.map fun entry => (entry.1, .string entry.1)) name = some name := by
  have hsome : (byName (names.map fun entry => (entry.1, .string entry.1)) name).isSome :=
    byName_foldl_isSome (.inr ⟨(name, .string name), mem_map.mpr ⟨_, h, rfl⟩, rfl⟩)
  obtain ⟨path, hpath⟩ := Option.isSome_iff_exists.mp hsome
  obtain ⟨v, hmem, hv⟩ := mem_of_byName hpath
  obtain ⟨entry, -, heq⟩ := mem_map.mp hmem
  cases heq
  cases hv
  exact hpath

theorem name_unique (hd : bindings.Distinct) (h : byName bindings name = some path)
    (h' : byName bindings name' = some path) : name = name' := by
  obtain ⟨v, hmem, hv⟩ := mem_of_byName h
  obtain ⟨v', hmem', hv'⟩ := mem_of_byName h'
  rw [hd.value_unique hmem hmem', hv'] at hv
  exact (Option.some.inj hv).symm

theorem get_foldl_project_of_not_mem (h : path ∉ bindings.map Prod.fst) :
    (bindings.foldl (projectOutput c) out).get path = out.get path := by
  induction bindings generalizing out with
  | nil => rfl
  | cons entry rest ih =>
    simp only [map_cons, mem_cons, not_or] at h
    rw [foldl_cons, ih h.2]
    unfold projectOutput
    split
    · rfl
    · exact get_insert_of_ne _ _ h.1

theorem get_foldl_project (hd : bindings.Distinct) (hmem : (path, v) ∈ bindings) (hv : v.asStr = some name)
    (c : Value) (out : Fields) : (bindings.foldl (projectOutput c) out).get path = some ((c.get name).getD .null) := by
  induction bindings generalizing out with
  | nil => cases hmem
  | cons entry rest ih =>
    obtain ⟨hhead, hrest⟩ := nodup_cons.mp hd
    rcases mem_cons.mp hmem with rfl | hmem
    · rw [foldl_cons, get_foldl_project_of_not_mem hhead, projectOutput, hv]
      exact get_insert_self _ _ _
    · exact ih hrest hmem _

theorem get_project (hd : bindings.Distinct) (h : byName bindings name = some path) (c : Value) :
    (projectUseOutputs (.object bindings) c).get path = some ((c.get name).getD .null) := by
  obtain ⟨v, hmem, hv⟩ := mem_of_byName h
  exact get_foldl_project hd hmem hv c []

theorem get_repairOutput_of_ne (hd : bindings.Distinct) (h : byName bindings name = some path)
    (hname : entry.1 ≠ name) : (repairOutput bindings projected entry).get path = projected.get path := by
  unfold repairOutput
  split
  · rfl
  · rename_i other hother
    have hne : path ≠ other := by
      rintro rfl
      exact hname (name_unique hd hother h)
    split
    · exact get_insert_of_ne _ _ hne
    · exact get_insert_of_ne _ _ hne
    · rfl

variable {projected : Fields}

theorem get_repairOutput_congr (hd : bindings.Distinct) (hd' : bindings'.Distinct) (h : byName bindings name = some path)
    (h' : byName bindings' name = some path')
    (heq : projected.get path = projected'.get path') :
    (repairOutput bindings projected entry).get path = (repairOutput bindings' projected' entry).get path' := by
  by_cases hname : entry.1 = name
  · unfold repairOutput
    rw [hname, h, h']
    dsimp only
    rw [heq]
    split
    · rw [get_insert_self, get_insert_self]
    · rw [get_insert_self, get_insert_self]
    · exact heq
  · rw [get_repairOutput_of_ne hd h hname, get_repairOutput_of_ne hd' h' hname, heq]

theorem get_repair_congr (hd : bindings.Distinct) (hd' : bindings'.Distinct) (h : byName bindings name = some path)
    (h' : byName bindings' name = some path') (schemas : Fields) (heq : projected.get path = projected'.get path') :
    (schemas.foldl (repairOutput bindings) projected).get path =
      (schemas.foldl (repairOutput bindings') projected').get path' := by
  induction schemas generalizing projected projected' with
  | nil => exact heq
  | cons entry rest ih => exact ih (get_repairOutput_congr hd hd' h h' heq)

theorem isSome_get_repairOutput (h : (projected.get path).isSome) :
    ((repairOutput bindings projected entry).get path).isSome := by
  have hinsert (other : String) (v : Value) : ((projected.insert other v).get path).isSome := by
    rw [get_insert]
    split
    · rfl
    · exact h
  unfold repairOutput
  split
  · exact h
  · split
    · exact hinsert _ _
    · exact hinsert _ _
    · exact h

theorem isSome_get_repair (h : (projected.get path).isSome) (schemas : Fields) :
    ((schemas.foldl (repairOutput bindings) projected).get path).isSome := by
  induction schemas generalizing projected with
  | nil => exact h
  | cons entry rest ih => exact ih (isSome_get_repairOutput h)

end

end Praxec
