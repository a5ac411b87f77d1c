import Praxec.Model

namespace Praxec

open Json List Text

/-- Pure functions the runtime takes from elsewhere: the JSON-schema validator, double arithmetic on
bit patterns, the texts of a JSON document, and globs, which parse one by one and match as a set. -/
structure Libraries where
  compileSchema : Value → Except String (Value → List String)
  asF64 : Number → Nat
  addF64 : Nat → Nat → Nat
  subF64 : Nat → Nat → Nat
  mulF64 : Nat → Nat → Nat
  divF64 : Nat → Nat → Nat
  isZeroF64 : Nat → Bool
  jsonNumber : Nat → Value
  toText : Value → String
  debugText : Value → String
  formatF32 : F32 → String
  glob : String → Except String Unit
  globSet : List String → Except String (String → Bool)

structure Scopes where
  arguments : Value
  context : Value
  workflowInput : Value
  executorOutput : Option Value
  runEnv : Option RunEnv

def dotPointer (path : List Char) : String :=
  String.ofList ('/' :: replaceChar '.' '/' path)

def pathBytes (path : String) : List Char :=
  path.toByteArray.data.toList.map fun b => Char.ofNat b.toNat

def pathToPointerFrom (inBracket : Bool) : List Char → List Char
  | [] => []
  | c :: rest =>
      if inBracket then
        if c = ']' then pathToPointerFrom false rest else c :: pathToPointerFrom true rest
      else if c = '.' then '/' :: pathToPointerFrom false rest
      else if c = '[' then '/' :: pathToPointerFrom true rest
      else c :: pathToPointerFrom false rest

def pathToPointer (path : String) : String :=
  String.ofList ('/' :: pathToPointerFrom false (pathBytes path))

/-- Dot path with `[*]` projection; `fuel` bounds the number of projections. -/
def resolvePathWithProjection : Nat → Value → List Char → Option Value
  | 0, _, _ => none
  | fuel + 1, root, path =>
      match splitOnce "[*]".toList path with
      | none => root.pointer (dotPointer path)
      | some (before, after) =>
          let clean := trimEnd '.' before
          let array := if clean.isEmpty then some root else root.pointer (dotPointer clean)
          let suffix := trimStart '.' after
          (array.bind Value.asArray).map fun xs => .array (xs.map fun element =>
            if suffix.isEmpty then element
            else (resolvePathWithProjection fuel element suffix).getD .null)

def resolvePath (root : Value) (path : List Char) : Option Value :=
  resolvePathWithProjection (path.length + 1) root path

def RunEnv.artifactsDir (env : RunEnv) : Option String :=
  env.runRef.map fun r => env.repoRoot ++ "/.praxec/artifacts/" ++ r

def readInScopes (sc : Scopes) (expr : String) : Option Value :=
  let under (root : String) : Option (List Char) := stripStart root.toList expr.toList
  if expr = "$.arguments" then some sc.arguments
  else if expr = "$.context" then some sc.context
  else if expr = "$.workflow.input" then some sc.workflowInput
  else if expr = "$.run.repo_root" then sc.runEnv.map fun e => .string e.repoRoot
  else if expr = "$.run.artifacts_dir" then (sc.runEnv.bind RunEnv.artifactsDir).map .string
  else match under "$.run.leased." with
    | some pool => (sc.runEnv.bind fun e => e.leased.lookup (String.ofList pool)).map .string
    | none => match under "$.arguments." with
      | some path => resolvePath sc.arguments path
      | none => match under "$.context." with
        | some path => resolvePath sc.context path
        | none => match under "$.workflow.input." with
          | some path => resolvePath sc.workflowInput path
          | none => sc.executorOutput.bind fun out =>
              if expr = "$.output" || expr = "$" then some out
              else (under "$.output.").bind (resolvePath out)

variable (lib : Libraries) (sc : Scopes)

/-- Operands of an arithmetic operator: a missing or null read counts as zero, anything else that is
not a number spoils the operation. -/
def resolveOperands (spec : Value) : Option (List Nat) :=
  spec.asArray.bind fun xs => xs.mapM fun v =>
    let resolved := match v with
      | .string s => (readInScopes sc s).getD .null
      | other => other
    match resolved with
    | .null => some (lib.asF64 (.posInt 0))
    | .number n => some (lib.asF64 n)
    | _ => none

def arithmetic (op : String) (args : Value) : Value :=
  match resolveOperands lib sc args with
  | some [a, b] =>
      if op = "add" then lib.jsonNumber (lib.addF64 a b)
      else if op = "subtract" then lib.jsonNumber (lib.subF64 a b)
      else if op = "multiply" then lib.jsonNumber (lib.mulF64 a b)
      else if lib.isZeroF64 b then .null
      else lib.jsonNumber (lib.divF64 a b)
  | _ => .null

def concatPart : Value → String
  | .string s => s
  | .bool true => "true"
  | .bool false => "false"
  | .null => "null"
  | other => lib.toText other

/-- The first element of `from` whose `by` path holds `eq`. -/
def pick (resolved decl : Fields) : Value :=
  match resolved.get "from", (decl.get "by").bind Value.asStr, resolved.get "eq" with
  | some source, some path, some eq =>
      match source.asArray with
      | some items => (items.find? fun element =>
          ((element.pointer (pathToPointer path)).map fun v => v.same eq).getD false).getD .null
      | none => .null
  | _, _, _ => .null

example : pathToPointer "items[0].name" = "/items/0/name" := by decide +kernel

mutual
def resolveValue : Value → Value
  | .string s =>
      if startsWith s "$." || s = "$" then (readInScopes sc s).getD .null else .string s
  | .object [(op, args)] =>
      if op = "set" then args
      else if op = "add" || op = "subtract" || op = "multiply" || op = "divide" then arithmetic lib sc op args
      else if op = "concat" then match args with
        | .array parts => .string (String.join ((resolveList parts).map (concatPart lib)))
        | _ => .null
      else if op = "pick" then match args with
        | .object decl => pick (resolveFields decl) decl
        | _ => .null
      else .object [(op, args)]
  | other => other

def resolveList : List Value → List Value
  | [] => []
  | v :: rest => resolveValue v :: resolveList rest

def resolveFields : Fields → Fields
  | [] => []
  | (k, v) :: rest => (k, resolveValue v) :: resolveFields rest
end

/-- Apply an output mapping to the context: every value is resolved against the context as it was,
then all of them are written. -/
def mergeOutput (mapping : Option Value) : Except String Value :=
  match mapping.bind Value.asObject with
  | none => .ok sc.context
  | some specs =>
      match sc.context with
      | .object fields => .ok (.object (specs.foldl
          (fun acc spec => Fields.insert acc spec.1 (resolveValue lib sc spec.2)) fields))
      | _ => .error "workflow context must be an object"

def writtenSlots (mapping : Option Value) : List String :=
  match mapping.bind Value.asObject with
  | none => []
  | some specs => specs.map Prod.fst

theorem get_foldl_insert_of_not_mem (specs : Fields) (f : Value → Value) (fields : Fields)
    (h : key ∉ specs.map Prod.fst) :
    Fields.get (specs.foldl (fun acc spec => Fields.insert acc spec.1 (f spec.2)) fields) key = fields.get key := by
  induction specs generalizing fields with
  | nil => rfl
  | cons spec rest ih =>
    simp only [map_cons, mem_cons, not_or] at h
    rw [foldl_cons, ih _ h.2, Fields.get_insert_of_ne _ _ h.1]

theorem get_foldl_insert_of_mem {specs : Fields} (hd : specs.Distinct) (f : Value → Value) (fields : Fields)
    {spec : Value} (h : (key, spec) ∈ specs) :
    Fields.get (specs.foldl (fun acc spec => Fields.insert acc spec.1 (f spec.2)) fields) key = some (f spec) := by
  induction specs generalizing fields with
  | nil => cases h
  | cons entry rest ih =>
    obtain ⟨hfresh, hrest⟩ := nodup_cons.mp hd
    rw [foldl_cons]
    rcases mem_cons.mp h with rfl | h
    · rw [get_foldl_insert_of_not_mem rest f _ hfresh, Fields.get_insert_self]
    · exact ih hrest _ h

theorem mergeOutput_get_of_not_written
    (h : mergeOutput lib sc mapping = .ok context') (hkey : key ∉ writtenSlots mapping) :
    context'.get key = sc.context.get key := by
  unfold mergeOutput at h
  unfold writtenSlots at hkey
  split at h
  · cases h; rfl
  · rename_i specs hspecs
    rw [hspecs] at hkey
    split at h
    · rename_i fields hctx
      cases h
      rw [hctx]
      exact get_foldl_insert_of_not_mem specs _ fields hkey
    · cases h

theorem mergeOutput_get_of_written {mapping : Option Value} {context' : Value} {specs : Fields}
    (h : mergeOutput lib sc mapping = .ok context') (hspecs : mapping.bind Value.asObject = some specs)
    (hd : specs.Distinct) {spec : Value} (hentry : (key, spec) ∈ specs) :
    context'.get key = some (resolveValue lib sc spec) := by
  unfold mergeOutput at h
  rw [hspecs] at h
  dsimp only at h
  split at h
  · cases h
    exact get_foldl_insert_of_mem hd (resolveValue lib sc) _ hentry
  · cases h

end Praxec
