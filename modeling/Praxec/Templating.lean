import Praxec.Mapping

namespace Praxec

open Json Text

/-- What became of one placeholder: its text, or the stub that stands in for it with the path that found nothing. -/
inductive Resolution where
  | resolved (text : String)
  | unresolved (stub path : String)
deriving DecidableEq

def lastSegment (path : List Char) : List Char :=
  (path.reverse.takeWhile fun c => c ≠ '.').reverse

def unsetStub (label : List Char) : String :=
  String.ofList ('(' :: label ++ ": unset)".toList)

variable (lib : Libraries) (inst : WorkflowInstance)

def displayValue : Value → String
  | .string s => s
  | .null => "(null)"
  | v => lib.toText v

def resolveTail (root : Value) (path tail : List Char) : Resolution :=
  match root.pointer (pathToPointer (String.ofList tail)) with
  | some v => .resolved (displayValue lib v)
  | none => .unresolved (unsetStub (lastSegment tail)) (String.ofList path)

def resolveTemplatePathChecked (path : List Char) : Resolution :=
  let missing (label : List Char) : Resolution := .unresolved (unsetStub label) (String.ofList path)
  let under (root : String) : Option (List Char) := stripStart root.toList path
  if path = "$.workflow.id".toList then .resolved inst.id
  else if path = "$.workflow.state".toList then .resolved inst.state
  else if path = "$.workflow.version".toList then .resolved inst.definitionVersion
  else if path = "$.run.repo_root".toList then .resolved inst.runEnv.repoRoot
  else if path = "$.run.artifacts_dir".toList then match inst.runEnv.artifactsDir with
    | some dir => .resolved dir
    | none => missing "artifacts_dir".toList
  else match under "$.run.leased." with
    -- the stub of a pool carries the whole of what follows, dots included
    | some pool => match inst.runEnv.leased.lookup (String.ofList pool) with
      | some member => .resolved member
      | none => missing pool
    | none => match under "$.context." with
      | some tail => resolveTail lib inst.context path tail
      | none => match under "$.workflow.input." with
        | some tail => resolveTail lib inst.input path tail
        | none => match under "$.praxec.authoring." with
          | some tail => match inst.definition.pointer "/_authoringPrefs" with
            | some prefs => resolveTail lib prefs path tail
            | none => missing (lastSegment path)
          | none => missing (lastSegment path)

def renderTemplateFrom : Nat → List Char → List Char → List String → List Char × List String
  | 0, remaining, output, unresolved => (output ++ remaining, unresolved)
  | fuel + 1, remaining, output, unresolved =>
      match splitOnce "\x7b\x7b".toList remaining with
      | none => (output ++ remaining, unresolved)
      | some (before, afterOpen) => match splitOnce "\x7d\x7d".toList afterOpen with
        | none => (output ++ remaining, unresolved)
        | some (token, rest) =>
            let inner := trimText token
            if inner.isEmpty then
              renderTemplateFrom fuel rest (output ++ before ++ "\x7b\x7b\x7d\x7d".toList) unresolved
            else match resolveTemplatePathChecked lib inst inner with
              | .resolved text => renderTemplateFrom fuel rest (output ++ before ++ text.toList) unresolved
              | .unresolved stub path =>
                  renderTemplateFrom fuel rest (output ++ before ++ stub.toList)
                    (if path ∈ unresolved then unresolved else unresolved ++ [path])

def renderTemplateTracked (template : String) : String × List String :=
  let (output, unresolved) := renderTemplateFrom lib inst template.length template.toList [] []
  (String.ofList output, unresolved)

def renderTemplate (template : String) : String :=
  (renderTemplateTracked lib inst template).1

end Praxec
