import Praxec.Config.Repo

namespace Praxec.Config

open Json

inductive RepoSource where
  | localDir (path : String)
  | remote (uri gitref : String)
  | invocationCwd
  | worktreesOf (anchor name : String)
deriving DecidableEq

structure RepoDecl where
  source : RepoSource
  name : Option String := none
  writable : Bool := false
  push : Bool := false
  definitions : Bool := true
  priority : Int := 0
  grantConnections : List String := []
deriving DecidableEq

def asI64 : Value → Option Int
  | .number (.posInt n) => if n < 2 ^ 63 then some n else none
  | .number (.negInt n) => if n < 2 ^ 63 then some (.negSucc n) else none
  | _ => none

section

variable (index : Nat) (entry : Value)

def boolField (field : String) (default : Bool) : Except String Bool :=
  match entry.get field with
  | none | some .null => .ok default
  | some (.bool b) => .ok b
  | some other => .error s!"INVALID_REPO_ENTRY: `repos[{index}].{field}` must be a boolean ({shortKind other})"

def priorityField : Except String Int :=
  match entry.get "priority" with
  | none | some .null => .ok 0
  | some v =>
      match asI64 v with
      | some n => .ok n
      | none => .error s!"INVALID_REPO_ENTRY: `repos[{index}].priority` must be an integer ({shortKind v})"

def grantName : Value → Except String String
  | .string s =>
      if s ≠ "" then .ok s
      else .error s!"INVALID_REPO_ENTRY: `repos[{index}].grant_connections` entries MUST be non-empty connection names"
  | other =>
      .error s!"INVALID_REPO_ENTRY: `repos[{index}].grant_connections` entries MUST be strings ({shortKind other})"

def grantsField : Except String (List String) :=
  match entry.get "grant_connections" with
  | none | some .null => .ok []
  | some (.array names) => names.mapM (grantName index)
  | some other =>
      .error s!"INVALID_REPO_ENTRY: `repos[{index}].grant_connections` must be an array of connection names ({shortKind other})"

def nameField : Except String (Option String) :=
  match entry.get "name" with
  | none | some .null => .ok none
  | some (.string s) =>
      if s ≠ "" then .ok (some s)
      else .error s!"INVALID_REPO_ENTRY: `repos[{index}].name` must be a non-empty string"
  | some other => .error s!"INVALID_REPO_ENTRY: `repos[{index}].name` must be a string ({shortKind other})"

def expandRepoPath (home : Option String) (path : String) : String :=
  match Text.stripStart "~/".toList path.toList, home with
  | some rest, some dir => joinPath dir (String.ofList rest)
  | _, _ => path

def worktreesSource (home : Option String) (anchor : String) (name : Option String) (writable : Bool) :
    Except String RepoSource :=
  match name with
  | none => .error s!"INVALID_REPO_ENTRY: `repos[{index}]` uses `worktrees_of:` but declares no `name:` — a worktrees_of repo is resolved by IDENTITY (the `name` in each enumerated worktree's `praxec.repo.yaml`), so `name:` is REQUIRED."
  | some repoName =>
      if !writable then
        .error s!"INVALID_REPO_ENTRY: `repos[{index}]` uses `worktrees_of:` without `writable: true` — a discovered worktree is a writable run target and contributes nothing otherwise. Add `writable: true`."
      else .ok (.worktreesOf (expandRepoPath home anchor) repoName)

/-- A repo is declared by exactly one of `path`, `uri`, `worktrees_of` and `cwd`. -/
def repoSource (home : Option String) (name : Option String) (writable cwd : Bool) : Except String RepoSource :=
  let path := (entry.get "path").bind Value.asStr
  let uri := (entry.get "uri").bind Value.asStr
  let worktreesOf := (entry.get "worktrees_of").bind Value.asStr
  match path, uri, worktreesOf, cwd with
  | some p, none, none, false => .ok (.localDir (expandRepoPath home p))
  | none, some u, none, false => .ok (.remote u (((entry.get "ref").bind Value.asStr).getD "main"))
  | none, none, some anchor, false => worktreesSource index home anchor name writable
  | _, _, some _, false => .error s!"INVALID_REPO_ENTRY: `repos[{index}]` declares `worktrees_of:` together with `path:`/`uri:` — a repo is resolved by worktree identity OR a literal path/uri, not both."
  | some _, some _, none, false => .error s!"INVALID_REPO_ENTRY: `repos[{index}]` declares both `path` and `uri` — a repo is either local or remote, not both."
  | none, none, none, true =>
      if !writable then
        .error s!"INVALID_REPO_ENTRY: `repos[{index}].cwd: true` requires `writable: true` because an invocation root is a run target."
      else .ok .invocationCwd
  | _, _, _, true => .error s!"INVALID_REPO_ENTRY: `repos[{index}].cwd: true` cannot be combined with `path`, `uri`, or `worktrees_of:`."
  | none, none, none, false => .error s!"INVALID_REPO_ENTRY: `repos[{index}]` needs a `path` (local dir), a `uri` (remote git repo to import), `worktrees_of:` (identity-first worktree discovery), or `cwd: true` (the invocation Git worktree)."

def parseRepoEntry (home : Option String) : Except String RepoDecl := do
  let writable ← boolField index entry "writable" false
  let push ← boolField index entry "push" false
  if push && !writable then
    throw s!"INVALID_REPO_ENTRY: `repos[{index}]` sets `push: true` without `writable: true` — only a writable repo has authored commits to push."
  let definitions ← boolField index entry "definitions" true
  if !definitions && !writable then
    throw s!"INVALID_REPO_ENTRY: `repos[{index}]` sets `definitions: false` without `writable: true` — a non-definition repo that is not a write target contributes nothing. Add `writable: true` (a bare writable run target) or remove the entry."
  let priority ← priorityField index entry
  let grantConnections ← grantsField index entry
  let name ← nameField index entry
  let cwd ← boolField index entry "cwd" false
  let source ← repoSource index entry home name writable cwd
  return { source, name, writable, push, definitions, priority, grantConnections }

end

def overrideId : Value → Except String String
  | .string s =>
      if s ≠ "" then .ok s
      else .error "INVALID_OVERRIDE_ENTRY: `overrides:` entries MUST be non-empty strings"
  | other => .error s!"INVALID_OVERRIDE_ENTRY: `overrides:` entries MUST be strings ({shortKind other})"

def parseRepos (home : Option String) : Option Value → Except String (List RepoDecl)
  | none => .ok []
  | some (.array entries) => entries.zipIdx.mapM fun item => parseRepoEntry item.2 item.1 home
  | some other => .error s!"INVALID_REPOS_SHAPE: top-level `repos:` must be an array of `\x7b path: <dir> \x7d` objects ({shortKind other})"

def parseOverrides : Option Value → Except String (List String)
  | none => .ok []
  | some (.array entries) => entries.mapM overrideId
  | some other => .error s!"INVALID_OVERRIDES_SHAPE: top-level `overrides:` must be an array of fully-qualified id strings ({shortKind other})"

structure Declared where
  repos : List RepoDecl
  overrides : List String
  body : Value
deriving DecidableEq

def takeReposAndOverrides (home : Option String) (host : Value) : Except String Declared := do
  -- a host that is no mapping declares nothing and has nothing removed
  let repos ← parseRepos home (host.get "repos")
  let overrides ← parseOverrides (host.get "overrides")
  return { repos, overrides, body := (host.remove "repos").remove "overrides" }

end Praxec.Config
