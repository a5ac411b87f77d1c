import Praxec.Config.Declared

namespace Praxec.Config

open Json Text

inductive RepoLoadMode where
  | strict
  | resilient
deriving DecidableEq

inductive WorktreeResolution where
  | resolved (root : String)
  | unresolved (reason : String)
  | ambiguous (candidates : List String)
deriving DecidableEq

/-- What the loader asks the machine it runs on: the file system, git, and the shape check of a
connection body. -/
structure Machine where
  files : RepoFiles
  home : Option String
  invocationRoot : Except String String
  commonDir : String → Except String String
  rootReadable : String → Except String Unit
  worktreesOf : String → String → WorktreeResolution
  cloneOrUpdate : String → String → String → Except String String
  manifestScaffold : String → List String
  createDirAll : String → Except String Unit
  packProvenance : String → String → String → Option String → Value
  validateConnection : Value → Except String Unit

structure Notice where
  code : String
  message : String
deriving DecidableEq

structure UngrantedConnection where
  key : String
  bare : String
  repo : String
  ns : String
deriving DecidableEq

structure MergeState where
  aggregate : Value := .object []
  repoProvidedIds : List String := []
  loadedDefinitionRepos : Nat := 0
  seenNamespaces : List (String × String) := []
  writableRepoRoots : List (String × Bool × Option String) := []
  repoPriorities : List (String × Int) := []
  ungrantedConnections : List UngrantedConnection := []
  packProvenance : List Value := []
  packAffinities : List (String × List (String × AffinityRequirement)) := []
  skipped : List (String × String) := []
  notices : List Notice := []

def RepoSource.describe : RepoSource → String
  | .localDir path => path
  | .remote uri _ => uri
  | .invocationCwd => "cwd:true"
  | .worktreesOf anchor name => s!"worktrees_of:{anchor} name:{name}"

def RepoSource.declaredRef : RepoSource → Option String
  | .remote _ gitref => some gitref
  | _ => none

def slug (s : String) : String :=
  let step (acc : List Char × Bool) (c : Char) : List Char × Bool :=
    if c.isAlphanum then (acc.1 ++ [c], false) else if acc.2 then acc else (acc.1 ++ ['-'], true)
  String.ofList (trimEnd '-' (trimStart '-' (s.toList.foldl step ([], false)).1))

def cacheDirName (uri gitref : String) : String :=
  slug uri ++ "--" ++ slug gitref

def createScaffoldDirs (m : Machine) (root : String) (scaffold : List String) : Except String Unit :=
  scaffold.forM fun entry =>
    if isAbsolute entry then
      .error s!"INVALID_SCAFFOLD_DIR: scaffold entry `{entry}` for repo at {root} is an ABSOLUTE path; scaffold directories MUST be repo-relative so they stay within the repo."
    else if (splitSlash entry.toList).contains "..".toList then
      .error s!"INVALID_SCAFFOLD_DIR: scaffold entry `{entry}` for repo at {root} escapes the repo root via `..`; scaffold directories MUST stay within the repo."
    else m.createDirAll (joinPath root entry)

inductive RepoOutcome where
  | missing (path reason : String)
  | worktree (name : String) (resolution : WorktreeResolution)
  | failed (error : String)
  | bare (root : String)
  | loaded (root : String) (manifest : RepoManifest) (registry : Value)

def openRepo (m : Machine) (decl : RepoDecl) (root : String) : RepoOutcome :=
  if !decl.definitions then .bare root
  else match loadRepo m.files root with
    | .error e => .failed s!"loading repo at {root}: {e}"
    | .ok (manifest, registry) => .loaded root manifest registry

def openLocal (m : Machine) (decl : RepoDecl) (path : String) : RepoOutcome :=
  match m.rootReadable path with
  | .error reason => .missing path reason
  | .ok () => openRepo m decl path

def resolveRepo (m : Machine) (hostDir : String) (decl : RepoDecl) : Except String RepoOutcome :=
  match decl.source with
  | .invocationCwd => m.invocationRoot.map (openLocal m decl)
  | .localDir path => .ok (openLocal m decl (joinPath hostDir path))
  | .worktreesOf anchor name => .ok (.worktree name (m.worktreesOf (joinPath hostDir anchor) name))
  | .remote uri gitref =>
      let dest := joinPath (joinPath (joinPath hostDir ".praxec") "repos") (cacheDirName uri gitref)
      match m.cloneOrUpdate uri gitref dest with
      | .error e => .ok (.failed s!"importing repo {uri}: {e}")
      | .ok root => .ok (openRepo m decl root)

def bareName (ns key : String) : String :=
  ((stripStart (ns ++ "/").toList key.toList).map String.ofList).getD key

def grantsConnection (ns : String) (grants : List String) (key : String) : Bool :=
  grants.any fun grant => grant = key || grant = bareName ns key

def gateRepoConnections (registry : Value) (manifest : RepoManifest) (grants : List String) :
    Except String (Value × List UngrantedConnection) := do
  let connections := ((registry.get "connections").bind Value.asObject).getD []
  let connKeys := connections.map Prod.fst
  grants.forM fun grant =>
    if connKeys.any fun key => key = grant || stripStart (manifest.ns ++ "/").toList key.toList = some grant.toList then
      .ok ()
    else
      let declared := debugList connKeys
      .error s!"STALE_CONNECTION_GRANT: the `repos:` entry for '{manifest.name}' lists '{grant}' in `grant_connections`, but that repo declares no such connection (declared: {declared}). Remove the grant or correct the name (SPEC §9.5)."
  if connKeys = [] then return (registry, [])
  let live := Fields.retain connections (grantsConnection manifest.ns grants)
  let ungranted := (connKeys.filter fun key => !grantsConnection manifest.ns grants key).map fun key =>
    { key, bare := bareName manifest.ns key, repo := manifest.name, ns := manifest.ns : UngrantedConnection }
  return (if live = [] then registry.remove "connections" else registry.insert "connections" (.object live), ungranted)

def checkNamespace (manifest : RepoManifest) (st : MergeState) : Except String Unit :=
  match st.seenNamespaces.lookup manifest.ns with
  | some previous => .error s!"DUPLICATE_REPO_NAMESPACE: namespace '{manifest.ns}' is declared by repos '{previous}' and '{manifest.name}'. Each repo MUST declare a unique namespace (SPEC §9.4)."
  | none => .ok ()

def admitRepo (m : Machine) (decl : RepoDecl) (root : String) (manifest : RepoManifest) (registry : Value)
    (st : MergeState) : Except String MergeState := do
  createScaffoldDirs m root (if decl.writable then manifest.scaffold else [])
  checkNamespace manifest st
  let gated ← gateRepoConnections registry manifest decl.grantConnections
  return { st with
    aggregate := st.aggregate.deepMerge gated.1
    repoProvidedIds := st.repoProvidedIds ++ aggregateIds registry
    loadedDefinitionRepos := st.loadedDefinitionRepos + 1
    seenNamespaces := st.seenNamespaces ++ [(manifest.ns, manifest.name)]
    writableRepoRoots := st.writableRepoRoots ++ if decl.writable then [(root, decl.push, decl.name)] else []
    repoPriorities := st.repoPriorities ++ [(manifest.ns, decl.priority)]
    ungrantedConnections := st.ungrantedConnections ++ gated.2
    packProvenance := st.packProvenance ++
      [m.packProvenance manifest.ns decl.source.describe root decl.source.declaredRef]
    packAffinities := st.packAffinities ++ if manifest.affinities = [] then [] else [(manifest.ns, manifest.affinities)] }

def MergeState.warn (st : MergeState) (code message : String) : MergeState :=
  { st with notices := st.notices ++ [⟨code, message⟩] }

def mergeRepo (m : Machine) (hostDir : String) (mode : RepoLoadMode) (st : MergeState) (decl : RepoDecl) :
    Except String MergeState := do
  let desc := decl.source.describe
  match ← resolveRepo m hostDir decl with
  | .missing path reason =>
      let message := s!"REPO_ROOT_MISSING: {path} — skipped ({reason})"
      let st := st.warn "REPO_ROOT_MISSING" message
      return if decl.definitions then { st with skipped := st.skipped ++ [(desc, message)] } else st
  | .worktree name (.resolved root) =>
      createScaffoldDirs m root (m.manifestScaffold root)
      return { st with writableRepoRoots := st.writableRepoRoots ++ [(root, decl.push, some name)] }
  | .worktree _ (.unresolved reason) =>
      return st.warn "REPO_IDENTITY_UNRESOLVED" s!"repos entry '{desc}' resolved to no live worktree: {reason}"
  | .worktree name (.ambiguous candidates) =>
      let listed := ", ".intercalate candidates
      match mode with
      | .strict => throw s!"REPO_IDENTITY_AMBIGUOUS: `worktrees_of:` entry '{desc}' matches {candidates.length} worktrees carrying name '{name}': {listed}. A durable identity must resolve to exactly one worktree — remove or rename the duplicate stub(s)."
      | .resilient => return st.warn "REPO_IDENTITY_AMBIGUOUS" s!"repos entry '{desc}' matches {candidates.length} worktrees carrying name '{name}': {listed}. Skipped — never auto-picked."
  | .failed e =>
      match mode with
      | .strict => throw e
      | .resilient =>
          let st := st.warn "REPO_LOAD_SKIPPED" s!"repos entry '{desc}' failed to load and was skipped: {e}"
          return { st with skipped := st.skipped ++ [(desc, e)] }
  | .bare root => return { st with writableRepoRoots := st.writableRepoRoots ++ [(root, decl.push, decl.name)] }
  | .loaded root manifest registry => admitRepo m decl root manifest registry st

def hostDefinitionIds (host : Value) : List String :=
  ["workflows", "skills", "scripts", "connections"].flatMap (blockKeys host)

mutual
/-- The `definitionId` references of workflow executors, at any depth, that name no known workflow. -/
def unresolvedWorkflowRefs (known : List String) : Value → List String
  | .object fields =>
      let target := (Fields.get fields "definitionId").bind Value.asStr
      (if (Fields.get fields "kind").bind Value.asStr = some "workflow" then
        target.toList.filter fun id => !known.contains id
      else []) ++ unresolvedFieldRefs known fields
  | .array xs => unresolvedItemRefs known xs
  | _ => []

def unresolvedFieldRefs (known : List String) : Fields → List String
  | [] => []
  | (_, v) :: rest => unresolvedWorkflowRefs known v ++ unresolvedFieldRefs known rest

def unresolvedItemRefs (known : List String) : List Value → List String
  | [] => []
  | v :: rest => unresolvedWorkflowRefs known v ++ unresolvedItemRefs known rest
end

def validateWorkflowRefsResolve (config : Value) : Except String Unit :=
  let workflows := ((config.get "workflows").bind Value.asObject).getD []
  let known := workflows.map Prod.fst
  let unresolved := workflows.flatMap fun wf => (unresolvedWorkflowRefs known wf.2).map fun target => (wf.1, target)
  match unresolved with
  | [] => .ok ()
  | (wfId, target) :: _ =>
      .error s!"UNRESOLVED_WORKFLOW_REF: workflow '{wfId}' references definitionId '{target}' via a `kind: workflow` executor, but no workflow with that id is loaded. Unprefixed names resolve in the workflow's OWN namespace; to call into another repo, fully qualify the id as `<namespace>/{target}` (SPEC §9.3)."

def stampPraxec (config : Value) (key : String) (value : Value) : Value :=
  config.mapObject fun obj =>
    match obj.get "praxec" with
    | none => obj.insert "praxec" (.object [(key, value)])
    | some (.object praxec) => obj.insert "praxec" (.object (Fields.insert praxec key value))
    | some _ => obj

def stampWritableRepos (config : Value) (roots : List (String × Bool × Option String)) : Value :=
  if roots = [] then config
  else stampPraxec config "_writableRepos" (.array (roots.map fun (root, push, name) =>
    .object ([("root", .string root), ("push", .bool push)] ++ (name.map fun n => ("name", Value.string n)).toList)))

def stampWorktreeNativeState (config : Value) (root commonDir : String) : Value :=
  stampPraxec config "_worktreeNative" (.object [("repoRoot", .string root),
    ("governanceStore", .string (joinPath (joinPath commonDir "praxec") "governance.db"))])

def ofInt : Int → Value
  | .ofNat n => .number (.posInt n)
  | .negSucc n => .number (.negInt n)

def stampRepoPriority (config : Value) (priorities : List (String × Int)) : Value :=
  if priorities = [] then config
  else stampPraxec config "_repoPriority"
    (.object (priorities.foldl (fun map entry => Fields.insert map entry.1 (ofInt entry.2)) []))

def stampPackProvenance (config : Value) (provenance : List Value) : Value :=
  if provenance = [] then config else stampPraxec config "_packProvenance" (.array provenance)

def AffinityRequirement.toValue (req : AffinityRequirement) : Value :=
  let field (key : String) (text : Option String) : Fields := (text.map fun t => (key, Value.string t)).toList
  .object (field "tier" req.tier ++ field "capability" req.capability ++ field "recommended" req.recommended)

def stampPackAffinities (config : Value) (affinities : List (String × List (String × AffinityRequirement))) : Value :=
  if affinities = [] then config
  else stampPraxec config "_packAffinities" (.object (affinities.foldl (fun map entry =>
    Fields.insert map entry.1 (.object (entry.2.foldl (fun reqs req => Fields.insert reqs req.1 req.2.toValue) []))) []))

def UngrantedConnection.remedy (u : UngrantedConnection) : String :=
  if u.ns = "" then
    s!"run `px connections grant {u.bare}` (or add `{u.bare}` to the top-level `grant_connections:`) to activate this operator-staged connection"
  else s!"add `grant_connections: [{u.bare}]` to the `repos:` entry for {u.repo} to activate this connection"

def UngrantedConnection.toValue (u : UngrantedConnection) : Value :=
  .object [("repo", .string u.repo), ("namespace", .string u.ns), ("remedy", .string u.remedy)]

def stampUngrantedConnections (config : Value) (entries : List UngrantedConnection) : Value :=
  if entries = [] then config
  else stampPraxec config "_ungrantedConnections"
    (.object (entries.foldl (fun map u => Fields.insert map u.key u.toValue) []))

def stagedGrants : Option Value → Except String (List String)
  | some (.array names) => .ok (names.filterMap Value.asStr)
  | none | some .null => .ok []
  | some _ => .error "INVALID_GRANT_CONNECTIONS: top-level `grant_connections:` must be an array of staged connection names (SPEC §9.5)."

def promoteStaged (m : Machine) (grants : List String) (acc : Fields × List UngrantedConnection) (staged : String × Value) :
    Except String (Fields × List UngrantedConnection) :=
  let (name, body) := staged
  if grants.contains name then
    match m.validateConnection body with
    | .error reason => .error s!"INVALID_STAGED_CONNECTION: '{name}': {reason}. The granted `stagedConnections:` body does not match the gateway `connection` shape, so it cannot be promoted live. Fix the staged body or remove '{name}' from `grant_connections:` (SPEC §9.5)."
    | .ok () =>
        match (acc.1.get "connections").getD (.object []) with
        | .object live =>
            if Fields.contains live name then
              .error s!"DUPLICATE_CONNECTION: granting staged connection '{name}' collides with an existing live `connections:` entry of the same name. Rename or remove one (SPEC §9.5)."
            else .ok (acc.1.insert "connections" (.object (Fields.insert live name body)), acc.2)
        | _ => .error "INVALID_CONNECTIONS: `connections:` must be a mapping"
  else .ok (acc.1, acc.2 ++ [{ key := name, bare := name, repo := "host config (px connections add)", ns := "" }])

def promoteAllStaged (m : Machine) (grants : List String) (staged obj : Fields) :
    Except String (Value × List UngrantedConnection) := do
  grants.forM fun grant =>
    if staged.contains grant then .ok ()
    else .error s!"STALE_CONNECTION_GRANT: top-level `grant_connections:` lists '{grant}', but no `stagedConnections:` entry declares it. Add it with `px connections add {grant} --kind <kind> ...` or remove the grant (SPEC §9.5)."
  let promoted ← staged.foldlM (promoteStaged m grants) (obj, [])
  return (.object promoted.1, promoted.2)

def applyStagedConnectionGrants (m : Machine) (config : Value) : Except String (Value × List UngrantedConnection) :=
  match config with
  | .object fields =>
      let obj := (Fields.remove fields "stagedConnections").remove "grant_connections"
      match Fields.get fields "stagedConnections" with
      | some (.object staged) => do
          let grants ← stagedGrants (Fields.get fields "grant_connections")
          promoteAllStaged m grants staged obj
      | none | some .null =>
          -- without staged connections a list of grants grants nothing
          if ((Fields.get fields "grant_connections").bind Value.asArray).any (· ≠ []) then
            .error "STALE_CONNECTION_GRANT: top-level `grant_connections:` lists names, but there is no `stagedConnections:` block. Add a connection with `px connections add <name> --kind <kind> ...` first (SPEC §9.5)."
          else .ok (.object obj, [])
      | some _ => .error "INVALID_STAGED_CONNECTIONS: top-level `stagedConnections:` must be a mapping of name → connection body (SPEC §9.5)."
  | _ => .ok (config, [])

def mergeHostOnly (m : Machine) (host : Value) : Except String Value := do
  let host := match (host.get "praxec").bind (·.get "_writableRepos"), m.invocationRoot with
    | none, .ok root =>
        let stamped := stampWritableRepos host [(root, true, none)]
        match m.commonDir root with
        | .ok commonDir => stampWorktreeNativeState stamped root commonDir
        | .error _ => stamped
    | _, _ => host
  validateWorkflowRefsResolve host
  let granted ← applyStagedConnectionGrants m host
  return stampUngrantedConnections granted.1 granted.2

def checkAnyLoaded (declared : Nat) (st : MergeState) : Except String Unit :=
  if st.loadedDefinitionRepos = 0 ∧ st.skipped ≠ [] then
    let details := "\n".intercalate (st.skipped.map fun (entry, err) => s!"- {entry}: {err}")
    .error s!"ALL_REPOS_FAILED: no definition-bearing `repos:` entry loaded (of {declared} declared) — every registry-providing repo was skipped, so no repo definitions are available. Recreate the directories or remove/comment out the dead entries:\n{details}"
  else .ok ()

def checkAnonymous (hostIds overrides : List String) (st : MergeState) : Except String Unit :=
  (hostIds.filter st.repoProvidedIds.contains).forM fun id =>
    if overrides.contains id then .ok ()
    else .error s!"ANONYMOUS_OVERRIDE: '{id}' is provided by a declared repo and shadowed by the host config without an explicit `overrides:` entry. Add `{id}` to the top-level `overrides:` array to make the shadowing intentional (SPEC §9.4)."

def checkStale (mode : RepoLoadMode) (overrides : List String) (st : MergeState) : Except String (List Notice) :=
  (overrides.filter fun id => !st.repoProvidedIds.contains id).mapM fun id =>
    if mode = .resilient ∧ st.skipped ≠ [] then
      .ok ⟨"STALE_OVERRIDE", s!"`overrides:` lists '{id}', but no loaded repo provides that id (a `repos:` entry was skipped this run, which may explain it)."⟩
    else .error s!"STALE_OVERRIDE: `overrides:` lists '{id}', but no declared repo provides that id. Remove it or correct the namespace prefix (SPEC §9.4)."

def overlayHost (m : Machine) (host : Value) (st : MergeState) : Except String Value := do
  let merged := st.aggregate.deepMerge host
  validateWorkflowRefsResolve merged
  let merged := stampWritableRepos merged st.writableRepoRoots
  let merged := stampRepoPriority merged st.repoPriorities
  let merged := stampPackProvenance merged st.packProvenance
  let merged := stampPackAffinities merged st.packAffinities
  let ungranted := st.ungrantedConnections.filter fun u => !(hostDefinitionIds host).contains u.key
  let granted ← applyStagedConnectionGrants m merged
  return stampUngrantedConnections granted.1 (ungranted ++ granted.2)

def mergeDeclaredRepos (m : Machine) (hostDir : String) (mode : RepoLoadMode) (host : Value) :
    Except String (Value × List Notice) := do
  let declared ← takeReposAndOverrides m.home host
  if declared.repos = [] then
    let merged ← mergeHostOnly m declared.body
    return (merged, [])
  let st ← declared.repos.foldlM (mergeRepo m hostDir mode) {}
  checkAnyLoaded declared.repos.length st
  checkAnonymous (hostDefinitionIds declared.body) declared.overrides st
  let stale ← checkStale mode declared.overrides st
  let merged ← overlayHost m declared.body st
  return (merged, st.notices ++ stale)

end Praxec.Config
