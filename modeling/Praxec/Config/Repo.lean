import Praxec.Json.Merge
import Praxec.SlotConstraint

namespace Praxec.Config

open Json Option

def repoManifestSchemaV1 : String := "praxec.repo/v1"

def knownLayoutTiers : List String := ["capabilities", "flows", "skills", "scripts", "connections"]

def prefixableBlocks : List String := ["workflows", "skills", "scripts", "connections", "schemas"]

def harmlessTopLevelKeys : List String := ["version", "include", "description", "metadata"]

structure RepoLayout where
  capabilities : String := "capabilities"
  flows : String := "flows"
  skills : String := "skills"
  scripts : String := "scripts"
  connections : String := "connections"
deriving DecidableEq

def RepoLayout.dirs (layout : RepoLayout) : List String :=
  [layout.capabilities, layout.flows, layout.skills, layout.scripts, layout.connections]

structure AffinityRequirement where
  tier : Option String
  capability : Option String
  recommended : Option String
deriving DecidableEq

structure RepoManifest where
  schema : String := repoManifestSchemaV1
  name : String
  ns : String
  layout : RepoLayout := {}
  scaffold : List String := []
  affinities : List (String × AffinityRequirement) := []
  referenceOnly : List String := []
deriving DecidableEq

/-- What the loader reads from disk: the parsed manifest of a root, the sorted YAML files of a
directory (`none` when there is no such directory), and the parsed content of a file. -/
structure RepoFiles where
  manifest : String → Except String RepoManifest
  yamlFiles : String → Option (Except String (List String))
  yaml : String → Except String Value

def isAbsolute (path : String) : Bool :=
  Text.startsWith path "/"

def joinPath (root path : String) : String :=
  if isAbsolute path || root = "" then path
  else if root.toList.getLast? = some '/' then root ++ path
  else root ++ "/" ++ path

def loadManifest (files : RepoFiles) (root : String) : Except String RepoManifest := do
  let path := joinPath root "praxec.repo.yaml"
  let manifest ← files.manifest root
  if manifest.schema ≠ repoManifestSchemaV1 then
    throw s!"repo manifest {path} declares schema `{manifest.schema}`; expected `{repoManifestSchemaV1}`"
  manifest.referenceOnly.forM fun tier =>
    if knownLayoutTiers.contains tier then .ok ()
    else
      let valid := ", ".intercalate knownLayoutTiers
      .error s!"repo manifest {path} lists unknown `reference_only:` tier `{tier}`; valid: {valid}"
  return manifest

def prefixId (ns id : String) : String :=
  if id.toList.contains '/' then id else ns ++ "/" ++ id

def qualify (ns : String) : Value → Value
  | .string id => .string (prefixId ns id)
  | v => v

def bindRef (ns : String) (kind : Option String) (key : String) (v : Value) : Value :=
  if (key = "definitionId" ∧ kind = some "workflow") ∨ (key = "subject" ∧ kind = some "script") then qualify ns v
  else if key = "skills" then
    match v with
    | .array subjects => .array (subjects.map (qualify ns))
    | v => v
  else v

mutual
def rewriteWorkflowRefs (ns : String) : Value → Value
  | .object fields => .object (rewriteFieldRefs ns ((Fields.get fields "kind").bind Value.asStr) fields)
  | .array xs => .array (rewriteItemRefs ns xs)
  | v => v

def rewriteFieldRefs (ns : String) (kind : Option String) : Fields → Fields
  | [] => []
  | (key, v) :: rest => (key, bindRef ns kind key (rewriteWorkflowRefs ns v)) :: rewriteFieldRefs ns kind rest

def rewriteItemRefs (ns : String) : List Value → List Value
  | [] => []
  | v :: rest => rewriteWorkflowRefs ns v :: rewriteItemRefs ns rest
end

def mergeRepoEntries (ns path block : String) : Fields → Fields → Fields × Option String
  | [], entries => (entries, none)
  | (id, body) :: rest, entries =>
      let prefixed := prefixId ns id
      if entries.contains prefixed then
        (entries, some s!"DUPLICATE_REPO_DEF: repo namespace '{ns}' defines '{prefixed}' more than once (last seen in {path}). Each definitionId may appear at most once per repo (SPEC §9.4).")
      else
        let body := if block = "workflows" then rewriteWorkflowRefs ns body else body
        mergeRepoEntries ns path block rest (entries.insert prefixed body)

def debugList (xs : List String) : String :=
  "[" ++ ", ".intercalate (xs.map fun x => "\x22" ++ x ++ "\x22") ++ "]"

/-- The blocks of one file, merged into what the repo has so far. A failing file leaves behind what
it had contributed; the repo as a whole then fails to load. -/
def mergeRepoBlocks (ns path : String) : Fields → Fields → Fields × Option String
  | [], registry => (registry, none)
  | (block, value) :: rest, registry =>
      if harmlessTopLevelKeys.contains block then mergeRepoBlocks ns path rest registry
      else if !prefixableBlocks.contains block then
        let blocks := debugList prefixableBlocks
        (registry, some s!"repo file {path} has unsupported top-level key `{block}`. Repo files may declare only {blocks} blocks (SPEC §9.2).")
      else match value with
        | .object additions =>
            let entries := ((registry.get block).bind Value.asObject).getD []
            let merged := mergeRepoEntries ns path block additions entries
            let registry := registry.insert block (.object merged.1)
            match merged.2 with
            | some error => (registry, some error)
            | none => mergeRepoBlocks ns path rest registry
        | _ => (registry, some s!"repo file {path} block `{block}:` must be a mapping")

def mergeRepoFile (ns path : String) (value : Value) (registry : Fields) : Fields × Option String :=
  match value with
  | .object top => mergeRepoBlocks ns path top registry
  | _ => (registry, some s!"repo file {path} must be a YAML mapping at the top level")

structure RepoScan where
  registry : Fields := []
  errors : List String := []

def scanFile (files : RepoFiles) (ns : String) (scan : RepoScan) (path : String) : RepoScan :=
  match files.yaml path with
  | .error e => { scan with errors := scan.errors ++ [e] }
  | .ok value =>
      let merged := mergeRepoFile ns path value scan.registry
      { registry := merged.1, errors := scan.errors ++ merged.2.toList }

def scanDir (files : RepoFiles) (ns root : String) (scan : RepoScan) (dir : String) : Except String RepoScan :=
  let path := joinPath root dir
  match files.yamlFiles path with
  | none => .ok scan
  | some (.error e) => .error s!"reading repo layout dir {path}: {e}"
  | some (.ok paths) => .ok (paths.foldl (scanFile files ns) scan)

def loadRepo (files : RepoFiles) (root : String) : Except String (RepoManifest × Value) := do
  let manifest ← loadManifest files root
  let scan ← manifest.layout.dirs.foldlM (scanDir files manifest.ns root) {}
  if scan.errors ≠ [] then
    let listed := "\n  - ".intercalate scan.errors
    throw s!"repo `{manifest.name}` has {scan.errors.length} invalid file(s) — fix all of them before it can load:\n  - {listed}"
  return (manifest, .object scan.registry)

def blockKeys (v : Value) (block : String) : List String :=
  (((v.get block).bind Value.asObject).getD []).map Prod.fst

def aggregateIds (aggregate : Value) : List String :=
  prefixableBlocks.flatMap (blockKeys aggregate)

theorem mem_blockKeys {block id : String} : id ∈ blockKeys v block ↔ (v.entry block id).isSome := by
  unfold blockKeys Value.entry
  cases hblock : v.get block with
  | none => simp
  | some entries =>
    cases entries with
    | object fields =>
      rw [bind_some, Value.asObject, getD_some, bind_some, Value.get_object, isSome_iff_ne_none,
        ne_eq, Fields.get_eq_none_iff, not_not]
    | _ => simp [Value.asObject, Value.get]

theorem mem_aggregateIds {id : String} :
    id ∈ aggregateIds v ↔ ∃ block ∈ prefixableBlocks, (v.entry block id).isSome := by
  simp [aggregateIds, List.mem_flatMap, mem_blockKeys]

structure Collected (v : Value) : Prop extends Value.Registry v where
  prefixable : ∀ block entries, v.get block = some entries → block ∈ prefixableBlocks

theorem collected_empty : Collected (.object []) where
  toRegistry := Value.registry_empty
  prefixable := nofun

theorem mergeRepoEntries_distinct (ns path block : String) (additions : Fields)
    (h : entries.Distinct) : (mergeRepoEntries ns path block additions entries).1.Distinct := by
  induction additions generalizing entries with
  | nil => exact h
  | cons addition rest ih =>
    rw [mergeRepoEntries]
    split
    · exact h
    · exact ih (h.insert _ _)

section

variable {registry : Fields} (h : Collected (.object registry))
include h

theorem Collected.entries (block : String) : Fields.Distinct (((registry.get block).bind Value.asObject).getD []) := by
  cases hblock : registry.get block with
  | none => exact List.nodup_nil
  | some v =>
    cases v with
    | object fields => exact h.blocks block _ hblock fields rfl
    | _ => exact List.nodup_nil

theorem Collected.insert {block : String} (hblock : block ∈ prefixableBlocks) {entries : Fields}
    (hentries : entries.Distinct) : Collected (.object (registry.insert block (.object entries))) := by
  have hget (other : String) (w : Value) (hw : (registry.insert block (.object entries)).get other = some w) :
      (other = block ∧ w = .object entries) ∨ registry.get other = some w := by
    rw [Fields.get_insert] at hw
    split at hw
    · exact .inl ⟨‹_›, (Option.some.inj hw).symm⟩
    · exact .inr hw
  refine ⟨⟨⟨?_, ?_⟩, rfl, ?_⟩, ?_⟩
  · rintro _ ⟨⟩
    exact (h.distinct registry rfl).insert _ _
  · intro other w hw
    rcases hget other w hw with ⟨-, rfl⟩ | hold
    · rintro _ ⟨⟩
      exact hentries
    · exact h.blocks other w hold
  · intro other w hw
    rcases hget other w hw with ⟨-, rfl⟩ | hold
    · rfl
    · exact h.open_blocks other w hold
  · intro other w hw
    rcases hget other w hw with ⟨rfl, -⟩ | hold
    · exact hblock
    · exact h.prefixable other w hold

theorem mergeRepoBlocks_collected (ns path : String) (top : Fields) :
    Collected (.object (mergeRepoBlocks ns path top registry).1) := by
  induction top generalizing registry with
  | nil => exact h
  | cons item rest ih =>
    obtain ⟨block, value⟩ := item
    unfold mergeRepoBlocks
    split_ifs with hharmless hblock
    · exact ih h
    · exact h
    · have hblock : block ∈ prefixableBlocks := by simpa using hblock
      cases value with
      | object additions =>
        have hnext := h.insert hblock (mergeRepoEntries_distinct ns path block additions (h.entries block))
        dsimp only
        split
        · exact hnext
        · exact ih hnext
      | _ => exact h

end

theorem scanFile_collected {files : RepoFiles} {ns : String} (h : Collected (.object scan.registry))
    {path : String} : Collected (.object (scanFile files ns scan path).registry) := by
  unfold scanFile
  cases files.yaml path with
  | error e => exact h
  | ok value =>
    cases value with
    | object top => exact mergeRepoBlocks_collected h ns path top
    | _ => exact h

theorem scanDir_collected
    (h : Collected (.object scan.registry)) (hscan : scanDir files ns root scan dir = .ok next) :
    Collected (.object next.registry) := by
  unfold scanDir at hscan
  dsimp only at hscan
  split at hscan
  · cases hscan
    exact h
  · cases hscan
  · rename_i paths _
    cases hscan
    clear * - h
    induction paths generalizing scan with
    | nil => exact h
    | cons path rest ih => exact ih (scanFile_collected h)

theorem foldlM_keeps {ε α σ : Type} {step : σ → α → Except ε σ} {P : σ → Prop} {xs : List α} {s s' : σ}
    (hstep : ∀ s x t, P s → step s x = .ok t → P t) (hs : P s) (h : xs.foldlM step s = .ok s') : P s' := by
  induction xs generalizing s with
  | nil =>
    cases h
    exact hs
  | cons x rest ih =>
    obtain ⟨t, ht, h⟩ := bind_ok h
    exact ih (hstep s x t hs ht) h

theorem loadRepo_collected {files : RepoFiles} {root : String} {manifest : RepoManifest} {registry : Value}
    (h : loadRepo files root = .ok (manifest, registry)) : Collected registry := by
  obtain ⟨loaded, -, h⟩ := bind_ok h
  obtain ⟨scan, hscan, h⟩ := bind_ok h
  have hcollected : Collected (.object scan.registry) :=
    foldlM_keeps (P := fun scan => Collected (.object scan.registry))
      (fun s dir t hs ht => scanDir_collected hs ht) collected_empty hscan
  split at h
  · cases h
  · cases h
    exact hcollected

end Praxec.Config
