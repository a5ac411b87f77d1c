import Praxec.Config.Merge

namespace Praxec.Config

open Json List Option Value Fields

structure Loaded where
  decl : RepoDecl
  manifest : RepoManifest
  registry : Value

def loadedRepo (m : Machine) (hostDir : String) (decl : RepoDecl) : Option Loaded :=
  match resolveRepo m hostDir decl with
  | .ok (.loaded _ manifest registry) => some ⟨decl, manifest, registry⟩
  | _ => none

def loadedRepos (m : Machine) (hostDir : String) (decls : List RepoDecl) : List Loaded :=
  decls.filterMap (loadedRepo m hostDir)

namespace Loaded

def grants (r : Loaded) (key : String) : Bool :=
  grantsConnection r.manifest.ns r.decl.grantConnections key

def contribution (r : Loaded) (block id : String) : Option Value :=
  if block = "connections" ∧ r.grants id = false then none else r.registry.entry block id

theorem contribution_eq_some {r : Loaded} {block id : String} {v : Value} (h : r.contribution block id = some v) :
    r.registry.entry block id = some v := by
  unfold contribution at h
  split at h
  · cases h
  · exact h

theorem contribution_connections (r : Loaded) (id : String) :
    r.contribution "connections" id = if r.grants id then r.registry.entry "connections" id else none := by
  unfold contribution
  cases r.grants id <;> rfl

end Loaded

variable {m : Machine} {decl : RepoDecl} {hostDir : String} {manifest : RepoManifest} {registry : Value}

theorem collected_of_openRepo (h : openRepo m decl root = .loaded root' manifest registry) : Collected registry := by
  unfold openRepo at h
  split at h
  · cases h
  · split at h
    · cases h
    · rename_i hload
      cases h
      exact loadRepo_collected hload

theorem collected_of_openLocal (h : openLocal m decl path = .loaded root manifest registry) : Collected registry := by
  unfold openLocal at h
  split at h
  · cases h
  · exact collected_of_openRepo h

theorem collected_of_resolveRepo
 (h : resolveRepo m hostDir decl = .ok (.loaded root manifest registry)) : Collected registry := by
  unfold resolveRepo at h
  split at h
  · cases hroot : m.invocationRoot with
    | error e => simp [hroot, Except.map] at h
    | ok path =>
      rw [hroot] at h
      exact collected_of_openLocal (Except.ok.inj h)
  · exact collected_of_openLocal (Except.ok.inj h)
  · cases h
  · dsimp only at h
    split at h
    · cases h
    · exact collected_of_openRepo (Except.ok.inj h)

section

variable {registry : Value} {manifest : RepoManifest}

structure Gated (registry : Value) (granted : String → Bool) (gated : Value × List UngrantedConnection) : Prop where
  collected : Collected gated.1
  entry : ∀ block id, gated.1.entry block id =
    if block = "connections" ∧ granted id = false then none else registry.entry block id
  ungranted : ∀ key, key ∈ gated.2.map UngrantedConnection.key ↔
    (registry.entry "connections" key).isSome = true ∧ granted key = false

theorem entry_object (fields : Fields) (block id : String) :
    (Value.object fields).entry block id = (fields.get block).bind (·.get id) :=
  rfl

theorem entry_insert (fields : Fields) (key : String) (entries : Fields) (block id : String) :
    (Value.object (fields.insert key (.object entries))).entry block id =
      if block = key then entries.get id else (Value.object fields).entry block id := by
  rw [entry_object, Fields.get_insert]
  split <;> rfl

theorem entry_remove {fields : Fields} {key block id : String} :
    (Value.object (fields.remove key)).entry block id = if block = key then none else (Value.object fields).entry block id := by
  rw [entry_object, Fields.get_remove]
  split <;> rfl

theorem Collected.remove {fields : Fields} (h : Collected (.object fields)) (key : String) :
    Collected (.object (fields.remove key)) := by
  have hget (other : String) (w : Value) (hw : (fields.remove key).get other = some w) : fields.get other = some w := by
    rw [Fields.get_remove] at hw
    split at hw
    · cases hw
    · exact hw
  refine ⟨⟨⟨?_, fun other w hw => h.blocks other w (hget other w hw)⟩, rfl,
    fun other w hw => h.open_blocks other w (hget other w hw)⟩, fun other w hw => h.prefixable other w (hget other w hw)⟩
  rintro _ ⟨⟩
  exact (h.distinct fields rfl).retain _

theorem gateRepoConnections_gated (hc : Collected registry)
    (h : gateRepoConnections registry manifest grants = .ok gated) :
    Gated registry (grantsConnection manifest.ns grants) gated := by
  obtain ⟨fields, rfl⟩ := (isObject_iff registry).mp hc.isObject
  unfold gateRepoConnections at h
  obtain ⟨_, -, h⟩ := bind_ok h
  set connections : Fields := (((Value.object fields).get "connections").bind Value.asObject).getD [] with hconn
  have hentry (id : String) : (Value.object fields).entry "connections" id = connections.get id := by
    rw [hconn, entry_object, get_object]
    cases hblock : Fields.get fields "connections" with
    | none => rfl
    | some w =>
      obtain ⟨entries, rfl⟩ := (isObject_iff w).mp (hc.open_blocks "connections" w hblock)
      rfl
  have hdistinct : connections.Distinct := hc.entries "connections"
  have hkey (key : String) : key ∈ connections.map Prod.fst ↔ (connections.get key).isSome := by
    rw [isSome_iff_ne_none, ne_eq, get_eq_none_iff, not_not]
  split at h
  · rename_i hempty
    have hnil : connections = [] := map_eq_nil_iff.mp hempty
    have hnone (id : String) : (Value.object fields).entry "connections" id = none := by
      rw [hentry, hnil]
      rfl
    cases h
    refine ⟨hc, fun block id => ?_, fun key => ?_⟩
    · split
      · rename_i hgate
        rw [hgate.1, hnone]
      · rfl
    · simp [hnone]
  · cases h
    set live := Fields.retain connections (grantsConnection manifest.ns grants) with hlive
    have hget (id : String) : live.get id = if grantsConnection manifest.ns grants id then connections.get id else none :=
      get_retain connections _ id
    refine ⟨?_, fun block id => ?_, fun key => ?_⟩
    · split
      · exact hc.remove _
      · exact hc.insert (by decide) (hdistinct.retain _)
    · have hconnections : (if live = [] then (Value.object fields).remove "connections"
          else (Value.object fields).insert "connections" (.object live)).entry block id =
          if block = "connections" then live.get id else (Value.object fields).entry block id := by
        split
        · rename_i hnil
          rw [hnil]
          exact entry_remove
        · exact entry_insert fields "connections" live block id
      refine hconnections.trans ?_
      by_cases hblock : block = "connections"
      · subst hblock
        rw [hget, hentry]
        cases grantsConnection manifest.ns grants id <;> simp
      · simp [hblock]
    · rw [hentry, ← hkey]
      simp [List.mem_map, mem_filter, and_comm]

end

structure Gathered (loaded : List Loaded) (st : MergeState) : Prop where
  collected : Collected st.aggregate
  entry : ∀ block id, st.aggregate.entry block id = overlays (loaded.map fun r => r.contribution block id)
  ids : ∀ id, id ∈ st.repoProvidedIds ↔ ∃ r ∈ loaded, id ∈ aggregateIds r.registry
  ungranted : ∀ key, key ∈ st.ungrantedConnections.map UngrantedConnection.key ↔
    ∃ r ∈ loaded, (r.registry.entry "connections" key).isSome = true ∧ r.grants key = false

theorem gathered_start : Gathered [] {} where
  collected := collected_empty
  entry _ _ := rfl
  ids _ := by simp
  ungranted _ := by simp

theorem Collected.deepMerge (ha : Collected a) (hb : Collected b) : Collected (a.deepMerge b) where
  toRegistry := ha.toRegistry.deepMerge hb.toRegistry
  prefixable := by
    intro block entries h
    rw [get_deepMerge ha.isObject hb.isObject hb.distinct] at h
    cases hB : b.get block with
    | none =>
      rw [hB, overlay_none] at h
      exact ha.prefixable block entries h
    | some news => exact hb.prefixable block news hB

section

variable {m : Machine} {hostDir : String} {decl : RepoDecl} {st : MergeState}

theorem mergeRepo_cases (h : mergeRepo m hostDir mode st decl = .ok st') :
    (loadedRepo m hostDir decl = none ∧ st'.aggregate = st.aggregate ∧ st'.repoProvidedIds = st.repoProvidedIds ∧
      st'.ungrantedConnections = st.ungrantedConnections) ∨
    ∃ r gated, loadedRepo m hostDir decl = some r ∧ Gated r.registry r.grants gated ∧
      st'.aggregate = st.aggregate.deepMerge gated.1 ∧
      st'.repoProvidedIds = st.repoProvidedIds ++ aggregateIds r.registry ∧
      st'.ungrantedConnections = st.ungrantedConnections ++ gated.2 := by
  unfold mergeRepo at h
  obtain ⟨outcome, houtcome, h⟩ := bind_ok h
  unfold loadedRepo
  rw [houtcome]
  cases outcome with
  | missing path reason =>
    cases h
    left
    dsimp only
    split <;> exact ⟨rfl, rfl, rfl, rfl⟩
  | worktree name resolution =>
    cases resolution with
    | resolved root =>
      obtain ⟨_, -, h⟩ := bind_ok h
      cases h
      exact .inl ⟨rfl, rfl, rfl, rfl⟩
    | unresolved reason =>
      cases h
      exact .inl ⟨rfl, rfl, rfl, rfl⟩
    | ambiguous candidates =>
      cases mode with
      | strict => cases h
      | resilient =>
        cases h
        exact .inl ⟨rfl, rfl, rfl, rfl⟩
  | failed e =>
    cases mode with
    | strict => cases h
    | resilient =>
      cases h
      exact .inl ⟨rfl, rfl, rfl, rfl⟩
  | bare root =>
    cases h
    exact .inl ⟨rfl, rfl, rfl, rfl⟩
  | loaded root manifest registry =>
    have hcollected := collected_of_resolveRepo houtcome
    obtain ⟨_, -, h⟩ := bind_ok h
    obtain ⟨_, -, h⟩ := bind_ok h
    obtain ⟨gated, hgated, h⟩ := bind_ok h
    cases h
    exact .inr ⟨⟨decl, manifest, registry⟩, gated, rfl, gateRepoConnections_gated hcollected hgated, rfl, rfl, rfl⟩

theorem Gathered.visit (hg : Gathered loaded st) (h : mergeRepo m hostDir mode st decl = .ok st') :
    Gathered (loaded ++ (loadedRepo m hostDir decl).toList) st' := by
  rcases mergeRepo_cases h with ⟨hnone, hagg, hids, hungranted⟩ | ⟨r, gated, hsome, hgated, hagg, hids, hungranted⟩
  · rw [hnone, toList_none, append_nil]
    exact ⟨hagg ▸ hg.collected, hagg ▸ hg.entry, hids ▸ hg.ids, hungranted ▸ hg.ungranted⟩
  · rw [hsome, toList_some]
    refine ⟨?_, fun block id => ?_, fun id => ?_, fun key => ?_⟩
    · rw [hagg]
      exact hg.collected.deepMerge hgated.collected
    · have hmerge := (entry_deepMerge hg.collected.toRegistry hgated.collected.toKeyed hgated.collected.isObject
        block id).1 (hgated.collected.open_blocks block)
      rw [hagg, hmerge, hg.entry, hgated.entry, map_append, overlays_append]
      rfl
    · simp [hids, hg.ids, or_and_right, exists_or]
    · have hnew := hgated.ungranted key
      have hold := hg.ungranted key
      simp only [hungranted, map_append, mem_append, hold, hnew, mem_singleton, or_and_right, exists_or,
        exists_eq_left]

theorem Gathered.run (hg : Gathered loaded st)
    (h : decls.foldlM (mergeRepo m hostDir mode) st = .ok st') : Gathered (loaded ++ loadedRepos m hostDir decls) st' := by
  induction decls generalizing loaded st with
  | nil =>
    cases h
    simpa [loadedRepos] using hg
  | cons decl rest ih =>
    obtain ⟨next, hnext, h⟩ := bind_ok h
    have hrest := ih (hg.visit hnext) h
    rw [append_assoc] at hrest
    have hsplit : loadedRepos m hostDir (decl :: rest) =
        (loadedRepo m hostDir decl).toList ++ loadedRepos m hostDir rest := by
      unfold loadedRepos
      cases hdecl : loadedRepo m hostDir decl <;> simp [hdecl]
    rwa [hsplit]

end

end Praxec.Config
