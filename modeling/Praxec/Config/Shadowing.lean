import Praxec.Config.Promotion

namespace Praxec.Config

open Json List Option Value

/-- Every source's own entry under an id: the loaded repos as their files declare it, the host's body,
and the staged connection that the host grants. -/
def providers (host : Value) (loaded : List Loaded) (block id : String) : List Value :=
  (loaded.map fun r => r.registry.entry block id).reduceOption ++ (host.entry block id).toList ++
    if block = "connections" then (grantedStaged host id).toList else []

/-- Outside `overrides`, no id is written by two sources where nothing compares them: two repos in
one block, the host's `schemas` and a repo's, a granted staged connection and a repo's own. -/
structure Unmixed (host : Value) (loaded : List Loaded) (overrides : List String) : Prop where
  repos : ∀ block ∈ prefixableBlocks, ∀ id, id ∉ overrides → host.Opens block →
    (∃ r ∈ loaded, (r.contribution block id).isSome = true) →
    (loaded.map fun r => r.registry.entry block id).reduceOption.length ≤ 1
  schemas : ∀ id, (host.entry "schemas" id).isSome = true →
    (∃ r ∈ loaded, (r.registry.entry "schemas" id).isSome = true) → id ∈ overrides
  staged : ∀ id, (grantedStaged host id).isSome = true →
    (∃ r ∈ loaded, (r.registry.entry "connections" id).isSome = true) → id ∈ overrides

theorem reduceOption_map_sublist {α β : Type} {f g : α → Option β} (h : ∀ x, f x = none ∨ f x = g x) {xs : List α} :
    (xs.map f).reduceOption.Sublist (xs.map g).reduceOption := by
  induction xs with
  | nil => exact .slnil
  | cons x rest ih =>
    rcases h x with hnone | hsame
    · rw [map_cons, hnone, map_cons]
      cases g x with
      | none => exact ih
      | some y => exact ih.cons y
    · rw [map_cons, map_cons, hsame]
      cases g x with
      | none => exact ih
      | some y => exact ih.cons_cons y

section

variable {host merged : Value} {loaded : List Loaded} {block id : String}

theorem contributions_sublist : (loaded.map fun r => r.contribution block id).reduceOption.Sublist
    (loaded.map fun r => r.registry.entry block id).reduceOption := by
  refine reduceOption_map_sublist (fun r => ?_)
  unfold Loaded.contribution
  split
  · exact .inl rfl
  · exact .inr rfl

theorem declared_length_pos (h : ∃ r ∈ loaded, (r.registry.entry block id).isSome) :
    0 < (loaded.map fun r => r.registry.entry block id).reduceOption.length := by
  obtain ⟨r, hr, hsome⟩ := h
  obtain ⟨v, hv⟩ := isSome_iff_exists.mp hsome
  exact length_pos_of_mem (reduceOption_mem_iff.mpr (mem_map.mpr ⟨r, hr, hv⟩))

theorem declared_eq_nil (h : ¬ ∃ r ∈ loaded, (r.registry.entry block id).isSome) :
    (loaded.map fun r => r.registry.entry block id).reduceOption = [] := by
  refine eq_nil_iff_forall_not_mem.mpr fun v hv => h ?_
  obtain ⟨r, hr, hentry⟩ := mem_map.mp (reduceOption_mem_iff.mp hv)
  exact ⟨r, hr, by simp [hentry]⟩

theorem declared_of_contribution (h : ∃ r ∈ loaded, (r.contribution block id).isSome) :
    ∃ r ∈ loaded, (r.registry.entry block id).isSome := by
  obtain ⟨r, hr, hsome⟩ := h
  obtain ⟨v, hv⟩ := isSome_iff_exists.mp hsome
  exact ⟨r, hr, by simp [Loaded.contribution_eq_some hv]⟩

theorem isSome_overlays_contributions : (overlays (loaded.map fun r => r.contribution block id)).isSome ↔
    ∃ r ∈ loaded, (r.contribution block id).isSome := by
  simp [isSome_overlays]

theorem isSome_layered : (layered host loaded block id).isSome ↔
    host.Opens block ∧ ((∃ r ∈ loaded, (r.contribution block id).isSome) ∨ (host.entry block id).isSome) := by
  unfold layered
  split
  · rename_i hopen
    rw [isSome_overlay, Bool.or_eq_true, isSome_overlays_contributions]
    simp [hopen]
  · rename_i hclosed
    simp [hclosed]

theorem isSome_merged (hm : Merged host loaded merged) (hblock : block ∈ prefixableBlocks)
    (h : (layered host loaded block id).isSome) : ∃ v, merged.entry block id = some v := by
  refine isSome_iff_exists.mp ?_
  rw [hm.entry block hblock, isSome_or, h, Bool.or_true]

theorem host_entry_of_layered_none (h : layered host loaded block id = none) : host.entry block id = none := by
  cases hentry : host.entry block id with
  | none => rfl
  | some w =>
    have hsome : (layered host loaded block id).isSome :=
      isSome_layered.mpr ⟨opens_of_entry hentry, .inr (by simp [hentry])⟩
    rw [h] at hsome
    cases hsome

theorem mem_hostDefinitionIds (hblock : block ∈ prefixableBlocks) (hschemas : block ≠ "schemas")
    (h : (host.entry block id).isSome) : id ∈ hostDefinitionIds host := by
  refine mem_flatMap.mpr ⟨block, ?_, mem_blockKeys.mpr h⟩
  simpa [prefixableBlocks, hschemas] using hblock

theorem Unmixed.host_alone (hu : Unmixed host loaded overrides)
    (hack : ∀ id ∈ hostDefinitionIds host, (∃ r ∈ loaded, id ∈ aggregateIds r.registry) → id ∈ overrides)
    (hblock : block ∈ prefixableBlocks) (hid : id ∉ overrides) (h : (host.entry block id).isSome) :
    ¬ ∃ r ∈ loaded, (r.registry.entry block id).isSome := by
  rintro ⟨r, hr, hsome⟩
  by_cases hschemas : block = "schemas"
  · subst hschemas
    exact hid (hu.schemas id h ⟨r, hr, hsome⟩)
  · exact hid (hack id (mem_hostDefinitionIds hblock hschemas h) ⟨r, hr, mem_aggregateIds.mpr ⟨block, hblock, hsome⟩⟩)

theorem Unmixed.single (hu : Unmixed host loaded overrides)
    (hack : ∀ id ∈ hostDefinitionIds host, (∃ r ∈ loaded, id ∈ aggregateIds r.registry) → id ∈ overrides)
    (hblock : block ∈ prefixableBlocks) (hid : id ∉ overrides) (h : layered host loaded block id = some v) :
    (loaded.map fun r => r.registry.entry block id).reduceOption ++ (host.entry block id).toList = [v] := by
  obtain ⟨hopen, -⟩ := isSome_layered.mp (by simp [h] : (layered host loaded block id).isSome)
  rw [layered, if_pos hopen] at h
  cases hhost : host.entry block id with
  | some w =>
    have halone := hu.host_alone hack hblock hid (by simp [hhost])
    have hnone : overlays (loaded.map fun r => r.contribution block id) = none := by
      rw [← not_isSome_iff_eq_none, isSome_overlays_contributions]
      exact fun hc => halone (declared_of_contribution hc)
    rw [hnone, hhost] at h
    cases h
    rw [declared_eq_nil halone]
    rfl
  | none =>
    rw [hhost, overlay_none] at h
    have hsome : (overlays (loaded.map fun r => r.contribution block id)).isSome := by
      rw [h]
      rfl
    have hcontributed := isSome_overlays_contributions.mp hsome
    -- one repo declares the id, so what passes the gate is its entry
    have hone : (loaded.map fun r => r.registry.entry block id).reduceOption.length = 1 :=
      Nat.le_antisymm (hu.repos block hblock id hid hopen hcontributed)
        (declared_length_pos (declared_of_contribution hcontributed))
    obtain ⟨w, hw⟩ := length_eq_one_iff.mp hone
    have hsingle : (loaded.map fun r => r.contribution block id).reduceOption = [w] := by
      have hsub : (loaded.map fun r => r.contribution block id).reduceOption.Sublist [w] := hw ▸ contributions_sublist
      rcases sublist_singleton.mp hsub with hnil | hsingle
      · obtain ⟨r, hr, hsome⟩ := hcontributed
        obtain ⟨u, hu⟩ := isSome_iff_exists.mp hsome
        have hmem : u ∈ (loaded.map fun r => r.contribution block id).reduceOption :=
          reduceOption_mem_iff.mpr (mem_map.mpr ⟨r, hr, hu⟩)
        rw [hnil] at hmem
        exact absurd hmem not_mem_nil
      · exact hsingle
    rw [overlays_of_single hsingle] at h
    cases h
    rw [hw]
    rfl

end

theorem single_length (h : xs ++ ys ++ zs = [v]) : xs.length + ys.length + zs.length = 1 := by
  have hlength := congrArg List.length h
  simpa [Nat.add_assoc] using hlength

/-- In a strict merge, each entry whose id is not overridden is the entry of the one source that
declares it, exactly when no id is written by two sources that the checks do not compare. -/
theorem entries_of_one_source (m : Machine) (hostDir : String) (host merged : Value) (declared : Declared)
    (notices : List Notice) (hk : host.Keyed) (htake : takeReposAndOverrides m.home host = .ok declared)
    (h : mergeDeclaredRepos m hostDir .strict host = .ok (merged, notices)) :
    (∀ block ∈ prefixableBlocks, ∀ id v, id ∉ declared.overrides → merged.entry block id = some v →
      providers host (loadedRepos m hostDir declared.repos) block id = [v]) ↔
    Unmixed host (loadedRepos m hostDir declared.repos) declared.overrides := by
  obtain ⟨hm, hack⟩ := mergeDeclaredRepos_merged hk htake h
  set loaded := loadedRepos m hostDir declared.repos
  constructor
  · intro hsingle
    refine ⟨fun block hblock id hid hopen hcontributed => ?_, fun id hhost hrepo => ?_, fun id hstaged hrepo => ?_⟩
    · obtain ⟨v, hv⟩ := isSome_merged hm hblock (isSome_layered.mpr ⟨hopen, .inl hcontributed⟩)
      have hlength := single_length (hsingle block hblock id v hid hv)
      omega
    · by_contra hid
      obtain ⟨w, hw⟩ := isSome_iff_exists.mp hhost
      obtain ⟨v, hv⟩ := isSome_merged hm (by decide)
        (isSome_layered.mpr ⟨opens_of_entry hw, .inr hhost⟩ : (layered host loaded "schemas" id).isSome = true)
      have hlength := single_length (hsingle "schemas" (by decide) id v hid hv)
      have hrepos := declared_length_pos hrepo
      rw [hw, toList_some, length_singleton] at hlength
      omega
    · by_contra hid
      obtain ⟨w, hw⟩ := isSome_iff_exists.mp hstaged
      have hlive : merged.entry "connections" id = some w := by
        rw [hm.entry "connections" (by decide), hw]
        rfl
      have hlength := single_length (hsingle "connections" (by decide) id w hid hlive)
      have hrepos := declared_length_pos hrepo
      rw [if_pos rfl, hw, toList_some, length_singleton] at hlength
      omega
  · intro hu block hblock id v hid hv
    rw [hm.entry block hblock] at hv
    unfold providers
    by_cases hconn : block = "connections"
    · subst hconn
      rw [if_pos rfl] at hv ⊢
      cases hstaged : grantedStaged host id with
      | some w =>
        rw [hstaged] at hv
        have hrepos : ¬ ∃ r ∈ loaded, (r.registry.entry "connections" id).isSome = true :=
          fun hrepo => hid (hu.staged id (by simp [hstaged]) hrepo)
        rw [declared_eq_nil hrepos, host_entry_of_layered_none (hm.fresh id w hstaged), Option.some.inj hv]
        rfl
      | none =>
        rw [hstaged] at hv
        rw [hu.single hack hblock hid hv]
        rfl
    · rw [if_neg hconn] at hv
      rw [if_neg hconn, append_nil]
      exact hu.single hack hblock hid hv

/-- A machine with local repos only, each with one file in its `flows` directory. -/
def Machine.withFlows (manifests : List (String × RepoManifest)) (flows : Fields) : Machine where
  files :=
    { manifest := fun root => match manifests.lookup root with
        | some manifest => .ok manifest
        | none => .error "no such file"
      yamlFiles := fun dir => if flows.any fun flow => joinPath flow.1 "flows" = dir then some (.ok [dir ++ "/main.yaml"]) else none
      yaml := fun path => match flows.find? fun flow => joinPath flow.1 "flows/main.yaml" = path with
        | some flow => .ok flow.2
        | none => .error "no such file" }
  home := none
  invocationRoot := .error "not a git worktree"
  commonDir _ := .error "not a git worktree"
  rootReadable _ := .ok ()
  worktreesOf _ _ := .unresolved "no anchor"
  cloneOrUpdate _ _ _ := .error "no network"
  manifestScaffold _ := []
  createDirAll _ := .ok ()
  packProvenance ns _ _ _ := .object [("namespace", .string ns)]
  validateConnection _ := .ok ()

def localRepos (paths : List String) : Value :=
  .object [("repos", .array (paths.map fun path => .object [("path", .string path)]))]

theorem localRepos_keyed (paths : List String) : (localRepos paths).Keyed where
  distinct := by
    rintro _ ⟨⟩
    simp [Fields.Distinct]
  blocks := by
    intro block entries h
    unfold localRepos at h
    rw [get_object, Fields.get_cons] at h
    split at h
    · cases h
      intro _ hentry
      cases hentry
    · cases h

def reexportingMachine : Machine :=
  .withFlows [("/base", { name := "base-pack", ns := "base" }), ("/extra", { name := "extra-pack", ns := "extra" })]
    [("/base", .object [("workflows", .object [("deploy", .object [("title", "deploy")])])]),
     ("/extra", .object [("workflows", .object [("base/deploy", .object [("title", "take over")])])])]

def mergedEntry (result : Except String (Value × List Notice)) (block id : String) : Option Value :=
  match result with
  | .ok (merged, _) => merged.entry block id
  | .error _ => none

theorem merged_of_mergedEntry {result : Except String (Value × List Notice)} {block id : String}
    (h : mergedEntry result block id = some v) :
    ∃ merged notices, result = .ok (merged, notices) ∧ merged.entry block id = some v := by
  cases result with
  | error e => cases h
  | ok pair => exact ⟨pair.1, pair.2, rfl, h⟩

def declaredRepos (paths : List String) : Declared :=
  { repos := paths.map fun path => { source := .localDir path }, overrides := [], body := .object [] }

/-- Two packs under different namespaces: the second replaces the first one's workflow, and nothing
objects. -/
theorem reexport_replaces_workflow : ∃ (m : Machine) (hostDir : String) (host merged : Value) (declared : Declared)
    (notices : List Notice), host.Keyed ∧ takeReposAndOverrides m.home host = .ok declared ∧
    mergeDeclaredRepos m hostDir .strict host = .ok (merged, notices) ∧
    ¬ ∀ block ∈ prefixableBlocks, ∀ id v, id ∉ declared.overrides → merged.entry block id = some v →
      providers host (loadedRepos m hostDir declared.repos) block id = [v] := by
  obtain ⟨merged, notices, hmerge, hentry⟩ : ∃ merged notices,
      mergeDeclaredRepos reexportingMachine "/host" .strict (localRepos ["/base", "/extra"]) = .ok (merged, notices) ∧
      merged.entry "workflows" "base/deploy" = some (.object [("title", "take over")]) :=
    merged_of_mergedEntry (by decide +kernel)
  refine ⟨reexportingMachine, "/host", localRepos ["/base", "/extra"], merged, declaredRepos ["/base", "/extra"], notices,
    localRepos_keyed _, by decide +kernel, hmerge, fun hsingle => ?_⟩
  have hproviders := hsingle "workflows" (by decide) "base/deploy" _ not_mem_nil hentry
  revert hproviders
  decide +kernel

theorem one_pack_of_one_source : ∃ merged notices, mergeDeclaredRepos reexportingMachine "/host" .strict (localRepos ["/base"]) =
    .ok (merged, notices) ∧ ∀ block ∈ prefixableBlocks, ∀ id v, id ∉ [] → merged.entry block id = some v →
      providers (localRepos ["/base"]) (loadedRepos reexportingMachine "/host" (declaredRepos ["/base"]).repos) block id = [v] := by
  obtain ⟨merged, notices, hmerge, -⟩ : ∃ merged notices,
      mergeDeclaredRepos reexportingMachine "/host" .strict (localRepos ["/base"]) = .ok (merged, notices) ∧
      merged.entry "workflows" "base/deploy" = some (.object [("title", "deploy")]) :=
    merged_of_mergedEntry (by decide +kernel)
  refine ⟨merged, notices, hmerge, (entries_of_one_source reexportingMachine "/host" (localRepos ["/base"]) merged
    (declaredRepos ["/base"]) notices (localRepos_keyed _) (by decide +kernel) hmerge).mpr ⟨?_, ?_, ?_⟩⟩
  · intro block _ id _ _ _
    have hlength : (loadedRepos reexportingMachine "/host" (declaredRepos ["/base"]).repos).length = 1 := by decide +kernel
    exact Nat.le_trans (reduceOption_length_le _) (by simp [hlength])
  · intro id hhost
    have hnone : (localRepos ["/base"]).entry "schemas" id = none := entry_eq_none_of_get (by decide) id
    cases hhost
  · intro id hstaged
    have hnone : grantedStaged (localRepos ["/base"]) id = none := by
      unfold grantedStaged
      split <;> rfl
    cases hstaged

end Praxec.Config
