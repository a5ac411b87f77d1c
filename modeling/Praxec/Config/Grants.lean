import Praxec.Config.Shadowing

namespace Praxec.Config

open Json

section

variable (host : Value) (loaded : List Loaded) (key : String)

/-- The connection is staged and granted, or `connections:` of the host is open and the host declares it there or the
entry of a repo that contributes it grants it. -/
def Activated : Prop :=
  (grantedStaged host key).isSome = true ∨
    host.Opens "connections" ∧ ((host.entry "connections" key).isSome = true ∨
      ∃ r ∈ loaded, (r.registry.entry "connections" key).isSome = true ∧ r.grants key = true)

def OfferedConnection : Prop :=
  (∃ r ∈ loaded, (r.registry.entry "connections" key).isSome = true) ∨ (host.entry "stagedConnections" key).isSome = true

/-- Each connection that is offered and not activated reaches the listing: it waits for a grant, under
a key that is no host id, and `praxec:` of the host can hold the listing; or nothing waits and the host
wrote the listing itself. -/
def Surfaces : Prop :=
  ∀ key, OfferedConnection host loaded key → ¬ Activated host loaded key →
    (host.Opens "praxec" ∧ Waiting host loaded key) ∨
    ((∀ other, ¬ Waiting host loaded other) ∧ (ungrantedEntry host key).isSome = true)

end

section

variable {host merged : Value} {loaded : List Loaded} {key : String}

theorem contribution_connections_iff : (∃ r ∈ loaded, (r.contribution "connections" key).isSome) ↔
    ∃ r ∈ loaded, (r.registry.entry "connections" key).isSome ∧ r.grants key := by
  refine exists_congr fun r => and_congr_right fun _ => ?_
  rw [r.contribution_connections]
  cases r.grants key <;> simp

theorem isSome_connection_iff (hm : Merged host loaded merged) :
    (merged.entry "connections" key).isSome ↔ Activated host loaded key := by
  rw [hm.entry "connections" (by decide), if_pos rfl, Option.isSome_or, Bool.or_eq_true, isSome_layered,
    contribution_connections_iff]
  unfold Activated
  rw [or_comm (a := ∃ r ∈ loaded, _)]

theorem isSome_ungrantedEntry_iff (hm : Merged host loaded merged) : (ungrantedEntry merged key).isSome ↔
    (host.Opens "praxec" ∧ Waiting host loaded key) ∨
    ((∀ other, ¬ Waiting host loaded other) ∧ (ungrantedEntry host key).isSome) := by
  by_cases hnone : ∀ other, ¬ Waiting host loaded other
  · rw [hm.untouched key hnone]
    constructor
    · exact fun h => .inr ⟨hnone, h⟩
    · rintro (⟨-, hwaiting⟩ | ⟨-, h⟩)
      · exact absurd hwaiting (hnone key)
      · exact h
  · have hsome : ∃ other, Waiting host loaded other := not_forall_not.mp hnone
    by_cases hopen : host.Opens "praxec"
    · rw [hm.listed key hopen hsome]
      exact ⟨fun h => .inl ⟨hopen, h⟩, fun h => h.elim And.right fun h => absurd h.1 hnone⟩
    · rw [hm.unlisted key hopen]
      exact ⟨nofun, fun h => h.elim (fun h => absurd h.1 hopen) fun h => absurd h.1 hnone⟩

end

/-- Whatever the mode, a live connection is one that the operator declared, staged and granted, or
granted in the entry of the repo that contributes it; and the offered ones that are not live are
listed as ungranted exactly when each of them reaches the listing. -/
theorem granted_connections_live (m : Machine) (hostDir : String) (mode : RepoLoadMode) (host merged : Value)
    (declared : Declared) (notices : List Notice) (hk : host.Keyed)
    (htake : takeReposAndOverrides m.home host = .ok declared)
    (h : mergeDeclaredRepos m hostDir mode host = .ok (merged, notices)) :
    ((∀ key, (merged.entry "connections" key).isSome = true → (host.entry "connections" key).isSome = true ∨
        ((host.entry "stagedConnections" key).isSome = true ∧ key ∈ grantNames host) ∨
        ∃ r ∈ loadedRepos m hostDir declared.repos, (r.registry.entry "connections" key).isSome = true ∧ r.grants key = true) ∧
      ∀ key, OfferedConnection host (loadedRepos m hostDir declared.repos) key → merged.entry "connections" key = none →
        (ungrantedEntry merged key).isSome = true) ↔
    Surfaces host (loadedRepos m hostDir declared.repos) := by
  obtain ⟨hm, -⟩ := mergeDeclaredRepos_merged hk htake h
  set loaded := loadedRepos m hostDir declared.repos
  have hlive (key : String) (hkey : (merged.entry "connections" key).isSome = true) :
      (host.entry "connections" key).isSome = true ∨
      ((host.entry "stagedConnections" key).isSome = true ∧ key ∈ grantNames host) ∨
      ∃ r ∈ loaded, (r.registry.entry "connections" key).isSome = true ∧ r.grants key = true := by
    rcases (isSome_connection_iff hm).mp hkey with hstaged | ⟨-, hhost | hrepo⟩
    · unfold grantedStaged at hstaged
      split at hstaged
      · rename_i hgranted
        exact .inr (.inl ⟨hstaged, List.contains_iff_mem.mp hgranted⟩)
      · cases hstaged
    · exact .inl hhost
    · exact .inr (.inr hrepo)
  have hdead (key : String) : merged.entry "connections" key = none ↔ ¬ Activated host loaded key := by
    rw [← isSome_connection_iff hm, Option.not_isSome_iff_eq_none]
  rw [and_iff_right hlive]
  refine forall_congr' fun key => imp_congr_right fun _ => ?_
  rw [hdead, isSome_ungrantedEntry_iff hm]

def connectionMachine : Machine :=
  .withFlows [("/base", { name := "base-pack", ns := "base" })]
    [("/base", .object [("connections", .object [("db", .object [("kind", "mcp")])])])]

def homonymHost : Value :=
  .object [("repos", .array [.object [("path", "/base")]]), ("overrides", .array [.string "base/db"]),
    ("workflows", .object [("base/db", .object [])])]

theorem homonymHost_keyed : homonymHost.Keyed where
  distinct := by
    rintro _ ⟨⟩
    unfold Fields.Distinct
    decide
  blocks := by
    intro block entries h
    unfold homonymHost at h
    simp only [Value.get_object, Fields.get_cons, Fields.get_nil] at h
    split_ifs at h <;> cases h
    · exact nofun
    · exact nofun
    · rintro _ ⟨⟩
      simp [Fields.Distinct]

def homonymDeclared : Declared :=
  { repos := [{ source := .localDir "/base" }], overrides := ["base/db"],
    body := .object [("workflows", .object [("base/db", .object [])])] }

theorem homonym_hides_connection : ∃ (m : Machine) (hostDir : String) (mode : RepoLoadMode) (host merged : Value)
    (declared : Declared) (notices : List Notice), host.Keyed ∧ takeReposAndOverrides m.home host = .ok declared ∧
    mergeDeclaredRepos m hostDir mode host = .ok (merged, notices) ∧
    ∃ key, OfferedConnection host (loadedRepos m hostDir declared.repos) key ∧ merged.entry "connections" key = none ∧
      ungrantedEntry merged key = none := by
  obtain ⟨merged, notices, hmerge, hentry⟩ : ∃ merged notices,
      mergeDeclaredRepos connectionMachine "/host" .strict homonymHost = .ok (merged, notices) ∧
      merged.entry "connections" "base/db" = none ∧ ungrantedEntry merged "base/db" = none := by
    have hchecked : (mergeDeclaredRepos connectionMachine "/host" .strict homonymHost).toOption.any (fun out =>
        out.1.entry "connections" "base/db" = none ∧ ungrantedEntry out.1 "base/db" = none) = true := by decide +kernel
    cases hmerge : mergeDeclaredRepos connectionMachine "/host" .strict homonymHost with
    | error e =>
      rw [hmerge] at hchecked
      cases hchecked
    | ok out =>
      rw [hmerge] at hchecked
      exact ⟨out.1, out.2, rfl, of_decide_eq_true hchecked⟩
  refine ⟨connectionMachine, "/host", .strict, homonymHost, merged, homonymDeclared, notices, homonymHost_keyed,
    by decide +kernel, hmerge, "base/db", .inl ?_, hentry⟩
  decide +kernel

theorem ungranted_connection_listed : ∃ merged notices,
    mergeDeclaredRepos connectionMachine "/host" .resilient (localRepos ["/base"]) = .ok (merged, notices) ∧
    ∀ key, OfferedConnection (localRepos ["/base"]) (loadedRepos connectionMachine "/host" (declaredRepos ["/base"]).repos) key →
      merged.entry "connections" key = none → (ungrantedEntry merged key).isSome = true := by
  obtain ⟨merged, notices, hmerge, -⟩ : ∃ merged notices,
      mergeDeclaredRepos connectionMachine "/host" .resilient (localRepos ["/base"]) = .ok (merged, notices) ∧
      (merged.entry "praxec" "_repoPriority") = some (.object [("base", .nat 0)]) :=
    merged_of_mergedEntry (by decide +kernel)
  refine ⟨merged, notices, hmerge, ((granted_connections_live connectionMachine "/host" .resilient (localRepos ["/base"])
    merged (declaredRepos ["/base"]) notices (localRepos_keyed _) (by decide +kernel) hmerge).mpr ?_).2⟩
  have hgrants : ∀ r ∈ loadedRepos connectionMachine "/host" (declaredRepos ["/base"]).repos,
      r.decl.grantConnections = [] := by decide +kernel
  have hids : hostDefinitionIds (localRepos ["/base"]) = [] := by decide
  rintro key (⟨r, hr, hsome⟩ | hstaged) -
  · have hungranted : r.grants key = false := by
      unfold Loaded.grants
      rw [hgrants r hr]
      rfl
    exact .inl ⟨by decide, .inl ⟨⟨r, hr, hsome, hungranted⟩, hids ▸ List.not_mem_nil⟩⟩
  · cases hstaged

end Praxec.Config
