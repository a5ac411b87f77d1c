import Mathlib.Data.List.Basic

namespace Praxec.Models

open List

inductive Affinity where
  | coding | reasoning | prose | webSearch | recon | agentic
deriving DecidableEq

inductive Tier where
  | frontier | standard | commoditized
deriving DecidableEq

inductive Effort where
  | fast | medium | deep
deriving DecidableEq

def Effort.text : Effort → String
  | fast => "fast"
  | medium => "medium"
  | deep => "deep"

structure ModelRef where
  affinity : Option Affinity
  tier : Option Tier
  effort : Option Effort
deriving DecidableEq

inductive ProviderId where
  | anthropic | openai | gemini | openrouter | ollama | llamacpp | bedrock | fireworks
deriving DecidableEq

def ProviderId.slug : ProviderId → String
  | anthropic => "anthropic"
  | openai => "openai"
  | gemini => "gemini"
  | openrouter => "openrouter"
  | ollama => "ollama"
  | llamacpp => "llamacpp"
  | bedrock => "bedrock"
  | fireworks => "fireworks"

inductive Provider where
  | known (id : ProviderId)
  | custom (endpoint : String)
deriving DecidableEq

def providerSlug : Provider → String
  | .known id => id.slug
  | .custom endpoint => endpoint

structure Binding where
  provider : Provider
  model : String
deriving DecidableEq

structure OverrideKey where
  affinity : Option Affinity
  tier : Option Tier
deriving DecidableEq

structure ModelsFile where
  strictSpecificity : Bool
  default : List Binding
  overrides : List (OverrideKey × List Binding)
  activity : List (String × List Binding)

/-- An entry of the catalog. Its prices and scores are bit patterns that only `Ranking` reads. -/
structure ModelEntry where
  vendor : String
  model : String
  tools : Bool
  isLocal : Bool
  reasoningLevels : List String
  figures : List Nat
deriving DecidableEq

/-- What double arithmetic makes of the figures, for the knobs of a call: which models clear the floor, which lie in the
value band of a list, and which comes first. -/
structure Ranking where
  clears : List Affinity → ModelEntry → Bool
  inBand : List Affinity → List ModelEntry → ModelEntry → Bool
  before : List Affinity → ModelEntry → ModelEntry → Bool

structure BudgetCap where
  covers : ModelEntry → Bool
  text : String

structure Constraints where
  localOnly : Bool
  budgetCap : Option BudgetCap

/-- `registered` lists accounts with the variable that holds their key, `isSet` is the environment. -/
structure AccountRegistry where
  registered : List ((String × String) × String)
  isSet : String → Bool

namespace AccountRegistry

def accountAvailable (accounts : AccountRegistry) (provider account : String) : Bool :=
  (accounts.registered.lookup (provider, account)).any accounts.isSet

def accountsForProvider (accounts : AccountRegistry) (provider : String) : List String :=
  (accounts.registered.filter fun entry => entry.1.1 = provider).map fun entry => entry.1.2

end AccountRegistry

structure PoolMember where
  provider : String
  model : String
  account : Option String
deriving DecidableEq

inductive ResolutionError where
  | unsatisfiable (spec : ModelRef) (reason : String)
deriving DecidableEq

def candidateKeys (delegate : ModelRef) : List OverrideKey :=
  (match delegate.affinity, delegate.tier with
    | some a, some t => [⟨some a, some t⟩]
    | _, _ => []) ++
  delegate.affinity.toList.map (fun a => ⟨some a, none⟩) ++ delegate.tier.toList.map fun t => ⟨none, some t⟩

def walkKeys (file : ModelsFile) : Bool → List OverrideKey → Option (List Binding)
  | _, [] => if file.default.isEmpty then none else some file.default
  | strict, key :: rest => match file.overrides.lookup key with
    | some bindings => some bindings
    | none => if strict then none else walkKeys file false rest

def walk (file : ModelsFile) (delegate : ModelRef) : Option (List Binding) :=
  walkKeys file (file.strictSpecificity && (delegate.affinity.isSome && delegate.tier.isSome)) (candidateKeys delegate)

def poolByValue (rank : Ranking) (models : List ModelEntry) (needs : List Affinity) (available : String → Bool) :
    List ModelEntry :=
  let candidates := models.filter fun m => m.tools && available m.vendor
  let cleared := candidates.filter (rank.clears needs)
  let considered := if cleared.isEmpty then candidates else cleared
  (considered.filter (rank.inBand needs considered)).mergeSort (rank.before needs)

def effortLevel : Effort → String
  | .fast => "low"
  | .medium => "medium"
  | .deep => "high"

def passes (effort : Option Effort) (constraints : Constraints) (catalog : List ModelEntry) (provider model : String) :
    Bool :=
  let entry := catalog.find? fun m => m.vendor = provider && m.model = model
  (!constraints.localOnly || entry.any ModelEntry.isLocal) &&
    constraints.budgetCap.all (fun cap => entry.any cap.covers) &&
    effort.all fun e => entry.any fun m => m.reasoningLevels.any (· = effortLevel e)

def unsatisfiableReason (spec : ModelRef) (c : Constraints) : String :=
  let parts := (spec.effort.toList.map fun e => "effort `" ++ e.text ++ "`") ++
    (if c.localOnly then ["local-only"] else []) ++ c.budgetCap.toList.map fun cap => "budget ≤ $" ++ cap.text ++ "/M"
  if parts.isEmpty then "no reachable account for any qualifying model"
  else "no reachable model meets the requested facets: " ++ ", ".intercalate parts

def expand (accounts : AccountRegistry) (vendorAvailable : String → Bool) (pick : String × String) : List PoolMember :=
  let accts := (accounts.accountsForProvider pick.1).mergeSort fun a b => a ≤ b
  if accts.isEmpty then if vendorAvailable pick.1 then [⟨pick.1, pick.2, none⟩] else []
  else (accts.filter (accounts.accountAvailable pick.1)).map fun a => ⟨pick.1, pick.2, some a⟩

section

variable (spec : ModelRef) (constraints : Constraints) (file : ModelsFile) (catalog : List ModelEntry)
  (accounts : AccountRegistry) (vendorAvailable : String → Bool) (rank : Ranking)

def ranked : List (String × String) :=
  (poolByValue rank catalog spec.affinity.toList vendorAvailable).map fun m => (m.vendor, m.model)

def reachable (base : List (String × String)) : List PoolMember :=
  (base.filter fun pick => passes spec.effort constraints catalog pick.1 pick.2).flatMap (expand accounts vendorAvailable)

def resolvePool : Except ResolutionError (List PoolMember) :=
  let members := reachable spec constraints catalog accounts vendorAvailable (match walk file spec with
    | some bindings => bindings.map fun b => (providerSlug b.provider, b.model)
    | none => ranked spec catalog vendorAvailable rank)
  if members.isEmpty then .error (.unsatisfiable spec (unsatisfiableReason spec constraints)) else .ok members

def ModelsFile.Binds (m : PoolMember) : Prop :=
  ∃ bindings, (bindings = file.default ∨ (∃ key, (key, bindings) ∈ file.overrides) ∨
    ∃ key, (key, bindings) ∈ file.activity) ∧ ∃ b ∈ bindings, providerSlug b.provider = m.provider ∧ b.model = m.model

def Unkeyed : Prop :=
  ∀ key ∈ candidateKeys spec, file.overrides.lookup key = none

/-- Strict specificity leaves the request without a model. -/
def Refuses : Prop :=
  file.strictSpecificity = true ∧ ∃ a t, spec.affinity = some a ∧ spec.tier = some t ∧
    file.overrides.lookup ⟨some a, some t⟩ = none

def HonoursFile : Prop :=
  (∀ members, resolvePool spec constraints file catalog accounts vendorAvailable rank = .ok members →
    ∀ m ∈ members, ¬ file.Binds m → Unkeyed spec file ∧ file.default = []) ∧
  (Refuses spec file → file.default ≠ [] →
    ∃ e, resolvePool spec constraints file catalog accounts vendorAvailable rank = .error e)

end

variable {spec : ModelRef} {constraints : Constraints} {file : ModelsFile} {catalog : List ModelEntry}
  {accounts : AccountRegistry} {vendorAvailable : String → Bool}

theorem walkKeys_eq_none_iff {keys : List OverrideKey} :
    walkKeys file false keys = none ↔ (∀ key ∈ keys, file.overrides.lookup key = none) ∧ file.default = [] := by
  induction keys with
  | nil => simp [walkKeys]
  | cons key rest ih =>
    unfold walkKeys
    cases hkey : file.overrides.lookup key with
    | some bindings => simp only [forall_mem_cons, hkey, reduceCtorEq, false_and]
    | none => simp only [forall_mem_cons, hkey, true_and, Bool.false_eq_true, ↓reduceIte, ih]

theorem walk_eq_none_iff : walk file spec = none ↔ Refuses spec file ∨ Unkeyed spec file ∧ file.default = [] := by
  obtain ⟨affinity, tier, effort⟩ := spec
  unfold walk Refuses Unkeyed
  cases hstrict : file.strictSpecificity with
  | false => simp [walkKeys_eq_none_iff]
  | true =>
    cases affinity with
    | none => simp [walkKeys_eq_none_iff]
    | some a =>
      cases tier with
      | none => simp [walkKeys_eq_none_iff]
      | some t =>
        cases hkey : file.overrides.lookup ⟨some a, some t⟩ with
        | none =>
          refine iff_of_true ?_ (.inl ⟨rfl, a, t, rfl, rfl, hkey⟩)
          change walkKeys file true (⟨some a, some t⟩ :: _) = none
          simp only [walkKeys, hkey, ↓reduceIte]
        | some bindings =>
          have hexact : ¬ file.overrides.lookup ⟨some a, some t⟩ = none := by simp only [hkey, reduceCtorEq, not_false_eq_true]
          refine iff_of_false ?_ ?_
          · change ¬ walkKeys file true (⟨some a, some t⟩ :: _) = none
            simp only [walkKeys, hkey, reduceCtorEq, not_false_eq_true]
          · rintro (⟨-, a', t', ⟨⟩, ⟨⟩, hnone⟩ | ⟨hunkeyed, -⟩)
            · exact hexact hnone
            · exact hexact (hunkeyed _ (.head _))

theorem mem_of_lookup {key : OverrideKey} {bindings : List Binding} {overrides : List (OverrideKey × List Binding)}
    (h : overrides.lookup key = some bindings) : (key, bindings) ∈ overrides := by
  obtain ⟨before, after, hsplit, -⟩ := lookup_eq_some_iff.mp h
  simp [hsplit]

theorem walkKeys_eq_some {strict : Bool} {keys : List OverrideKey} {bindings : List Binding}
    (h : walkKeys file strict keys = some bindings) :
    bindings = file.default ∨ ∃ key, (key, bindings) ∈ file.overrides := by
  induction keys generalizing strict with
  | nil =>
    unfold walkKeys at h
    split at h
    · cases h
    · exact .inl (Option.some.inj h).symm
  | cons key rest ih =>
    unfold walkKeys at h
    split at h
    · rename_i found hkey
      cases h
      exact .inr ⟨key, mem_of_lookup hkey⟩
    · split at h
      · cases h
      · exact ih h

theorem mem_expand (h : m ∈ expand accounts vendorAvailable pick) : m.provider = pick.1 ∧ m.model = pick.2 := by
  unfold expand at h
  dsimp only at h
  split at h
  · split at h
    · simp_all
    · cases h
  · obtain ⟨a, -, rfl⟩ := mem_map.mp h
    exact ⟨rfl, rfl⟩

theorem binds_of_walk (h : walk file spec = some bindings)
    (hm : m ∈ reachable spec constraints catalog accounts vendorAvailable
    (bindings.map fun b => (providerSlug b.provider, b.model))) : file.Binds m := by
  obtain ⟨pick, hpick, hexpand⟩ := mem_flatMap.mp hm
  obtain ⟨b, hb, rfl⟩ := mem_map.mp (mem_filter.mp hpick).1
  obtain ⟨hprovider, hmodel⟩ := mem_expand hexpand
  refine ⟨bindings, ?_, b, hb, hprovider.symm, hmodel.symm⟩
  rcases walkKeys_eq_some h with hdefault | hkey
  · exact .inl hdefault
  · exact .inr (.inl hkey)

/-- A models file is honoured exactly if it does not refuse the request, or everything that the catalog offers instead
is what the file would allow anyway. -/
theorem honoursFile_iff (spec : ModelRef) (constraints : Constraints) (file : ModelsFile) (catalog : List ModelEntry)
    (accounts : AccountRegistry) (vendorAvailable : String → Bool) (rank : Ranking) :
    HonoursFile spec constraints file catalog accounts vendorAvailable rank ↔
      (Refuses spec file → ∀ m ∈ reachable spec constraints catalog accounts vendorAvailable
        (ranked spec catalog vendorAvailable rank), file.default = [] ∧ (file.Binds m ∨ Unkeyed spec file)) := by
  unfold HonoursFile resolvePool
  cases hwalk : walk file spec with
  | some bindings =>
    have hfree : ¬ Refuses spec file := by
      intro hrefuses
      rw [walk_eq_none_iff.mpr (.inl hrefuses)] at hwalk
      cases hwalk
    refine iff_of_true ⟨fun members hmembers m hm hbinds => ?_, fun hrefuses => absurd hrefuses hfree⟩
      fun hrefuses => absurd hrefuses hfree
    dsimp only at hmembers
    split at hmembers
    · cases hmembers
    · cases hmembers
      exact absurd (binds_of_walk hwalk hm) hbinds
  | none =>
    dsimp only
    constructor
    · intro h hrefuses m hm
      have hnonempty := isEmpty_eq_false_iff_exists_mem.mpr ⟨m, hm⟩
      simp only [hnonempty, Bool.false_eq_true, ↓reduceIte] at h
      refine ⟨by_contra fun hdefault => ?_, by_contra fun hneither => ?_⟩
      · obtain ⟨e, he⟩ := h.2 hrefuses hdefault
        cases he
      · obtain ⟨hbinds, hunkeyed⟩ := not_or.mp hneither
        exact hunkeyed (h.1 _ rfl m hm hbinds).1
    · intro h
      refine ⟨fun members hmembers m hm hbinds => ?_, fun hrefuses hdefault => ?_⟩
      · split at hmembers
        · cases hmembers
        · cases hmembers
          rcases walk_eq_none_iff.mp hwalk with hrefuses | hfree
          · obtain ⟨hdefault, hbound⟩ := h hrefuses m hm
            exact ⟨hbound.resolve_left hbinds, hdefault⟩
          · exact hfree
      · refine ⟨_, if_pos ?_⟩
        rw [List.isEmpty_iff, List.eq_nil_iff_forall_not_mem]
        exact fun m hm => hdefault (h hrefuses m hm).1

def strictFile : ModelsFile :=
  ⟨true, [⟨.known .anthropic, "opus"⟩], [], []⟩

/-- A strict file without the exact key is answered from the catalog, past its own default. -/
theorem strict_refusal_bypassed : ∃ spec constraints catalog accounts vendorAvailable rank,
    resolvePool spec constraints strictFile catalog accounts vendorAvailable rank = .ok [⟨"openai", "gpt", none⟩] ∧
    ¬ HonoursFile spec constraints strictFile catalog accounts vendorAvailable rank := by
  have hok : resolvePool ⟨some .coding, some .frontier, none⟩ ⟨false, none⟩ strictFile [⟨"openai", "gpt", true, false, [], []⟩]
      ⟨[], fun _ => true⟩ (fun _ => true) ⟨fun _ _ => true, fun _ _ _ => true, fun _ _ _ => true⟩ =
        .ok [⟨"openai", "gpt", none⟩] := by decide +kernel
  refine ⟨_, _, _, _, _, _, hok, fun h => ?_⟩
  obtain ⟨e, he⟩ := h.2 ⟨rfl, _, _, rfl, rfl, rfl⟩ (by decide)
  cases hok.symm.trans he

end Praxec.Models
