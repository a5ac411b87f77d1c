import Praxec.Config.Sources

namespace Praxec.Config

open Json List Option Value Fields

def grantNames (config : Value) : List String :=
  (((config.get "grant_connections").bind Value.asArray).getD []).filterMap Value.asStr

def grantedStaged (config : Value) (id : String) : Option Value :=
  if (grantNames config).contains id then config.entry "stagedConnections" id else none

variable {obj staged fields : Fields} {config config' : Value}

/-- `config'` is `config` with metadata under `praxec`, apart from the ungranted connections. -/
structure Annotated (config config' : Value) : Prop where
  isObject : config'.isObject = config.isObject
  other : ∀ key, key ≠ "praxec" → config'.get key = config.get key
  opens : config'.Opens "praxec" ↔ config.Opens "praxec"
  kept : config'.entry "praxec" "_ungrantedConnections" = config.entry "praxec" "_ungrantedConnections"

theorem Annotated.refl (config : Value) : Annotated config config :=
  ⟨rfl, fun _ _ => rfl, Iff.rfl, rfl⟩

theorem Annotated.trans (hab : Annotated a b) (hbc : Annotated b c) : Annotated a c where
  isObject := hbc.isObject.trans hab.isObject
  other key h := (hbc.other key h).trans (hab.other key h)
  opens := hbc.opens.trans hab.opens
  kept := hbc.kept.trans hab.kept

theorem stampPraxec_isObject :
    (stampPraxec config key value).isObject = config.isObject :=
  isObject_mapObject _ _

theorem stampPraxec_get_of_ne (h : other ≠ "praxec") :
    (stampPraxec config key value).get other = config.get other := by
  cases config with
  | object obj =>
    dsimp only [stampPraxec, Value.mapObject, get_object]
    split
    · exact get_insert_of_ne _ _ h
    · exact get_insert_of_ne _ _ h
    · rfl
  | _ => rfl

theorem stampPraxec_get (h : (Value.object obj).Opens "praxec") (key : String) (value : Value) :
    ∃ praxec : Fields, (stampPraxec (.object obj) key value).get "praxec" = some (.object praxec) ∧
      ∀ other, praxec.get other = if other = key then some value else (Value.object obj).entry "praxec" other := by
  unfold stampPraxec Value.entry
  dsimp only [Value.mapObject, get_object]
  cases hpraxec : Fields.get obj "praxec" with
  | none =>
    refine ⟨[(key, value)], get_insert_self _ _ _, fun other => ?_⟩
    rw [get_cons]
    rfl
  | some w =>
    obtain ⟨praxec, rfl⟩ := (isObject_iff w).mp (h w hpraxec)
    exact ⟨Fields.insert praxec key value, get_insert_self _ _ _, fun other => get_insert praxec key other value⟩

theorem stampPraxec_of_closed (h : ¬ config.Opens "praxec") :
    stampPraxec config key value = config := by
  cases config with
  | object obj =>
    dsimp only [stampPraxec, Value.mapObject]
    split
    · rename_i hnone
      exact absurd (fun w hw => by rw [get_object, hnone] at hw; cases hw) h
    · rename_i praxec hsome
      refine absurd (fun w hw => ?_) h
      rw [get_object, hsome] at hw
      cases hw
      rfl
    · rfl
  | _ => rfl

theorem annotated_stampPraxec {key : String} (hkey : key ≠ "_ungrantedConnections") :
    Annotated config (stampPraxec config key value) := by
  by_cases hopen : config.Opens "praxec"
  · cases config with
    | object obj =>
      obtain ⟨praxec, hget, hentries⟩ := stampPraxec_get hopen key value
      refine ⟨stampPraxec_isObject, fun other h => stampPraxec_get_of_ne h,
        ⟨fun _ => hopen, fun _ w hw => ?_⟩, ?_⟩
      · rw [hget] at hw
        cases hw
        rfl
      · have hold := hentries "_ungrantedConnections"
        rw [if_neg (Ne.symm hkey)] at hold
        rw [← hold, Value.entry, hget]
        rfl
    | _ => exact .refl _
  · rw [stampPraxec_of_closed hopen]
    exact .refl config

theorem annotated_ite [Decidable p] (h : Annotated config config') :
    Annotated config (if p then config else config') := by
  split
  · exact .refl config
  · exact h

theorem annotated_stampWritableRepos (config : Value) (roots : List (String × Bool × Option String)) :
    Annotated config (stampWritableRepos config roots) :=
  annotated_ite (annotated_stampPraxec (by decide))

theorem annotated_stampRepoPriority (config : Value) (priorities : List (String × Int)) :
    Annotated config (stampRepoPriority config priorities) :=
  annotated_ite (annotated_stampPraxec (by decide))

theorem annotated_stampPackProvenance (config : Value) (provenance : List Value) :
    Annotated config (stampPackProvenance config provenance) :=
  annotated_ite (annotated_stampPraxec (by decide))

theorem annotated_stampPackAffinities (config : Value)
    (affinities : List (String × List (String × AffinityRequirement))) :
    Annotated config (stampPackAffinities config affinities) :=
  annotated_ite (annotated_stampPraxec (by decide))

def ungrantedEntry (config : Value) (key : String) : Option Value :=
  (config.entry "praxec" "_ungrantedConnections").bind (·.get key)

theorem isSome_get_foldl_ungranted (entries : List UngrantedConnection) (start : Fields) (key : String) :
    ((entries.foldl (fun map u => Fields.insert map u.key u.toValue) start).get key).isSome ↔
      (start.get key).isSome ∨ key ∈ entries.map UngrantedConnection.key := by
  induction entries generalizing start with
  | nil => simp
  | cons u rest ih =>
    rw [List.foldl_cons, ih, Fields.get_insert, List.map_cons]
    by_cases h : key = u.key <;> simp [h]

theorem ungrantedEntry_stamp (hopen : (Value.object obj).Opens "praxec") (h : entries ≠ []) {key : String} :
    (ungrantedEntry (stampUngrantedConnections (.object obj) entries) key).isSome ↔
    key ∈ entries.map UngrantedConnection.key := by
  unfold stampUngrantedConnections
  rw [if_neg h]
  obtain ⟨praxec, hget, hentries⟩ := stampPraxec_get hopen "_ungrantedConnections"
    (.object (entries.foldl (fun map u => Fields.insert map u.key u.toValue) []))
  have hlisted := hentries "_ungrantedConnections"
  rw [if_pos rfl] at hlisted
  unfold ungrantedEntry Value.entry
  rw [hget, bind_some, get_object, hlisted, bind_some, get_object, isSome_get_foldl_ungranted]
  simp

theorem stampUngranted_get_of_ne (h : key ≠ "praxec") :
    (stampUngrantedConnections config entries).get key = config.get key := by
  unfold stampUngrantedConnections
  split
  · rfl
  · exact stampPraxec_get_of_ne h

variable {body : Value}

section

variable {m : Machine} {grants names : List String}

def chosen (grants : List String) (staged : Fields) (id : String) : Option Value :=
  if grants.contains id then staged.get id else none

/-- The granted ones of `staged` have become live in `obj'`, each under a name that was free in
`obj`, and the others are listed. -/
structure Promotes (grants : List String) (staged : Fields) (acc acc' : Fields × List UngrantedConnection) : Prop where
  other : ∀ key, key ≠ "connections" → acc'.1.get key = acc.1.get key
  live : ∀ id, (Value.object acc'.1).entry "connections" id =
    (chosen grants staged id).or ((Value.object acc.1).entry "connections" id)
  fresh : ∀ id v, chosen grants staged id = some v →
    (Value.object acc.1).entry "connections" id = none ∧ (Value.object acc.1).Opens "connections"
  waiting : ∀ key, key ∈ acc'.2.map UngrantedConnection.key ↔
    key ∈ acc.2.map UngrantedConnection.key ∨ ((staged.get key).isSome = true ∧ grants.contains key = false)

theorem promotes_nil : Promotes grants [] acc acc where
  other _ _ := rfl
  live id := by simp [chosen]
  fresh id v h := by simp [chosen] at h
  waiting key := by simp

variable {acc acc' : Fields × List UngrantedConnection}

theorem promoteStaged_cases (h : promoteStaged m grants acc (name, body) = .ok acc') :
    (grants.contains name ∧ acc'.2 = acc.2 ∧ (Value.object acc.1).Opens "connections" ∧
    (Value.object acc.1).entry "connections" name = none ∧
    (∀ key, key ≠ "connections" → acc'.1.get key = acc.1.get key) ∧
    ∀ id, (Value.object acc'.1).entry "connections" id =
    if id = name then some body else (Value.object acc.1).entry "connections" id) ∨
    (grants.contains name = false ∧ acc'.1 = acc.1 ∧ ∃ u, acc'.2 = acc.2 ++ [u] ∧ u.key = name) := by
  unfold promoteStaged at h
  dsimp only at h
  split at h
  · rename_i hgranted
    split at h
    · cases h
    · split at h
      · rename_i live hlive
        split at h
        · cases h
        · rename_i hfree
          cases h
          have hentry (id : String) : (Value.object acc.1).entry "connections" id = Fields.get live id := by
            rw [entry_object]
            cases hblock : acc.1.get "connections" with
            | none =>
              rw [hblock] at hlive
              cases hlive
              rfl
            | some w =>
              rw [hblock] at hlive
              cases hlive
              rfl
          refine .inl ⟨hgranted, rfl, fun w hw => ?_, ?_, fun key hkey => get_insert_of_ne _ _ hkey, fun id => ?_⟩
          · have hw : acc.1.get "connections" = some w := hw
            rw [hw, getD_some] at hlive
            rw [hlive]
            rfl
          · rw [hentry]
            simpa [Fields.contains] using hfree
          · rw [entry_insert, if_pos rfl, Fields.get_insert, hentry]
      · cases h
  · rename_i hgranted
    cases h
    exact .inr ⟨by simpa using hgranted, rfl, _, rfl, rfl⟩

theorem promotes_cons (hname : rest.get name = none) (h : promoteStaged m grants acc (name, body) = .ok mid)
    (hrest : Promotes grants rest mid acc') : Promotes grants ((name, body) :: rest) acc acc' := by
  have hchosen (id : String) : chosen grants ((name, body) :: rest) id =
      if id = name then (if grants.contains name then some body else none) else chosen grants rest id := by
    unfold chosen
    rw [get_cons]
    by_cases hid : id = name
    · simp [hid]
    · simp [hid]
  have hnone : chosen grants rest name = none := by
    unfold chosen
    rw [hname]
    split <;> rfl
  rcases promoteStaged_cases h with ⟨hgranted, hlisted, hopen, hfree, hother, hlive⟩ | ⟨hgranted, hsame, u, hlisted, hu⟩
  · refine ⟨fun key hkey => (hrest.other key hkey).trans (hother key hkey), fun id => ?_, fun id v hv => ?_, fun key => ?_⟩
    · rw [hrest.live, hlive, hchosen]
      by_cases hid : id = name
      · simp [hid, hnone, contains_iff_mem.mp hgranted]
      · simp [hid]
    · rw [hchosen] at hv
      split at hv
      · rename_i hid
        exact hid ▸ ⟨hfree, hopen⟩
      · rename_i hid
        have hmid := (hrest.fresh id v hv).1
        rw [hlive, if_neg hid] at hmid
        exact ⟨hmid, hopen⟩
    · rw [hrest.waiting, hlisted, get_cons]
      by_cases hkey : key = name
      · subst hkey
        simp [hname, contains_iff_mem.mp hgranted]
      · simp [hkey]
  · refine ⟨fun key hkey => hsame ▸ hrest.other key hkey, fun id => ?_, fun id v hv => ?_, fun key => ?_⟩
    · rw [hrest.live, hsame, hchosen]
      by_cases hid : id = name
      · subst hid
        rw [hnone, if_pos rfl, hgranted]
        rfl
      · rw [if_neg hid]
    · rw [hchosen, hgranted] at hv
      split at hv
      · cases hv
      · exact hsame ▸ hrest.fresh id v hv
    · rw [hrest.waiting, hlisted, get_cons]
      by_cases hkey : key = name
      · subst hkey
        have hfree : key ∉ grants := by simpa using hgranted
        simp [hu, hfree]
      · simp [hu, hkey]

theorem promotes_run (hd : staged.Distinct)
    (h : staged.foldlM (promoteStaged m grants) acc = .ok acc') : Promotes grants staged acc acc' := by
  induction staged generalizing acc with
  | nil =>
    cases h
    exact promotes_nil
  | cons entry rest ih =>
    obtain ⟨hname, hrest⟩ := nodup_cons.mp hd
    obtain ⟨mid, hmid, h⟩ := bind_ok h
    exact promotes_cons (get_eq_none_iff.mpr hname) hmid (ih hrest h)

structure Promoted (config config' : Value) (listed : List UngrantedConnection) : Prop where
  isObject : config'.isObject = config.isObject
  other : ∀ key, key ∉ ["connections", "stagedConnections", "grant_connections"] → config'.get key = config.get key
  live : ∀ id, config'.entry "connections" id = (grantedStaged config id).or (config.entry "connections" id)
  fresh : ∀ id v, grantedStaged config id = some v →
    config.entry "connections" id = none ∧ config.Opens "connections"
  waiting : ∀ key, key ∈ listed.map UngrantedConnection.key ↔
    (config.entry "stagedConnections" key).isSome = true ∧ grantedStaged config key = none

theorem promoted_of_none (hget : ∀ key, key ∉ ["stagedConnections", "grant_connections"] →
      obj.get key = fields.get key) (hnone : ∀ id, (Value.object fields).entry "stagedConnections" id = none) :
    Promoted (.object fields) (.object obj) [] := by
  have hstaged (id : String) : grantedStaged (.object fields) id = none := by
    unfold grantedStaged
    rw [hnone]
    split <;> rfl
  refine ⟨rfl, fun key hkey => hget key fun h => hkey (.tail _ h), fun id => ?_, fun id v h => ?_, fun key => ?_⟩
  · rw [hstaged, none_or, entry_object, entry_object, hget "connections" (by decide)]
  · rw [hstaged] at h
    cases h
  · simp [hnone]

theorem grantNames_of_stagedGrants
    (h : stagedGrants (fields.get "grant_connections") = .ok names) : grantNames (.object fields) = names := by
  unfold grantNames
  unfold stagedGrants at h
  split at h <;> cases h <;> simp_all [Value.asArray]

theorem applyStaged_promoted (hk : ∀ staged, config.get "stagedConnections" = some staged → staged.Distinct)
    (h : applyStagedConnectionGrants m config = .ok (config', listed)) : Promoted config config' listed := by
  cases config with
  | object fields =>
    have hget (key : String) (hkey : key ∉ ["stagedConnections", "grant_connections"]) :
        Fields.get ((Fields.remove fields "stagedConnections").remove "grant_connections") key = Fields.get fields key := by
      simp only [mem_cons, not_mem_nil, or_false, not_or] at hkey
      rw [Fields.get_remove, if_neg hkey.2, Fields.get_remove, if_neg hkey.1]
    unfold applyStagedConnectionGrants at h
    dsimp only at h
    split at h
    · rename_i staged hstaged
      obtain ⟨names, hnames, h⟩ := bind_ok h
      obtain ⟨_, -, h⟩ := bind_ok h
      obtain ⟨promoted, hrun, h⟩ := bind_ok h
      cases h
      have hp := promotes_run (hk _ hstaged staged rfl) hrun
      have hentry (id : String) : (Value.object fields).entry "stagedConnections" id = Fields.get staged id := by
        rw [entry_object, hstaged]
        rfl
      have hchosen (id : String) : grantedStaged (.object fields) id = chosen names staged id := by
        unfold grantedStaged chosen
        rw [grantNames_of_stagedGrants hnames, hentry]
      have hconnections := hget "connections" (by decide)
      refine ⟨rfl, fun key hkey => ?_, fun id => ?_, fun id v hv => ?_, fun key => ?_⟩
      · simp only [mem_cons, not_mem_nil, or_false, not_or] at hkey
        exact (hp.other key hkey.1).trans (hget key (by simp [hkey]))
      · rw [hp.live, hchosen, entry_object, hconnections]
        rfl
      · obtain ⟨hfree, hopen⟩ := hp.fresh id v (hchosen id ▸ hv)
        rw [entry_object, hconnections] at hfree
        exact ⟨hfree, fun w hw => hopen w (hconnections.trans hw)⟩
      · rw [hp.waiting, hentry, hchosen]
        unfold chosen
        cases hg : names.contains key <;> simp [isSome_iff_ne_none]
    · rename_i hstaged
      split at h
      · cases h
      cases h
      exact promoted_of_none hget fun id => by rw [entry_object, hstaged]; rfl
    · rename_i hstaged
      split at h
      · cases h
      cases h
      exact promoted_of_none hget fun id => by rw [entry_object, hstaged]; rfl
    · cases h
  | _ =>
    cases h
    refine ⟨rfl, fun _ _ => rfl, fun id => ?_, fun id v hv => ?_, fun key => ?_⟩
    all_goals simp_all [grantedStaged, Value.entry, Value.get, Value.asObject]

end

section

instance (v : Value) (block : String) : Decidable (v.Opens block) :=
  decidable_of_iff ((v.get block).all Value.isObject = true) (by
    unfold Value.Opens
    cases v.get block <;> simp)

variable {m : Machine} {host : Value} {loaded : List Loaded}

/-- What the layers put under an id: the loaded repos in order and the host on top, unless the host
blocks the whole block. -/
def layered (host : Value) (loaded : List Loaded) (block id : String) : Option Value :=
  if host.Opens block then overlay (overlays (loaded.map fun r => r.contribution block id)) (host.entry block id) else none

def Waiting (host : Value) (loaded : List Loaded) (key : String) : Prop :=
  ((∃ r ∈ loaded, (r.registry.entry "connections" key).isSome = true ∧ r.grants key = false) ∧
    key ∉ hostDefinitionIds host) ∨
  ((host.entry "stagedConnections" key).isSome = true ∧ grantedStaged host key = none)

structure Merged (host : Value) (loaded : List Loaded) (merged : Value) : Prop where
  entry : ∀ block ∈ prefixableBlocks, ∀ id, merged.entry block id =
    (if block = "connections" then grantedStaged host id else none).or (layered host loaded block id)
  fresh : ∀ id v, grantedStaged host id = some v → layered host loaded "connections" id = none
  listed : ∀ key, host.Opens "praxec" → (∃ other, Waiting host loaded other) →
    ((ungrantedEntry merged key).isSome = true ↔ Waiting host loaded key)
  unlisted : ∀ key, ¬ host.Opens "praxec" → ungrantedEntry merged key = none
  untouched : ∀ key, (∀ other, ¬ Waiting host loaded other) → ungrantedEntry merged key = ungrantedEntry host key

structure Base (host : Value) (loaded : List Loaded) (config : Value) : Prop where
  isObject : config.isObject = host.isObject
  entry : ∀ block ∈ prefixableBlocks, ∀ id, config.entry block id = layered host loaded block id
  staged : config.get "stagedConnections" = host.get "stagedConnections"
  grants : config.get "grant_connections" = host.get "grant_connections"
  opens : config.Opens "praxec" ↔ host.Opens "praxec"
  kept : config.entry "praxec" "_ungrantedConnections" = host.entry "praxec" "_ungrantedConnections"

variable {block id : String}

theorem ne_praxec_of_prefixable (h : block ∈ prefixableBlocks) : block ≠ "praxec" := by
  rintro rfl
  exact absurd h (by decide)

theorem Base.annotated (hb : Base host loaded config) (ha : Annotated config config') : Base host loaded config' where
  isObject := ha.isObject.trans hb.isObject
  entry block hblock id := by
    rw [← hb.entry block hblock id, Value.entry, ha.other block (ne_praxec_of_prefixable hblock)]
    rfl
  staged := (ha.other _ (by decide)).trans hb.staged
  grants := (ha.other _ (by decide)).trans hb.grants
  opens := ha.opens.trans hb.opens
  kept := ha.kept.trans hb.kept

theorem isObject_of_entry {v : Value} (h : (v.entry block id).isSome) : v.isObject := by
  cases hv : v.isObject with
  | true => rfl
  | false =>
    rw [Value.entry, get_of_not_isObject hv] at h
    cases h

theorem Base.finish {listed listed' : List UngrantedConnection} (hb : Base host loaded config)
    (hk : host.Keyed) (hobj : loaded ≠ [] → host.isObject)
    (hlisted : ∀ key, key ∈ listed.map UngrantedConnection.key ↔
      (∃ r ∈ loaded, (r.registry.entry "connections" key).isSome ∧ r.grants key = false) ∧
        key ∉ hostDefinitionIds host) (h : applyStagedConnectionGrants m config = .ok (promoted, listed')) :
    Merged host loaded (stampUngrantedConnections promoted (listed ++ listed')) := by
  have hp := applyStaged_promoted (fun staged hs => hk.blocks "stagedConnections" staged (hb.staged ▸ hs)) h
  have hgranted (id : String) : grantedStaged config id = grantedStaged host id := by
    unfold grantedStaged grantNames Value.entry
    rw [hb.grants, hb.staged]
  have hwaiting (key : String) : key ∈ (listed ++ listed').map UngrantedConnection.key ↔ Waiting host loaded key := by
    rw [map_append, mem_append, hlisted, hp.waiting, hgranted, Value.entry, hb.staged]
    rfl
  have hnil : listed ++ listed' = [] ↔ ∀ other, ¬ Waiting host loaded other := by
    rw [← map_eq_nil_iff (f := UngrantedConnection.key), eq_nil_iff_forall_not_mem]
    exact forall_congr' fun key => not_congr (hwaiting key)
  have hpraxec : promoted.get "praxec" = config.get "praxec" := hp.other "praxec" (by decide)
  have hopens : promoted.Opens "praxec" ↔ host.Opens "praxec" := by
    rw [← hb.opens]
    unfold Value.Opens
    rw [hpraxec]
  have hkept (key : String) : ungrantedEntry promoted key = ungrantedEntry host key := by
    unfold ungrantedEntry
    rw [← hb.kept, Value.entry, hpraxec]
    rfl
  refine ⟨fun block hblock id => ?_, fun id v hv => ?_, fun key hopen hsome => ?_, fun key hclosed => ?_, fun key hnone => ?_⟩
  · have hget : (stampUngrantedConnections promoted (listed ++ listed')).entry block id = promoted.entry block id := by
      rw [Value.entry, stampUngranted_get_of_ne (ne_praxec_of_prefixable hblock)]
      rfl
    rw [hget, ← hb.entry block hblock id]
    split
    · rename_i hconn
      rw [hconn, hp.live, hgranted]
    · rename_i hconn
      have hother : block ∉ ["connections", "stagedConnections", "grant_connections"] := by
        simp only [mem_cons, not_mem_nil, or_false, not_or]
        exact ⟨hconn, by rintro rfl; exact absurd hblock (by decide), by rintro rfl; exact absurd hblock (by decide)⟩
      rw [Value.entry, hp.other block hother]
      rfl
  · rw [← hb.entry "connections" (by decide)]
    exact (hp.fresh id v ((hgranted id).trans hv)).1
  · have hobject : promoted.isObject := by
      rw [hp.isObject, hb.isObject]
      obtain ⟨other, ⟨⟨r, hr, -⟩, -⟩ | ⟨hstaged, -⟩⟩ := hsome
      · exact hobj (ne_nil_of_mem hr)
      · exact isObject_of_entry hstaged
    obtain ⟨obj, rfl⟩ := (isObject_iff promoted).mp hobject
    have hne : listed ++ listed' ≠ [] := fun hempty => by
      obtain ⟨other, hother⟩ := hsome
      exact hnil.mp hempty other hother
    rw [ungrantedEntry_stamp (hopens.mpr hopen) hne, hwaiting]
  · have hclosed' : ¬ promoted.Opens "praxec" := fun hopen => hclosed (hopens.mp hopen)
    have hsame : stampUngrantedConnections promoted (listed ++ listed') = promoted := by
      unfold stampUngrantedConnections
      split
      · rfl
      · exact stampPraxec_of_closed hclosed'
    rw [hsame, ungrantedEntry]
    cases hentry : promoted.entry "praxec" "_ungrantedConnections" with
    | none => rfl
    | some w => exact absurd (opens_of_entry hentry) hclosed'
  · rw [hnil.mpr hnone]
    exact hkept key

structure TakenFrom (host body : Value) : Prop where
  isObject : body.isObject = host.isObject
  get : ∀ key, key ∉ ["repos", "overrides"] → body.get key = host.get key
  keyed : host.Keyed → body.Keyed

theorem taken_of_take (h : takeReposAndOverrides home host = .ok declared) : TakenFrom host declared.body := by
  obtain ⟨repos, -, h⟩ := bind_ok h
  obtain ⟨overrides, -, h⟩ := bind_ok h
  cases h
  have hget (key : String) : ((host.remove "repos").remove "overrides").get key =
      if key = "overrides" then none else if key = "repos" then none else host.get key := by
    rw [Value.get_remove, Value.get_remove]
  refine ⟨(isObject_mapObject _ _).trans (isObject_mapObject _ _), fun key hkey => ?_, fun hk => ⟨?_, ?_⟩⟩
  · simp only [mem_cons, not_mem_nil, or_false, not_or] at hkey
    rw [hget, if_neg hkey.2, if_neg hkey.1]
  · exact (hk.distinct.remove _).remove _
  · intro block entries hblock
    rw [hget] at hblock
    split_ifs at hblock
    exact hk.blocks block entries hblock

theorem isObject_of_repos
    (h : takeReposAndOverrides home host = .ok declared) (hrepos : declared.repos ≠ []) : host.isObject := by
  cases hobj : host.isObject with
  | true => rfl
  | false =>
    unfold takeReposAndOverrides at h
    rw [get_of_not_isObject hobj, get_of_not_isObject hobj] at h
    cases h
    exact absurd rfl hrepos

theorem not_taken_of_prefixable (h : block ∈ prefixableBlocks) : block ∉ ["repos", "overrides"] := by
  intro hmem
  simp only [mem_cons, not_mem_nil, or_false] at hmem
  rcases hmem with rfl | rfl <;> exact absurd h (by decide)

section

variable {body : Value} (ht : TakenFrom host body)
include ht

theorem TakenFrom.entry (h : block ∉ ["repos", "overrides"]) (id : String) :
    body.entry block id = host.entry block id := by
  rw [Value.entry, ht.get block h]
  rfl

theorem TakenFrom.opens (h : block ∉ ["repos", "overrides"]) : body.Opens block ↔ host.Opens block := by
  unfold Value.Opens
  rw [ht.get block h]

theorem TakenFrom.hostDefinitionIds : hostDefinitionIds body = Config.hostDefinitionIds host := by
  unfold Config.hostDefinitionIds blockKeys
  simp only [flatMap_cons, flatMap_nil]
  rw [ht.get "workflows" (by decide), ht.get "skills" (by decide), ht.get "scripts" (by decide),
    ht.get "connections" (by decide)]

theorem TakenFrom.base : Base host [] body where
  isObject := ht.isObject
  entry block hblock id := by
    rw [ht.entry (not_taken_of_prefixable hblock), layered]
    split
    · exact (none_overlay _).symm
    · rename_i hclosed
      cases hentry : host.entry block id with
      | none => rfl
      | some w => exact absurd (opens_of_entry hentry) hclosed
  staged := ht.get _ (by decide)
  grants := ht.get _ (by decide)
  opens := ht.opens (by decide)
  kept := ht.entry (by decide) _

theorem TakenFrom.overlay (hk : host.Keyed) (hobj : host.isObject) (hg : Gathered loaded st) :
    Base host loaded (st.aggregate.deepMerge body) := by
  have hbody : body.isObject := ht.isObject.trans hobj
  have hkeyed := ht.keyed hk
  -- the repos never reach a key outside their blocks
  have hother {key : String} (hkey : key ∉ prefixableBlocks) (htaken : key ∉ ["repos", "overrides"]) :
      (st.aggregate.deepMerge body).get key = host.get key := by
    have hnone : st.aggregate.get key = none := by
      cases hget : st.aggregate.get key with
      | none => rfl
      | some w => exact absurd (hg.collected.prefixable key w hget) hkey
    rw [get_deepMerge hg.collected.isObject hbody hkeyed.distinct, hnone, none_overlay, ht.get key htaken]
  have hpraxec := @hother "praxec" (by decide) (by decide)
  refine ⟨(isObject_deepMerge hbody).trans hobj.symm, fun block hblock id => ?_, hother (by decide) (by decide),
    hother (by decide) (by decide), ?_, ?_⟩
  · have htaken := not_taken_of_prefixable hblock
    have hmerge := entry_deepMerge hg.collected.toRegistry hkeyed hbody block id
    unfold layered
    split
    · rename_i hopen
      rw [hmerge.1 ((ht.opens htaken).mpr hopen), hg.entry, ht.entry htaken]
    · rename_i hclosed
      exact hmerge.2 fun hopen => hclosed ((ht.opens htaken).mp hopen)
  · unfold Value.Opens
    rw [hpraxec]
  · rw [Value.entry, hpraxec]
    rfl

end

theorem hostOnly_merged {merged : Value} (ht : TakenFrom host body) (hk : host.Keyed) (h : mergeHostOnly m body = .ok merged) :
    Merged host [] merged := by
  unfold mergeHostOnly at h
  obtain ⟨_, -, h⟩ := bind_ok h
  obtain ⟨⟨promoted, listed⟩, hpromoted, h⟩ := bind_ok h
  cases h
  refine @Base.finish _ _ _ _ _ [] _ (ht.base.annotated ?_) hk (fun hne => absurd rfl hne) (by simp) hpromoted
  split
  · rename_i root _ _
    have hstamped := annotated_stampWritableRepos body [(root, true, none)]
    split
    · exact hstamped.trans (annotated_stampPraxec (by decide))
    · exact hstamped
  · exact .refl body

theorem overlayHost_merged (ht : TakenFrom host body) (hk : host.Keyed)
    (hobj : host.isObject) (hg : Gathered loaded st) (h : overlayHost m body st = .ok merged) :
    Merged host loaded merged := by
  unfold overlayHost at h
  obtain ⟨_, -, h⟩ := bind_ok h
  obtain ⟨⟨promoted, listed⟩, hpromoted, h⟩ := bind_ok h
  cases h
  have hstamps : Annotated (st.aggregate.deepMerge body) _ :=
    ((annotated_stampWritableRepos _ st.writableRepoRoots).trans (annotated_stampRepoPriority _ st.repoPriorities)).trans
      ((annotated_stampPackProvenance _ st.packProvenance).trans (annotated_stampPackAffinities _ st.packAffinities))
  refine Base.finish ((ht.overlay hk hobj hg).annotated hstamps) hk (fun _ => hobj) (fun key => ?_) hpromoted
  rw [← hg.ungranted, ht.hostDefinitionIds, List.mem_map, List.mem_map]
  constructor
  · rintro ⟨u, hu, rfl⟩
    obtain ⟨hmem, hfree⟩ := mem_filter.mp hu
    exact ⟨⟨u, hmem, rfl⟩, by simpa using hfree⟩
  · rintro ⟨⟨u, hmem, rfl⟩, hfree⟩
    exact ⟨u, mem_filter.mpr ⟨hmem, by simpa using hfree⟩, rfl⟩

variable {merged : Value}

theorem mergeDeclaredRepos_merged (hk : host.Keyed) (htake : takeReposAndOverrides m.home host = .ok declared)
    (h : mergeDeclaredRepos m hostDir mode host = .ok (merged, notices)) :
    Merged host (loadedRepos m hostDir declared.repos) merged ∧
    ∀ id ∈ hostDefinitionIds host, (∃ r ∈ loadedRepos m hostDir declared.repos, id ∈ aggregateIds r.registry) →
      id ∈ declared.overrides := by
  have ht := taken_of_take htake
  obtain ⟨declared', htake', h⟩ := bind_ok h
  cases htake.symm.trans htake'
  split at h
  · rename_i hrepos
    obtain ⟨_, hmerged, h⟩ := bind_ok h
    cases h
    rw [hrepos]
    exact ⟨hostOnly_merged ht hk hmerged, fun id _ ⟨r, hr, _⟩ => absurd hr not_mem_nil⟩
  · rename_i hrepos
    obtain ⟨st, hst, h⟩ := bind_ok h
    obtain ⟨_, -, h⟩ := bind_ok h
    obtain ⟨_, hanonymous, h⟩ := bind_ok h
    obtain ⟨stale, -, h⟩ := bind_ok h
    obtain ⟨_, hmerged, h⟩ := bind_ok h
    cases h
    have hg : Gathered (loadedRepos m hostDir declared.repos) st := by simpa using gathered_start.run hst
    refine ⟨overlayHost_merged ht hk (isObject_of_repos htake hrepos) hg hmerged, fun id hid hprovided => ?_⟩
    have hmem : id ∈ (Config.hostDefinitionIds declared.body).filter st.repoProvidedIds.contains := by
      rw [ht.hostDefinitionIds, mem_filter]
      exact ⟨hid, by simpa using (hg.ids id).mpr hprovided⟩
    have hcheck := (forM_ok_iff _ _).mp hanonymous id hmem
    split at hcheck
    · rename_i hlisted
      exact contains_iff_mem.mp hlisted
    · cases hcheck

end

end Praxec.Config
