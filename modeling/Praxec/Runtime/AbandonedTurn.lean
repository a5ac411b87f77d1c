import Praxec.Runtime.Slots

namespace Praxec

open Json Effect List Option Gateway

section

mutual
def pathsRead : Value → List String
  | .string s => if Text.startsWith s "$." || s = "$" then [s] else []
  | .object [(op, args)] =>
      if op = "set" then []
      else if op = "add" || op = "subtract" || op = "multiply" || op = "divide" then match args with
        | .array xs => xs.filterMap Value.asStr
        | _ => []
      else if op = "concat" then match args with
        | .array parts => pathsReadList parts
        | _ => []
      else if op = "pick" then match args with
        | .object decl => pathsReadFields decl
        | _ => []
      else []
  | _ => []

def pathsReadList : List Value → List String
  | [] => []
  | v :: rest => pathsRead v ++ pathsReadList rest

def pathsReadFields : Fields → List String
  | [] => []
  | (k, v) :: rest => (if k = "from" || k = "eq" then pathsRead v else []) ++ pathsReadFields rest
end

def readUpdates (updates : Value) (path : String) : Option Value :=
  if path = "$.output" || path = "$" then some updates
  else (Text.stripStart "$.output.".toList path.toList).bind (resolvePath updates)

def ReadsPresent (updates spec : Value) : Prop :=
  ∃ path ∈ pathsRead spec, (readUpdates updates path).isSome = true

instance (updates spec : Value) : Decidable (ReadsPresent updates spec) :=
  inferInstanceAs (Decidable (∃ path ∈ pathsRead spec, _))

variable {lib : Libraries} {sc : Scopes} {updates : Value}

def Scopes.silent (sc : Scopes) : Scopes :=
  { sc with executorOutput := none }

theorem readInScopes_silent (hsc : sc.executorOutput = some updates)
    (h : readUpdates updates path = none) : readInScopes sc path = readInScopes sc.silent path := by
  unfold readInScopes Scopes.silent
  rw [hsc]
  dsimp only
  unfold readUpdates at h
  rw [bind_some, h, bind_none]

theorem resolveOperands_silent (hsc : sc.executorOutput = some updates)
    (h : ∀ path ∈ xs.filterMap Value.asStr, readUpdates updates path = none) :
    resolveOperands lib sc (.array xs) = resolveOperands lib sc.silent (.array xs) := by
  simp only [resolveOperands, Value.asArray, bind_some]
  induction xs with
  | nil => rfl
  | cons x xs ih =>
    rw [mapM_cons, mapM_cons]
    cases x with
    | string s =>
      rw [ih fun path hp => h path (.tail _ hp)]
      dsimp only
      rw [readInScopes_silent hsc (h s (.head _))]
    | _ => rw [ih h]

theorem resolveOperator_silent_array (hsc : sc.executorOutput = some updates)
    (hlist : (∀ path ∈ pathsReadList parts, readUpdates updates path = none) →
    resolveList lib sc parts = resolveList lib sc.silent parts)
    (h : ∀ path ∈ pathsRead (.object [(op, .array parts)]), readUpdates updates path = none) :
    resolveValue lib sc (.object [(op, .array parts)]) = resolveValue lib sc.silent (.object [(op, .array parts)]) := by
  simp only [pathsRead] at h
  simp only [resolveValue]
  split
  · rfl
  rename_i hset
  rw [if_neg hset] at h
  split
  · rename_i harithmetic
    rw [if_pos harithmetic] at h
    rw [arithmetic, arithmetic, resolveOperands_silent hsc h]
  rename_i harithmetic
  rw [if_neg harithmetic] at h
  split
  · rename_i hconcat
    rw [if_pos hconcat] at h
    rw [hlist h]
  · rfl

theorem resolveOperator_silent_object
    (hfields : (∀ path ∈ pathsReadFields decl, readUpdates updates path = none) → ∀ key, (key = "from" ∨ key = "eq") →
    Fields.get (resolveFields lib sc decl) key = Fields.get (resolveFields lib sc.silent decl) key)
    (h : ∀ path ∈ pathsRead (.object [(op, .object decl)]), readUpdates updates path = none) :
    resolveValue lib sc (.object [(op, .object decl)]) = resolveValue lib sc.silent (.object [(op, .object decl)]) := by
  simp only [pathsRead] at h
  simp only [resolveValue]
  split
  · rfl
  rename_i hset
  rw [if_neg hset] at h
  split
  · rfl
  rename_i harithmetic
  rw [if_neg harithmetic] at h
  split
  · rfl
  rename_i hconcat
  rw [if_neg hconcat] at h
  split
  · rename_i hpick
    rw [if_pos hpick] at h
    rw [pick, pick, hfields h "from" (.inl rfl), hfields h "eq" (.inr rfl)]
  · rfl

mutual
theorem resolveValue_silent (hsc : sc.executorOutput = some updates) : ∀ spec : Value,
    (∀ path ∈ pathsRead spec, readUpdates updates path = none) → resolveValue lib sc spec = resolveValue lib sc.silent spec
  | .string s, h => by
    simp only [resolveValue]
    split
    · rename_i hpath
      rw [readInScopes_silent hsc (h s (by simp only [pathsRead, if_pos hpath, mem_singleton]))]
    · rfl
  | .object [(_, .array parts)], h => resolveOperator_silent_array hsc (resolveList_silent hsc parts) h
  | .object [(_, .object decl)], h => resolveOperator_silent_object (resolveFields_silent hsc decl) h
  | .object [(_, .null)], _ | .object [(_, .bool _)], _ | .object [(_, .number _)], _ | .object [(_, .string _)], _ => by
    simp only [resolveValue]
    rfl
  | .null, _ | .bool _, _ | .number _, _ | .array _, _ | .object [], _ | .object (_ :: _ :: _), _ => by
    simp only [resolveValue]

theorem resolveList_silent (hsc : sc.executorOutput = some updates) : ∀ specs : List Value,
    (∀ path ∈ pathsReadList specs, readUpdates updates path = none) → resolveList lib sc specs = resolveList lib sc.silent specs
  | [], _ => by simp only [resolveList]
  | v :: rest, h => by
    simp only [pathsReadList, forall_mem_append] at h
    simp only [resolveList]
    rw [resolveValue_silent hsc v h.1, resolveList_silent hsc rest h.2]

theorem resolveFields_silent (hsc : sc.executorOutput = some updates) : ∀ fields : Fields,
    (∀ path ∈ pathsReadFields fields, readUpdates updates path = none) → ∀ key, (key = "from" ∨ key = "eq") →
      Fields.get (resolveFields lib sc fields) key = Fields.get (resolveFields lib sc.silent fields) key
  | [], _, _, _ => by simp only [resolveFields]
  | (k, v) :: rest, h, key, hkey => by
    simp only [pathsReadFields, forall_mem_append] at h
    have hrest := resolveFields_silent hsc rest h.2 key hkey
    simp only [resolveFields, Fields.get, lookup_cons]
    split
    · rename_i heq
      obtain rfl : key = k := beq_iff_eq.mp heq
      rw [if_pos (by simpa using hkey)] at h
      rw [resolveValue_silent hsc v h.1]
    · exact hrest
end

end

section

variable {mapping : Option Value} {updates spec : Value}

def Maps.Entry (mapping : Option Value) (key : String) (spec : Value) : Prop :=
  ∃ specs, mapping.bind Value.asObject = some specs ∧ (key, spec) ∈ specs

/-- The snapshots differ in nothing but the version and the slots whose entries read a path present in the updates. -/
structure KeepsUnread (mapping : Option Value) (updates : Value) (base next : WorkflowInstance) : Prop where
  frame : next = { base with context := next.context, version := base.version + 1 }
  kept : ∀ key, (∀ spec, Maps.Entry mapping key spec → ¬ ReadsPresent updates spec) →
    next.context.get key = base.context.get key

/-- Every entry of the fired transition's mapping reads a path present in the updates, or its slot holds what it comes
to without any output. -/
def Fed (lib : Libraries) (updates : Value) (f : Firing) : Prop :=
  ∀ key spec, Maps.Entry (f.definition.get "output") key spec → ReadsPresent updates spec ∨
    f.before.context.get key =
      some (resolveValue lib ⟨f.arguments, f.before.context, f.before.input, none, some f.before.runEnv⟩ spec)

theorem not_readsPresent (h : ¬ ReadsPresent updates spec) :
    ∀ path ∈ pathsRead spec, readUpdates updates path = none := by
  intro path hpath
  by_contra hsome
  exact h ⟨path, hpath, isSome_iff_ne_none.mpr hsome⟩

theorem keepsUnread_iff_fed
    (hmerge : mergeOutput lib ⟨f.arguments, f.before.context, f.before.input, some updates, some f.before.runEnv⟩
    (f.definition.get "output") = .ok context)
    (hdistinct : ∀ specs, (f.definition.get "output").bind Value.asObject = some specs → specs.Distinct) :
    KeepsUnread (f.definition.get "output") updates f.before
    { f.before with context := context, version := f.before.version + 1 } ↔ Fed lib updates f := by
  have hwritten {key : String} {spec : Value} (hentry : Maps.Entry (f.definition.get "output") key spec)
      (hunread : ¬ ReadsPresent updates spec) : context.get key =
        some (resolveValue lib ⟨f.arguments, f.before.context, f.before.input, none, some f.before.runEnv⟩ spec) := by
    obtain ⟨specs, hspecs, hmem⟩ := hentry
    rw [mergeOutput_get_of_written lib _ hmerge hspecs (hdistinct specs hspecs) hmem,
      resolveValue_silent rfl spec (not_readsPresent hunread)]
    rfl
  constructor
  · intro hkeeps key spec hentry
    by_cases hread : ReadsPresent updates spec
    · exact .inl hread
    refine .inr ((hkeeps.kept key fun other hother => ?_).symm.trans (hwritten hentry hread))
    obtain ⟨specs, hspecs, hmem⟩ := hentry
    obtain ⟨specs', hspecs', hmem'⟩ := hother
    cases hspecs.symm.trans hspecs'
    rwa [(hdistinct specs hspecs).value_unique hmem' hmem]
  · refine fun hfed => ⟨rfl, fun key hunread => ?_⟩
    by_cases hkey : key ∈ writtenSlots (f.definition.get "output")
    · unfold writtenSlots at hkey
      split at hkey
      · cases hkey
      · rename_i specs hspecs
        obtain ⟨⟨_, spec⟩, hmem, rfl⟩ := mem_map.mp hkey
        have hentry : Maps.Entry (f.definition.get "output") _ spec := ⟨specs, hspecs, hmem⟩
        rcases hfed _ spec hentry with hread | hholds
        · exact absurd hread (hunread spec hentry)
        · exact (hwritten hentry (hunread spec hentry)).trans hholds.symm
    · exact mergeOutput_get_of_not_written lib _ hmerge hkey

/-- A snapshot that keeps the updates of a failed executor is a frame exactly where the mapping is fed by them. -/
theorem abandoned_turn_frame_iff {definitions : Fields} {m : Gateway}
    (hm : Reachable cfg definitions m) {t : Thread Sig} (ht : t ∈ m.threads) {p : Proc}
    {before after : History} {base next : WorkflowInstance} {v : Nat} {r : Except Err WorkflowInstance}
    (hx : (p, before ++ .op (.storeSave (.slotUpdates base mapping) next v) r :: after) ∈ t.activations)
    (hdistinct : ∀ specs, mapping.bind Value.asObject = some specs → specs.Distinct) :
    ∃ f request err updates, .op (.executeEnd (.declared f) request) (.error err) ∈ before ∧
      err.slotUpdates = some updates ∧ f.before = base ∧ f.definition.get "output" = mapping ∧
      (KeepsUnread mapping updates base next ↔ Fed cfg.lib updates f) := by
  have hcommitted := committed_of_reaches hm t ht _ hx before _ after rfl
  cases hcommitted.2 with
  | @slotUpdates a arguments updates context err hcleared hupdates hfailed hmerge =>
    obtain ⟨request, hmem⟩ := hfailed
    exact ⟨a.firing arguments, request, err, updates, hmem, hupdates, rfl, rfl,
      keepsUnread_iff_fed (f := a.firing arguments) hmerge hdistinct⟩

end

def planMapping : Value :=
  .object [("x", "$.output.x"), ("plan", "$.output.plan")]

def planningDefinition : Value :=
  definitionOf "a" [("a", stateOf [("go", transitionOf "a" "caller" [("executor", .object [("kind", "noop")]),
    ("output", planMapping)])])]

def planTurn (i version : Nat) (correlation : String) (r : Execution) : List GatewayAction :=
  .spawn (.submit ⟨"wf_1", version, "go", .emptyObject, .anonymous, none, none, none⟩) :: answers i 1 ++
    [.answer i (.fresh correlation)] ++ answers i 3 ++ [.answer i (.executed r)]

def planScript (updates : Value) : List GatewayAction :=
  launch 0 "d" "1" ++ planTurn 1 0 "2" (.ok ⟨.object [("x", .nat 1), ("plan", "p")], [], none, none, none⟩) ++
    answers 1 4 ++ planTurn 2 1 "3" (.error ⟨.permanent, "abandoned", some updates⟩) ++ answers 2 2

def keepsPlan (updates plan : Value) : Event Sig → Event Sig → Bool
  | .op (.executeEnd (.declared f) _) (.error err), .op (.storeSave (.slotUpdates base mapping) next _) _ =>
      decide (err.slotUpdates = some updates ∧ f.before = base ∧ f.definition.get "output" = mapping ∧
        mapping = some planMapping ∧ base.context.get "plan" = some (.string "p") ∧ next.context.get "plan" = some plan)
  | _, _ => false

theorem keepsPlan_spec (h : keepsPlan updates plan e e') :
    ∃ f request err base mapping next v r, e = .op (.executeEnd (.declared f) request) (.error err) ∧
    e' = .op (.storeSave (.slotUpdates base mapping) next v) r ∧ err.slotUpdates = some updates ∧ f.before = base ∧
    f.definition.get "output" = mapping ∧ mapping = some planMapping ∧
    base.context.get "plan" = some (.string "p") ∧ next.context.get "plan" = some plan := by
  unfold keepsPlan at h
  split at h
  · exact ⟨_, _, _, _, _, _, _, _, rfl, rfl, of_decide_eq_true h⟩
  · cases h

def failsOnlyWith (updates : Value) : Event Sig → Bool
  | .op (.executeEnd (.declared _) _) (.error err) => decide (err.slotUpdates = some updates)
  | _ => true

def plansWith (updates plan : Value) (m : Gateway) : Bool :=
  m.threads.any fun t => t.activations.any fun x =>
    x.2.all (failsOnlyWith updates) && x.2.any fun e => x.2.any (keepsPlan updates plan e)

theorem plansWith_spec (h : plansWith updates plan m) :
    ∃ t ∈ m.threads, ∃ x ∈ t.activations, (∀ e ∈ x.2, failsOnlyWith updates e) ∧
    ∃ e ∈ x.2, ∃ e' ∈ x.2, keepsPlan updates plan e e' := by
  simpa only [plansWith, List.any_eq_true, Bool.and_eq_true, List.all_eq_true] using h

theorem planMapping_distinct (h : (some planMapping).bind Value.asObject = some specs) : specs.Distinct := by
  cases h
  unfold Fields.Distinct
  decide

theorem planMapping_entry (h : Maps.Entry (some planMapping) key spec) :
    (key = "x" ∧ spec = .string "$.output.x") ∨ (key = "plan" ∧ spec = .string "$.output.plan") := by
  obtain ⟨specs, ⟨⟩, hmem⟩ := h
  rcases mem_cons.mp hmem with h | h
  · exact .inl (Prod.mk.inj h)
  · exact .inr (Prod.mk.inj (mem_singleton.mp h))

theorem abandoned_turn_wipes_plan : ∃ m, Reachable .plain [("d", planningDefinition)] m ∧
    ∃ t ∈ m.threads, ∃ x ∈ t.activations, ∃ f request err updates base mapping next v r,
      .op (.executeEnd (.declared f) request) (.error err) ∈ x.2 ∧ err.slotUpdates = some updates ∧
      .op (.storeSave (.slotUpdates base mapping) next v) r ∈ x.2 ∧ f.before = base ∧
      f.definition.get "output" = mapping ∧ ¬ KeepsUnread mapping updates base next := by
  obtain ⟨m, hm, h⟩ := reachable_of_script .plain [("d", planningDefinition)]
    (planScript (.object [("x", .nat 2)])) (plansWith (.object [("x", .nat 2)]) .null ·)
  obtain ⟨t, ht, x, hx, -, e, he, e', he', hplan⟩ := plansWith_spec h
  obtain ⟨f, request, err, base, mapping, next, v, r, rfl, rfl, hupdates, hbase, hmapping, rfl, hold, hnew⟩ :=
    keepsPlan_spec hplan
  refine ⟨m, hm, t, ht, x, hx, f, request, err, _, base, _, next, v, r, he, hupdates, he', hbase, hmapping, fun hkeeps => ?_⟩
  have hkept := hkeeps.kept "plan" fun spec hentry => ?_
  · rw [hold, hnew] at hkept
    cases hkept
  · rcases planMapping_entry hentry with ⟨heq, -⟩ | ⟨-, rfl⟩
    · exact absurd heq (by decide)
    · decide +kernel

theorem abandoned_turn_keeps_plan : ∃ m, Reachable .plain [("d", planningDefinition)] m ∧
    ∃ t ∈ m.threads, ∃ x ∈ t.activations, ∃ base mapping next v r,
      .op (.storeSave (.slotUpdates base mapping) next v) r ∈ x.2 ∧
      KeepsUnread mapping (.object [("x", .nat 2), ("plan", "q")]) base next := by
  obtain ⟨m, hm, h⟩ := reachable_of_script .plain [("d", planningDefinition)]
    (planScript (.object [("x", .nat 2), ("plan", "q")]))
    (plansWith (.object [("x", .nat 2), ("plan", "q")]) (.string "q") ·)
  obtain ⟨t, ht, x, hx, honly, e, he, e', he', hplan⟩ := plansWith_spec h
  obtain ⟨f, request, err, base, mapping, next, v, r, rfl, rfl, hupdates, hbase, hmapping, rfl, hold, hnew⟩ :=
    keepsPlan_spec hplan
  obtain ⟨before, after, hsplit⟩ := append_of_mem he'
  obtain ⟨p, hist⟩ := x
  cases hsplit
  obtain ⟨f', request', err', updates', hmem, hupdates', hbase', hmapping', hiff⟩ :=
    abandoned_turn_frame_iff hm ht hx fun _ => planMapping_distinct
  obtain rfl : .object [("x", .nat 2), ("plan", "q")] = updates' :=
    Option.some.inj ((of_decide_eq_true (honly _ (mem_append_left _ hmem))).symm.trans hupdates')
  refine ⟨m, hm, t, ht, _, hx, base, _, next, v, r, he', hiff.mpr fun key spec hentry => .inl ?_⟩
  rw [hmapping'] at hentry
  rcases planMapping_entry hentry with ⟨-, rfl⟩ | ⟨-, rfl⟩ <;> decide +kernel

end Praxec
