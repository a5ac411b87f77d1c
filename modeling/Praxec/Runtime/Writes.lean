import Praxec.Runtime.Lineage

namespace Praxec

open Json Effect Value Text

variable {cfg : RuntimeConfig} {h : History}

def engineKeys : List String :=
  [chainHopsTotalKey, chainWallMsTotalKey, continuationReadsKey]

def waitMarkers : List String :=
  ["_subworkflow_wait", "_agent_await"]

/-- Keys that a commit may set on its own account: the caller's summary and the state's counters on a submit, the
chain's ledger and budgets on a hop. -/
def RuntimeKey (f : Firing) (key : String) : Prop :=
  match f.site with
  | .submit => key = "summary" ∨ key = whileIterKey f.before.state ∨
      startsWith key (fireCountStem f.before.state) = true
  | .timeout => False
  | _ => key ∈ engineKeys

/-- The context of `base` with some executor's output mapped into it, but for wait markers that are
dropped. -/
def Maps (lib : Libraries) (base : WorkflowInstance) (mapping : Option Value) (applied : Value) : Prop :=
  ∃ arguments output merged,
    mergeOutput lib ⟨arguments, base.context, base.input, some output, some base.runEnv⟩ mapping = .ok merged ∧
    applied.isObject = merged.isObject ∧
    ∀ key, applied.get key = merged.get key ∨ key ∈ waitMarkers ∧ applied.get key = none

/-- How the context of a committed transition comes about: an output is mapped in and checked, and
the runtime then sets its own keys and drops the slots of a state it leaves. -/
structure Commit.Applied (cfg : RuntimeConfig) (f : Firing) (next : WorkflowInstance) (applied : Value) : Prop where
  maps : Maps cfg.lib f.before (f.definition.get "output") applied
  valid : validateBlackboardWrites cfg.lib f.before.definition (f.definition.get "output") applied = .ok ()
  constrained : f.site = .submit → (f.definition.get "executor").isSome →
    evaluateConstraints cfg.lib f.before.definition f.before.state applied = .ok ()
  kept : ∀ key, ¬ RuntimeKey f key → next.context.get key = applied.get key ∨
    (f.site = .submit ∧ next.state ≠ f.before.state ∧ key ∈ stateLocalSlots f.before.definition f.before.state) ∧
      next.context.get key = none

variable {key : String}

section

variable {lib : Libraries} {base : WorkflowInstance} {mapping : Option Value} {arguments output : Value}

theorem Maps.of_merge (hmerge : mergeOutput lib
    ⟨arguments, base.context, base.input, some output, some base.runEnv⟩ mapping = .ok merged) :
    Maps lib base mapping merged :=
  ⟨arguments, output, merged, hmerge, rfl, fun _ => .inl rfl⟩

theorem get_clearWaitOnAdvance :
    (clearWaitOnAdvance marker context t).get key = context.get key ∨
      key = marker ∧ (clearWaitOnAdvance marker context t).get key = none := by
  unfold clearWaitOnAdvance
  split
  · rw [get_remove]
    by_cases hkey : key = marker
    · exact .inr ⟨hkey, if_pos hkey⟩
    · exact .inl (if_neg hkey)
  · exact .inl rfl

theorem isObject_clearWaitOnAdvance :
    (clearWaitOnAdvance marker context t).isObject = context.isObject := by
  unfold clearWaitOnAdvance
  split
  · exact isObject_mapObject _ _
  · rfl

theorem Maps.resolve (hmerge : mergeOutput lib
    ⟨arguments, base.context, base.input, some output, some base.runEnv⟩ mapping = .ok merged) (t : String) :
    Maps lib base mapping (clearAgentAwaitOnAdvance (clearSubworkflowWaitOnAdvance merged t) t) := by
  refine ⟨arguments, output, merged, hmerge, ?_, fun key => ?_⟩
  · exact (isObject_clearWaitOnAdvance).trans (isObject_clearWaitOnAdvance)
  rcases get_clearWaitOnAdvance with hkept | hdropped
  · rcases get_clearWaitOnAdvance with hinner | ⟨hkey, hnone⟩
    · exact .inl (hkept.trans hinner)
    · exact .inr ⟨by simp [waitMarkers, hkey], hkept.trans hnone⟩
  · exact .inr ⟨by simp [waitMarkers, hdropped.1], hdropped.2⟩

theorem Maps.get_of_not_written (hm : Maps lib base mapping applied) (hkey : key ∉ writtenSlots mapping) :
    applied.get key = base.context.get key ∨ key ∈ waitMarkers ∧ applied.get key = none := by
  obtain ⟨_, _, merged, hmerge, _, hkept⟩ := hm
  have hmerged := mergeOutput_get_of_not_written lib _ hmerge hkey
  exact (hkept key).imp (fun hk => hk.trans hmerged) id

end

variable {arguments : Value} {a : Admitted} {next : WorkflowInstance} {d : Drive} {hop : Hop}

section

variable {key : String}

theorem get_withSummary_of_ne (hkey : key ≠ "summary") : (withSummary summary context).get key = context.get key := by
  cases summary with
  | none => rfl
  | some s => exact get_insert_of_ne _ _ hkey

theorem get_countFire_of_ne (hcount : countFire a context = .ok counted)
    (hkey : key ≠ fireCountKey a.inst.state a.request.transition) : counted.get key = context.get key := by
  unfold countFire at hcount
  split at hcount
  · cases hcount
    rfl
  · dsimp only at hcount
    cases hread : readCounterSlot context (fireCountKey a.inst.state a.request.transition) with
    | error e => rw [hread] at hcount; cases hcount
    | ok n =>
      rw [hread] at hcount
      cases hcount
      exact get_insert_of_ne _ _ hkey

theorem WhileOutcome.get_of_ne
    (hloop : WhileOutcome v definition fromState next rerouted looped) (hkey : key ≠ whileIterKey fromState) :
    looped.context.get key = next.context.get key := by
  cases hloop with
  | undeclared _ => rfl
  | unlooped _ _ | leave _ _ _ => simp [clearWhileIter, get_remove, hkey]
  | again _ _ _ _ _ _ => exact get_insert_of_ne _ _ hkey

theorem get_foldl_remove (names : List String) (context : Value) (key : String) :
    (names.foldl (fun ctx name => ctx.remove name) context).get key =
      if key ∈ names then none else context.get key := by
  induction names generalizing context with
  | nil => simp
  | cons name rest ih =>
    rw [List.foldl_cons, ih, get_remove]
    by_cases hrest : key ∈ rest
    · simp [hrest]
    · by_cases hname : key = name <;> simp [hrest, hname]

theorem get_clearedContext (hkey : startsWith key (fireCountStem state) ≠ true) :
    (clearedContext definition state context).get key =
      if key ∈ stateLocalSlots definition state then none else context.get key := by
  unfold clearedContext
  rw [get_foldl_remove, get_retain]
  simp [hkey]

theorem Admitted.Commits.kept
    {work : SubmitWork} (hc : a.Commits v work next) (hkey : ¬ RuntimeKey (a.firing arguments) key) :
    next.context.get key = work.next.context.get key ∨
    (next.state ≠ a.inst.state ∧ key ∈ stateLocalSlots a.inst.definition a.inst.state) ∧
    next.context.get key = none := by
  obtain ⟨hsummary, hiter, hstem⟩ : key ≠ "summary" ∧ key ≠ whileIterKey a.inst.state ∧
      startsWith key (fireCountStem a.inst.state) ≠ true := by
    simpa [RuntimeKey, Admitted.firing] using hkey
  have hfire : key ≠ fireCountKey a.inst.state a.request.transition := by
    rintro rfl
    exact hstem (startsWith_append _ _)
  cases hc with
  | intro hcount htarget hloop =>
    rename_i context rerouted looped target
    have hlooped : looped.context.get key = work.next.context.get key :=
      (hloop.get_of_ne hiter).trans ((get_countFire_of_ne hcount hfire).trans (get_withSummary_of_ne hsummary))
    unfold exitInstance
    split
    · exact .inl hlooped
    · rename_i hleft
      rw [get_clearedContext hstem]
      split
      · rename_i hslot
        exact .inr ⟨⟨fun h => hleft h.symm, hslot⟩, rfl⟩
      · exact .inl hlooped

theorem get_chargedContext_of_ne (hkey : key ∉ engineKeys) :
    (chargedContext context ms).get key = context.get key := by
  simp only [engineKeys, List.mem_cons, not_or] at hkey
  unfold chargedContext
  rw [get_insert_of_ne _ _ hkey.2.1, get_insert_of_ne _ _ hkey.1]

theorem Hop.Commits.kept {work : HopWork}
    (hc : hop.Commits d v work next) (hkey : key ∉ engineKeys) : next.context.get key = work.inst.context.get key := by
  cases hc with
  | intro _ hledger =>
    have hne : key ≠ continuationReadsKey := fun h => hkey (by simp [engineKeys, h])
    rw [get_chargedContext_of_ne hkey, get_commitContinuation_of_ne hledger hne]

end

theorem SubmitWork.Of.maps {work : SubmitWork} (hwork : work.Of cfg a arguments) :
    Maps cfg.lib a.inst (a.transition.get "output") work.next.context := by
  cases hwork with
  | plain _ hmerge _ => exact .of_merge hmerge
  | executed _ _ hmerge _ _ _ => exact .resolve hmerge _

theorem HopWork.Of.maps {work : HopWork}
    (hwork : work.Of cfg definition d hop) : Maps cfg.lib d.inst (hop.definition.get "output") work.inst.context := by
  cases hwork with
  | plain _ hmerge _ => exact .of_merge hmerge
  | executed _ hmerge _ => exact .resolve hmerge _

theorem readCounterSlot_congr {a b : Value} (h : a.get key = b.get key) :
    readCounterSlot a key = readCounterSlot b key := by
  rw [readCounterSlot, h, readCounterSlot]

theorem readCounterSlot_none (h : context.get key = none) : readCounterSlot context key = .ok 0 := by
  rw [readCounterSlot, h]

theorem Hop.Of.runtimeKey {args : ChainArgs} (hhop : hop.Of cfg Φ args d h) :
    RuntimeKey (hop.firing d) key ↔ key ∈ engineKeys := by
  cases hhop <;> rfl

theorem Commit.applied (hc : Commit cfg Φ h f next)
    (hsite : f.site ≠ .timeout) : ∃ applied, Commit.Applied cfg f next applied := by
  cases hc with
  | @submit a arguments work _ _ hwork hnext =>
    have hkept (key : String) (hkey : ¬ RuntimeKey (a.firing arguments) key) :
        next.context.get key = work.next.context.get key ∨
          ((a.firing arguments).site = .submit ∧ next.state ≠ a.inst.state ∧
            key ∈ stateLocalSlots a.inst.definition a.inst.state) ∧ next.context.get key = none :=
      (hnext.kept hkey).imp id fun hdropped => ⟨⟨rfl, hdropped.1⟩, hdropped.2⟩
    have hmaps := hwork.maps
    cases hwork with
    | plain hexecutor _ hvalid =>
      exact ⟨_, hmaps, hvalid, fun _ hsome => by simp [Admitted.firing, hexecutor] at hsome, hkept⟩
    | executed _ _ _ hvalid hconstraints _ =>
      exact ⟨_, hmaps, hvalid, fun _ _ => hconstraints, hkept⟩
  | @hop args d hop work _ hdefinition hhop hwork hnext =>
    have hkept (key : String) (hkey : ¬ RuntimeKey (hop.firing d) key) :=
      hnext.kept (mt hhop.runtimeKey.mpr hkey)
    have hconstrained {P : Prop} (hs : (hop.firing d).site = .submit) : P := absurd hs hhop.site.1
    have hmaps := hwork.maps
    cases hwork with
    | plain _ _ hvalid | executed _ _ hvalid =>
      exact ⟨_, hmaps, hdefinition ▸ hvalid, fun hs => hconstrained hs, fun key hkey => .inl (hkept key hkey)⟩
  | timeout _ => exact absurd rfl hsite

end Praxec
