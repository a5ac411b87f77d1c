import Praxec.Runtime.Writes

namespace Praxec

open Json Effect Prog Monitor List Value Gateway WorkflowInstance Text

/-- The context keys that belong to a state: its state-local slots, its iteration counter and its fire
counters. -/
def Owned (definition : Value) (state key : String) : Prop :=
  key ∈ stateLocalSlots definition state ∨ key = whileIterKey state ∨ ∃ t, key = fireCountKey state t

theorem startsWith_fireCountStem (key state : String) :
    startsWith key (fireCountStem state) ↔ ∃ t, key = fireCountKey state t :=
  startsWith_iff key (fireCountStem state)

instance (definition : Value) (state key : String) : Decidable (Owned definition state key) :=
  decidable_of_iff (key ∈ stateLocalSlots definition state ∨ key = whileIterKey state ∨
    startsWith key (fireCountStem state) = true) (by rw [Owned, startsWith_fireCountStem])

section

variable {definition : Value} {state key : String}

/-- What leaving `state` does to a context: the counter of its `while` guard goes first, then its fire
counters and state-local slots. -/
def cleanup (definition : Value) (state : String) (context : Value) : Value :=
  clearedContext definition state (context.remove (whileIterKey state))

theorem get_cleanup_of_owned (h : Owned definition state key) (context : Value) :
    (cleanup definition state context).get key = none := by
  unfold cleanup clearedContext
  rw [get_foldl_remove, get_retain, get_remove]
  rcases h with hslot | hiter | hfire
  · simp [hslot]
  · simp [hiter]
  · simp [(startsWith_fireCountStem key state).mpr hfire]

theorem get_cleanup_of_not_owned (h : ¬ Owned definition state key) (context : Value) :
    (cleanup definition state context).get key = context.get key := by
  obtain ⟨hslot, hiter, hfire⟩ : key ∉ stateLocalSlots definition state ∧ key ≠ whileIterKey state ∧
      ¬ ∃ t, key = fireCountKey state t := by
    simpa [Owned] using h
  have hstem : startsWith key (fireCountStem state) = false := by
    simpa using mt (startsWith_fireCountStem key state).mp hfire
  unfold cleanup clearedContext
  rw [get_foldl_remove, get_retain, get_remove]
  simp [hslot, hiter, hstem]

def NamesApart (definition : Value) (left other : String) : Prop :=
  ∀ key, Owned definition other key → ¬ Owned definition left key

theorem cleanup_keeps_iff (definition : Value) (left other : String) : (∀ context key, Owned definition other key →
      (cleanup definition left context).get key = context.get key) ↔ NamesApart definition left other := by
  constructor
  · intro h key hother hleft
    have hkept := h (.object [(key, .null)]) key hother
    rw [get_cleanup_of_owned hleft] at hkept
    simp [Fields.get_cons] at hkept
  · exact fun h context key hother => get_cleanup_of_not_owned (h key hother) context

end

def Firing.writes (f : Firing) : List String :=
  if f.site = .timeout then [] else writtenSlots (f.definition.get "output") ++ engineKeys

def ClearsOwned : Event Sig → Prop
  | .op (.storeSave (.transition f) inst _) _ => inst.state ≠ f.before.state →
      ∀ key, Owned f.before.definition f.before.state key → inst.context.get key = none
  | _ => True

def ExitsUnused : Event Sig → Prop
  | .op (.storeSave (.transition f) inst _) _ => f.site ≠ .submit → inst.state ≠ f.before.state →
      ∀ key, Owned f.before.definition f.before.state key → f.before.context.get key = none ∧ key ∉ f.writes
  | _ => True

namespace StateLocal

theorem stateDefinition_isSome {a : Admitted} (ha : a.Ok) :
    (stateDefinition a.inst.definition a.inst.state).isSome := by
  have hwalk := ha.transition
  unfold transitionDefinition at hwalk
  rw [show ["states", a.inst.state, "transitions", a.request.transition] =
    ["states", a.inst.state] ++ ["transitions", a.request.transition] from rfl, walk_append] at hwalk
  unfold stateDefinition
  cases hs : a.inst.definition.walk ["states", a.inst.state] with
  | none => simp [hs] at hwalk
  | some s => rfl

theorem submit_clears {a : Admitted} (ha : a.Ok) {v : Value → WorkflowInstance → Bool → Prop} {work : SubmitWork}
    {next : WorkflowInstance} (h : a.Commits v work next) (hleft : next.state ≠ a.inst.state) :
    ∃ context, next.context = cleanup a.inst.definition a.inst.state context := by
  cases h with
  | intro hcount htarget hloop =>
    rename_i context rerouted looped target
    cases hloop with
    | undeclared hnone =>
      have hsome := stateDefinition_isSome ha
      rw [hnone] at hsome
      cases hsome
    | again _ _ _ _ _ _ => exact absurd rfl hleft
    | unlooped _ _ | leave _ _ _ =>
      refine ⟨context, ?_⟩
      have hne : a.inst.state ≠ target := fun h => hleft h.symm
      simp [exitInstance, hne, cleanup, clearWhileIter]

theorem clears_of_unused {before : History}
    (hcommitted : Committed cfg Φ K before e) (hunused : ExitsUnused e) : ClearsOwned e := by
  cases e with
  | call p r | timeout p r => trivial
  | op o r =>
    cases o with
    | storeSave kind next v =>
      cases kind with
      | transition f =>
        intro hleft key howned
        cases hcommitted.2.commit with
        | submit hgated _ hnext =>
          obtain ⟨context, hcontext⟩ := submit_clears hgated.cleared.toOk hnext hleft
          rw [hcontext]
          exact get_cleanup_of_owned howned context
        | hop _ hhop _ _ _ =>
          obtain ⟨habsent, hunwritten⟩ := hunused hhop.site.1 hleft key howned
          rw [Firing.writes, if_neg hhop.site.2, mem_append, not_or] at hunwritten
          obtain ⟨applied, happlied⟩ := hcommitted.2.commit.applied hhop.site.2
          have hkept : applied.get key = none :=
            (happlied.maps.get_of_not_written hunwritten.1).elim (fun hk => hk.trans habsent) And.right
          exact (happlied.kept key (mt hhop.runtimeKey.mp hunwritten.2)).elim (fun hk => hk.trans hkept) And.right
        | timeout _ => exact (hunused (by simp [timeoutFiring]) hleft key howned).1
      | _ => trivial
    | _ => trivial

end StateLocal

/-- Every step that commits a change of state other than by submit leaves a state whose keys are absent
and stay unwritten. -/
def LeavesUnused (m : Gateway) (a : GatewayAction) (_ : Gateway) : Prop :=
  ∀ p hist e, m.Appends a p hist e → ExitsUnused e

/-- The keys of a state do not outlive it, and its cleanup touches no other state's keys exactly when
the names are apart. -/
theorem state_keys_cleared {cfg : RuntimeConfig} {definitions : Fields} {m : Gateway}
    (h : ReachableWith cfg LeavesUnused definitions m) :
    (∀ t ∈ m.threads, ∀ x ∈ t.activations, ∀ e ∈ x.2, ClearsOwned e) ∧
    ∀ definition left other, (∀ context key, Owned definition other key →
      (cleanup definition left context).get key = context.get key) ↔ NamesApart definition left other := by
  refine ⟨fun t ht x hx e he => ?_, cleanup_keeps_iff⟩
  have hunused := h.appended (A := ExitsUnused) (fun hstep p hist _ _ => hstep p hist _) (fun _ _ => trivial)
    (fun _ _ => trivial) rfl t ht x hx e he
  obtain ⟨before, after, hsplit⟩ := append_of_mem he
  have hcommitted := committed_of_reaches h t ht x hx before e after hsplit
  exact StateLocal.clears_of_unused hcommitted hunused

def slottedDefinition (context : Fields) : Value :=
  .object [("version", "1"), ("initialState", "a"), ("initialContext", .object context),
    ("states", .object [("a", .object [("slots", .object [("x", .object [("scope", "state")])]),
      ("transitions", .object [("go", transitionOf "b" "deterministic" [])])]), ("b", terminalState)])]

def keepsSlot : Event Sig → Bool
  | .op (.storeSave (.transition f) inst _) _ => inst.state ≠ f.before.state &&
      (stateLocalSlots f.before.definition f.before.state).any fun key => (inst.context.get key).isSome
  | _ => false

theorem not_clearsOwned_of_keepsSlot (h : keepsSlot e) : ¬ ClearsOwned e := by
  intro hclears
  cases e with
  | call p r | timeout p r => cases h
  | op o r =>
    cases o with
    | storeSave kind next v =>
      cases kind with
      | transition f =>
        simp only [keepsSlot, Bool.and_eq_true, any_eq_true, decide_eq_true_eq] at h
        obtain ⟨hleft, key, hslot, hkept⟩ := h
        rw [hclears hleft key (.inl hslot)] at hkept
        cases hkept
      | _ => cases h
    | _ => cases h

/-- A hop takes the state-local slot of the state it leaves along, and leaving `a` takes a fire counter
away from the state `a.b`. -/
theorem hop_keeps_state_local_slot : (∃ m, Reachable .plain [("d", slottedDefinition [("x", .nat 1)])] m ∧
      ∃ t ∈ m.threads, ∃ x ∈ t.activations, ∃ e ∈ x.2, ¬ ClearsOwned e) ∧
    ∃ context, (cleanup .emptyObject "a" context).get (fireCountKey "a.b" "t") ≠
      context.get (fireCountKey "a.b" "t") := by
  constructor
  · obtain ⟨m, hm, h⟩ := reachable_of_script .plain [("d", slottedDefinition [("x", .nat 1)])] hopScript
      (fun m => m.threads.any fun t => t.activations.any fun x => x.2.any keepsSlot)
    simp only [any_eq_true] at h
    obtain ⟨t, ht, x, hx, e, he, hkept⟩ := h
    exact ⟨m, hm, t, ht, x, hx, e, he, not_clearsOwned_of_keepsSlot hkept⟩
  · exact ⟨.object [(fireCountKey "a.b" "t", .nat 1)], by decide⟩

def blankExit (m : Gateway) (a : GatewayAction) : Bool :=
  match m.pending a with
  | some (.storeSave (.transition f) _ _) => decide (f.before.context = .emptyObject ∧
      ∀ key ∈ f.writes, ¬ Owned f.before.definition f.before.state key)
  | _ => true

theorem leavesUnused_of_blankExit (h : blankExit m a) : LeavesUnused m a m' := by
  intro p hist e happ
  cases e with
  | call p r | timeout p r => trivial
  | op o r =>
    cases o with
    | storeSave kind next v =>
      cases kind with
      | transition f =>
        rw [blankExit, happ.pending] at h
        obtain ⟨hblank, hwrites⟩ := of_decide_eq_true h
        intro _ _ key howned
        exact ⟨by rw [hblank]; rfl, fun hkey => hwrites key hkey howned⟩
      | _ => trivial
    | _ => trivial

theorem hop_without_state_local_slot :
    ∃ m, ReachableWith .plain LeavesUnused [("d", slottedDefinition [])] m ∧
      (m.world.find "wf_1").map state = some "b" ∧
      ∀ t ∈ m.threads, ∀ x ∈ t.activations, ∀ e ∈ x.2, ClearsOwned e := by
  obtain ⟨m, hm, h⟩ := reachableWith_of_script .plain [("d", slottedDefinition [])] hopScript
    (fun m => (m.world.find "wf_1").map state = some "b")
    blankExit (fun _ _ _ => leavesUnused_of_blankExit)
  exact ⟨m, hm, h, (state_keys_cleared hm).1⟩

end Praxec
