import Praxec.Runtime.Writes

namespace Praxec

open Json Effect List Gateway

variable {cfg : RuntimeConfig} {h : History}

def SaveKind.AppliesOutput : SaveKind → Prop
  | .transition f => f.site ≠ .timeout
  | .slotUpdates .. | .onEnter .. => True
  | _ => False

def SaveKind.mapping : SaveKind → Option Value
  | .transition f => f.definition.get "output"
  | .slotUpdates _ mapping | .onEnter _ mapping => mapping
  | _ => none

def SaveKind.RuntimeKey (kind : SaveKind) (key : String) : Prop :=
  match kind with
  | .transition f => Praxec.RuntimeKey f key
  | _ => False

variable {lib : Libraries} {e : Event Sig}

def typedSlot (definition : Value) (slot : String) : Option Value :=
  match definition.get "blackboard" with
  | some (.object slots) => match Fields.get slots slot with
    | some (.object (entry :: rest)) => some (.object (entry :: rest))
    | _ => none
  | _ => none

def TypedWrites (lib : Libraries) (definition : Value) (mapping : Option Value) (context : Value) : Prop :=
  ∀ slot ∈ writtenSlots mapping, ∀ schema, typedSlot definition slot = some schema →
    Validates lib schema ((context.get slot).getD .null)

theorem checkSlots_ok (hc : checkSlots check slots = .ok ()) : ∀ slot ∈ slots, check slot = .ok () := by
  induction slots with
  | nil => exact fun _ hs => by cases hs
  | cons slot rest ih =>
    obtain ⟨_, hslot, hrest⟩ := bind_ok hc
    exact forall_mem_cons.mpr ⟨hslot, ih hrest⟩

theorem validates_of_checkAgainst (hc : checkAgainst lib schema value f g = .ok ()) : Validates lib schema value := by
  unfold checkAgainst at hc
  split at hc
  · cases hc
  rename_i validator hcompiled
  split at hc
  · rename_i hvalid
    exact ⟨validator, hcompiled, hvalid⟩
  · cases hc

theorem typedWrites_of_valid (hv : validateBlackboardWrites lib definition mapping context = .ok ()) :
    TypedWrites lib definition mapping context := by
  intro slot hslot schema hschema
  unfold validateBlackboardWrites at hv
  dsimp only at hv
  split at hv
  · cases hv
  unfold typedSlot at hschema
  split at hschema
  · rename_i slots hslots
    rw [hslots] at hv
    obtain ⟨_, htyped, _⟩ := bind_ok hv
    have hchecked := checkSlots_ok htyped slot hslot
    split at hschema
    · rename_i entry rest hentry
      cases hschema
      have hfound : (Value.object slots).get slot = some (.object (entry :: rest)) := hentry
      rw [checkTypedSlot, hfound] at hchecked
      dsimp only at hchecked
      cases hagainst : checkAgainst lib (.object (entry :: rest)) ((context.get slot).getD .null)
          (fun e => "invalid blackboard schema: " ++ e) id with
      | ok u => exact validates_of_checkAgainst hagainst
      | error e => rw [hagainst] at hchecked; cases hchecked
    · cases hschema
  · cases hschema

/-- A save that maps an output in: the context as the mapping left it, which is committed but for the
runtime's own keys and for slots that are dropped, and in which every typed slot that the mapping wrote and
that is committed as written has a value of its type. -/
def TypedCommit (lib : Libraries) : Event Sig → Prop
  | .op (.storeSave kind next _) _ => kind.AppliesOutput → ∃ applied, Maps lib kind.base kind.mapping applied ∧
      (∀ key, ¬ kind.RuntimeKey key → next.context.get key = applied.get key ∨ next.context.get key = none) ∧
      ∀ slot ∈ writtenSlots kind.mapping, ∀ schema value, typedSlot kind.base.definition slot = some schema →
        applied.get slot = some value → next.context.get slot = some value → Validates lib schema value
  | _ => True

theorem TypedWrites.value {definition context : Value} {mapping : Option Value}
    (ht : TypedWrites lib definition mapping context) {slot : String} (hslot : slot ∈ writtenSlots mapping)
    {schema value : Value} (hschema : typedSlot definition slot = some schema) (hvalue : context.get slot = some value) :
    Validates lib schema value := by
  have hvalid := ht slot hslot schema hschema
  rwa [hvalue] at hvalid

/-- The slot updates that the executor of a submit fails with fit the types of the slots they are mapped to. -/
def FailsTyped (lib : Libraries) : Event Sig → Prop
  | .op (.executeEnd (.declared f) _) (.error err) => f.site = .submit → ∀ updates merged,
      err.slotUpdates = some updates → mergeOutput lib
        ⟨f.arguments, f.before.context, f.before.input, some updates, some f.before.runEnv⟩ (f.definition.get "output") =
          .ok merged → TypedWrites lib f.before.definition (f.definition.get "output") merged
  | _ => True

theorem typedCommit_of_committed
    (hcommitted : Committed cfg Φ K before e) (hfails : ∀ e ∈ before, FailsTyped cfg.lib e) :
    TypedCommit cfg.lib e := by
  cases e with
  | call p r | timeout p r => trivial
  | op o r =>
    cases o with
    | storeSave kind next v =>
      intro happlies
      have hsaves := hcommitted.2
      cases hsaves with
      | transition hcommit _ =>
        obtain ⟨applied, happlied⟩ := hcommit.applied happlies
        refine ⟨applied, happlied.maps, fun key hkey => (happlied.kept key hkey).imp id And.right, ?_⟩
        exact fun slot hslot schema value hschema hvalue _ => (typedWrites_of_valid happlied.valid).value hslot hschema hvalue
      | @slotUpdates a arguments updates context err _ hupdates hfailed hmerge =>
        obtain ⟨request, hmem⟩ := hfailed
        have htyped : TypedWrites cfg.lib a.inst.definition (a.transition.get "output") context :=
          hfails _ hmem rfl updates context hupdates hmerge
        exact ⟨context, .of_merge hmerge, fun _ _ => .inl rfl,
          fun slot hslot schema value hschema hvalue _ => htyped.value hslot hschema hvalue⟩
      | @onEnter base onEnter output context _ hmerge hvalid =>
        exact ⟨context, .of_merge hmerge, fun _ _ => .inl rfl,
          fun slot hslot schema value hschema hvalue _ => (typedWrites_of_valid hvalid).value hslot hschema hvalue⟩
      | _ => exact happlies.elim
    | _ => trivial

def UpdatesTyped (lib : Libraries) (m : Gateway) (a : GatewayAction) (_ : Gateway) : Prop :=
  ∀ p hist e, m.Appends a p hist e → FailsTyped lib e

/-- Every output that is committed to a typed slot is of its type. -/
theorem committed_outputs_typed {definitions : Fields} {m : Gateway}
    (hm : ReachableWith cfg (UpdatesTyped cfg.lib) definitions m) :
    ∀ t ∈ m.threads, ∀ x ∈ t.activations, ∀ e ∈ x.2, TypedCommit cfg.lib e := by
  intro t ht x hx e he
  obtain ⟨before, after, hsplit⟩ := append_of_mem he
  have hfails := hm.appended (A := FailsTyped cfg.lib) (fun hstep p hist _ _ => hstep p hist _) (fun _ _ => trivial)
    (fun _ _ => trivial) rfl t ht x hx
  refine typedCommit_of_committed (Φ := fun _ _ => True) (committed_of_reaches hm t ht x hx before e after hsplit) fun e he => hfails e ?_
  rw [hsplit]
  exact mem_append_left _ he

/-- A save that applies an output mapping leaves a context that keeps the constraints of the state it
leaves. -/
def ConstrainedCommit (lib : Libraries) : Event Sig → Prop
  | .op (.storeSave kind next _) _ => kind.AppliesOutput → kind.mapping.isSome →
      evaluateConstraints lib kind.base.definition kind.base.state next.context = .ok () ∧
      SlotsWithin lib kind.base.definition kind.base.state next.context
  | _ => True

def SaveKind.Checked : SaveKind → Prop
  | .transition f => f.site = .submit ∧ (f.definition.get "executor").isSome
  | _ => False

/-- The save may not break a constraint: the mapped output is checked or keeps the constraints whatever it
is, and what the runtime changes after that is neither constrained nor referred to. -/
structure SaveKind.SafelyConstrained (lib : Libraries) (kind : SaveKind) : Prop where
  mapped : kind.Checked ∨ ∀ applied, Maps lib kind.base kind.mapping applied →
    evaluateConstraints lib kind.base.definition kind.base.state applied = .ok ()
  runtime : ∀ key, kind.RuntimeKey key → constraintOf kind.base.definition kind.base.state key = none ∧
    ¬ Referenced kind.base.definition kind.base.state key
  cleared : ∀ key ∈ stateLocalSlots kind.base.definition kind.base.state,
    ¬ Referenced kind.base.definition kind.base.state key

def SavesSafely (lib : Libraries) : Event Sig → Prop
  | .op (.storeSave kind _ _) _ => kind.AppliesOutput → kind.mapping.isSome → kind.SafelyConstrained lib
  | _ => True

theorem Commit.Applied.keepsConstraints {next : WorkflowInstance} {applied : Value}
    (happlied : Commit.Applied cfg f next applied) (hsafe : SaveKind.SafelyConstrained cfg.lib (.transition f)) :
    evaluateConstraints cfg.lib f.before.definition f.before.state next.context = .ok () := by
  have hmapped : evaluateConstraints cfg.lib f.before.definition f.before.state applied = .ok () := by
    rcases hsafe.mapped with ⟨hsubmit, hexecutor⟩ | hany
    · exact happlied.constrained hsubmit hexecutor
    · exact hany applied happlied.maps
  refine evaluateConstraints_frame (fun slot hslot => ?_) (fun key hkey => ?_) hmapped
  · refine (happlied.kept slot fun hruntime => ?_).imp id And.right
    have hfree : constraintOf f.before.definition f.before.state slot = none := (hsafe.runtime slot hruntime).1
    rw [hfree] at hslot
    cases hslot
  · rcases happlied.kept key fun hruntime => (hsafe.runtime key hruntime).2 hkey with hkept | ⟨⟨-, -, hlocal⟩, -⟩
    · exact hkept
    · exact (hsafe.cleared key hlocal hkey).elim

theorem constrainedCommit_of_committed
    (hcommitted : Committed cfg Φ K before e) (hsafe : SavesSafely cfg.lib e) : ConstrainedCommit cfg.lib e := by
  cases e with
  | call p r | timeout p r => trivial
  | op o r =>
    cases o with
    | storeSave kind next v =>
      intro happlies hmapping
      replace hsafe := hsafe happlies hmapping
      suffices h : evaluateConstraints cfg.lib kind.base.definition kind.base.state next.context = .ok () from
        ⟨h, slotsWithin_of_evaluate h⟩
      have hsaves := hcommitted.2
      cases hsaves with
      | transition hcommit _ =>
        obtain ⟨applied, happlied⟩ := hcommit.applied happlies
        exact happlied.keepsConstraints hsafe
      | slotUpdates _ _ _ hmerge => exact hsafe.mapped.elim False.elim fun hany => hany _ (.of_merge hmerge)
      | onEnter _ hmerge _ => exact hsafe.mapped.elim False.elim fun hany => hany _ (.of_merge hmerge)
      | _ => exact happlies.elim
    | _ => trivial

def ConstraintsSafe (lib : Libraries) (m : Gateway) (a : GatewayAction) (_ : Gateway) : Prop :=
  ∀ p hist e, m.Appends a p hist e → SavesSafely lib e

/-- Every commit that applies an output mapping keeps the constraints on the slots. -/
theorem committed_outputs_constrained {definitions : Fields} {m : Gateway}
    (hm : ReachableWith cfg (ConstraintsSafe cfg.lib) definitions m) :
    ∀ t ∈ m.threads, ∀ x ∈ t.activations, ∀ e ∈ x.2, ConstrainedCommit cfg.lib e := by
  intro t ht x hx e he
  obtain ⟨before, after, hsplit⟩ := append_of_mem he
  have hsafe := hm.appended (A := SavesSafely cfg.lib) (fun hstep p hist _ _ => hstep p hist _) (fun _ _ => trivial)
    (fun _ _ => trivial) rfl t ht x hx
  exact constrainedCommit_of_committed (Φ := fun _ _ => True) (committed_of_reaches hm t ht x hx before e after hsplit) (hsafe e he)

def typedDefinition : Value :=
  .object [("version", "1"), ("initialState", "a"),
    ("blackboard", .object [("x", .object [("required", .array [.string "y"])])]),
    ("states", .object [("a", stateOf [("go", transitionOf "b" "caller"
      [("executor", .object [("kind", "noop")]), ("output", .object [("x", "$.output.x")])])]),
      ("b", terminalState)])]

def abandonedScript (x : Value) : List GatewayAction :=
  launch 0 "d" "1" ++ .spawn (.submit ⟨"wf_1", 0, "go", .emptyObject, .anonymous, none, none, none⟩) ::
    answers 1 1 ++ [.answer 1 (.fresh "2")] ++ answers 1 3 ++
    [.answer 1 (.executed (.error ⟨.permanent, "abandoned", some (.object [("x", x)])⟩))] ++ answers 1 2

def mistypes : Event Sig → Bool
  | .op (.storeSave (.slotUpdates base mapping) next _) _ => decide (base.definition = typedDefinition ∧
      "x" ∈ writtenSlots mapping ∧ next.context.get "x" = some .emptyObject)
  | _ => false

theorem not_typedCommit_of_mistypes (he : mistypes e) : ¬ TypedCommit Libraries.requiring e := by
  intro hcommit
  unfold mistypes at he
  split at he
  · rename_i base mapping next v r
    obtain ⟨hdefinition, hwritten, hcommitted⟩ := of_decide_eq_true he
    obtain ⟨applied, -, hkept, htyped⟩ := hcommit trivial
    have happlied : applied.get "x" = some .emptyObject := by
      rcases hkept "x" id with heq | hnone
      · exact heq.symm.trans hcommitted
      · cases hcommitted.symm.trans hnone
    have hschema : typedSlot base.definition "x" = some (.object [("required", .array [.string "y"])]) := by
      rw [hdefinition]
      rfl
    obtain ⟨validator, hcompiled, hvalid⟩ := htyped "x" hwritten _ _ hschema happlied hcommitted
    cases hcompiled
    revert hvalid
    decide
  · cases he

/-- The updates of an abandoned turn are committed to a typed slot whose type they break. -/
theorem abandoned_turn_breaks_type : ∃ m, Reachable .requiring [("d", typedDefinition)] m ∧
      (m.world.find "wf_1").map WorkflowInstance.context = some (.object [("x", .emptyObject)]) ∧
      ∃ t ∈ m.threads, ∃ x ∈ t.activations, ∃ e ∈ x.2, ¬ TypedCommit Libraries.requiring e := by
  obtain ⟨m, hm, h⟩ := reachable_of_script .requiring [("d", typedDefinition)]
    (abandonedScript .emptyObject) (fun m =>
      (m.world.find "wf_1").map WorkflowInstance.context = some (.object [("x", .emptyObject)]) ∧
        ∃ t ∈ m.threads, ∃ x ∈ t.activations, ∃ e ∈ x.2, mistypes e = true)
  obtain ⟨hstored, t, ht, x, hx, e, he, hmistypes⟩ := h
  exact ⟨m, hm, hstored, t, ht, x, hx, e, he, not_typedCommit_of_mistypes hmistypes⟩

def typedFailure (lib : Libraries) (m : Gateway) (a : GatewayAction) : Bool :=
  match m.pending a, a with
  | some (.executeEnd (.declared f) _), .answer _ (.executed (.error err)) => err.slotUpdates.all fun updates =>
      match mergeOutput lib ⟨f.arguments, f.before.context, f.before.input, some updates, some f.before.runEnv⟩
        (f.definition.get "output") with
      | .ok merged =>
          decide (validateBlackboardWrites lib f.before.definition (f.definition.get "output") merged = .ok ())
      | .error _ => true
  | _, _ => true

theorem updatesTyped_of_action (h : typedFailure lib m a) : UpdatesTyped lib m a m' := by
  intro p hist e happ
  unfold FailsTyped
  split
  · obtain ⟨i, rfl⟩ := executed_of_appends happ
    unfold typedFailure at h
    rw [happ.pending] at h
    intro _ updates merged hupdates hmerge
    simp only [hupdates, Option.all_some, hmerge] at h
    exact typedWrites_of_valid (of_decide_eq_true h)
  · trivial

theorem abandoned_turn_keeps_type :
    ∃ m, ReachableWith .requiring (UpdatesTyped .requiring) [("d", typedDefinition)] m ∧
      (m.world.find "wf_1").map WorkflowInstance.context = some (.object [("x", .object [("y", .nat 1)])]) ∧
      ∀ t ∈ m.threads, ∀ x ∈ t.activations, ∀ e ∈ x.2, TypedCommit .requiring e := by
  obtain ⟨m, hm, h⟩ := reachableWith_of_script .requiring [("d", typedDefinition)]
    (abandonedScript (.object [("y", .nat 1)])) (fun m =>
      (m.world.find "wf_1").map WorkflowInstance.context = some (.object [("x", .object [("y", .nat 1)])]))
    (typedFailure .requiring) (fun _ _ _ => updatesTyped_of_action)
  exact ⟨m, hm, h, committed_outputs_typed hm⟩

def scopedDefinition (slot : String) : Value :=
  .object [("version", "1"), ("initialState", "a"),
    ("blackboard", .object [("files", .object [("constraint", .object [("path_allowlist",
      .object [("allow", .array [.string "src/a"])])])])]),
    ("states", .object [("a", stateOf [("go", transitionOf "b" "deterministic"
      [("output", .object [(slot, .object [("set", .array [.string "etc/passwd"])])])])]), ("b", terminalState)])]

def breaksConstraint (lib : Libraries) : Event Sig → Bool
  | .op (.storeSave (.transition f) next _) _ => decide (f.site ≠ .timeout) && (f.definition.get "output").isSome &&
      decide (evaluateConstraints lib f.before.definition f.before.state next.context ≠ .ok ())
  | _ => false

theorem not_constrainedCommit (he : breaksConstraint lib e) : ¬ ConstrainedCommit lib e := by
  intro hcommit
  unfold breaksConstraint at he
  split at he
  · simp only [Bool.and_eq_true, decide_eq_true_eq] at he
    exact he.2 (hcommit he.1.1 he.1.2).1
  · cases he

/-- A hop of an accepted definition commits a path outside the allow-list. -/
theorem hop_breaks_constraint : validateConstraintsInDefinition .plain (scopedDefinition "files") = .ok () ∧
    ∃ m, Reachable .plain [("d", scopedDefinition "files")] m ∧
      (m.world.find "wf_1").map WorkflowInstance.state = some "b" ∧
      ∃ t ∈ m.threads, ∃ x ∈ t.activations, ∃ e ∈ x.2, ¬ ConstrainedCommit Libraries.plain e := by
  refine ⟨by decide +kernel, ?_⟩
  obtain ⟨m, hm, h⟩ := reachable_of_script .plain [("d", scopedDefinition "files")] hopScript (fun m =>
    (m.world.find "wf_1").map WorkflowInstance.state = some "b" ∧
      ∃ t ∈ m.threads, ∃ x ∈ t.activations, ∃ e ∈ x.2, breaksConstraint Libraries.plain e = true)
  obtain ⟨hstored, t, ht, x, hx, e, he, hbreaks⟩ := h
  exact ⟨m, hm, hstored, t, ht, x, hx, e, he, not_constrainedCommit hbreaks⟩

theorem constraintOf_scoped (h : constraintOf (scopedDefinition name) "a" slot = some constraint) :
    slot = "files" ∧ constraint = [("path_allowlist", .object [("allow", .array [.string "src/a"])])] := by
  by_cases hslot : slot = "files"
  · subst hslot
    cases h
    exact ⟨rfl, rfl⟩
  · have hlocal : (scopedDefinition name).walk ["states", "a", "slots"] = none := rfl
    have hblackboard : ((scopedDefinition name).get "blackboard").bind Value.asObject = some [("files",
      .object [("constraint", .object [("path_allowlist", .object [("allow", .array [.string "src/a"])])])])] := rfl
    have hundeclared : Fields.get [("files", Value.object [("constraint", .object [("path_allowlist",
        .object [("allow", .array [.string "src/a"])])])])] slot = none := by
      rw [Fields.get_cons, if_neg hslot]
      rfl
    rw [constraintOf, hblackboard, Option.bind_some, hundeclared] at h
    cases h

theorem not_referenced_scoped : ¬ Referenced (scopedDefinition name) "a" key := by
  rintro ⟨slot, constraint, path, hconstraint, hpath, -⟩
  obtain ⟨-, rfl⟩ := constraintOf_scoped hconstraint
  simp at hpath

def scopedHop (m : Gateway) (a : GatewayAction) : Bool :=
  match m.pending a with
  | some (.storeSave (.transition f) _ _) => decide (f.site ≠ .submit ∧
      f.before.definition = scopedDefinition "notes" ∧ f.before.state = "a" ∧ f.before.context = .emptyObject ∧
      writtenSlots (f.definition.get "output") = ["notes"])
  | some (.storeSave (.slotUpdates ..) _ _) | some (.storeSave (.onEnter ..) _ _) => false
  | _ => true

theorem safelyConstrained_of_scopedHop (hsubmit : f.site ≠ .submit)
    (hdefinition : f.before.definition = scopedDefinition "notes") (hstate : f.before.state = "a")
    (hcontext : f.before.context = .emptyObject) (hwritten : writtenSlots (f.definition.get "output") = ["notes"]) :
    SaveKind.SafelyConstrained .plain (.transition f) := by
  constructor <;> simp only [SaveKind.base, SaveKind.mapping, hdefinition, hstate]
  · refine .inr fun applied hmaps => evaluateConstraints_ok_iff.mpr fun slot constraint value hconstraint hvalue => ?_
    obtain ⟨rfl, -⟩ := constraintOf_scoped hconstraint
    have hkey : "files" ∉ writtenSlots (f.definition.get "output") := by simp [hwritten]
    rcases hmaps.get_of_not_written hkey with hkept | ⟨-, hnone⟩
    · rw [hvalue, hcontext] at hkept
      cases hkept
    · cases hvalue.symm.trans hnone
  · intro key hkey
    have hengine : key ∈ engineKeys := by
      unfold SaveKind.RuntimeKey RuntimeKey at hkey
      dsimp only at hkey
      split at hkey <;> simp_all
    refine ⟨?_, not_referenced_scoped⟩
    cases hc : constraintOf (scopedDefinition "notes") "a" key with
    | none => rfl
    | some constraint =>
      obtain ⟨rfl, -⟩ := constraintOf_scoped hc
      exact absurd hengine (by decide)
  · exact fun key _ => not_referenced_scoped

theorem constraintsSafe_of_scopedHop (m : Gateway) (a : GatewayAction) (m' : Gateway) (h : scopedHop m a) :
    ConstraintsSafe .plain m a m' := by
  intro p hist e happ
  cases e with
  | call p r | timeout p r => trivial
  | op o r =>
    cases o with
    | storeSave kind next v =>
      intro happlies _
      rw [scopedHop, happ.pending] at h
      cases kind with
      | transition f =>
        obtain ⟨hsubmit, hdefinition, hstate, hcontext, hwritten⟩ := of_decide_eq_true h
        exact safelyConstrained_of_scopedHop hsubmit hdefinition hstate hcontext hwritten
      | slotUpdates base mapping | onEnter base mapping => cases h
      | _ => exact happlies.elim
    | _ => trivial

theorem hop_keeps_constraint :
    ∃ m, ReachableWith .plain (ConstraintsSafe .plain) [("d", scopedDefinition "notes")] m ∧
      (m.world.find "wf_1").map WorkflowInstance.state = some "b" ∧
      ∀ t ∈ m.threads, ∀ x ∈ t.activations, ∀ e ∈ x.2, ConstrainedCommit .plain e := by
  obtain ⟨m, hm, h⟩ := reachableWith_of_script .plain [("d", scopedDefinition "notes")] hopScript
    (fun m => (m.world.find "wf_1").map WorkflowInstance.state = some "b") scopedHop
    constraintsSafe_of_scopedHop
  exact ⟨m, hm, h, @committed_outputs_constrained .plain _ m hm⟩

end Praxec
