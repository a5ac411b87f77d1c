import Praxec.Runtime.Tally

namespace Praxec

open Json Effect List Gateway

variable {cfg : RuntimeConfig}

def SaveKind.bump : SaveKind → Nat
  | .spawnBinding _ => 0
  | _ => 1

def Unbound (id : String) (version : Nat) (journal : List StoreWrite) : Prop :=
  ∀ parent bound, .saved (.spawnBinding parent) bound ∈ journal → bound.id = id → bound.version ≠ version

/-- A write that continues the writes before it: an instance's first snapshot, or one that is computed from the
snapshot it replaces. -/
inductive Continues (cfg : RuntimeConfig) (before : List StoreWrite) : StoreWrite → Prop where
  | created {inst : WorkflowInstance} (hnew : current inst.id before = none) (hversion : inst.version = 0) :
      Continues cfg before (.created inst)
  | saved {kind : SaveKind} {next stored : WorkflowInstance} {hist : History}
      (hcurrent : current next.id before = some stored) (hversion : next.version = stored.version + kind.bump)
      (hsaves : Saves cfg (fun _ _ => True) hist kind next) (hbase : Rebound kind.base stored)
      (hexact : Unbound next.id stored.version before → kind.base = stored) : Continues cfg before (.saved kind next)

theorem Saves.bump {next} (hs : Saves cfg (fun _ _ => True) h kind next) : next.version = kind.base.version + kind.bump := by
  cases hs with
  | transition hcommit _ => rw [hcommit.frame]; rfl
  | _ => rfl

theorem Added.continues (hm : m.Lineage cfg fun _ _ => True)
    (hadded : Added cfg (fun _ _ => True) m a write) : Continues cfg m.world.journal write := by
  cases hadded with
  | created _ hnew hfresh => exact .created ((hm.agrees.find _).symm.trans hnew) hfresh.version
  | @saved t kind next stored v ht _ hfind hbase hrebound _ hsaves =>
    refine .saved ((hm.agrees.find _).symm.trans hfind) (hrebound.version_eq ▸ hsaves.bump) hsaves hrebound fun hunbound => ?_
    obtain ⟨hid, last, hlast, rfl⟩ := hm.agrees.mem hfind
    obtain ⟨base, hmem, hbase⟩ := hbase
    rw [← hbase] at hrebound ⊢
    -- at a version without bindings the snapshots of an instance are equal
    exact hm.chained.agree (E := Eq) eq_equivalence
      (fun parent bound _ hb hboundId hv _ => absurd hv (hunbound parent bound hb hboundId)) hmem hlast
      ⟨hrebound.id_eq.trans hid, hrebound.version_eq⟩ ⟨hid, rfl⟩

/-- Every write continues those before it, whatever ran between its load and its save. -/
theorem writes_continue {m : Gateway} (hm : Reachable cfg definitions m) {before after : List StoreWrite}
    {write : StoreWrite} (hsplit : m.world.journal = before ++ write :: after) : Continues cfg before write := by
  obtain ⟨m₀, a, _, hreached, _, _, rfl, hadded⟩ := ReachableWith.added hm hsplit
  exact hadded.continues (lineage_of_reaches hreached)

def spawningDefinition : Value :=
  definitionOf "a" [("a", stateOf [("go", transitionOf "b" "caller" [("executor", .object [("kind", "workflow")])])]),
    ("b", terminalState)]

def boundScript : List GatewayAction :=
  launch 0 "d" "1" ++ .spawn (.submit (goSubmit "wf_1" 0)) :: answers 1 1 ++ [.answer 1 (.fresh "2")] ++ answers 1 3 ++
    .spawn (.start { startOf "d" with parent := some ⟨"wf_1", "go"⟩ }) :: answers 2 1 ++ [.answer 2 (.fresh "2")] ++
    answers 2 1 ++ [.answer 2 (.fresh "2")] ++ answers 2 3 ++ [executed 1 ⟨.emptyObject, [], none, none, none⟩] ++
    answers 1 4

def stale (before : List StoreWrite) : StoreWrite → Bool
  | .saved (.transition f) next => (current next.id before).isSome && current next.id before != some f.before
  | _ => false

def bindsChild : StoreWrite → Bool
  | .saved (.spawnBinding _) _ => true
  | _ => false

/-- A binding leaves the version as it is, and the commit it overtakes is not computed from it. -/
theorem binding_overtakes_commit : ∃ m, Reachable .plain [("d", spawningDefinition)] m ∧
    (∃ before parent bound after stored, m.world.journal = before ++ .saved (.spawnBinding parent) bound :: after ∧
      current bound.id before = some stored ∧ bound.version = stored.version) ∧
    ∃ before f next stored, m.world.journal = before ++ [.saved (.transition f) next] ∧
      current next.id before = some stored ∧ f.before ≠ stored := by
  obtain ⟨m, hm, h⟩ := reachable_of_script .plain [("d", spawningDefinition)] boundScript
    (fun m => m.world.journal.any bindsChild && m.world.journal.getLast?.any (stale m.world.journal.dropLast))
  rw [Bool.and_eq_true] at h
  obtain ⟨hbinds, hstale⟩ := h
  refine ⟨m, hm, ?_, ?_⟩
  · obtain ⟨write, hw, hbinds⟩ := any_eq_true.mp hbinds
    obtain ⟨before, after, hsplit⟩ := append_of_mem hw
    obtain ⟨m₀, a, _, hreached, _, _, rfl, hadded⟩ := ReachableWith.added hm hsplit
    cases hadded.continues (lineage_of_reaches hreached) with
    | created _ _ => cases hbinds
    | @saved kind bound stored _ hcurrent hversion _ _ _ =>
      cases kind with
      | spawnBinding parent => exact ⟨_, parent, bound, after, stored, hsplit, hcurrent, hversion⟩
      | _ => cases hbinds
  · cases hlast : m.world.journal.getLast? with
    | none =>
      rw [hlast] at hstale
      cases hstale
    | some write =>
      rw [hlast] at hstale
      unfold stale at hstale
      dsimp only [Option.any_some] at hstale
      split at hstale
      · rename_i f next
        rw [Bool.and_eq_true, bne_iff_ne] at hstale
        obtain ⟨stored, hcurrent⟩ := Option.isSome_iff_exists.mp hstale.1
        refine ⟨_, f, next, stored, (dropLast_append_getLast? _ hlast).symm, hcurrent, fun heq => hstale.2 ?_⟩
        rw [hcurrent, heq]
      · cases hstale

/-- The commit continues a creation of its instance, another run's creation and the binding. -/
theorem commit_continues_binding : ∃ m, Reachable .plain [("d", spawningDefinition)] m ∧
    ∃ before write, m.world.journal = before ++ write :: [] ∧ stale before write = true ∧ before.length = 3 ∧
      Continues .plain before write := by
  obtain ⟨m, hm, h⟩ := reachable_of_script .plain [("d", spawningDefinition)] boundScript
    (fun m => m.world.journal.dropLast.length == 3 && m.world.journal.getLast?.any (stale m.world.journal.dropLast))
  rw [Bool.and_eq_true, beq_iff_eq] at h
  cases hlast : m.world.journal.getLast? with
  | none =>
    rw [hlast] at h
    cases h.2
  | some write =>
    rw [hlast] at h
    have hsplit := (dropLast_append_getLast? write hlast).symm
    exact ⟨m, hm, _, write, hsplit, h.2, h.1, writes_continue hm hsplit⟩

theorem SameRun.trans (hab : SameRun a b) (hbc : SameRun b c) : SameRun a c :=
  ⟨hab.id.trans hbc.id, hab.definition.trans hbc.definition, hab.input.trans hbc.input⟩

/-- What the writes under an id say of its run: the first snapshot, and how many saves moved the version. -/
def runHistory (sum : Option WorkflowInstance × Nat) : StoreWrite → Option WorkflowInstance × Nat
  | .created inst => (some inst, 0)
  | .saved kind _ => (sum.1, sum.2 + kind.bump)

def Carries (inst : WorkflowInstance) (sum : Option WorkflowInstance × Nat) : Prop :=
  ∃ first, sum = (some first, inst.version) ∧ SameRun inst first

theorem Tallied.carries (hm : Tallied cfg runHistory (none, 0) Carries (fun _ _ => True) m)
    (hadded : Added cfg (fun _ _ => True) m a write) :
    Carries write.inst (runHistory (tally runHistory (none, 0) write.inst.id m.world.journal) write) := by
  cases hadded with
  | created _ _ hfresh => exact ⟨_, congrArg _ hfresh.version.symm, ⟨rfl, rfl, rfl⟩⟩
  | saved _ _ hfind _ hrebound _ hsaves =>
    obtain ⟨first, hsum, hrun⟩ := hm.stored _ _ hfind
    refine ⟨first, ?_, (hsaves.sameRun.trans hrebound.sameRun).trans hrun⟩
    rw [StoreWrite.inst, hsaves.bump, hrebound.version_eq, hsum]
    rfl

/-- A stored run is the one its creation wrote, under the same definition and input, and its version counts the
saves since that moved it: no commit is lost and none is stored twice. -/
theorem version_counts_commits {id : String} (hm : Reachable cfg definitions m) (hfind : m.world.find id = some inst) :
    Carries inst (tally runHistory (none, 0) id m.world.journal) :=
  (ReachableWith.tallied (P := fun _ _ => True) hm fun ht _ hadded => ⟨ht.carries hadded, trivial⟩).stored id inst hfind

theorem bound_run_commits_once : ∃ m inst, Reachable .plain [("d", spawningDefinition)] m ∧
    m.world.find "wf_1" = some inst ∧ m.world.journal.length = 4 ∧ inst.version = 1 ∧
    Carries inst (tally runHistory (none, 0) "wf_1" m.world.journal) := by
  obtain ⟨m, hm, h⟩ := reachable_of_script .plain [("d", spawningDefinition)] boundScript
    (fun m => m.world.journal.length == 4 && (m.world.find "wf_1").any (·.version == 1))
  simp only [Bool.and_eq_true, beq_iff_eq, Option.any_eq_true] at h
  obtain ⟨hlength, inst, hfind, hversion⟩ := h
  exact ⟨m, inst, hm, hfind, hlength, hversion, version_counts_commits hm hfind⟩

end Praxec
