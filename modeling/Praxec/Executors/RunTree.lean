import Praxec.Executors.Workflow
import Praxec.Runtime.Creation
import Praxec.Runtime.Recording

namespace Praxec

open Json Effect List Option Gateway

variable {cfg : RuntimeConfig} {definitions : Fields}

variable {m : Gateway} {inst next : WorkflowInstance}

section

structure SameOrigin (a b : WorkflowInstance) : Prop where
  runEnv : a.runEnv = b.runEnv
  parent : a.parent = b.parent

variable {journal : List StoreWrite}

variable {a b : WorkflowInstance}

theorem SameOrigin.trans (hab : SameOrigin a b) (hbc : SameOrigin b c) : SameOrigin a c :=
  ⟨hab.runEnv.trans hbc.runEnv, hab.parent.trans hbc.parent⟩

theorem SameOrigin.symm (hab : SameOrigin a b) : SameOrigin b a :=
  ⟨hab.runEnv.symm, hab.parent.symm⟩

theorem Saves.sameOrigin (hs : Saves cfg Φ h kind next) : SameOrigin next kind.base := by
  cases hs with
  | transition hcommit _ => rw [hcommit.frame]; exact ⟨rfl, rfl⟩
  | _ => exact ⟨rfl, rfl⟩

theorem Rebound.sameOrigin (hab : Rebound a b) : SameOrigin a b := by
  rw [← hab.rest]
  exact ⟨rfl, rfl⟩

theorem Chained.origin (hj : Chained cfg Φ journal) (hw : write ∈ journal) :
    ∃ stored, current write.inst.id journal = some stored ∧ SameOrigin write.inst stored := by
  induction hj with
  | nil => cases hw
  | created hj hnew hfresh ih =>
    rw [current_snoc]
    rcases mem_append.mp hw with hold | hlast
    · obtain ⟨stored, hstored, horigin⟩ := ih hold
      split
      · rename_i hid
        rw [← hid] at hstored
        cases hnew.symm.trans hstored
      · exact ⟨stored, hstored, horigin⟩
    · cases mem_singleton.mp hlast
      exact ⟨_, if_pos rfl, rfl, rfl⟩
  | saved hj hcurrent hbase _ hsaves ih =>
    rw [current_snoc]
    rcases mem_append.mp hw with hold | hlast
    · obtain ⟨found, hfound, horigin⟩ := ih hold
      split
      · rename_i hid
        cases hcurrent.symm.trans (hid ▸ hfound)
        exact ⟨_, rfl, horigin.trans (hsaves.sameOrigin.trans hbase.sameOrigin).symm⟩
      · exact ⟨found, hfound, horigin⟩
    · cases mem_singleton.mp hlast
      exact ⟨_, if_pos rfl, rfl, rfl⟩

theorem Gateway.Lineage.origin (hm : m.Lineage cfg Φ)
    (hinst : Journaled m.world.journal inst) (hfind : m.world.find inst.id = some stored) : SameOrigin inst stored := by
  obtain ⟨write, hw, rfl⟩ := hinst
  obtain ⟨current, hcurrent, horigin⟩ := hm.chained.origin hw
  cases (hm.agrees.find _).symm.trans hfind |>.symm.trans hcurrent
  exact horigin

end

variable {start : StartWorkflow}

section

variable (cfg) (resolveRunRepoRoot : String → Except Err String)

def Dispatched (m : Gateway) (inst : WorkflowInstance) : Prop :=
  ∃ t ∈ m.threads, ∃ x ∈ t.activations, ∃ site request, .op (.executeBegin site request) () ∈ x.2 ∧ request.workflow = inst

/-- A `workflow` executor asks for the start: the executor of a dispatched step, or one that a branch of it
runs on the same snapshot. -/
structure Asks (m : Gateway) (request : ExecuteRequest) (start : StartWorkflow) : Prop where
  dispatched : Dispatched m request.workflow
  call : childCall cfg.lib resolveRunRepoRoot request = .ok (.start start)

def SpawnsAsked (m : Gateway) (a : GatewayAction) (_ : Gateway) : Prop :=
  ∀ start link, a = .spawn (.start start) → start.parent = some link → ∃ request, Asks cfg resolveRunRepoRoot m request start

def SpawnsInherit (m : Gateway) (a : GatewayAction) (_ : Gateway) : Prop :=
  ∀ start link, a = .spawn (.start start) → start.parent = some link →
    ∃ request, Asks cfg resolveRunRepoRoot m request start ∧ strField request.executorConfig "repoRoot" = none

variable {cfg resolveRunRepoRoot}

theorem childCall_start (h : childCall lib resolveRunRepoRoot request = .ok (.start start)) :
    start.parent = some ⟨request.workflow.id, request.transition.getD ""⟩ ∧
    childRunEnv lib resolveRunRepoRoot request = .ok start.runEnv := by
  unfold childCall at h
  cases hdefinition : strField request.executorConfig "definitionId" with
  | none => simp [hdefinition, bind, Except.bind] at h
  | some definitionId =>
    by_cases hdepth : maxWorkflowDepth ≤ request.workflow.depth
    · simp [hdefinition, hdepth, bind, Except.bind] at h
    cases hchild : recordedChild request with
    | some childId => simp [hdefinition, hdepth, hchild, bind, Except.bind, pure, Except.pure] at h
    | none =>
      cases hinput : subInput request with
      | error e => simp [hdefinition, hdepth, hchild, hinput, bind, Except.bind] at h
      | ok input =>
        cases henv : childRunEnv lib resolveRunRepoRoot request with
        | error e => simp [hdefinition, hdepth, hchild, hinput, henv, bind, Except.bind] at h
        | ok env =>
          simp only [hdefinition, hdepth, hchild, hinput, henv, bind, Except.bind, pure, Except.pure, if_false,
            Except.ok.injEq, ChildCall.start.injEq] at h
          subst h
          exact ⟨rfl, rfl⟩

theorem childRunEnv_of_plain (h : strField request.executorConfig "repoRoot" = none) :
    childRunEnv lib resolveRunRepoRoot request = .ok request.workflow.runEnv := by
  simp only [childRunEnv, h]

def Inherits (m : Gateway) (start : StartWorkflow) : Prop :=
  ∀ link, start.parent = some link →
    ∃ inst, Journaled m.world.journal inst ∧ inst.id = link.workflowId ∧ start.runEnv = inst.runEnv

theorem Inherits.step (h : Inherits m start) (hact : m.act (body cfg) a = some m') : Inherits m' start := by
  intro link hlink
  obtain ⟨inst, ⟨write, hw, hinst⟩, hid, henv⟩ := h link hlink
  exact ⟨inst, ⟨write, Lineage.journal_grows hact hw, hinst⟩, hid, henv⟩

theorem Gateway.ReachableWith.dispatched
    (hm : ReachableWith cfg ok definitions m) (hinst : Dispatched m inst) :
    Journaled m.world.journal inst := by
  obtain ⟨t, ht, x, hx, site, request, hmem, rfl⟩ := hinst
  obtain ⟨before, after, hsplit⟩ := append_of_mem hmem
  exact (committed_of_reaches hm t ht x hx _ _ _ hsplit).1

theorem Gateway.ReachableWith.inherits
    (hm : ReachableWith cfg (SpawnsInherit cfg resolveRunRepoRoot) definitions m) :
    ∀ t ∈ m.threads, ∀ x ∈ t.activations, ∀ start, x.1 = .start start → Inherits m start := by
  refine Machine.Reaches.procs Creation.body_wp (R := fun m (p : Proc) => ∀ start, p = .start start → Inherits m start)
    hm.from_reached rfl ?_ ?_ ?_
  · rintro m t q - - - hcallable start rfl
    cases (callable_of_follows hcallable).1
  · rintro m p m' hact ⟨hreached, -, hok⟩ start rfl link hlink
    obtain ⟨request, hasks, hplain⟩ := hok start link rfl hlink
    obtain ⟨hparent, henv⟩ := childCall_start hasks.call
    rw [childRunEnv_of_plain hplain] at henv
    obtain ⟨write, hw, hinst⟩ := ReachableWith.dispatched hreached hasks.dispatched
    refine ⟨request.workflow, ⟨write, Lineage.journal_grows hact hw, hinst⟩, ?_, (Except.ok.inj henv).symm⟩
    rw [hlink] at hparent
    cases hparent
    rfl
  · exact fun hact _ h start hstart => (h start hstart).step hact

theorem Gateway.ReachableWith.startedBy
    (hm : ReachableWith cfg ok definitions m') (hact : m.act (body cfg) a = some m')
    (happ : m.Appends a p hist (.op (.storeCreate inst) r)) :
    ∃ start, inst.StartedBy start ∧ ∃ t ∈ m'.threads, ∃ x ∈ t.activations, x.1 = .start start := by
  obtain ⟨t, ht, hx⟩ := happ.mem hact
  obtain ⟨⟨start, hp, hstarted⟩, -⟩ := Machine.Reaches.footprint Creation.body_wp hm rfl ht hx
  exact ⟨start, hstarted, t, ht, _, hx, hp⟩

def Inheriting (journal : List StoreWrite) (inst : WorkflowInstance) : Prop :=
  ∀ link, inst.parent = some link →
    ∃ parent, Journaled journal parent ∧ parent.id = link.workflowId ∧ inst.runEnv = parent.runEnv

theorem Inheriting.mono (h : Inheriting journal inst)
    (hgrows : ∀ write ∈ journal, write ∈ journal') : Inheriting journal' inst := by
  intro link hlink
  obtain ⟨parent, ⟨write, hw, heq⟩, hid, henv⟩ := h link hlink
  exact ⟨parent, ⟨write, hgrows write hw, heq⟩, hid, henv⟩

theorem Inheriting.sameOrigin (h : Inheriting journal inst)
    (horigin : SameOrigin inst' inst) : Inheriting journal inst' := by
  intro link hlink
  rw [horigin.parent] at hlink
  rw [horigin.runEnv]
  exact h link hlink

theorem Gateway.ReachableWith.inheriting
    (hm : ReachableWith cfg (SpawnsInherit cfg resolveRunRepoRoot) definitions m) :
    ∀ inst, Journaled m.world.journal inst → Inheriting m.world.journal inst := by
  refine hm.from_reached.invariant (I := fun m : Gateway => ∀ inst, Journaled m.world.journal inst →
    Inheriting m.world.journal inst) (fun _ ⟨_, hw, _⟩ => by cases hw) ?_
  rintro m m' a hinv hact ⟨hreached, -, hok⟩ inst ⟨write, hw, rfl⟩
  have hreached' := hreached.step hact hok
  have hlineage := lineage_of_reaches hreached
  have hgrows (old : StoreWrite) (hold : old ∈ m.world.journal) : old ∈ m'.world.journal :=
    Lineage.journal_grows hact hold
  have hkept {inst : WorkflowInstance} (h : Journaled m.world.journal inst) : Inheriting m'.world.journal inst :=
    (hinv inst h).mono hgrows
  rcases hlineage.journal_step hact with ⟨hjournal, -⟩ | ⟨new, hjournal, hadded, -⟩
  · rw [hjournal] at hw
    exact hkept ⟨write, hw, rfl⟩
  rw [hjournal] at hw
  rcases mem_append.mp hw with hold | hlast
  · exact hkept ⟨write, hold, rfl⟩
  cases mem_singleton.mp hlast
  cases hadded with
  | created happ _ _ =>
    obtain ⟨start, hstarted, t, ht, x, hx, hproc⟩ := ReachableWith.startedBy hreached' hact happ
    intro link hlink
    have hparent := hstarted.parent.symm.trans hlink
    obtain ⟨parent, hparentJournaled, hid, henv⟩ := ReachableWith.inherits hreached' t ht x hx start hproc link hparent
    exact ⟨parent, hparentJournaled, hid, (hstarted.runEnv link hparent).trans henv⟩
  | saved _ _ _ hbase _ _ hsaves => exact (hkept hbase).sameOrigin hsaves.sameOrigin

end

section

inductive Descends (w : World) (root : WorkflowInstance) : WorkflowInstance → Prop where
  | root (hfind : w.find root.id = some root) : Descends w root root
  | child {parent inst : WorkflowInstance} {link : ParentLink} (hparent : Descends w root parent)
      (hfind : w.find inst.id = some inst) (hlink : inst.parent = some link) (hid : link.workflowId = parent.id) :
      Descends w root inst

theorem Descends.find {root : WorkflowInstance} (h : Descends w root inst) : w.find inst.id = some inst := by
  cases h with
  | root hfind => exact hfind
  | child _ hfind _ _ => exact hfind

structure SameTree (a b : RunEnv) : Prop where
  runRef : a.runRef = b.runRef
  runId : a.runId = b.runId
  traceId : a.traceId = b.traceId
  leased : a.leased = b.leased
  holder : runLeaseHolder a = runLeaseHolder b
  reads : ∀ (sc : Scopes) (pool : String), readInScopes { sc with runEnv := some a } ("$.run.leased." ++ pool) =
    readInScopes { sc with runEnv := some b } ("$.run.leased." ++ pool)

variable {resolveRunRepoRoot : String → Except Err String}

/-- If no `workflow` executor names a root of its own, every instance of a tree carries the identity and the leases
of the root. -/
theorem run_tree_identity {m : Gateway}
    (hm : ReachableWith cfg (SpawnsInherit cfg resolveRunRepoRoot) definitions m)
    {root inst : WorkflowInstance} (hinst : Descends m.world root inst) : SameTree inst.runEnv root.runEnv := by
  have hlineage := lineage_of_reaches hm
  have henv : inst.runEnv = root.runEnv := by
    induction hinst with
    | root _ => rfl
    | child hparent hfind hlink hid ih =>
      obtain ⟨-, hjournaled⟩ := hlineage.agrees.mem hfind
      obtain ⟨above, habove, haboveId, haboveEnv⟩ := ReachableWith.inheriting hm _ hjournaled _ hlink
      have hfound := hparent.find
      rw [← hid, ← haboveId] at hfound
      rw [haboveEnv, (hlineage.origin habove hfound).runEnv, ih]
  rw [henv]
  exact ⟨rfl, rfl, rfl, rfl, rfl, fun _ _ => rfl⟩

end

def browsingDefinition (fields : Fields) : Value :=
  .object [("version", "1"), ("initialState", "a"), ("exclusive_pools", .array [.string "browser"]),
    ("states", .object [("a", stateOf [("go", transitionOf "b" "deterministic" [("executor",
      .object ([("kind", .string "workflow"), ("definitionId", .string "c")] ++ fields))])]), ("b", terminalState)])]

def leafDefinition : Value :=
  definitionOf "a" [("a", stateOf [("go", transitionOf "b" "caller" [])]), ("b", terminalState)]

def RuntimeConfig.browsing : RuntimeConfig :=
  { RuntimeConfig.plain with exclusivePools := [("browser", ["chrome"])] }

def spawnScript (env : RunEnv) : List GatewayAction :=
  .spawn (.start (startOf "d")) :: answers 0 1 ++ [.answer 0 (.fresh "1")] ++ answers 0 3 ++ [.answer 0 (.fresh "1")] ++
    answers 0 2 ++ .enter 0 :: answers 0 7 ++
    .spawn (.start ⟨"c", .emptyObject, .anonymous, env, 1, some ⟨"wf_1", "go"⟩⟩) :: answers 1 1 ++
    [.answer 1 (.fresh "2")] ++ answers 1 1 ++ [.answer 1 (.fresh "2")] ++ answers 1 1

def askedBy (ok : Value → Bool) (start : StartWorkflow) : Event Sig → Bool
  | .op (.executeBegin _ request) _ => ok request.executorConfig &&
      match childCall Libraries.plain .ok request with
      | .ok (.start asked) => decide (asked = start)
      | _ => false
  | _ => false

def spawnsAsked (ok : Value → Bool) (m : Gateway) : GatewayAction → Bool
  | .spawn (.start start) => start.parent.isNone ||
      m.threads.any fun t => t.activations.any fun x => x.2.any (askedBy ok start)
  | _ => true

theorem asks_of_spawnsAsked (h : spawnsAsked ok m (.spawn (.start start))) (hlink : start.parent = some link) :
    ∃ request, Asks .browsing .ok m request start ∧ ok request.executorConfig := by
  simp only [spawnsAsked, hlink, Option.isNone_some, Bool.false_or, List.any_eq_true] at h
  obtain ⟨t, ht, x, hx, e, he, hasked⟩ := h
  unfold askedBy at hasked
  split at hasked
  · rename_i site request r
    rw [Bool.and_eq_true] at hasked
    obtain ⟨hok, hcall⟩ := hasked
    split at hcall
    · rename_i asked hchild
      cases of_decide_eq_true hcall
      exact ⟨request, ⟨⟨t, ht, x, hx, site, request, he, rfl⟩, hchild⟩, hok⟩
    · cases hcall
  · cases hasked

def treeOf (w : World) : Option (WorkflowInstance × WorkflowInstance) :=
  match w.find "wf_1", w.find "wf_2" with
  | some root, some inst =>
      if root.id = "wf_1" ∧ root.parent = none ∧ inst.id = "wf_2" ∧ inst.parent = some ⟨"wf_1", "go"⟩ then some (root, inst)
      else none
  | _, _ => none

theorem descends_of_treeOf (h : treeOf w = some (root, inst)) : root.parent = none ∧ Descends w root inst := by
  unfold treeOf at h
  split at h
  · rename_i hroot hinst
    obtain ⟨⟨hrootId, hnone, hinstId, hlink⟩, heq⟩ := ite_none_right_eq_some.mp h
    cases heq
    exact ⟨hnone, .child (.root (by rw [hrootId]; exact hroot)) (by rw [hinstId]; exact hinst) hlink hrootId.symm⟩
  · cases h

theorem spawnsAsked_asked (m : Gateway) (a : GatewayAction) (m' : Gateway) (h : spawnsAsked (fun _ => true) m a) :
    SpawnsAsked .browsing .ok m a m' := by
  rintro start link rfl hlink
  obtain ⟨request, hasks, -⟩ := asks_of_spawnsAsked h hlink
  exact ⟨request, hasks⟩

theorem spawnsAsked_inherit (m : Gateway) (a : GatewayAction) (m' : Gateway)
    (h : spawnsAsked (fun config => decide (strField config "repoRoot" = none)) m a) :
    SpawnsInherit .browsing .ok m a m' := by
  rintro start link rfl hlink
  obtain ⟨request, hasks, hplain⟩ := asks_of_spawnsAsked h hlink
  exact ⟨request, hasks, of_decide_eq_true hplain⟩

def strayed (tree : WorkflowInstance × WorkflowInstance) : Bool :=
  decide (tree.1.runEnv.runRef = some "wf_1" ∧ tree.2.runEnv.runRef = none ∧
    tree.1.runEnv.leased = [("browser", "chrome")] ∧ tree.2.runEnv.leased = [])

/-- A child with a `repoRoot` of its own has lost the run it belongs to, and the browser it leased. -/
theorem override_leaves_tree : ∃ m, ReachableWith .browsing (SpawnsAsked .browsing .ok)
      [("d", browsingDefinition [("repoRoot", "$.run.repo_root")]), ("c", leafDefinition)] m ∧
    ∃ root inst, root.parent = none ∧ Descends m.world root inst ∧ root.runEnv.runRef = some "wf_1" ∧
      inst.runEnv.runRef = none ∧ root.runEnv.leased = [("browser", "chrome")] ∧ inst.runEnv.leased = [] ∧
      ¬ SameTree inst.runEnv root.runEnv := by
  obtain ⟨m, hm, h⟩ := reachableWith_of_script .browsing
    [("d", browsingDefinition [("repoRoot", "$.run.repo_root")]), ("c", leafDefinition)]
    (spawnScript (.new "/" none none))
    (fun m => (treeOf m.world).any strayed) (spawnsAsked fun _ => true) spawnsAsked_asked
  obtain ⟨⟨root, inst⟩, htree, hdiff⟩ := (any_eq_true _ _).mp h
  obtain ⟨hroot, hinst, hheld, hnone⟩ := of_decide_eq_true hdiff
  obtain ⟨hparent, hdescends⟩ := descends_of_treeOf htree
  refine ⟨m, hm, root, inst, hparent, hdescends, hroot, hinst, hheld, hnone, fun hsame => ?_⟩
  cases hinst.symm.trans (hsame.runRef.trans hroot)

theorem plain_child_in_tree : ∃ m, ReachableWith .browsing (SpawnsInherit .browsing .ok)
      [("d", browsingDefinition []), ("c", leafDefinition)] m ∧
    ∃ root inst, root.parent = none ∧ inst.parent.isSome = true ∧ Descends m.world root inst ∧
      SameTree inst.runEnv root.runEnv := by
  obtain ⟨m, hm, h⟩ := reachableWith_of_script .browsing
    [("d", browsingDefinition []), ("c", leafDefinition)]
    (spawnScript ⟨"/", none, none, some "wf_1", [("browser", "chrome")]⟩)
    (fun m => (treeOf m.world).any fun tree => tree.2.parent.isSome)
    (spawnsAsked fun config => decide (strField config "repoRoot" = none)) spawnsAsked_inherit
  obtain ⟨⟨root, inst⟩, htree, hchild⟩ := (any_eq_true _ _).mp h
  obtain ⟨hparent, hdescends⟩ := descends_of_treeOf htree
  exact ⟨m, hm, root, inst, hparent, hchild, hdescends, run_tree_identity hm hdescends⟩

end Praxec
