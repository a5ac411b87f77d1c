import Praxec.Runtime.Replay
import Praxec.Runtime.StateLocal
import Praxec.Runtime.Tally

namespace Praxec

open Json Effect List Option Gateway

variable {cfg : RuntimeConfig}

def whileOf (definition : Value) (state : String) : Option (Value × Nat) := do
  let stateDef ← stateDefinition definition state
  let guard ← stateDef.get "while"
  let limit ← u64Field stateDef "max_iterations"
  return (guard, limit)

/-- The instance on which a fired transition is judged: its output has been mapped in, and of the rest of the
context only the caller's summary and the fire counters of the state have been set. -/
structure PostOutput (cfg : RuntimeConfig) (f : Firing) (inst : WorkflowInstance) : Prop where
  rest : inst = { f.before with context := inst.context }
  context : ∃ applied, Maps cfg.lib f.before (f.definition.get "output") applied ∧ ∀ key, key ≠ "summary" →
    (∀ t, key ≠ fireCountKey f.before.state t) → inst.context.get key = applied.get key

/-- A transition out of a state with a `while` guard goes back to the state, counted and within the limit, if the
guard is true on the post-output context, and to its resolved target if it is false. -/
def LoopStep (cfg : RuntimeConfig) (h : History) (f : Firing) (next : WorkflowInstance) (guard : Value)
    (limit : Nat) : Prop :=
  ∃ inst target, PostOutput cfg f inst ∧
    TargetOf (fun condition pass => Judged condition inst f.arguments pass h) f.definition target ∧
    (Judged guard inst f.arguments true h ∧ next.state = f.before.state ∧
        (∃ n, readCounterSlot f.before.context (whileIterKey f.before.state) = .ok n ∧
          readCounterSlot next.context (whileIterKey f.before.state) = .ok (n + 1) ∧ n + 1 ≤ limit) ∨
      Judged guard inst f.arguments false h ∧ next.state = target)

/-- How often the current state has been entered again through its `while` guard since it was entered from
another one. -/
def addLoops (loops : Nat) : StoreWrite → Nat
  | .created _ => 0
  | .saved (.transition f) next =>
      if next.state ≠ f.before.state then 0
      else if f.site ≠ .timeout ∧ (whileOf f.before.definition f.before.state).isSome then loops + 1
      else loops
  | .saved .. => loops

def loopsInVisit (id : String) (journal : List StoreWrite) : Nat :=
  tally addLoops 0 id journal

/-- The event keeps loops and counters together: a state with a `while` guard is left by submits only, under
a limit that 32 bits can tell from all larger counts, and never for itself; and no output is mapped onto the
counter of the state it is mapped in. -/
def LoopsKept : Event Sig → Prop
  | .op (.storeSave (.transition f) _ _) _ => f.site ≠ .timeout →
      whileIterKey f.before.state ∉ writtenSlots (f.definition.get "output") ∧
      ∀ guard limit, whileOf f.before.definition f.before.state = some (guard, limit) →
        f.site = .submit ∧ limit % 2 ^ 32 ≠ 2 ^ 32 - 1 ∧
        ∀ v target, TargetOf v f.definition target → target ≠ f.before.state
  | .op (.storeSave (.slotUpdates base mapping) _ _) _ | .op (.storeSave (.onEnter base mapping) _ _) _ =>
      whileIterKey base.state ∉ writtenSlots mapping
  | .op (.storeCreate inst) _ => inst.context.isObject = true
  | _ => True

def KeepsLoops (m : Gateway) (a : GatewayAction) (_ : Gateway) : Prop :=
  ∀ p hist e, m.Appends a p hist e → LoopsKept e

section

variable {a : Admitted} {arguments context : Value} {v : Value → WorkflowInstance → Bool → Prop} {work : SubmitWork}
  {next inst : WorkflowInstance} {guard : Value} {limit current : Nat}

theorem whileIterKey_ne_summary : whileIterKey state ≠ "summary" := by
  intro h
  have hchars := congrArg String.toList h
  simp [whileIterKey] at hchars

theorem whileIterKey_ne_fireCountKey (state other t : String) : whileIterKey state ≠ fireCountKey other t := by
  intro h
  have hchars := congrArg String.toList h
  simp [whileIterKey, fireCountKey, fireCountStem] at hchars

theorem whileIterKey_not_waitMarker : whileIterKey state ∉ waitMarkers := by
  intro h
  simp only [waitMarkers, mem_cons, not_mem_nil, or_false] at h
  rcases h with h | h <;>
  · have hchars := congrArg String.toList h
    simp [whileIterKey] at hchars

theorem PostOutput.submit (hwork : work.Of cfg a arguments)
    (hcount : countFire a (withSummary a.request.summary work.next.context) = .ok context) :
    PostOutput cfg (a.firing arguments) { work.next with context := context } := by
  refine ⟨by rw [hwork.frame]; rfl, _, hwork.maps, fun key hsummary hfire => ?_⟩
  exact (get_countFire_of_ne hcount (hfire _)).trans (get_withSummary_of_ne hsummary)

theorem PostOutput.counter (hpost : PostOutput cfg f inst)
    (hunwritten : whileIterKey f.before.state ∉ writtenSlots (f.definition.get "output")) :
    readCounterSlot inst.context (whileIterKey f.before.state) =
    readCounterSlot f.before.context (whileIterKey f.before.state) := by
  obtain ⟨applied, hmaps, hkept⟩ := hpost.context
  have happlied := (hmaps.get_of_not_written hunwritten).resolve_right fun h => whileIterKey_not_waitMarker h.1
  exact readCounterSlot_congr ((hkept _ (whileIterKey_ne_summary) fun t => whileIterKey_ne_fireCountKey _ _ t).trans happlied)

theorem readWhileIter_again (hlimit : limit % 2 ^ 32 ≠ 2 ^ 32 - 1)
    (hcurrent : readWhileIter inst state = .ok current) (hle : min (current + 1) (2 ^ 32 - 1) ≤ limit % 2 ^ 32) :
    readCounterSlot inst.context (whileIterKey state) = .ok current ∧ min (current + 1) (2 ^ 32 - 1) = current + 1 ∧
    current + 1 ≤ limit := by
  unfold readWhileIter at hcurrent
  cases hread : readCounterSlot inst.context (whileIterKey state) with
  | error e => rw [hread] at hcurrent; cases hcurrent
  | ok n =>
    rw [hread] at hcurrent
    have hn : min n (2 ^ 32 - 1) = current := Except.ok.inj hcurrent
    have hsame : n = current := by omega
    exact ⟨by rw [hsame], by omega, by omega⟩

theorem Admitted.Commits.loops (hnext : a.Commits v work next) (hwork : work.Of cfg a arguments)
    (hobject : a.inst.context.isObject) (hwhile : whileOf a.inst.definition a.inst.state = some (guard, limit))
    (hlimit : limit % 2 ^ 32 ≠ 2 ^ 32 - 1)
    (hunwritten : whileIterKey a.inst.state ∉ writtenSlots (a.transition.get "output")) :
    ∃ inst target, PostOutput cfg (a.firing arguments) inst ∧ TargetOf (fun condition => v condition inst) a.transition target ∧
      ((v guard inst true ∧ next.state = a.inst.state ∧
          ∃ n, readCounterSlot a.inst.context (whileIterKey a.inst.state) = .ok n ∧
            readCounterSlot next.context (whileIterKey a.inst.state) = .ok (n + 1) ∧ n + 1 ≤ limit) ∨
        v guard inst false ∧ next.state = target) := by
  obtain ⟨stateDef, hstate, hguard⟩ := bind_eq_some_iff.mp hwhile
  obtain ⟨guard', hguard', hrest⟩ := bind_eq_some_iff.mp hguard
  obtain ⟨limit', hlimit', heq⟩ := bind_eq_some_iff.mp hrest
  cases heq
  cases hnext with
  | intro hcount htarget hloop =>
    rename_i context rerouted looped target
    have hpost := PostOutput.submit hwork hcount
    refine ⟨_, target, hpost, htarget, ?_⟩
    cases hloop with
    | undeclared hnone => cases hnone.symm.trans hstate
    | unlooped hstate' hnone =>
      cases hstate'.symm.trans hstate
      cases hnone.symm.trans hguard'
    | leave hstate' hsome hverdict =>
      cases hstate'.symm.trans hstate
      cases hsome.symm.trans hguard'
      exact .inr ⟨hverdict, rfl⟩
    | again hstate' hsome hcap hverdict hcurrent hle =>
      cases hstate'.symm.trans hstate
      cases hsome.symm.trans hguard'
      cases hcap.symm.trans hlimit'
      obtain ⟨hread, hcounted, hbound⟩ := readWhileIter_again hlimit hcurrent hle
      have hobject : context.isObject := (hwork.edited.trans (edited_countFire hcount)).isObject.trans hobject
      rename_i current
      refine .inl ⟨hverdict, rfl, current, (hpost.counter hunwritten).symm.trans hread, ?_, hbound⟩
      dsimp only [getD_some]
      rw [exitInstance, if_pos rfl, writeWhileIter, hcounted, readCounterSlot, Value.get_insert hobject, if_pos rfl]
      rfl

end

/-- The counter of the current state is not below the loops of the visit; a state without a guard has none. -/
structure CountsLoops (inst : WorkflowInstance) (loops : Nat) : Prop where
  counted : loops ≠ 0 → ∃ n, readCounterSlot inst.context (whileIterKey inst.state) = .ok n ∧ loops ≤ n
  unlooped : whileOf inst.definition inst.state = none → loops = 0

namespace CountsLoops

variable {next : WorkflowInstance} {loops : Nat}

theorem zero (inst : WorkflowInstance) : CountsLoops inst 0 :=
  ⟨fun h => absurd rfl h, fun _ => rfl⟩

theorem congr (hb : CountsLoops base loops) (hstate : next.state = base.state) (hdefinition : next.definition = base.definition)
    (hcontext : next.context.get (whileIterKey base.state) = base.context.get (whileIterKey base.state)) :
    CountsLoops next loops := by
  refine ⟨fun hloops => ?_, fun hnone => hb.unlooped ?_⟩
  · rw [hstate, readCounterSlot_congr hcontext]
    exact hb.counted hloops
  · rwa [hstate, hdefinition] at hnone

theorem rebound (hs : CountsLoops base loops) (hr : Rebound next base) : CountsLoops next loops :=
  hs.congr (by rw [← hr.rest]) hr.sameRun.definition
    (hr.context _ fun h => whileIterKey_not_waitMarker (by rw [h]; exact .head _))

end CountsLoops

section

variable {h : History} {f : Firing} {next : WorkflowInstance} {guard : Value} {limit loops v : Nat}
  {r : Except Err WorkflowInstance}

theorem Commit.loopStep (hc : Commit cfg Φ h f next) (hobject : f.before.context.isObject)
    (hkept : LoopsKept (.op (.storeSave (.transition f) next v) r)) (hsite : f.site ≠ .timeout)
    (hwhile : whileOf f.before.definition f.before.state = some (guard, limit)) : LoopStep cfg h f next guard limit := by
  obtain ⟨hunwritten, hdeclared⟩ := hkept hsite
  obtain ⟨hsubmit, hlimit, -⟩ := hdeclared guard limit hwhile
  cases hc with
  | hop _ hhop _ _ _ => exact absurd hsubmit hhop.site.1
  | timeout _ => exact absurd rfl hsite
  | submit _ hwork hnext => exact hnext.loops hwork hobject hwhile hlimit hunwritten

theorem LoopStep.counted (hstep : LoopStep cfg h f next guard limit) (hb : CountsLoops f.before loops)
    (hother : ∀ v target, TargetOf v f.definition target → target ≠ f.before.state) (hstay : next.state = f.before.state) :
    ∃ n, readCounterSlot next.context (whileIterKey f.before.state) = .ok n ∧ loops + 1 ≤ n ∧ n ≤ limit := by
  obtain ⟨inst, target, -, htarget, ⟨-, -, n, hbefore, hafter, hbound⟩ | ⟨-, hstate⟩⟩ := hstep
  · refine ⟨n + 1, hafter, ?_, hbound⟩
    by_cases hloops : loops = 0
    · omega
    · obtain ⟨k, hread, hle⟩ := hb.counted hloops
      cases hread.symm.trans hbefore
      omega
  · exact absurd (hstate.symm.trans hstay) (hother _ _ htarget)

theorem Commit.countsLoops (hc : Commit cfg Φ h f next) (hb : CountsLoops f.before loops)
    (hobject : f.before.context.isObject) (hkept : LoopsKept (.op (.storeSave (.transition f) next v) r)) :
    CountsLoops next (addLoops loops (.saved (.transition f) next)) := by
  by_cases hstay : next.state = f.before.state
  · have hdefinition : next.definition = f.before.definition := by rw [hc.frame]
    simp only [addLoops, hstay, ne_eq, not_true_eq_false, if_false]
    cases hwhile : whileOf f.before.definition f.before.state with
    | none =>
      rw [if_neg (by simp), hb.unlooped hwhile]
      exact .zero next
    | some declared =>
      by_cases hsite : f.site = .timeout
      · rw [if_neg fun h => h.1 hsite]
        exact hb.congr hstay hdefinition (by rw [hc.context_of_timeout hsite])
      · rw [if_pos ⟨hsite, rfl⟩]
        obtain ⟨-, -, hother⟩ := (hkept hsite).2 declared.1 declared.2 hwhile
        obtain ⟨n, hread, hle, -⟩ := (hc.loopStep hobject hkept hsite hwhile).counted hb hother hstay
        refine ⟨fun _ => ⟨n, by rw [hstay]; exact hread, hle⟩, fun hnone => ?_⟩
        rw [hstay, hdefinition] at hnone
        cases hnone.symm.trans hwhile
  · have hleft : addLoops loops (.saved (.transition f) next) = 0 := if_pos hstay
    rw [hleft]
    exact .zero next

theorem Saves.countsLoops (hs : Saves cfg Φ h kind next) (hb : CountsLoops kind.base loops)
    (hobject : kind.base.context.isObject) (hkept : LoopsKept (.op (.storeSave kind next v) r)) :
    CountsLoops next (addLoops loops (.saved kind next)) := by
  have hmarker {marker state : String} (hm : marker ∈ ["_lock_wait", "_subworkflow_wait", "_agent_await"]) :
      whileIterKey state ≠ marker := by
    rintro rfl
    simp only [mem_cons, not_mem_nil, or_false] at hm
    rcases hm with h | h | h <;>
    · have hchars := congrArg String.toList h
      simp [whileIterKey] at hchars
  cases hs with
  | transition hcommit _ => exact hcommit.countsLoops hb hobject hkept
  | lockWait _ | subworkflowWait | agentAwait | spawnBinding =>
    exact hb.congr rfl rfl (get_writeMarker_of_ne _ _ (hmarker (by simp)))
  | slotUpdates _ _ _ hmerge => exact hb.congr rfl rfl (mergeOutput_get_of_not_written _ _ hmerge hkept)
  | onEnter _ hmerge _ => exact hb.congr rfl rfl (mergeOutput_get_of_not_written _ _ hmerge hkept)
  | deadWait => exact hb.congr rfl rfl ((Value.get_remove _ _ _).trans (if_neg (hmarker (by simp))))
  | cancel => exact hb.congr rfl rfl rfl

end

/-- A write of an object, that enters no state again through its `while` guard as often as its limit. -/
def WithinLimit (loops : Nat) (write : StoreWrite) : Prop :=
  write.inst.context.isObject = true ∧ ∀ f next, write = .saved (.transition f) next → f.site ≠ .timeout →
    ∀ guard limit, whileOf f.before.definition f.before.state = some (guard, limit) →
      next.state = f.before.state → loops < limit

theorem Tallied.loops (hm : Tallied cfg addLoops 0 CountsLoops WithinLimit m) (hok : KeepsLoops m a m')
    (hadded : Added cfg (fun _ _ => True) m a write) :
    CountsLoops write.inst (addLoops (loopsInVisit write.inst.id m.world.journal) write) ∧
    WithinLimit (loopsInVisit write.inst.id m.world.journal) write := by
  cases hadded with
  | created happ _ _ =>
    have hobject := hok _ _ _ happ
    exact ⟨.zero _, hobject, fun _ _ heq => (by cases heq)⟩
  | saved _ happ hfind hbase hrebound _ hsaves =>
    have hkept := hok _ _ _ happ
    have hcounts := (hm.stored _ _ hfind).rebound hrebound
    obtain ⟨_, write, hwrite, hobject, -⟩ := hm.journaled hbase
    rw [hwrite] at hobject
    refine ⟨hsaves.countsLoops hcounts hobject hkept, hsaves.isObject hobject,
      fun f next heq hsite guard limit hwhile hstay => ?_⟩
    cases heq
    obtain ⟨-, -, hother⟩ := (hkept hsite).2 guard limit hwhile
    obtain ⟨n, -, hle, hbound⟩ := (hsaves.commit.loopStep hobject hkept hsite hwhile).counted hcounts hother hstay
    exact Nat.lt_of_lt_of_le hle hbound

theorem Gateway.ReachableWith.loops (hm : ReachableWith cfg KeepsLoops definitions m) :
    Tallied cfg addLoops 0 CountsLoops WithinLimit m :=
  ReachableWith.tallied hm fun ht hok hadded => ht.loops hok hadded

/-- Every transition out of a state with a `while` guard goes where the guard says, and no visit enters the
state again through the guard more often than its limit. -/
theorem while_loops_bounded {m : Gateway} (hm : ReachableWith cfg KeepsLoops definitions m) :
    (∀ t ∈ m.threads, ∀ x ∈ t.activations, ∀ before f next v r after,
      x.2 = before ++ .op (.storeSave (.transition f) next v) r :: after → f.site ≠ .timeout →
      ∀ guard limit, whileOf f.before.definition f.before.state = some (guard, limit) →
        LoopStep cfg before f next guard limit) ∧
    ∀ before f next after, m.world.journal = before ++ .saved (.transition f) next :: after → f.site ≠ .timeout →
      ∀ guard limit, whileOf f.before.definition f.before.state = some (guard, limit) →
        next.state = f.before.state → loopsInVisit next.id before + 1 ≤ limit := by
  have htallied := ReachableWith.loops hm
  refine ⟨fun t ht x hx before f next v r after hsplit hsite guard limit hwhile => ?_,
    fun before f next after hsplit hsite guard limit hwhile hstay =>
      (htallied.written before _ after hsplit).2 f next rfl hsite guard limit hwhile hstay⟩
  have hmem : .op (.storeSave (.transition f) next v) r ∈ x.2 := by rw [hsplit]; simp
  have hkept := hm.appended (A := LoopsKept) (fun hstep p hist _ _ => hstep p hist _) (fun _ _ => trivial)
    (fun _ _ => trivial) rfl t ht x hx _ hmem
  obtain ⟨⟨hbase, -⟩, hsaves⟩ := committed_of_reaches hm t ht x hx before _ after hsplit
  obtain ⟨_, write, hwrite, hobject, -⟩ := htallied.journaled hbase
  rw [hwrite] at hobject
  exact hsaves.commit.loopStep hobject hkept hsite hwhile

def loopingDefinition (actor : String) : Value :=
  definitionOf "a" [("a", .object [("while", .emptyObject), ("max_iterations", .nat 5),
    ("transitions", .object [("go", transitionOf "b" actor [])])]), ("b", terminalState)]

def loopScript : List GatewayAction :=
  launch 0 "d" "1" ++ .spawn (.submit (goSubmit "wf_1" 0)) :: answers 1 1 ++ [.answer 1 (.fresh "2")] ++ answers 1 1 ++
    [.answer 1 (.verdict (.ok (true, none)))] ++ answers 1 3

def asksGuard : Event Sig → Bool
  | .op (.guardEvaluate ..) _ => true
  | _ => false

def leavesLoop : Event Sig → Bool
  | .op (.storeSave (.transition f) next _) _ => decide (f.site ≠ .timeout ∧ next.state ≠ f.before.state ∧
      (whileOf f.before.definition f.before.state).isSome)
  | _ => false

/-- A hop leaves a state whose `while` guard it has not asked for. -/
theorem hop_ignores_while : ∃ m, Reachable .plain [("d", loopingDefinition "deterministic")] m ∧
      ∃ t ∈ m.threads, ∃ x ∈ t.activations, ∃ before f next v r after,
        x.2 = before ++ .op (.storeSave (.transition f) next v) r :: after ∧ f.site ≠ .timeout ∧
        next.state ≠ f.before.state ∧ (∀ e ∈ x.2, asksGuard e = false) ∧
        ∃ guard limit, whileOf f.before.definition f.before.state = some (guard, limit) ∧
          ¬ LoopStep .plain before f next guard limit := by
  obtain ⟨m, hm, h⟩ := reachable_of_script .plain [("d", loopingDefinition "deterministic")] hopScript
    (fun m => ∃ t ∈ m.threads, ∃ x ∈ t.activations, (∃ e ∈ x.2, leavesLoop e = true) ∧
      ∀ e ∈ x.2, asksGuard e = false)
  obtain ⟨t, ht, x, hx, ⟨e, he, hleaves⟩, hunasked⟩ := h
  obtain ⟨before, after, hsplit⟩ := append_of_mem he
  unfold leavesLoop at hleaves
  split at hleaves
  · rename_i f next v r
    obtain ⟨hsite, hleft, hwhile⟩ := of_decide_eq_true hleaves
    obtain ⟨⟨guard, limit⟩, hwhile⟩ := isSome_iff_exists.mp hwhile
    refine ⟨m, hm, t, ht, x, hx, before, f, next, v, r, after, hsplit, hsite, hleft, hunasked, guard, limit, hwhile, ?_⟩
    rintro ⟨inst, target, -, -, ⟨-, hstate, -⟩ | ⟨⟨principal, diagnostic, hasked⟩, -⟩⟩
    · exact hleft hstate
    · have hno := hunasked _ (by rw [hsplit]; exact mem_append_left _ hasked)
      cases hno
  · cases hleaves

def submitsLoop (m : Gateway) (a : GatewayAction) : Bool :=
  match m.pending a with
  | some (.storeSave (.transition f) _ _) => decide (f.site = .submit ∧ f.definition = transitionOf "b" "caller" [] ∧
      f.before.state = "a" ∧ f.before.definition = loopingDefinition "caller")
  | some (.storeSave ..) => false
  | some (.storeCreate inst) => inst.context.isObject
  | _ => true

theorem keepsLoops_of_submitsLoop (m : Gateway) (a : GatewayAction) (m' : Gateway) (h : submitsLoop m a) :
    KeepsLoops m a m' := by
  intro p hist e happ
  cases e with
  | call p r | timeout p r => trivial
  | op o r =>
    unfold submitsLoop at h
    rw [happ.pending] at h
    cases o with
    | storeCreate inst => exact h
    | storeSave kind next v =>
      cases kind with
      | transition f =>
        obtain ⟨hsite, hdefinition, hstate, hrun⟩ := of_decide_eq_true h
        intro _
        rw [hdefinition, hstate, hrun]
        refine ⟨by decide, fun guard limit hwhile => ⟨hsite, ?_, ?_⟩⟩
        · cases hwhile
          decide
        · rintro v target ⟨dflt, hdflt, htarget⟩
          cases hdflt
          cases htarget
          decide
      | _ => cases h
    | _ => trivial

theorem submit_loops : ∃ m, ReachableWith .plain KeepsLoops [("d", loopingDefinition "caller")] m ∧
      (m.world.find "wf_1").map WorkflowInstance.state = some "a" ∧ loopsInVisit "wf_1" m.world.journal = 1 ∧
      ∀ before f next after, m.world.journal = before ++ .saved (.transition f) next :: after → f.site ≠ .timeout →
        ∀ guard limit, whileOf f.before.definition f.before.state = some (guard, limit) →
          next.state = f.before.state → loopsInVisit next.id before + 1 ≤ limit := by
  obtain ⟨m, hm, h⟩ := reachableWith_of_script .plain [("d", loopingDefinition "caller")] loopScript
    (fun m => (m.world.find "wf_1").map WorkflowInstance.state = some "a" ∧
      loopsInVisit "wf_1" m.world.journal = 1) submitsLoop keepsLoops_of_submitsLoop
  obtain ⟨hstate, hloops⟩ := h
  exact ⟨m, hm, hstate, hloops, (while_loops_bounded hm).2⟩

end Praxec
