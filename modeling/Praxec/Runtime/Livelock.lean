import Praxec.Runtime.Cancellation
import Praxec.Runtime.Replay
import Praxec.Runtime.Replies
import Praxec.Runtime.Tally

namespace Praxec

open Json Effect Prog Monitor List Option Value Nat Gateway

variable {cfg : RuntimeConfig} {definitions : Fields}

def addHops (hops : Nat) : StoreWrite → Nat
  | .created _ => 0
  | .saved (.transition f) _ => if f.site = .submit ∨ f.site = .timeout then hops else hops + 1
  | .saved .. => hops

def hopsCommitted (id : String) (journal : List StoreWrite) : Nat :=
  tally addHops 0 id journal

def hopsCharged (inst : WorkflowInstance) : Nat :=
  (u64Field inst.context chainHopsTotalKey).getD 0

structure CountsHops (inst : WorkflowInstance) (hops : Nat) : Prop where
  charged : hops ≤ hopsCharged inst
  within : hops ≤ livelockBudgetOf inst.definition

/-- The event leaves the hop counter to the chain: no output is mapped onto it, no state that a submit leaves
declares it as its own slot, and a run begins with a context that can hold it. -/
def HopsKept : Event Sig → Prop
  | .op (.storeSave (.transition f) _ _) _ =>
      (f.site ≠ .timeout → chainHopsTotalKey ∉ writtenSlots (f.definition.get "output")) ∧
      (f.site = .submit → chainHopsTotalKey ∉ stateLocalSlots f.before.definition f.before.state)
  | .op (.storeSave (.slotUpdates _ mapping) _ _) _ | .op (.storeSave (.onEnter _ mapping) _ _) _ =>
      chainHopsTotalKey ∉ writtenSlots mapping
  | .op (.storeCreate inst) _ => inst.context.isObject = true
  | _ => True

/-- Steps that leave the hop counter to the chain, and where the store does not fail a call once a drive of it
has quarantined its run. -/
def KeepsHops (m : Gateway) (a : GatewayAction) (_ : Gateway) : Prop :=
  ∀ p hist e, m.Appends a p hist e → HopsKept e ∧ ((∃ id, ∃ x ∈ hist, Quarantines id x) → ¬ StoreFails e)

section

variable {next : WorkflowInstance} {hops : Nat}

theorem hopsCharged_congr (h : next.context.get chainHopsTotalKey = base.context.get chainHopsTotalKey) :
    hopsCharged next = hopsCharged base := by
  rw [hopsCharged, u64Field, h, hopsCharged, u64Field]

theorem CountsHops.congr (hb : CountsHops base hops) (hdefinition : next.definition = base.definition)
    (hcontext : next.context.get chainHopsTotalKey = base.context.get chainHopsTotalKey) : CountsHops next hops where
  charged := by
    rw [hopsCharged_congr hcontext]
    exact hb.charged
  within := by
    rw [hdefinition]
    exact hb.within

theorem CountsHops.rebound (hb : CountsHops base hops) (hr : Rebound next base) : CountsHops next hops :=
  hb.congr hr.sameRun.definition (hr.context _ (by decide))

theorem hopsCharged_of_charged (hobject : context.isObject)
    (hcontext : context.get chainHopsTotalKey = base.context.get chainHopsTotalKey)
    (hnext : next.context = chargedContext context ms) : hopsCharged next = hopsCharged base + 1 := by
  unfold hopsCharged u64Field
  rw [hnext, ← hcontext, chargedContext, get_insert_of_ne _ _ (by decide), get_insert hobject]
  rfl

end

section

variable {h : History} {next : WorkflowInstance} {hops v : Nat}

theorem not_runtimeKey_hops (a : Admitted) (arguments : Value) :
    ¬ RuntimeKey (a.firing arguments) chainHopsTotalKey := by
  rintro (h | h | h)
  · revert h
    decide
  · simpa [whileIterKey, chainHopsTotalKey] using congrArg String.toList h
  · obtain ⟨t, h⟩ := (Text.startsWith_iff _ _).mp h
    simpa [fireCountStem, chainHopsTotalKey] using congrArg String.toList h

theorem Maps.keeps_hops
    (hm : Maps cfg.lib base mapping applied) (hunwritten : chainHopsTotalKey ∉ writtenSlots mapping) :
    applied.get chainHopsTotalKey = base.context.get chainHopsTotalKey :=
  (hm.get_of_not_written hunwritten).resolve_right fun h => absurd h.1 (by decide)

theorem Commit.countsHops (hc : Commit cfg Φ h f next) (hb : CountsHops f.before hops)
    (hobject : f.before.context.isObject) (hkept : HopsKept (.op (.storeSave (.transition f) next v) r)) :
    CountsHops next (addHops hops (.saved (.transition f) next)) := by
  obtain ⟨hunwritten, hslots⟩ := hkept
  have hdefinition : next.definition = f.before.definition := by rw [hc.frame]
  cases hc with
  | timeout hout => exact hb.congr rfl rfl
  | @submit a arguments work _ hgated hwork hnext =>
    refine hb.congr hdefinition ?_
    have hworked := hwork.maps.keeps_hops (hunwritten (by simp [Admitted.firing]))
    rcases hnext.kept (not_runtimeKey_hops a arguments) with hkept | ⟨⟨-, hslot⟩, -⟩
    · exact hkept.trans hworked
    · exact absurd hslot (hslots rfl)
  | @hop args d hop work _ hdefined hhop hwork hnext hbelow =>
    obtain ⟨hsubmit, htimeout⟩ := hhop.site
    have hworked := hwork.maps.keeps_hops (hunwritten htimeout)
    cases hnext with
    | @intro target restored hopMs _ hledger =>
      have hrestored : restored.get chainHopsTotalKey = d.inst.context.get chainHopsTotalKey :=
        (get_commitContinuation_of_ne hledger (by decide)).trans hworked
      have hcan : restored.isObject :=
        (hwork.edited.trans (edited_commitContinuation hledger)).isObject.trans hobject
      have hhops : hops ≤ hopsCharged d.inst := hb.charged
      have hbudget : hopsCharged d.inst < livelockBudgetOf d.inst.definition := hdefined ▸ hbelow
      rw [addHops, if_neg (by simp [hsubmit, htimeout])]
      refine ⟨?_, ?_⟩
      · rw [hopsCharged_of_charged hcan hrestored rfl]
        omega
      · rw [hdefinition]
        exact Nat.lt_of_le_of_lt hhops hbudget

theorem Saves.countsHops (hs : Saves cfg Φ h kind next) (hb : CountsHops kind.base hops)
    (hobject : kind.base.context.isObject) (hkept : HopsKept (.op (.storeSave kind next v) r)) :
    CountsHops next (addHops hops (.saved kind next)) := by
  cases hs with
  | transition hcommit _ => exact hcommit.countsHops hb hobject hkept
  | lockWait _ | subworkflowWait | agentAwait | spawnBinding =>
    exact hb.congr rfl (get_writeMarker_of_ne _ _ (by decide))
  | slotUpdates _ _ _ hmerge | onEnter _ hmerge _ =>
    exact hb.congr rfl (mergeOutput_get_of_not_written _ _ hmerge hkept)
  | deadWait => exact hb.congr rfl ((get_remove _ _ _).trans (if_neg (by decide)))
  | cancel => exact hb.congr rfl rfl

end

theorem Tallied.hops (hm : Tallied cfg addHops 0 CountsHops (fun _ write => write.inst.context.isObject) m)
    (hok : KeepsHops m a m') (hadded : Added cfg (fun _ _ => True) m a write) :
    CountsHops write.inst (addHops (hopsCommitted write.inst.id m.world.journal) write) ∧
    write.inst.context.isObject := by
  cases hadded with
  | created happ _ _ => exact ⟨⟨zero_le _, zero_le _⟩, (hok _ _ _ happ).1⟩
  | saved _ happ hfind hbase hrebound _ hsaves =>
    have hcounts := (hm.stored _ _ hfind).rebound hrebound
    obtain ⟨_, write, hwrite, hobject⟩ := hm.journaled hbase
    rw [hwrite] at hobject
    exact ⟨hsaves.countsHops hcounts hobject (hok _ _ _ happ).1, hsaves.isObject hobject⟩

section

variable {args : ChainArgs} {d : Drive}

abbrev unmoved : Monitor Sig History :=
  .history (fun _ => True) fun _ e => ¬ Advances e

def SpentExit (d : Drive) (e : Exit Err ChainOutcome) : Prop :=
  ∃ reason, e = .reply (.quarantined d.result reason) ∨ e = .reply (.aborted d.result reason)

theorem keeps_unmoved (e : Event Sig) (he : Quiet e) : unmoved.Keeps (fun _ => True) e :=
  fun _ _ _ => ⟨he.calm.aside.not_advances, trivial⟩

section

variable (hopen : isTerminal args.definition d.inst.state = false) (hdepth : d.steps.length < args.maxDepth)
  (hspent : args.livelockBudget ≤ hopsCharged d.inst)

include hopen hdepth hspent

theorem hopChecks_spent :
    unmoved.Triple (fun _ => True) (hopChecks cfg args d) (fun _ _ => False) fun e _ => SpentExit d e := by
  have hlook {α : Type} {x : Run α} (hx : x.Uses Quiet) :
      unmoved.Triple (fun _ => True) (liftM x : ChainStage α) (fun _ _ => True) fun e _ => SpentExit d e :=
    .lift (quiet_returns keeps_unmoved hx)
  have hleave {e : AuditEvent} {outcome : ChainOutcome} (houtcome : SpentExit d (.reply outcome)) {α : Type}
      {Q : α → History → Prop} : unmoved.Triple (fun _ => True)
        (do liftM (recordOrSelfEvent e); Stage.reply outcome : ChainStage α) Q fun e _ => SpentExit d e :=
    (hlook recordOrSelfEvent_uses).bind fun _ => .reply fun _ _ => houtcome
  have hcancel : (Prog.perform (S := Sig) .cancelRequested : Run Bool).Uses Quiet := .perform fun _ => rfl
  refine (hlook refreshRunLeases_uses).bind fun _ => Triple.bind (α := Bool) (hlook hcancel) fun cancelled =>
    (Triple.onlyIf fun _ => hleave ⟨_, .inr rfl⟩).bind fun _ => (hlook recordOrSelfEvent_uses).bind fun _ => ?_
  rw [if_neg (by simp [hopen]), if_neg (Nat.not_le.mpr hdepth)]
  exact (Triple.exitIf fun _ => hleave ⟨_, .inl rfl⟩).bind fun _ => .assume fun hbelow => absurd hspent hbelow

theorem chainLoop_spent (fuel : Nat) :
    unmoved.Triple (fun _ => True) (chainLoop cfg args fuel d) (fun _ _ => False) fun e _ => SpentExit d e := by
  unfold chainLoop
  exact (Triple.lift (quiet_returns keeps_unmoved now_uses)).bind fun _ =>
    (hopChecks_spent hopen hdepth hspent).bind fun _ _ => False.elim

end

end

theorem Chained.stays_cancelled (hj : Chained cfg Φ journal)
    (hw : write ∈ journal) (hcancelled : write.inst.cancelledAt.isSome) :
    ∃ stored, current write.inst.id journal = some stored ∧ stored.cancelledAt.isSome := by
  induction hj with
  | nil => cases hw
  | @created journal inst hj hnew hfresh ih =>
    rw [current_snoc]
    rcases mem_append.mp hw with hold | hlast
    · obtain ⟨stored, hstored, hsome⟩ := ih hold
      have hne : inst.id ≠ write.inst.id := fun hid => by rw [hid, hstored] at hnew; cases hnew
      exact ⟨stored, (if_neg hne).trans hstored, hsome⟩
    · cases mem_singleton.mp hlast
      exact ⟨inst, if_pos rfl, hcancelled⟩
  | @saved journal kind next replaced h hj hcurrent hbase hlive hsaves ih =>
    rw [current_snoc]
    rcases mem_append.mp hw with hold | hlast
    · obtain ⟨stored, hstored, hsome⟩ := ih hold
      split
      · rename_i hid
        cases hcurrent.symm.trans (hid ▸ hstored)
        have hbefore : kind.base.cancelledAt.isSome := by rw [hbase.settledAs.cancelledAt]; exact hsome
        exact ⟨next, rfl, by rw [(hsaves.settledAs hlive hbefore).cancelledAt]; exact hbefore⟩
      · exact ⟨stored, hstored, hsome⟩
    · cases mem_singleton.mp hlast
      exact ⟨next, if_pos rfl, hcancelled⟩

section

variable {m : Gateway}

def Snapshots (m : Gateway) (e : Event Sig) : Prop :=
  ∀ inst, LoadsAs inst e ∨ SavesAs (fun _ => True) inst e → Journaled m.world.journal inst

theorem Gateway.ReachableWith.snapshots (hm : ReachableWith cfg ok definitions m) :
    ∀ t ∈ m.threads, ∀ x ∈ t.activations, ∀ e ∈ x.2, Snapshots m e := by
  refine hm.from_reached.events rfl (fun hact _ e hold inst he => ?_) fun hact hok p hist e happ inst he => ?_
  · obtain ⟨write, hw, rfl⟩ := hold inst he
    exact ⟨write, Lineage.journal_grows hact hw, rfl⟩
  · have hlineage := lineage_of_reaches hok.1
    rcases he with ⟨id, rfl⟩ | ⟨kind, next, v, -, rfl⟩
    · exact (hlineage.handsOut hact happ).2
    · exact (hlineage.handsOut hact happ).2

theorem Gateway.ReachableWith.quarantined (hm : ReachableWith cfg KeepsHops definitions m)
    {hist : History} {stack : Stack Sig p} (ht : ⟨p, hist, .pure v, stack⟩ ∈ m.threads)
    (hquenched : Trail.Quenched (p, hist)) {id : String} (hid : ∃ e ∈ hist, Quarantines id e) :
    ∃ stored, m.world.find id = some stored ∧ stored.cancelledAt.isSome := by
  rcases hquenched id hid with ⟨e, he, inst, hsnapshot, rfl, hcancelled⟩ | ⟨before, e, after, hsplit, hbefore, hfails⟩
  · obtain ⟨write, hw, rfl⟩ := ReachableWith.snapshots hm _ ht _ (.head _) e he inst hsnapshot
    have hlineage := lineage_of_reaches hm
    obtain ⟨stored, hstored, hsome⟩ := hlineage.chained.stays_cancelled hw hcancelled
    exact ⟨stored, (hlineage.agrees.find _).trans hstored, hsome⟩
  · have hkept := hm.positions (D := fun _ hist e => (∃ id, ∃ x ∈ hist, Quarantines id x) → ¬ StoreFails e) rfl
      (fun hok p hist e happ => (hok p hist e happ).2) _ ht _ (.head _) before e after hsplit
    exact absurd hfails (hkept ⟨id, hbefore⟩)

end

def budgetedDefinition : Value :=
  .object [("version", "1"), ("initialState", "a"), ("livelockHopBudget", .nat 1),
    ("states", .object [("a", stateOf [("go", transitionOf "b" "deterministic" [])]),
      ("b", stateOf [("go", transitionOf "b" "caller" [])])])]

def quarantineScript : List GatewayAction :=
  hopScript ++ answers 0 5 ++ [.leave 0]

def outrunScript : List GatewayAction :=
  quarantineScript ++ answers 0 1 ++ .spawn (.submit (goSubmit "wf_1" 1)) :: answers 1 1 ++ [.answer 1 (.fresh "2")] ++
    answers 1 3 ++ answers 0 2

def quarantinedStart : Thread Sig → Bool
  | ⟨.start _, hist, .pure _, _⟩ => hist.any fun e => match e with
      | .call (.runDeterministicChain _) (.ok (.quarantined result _)) => decide (result.inst.id = "wf_1")
      | _ => false
  | _ => false

theorem quarantinedStart_spec (h : quarantinedStart t) :
    ∃ request hist v stack, t = ⟨.start request, hist, .pure v, stack⟩ ∧
    ∃ e ∈ hist, ∃ result reason, Drove (.quarantined result reason) e ∧ result.inst.id = "wf_1" := by
  unfold quarantinedStart at h
  split at h
  · rename_i request hist v stack
    obtain ⟨e, he, hquarantined⟩ := any_eq_true.mp h
    split at hquarantined
    · exact ⟨request, hist, v, stack, rfl, _, he, _, _, .call, of_decide_eq_true hquarantined⟩
    · cases hquarantined
  · cases h

def storesOk (m : Gateway) (a : GatewayAction) : Bool :=
  match a, m.pending a with
  | .answer _ .auto, some (.storeLoad id) => (m.world.find id).isSome
  | .answer _ .auto, some (.storeSave _ inst v) =>
      decide ((m.world.find inst.id).map WorkflowInstance.version = some v)
  | _, some (.storeLoad _) | _, some (.storeSave ..) => false
  | _, _ => true

theorem not_storeFails_of_storesOk (h : storesOk m a) (happ : m.Appends a p hist e) : ¬ StoreFails e := by
  cases happ with
  | leave ht hl => cases hl <;> exact id
  | expire ht he hist_eq => exact id
  | @answer i input _ _ o _ _ r _ ht hr =>
    have hpending : m.pending (.answer i input) = some o := by simp [Machine.pending, ht]
    unfold storesOk at h
    rw [hpending] at h
    cases o with
    | storeLoad workflowId =>
      cases input with
      | auto =>
        obtain ⟨inst, hinst⟩ := isSome_iff_exists.mp h
        have hloaded : some (m.world.loadInstance workflowId, m.world) = some (r, _) := hr
        rw [World.loadInstance, hinst] at hloaded
        cases hloaded
        exact id
      | _ => cases h
    | storeSave kind next v =>
      cases input with
      | auto =>
        obtain ⟨stored, hstored, hversion⟩ := map_eq_some_iff.mp (of_decide_eq_true h)
        have hsaved : some (m.world.saveIfVersion kind next v) = some (r, _) := hr
        rw [World.saveIfVersion, hstored] at hsaved
        simp only [hversion, ne_eq, not_true_eq_false, if_false] at hsaved
        cases hsaved
        exact id
      | _ => cases h
    | _ => exact id

def hopsOnly (m : Gateway) (a : GatewayAction) : Bool :=
  storesOk m a && match m.pending a with
  | some (.storeSave (.transition f) _ _) => decide (f.site ≠ .submit ∧ f.definition.get "output" = none)
  | some (.storeSave (.cancel _) _ _) => true
  | some (.storeSave ..) => false
  | some (.storeCreate inst) => inst.context.isObject
  | _ => true

theorem keepsHops_of_hopsOnly (m : Gateway) (a : GatewayAction) (m' : Gateway) (h : hopsOnly m a) :
    KeepsHops m a m' := by
  intro p hist e happ
  obtain ⟨hstores, h⟩ := Bool.and_eq_true_iff.mp h
  refine ⟨?_, fun _ => not_storeFails_of_storesOk hstores happ⟩
  cases e with
  | call p r | timeout p r => trivial
  | op o r =>
    rw [happ.pending] at h
    cases o with
    | storeCreate inst => exact h
    | storeSave kind next v =>
      cases kind with
      | transition f =>
        obtain ⟨hsite, hmapping⟩ := of_decide_eq_true h
        refine ⟨fun _ hkey => ?_, fun hsubmit => absurd hsubmit hsite⟩
        rw [hmapping] at hkey
        cases hkey
      | cancel base => trivial
      | _ => cases h
    | _ => trivial

end Praxec
