import Praxec.Runtime.Tally

namespace Praxec

open Json Effect Monitor Gateway

variable {cfg : RuntimeConfig} {verdict : Value → WorkflowInstance → Bool}

def WorkflowInstance.AtEnd (inst : WorkflowInstance) : Prop :=
  isTerminal inst.definition inst.state = true

instance (inst : WorkflowInstance) : Decidable inst.AtEnd :=
  inferInstanceAs (Decidable (_ = true))

def addResolved (first : Option WorkflowInstance) (write : StoreWrite) : Option WorkflowInstance :=
  first.or (if write.inst.AtEnd then some write.inst else none)

def resolved (id : String) (journal : List StoreWrite) : Option WorkflowInstance :=
  tally addResolved none id journal

def outcomeCheck (oc : Value) : Value :=
  .object [("kind", "expr"), ("expr", .string ((strField oc "check").getD ""))]

def outcomesOf (definition : Value) : List Value :=
  ((definition.get "outcomes").bind Value.asArray).getD []

def resolution (verdict : Value → WorkflowInstance → Bool) (inst : WorkflowInstance) : MissionStatus :=
  deriveMissionStatus .waitingForAction true
    (((stateDefinition inst.definition inst.state).bind fun s => strField s "outcome").bind TerminalOutcome.fromToken)
    ((outcomesOf inst.definition).all fun oc => verdict (outcomeCheck oc) inst) false

structure SealsTerminals (definition : Value) : Prop where
  exits : ∀ state, isTerminal definition state = true → ¬ Declares definition state
  entry : ∀ state, isTerminal definition state = true → definition.walk ["states", state, "onEnter"] = none
  deadline : ∀ target, (definition.walk ["onTimeout", "target"]).bind Value.asStr = some target →
    isTerminal definition target = false

/-- Definitions seal their terminal states, no run is cancelled or bound to a child in one, and outcomes are
checked by what `verdict` says of the snapshot. -/
def ResolvedKept (verdict : Value → WorkflowInstance → Bool) : Event Sig → Prop
  | .op (.storeCreate inst) _ => SealsTerminals inst.definition
  | .op (.storeSave (.cancel base) _ _) _ | .op (.storeSave (.spawnBinding base) _ _) _ => ¬ base.AtEnd
  | .op (.guardEvaluate guard inst arguments _) (.ok (pass, _)) => arguments = .null → pass = verdict guard inst
  | .op (.guardEvaluate guard inst arguments _) (.error _) => arguments = .null → false = verdict guard inst
  | _ => True

def KeepsResolved (verdict : Value → WorkflowInstance → Bool) (m : Gateway) (a : GatewayAction) (_ : Gateway) : Prop :=
  ∀ p hist e, m.Appends a p hist e → ResolvedKept verdict e

section

variable {h : History} {kind : SaveKind} {next : WorkflowInstance} {v : Nat}

theorem Commit.unresolved (hc : Commit cfg Φ h f next) (hseals : SealsTerminals f.before.definition) :
    ¬ f.before.AtEnd := by
  intro hend
  cases hc with
  | submit hgated _ _ => exact hseals.exits _ hend hgated.cleared.toOk.declares
  | hop hdefinition hhop _ _ _ => exact hseals.exits _ hend (hdefinition ▸ declares_of_hopPlan hhop.plan)
  | timeout hout => exact absurd hend (by simp [WorkflowInstance.AtEnd, timeoutFiring, hout.unresolved])

theorem Saves.unresolved (hs : Saves cfg Φ h kind next)
    (hseals : SealsTerminals kind.base.definition) (hkept : ResolvedKept verdict (.op (.storeSave kind next v) r)) :
    ¬ kind.base.AtEnd := by
  cases hs with
  | transition hcommit _ => exact hcommit.unresolved hseals
  | lockWait _ hdeclares => exact fun hend => hseals.exits _ hend hdeclares
  | subworkflowWait hdeclares | agentAwait hdeclares | deadWait hdeclares =>
    exact fun hend => hseals.exits _ hend hdeclares
  | slotUpdates hcleared _ _ _ => exact fun hend => hseals.exits _ hend hcleared.toOk.declares
  | onEnter honEnter _ _ =>
    intro hend
    have hnone := hseals.entry _ hend
    exact absurd (honEnter.symm.trans hnone) nofun
  | cancel | spawnBinding => exact hkept

theorem Saves.live_of_atEnd (hs : Saves cfg Φ h kind next) (hlive : kind.Live) (hbase : ¬ kind.base.AtEnd)
    (hend : next.AtEnd) : next.cancelledAt = none := by
  cases hs with
  | transition hcommit _ =>
    rw [hcommit.frame]
    exact hlive
  | _ => exact absurd hend hbase

structure Resolves (inst : WorkflowInstance) (first : Option WorkflowInstance) : Prop where
  seals : SealsTerminals inst.definition
  live : inst.AtEnd → inst.cancelledAt = none
  first : first = if inst.AtEnd then some inst else none

theorem Tallied.resolves {write : StoreWrite}
    (hm : Tallied cfg addResolved none Resolves (fun _ _ => True) m) (hok : KeepsResolved verdict m a m')
    (hadded : Added cfg (fun _ _ => True) m a write) :
    Resolves write.inst (addResolved (resolved write.inst.id m.world.journal) write) ∧ True := by
  refine ⟨?_, trivial⟩
  cases hadded with
  | created happ hnew hfresh =>
    have hnone : resolved _ m.world.journal = none := tally_of_unwritten _ _ ((hm.lineage.agrees.find _).symm.trans hnew)
    exact ⟨hok _ _ _ happ, fun _ => hfresh.live, congrArg (addResolved · _) hnone⟩
  | saved _ happ hfind _ hrebound hlive hsaves =>
    have hstored := hm.stored _ _ hfind
    have hsame := hrebound.sameRun.definition
    have hbase := hsaves.unresolved (hsame ▸ hstored.seals) (hok _ _ _ happ)
    have hopen : ¬ WorkflowInstance.AtEnd _ := fun hend => hbase (by
      rw [← hrebound.symm.rest]
      exact hend)
    refine ⟨hsaves.sameRun.definition ▸ hsame ▸ hstored.seals, hsaves.live_of_atEnd hlive hbase, ?_⟩
    exact congrArg (addResolved · _) (hstored.first.trans (if_neg hopen))

theorem Gateway.ReachableWith.resolves (hm : ReachableWith cfg (KeepsResolved verdict) definitions m) :
    Tallied cfg addResolved none Resolves (fun _ _ => True) m :=
  ReachableWith.tallied hm fun ht hok hadded => ht.resolves hok hadded

end

section

/-- What a `get` is answered: outcomes by `verdict`, and saves by what was saved. -/
def AnswersGet (verdict : Value → WorkflowInstance → Bool) (e : Event Sig) : Prop :=
  ResolvedKept verdict e ∧ ∀ kind next v saved, e = .op (.storeSave kind next v) (.ok saved) → saved = next

abbrev answered (verdict : Value → WorkflowInstance → Bool) : Monitor Sig History :=
  .history (AnswersGet verdict) fun _ _ => True

variable {P : History → Prop} (hP : Stable P) {inst : WorkflowInstance} {principal : Principal}

include hP

theorem evaluateOutcomeChecks_returns (ocs : List Value) :
    (answered verdict).Returns P (evaluateOutcomeChecks inst principal ocs)
      fun met h => met = ocs.all (fun oc => verdict (outcomeCheck oc) inst) ∧ P h := by
  induction ocs with
  | nil => exact .pure fun _ hh => ⟨rfl, hh⟩
  | cons oc rest ih =>
    refine Returns.bind (Q := fun r h => r.toOption.any Prod.fst = verdict (outcomeCheck oc) inst ∧ P h)
      (.perform fun h r hh ha => ⟨trivial, ?_, hP h _ hh⟩) fun r => ?_
    · cases r with
      | ok answer => exact ha.1 rfl
      | error _ => exact ha.1 rfl
    · rintro h ⟨hmet, hh⟩
      refine (ih.bind (R := fun met h => met = (oc :: rest).all (fun oc => verdict (outcomeCheck oc) inst) ∧ P h)
        fun others => .pure fun h hh => ⟨?_, hh.2⟩) h hh
      refine Eq.trans ?_ (congrArg₂ (· && ·) hmet hh.1)
      cases r <;> rfl

theorem response_returns :
    (answered verdict).Returns P (response inst.definition inst principal cfg hint error) fun r h =>
    (r.workflow = inst ∧ r.hint = hint ∧
    r.outcomesMet = (outcomesOf inst.definition).all fun oc => verdict (outcomeCheck oc) inst) ∧ P h := by
  refine (evaluateOutcomeChecks_returns hP _).bind fun met => ?_
  intro h ⟨hmet, hh⟩
  split
  · exact fun _ _ => ⟨trivial, ⟨rfl, rfl, hmet⟩, hP h _ hh⟩
  · exact ⟨⟨rfl, rfl, hmet⟩, hh⟩

omit hP

/-- A `get` shows the snapshot that it loaded first, or that snapshot moved by its deadline and saved. -/
structure GetReads (id : String) (h : History) (loaded shown : WorkflowInstance) (hint : StatusHint) : Prop where
  loads : h.head? = some (.op (.storeLoad id) (.ok loaded))
  source : shown = loaded ∧ hint = (if loaded.cancelledAt.isSome then .cancelled else .waitingForAction) ∨
    ∃ target, TimesOut loaded.definition loaded target ∧ shown = timedOut loaded target ∧
      ∃ kind v, .op (.storeSave kind shown v) (.ok shown) ∈ h

theorem get_triple {A : Event Sig → Prop} {id : String} {R : WorkflowInstance → StatusHint → Response → Prop}
    (hecho : ∀ kind next v saved, A (.op (.storeSave kind next v) (.ok saved)) → saved = next)
    (hresponse : ∀ {P : History → Prop}, Stable P → ∀ inst hint, (Monitor.history A fun _ _ => True).Returns P
      (response inst.definition inst principal cfg hint none) fun r h => R inst hint r ∧ P h) :
    (Monitor.history A fun _ _ => True).Triple (fun h => h = []) (get cfg id principal) (fun r h =>
      ∃ loaded shown hint, GetReads id h loaded shown hint ∧ R shown hint r) fun _ _ => True := by
  have hfirst (loaded : WorkflowInstance) :
      Stable fun h : History => h.head? = some (.op (.storeLoad id) (.ok loaded)) := by
    intro h e hh
    cases h with
    | nil => cases hh
    | cons _ _ => exact hh
  have hsaved (saved : WorkflowInstance) :
      Stable fun h : History => ∃ kind v, .op (.storeSave kind saved v) (.ok saved) ∈ h :=
    fun h e ⟨kind, v, hmem⟩ => ⟨kind, v, List.mem_append_left _ hmem⟩
  have hload : (Monitor.history A fun _ _ => True).Triple (fun h => h = []) (load id)
      (fun loaded h => h.head? = some (.op (.storeLoad id) (.ok loaded))) fun _ _ => True := by
    refine Returns.perform fun h r hh _ => ⟨trivial, ?_⟩
    subst hh
    cases r with
    | ok loaded => rfl
    | error _ => trivial
  refine hload.bind fun loaded => ?_
  have hrespond {P : History → Prop} (hP : Stable P) {shown : WorkflowInstance} {hint : StatusHint}
      (hreads : ∀ h, P h → GetReads id h loaded shown hint) : (Monitor.history A fun _ _ => True).Triple P
      (liftM (response shown.definition shown principal cfg hint none) : Fallible Response) (fun r h =>
        ∃ loaded shown hint, GetReads id h loaded shown hint ∧ R shown hint r) fun _ _ => True :=
    (Triple.lift (hresponse hP shown hint)).mono fun r h ⟨hr, hh⟩ => ⟨loaded, shown, hint, hreads h hh, hr⟩
  split
  · rename_i hcancelled
    exact hrespond (hfirst loaded) fun h hh => ⟨hh, .inl ⟨rfl, (if_pos hcancelled).symm⟩⟩
  rename_i hlive
  have htimeout : (Monitor.history A fun _ _ => True).Triple
      (fun h => h.head? = some (.op (.storeLoad id) (.ok loaded)))
      (checkAndApplyTimeout loaded.definition loaded principal)
      (fun out h => (∀ saved, out = some saved → ∃ target, TimesOut loaded.definition loaded target ∧
        saved = timedOut loaded target) ∧ (∀ saved, out = some saved → ∃ kind v, .op (.storeSave kind saved v) (.ok saved) ∈ h) ∧
        h.head? = some (.op (.storeLoad id) (.ok loaded))) fun _ _ => True := by
    refine (checkAndApplyTimeout_triple (R := fun _ h => h.head? = some (.op (.storeLoad id) (.ok loaded)))
      (N := fun saved h => (∃ target, TimesOut loaded.definition loaded target ∧ saved = timedOut loaded target) ∧
        (∃ kind v, .op (.storeSave kind saved v) (.ok saved) ∈ h) ∧ h.head? = some (.op (.storeLoad id) (.ok loaded)))
      (fun e _ => (hfirst loaded).keeps fun _ _ _ => trivial)
      (fun saved e _ => ((Stable.const _).and ((hsaved saved).and (hfirst loaded))).keeps fun _ _ _ => trivial)
      (fun target c _ => ?_) fun target hout => ?_).mono fun out h hh => ?_
    · exact .of_uses (.all (fun e => (hfirst loaded).keeps fun _ _ _ => trivial) _) fun _ _ hh => hh
    · refine Returns.perform fun h r hh ha => ⟨trivial, ?_⟩
      cases r with
      | ok saved =>
        obtain rfl := hecho _ _ _ _ ha
        exact ⟨⟨target, hout, rfl⟩, ⟨_, _, List.mem_append_right _ (.head _)⟩, hfirst loaded h _ hh⟩
      | error _ => trivial
    · cases out with
      | none => exact ⟨nofun, nofun, hh⟩
      | some saved => exact ⟨fun _ heq => Option.some.inj heq ▸ hh.1, fun _ heq => Option.some.inj heq ▸ hh.2.1, hh.2.2⟩
  refine htimeout.bind fun out => .assume fun hout => ?_
  cases out with
  | none => exact (hrespond (hfirst loaded) fun h hh => ⟨hh, .inl ⟨rfl, (if_neg hlive).symm⟩⟩).pre fun h hh => hh.2
  | some saved =>
    obtain ⟨target, hpassed, rfl⟩ := hout saved rfl
    refine (hrespond ((hsaved _).and (hfirst loaded)) fun h hh => ?_).pre fun h hh => ⟨hh.1 _ rfl, hh.2⟩
    exact ⟨hh.2, .inr ⟨target, hpassed, rfl, hh.1⟩⟩

/-- What a `get` that has returned shows: the snapshot it loaded, or that snapshot moved by its deadline. -/
structure GetShows (verdict : Value → WorkflowInstance → Bool) (loaded : WorkflowInstance) (r : Response) : Prop where
  shown : r.workflow = loaded ∧ r.hint = (if loaded.cancelledAt.isSome then .cancelled else .waitingForAction) ∨
    ∃ target, TimesOut loaded.definition loaded target ∧ r.workflow = timedOut loaded target
  outcomes : r.outcomesMet =
    (outcomesOf r.workflow.definition).all fun oc => verdict (outcomeCheck oc) r.workflow

theorem get_shows {id : String} : (answered verdict).wp (get cfg id principal).run (fun v h => ∀ r, v = .ok r →
    ∃ loaded, h.head? = some (.op (.storeLoad id) (.ok loaded)) ∧ GetShows verdict loaded r) [] := by
  refine wp_mono (fun v h hv r heq => ?_) (get_triple (fun kind next v saved ha => ha.2 _ _ _ _ rfl)
    (fun hP inst hint => response_returns hP) [] rfl)
  subst heq
  obtain ⟨loaded, shown, hint, hreads, rfl, rfl, hmet⟩ := hv
  refine ⟨loaded, hreads.loads, ?_, hmet⟩
  rcases hreads.source with hloaded | ⟨target, hpassed, htarget, -⟩
  · exact .inl hloaded
  · exact .inr ⟨target, hpassed, htarget⟩

end

theorem Response.status_of_atEnd {r : Response} (hend : r.workflow.AtEnd) (hhint : r.hint = .waitingForAction)
    (hmet : r.outcomesMet = (outcomesOf r.workflow.definition).all fun oc => verdict (outcomeCheck oc) r.workflow) :
    r.status = resolution verdict r.workflow := by
  have hterminal : isTerminal r.workflow.definition r.workflow.state := hend
  simp only [Response.status, resolution, hterminal, hhint, hmet, if_true, deriveMissionStatus]

theorem GetShows.resolves {loaded : WorkflowInstance} {r : Response} {first : Option WorkflowInstance}
    (hshows : GetShows verdict loaded r) (hloaded : Resolves loaded first) :
    (∀ inst, first = some inst → r.workflow = inst) ∧ (r.workflow.AtEnd → r.status = resolution verdict r.workflow) := by
  rcases hshows.shown with ⟨hworkflow, hhint⟩ | ⟨target, hout, hworkflow⟩
  · refine ⟨fun inst hinst => ?_, fun hend => Response.status_of_atEnd hend ?_ hshows.outcomes⟩
    · rw [hloaded.first] at hinst
      split at hinst
      · exact hworkflow.trans (Option.some.inj hinst)
      · cases hinst
    · have hlive := hloaded.live (hworkflow ▸ hend)
      rw [hhint, hlive]
      rfl
  · have hopen : ¬ loaded.AtEnd := by simp [WorkflowInstance.AtEnd, hout.unresolved]
    refine ⟨fun inst hinst => ?_, fun hend => ?_⟩
    · rw [hloaded.first, if_neg hopen] at hinst
      cases hinst
    · have hseals := hloaded.seals.deadline target hout.target
      rw [hworkflow] at hend
      exact absurd (hseals.symm.trans hend) nofun

/-- A run that has ended in a terminal state is stored as it ended, and every `get` that reads it from then on shows
that snapshot and the status it ended with. -/
theorem resolved_stays_resolved {m : Gateway} (hm : ReachableWith cfg (KeepsResolved verdict) definitions m) :
    (∀ id first, resolved id m.world.journal = some first → m.world.find id = some first) ∧
    ∀ id principal hist r stack, ⟨Proc.get id principal, hist, .pure (.ok r), stack⟩ ∈ m.threads →
      ∃ loaded journal, hist.head? = some (.op (.storeLoad id) (.ok loaded)) ∧ journal <+: m.world.journal ∧
        current id journal = some loaded ∧ (∀ first, resolved id journal = some first → r.workflow = first) ∧
        (r.workflow.AtEnd → r.status = resolution verdict r.workflow) := by
  have htallied := ReachableWith.resolves hm
  refine ⟨fun id first hfirst => ?_, fun id principal hist r stack ht => ?_⟩
  · cases hfind : m.world.find id with
    | none =>
      have hnone := tally_of_unwritten addResolved none ((htallied.lineage.agrees.find id).symm.trans hfind)
      exact absurd (hnone.symm.trans hfirst) nofun
    | some inst =>
      have heq := (htallied.stored id inst hfind).first.symm.trans hfirst
      split at heq
      · exact heq
      · cases heq
  · obtain ⟨loaded, hhead, hshows⟩ := hm.from_reached.finished (A := AnswersGet verdict) (fun ⟨_, hact, hok⟩ p hist o r happ =>
        ⟨hok _ _ _ happ, fun _ _ _ _ heq => saved_of_appends hact (heq ▸ happ)⟩)
      (fun _ _ => ⟨trivial, fun _ _ _ _ heq => by cases heq⟩) (fun _ _ => ⟨trivial, fun _ _ _ _ heq => by cases heq⟩) rfl
      (p := Proc.get id principal) get_shows ht r rfl
    obtain ⟨journal, hpre, hcurrent, hresolves⟩ := ReachableWith.loads hm
      (fun ht hok hadded => ht.resolves hok hadded) _ ht _ (.head _) _ (List.mem_of_head? hhead) id loaded rfl
    exact ⟨loaded, journal, hhead, hpre, hcurrent, hshows.resolves hresolves⟩

def endedDefinition : Value :=
  definitionOf "a" [("a", terminalState)]

theorem endedDefinition_walk (hkey : key ≠ "terminal") :
    endedDefinition.walk ("states" :: state :: key :: rest) = none := by
  change (Fields.get [("a", terminalState)] state).bind _ = none
  rw [Fields.get_cons]
  split
  · change (Fields.get [("terminal", .bool true)] key).bind _ = none
    rw [Fields.get_cons, if_neg hkey]
    rfl
  · rfl

theorem endedDefinition_seals : SealsTerminals endedDefinition where
  exits state _ := by
    rintro ⟨t, ht⟩
    rw [transitionDefinition, endedDefinition_walk (by decide)] at ht
    cases ht
  entry state _ := endedDefinition_walk (by decide)
  deadline target htarget := by cases htarget

def reported : Thread Sig → Option MissionStatus
  | ⟨.get _ _, _, .pure (.ok r), _⟩ => some r.status
  | _ => none

def readScript : List GatewayAction :=
  launch 0 "d" "1" ++ .spawn (.get "wf_1" .anonymous) :: answers 1 2

def cancelEndedScript : List GatewayAction :=
  readScript ++ .spawn (.cancel "wf_1" "stop") :: answers 2 4 ++ .spawn (.get "wf_1" .anonymous) :: answers 3 2

/-- A run that has succeeded is cancelled, and fails from then on. -/
theorem cancel_fails_succeeded : ∃ m, Reachable .plain [("d", endedDefinition)] m ∧
    (resolved "wf_1" m.world.journal).map (resolution fun _ _ => true) = some .succeeded ∧
    m.threads.filterMap reported = [.succeeded, .failed .cancelled] := by
  obtain ⟨m, hm, h⟩ := reachable_of_script .plain [("d", endedDefinition)] cancelEndedScript
    (fun m => (resolved "wf_1" m.world.journal).map (resolution fun _ _ => true) = some .succeeded ∧
      m.threads.filterMap reported = [.succeeded, .failed .cancelled])
  exact ⟨m, hm, h⟩

def onlyReads (m : Gateway) (a : GatewayAction) : Bool :=
  match m.pending a with
  | some (.storeCreate inst) => decide (inst.definition = endedDefinition)
  | some (.storeSave ..) | some (.guardEvaluate ..) => false
  | _ => true

theorem keepsResolved_of_onlyReads (m : Gateway) (a : GatewayAction) (m' : Gateway) (h : onlyReads m a) :
    KeepsResolved (fun _ _ => true) m a m' := by
  intro p hist e happ
  cases e with
  | call p r | timeout p r => trivial
  | op o r =>
    unfold onlyReads at h
    rw [happ.pending] at h
    cases o with
    | storeCreate inst =>
      have hdefinition := of_decide_eq_true h
      exact show SealsTerminals inst.definition from hdefinition ▸ endedDefinition_seals
    | storeSave _ _ _ | guardEvaluate _ _ _ _ => cases h
    | _ => trivial

theorem ended_run_read : ∃ m, ReachableWith .plain (KeepsResolved fun _ _ => true) [("d", endedDefinition)] m ∧
    m.threads.filterMap reported = [.succeeded] ∧
    ∃ first, resolved "wf_1" m.world.journal = some first ∧ m.world.find "wf_1" = some first := by
  obtain ⟨m, hm, h⟩ := reachableWith_of_script .plain [("d", endedDefinition)] readScript
    (fun m => m.threads.filterMap reported = [.succeeded] ∧ (resolved "wf_1" m.world.journal).isSome) onlyReads
    keepsResolved_of_onlyReads
  obtain ⟨hread, hfirst⟩ := h
  obtain ⟨first, hfirst⟩ := Option.isSome_iff_exists.mp hfirst
  exact ⟨m, hm, hread, first, hfirst, (resolved_stays_resolved hm).1 "wf_1" first hfirst⟩

end Praxec
