import Praxec.Hitl
import Praxec.Json.Merge
import Praxec.Runtime.Offered
import Praxec.Runtime.Selection

namespace Praxec

open Json Effect Prog Monitor List Option AgentAwaitMarker

namespace Pending

variable {cfg : RuntimeConfig} {request : SubmitTransition} {inst next : WorkflowInstance}

def failure : Event Sig → Option Err
  | .op (.storeLoad _) (.error e) => some e
  | .op (.storeSave ..) (.error e) => some e
  | .op (.auditRecord _) (.error e) => some e
  | _ => none

def Failed (h : History) (e : Err) : Prop :=
  ∃ ev ∈ h, failure ev = some e

/-- The monitor that assumes `A` of every answer and owes nothing. -/
abbrev reading (A : Event Sig → Prop) : Monitor Sig History :=
  .history A fun _ _ => True

section

variable {A : Event Sig → Prop} {P : History → Prop} (hP : Stable P)

include hP

theorem keeps (e : Event Sig) : (reading A).Keeps P e :=
  hP.keeps fun _ _ _ => trivial

theorem kept (x : Run α) : (reading A).Returns P x fun _ => P :=
  .of_uses (.all (keeps hP) x)

theorem load_ends {id : String} : (reading A).Triple P (load id) (fun _ => P) fun e h => Failed h e := by
  refine Returns.perform fun h r hh _ => ⟨trivial, ?_⟩
  cases r with
  | ok inst => exact hP h _ hh
  | error e => exact ⟨_, mem_append_right _ (.head _), rfl⟩

theorem saveIfVersion_ends :
    (reading A).Triple P (saveIfVersion kind next version) (fun _ => P) fun e h => Failed h e := by
  refine Returns.perform fun h r hh _ => ⟨trivial, ?_⟩
  cases r with
  | ok inst => exact hP h _ hh
  | error e => exact ⟨_, mem_append_right _ (.head _), rfl⟩

theorem auditRecord_ends {event : AuditEvent} :
    (reading A).Triple P (auditRecord event) (fun _ => P) fun e h => Failed h e := by
  refine Returns.perform fun h r hh _ => ⟨trivial, ?_⟩
  cases r with
  | ok _ => exact hP h _ hh
  | error e => exact ⟨_, mem_append_right _ (.head _), rfl⟩

theorem cancel_ends {workflowId reason : String} :
    (reading A).Triple P (cancel cfg workflowId reason) (fun _ => P) fun e h => Failed h e := by
  refine (load_ends hP).bind fun inst => ?_
  split
  · exact .pure fun _ => id
  exact (Triple.lift (kept hP _)).bind fun time => (saveIfVersion_ends hP).bind fun saved =>
    (Triple.lift (kept hP _)).bind fun _ => (Triple.lift (kept hP _)).bind fun _ => .lift (kept hP _)

theorem checkAndApplyTimeout_ends {definition : Value} {principal : Principal} :
    (reading A).Triple P (checkAndApplyTimeout definition inst principal) (fun _ => P) fun e h => Failed h e := by
  refine (checkAndApplyTimeout_triple (N := fun _ => P) (R := fun _ => P) (fun e _ => keeps hP e) (fun _ e _ => keeps hP e)
    (fun _ _ _ => ?_) fun _ _ => saveIfVersion_ends hP).mono fun out h hh => ?_
  · exact .of_uses (.all (keeps hP) _) fun _ _ => id
  · cases out <;> exact hh

end

structure Examined (cfg : RuntimeConfig) (request : SubmitTransition) (inst : WorkflowInstance) : Prop where
  notHalt : request.transition ≠ haltTransition
  valid : validateInput cfg inst.definition inst.input = .ok ()

def Ends (cfg : RuntimeConfig) (request : SubmitTransition) : Exit Err Response → History → Prop
  | .fail e, h => Failed h e ∨ ∃ inst, Loaded request inst h ∧ (validateInput cfg inst.definition inst.input = .error e ∨
      e = cancelledError inst ∧ inst.cancelledAt.isSome ∧ Examined cfg request inst)
  | .reply r, h => ∃ inst, Loaded request inst h ∧ ∀ err, r.error = some err →
      (err.code = "STALE_WORKFLOW_VERSION" → inst.version ≠ request.expectedVersion) ∧
      (err.code = "INVALID_TRANSITION" → transitionDefinition inst.definition inst.state request.transition = none ∧
        Examined cfg request inst)

theorem admitSubmit_ends :
    (reading A).Triple (fun h => h = []) (admitSubmit cfg request) (fun _ _ => True) (Ends cfg request) := by
  have hload : (reading A).Triple (fun h => h = []) (load request.workflowId)
      (fun inst => Loaded request inst) fun e h => Failed h e := by
    refine Returns.perform fun h r hh _ => ⟨trivial, ?_⟩
    subst hh
    cases r with
    | ok inst => rfl
    | error e => exact ⟨_, .head _, rfl⟩
  refine (Triple.attempt (hload.failing fun _ _ => .inl)).bind fun inst => ?_
  have hP : Stable (Loaded request inst) := Loaded.stable inst
  have hkept {α : Type} (x : Run α) : (reading A).Returns (Loaded request inst) x fun _ => Loaded request inst := kept hP x
  have hreply {α : Type} {Q : α → History → Prop} {shown : WorkflowInstance} {hint : StatusHint}
      {error : Option ResponseError} {definition : Value} (herror : ∀ err, error = some err →
        err.code ≠ "STALE_WORKFLOW_VERSION" ∧ err.code ≠ "INVALID_TRANSITION") :
      (reading A).Triple (Loaded request inst) (replyWith (response definition shown request.principal cfg hint error)) Q
        (Ends cfg request) :=
    replyWith_triple (response_shows fun e _ => keeps hP e) fun r h hr => ⟨inst, hr.2, fun err herr => by
      have hcode := herror err (hr.1.error.symm.trans herr)
      exact ⟨fun h => absurd h hcode.1, fun h => absurd h hcode.2⟩⟩
  have hfail {e : Err} {h : History} (hfailed : Failed h e) : Ends cfg request (.fail e) h := .inl hfailed
  have hrefuse {α : Type} {Q : α → History → Prop} {c code message : String}
      (hcode : (code = "STALE_WORKFLOW_VERSION" → inst.version ≠ request.expectedVersion) ∧
        (code = "INVALID_TRANSITION" → transitionDefinition inst.definition inst.state request.transition = none ∧
          Examined cfg request inst)) :
      (reading A).Triple (Loaded request inst) (reject cfg inst request c code message) Q (Ends cfg request) :=
    replyWith_triple (recordRejected_shows fun e _ => keeps hP e) fun r h hr => ⟨inst, hr.2, fun err herr => by
      cases hr.1.error.symm.trans herr
      exact hcode⟩
  refine (Triple.lift (hkept _)).bind fun c => ?_
  have hhalt : (reading A).Triple (Loaded request inst) (haltRun cfg request inst : DispatchStage Unit)
      (fun _ _ => False) (Ends cfg request) :=
    (Triple.attempt ((cancel_ends hP).failing fun _ _ => hfail)).bind fun _ =>
      (Triple.attempt ((load_ends hP).failing fun _ _ => hfail)).bind fun cancelled =>
      hreply fun err herr => by cases herr; exact ⟨by simp, by simp⟩
  refine (Triple.exitIf fun _ => hhalt).bind fun _ => .assume fun hnot => ?_
  refine .computeStage (fun e hinvalid h hloaded => .inr ⟨inst, hloaded, .inl hinvalid⟩) fun _ hvalid => ?_
  have hexamined : Examined cfg request inst := ⟨hnot, hvalid⟩
  refine (Triple.exitIf fun hcancelled => .throw fun h hloaded =>
    .inr ⟨inst, hloaded, .inr ⟨rfl, hcancelled, hexamined⟩⟩).bind fun _ => .assume fun _ => ?_
  refine (Triple.attempt ((checkAndApplyTimeout_ends hP).failing fun _ _ => hfail)).bind
    fun timedOut => (Triple.forSome fun saved _ => hreply fun err herr => by cases herr).bind fun _ =>
      (Triple.attempt ((auditRecord_ends hP).failing fun _ _ => hfail)).bind fun _ => ?_
  refine (Triple.exitIf fun hstale => hrefuse ⟨fun _ => hstale, by simp⟩).bind fun _ => .assume fun _ => ?_
  split
  case h_1 hnone => exact hrefuse ⟨by simp, fun _ => ⟨hnone, hexamined⟩⟩
  case h_2 => exact .pure fun _ _ => trivial

/-- Every load finds the instance and the store and the sink take what they are given, but for the record of a
transition. -/
def Answers (inst : WorkflowInstance) : Event Sig → Prop
  | .op (.storeLoad _) r => r = .ok inst
  | .op (.storeSave ..) r => r = .ok inst
  | .op (.auditRecord _) r => r = .ok ()
  | .op (.auditTransition ..) r => r = .error ""
  | _ => True

theorem exists_answers (inst : WorkflowInstance) (o : Op) : ∃ r, Answers inst (.op o r) := by
  match o with
  | .storeLoad _ | .storeSave .. => exact ⟨.ok inst, rfl⟩
  | .auditRecord _ => exact ⟨.ok (), rfl⟩
  | .auditTransition .. => exact ⟨.error "", rfl⟩
  | .guardEvaluate .. => exact ⟨.ok (true, none), trivial⟩
  | .executeEnd .. => exact ⟨.error (.permanent ""), trivial⟩
  | .executeBegin .. | .lockRelease .. | .lockHeartbeat .. | .enqueue .. => exact ⟨(), trivial⟩
  | .lockAcquire .. => exact ⟨.ok (), trivial⟩
  | .lockAcquireAny .. => exact ⟨.ok "", trivial⟩
  | .lockHeld => exact ⟨[], trivial⟩
  | .takeReady _ => exact ⟨none, trivial⟩
  | .now => exact ⟨Nat.zero, trivial⟩
  | .freshId => exact ⟨"", trivial⟩
  | .cancelRequested => exact ⟨false, trivial⟩
  | .storeCreate _ | .storeListWaitingOnLock | .storeListWaitingOnSubworkflow | .storeListAll | .storeFindByRunId _ |
    .definitionGet _ | .auditListEvents | .evidenceRecord .. => exact ⟨.error "", trivial⟩

theorem failure_of_answers (h : Answers inst ev) : failure ev = none := by
  unfold failure
  split <;> first | cases h | rfl

theorem checkAndApplyTimeout_forced (hP : Stable P) :
    (reading (Answers inst)).Triple P (checkAndApplyTimeout definition inst principal) (fun out h => out = none ∧ P h)
    fun _ _ => False := by
  have hrecord {firing : Firing} {next : WorkflowInstance} {params : RecordParams} : (reading (Answers inst)).Triple P
      (emitTransitionRecord firing next params) (fun _ _ => False) fun _ => P := by
    have hwrite : (reading (Answers inst)).Returns P (Prog.perform (S := Sig) (.auditTransition firing (transitionRecord next params)) :
        Run (Except Err Unit)) fun written h => written = .error "" ∧ P h :=
      .perform fun h r hh hr => ⟨trivial, hr, hP h _ hh⟩
    refine (Triple.lift hwrite).bind fun written => ?_
    cases written with
    | ok _ => exact fun h hh => absurd hh.1 (by simp)
    | error e => exact .throw fun _ hh => hh.2
  refine (checkAndApplyTimeout_triple (P := P) (N := fun _ _ => False) (R := fun _ _ => False) (fun e _ => keeps hP e)
    (fun _ e _ => fun _ hfalse => hfalse.elim) (fun _ _ _ => hrecord) fun _ _ _ hfalse => hfalse.elim).mono fun out h hh => ?_
  cases out with
  | none => exact ⟨rfl, hh⟩
  | some saved => exact hh.elim

/-- The refusal that an instance forces on a submit of an undeclared transition, or on any if it is cancelled. -/
def Refused (inst : WorkflowInstance) : Exit Err Response → Prop
  | .fail e => inst.cancelledAt.isSome ∧ e = cancelledError inst
  | .reply r => ∃ err, r.error = some err ∧ err.code = "INVALID_TRANSITION"

theorem admitSubmit_forced (hexamined : Examined cfg request inst) (hversion : inst.version = request.expectedVersion)
    (hbad : inst.cancelledAt.isSome ∨ transitionDefinition inst.definition inst.state request.transition = none) :
    (reading (Answers inst)).Triple (fun h => h = []) (admitSubmit cfg request) (fun _ _ => False)
      fun exit h => Loaded request inst h ∧ Refused inst exit := by
  have hload : (reading (Answers inst)).Triple (fun h => h = []) (load request.workflowId)
      (fun loaded h => loaded = inst ∧ Loaded request inst h) fun _ _ => False := by
    refine Returns.perform fun h r hh hr => ⟨trivial, ?_⟩
    subst hh
    obtain rfl : r = .ok inst := hr
    exact ⟨rfl, rfl⟩
  refine (Triple.attempt (hload.failing fun _ _ => False.elim)).bind fun loaded => .assume fun hloaded => ?_
  subst hloaded
  have hP : Stable (Loaded request loaded) := Loaded.stable loaded
  refine (Triple.lift (kept hP _)).bind fun c => (Triple.onlyIf fun heq => absurd heq hexamined.notHalt).bind fun _ => ?_
  refine .computeStage (fun e hinvalid => absurd (hexamined.valid.symm.trans hinvalid) (by simp)) fun _ _ => ?_
  refine (Triple.exitIf fun hcancelled => .throw fun h hh => ⟨hh, hcancelled, rfl⟩).bind fun _ => .assume fun hlive => ?_
  refine (Triple.attempt ((checkAndApplyTimeout_forced hP).failing fun _ _ => False.elim)).bind
    fun timedOut => .assume fun hnone => ?_
  subst hnone
  have haudit {event : AuditEvent} : (reading (Answers loaded)).Triple (Loaded request loaded) (auditRecord event)
      (fun _ => Loaded request loaded) fun _ _ => False := by
    refine Returns.perform fun h r hh hr => ⟨trivial, ?_⟩
    obtain rfl : r = .ok () := hr
    exact hP h _ hh
  refine (Triple.forSome fun _ hsome => absurd hsome (by simp)).bind fun _ =>
    (Triple.attempt (haudit.failing fun _ _ => False.elim)).bind fun _ => ?_
  refine (Triple.onlyIf fun hstale => absurd hversion hstale).bind fun _ => ?_
  rw [hbad.resolve_left hlive]
  exact replyWith_triple (recordRejected_shows fun e _ => keeps hP e) fun r h hr => ⟨hr.2, _, hr.1.error, rfl⟩

theorem exists_refusal (hexamined : Examined cfg request inst) (hversion : inst.version = request.expectedVersion)
    (hbad : inst.cancelledAt.isSome ∨ transitionDefinition inst.definition inst.state request.transition = none) :
    ∃ h exit, (admitSubmit cfg request).run.Trace h (some (.error exit)) ∧ Loaded request inst h ∧
      (∀ ev ∈ h, failure ev = none) ∧ Refused inst exit := by
  obtain ⟨h, out, htrace, hanswers⟩ := exists_trace (A := Answers inst) (exists_answers inst)
    (fun p => (inferInstance : Nonempty (Sig.Ret p)).elim fun r => ⟨r, trivial⟩) (fun p => ⟨none, trivial⟩)
    (admitSubmit cfg request).run
  have hout := ((reading (Answers inst)).wp_sound (admitSubmit_forced hexamined hversion hbad [] rfl) htrace
    ((reading _).allowed_of_forall (fun ev hev _ => hanswers ev hev) [])).2 out rfl
  rw [after_history] at hout
  cases out with
  | ok a => exact hout.elim
  | error exit => exact ⟨h, exit, htrace, hout.1, fun ev hev => failure_of_answers (hanswers ev hev), hout.2⟩

/-- The submit is refused as cancelled, stale or of no transition of the state. An error text counts if it is the
runtime's own, and not that of a store, of the audit sink or of the check of the input. -/
def TurnedAway (cfg : RuntimeConfig) (inst : WorkflowInstance) (h : History) : Exit Err Response → Prop
  | .fail e => e = cancelledError inst ∧ ¬ Failed h e ∧ validateInput cfg inst.definition inst.input ≠ .error e
  | .reply r => ∃ err, r.error = some err ∧ (err.code = "STALE_WORKFLOW_VERSION" ∨ err.code = "INVALID_TRANSITION")

def Actionable (cfg : RuntimeConfig) (request : SubmitTransition) (inst : WorkflowInstance) : Prop :=
  ∀ h exit, (admitSubmit cfg request).run.Trace h (some (.error exit)) → Loaded request inst h →
    ¬ TurnedAway cfg inst h exit

theorem actionable_iff (hversion : inst.version = request.expectedVersion) : Actionable cfg request inst ↔
    (Examined cfg request inst →
      inst.cancelledAt = none ∧ (transitionDefinition inst.definition inst.state request.transition).isSome) := by
  constructor
  · intro hactionable hexamined
    have hgood : ¬ (inst.cancelledAt.isSome ∨ transitionDefinition inst.definition inst.state request.transition = none) := by
      intro hbad
      obtain ⟨h, exit, htrace, hloaded, hclean, hrefused⟩ := exists_refusal hexamined hversion hbad
      refine hactionable h exit htrace hloaded ?_
      cases exit with
      | fail e =>
        refine ⟨hrefused.2, fun ⟨ev, hev, hfail⟩ => ?_, ?_⟩
        · rw [hclean ev hev] at hfail
          cases hfail
        · rw [hexamined.valid]
          simp
      | reply r =>
        obtain ⟨err, herr, hcode⟩ := hrefused
        exact ⟨err, herr, .inr hcode⟩
    rw [not_or] at hgood
    exact ⟨by simpa using hgood.1, isSome_iff_ne_none.mpr hgood.2⟩
  · intro hgood h exit htrace hloaded haway
    have hends := ((reading fun _ => True).wp_sound (admitSubmit_ends [] rfl) htrace ((reading _).allowed_of_forall (fun _ _ _ => trivial) [])).2 _ rfl
    rw [after_history] at hends
    have hsame {loaded : WorkflowInstance} (h' : Loaded request loaded h) : loaded = inst := by
      cases h'.symm.trans hloaded
      rfl
    cases exit with
    | fail e =>
      obtain ⟨-, hclean, hvalid⟩ := haway
      rcases hends with hfailed | ⟨loaded, hloaded', hinvalid | ⟨-, hcancelled, hexamined⟩⟩
      · exact hclean hfailed
      · rw [hsame hloaded'] at hinvalid
        exact hvalid hinvalid
      · rw [hsame hloaded'] at hcancelled hexamined
        rw [(hgood hexamined).1] at hcancelled
        cases hcancelled
    | reply r =>
      obtain ⟨err, herr, hcode⟩ := haway
      obtain ⟨loaded, hloaded', hcodes⟩ := hends
      rw [hsame hloaded'] at hcodes
      rcases hcode with hstale | hinvalid
      · exact (hcodes err herr).1 hstale hversion
      · obtain ⟨hnone, hexamined⟩ := (hcodes err herr).2 hinvalid
        have hsome := (hgood hexamined).2
        rw [hnone] at hsome
        cases hsome

end Pending

open Pending

variable {cfg : RuntimeConfig} {request : SubmitTransition} {inst : WorkflowInstance}

theorem transitionDefinition_of_humanTransition
    (h : humanTransition definition state = some entry) : (transitionDefinition definition state entry.1).isSome := by
  obtain ⟨transitions, hobject, hfind⟩ := bind_eq_some_iff.mp h
  obtain ⟨v, hwalk, hfields⟩ := bind_eq_some_iff.mp hobject
  have hkey : entry.1 ∈ transitions.map Prod.fst := mem_map_of_mem (mem_of_find?_eq_some hfind)
  have hdeclared : transitionDefinition definition state entry.1 = v.step entry.1 := by
    have happend := definition.walk_append ["states", state, "transitions"] [entry.1]
    rw [hwalk] at happend
    exact happend.trans (bind_fun_some _)
  rw [hdeclared]
  cases v with
  | object fields =>
    cases hfields
    rw [isSome_iff_ne_none]
    exact fun hnone => (Fields.get_eq_none_iff.mp hnone) hkey
  | _ => cases hfields

theorem pendingGate_asks (h : pendingGate inst = some gate) : gate.expectedVersion = inst.version ∧
    ((∃ marker, fromContext inst.context = some marker ∧ gate.transition = marker.transition) ∨
    fromContext inst.context = none ∧
    (transitionDefinition inst.definition inst.state gate.transition).isSome) := by
  unfold pendingGate at h
  split at h
  case h_1 marker hmarker =>
    cases h
    exact ⟨rfl, .inl ⟨marker, hmarker, rfl⟩⟩
  case h_2 hmarker =>
    split at h
    · cases h
    · obtain ⟨entry, hentry, rfl⟩ := map_eq_some_iff.mp h
      exact ⟨rfl, .inr ⟨hmarker, transitionDefinition_of_humanTransition hentry⟩⟩

/-- A pending gate can be acted on exactly where the run is neither cancelled nor done, and a marker that an agent
left names a transition of the state the run is in. -/
theorem pending_gate_actionable_iff {gate : PendingHumanGate} (hgate : pendingGate inst = some gate)
    (htransition : request.transition = gate.transition) (hversion : request.expectedVersion = gate.expectedVersion) :
    (Actionable cfg request inst ∧ inst.cancelledAt = none ∧ isTerminal inst.definition inst.state = false) ↔
      inst.cancelledAt = none ∧ isTerminal inst.definition inst.state = false ∧
        ∀ marker, fromContext inst.context = some marker → Examined cfg request inst →
          (transitionDefinition inst.definition inst.state marker.transition).isSome = true := by
  obtain ⟨hasked, hsource⟩ := pendingGate_asks hgate
  rw [actionable_iff (hasked.symm.trans hversion.symm), htransition]
  constructor
  · rintro ⟨hact, hlive, hopen⟩
    refine ⟨hlive, hopen, fun marker hmarker hexamined => ?_⟩
    rcases hsource with ⟨marker', hmarker', hname⟩ | ⟨hnone, -⟩
    · cases hmarker.symm.trans hmarker'
      rw [← hname]
      exact (hact hexamined).2
    · cases hmarker.symm.trans hnone
  · rintro ⟨hlive, hopen, hdeclared⟩
    refine ⟨fun hexamined => ⟨hlive, ?_⟩, hlive, hopen⟩
    rcases hsource with ⟨marker, hmarker, hname⟩ | ⟨-, hsome⟩
    · rw [hname]
      exact hdeclared marker hmarker hexamined
    · exact hsome

def signOffRun (cancelledAt : Option Nat) : WorkflowInstance where
  id := "wf_1"
  definitionId := "d"
  definitionVersion := "1"
  definition := definitionOf "a" [("a", stateOf [("go", transitionOf "b" "human" [])]), ("b", terminalState)]
  state := "a"
  version := 3
  input := .emptyObject
  context := .emptyObject
  startedAt := 0
  runEnv := ⟨"/repo", none, none, none, []⟩
  depth := 0
  cancelledAt
  cancelledReason := none
  parent := none

def signOff : SubmitTransition :=
  { goSubmit "wf_1" 3 with principal := ⟨"lead", ["human"], []⟩ }

theorem open_gate_actionable : (pendingGate (signOffRun none)).isSome = true ∧
    (Actionable .plain signOff (signOffRun none) ∧ (signOffRun none).cancelledAt = none ∧
      isTerminal (signOffRun none).definition (signOffRun none).state = false) := by
  have hgate : pendingGate (signOffRun none) = some ⟨"wf_1", "d", "a", 3, "go", none, .humanGate, 0⟩ := by
    decide +kernel
  refine ⟨by rfl, (pending_gate_actionable_iff hgate rfl rfl).mpr ⟨rfl, by decide +kernel, fun marker hmarker => ?_⟩⟩
  cases hmarker

/-- A cancelled run still shows its gate, and refuses the submit that the gate asks for. -/
theorem cancelled_gate_refused : ∃ inst gate request, pendingGate inst = some gate ∧
    request.transition = gate.transition ∧ request.expectedVersion = gate.expectedVersion ∧
    request.principal.isHuman = true ∧ inst.cancelledAt.isSome = true ∧ ¬ Actionable .plain request inst := by
  refine ⟨signOffRun (some 7), ⟨"wf_1", "d", "a", 3, "go", none, .humanGate, 0⟩, signOff, by decide +kernel, rfl, rfl, by decide +kernel, rfl,
    fun hactionable => ?_⟩
  have hexamined : Examined .plain signOff (signOffRun (some 7)) := ⟨by decide, rfl⟩
  cases ((actionable_iff rfl).mp hactionable hexamined).1

end Praxec
