import Praxec.Runtime.Outline
import Praxec.World

namespace Praxec

open Json Effect Prog Monitor Gateway WorkflowInstance

def ExecuteResult.Confident (r : ExecuteResult) : Prop :=
  ∀ ev ∈ r.evidence, ev.ConfidenceOk

instance (r : ExecuteResult) : Decidable r.Confident :=
  inferInstanceAs (Decidable (∀ ev ∈ r.evidence, ev.ConfidenceOk))

/-- Events that change the store, or hand the run to a procedure that does. Waking other waiters is
not among them. -/
def Changes : Event Sig → Prop
  | .op (.storeSave ..) _ | .op (.storeCreate _) _ | .op (.auditTransition ..) _ | .op (.evidenceRecord ..) _ => True
  | .call .resumeReadyLocks _ => False
  | .call .. | .timeout .. => True
  | _ => False

def confidenceMonitor : Monitor Sig Bool where
  next refused e := match e with
    | .op (.executeEnd ..) (.ok r) => refused || !decide r.Confident
    | _ => refused
  allows _ e := match e with
    | .op (.executeEnd site _) (.ok r) => r.Confident ∨ site.isSubmit ∧ r.suspend = none
    | _ => True
  demands refused e := (Changes e → refused = false) ∧ match e with
    | .op (.evidenceRecord _ ev) _ => ev.ConfidenceOk
    | _ => True

namespace Confidence

variable {cfg : RuntimeConfig}

abbrev mon : Monitor Sig Bool := confidenceMonitor

abbrev Clean (refused : Bool) : Prop := refused = false

def Harmless : Event Sig → Prop
  | .op (.executeEnd site _) _ => ¬ site.isSubmit
  | .op (.evidenceRecord _ ev) _ => ev.ConfidenceOk
  | _ => True

variable {e : Event Sig}

theorem keeps_clean (he : Harmless e) : mon.Keeps Clean e := by
  intro g hg ha
  subst hg
  cases e with
  | call p r | timeout p r => exact ⟨⟨fun _ => rfl, trivial⟩, rfl⟩
  | op o r =>
    cases o with
    | executeEnd site req =>
      cases r with
      | error e => exact ⟨⟨fun _ => rfl, trivial⟩, rfl⟩
      | ok r =>
        have hr : r.Confident := ha.resolve_right fun h => he h.1
        exact ⟨⟨fun _ => rfl, trivial⟩, by simp [confidenceMonitor, hr]⟩
    | evidenceRecord id ev => exact ⟨⟨fun _ => rfl, he⟩, rfl⟩
    | _ => exact ⟨⟨fun _ => rfl, trivial⟩, rfl⟩

theorem clean_minor (h : Minor e) : mon.Keeps Clean e := by
  refine keeps_clean ?_
  cases e with
  | op o r =>
    cases o with
    | executeEnd site request | evidenceRecord id ev => exact nomatch h
    | _ => trivial
  | call p r | timeout p r => trivial

theorem clean_quiet (e : Event Sig) (h : Quiet e) : mon.Keeps Clean e :=
  clean_minor h.minor

def Received (r : ExecuteResult) (refused : Bool) : Prop :=
  refused = !decide r.Confident ∧ (r.Confident ∨ r.suspend = none)

theorem received_handback (h : Handback e) : mon.Keeps (Received r) e := by
  intro g hg _
  have hchange : ¬ Changes e := by
    intro hc
    unfold Changes at hc
    split at hc
    · cases h
    · cases h
    · cases h
    · cases h
    · exact hc
    · rename_i p v hp _
      cases p with
      | resumeReadyLocks => exact hp v rfl .rfl
      | _ => exact h.elim
    · exact h.elim
    · exact hc
  cases e with
  | call p _ | timeout p _ => exact ⟨⟨fun hc => absurd hc hchange, trivial⟩, hg⟩
  | op o _ =>
    cases o with
    | executeEnd site req | evidenceRecord id ev => exact nomatch h
    | _ => exact ⟨⟨fun hc => absurd hc hchange, trivial⟩, hg⟩

theorem received_clean (hr : r.Confident) (hg : Received r g) : Clean g := by
  simpa [hr] using hg.1

theorem bracket {declared : Value} (hS : ∀ r e, Handback e → mon.Keeps (S r) e) :
    Bracket mon cfg i declared Clean (fun _ => Clean) (fun _ _ => Clean) (fun _ => Clean) (fun _ => S) S :=
  .plain (fun _ h => clean_minor h.minor) hS fun _ _ _ _ => keeps_clean trivial

variable {site : ExecSite} {request : ExecuteRequest}

theorem begin_clean : mon.Returns Clean (Prog.perform (S := Sig) (.executeBegin site request)) fun _ => Clean :=
  .of_uses (.perform fun _ => keeps_clean trivial)

theorem execute_clean (hsite : ¬ site.isSubmit) :
    mon.Returns Clean (execute site request) (Settled (fun _ => Clean) fun r g => r.Confident ∧ Clean g) := by
  refine begin_clean.bind fun _ => .perform fun g r hg ha => ?_
  subst hg
  cases r with
  | error e => exact ⟨⟨fun _ => rfl, trivial⟩, rfl⟩
  | ok r =>
    have hr : r.Confident := ha.resolve_right fun h => hsite h.1
    exact ⟨⟨fun _ => rfl, trivial⟩, hr, by simp [confidenceMonitor, hr]⟩

theorem execute_submit : mon.Returns Clean (execute site request) (Settled (fun _ => Clean) Received) := by
  refine begin_clean.bind fun _ => .perform fun g r hg ha => ?_
  subst hg
  cases r with
  | error e => exact ⟨⟨fun _ => rfl, trivial⟩, rfl⟩
  | ok r => exact ⟨⟨fun _ => rfl, trivial⟩, rfl, ha.imp id And.right⟩

theorem mergeResult_clean : mon.Triple (Received r) (mergeResult cfg a arguments r)
    (fun work g => (∀ ev ∈ work.evidence, ev.ConfidenceOk) ∧ Clean g) fun _ _ => True := by
  have hquiet : ∀ e, Quiet e → mon.Keeps (Received r) e := fun e h => received_handback h.handback
  have hkeep {α : Type} {x : DispatchStage α} (hx : UsesE Quiet x) :
      mon.Triple (Received r) x (fun _ => Received r) fun _ _ => True :=
    .of_uses (hx.mono hquiet) fun _ _ _ => trivial
  refine (Triple.forSome fun suspend hsuspend => ?_).bind fun _ =>
    .computeStage (fun _ _ _ _ => trivial) fun merged _ => (hkeep checkSubmitWrites_quiet).bind fun _ =>
    (hkeep checkConstraints_quiet).bind fun _ =>
    (checkConfidences_triple hquiet (fun _ _ _ _ => trivial) r.evidence).bind fun _ =>
    .pure fun g ⟨hr, hg⟩ => ⟨hr, received_clean hr hg⟩
  -- a result that parks the step has not been checked, but was assumed to need no check
  refine Triple.pre ?_ fun g hg => received_clean (hg.2.resolve_right (by simp [hsuspend])) hg
  exact (Triple.attempt (.of_uses (suspendStep_minor.mono fun _ => clean_minor) fun _ _ _ => trivial)).bind fun _ =>
    .reply fun _ _ => trivial

def outline : Outline Bool where
  idle := Clean
  ended _ := True
  validated _ _ := Clean
  ready _ _ := Clean
  worked _ _ work g := (∀ ev ∈ work.evidence, ev.ConfidenceOk) ∧ Clean g
  driving _ d g := (∀ ev ∈ d.evidence, ev.ConfidenceOk) ∧ Clean g
  chosen _ d hop g := (hop.site ≠ .submit ∧ ∀ ev ∈ d.evidence, ev.ConfidenceOk) ∧ Clean g
  hopDone _ _ _ work g := (∀ ev ∈ work.evidence, ev.ConfidenceOk) ∧ Clean g

theorem keeps_and (h : mon.Keeps Clean e) : mon.Keeps (fun g => φ ∧ Clean g) e :=
  fun g hg ha => ⟨(h g hg.2 ha).1, hg.1, (h g hg.2 ha).2⟩

theorem clean_triple (hx : UsesE (mon.Keeps Clean) x) : mon.Triple Clean x (fun _ => Clean) fun _ _ => True :=
  .of_uses hx fun _ _ _ => trivial

theorem recordEvidence_clean {id : String} {evs : List Evidence} (h : ∀ ev ∈ evs, ev.ConfidenceOk) :
    mon.Returns Clean (recordEvidence cfg id evs) fun _ => Clean :=
  .of_uses (recordEvidence_uses fun ev hev _ => keeps_clean (h ev hev))

theorem save_clean {kind : SaveKind} {next : WorkflowInstance} :
    mon.Triple Clean (saveIfVersion kind next v) (fun _ => Clean) fun _ _ => True :=
  clean_triple (.perform fun _ => keeps_clean trivial)

theorem commit_clean {firing : Firing} {next : WorkflowInstance} {note : CommitNote} :
    mon.Triple Clean (commitTransition firing next note v) (fun _ => Clean) fun _ _ => True :=
  clean_triple (commitTransition_uses (fun _ => keeps_clean trivial) fun _ => keeps_clean trivial)

theorem runOnEnter_clean {definition : Value} :
    mon.Triple Clean (runOnEnter cfg definition i c) (fun _ => Clean) fun _ _ => True := by
  refine runOnEnter_triple clean_quiet (fun _ _ _ => trivial) (fun r e h => keeps_and (clean_quiet e h))
    (fun _ _ _ _ => trivial) (fun _ => id) (fun config key => execute_clean nofun)
    fun onEnter r context _ _ _ _ => .assume fun hr => ?_
  exact (Triple.lift (recordEvidence_clean hr)).bind fun _ => save_clean

theorem runSubmitExecutor_clean {arguments : Value} : mon.Triple Clean (runSubmitExecutor cfg a arguments)
    (fun work g => (∀ ev ∈ work.evidence, ev.ConfidenceOk) ∧ Clean g) fun _ _ => True :=
  runSubmitExecutor_triple clean_quiet (fun _ _ _ _ => trivial) (bracket fun r _ h => received_handback h)
    (fun _ _ hnone _ _ hg => ⟨by simp [hnone], hg⟩) (fun _ _ _ => minor_ends (fun _ => clean_minor) (fun _ _ => trivial) parkOnLock_minor)
    (fun _ _ _ _ _ _ _ _ => execute_submit) (fun _ _ => mergeResult_clean)
    fun _ => failSubmit_triple (fun _ => clean_minor) fun _ _ => trivial

theorem sound : outline.Plain mon cfg where
  called _ _ _ := trivial
  timed _ _ _ := trivial
  idle_ended _ _ := trivial
  driving_ended _ _ _ _ := trivial
  idle_minor _ := clean_minor
  created _ _ := keeps_clean trivial
  driving_quiet _ _ e h := keeps_and (clean_quiet e h)
  chosen_quiet _ _ _ e h := keeps_and (clean_quiet e h)
  checkArguments _ _ := clean_triple (checkArguments_quiet.mono clean_quiet)
  checkGuards _ _ _ := clean_triple (checkGuards_quiet.mono clean_quiet)
  runSubmitExecutor _ _ _ := runSubmitExecutor_clean
  commitSubmit a arguments guards acceptance work _ := .assume fun hwork =>
    commitSubmit_triple (C := fun _ => Clean) (.none clean_quiet) (fun _ _ _ => trivial)
      (fun _ _ => commit_clean.pre fun _ => And.right)
      (fun _ _ => clean_triple (auditRecord_uses.mono clean_quiet)) (fun _ => recordEvidence_clean hwork)
      (fun _ => runOnEnter_clean) fun _ _ => clean_triple (auditRecord_uses.mono clean_quiet)
  checkAndApplyTimeout _ _ _ := (checkAndApplyTimeout_triple (N := fun _ => Clean) clean_quiet
    (fun _ _ h => clean_minor h.minor)
    (fun _ _ _ => .of_uses (emitTransitionRecord_uses fun _ => keeps_clean trivial) fun _ _ => id)
    fun _ _ => save_clean).mono fun out _ hg => by cases out <;> exact hg
  runOnEnter _ _ _ := runOnEnter_clean
  selectHop args d := .assume fun hd => by
    refine (selectHop_triple clean_quiet (fun _ _ _ _ => trivial) (Q := fun hop g => hop.site ≠ .submit ∧ Clean g)
      (fun candidates direct _ => ?_) fun candidate _ => ?_).mono fun hop g hg => ?_
    · exact (Triple.of_uses (selectDeterministicTransition_quiet.mono clean_quiet) fun _ _ => id).mono
        fun _ _ hg => ⟨nofun, hg⟩
    · exact autoDriveHop_triple (bracket (S := fun _ => Clean) fun _ _ h => clean_minor h.minor)
        (fun _ _ _ _ => trivial) (fun _ _ => id) (fun _ _ _ _ _ => trivial) (fun _ _ _ _ _ => trivial)
        (fun _ _ _ _ _ _ _ _ => (execute_clean (by simp [ExecSite.isSubmit])).mono fun r g hg => by
          cases r with
          | ok r => exact hg.2
          | error e => exact hg) fun _ _ _ _ hg => ⟨nofun, hg⟩
    · cases hop with
      | none => exact ⟨hd, hg⟩
      | some hop => exact ⟨⟨hg.1, hd⟩, hg.2⟩
  runHopExecutor args d hop := .assume fun ⟨hsite, hd⟩ =>
    runHopExecutor_triple clean_quiet (fun _ _ _ _ => trivial) (fun r e h => keeps_and (clean_quiet e h))
      (fun _ _ _ _ _ => trivial) (fun _ _ _ _ => trivial) (fun _ _ _ _ _ _ _ _ => trivial)
      (fun _ _ _ _ _ _ _ _ => trivial) (fun _ _ hevidence _ hg => ⟨hevidence ▸ hd, hg⟩)
      (fun _ _ _ _ _ _ _ => execute_clean (mt of_decide_eq_true hsite))
      fun r _ _ _ hevidence g hg => ⟨by rw [hevidence]; exact List.forall_mem_append.mpr ⟨hd, hg.1⟩, hg.2⟩
  commitHop args d hop work startedAt := .assume fun hwork =>
    commitHop_triple (C := fun _ => Clean) (.none clean_quiet) (fun _ _ _ => trivial) (fun _ => clean_quiet)
      (fun _ _ => commit_clean.pre fun _ => And.right) (fun _ => recordEvidence_clean hwork) (fun _ => runOnEnter_clean)
      fun _ _ _ hg => ⟨hwork, hg⟩

theorem refused_met {hist : History} (h : mon.Met true hist) : ∀ e ∈ hist, ¬ Changes e := by
  induction hist with
  | nil => simp
  | cons e rest ih =>
    have hnext : mon.next true e := by
      simp only [confidenceMonitor]
      split <;> simp
    exact List.forall_mem_cons.mpr ⟨fun hc => absurd (h.1.1 hc) (by simp), ih (hnext ▸ h.2)⟩

theorem evidence_answer {w w' : World} {o : Op} {input : Input} {r : o.Res} {g : Bool}
    (hw : ∀ e ∈ w.evidence, e.2.ConfidenceOk) (hr : w.handle o input = some (r, w'))
    (hd : mon.demands g (.op o r)) : ∀ e ∈ w'.evidence, e.2.ConfidenceOk := by
  obtain heq | ⟨id, ev, rfl, heq⟩ := (World.handle_logs hr).evidence
  · exact heq ▸ hw
  · rw [heq]
    exact List.forall_mem_append.mpr ⟨hw, by simpa using hd.2⟩

end Confidence

/-- Executor results that the runtime stores or acts on unchecked are confident: all but what the
executor of a submit returns without parking. -/
def UncheckedConfident (m : Gateway) (a : GatewayAction) (_ : Gateway) : Prop :=
  ∀ p hist site request r, m.Appends a p hist (.op (.executeEnd site request) (.ok r)) →
    r.Confident ∨ site.isSubmit ∧ r.suspend = none

theorem uncheckedConfident_allows {m m' : Gateway} {a : GatewayAction} (h : UncheckedConfident m a m')
    (p : Proc) (hist : History) (o : Op) (r : o.Res) (he : m.Appends a p hist (.op o r)) :
    confidenceMonitor.allows (confidenceMonitor.after false hist) (.op o r) := by
  cases o with
  | executeEnd site request =>
    cases r with
    | error _ => trivial
    | ok r => exact h p hist site request r he
  | _ => trivial

/-- Stored evidence states possible confidences, and an activation that has received an impossible
one changes nothing any more. -/
theorem stored_evidence_confident {cfg : RuntimeConfig} {definitions : Fields} {m : Gateway}
    (h : ReachableWith cfg UncheckedConfident definitions m) :
    (∀ e ∈ m.world.evidence, e.2.ConfidenceOk) ∧
    ∀ t ∈ m.threads, ∀ a ∈ t.activations, ∀ before site request r after,
      a.2 = before ++ .op (.executeEnd site request) (.ok r) :: after → ¬ r.Confident →
      ∀ e ∈ after, ¬ Changes e := by
  have hplain : Confidence.outline.Plain confidenceMonitor cfg := Confidence.sound
  have hbody : confidenceMonitor.Verifies (fun _ => false) Confidence.outline.plain.fin Confidence.outline.plain.pre
      (body cfg) := hplain.sound.verified (fun _ _ => rfl) fun _ _ => ⟨by simp, rfl⟩
  refine ⟨?_, fun t ht a ha before site request r after hist hr => ?_⟩
  · refine h.world_invariant (W := fun w : World => ∀ e ∈ w.evidence, e.2.ConfidenceOk) hbody (fun p _ => Confidence.outline.plain_pre p)
      uncheckedConfident_allows rfl (by simp [boot])
      (fun hw hr _ hd => Confidence.evidence_answer hw hr hd) (fun {w input w'} hw hout => ?_) fun hw => hw
    obtain ⟨ms, rfl⟩ := World.outside_eq hout
    exact hw
  · have hmet := (h.verified hbody (fun p _ => Confidence.outline.plain_pre p) uncheckedConfident_allows rfl t ht).activations_met ha
    rw [hist, met_append] at hmet
    have hafter : confidenceMonitor.Met true after := by simpa [confidenceMonitor, hr] using hmet.2.2
    exact Confidence.refused_met hafter

def reportingDefinition : Value :=
  definitionOf "a" [("a", stateOf [("go", transitionOf "b" "deterministic"
    [("executor", .object [("kind", "noop")])])]), ("b", terminalState)]

def reportingScript (confidence : F32) : List GatewayAction :=
  launch 0 "d" "1" ++ answers 0 6 ++
    [executed 0 ⟨.emptyObject, [⟨"test", "e", none, none, none, some confidence⟩], none, none, none⟩] ++
    answers 0 5

theorem chain_stores_impossible_confidence : ∃ m, Reachable .plain [("d", reportingDefinition)] m ∧
      (∃ e ∈ m.world.evidence, ¬ e.2.ConfidenceOk) ∧
      (m.world.find "wf_1").map state = some "b" := by
  obtain ⟨m, hm, h⟩ := reachable_of_script .plain [("d", reportingDefinition)]
    (reportingScript 0x3FC00000#32) (fun m => (∃ e ∈ m.world.evidence, ¬ e.2.ConfidenceOk) ∧
      (m.world.find "wf_1").map state = some "b")
  exact ⟨m, hm, h⟩

def confidentAction (_ : Gateway) : GatewayAction → Bool
  | .answer _ (.executed (.ok r)) => decide r.Confident
  | _ => true

theorem uncheckedConfident_of_action (h : confidentAction m a) : UncheckedConfident m a m' := by
  intro p hist site request r happ
  obtain ⟨i, rfl⟩ := executed_of_appends happ
  exact .inl (of_decide_eq_true h)

theorem chain_stores_possible_confidence :
    ∃ m, ReachableWith .plain UncheckedConfident [("d", reportingDefinition)] m ∧
      m.world.evidence.length = 1 ∧ ∀ e ∈ m.world.evidence, e.2.ConfidenceOk := by
  obtain ⟨m, hm, h⟩ := reachableWith_of_script .plain [("d", reportingDefinition)]
    (reportingScript 0x3F000000#32) (fun m => m.world.evidence.length = 1)
    confidentAction (fun _ _ _ => uncheckedConfident_of_action)
  exact ⟨m, hm, h, (stored_evidence_confident hm).1⟩

end Praxec
