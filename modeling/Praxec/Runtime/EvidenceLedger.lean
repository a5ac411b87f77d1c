import Praxec.Guards.Verdicts
import Praxec.Runtime.Stages
import Mathlib.Data.List.Perm.Basic

namespace Praxec

open Json Effect Prog Monitor List Returns

/-- What a drive's executors have returned and what has been stored: for the hop under way, for each committed hop,
and for the `onEnter` outputs offered to the store. -/
structure EvidenceLedger where
  agent : List Evidence
  declared : List Evidence
  entering : List Evidence
  hops : List (List Evidence × List Evidence)
  entered : List Evidence
  stored : List (String × Evidence)

namespace EvidenceLedger

def empty : EvidenceLedger :=
  ⟨[], [], [], [], [], []⟩

def note (l : EvidenceLedger) : Event Sig → EvidenceLedger
  | .op (.executeEnd (.agent _) _) (.ok r) => { l with agent := r.evidence }
  | .op (.executeEnd (.declared _) _) (.ok r) => { l with declared := r.evidence }
  | .op (.executeEnd .onEnter _) (.ok r) => { l with entering := r.evidence }
  | .op (.storeSave (.transition _) ..) (.ok _) =>
      { l with hops := l.hops ++ [(l.agent, l.declared)], agent := [], declared := [] }
  | .op (.storeSave (.onEnter ..) ..) _ => { l with entered := l.entered ++ l.entering, entering := [] }
  | .op (.evidenceRecord id ev) (.ok _) => { l with stored := l.stored ++ [(id, ev)] }
  | _ => l

def ofEvents (events : History) : EvidenceLedger :=
  events.foldl note empty

def agents (hops : List (List Evidence × List Evidence)) : List Evidence :=
  hops.flatMap Prod.fst

def executors (hops : List (List Evidence × List Evidence)) : List Evidence :=
  hops.flatMap Prod.snd

def returned (l : EvidenceLedger) : List Evidence :=
  l.hops.flatMap (fun hop => hop.1 ++ hop.2) ++ l.entered

def writtenAfter (gathered : List Evidence) : List (List Evidence × List Evidence) → List Evidence
  | [] => []
  | hop :: rest => (gathered ++ hop.2) ++ writtenAfter (gathered ++ hop.2) rest

def written (hops : List (List Evidence × List Evidence)) : List Evidence :=
  writtenAfter [] hops

theorem executors_append (hops : List (List Evidence × List Evidence)) :
    executors (hops ++ [hop]) = executors hops ++ hop.2 := by
  simp [executors]

theorem writtenAfter_append (hops : List (List Evidence × List Evidence))
     :
    writtenAfter gathered (hops ++ [hop]) = writtenAfter gathered hops ++ (gathered ++ executors (hops ++ [hop])) := by
  induction hops generalizing gathered with
  | nil => simp [writtenAfter, executors]
  | cons first rest ih =>
    rw [cons_append, writtenAfter, writtenAfter, ih]
    simp [executors, append_assoc]

theorem written_append (hops : List (List Evidence × List Evidence)) :
    written (hops ++ [hop]) = written hops ++ executors (hops ++ [hop]) :=
  writtenAfter_append hops

def answered : Event Sig → Bool
  | .op (.evidenceRecord ..) (.error _) => false
  | .op (.storeSave _ inst _) (.ok (saved : WorkflowInstance)) => decide (saved = inst)
  | _ => true

abbrev mon : Monitor Sig EvidenceLedger :=
  ⟨note, fun _ e => answered e = true, fun _ _ => True⟩

def Balanced (id : String) (l : EvidenceLedger) : Prop :=
  l.stored.Perm ((written l.hops ++ l.entered).map (id, ·))

variable {cfg : RuntimeConfig} {args : ChainArgs} {d : Drive} {P : EvidenceLedger → Prop}

theorem keeps_of_note (h : ∀ l : EvidenceLedger, l.note e = l) : mon.Keeps P e := by
  intro l hl _
  have hnext : mon.next l e = l := h l
  exact ⟨trivial, hnext.symm ▸ hl⟩

theorem keeps_handback (e : Event Sig) (h : Handback e) : mon.Keeps P e := by
  refine keeps_of_note fun l => ?_
  cases e with
  | op o r => cases o <;> first | rfl | exact nomatch h
  | call p r | timeout p r => rfl

theorem keeps_quiet (e : Event Sig) (h : Quiet e) : mon.Keeps P e :=
  keeps_handback e h.handback

structure Driving (args : ChainArgs) (d : Drive) (l : EvidenceLedger) : Prop where
  id : d.inst.id = args.inst.id
  agent : l.agent = []
  declared : l.declared = []
  gathered : executors l.hops = d.evidence
  balanced : Balanced args.inst.id l

structure Chosen (args : ChainArgs) (d : Drive) (l : EvidenceLedger) : Prop where
  id : d.inst.id = args.inst.id
  declared : l.declared = []
  gathered : executors l.hops = d.evidence
  balanced : Balanced args.inst.id l

structure Worked (args : ChainArgs) (inst : WorkflowInstance) (evidence : List Evidence) (l : EvidenceLedger) : Prop where
  id : inst.id = args.inst.id
  gathered : executors l.hops ++ l.declared = evidence
  balanced : Balanced args.inst.id l

structure Committed (args : ChainArgs) (inst : WorkflowInstance) (evidence : List Evidence) (l : EvidenceLedger) : Prop where
  id : inst.id = args.inst.id
  agent : l.agent = []
  declared : l.declared = []
  gathered : executors l.hops = evidence
  owed : (l.stored ++ evidence.map (args.inst.id, ·)).Perm ((written l.hops ++ l.entered).map (args.inst.id, ·))

theorem Driving.chosen (h : Driving args d l) : Chosen args d l :=
  ⟨h.id, h.declared, h.gathered, h.balanced⟩

theorem recordEvidence_stores (hevidence : cfg.evidence) (id : String) (evs : List Evidence) (l : EvidenceLedger) :
    mon.Returns (· = l) (recordEvidence cfg id evs) fun _ l' => l' = { l with stored := l.stored ++ evs.map (id, ·) } := by
  induction evs generalizing l with
  | nil => exact .pure fun _ h => by simp [h]
  | cons ev rest ih =>
    have hone : mon.Returns (· = l) (recordOneEvidence id ev) fun _ l' => l' = { l with stored := l.stored ++ [(id, ev)] } := by
      refine (Returns.perform (Q := fun _ l' => l' = { l with stored := l.stored ++ [(id, ev)] }) fun l' r hl ha => ?_).bind
        fun _ => .pure fun _ => fun h => h
      subst hl
      cases r with
      | ok _ => exact ⟨trivial, rfl⟩
      | error _ => cases ha
    unfold recordEvidence
    rw [hevidence]
    refine hone.bind fun _ => (ih _).mono fun _ l' hl => ?_
    rw [hl]
    simp [append_assoc]

variable {evidence : List Evidence}

theorem recordEvidence_committed (hevidence : cfg.evidence) :
    mon.Returns (Committed args saved evidence) (recordEvidence cfg saved.id evidence)
    fun _ => Driving args ⟨saved, [], evidence⟩ := by
  intro l hl
  refine wp_mono (fun _ l' hl' => ?_) (recordEvidence_stores hevidence saved.id evidence l l rfl)
  subst hl'
  exact ⟨hl.id, hl.agent, hl.declared, hl.gathered, by rw [hl.id]; exact hl.owed⟩

theorem commit_committed {firing : Firing} {next : WorkflowInstance} {note : CommitNote}
    : mon.Triple (Worked args next evidence) (commitTransition firing next note v)
    (fun saved => Committed args saved evidence) fun _ => Balanced args.inst.id := by
  refine (Triple.of_uses (emitTransitionRecord_uses fun _ => keeps_of_note fun _ => rfl)
    fun _ _ h => h.balanced).bind fun _ => Returns.perform fun l r hl ha => ⟨trivial, ?_⟩
  cases r with
  | error e => exact hl.balanced
  | ok saved =>
    cases (of_decide_eq_true ha : saved = next)
    have hgathered : executors (l.hops ++ [(l.agent, l.declared)]) = evidence := by
      rw [executors_append]
      exact hl.gathered
    refine ⟨hl.id, rfl, rfl, hgathered, ?_⟩
    change (l.stored ++ evidence.map (args.inst.id, ·)).Perm
      ((written (l.hops ++ [(l.agent, l.declared)]) ++ l.entered).map (args.inst.id, ·))
    rw [written_append, hgathered, append_assoc, map_append, map_append]
    have hbalanced := hl.balanced
    rw [Balanced, map_append] at hbalanced
    refine (hbalanced.append_right _).trans ?_
    rw [append_assoc]
    exact perm_append_comm.append_left _

structure Entering (args : ChainArgs) (d : Drive) (r : ExecuteResult) (l : EvidenceLedger) : Prop extends Driving args d l where
  entering : l.entering = r.evidence

theorem commitOnEnter_driving (hevidence : cfg.evidence) :
    mon.Triple (Entering args ⟨inst, [], evidence⟩ r) (commitOnEnter cfg inst mapping context r.evidence)
    (fun entered => Driving args ⟨entered, [], evidence⟩) fun _ => Balanced args.inst.id := by
  have hstored : mon.Returns (Entering args ⟨inst, [], evidence⟩ r) (recordEvidence cfg inst.id r.evidence)
      fun _ l' => ∃ l, Entering args ⟨inst, [], evidence⟩ r l ∧
        l' = { l with stored := l.stored ++ r.evidence.map (args.inst.id, ·) } := by
    intro l hl
    refine wp_mono (fun _ l' hl' => ⟨l, hl, ?_⟩) (recordEvidence_stores hevidence inst.id r.evidence l l rfl)
    rw [hl', show inst.id = args.inst.id from hl.id]
  refine (Triple.lift hstored).bind fun _ => Returns.perform fun l' saved hl' ha => ⟨trivial, ?_⟩
  obtain ⟨l, hl, rfl⟩ := hl'
  have hbalanced : Balanced args.inst.id
      { l with stored := l.stored ++ r.evidence.map (args.inst.id, ·), entered := l.entered ++ l.entering, entering := [] } := by
    unfold Balanced
    rw [hl.entering, ← append_assoc, map_append]
    exact hl.balanced.append_right _
  cases saved with
  | error e => exact hbalanced
  | ok saved =>
    cases (of_decide_eq_true ha : saved = _)
    exact ⟨hl.id, hl.agent, hl.declared, hl.gathered, hbalanced⟩

theorem runOnEnter_driving (hevidence : cfg.evidence)
    : mon.Triple (Driving args ⟨inst, [], evidence⟩) (runOnEnter cfg definition inst c)
    (fun entered => Driving args ⟨entered, [], evidence⟩) fun _ => Balanced args.inst.id := by
  refine runOnEnter_triple (R := Entering args ⟨inst, [], evidence⟩) keeps_quiet (fun _ _ h => h.balanced)
    (fun _ => keeps_quiet) (fun _ _ _ h => h.balanced) (fun _ => id) (fun config key => ?_)
    fun _ _ _ _ _ _ _ => commitOnEnter_driving hevidence
  refine (of_uses (.perform fun _ => keeps_of_note fun _ => rfl)).bind fun _ => .perform fun l r hl _ => ⟨trivial, ?_⟩
  cases r with
  | error e => exact hl
  | ok r => exact ⟨⟨hl.id, hl.agent, hl.declared, hl.gathered, hl.balanced⟩, rfl⟩

theorem selectHop_chosen : mon.Triple (Driving args d) (selectHop cfg args d)
    (fun hop => hop.elim (Driving args d) fun _ => Chosen args d) fun _ => Balanced args.inst.id := by
  refine selectHop_triple keeps_quiet (fun _ _ _ h => h.balanced) (fun _ _ _ => ?_) fun candidate _ => ?_
  · exact (Triple.of_uses (selectDeterministicTransition_quiet.mono keeps_quiet) fun _ _ => id).mono fun _ _ h => h.chosen
  · obtain ⟨name, transition⟩ := candidate
    have hbracket : Bracket mon cfg d.inst ((transition.get "executor").getD .emptyObject) (Driving args d)
        (fun _ => Driving args d) (fun _ _ => Driving args d) (fun _ => Driving args d) (fun _ _ => Chosen args d)
        fun _ => Chosen args d :=
      .plain keeps_handback (fun _ => keeps_handback) fun _ _ _ _ => keeps_of_note fun _ => rfl
    refine autoDriveHop_triple hbracket (fun _ _ _ h => h.balanced) (fun _ _ => id) (fun _ _ _ _ h => h.balanced)
      (fun _ _ _ _ h => h.balanced) (fun _ _ _ _ _ _ _ _ => ?_) fun _ _ _ _ => id
    refine (of_uses (.perform fun _ => keeps_of_note fun _ => rfl)).bind fun _ =>
      .perform fun l r hl _ => ⟨trivial, ?_⟩
    cases r with
    | error e => exact hl
    | ok r => exact ⟨hl.id, hl.declared, hl.gathered, hl.balanced⟩

theorem runHopExecutor_worked : mon.Triple (Chosen args d) (runHopExecutor cfg args d hop)
    (fun work => Worked args work.inst work.evidence) fun _ => Balanced args.inst.id := by
  have hid {work : HopWork} (h : work.Of cfg args.definition d hop) : work.inst.id = d.inst.id := by
    cases h <;> rfl
  refine runHopExecutor_triple (R := fun r => Worked args d.inst (d.evidence ++ r.evidence)) keeps_quiet
    (fun _ _ _ h => h.balanced) (fun _ => keeps_quiet) (fun _ _ _ _ h => h.balanced) (fun _ _ _ h => h.balanced)
    (fun _ _ _ _ _ _ _ h => h.balanced) (fun _ _ _ _ _ _ _ h => h.balanced) (fun work hof hwork l h => ?_)
    (fun _ _ _ _ _ _ _ => ?_) fun r work _ hof hwork l h => ?_
  · refine ⟨(hid hof).trans h.id, ?_, h.balanced⟩
    rw [h.declared, append_nil, h.gathered, hwork]
  · refine (of_uses (.perform fun _ => keeps_of_note fun _ => rfl)).bind fun _ =>
      .perform fun l r hl _ => ⟨trivial, ?_⟩
    cases r with
    | error e => exact hl
    | ok r => exact ⟨hl.id, congrArg (· ++ r.evidence) hl.gathered, hl.balanced⟩
  · exact ⟨(hid hof).trans h.id, h.gathered.trans hwork.symm, h.balanced⟩

theorem commitHop_driving (hevidence : cfg.evidence) :
    mon.Triple (Worked args work.inst work.evidence) (commitHop cfg args d hop work startedAt) (Driving args)
    fun _ => Balanced args.inst.id := by
  refine commitHop_triple (.none keeps_quiet) (fun _ _ h => h.balanced) (fun _ => keeps_quiet)
    (fun next note => commit_committed.pre ?_) (fun saved => recordEvidence_committed hevidence)
    (fun saved => runOnEnter_driving hevidence) fun entered steps l h => ⟨h.id, h.agent, h.declared, h.gathered, h.balanced⟩
  rintro l ⟨hcommits, hworked⟩
  have hid : next.id = work.inst.id := by
    cases hcommits
    rfl
  exact ⟨hid.trans hworked.id, hworked.gathered, hworked.balanced⟩

theorem chainLoop_driving (hevidence : cfg.evidence) :
    mon.Triple (Driving args d) (chainLoop cfg args fuel d) (Driving args) fun _ => Balanced args.inst.id := by
  have hlook {α : Type} {d : Drive} {x : Run α} (hx : x.Uses Quiet) :
      mon.Triple (Driving args d) (liftM x : ChainStage α) (fun _ => Driving args d) fun _ => Balanced args.inst.id :=
    .lift (quiet_returns keeps_quiet hx)
  have hchecks {d : Drive} : mon.Triple (Driving args d) (hopChecks cfg args d)
      (fun proceed l => (proceed → d.Within args) ∧ Driving args d l) fun _ => Balanced args.inst.id :=
    hopChecks_triple keeps_quiet fun _ _ _ h => h.balanced
  induction fuel generalizing d with
  | zero =>
    refine (hlook now_uses).bind fun _ => hchecks.bind fun proceed => .assume fun _ => ?_
    split <;> exact .pure fun _ => id
  | succ fuel ih =>
    refine (hlook now_uses).bind fun _ => hchecks.bind fun proceed => .assume fun _ => ?_
    split
    · exact .pure fun _ => id
    refine selectHop_chosen.bind fun hop => ?_
    cases hop with
    | none => exact .pure fun _ => id
    | some hop =>
      refine (Triple.lift (quiet_returns keeps_quiet recordOrSelfEvent_uses)).bind fun _ =>
        runHopExecutor_worked.bind fun work => (commitHop_driving hevidence).bind fun d' =>
        (hlook pastTimeout_uses).bind fun late => ?_
      split
      · exact .pure fun _ => id
      · exact ih

theorem runDeterministicChain_balanced (hevidence : cfg.evidence) :
    mon.Returns (· = empty) (runDeterministicChain cfg args).run fun _ => Balanced args.inst.id := by
  have hchain : mon.Triple (Driving args ⟨args.inst, [], []⟩) (runDeterministicChain cfg args)
      (fun _ => Balanced args.inst.id) fun _ => Balanced args.inst.id := by
    refine (Triple.finish (B := fun _ => Balanced args.inst.id) ?_).mono fun _ l h => h.elim id fun ⟨_, _, h⟩ => h
    exact .computeStage (fun _ _ _ h => h.balanced) fun _ _ => (chainLoop_driving hevidence).bind fun d =>
      finishChain_triple (B := fun _ => Balanced args.inst.id) keeps_quiet fun _ _ _ h => h.balanced
  refine Returns.conseq hchain (fun l hl => ?_) fun r l h => by cases r <;> exact h
  subst hl
  exact ⟨rfl, rfl, rfl, rfl, .refl _⟩

theorem written_eq (hops : List (List Evidence × List Evidence)) :
    written hops = written hops.dropLast ++ executors hops := by
  rcases eq_nil_or_concat hops with rfl | ⟨rest, last, rfl⟩
  · rfl
  · rw [concat_eq_append, dropLast_concat, written_append]

theorem returned_perm (l : EvidenceLedger) : l.returned.Perm (agents l.hops ++ (executors l.hops ++ l.entered)) := by
  rw [← append_assoc]
  exact (flatMap_append_perm l.hops Prod.fst Prod.snd).symm.append_right l.entered

theorem Balanced.stored_iff {id : String} (h : Balanced id l) :
    l.stored.Perm (l.returned.map (id, ·)) ↔ (written l.hops.dropLast).Perm (agents l.hops) := by
  have hpair : Function.Injective fun ev : Evidence => (id, ev) := fun _ _ heq => (Prod.mk.inj heq).2
  unfold Balanced at h
  rw [written_eq, append_assoc] at h
  calc l.stored.Perm (l.returned.map (id, ·))
      ↔ (written l.hops.dropLast ++ (executors l.hops ++ l.entered)).Perm l.returned := by
        rw [h.congr_left, map_perm_map_iff hpair]
    _ ↔ (written l.hops.dropLast ++ (executors l.hops ++ l.entered)).Perm
          (agents l.hops ++ (executors l.hops ++ l.entered)) := l.returned_perm.congr_right _
    _ ↔ (written l.hops.dropLast).Perm (agents l.hops) := perm_append_right_iff _

end EvidenceLedger

open EvidenceLedger

/-- A drive stores what its executors returned once each, and so meets no requirement that they do not, exactly if
what its hops before the last write again is what its agents returned. -/
theorem drive_evidence_once_iff {cfg : RuntimeConfig} {args : ChainArgs} {events : History}
    {out : Except Err ChainOutcome} (hevidence : cfg.evidence = true)
    (htrace : (runDeterministicChain cfg args).run.Trace events (some out)) (hanswered : ∀ e ∈ events, answered e = true) :
    ((ofEvents events).stored.Perm ((ofEvents events).returned.map (args.inst.id, ·)) ∧
      ∀ req : EvidenceRequirement, req.Met ((ofEvents events).stored.map Prod.snd) → req.Met (ofEvents events).returned) ↔
    (written (ofEvents events).hops.dropLast).Perm (agents (ofEvents events).hops) := by
  have hbalanced : Balanced args.inst.id (ofEvents events) :=
    (mon.wp_sound (runDeterministicChain_balanced hevidence empty rfl) htrace
      (mon.allowed_of_forall (fun e he _ => hanswered e he) empty)).2 out rfl
  rw [← hbalanced.stored_iff, and_iff_left_iff_imp]
  intro hstored req hmet
  have hrecords : ((ofEvents events).stored.map Prod.snd).Perm (ofEvents events).returned := by
    have := hstored.map Prod.snd
    rwa [map_map, Function.comp_def, map_id'] at this
  unfold EvidenceRequirement.Met at hmet ⊢
  rwa [hrecords.countP_eq] at hmet

def reviewRecord : Evidence :=
  ⟨"review", "r", none, none, none, none⟩

def relayDefinition : Value :=
  let work := ("executor", Value.object [("kind", "noop")])
  definitionOf "a" [("a", stateOf [("go", transitionOf "b" "deterministic" [work])]),
    ("b", stateOf [("go", transitionOf "c" "deterministic" [work])]), ("c", terminalState)]

def relayInstance : WorkflowInstance :=
  ⟨"wf_1", "d", "1", relayDefinition, "a", 0, .emptyObject, .emptyObject, 0, ⟨"/", none, none, none, []⟩, 0, none, none, none⟩

def relayArgs : ChainArgs :=
  ⟨relayDefinition, relayInstance, .anonymous, "c", 8, 8⟩

def relayWorld : World :=
  { (Gateway.boot [("d", relayDefinition)]).world with instances := [("wf_1", relayInstance)] }

def relayInputs (first second : List Evidence) (n k : Nat) : List Input :=
  List.replicate 6 .auto ++ [.executed (.ok ⟨.emptyObject, first, none, none, none⟩)] ++ List.replicate n .auto ++
    [.executed (.ok ⟨.emptyObject, second, none, none, none⟩)] ++ List.replicate k .auto

/-- The first of two hops returns one review, which is stored with either; two reviews are met. -/
theorem first_hop_stored_twice : ∃ (cfg : RuntimeConfig) (args : ChainArgs) (events : History)
    (out : Except Err ChainOutcome) (req : EvidenceRequirement), cfg.evidence = true ∧
    (runDeterministicChain cfg args).run.Trace events (some out) ∧ (∀ e ∈ events, answered e = true) ∧
    (ofEvents events).hops.length = 2 ∧ (ofEvents events).returned = [reviewRecord] ∧
    (ofEvents events).stored = [(args.inst.id, reviewRecord), (args.inst.id, reviewRecord)] ∧
    req.Met ((ofEvents events).stored.map Prod.snd) ∧ ¬ req.Met (ofEvents events).returned := by
  obtain ⟨events, out, htrace, h⟩ := exists_trace_of_play (H := gateway)
    (x := (runDeterministicChain .plain relayArgs).run) relayWorld (relayInputs [reviewRecord] [] 12 10)
    (P := fun events _ => events.all answered && decide ((ofEvents events).hops.length = 2 ∧
      (ofEvents events).returned = [reviewRecord] ∧
      (ofEvents events).stored = [("wf_1", reviewRecord), ("wf_1", reviewRecord)])) (by decide +kernel)
  rw [Bool.and_eq_true, all_eq_true, decide_eq_true_eq] at h
  obtain ⟨hanswered, hhops, hreturned, hstored⟩ := h
  refine ⟨.plain, relayArgs, events, out, ⟨"review", 2, none, false⟩, rfl, htrace, hanswered, hhops, hreturned, hstored, ?_⟩
  rw [hreturned, hstored]
  exact ⟨by unfold EvidenceRequirement.Met; decide, by unfold EvidenceRequirement.Met; decide⟩

theorem last_hop_stored_once : ∃ (events : History) (out : Except Err ChainOutcome),
    (runDeterministicChain .plain relayArgs).run.Trace events (some out) ∧ (∀ e ∈ events, answered e = true) ∧
    (ofEvents events).returned = [reviewRecord] ∧ (ofEvents events).hops.length = 2 ∧
    (ofEvents events).stored.Perm ((ofEvents events).returned.map ("wf_1", ·)) := by
  obtain ⟨events, out, htrace, h⟩ := exists_trace_of_play (H := gateway)
    (x := (runDeterministicChain .plain relayArgs).run) relayWorld (relayInputs [] [reviewRecord] 11 10)
    (P := fun events _ => events.all answered && decide ((ofEvents events).hops = [([], []), ([], [reviewRecord])] ∧
      (ofEvents events).returned = [reviewRecord])) (by decide +kernel)
  rw [Bool.and_eq_true, all_eq_true, decide_eq_true_eq] at h
  obtain ⟨hanswered, hhops, hreturned⟩ := h
  refine ⟨events, out, htrace, hanswered, hreturned, by rw [hhops]; rfl, ?_⟩
  refine ((drive_evidence_once_iff rfl htrace hanswered).mpr ?_).1
  rw [hhops]
  exact .refl _

end Praxec
