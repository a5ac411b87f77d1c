import Praxec.Effect.Triple
import Praxec.Runtime.Minor

namespace Praxec

open Json Effect Prog Monitor Bool ReliabilityPolicy

variable {γ : Type} {mon : Monitor Sig γ} {cfg : RuntimeConfig}

variable {arguments declared : Value}

section

variable {registered : String → Bool} {P : γ → Prop} {E : ExecutorError → γ → Prop} {Q : ExecuteResult → γ → Prop}

def Settled (E : ExecutorError → γ → Prop) (Q : ExecuteResult → γ → Prop) (r : Execution)
    (g : γ) : Prop :=
  match r with
  | .ok result => Q result g
  | .error err => E err g

theorem Settled.mono (hE : ∀ err g, E err g → E' err g) (hQ : ∀ r g, Q r g → Q' r g) (r : Execution) (g : γ)
    (h : Settled E Q r g) : Settled E' Q' r g := by
  cases r with
  | ok r => exact hQ r g h
  | error err => exact hE err g h

/-- How the attempts of an execution move through assertions: `P` before each, `E` when one has failed or
was refused, `Q` when one has succeeded. -/
structure Trials (mon : Monitor Sig γ) (registered : String → Bool) (P : γ → Prop) (E : ExecutorError → γ → Prop)
    (Q : ExecuteResult → γ → Prop) : Prop where
  quiet : ∀ e, Quiet e → mon.Keeps P e
  failed_quiet : ∀ err e, Quiet e → mon.Keeps (E err) e
  executed_quiet : ∀ r e, Quiet e → mon.Keeps (Q r) e
  again : ∀ err g, E err g → P g
  none : ∀ g, P g → E (.permanent "no executor candidates") g
  refused : ∀ kind, registered kind = false → ∀ g, P g → E (.permanent (unregistered kind)) g

theorem Trials.plain (hP : ∀ e, Quiet e → mon.Keeps P e) (hQ : ∀ r e, Quiet e → mon.Keeps (Q r) e) :
    Trials mon registered P (fun _ => P) Q :=
  ⟨hP, fun _ => hP, hQ, fun _ _ => id, fun _ => id, fun _ _ _ => id⟩

theorem quiet_returns (hP : ∀ e, Quiet e → mon.Keeps P e) (hx : x.Uses Quiet) : mon.Returns P x fun _ => P :=
  .of_uses (hx.mono hP)

theorem attemptCandidate_returns (t : Trials mon registered P E Q)
    (hexec : mon.Returns P (execute job.site (job.request executorConfig)) (Settled E Q)) :
    mon.Returns P (attemptCandidate job executorConfig kind candidate left attempt) (Settled E Q) := by
  have hfailed {err : ExecutorError} {e : AuditEvent} := quiet_returns (t.failed_quiet err) (recordOrWarn_uses (e := e))
  induction left generalizing attempt with
  | zero =>
    unfold attemptCandidate
    refine (quiet_returns t.quiet recordOrWarn_uses).bind fun _ => hexec.bind fun result => ?_
    cases result with
    | ok r => exact (quiet_returns (t.executed_quiet r) recordOrWarn_uses).bind fun _ => .pure fun _ => id
    | error err => exact hfailed.bind fun _ => .pure fun _ => id
  | succ left ih =>
    unfold attemptCandidate
    refine (quiet_returns t.quiet recordOrWarn_uses).bind fun _ => hexec.bind fun result => ?_
    cases result with
    | ok r => exact (quiet_returns (t.executed_quiet r) recordOrWarn_uses).bind fun _ => .pure fun _ => id
    | error err =>
      dsimp only
      split
      · exact hfailed.bind fun _ => ih.conseq (t.again err) fun _ _ => id
      · exact hfailed.bind fun _ => .pure fun _ => id

theorem tryCandidates_returns (t : Trials mon registered P E Q)
    (hexec : ∀ c ∈ configs, mon.Returns P (execute job.site (job.request c)) (Settled E Q)) :
    mon.Returns (E last) (tryCandidates registered job configs candidate last) (Settled E Q) := by
  induction configs generalizing candidate last with
  | nil => exact .pure fun _ => id
  | cons c rest ih =>
    have ih {n : Nat} {e : ExecutorError} :
        mon.Returns (E e) (tryCandidates registered job rest n e) (Settled E Q) :=
      ih fun c hc => hexec c (.tail _ hc)
    refine (Returns.onlyIf fun _ => quiet_returns (t.failed_quiet last) recordOrWarn_uses).bind fun _ => ?_
    split
    · refine ((attemptCandidate_returns t (hexec c (.head _))).conseq (t.again last) fun _ _ => id).bind fun result => ?_
      cases result with
      | ok r => exact .pure fun _ => id
      | error err => exact ih
    · rename_i hregistered
      exact ih.conseq (fun g hg => t.refused _ (by simpa using hregistered) g (t.again last g hg)) fun _ _ => id

theorem executeWithReliability_returns
    (t : Trials mon registered P E Q) (hexec : ∀ config ∈ policy.candidates primary, ∀ key,
    mon.Returns P (execute site ⟨i, transition, arguments, config, key, some c⟩) (Settled E Q)) :
    mon.Returns P (executeWithReliability registered site i transition arguments primary policy c) (Settled E Q) :=
  (tryCandidates_returns t fun config hc => hexec config hc _).conseq t.none fun _ _ => id

end

/-- Assertions of an execution under a lease: `P` before it, `L` while the lease is held, `E` and `F` after a failure
and its release, `R` and `S` after a result and its release. -/
structure Bracket (mon : Monitor Sig γ) (cfg : RuntimeConfig) (inst : WorkflowInstance) (declared : Value)
    (P : γ → Prop) (L : Option LockLease → γ → Prop) (E : Option LockLease → ExecutorError → γ → Prop)
    (F : ExecutorError → γ → Prop) (R : Option LockLease → ExecuteResult → γ → Prop) (S : ExecuteResult → γ → Prop) :
    Prop where
  quiet : ∀ e, Quiet e → mon.Keeps P e
  trials : ∀ lease, Trials mon cfg.registered (L lease) (E lease) (R lease)
  settled_quiet : ∀ r e, Quiet e → mon.Keeps (S r) e
  acquire : mon.Returns P (acquireOwnedFiles cfg declared inst) fun acquired g => match acquired with
    | .ok lease => L lease g
    | .error (files, _) => files ≠ [] ∧ P g
  release : ∀ lease r, mon.Returns (R lease r) (releaseLease cfg lease inst) fun _ => S r
  abandon : ∀ lease err, mon.Returns (E lease err) (releaseLease cfg lease inst) fun _ => F err

variable {inst : WorkflowInstance}

theorem acquireOwnedFiles_returns {P : γ → Prop} {L : Option LockLease → γ → Prop} (hnone : ∀ g, P g → L none g)
    (hleased : ∀ lease e, Quiet e → mon.Keeps (L lease) e) (hacquire : mon.Returns P (Prog.perform (S := Sig)
      (.lockAcquire (ownedFilesIn declared) (lockHolder inst.id) lockTtl)) fun acquired : Except LockConflict Unit =>
        match acquired with
        | .ok _ => L (some ⟨ownedFilesIn declared, lockHolder inst.id⟩)
        | .error _ => P) :
    mon.Returns P (acquireOwnedFiles cfg declared inst) fun acquired g => match acquired with
      | .ok lease => L lease g
      | .error (files, _) => files ≠ [] ∧ P g := by
  unfold acquireOwnedFiles
  dsimp only
  split
  · exact .pure hnone
  rename_i hfiles
  split
  · exact .pure hnone
  refine hacquire.bind fun acquired => ?_
  cases acquired with
  | error conflict => exact .pure fun g hg => ⟨by simpa using hfiles, hg⟩
  | ok _ => exact (quiet_returns (hleased _) recordIgnored_uses).bind fun _ => .pure fun _ => id

namespace Bracket

variable {inst : WorkflowInstance} {declared : Value} {P B : γ → Prop} {L : Option LockLease → γ → Prop}
  {E : Option LockLease → ExecutorError → γ → Prop} {F : ExecutorError → γ → Prop}
  {R : Option LockLease → ExecuteResult → γ → Prop} {S : ExecuteResult → γ → Prop}

theorem execute (b : Bracket mon cfg inst declared P L E F R S) (hexec : ∀ config ∈ policy.candidates primary, ∀ key,
    mon.Returns (L lease) (Praxec.execute site ⟨inst, t, arguments, config, key, some c⟩)
    (Settled (E lease) (R lease))) :
    mon.Returns (L lease) (executeLeased cfg lease site inst t arguments primary policy c) (Settled F S) := by
  refine (executeWithReliability_returns (b.trials lease) hexec).bind fun outcome => ?_
  cases outcome with
  | ok r => exact (b.release lease r).bind fun _ => .pure fun _ => id
  | error err => exact (b.abandon lease err).bind fun _ => .pure fun _ => id

theorem plain (hP : ∀ e, Handback e → mon.Keeps P e) (hS : ∀ r e, Handback e → mon.Keeps (S r) e)
    (hacquire : ∀ files holder ttl r, mon.Keeps P (.op (.lockAcquire files holder ttl) r)) :
    Bracket mon cfg inst declared P (fun _ => P) (fun _ _ => P) (fun _ => P) (fun _ => S) S where
  quiet e h := hP e h.handback
  trials _ := .plain (fun e h => hP e h.handback) fun r e h => hS r e h.handback
  settled_quiet r e h := hS r e h.handback
  acquire := acquireOwnedFiles_returns (fun _ => id) (fun _ e h => hP e h.handback) (.perform fun g r hg ha => by
    cases r <;> exact hacquire _ _ _ _ g hg ha)
  release _ r := .of_uses (releaseLease_uses.mono (hS r))
  abandon _ _ := .of_uses (releaseLease_uses.mono hP)

end Bracket

def ChainOutcome.progress : ChainOutcome → ChainResult
  | .completed result | .failed result .. | .suspended result .. | .waitingOnLock result ..
  | .quarantined result _ | .deadlineExceeded result .. | .aborted result _ => result

/-- The ways out of a drive at `d` while no transition is under way: an error, or an outcome that reports
`d` and parks nothing. -/
def Drive.Exits (d : Drive) : Exit Err ChainOutcome → Prop
  | .fail _ => True
  | .reply (.waitingOnLock ..) | .reply (.suspended ..) => False
  | .reply outcome => outcome.progress = d.result

structure Drive.Within (d : Drive) (args : ChainArgs) : Prop where
  unresolved : isTerminal args.definition d.inst.state = false
  depth : d.steps.length < args.maxDepth
  budget : (u64Field d.inst.context chainHopsTotalKey).getD 0 < args.livelockBudget

def Drive.spoiled (d : Drive) (context : Value) (error t : String) : ChainOutcome :=
  .failed { d with inst := { d.inst with context := context } }.result error "blackboard_type_error" t

variable {hop : Hop} {context transition : Value}

section

variable {args : ChainArgs} {d : Drive} {P : γ → Prop} {B : Exit Err ChainOutcome → γ → Prop}

section

variable (hquiet : ∀ e, Quiet e → mon.Keeps P e) (hP : ∀ e g, d.Exits e → P g → B e g)

include hquiet hP

theorem chainFailed_triple : mon.Triple P (chainFailed args d payload e c t) Q B :=
  (Triple.lift (quiet_returns hquiet recordOrSelfEvent_uses)).bind fun _ => .reply fun g => hP _ g rfl

theorem leave_triple (hexits : d.Exits (.reply outcome)) :
    mon.Triple P (do liftM (recordOrSelfEvent e); Stage.reply outcome : ChainStage α) Q B :=
  (Triple.lift (quiet_returns hquiet recordOrSelfEvent_uses)).bind fun _ => .reply fun g => hP _ g hexits

theorem hopChecks_triple : mon.Triple P (hopChecks cfg args d) (fun proceed g => (proceed → d.Within args) ∧ P g) B := by
  have hkeep {α : Type} {x : Run α} (hx : x.Uses Quiet) : mon.Triple P (liftM x : ChainStage α) (fun _ => P) B :=
    .lift (quiet_returns hquiet hx)
  refine (hkeep refreshRunLeases_uses).bind fun _ => ?_
  have hcancel : (Prog.perform (S := Sig) .cancelRequested : Run Bool).Uses Quiet := .perform fun _ => rfl
  refine Triple.bind (α := Bool) (hkeep hcancel) fun cancelled => ?_
  refine (Triple.onlyIf fun _ => leave_triple hquiet hP (by rfl)).bind fun _ => ?_
  refine (hkeep recordOrSelfEvent_uses).bind fun _ => ?_
  split
  · exact .pure fun _ hg => ⟨fun h => absurd h false_ne_true, hg⟩
  rename_i hopen
  split
  · exact .pure fun _ hg => ⟨fun h => absurd h false_ne_true, hg⟩
  rename_i hdepth
  refine (Triple.exitIf fun _ => leave_triple hquiet hP (by rfl)).bind fun _ => .assume fun hbudget => ?_
  refine (Triple.onlyIf fun _ => ?_).bind fun _ => .pure fun _ hg =>
    ⟨fun _ => ⟨eq_false_iff.mpr hopen, Nat.not_le.mp hdepth, Nat.not_le.mp hbudget⟩, hg⟩
  refine Triple.bind (Q := fun outcome g => d.Exits (.reply outcome) ∧ P g) (.lift ?_) fun outcome =>
    .assume fun hexits => .reply fun g => hP _ g hexits
  exact (quiet_returns hquiet recordOrSelfEvent_uses).bind fun _ => .pure fun g hg => ⟨rfl, hg⟩

omit hP in
theorem checkHopWrites_triple
    (hspoil : ∀ error failure, validateBlackboardWrites cfg.lib args.definition (hop.definition.get "output") context =
      .error failure → ∀ g, P g → B (.reply (d.spoiled context error hop.name)) g) :
    mon.Triple P (checkHopWrites cfg args d hop context) (fun _ g =>
      validateBlackboardWrites cfg.lib args.definition (hop.definition.get "output") context = .ok () ∧ P g) B := by
  unfold checkHopWrites
  split
  · rename_i hvalid
    exact .pure fun _ hg => ⟨hvalid, hg⟩
  · rename_i hinvalid
    exact (Triple.lift (quiet_returns hquiet recordOrSelfEvent_uses)).bind fun _ => .reply (hspoil _ _ hinvalid)

theorem finishChain_triple : mon.Triple P (finishChain cfg args d) (fun outcome => B (.reply outcome)) B := by
  refine (Triple.onlyIf fun _ => .onlyIf fun _ => ?_).bind fun _ => (Triple.onlyIf fun _ => ?_).bind fun _ =>
    .pure fun g => hP (.reply (.completed d.result)) g rfl
  · exact (Triple.lift (quiet_returns hquiet recordOrSelfEvent_uses)).bind fun _ => .reply fun g => hP _ g rfl
  · exact .lift (quiet_returns hquiet recordOrSelfEvent_uses)

end

/-- The continuation gate is open: the declared reads of the state have been captured, and they are not what the
ledger has. -/
structure GateOpen (definition : Value) (inst : WorkflowInstance) (snapshot : Option Value) : Prop where
  captured : captureContinuation definition inst = .ok snapshot
  changed : ∀ s, snapshot = some s → continuationUnchanged inst s = .ok false

theorem autoDriveHop_triple (b : Bracket mon cfg d.inst ((transition.get "executor").getD .emptyObject) P L E F R S)
    (hP : ∀ e g, d.Exits e → P g → B e g) (hgive : ∀ err g, F err g → P g)
    (hpark : ∀ files conflict g, files ≠ [] → P g → B (.reply (.waitingOnLock d.result name files conflict)) g)
    (hmalformed : ∀ lease e, fromValue (transition.get "reliability") = .error e →
    ∀ g, L lease g → B (.fail e) g) (hexec : ∀ lease policy agentConfig,
    fromValue (transition.get "reliability") = .ok policy →
    cfg.checks.agentConfig args.definition d.inst transition = .ok agentConfig →
    ∀ config ∈ policy.candidates agentConfig, ∀ key, mon.Returns (L lease) (execute (.agent transition)
    ⟨d.inst, some name, .emptyObject, config, key, some args.correlationId⟩) (Settled (E lease) (R lease)))
    (hQ : ∀ snapshot, GateOpen args.definition d.inst snapshot → ∀ r g, S r g →
    Q ⟨name, transition, r.output, "agent", .agent, snapshot⟩ g) :
    mon.Triple P (autoDriveHop cfg args d (name, transition)) Q B := by
  have hquarantine {c : Prop} [Decidable c] {event : AuditEvent} {reason : String} : mon.Triple P (onlyIf c do
        liftM (recordOrSelfEvent event)
        Stage.reply (.quarantined d.result reason) : ChainStage Unit) (fun _ g => ¬ c ∧ P g) B :=
    .exitIf fun _ => (Triple.lift (quiet_returns b.quiet recordOrSelfEvent_uses)).bind fun _ =>
      .reply fun g => hP _ g rfl
  refine .computeStage (fun e _ g => hP _ g trivial) fun snapshot hcaptured =>
    Triple.bind (Q := fun _ g => GateOpen args.definition d.inst snapshot ∧ P g) ?_ fun _ => .assume fun hopen =>
    .computeStage (fun e _ g => hP _ g trivial) fun agentConfig hagent =>
    (Triple.lift b.acquire).bind fun acquired => ?_
  · cases snapshot with
    | none => exact fun g hg => ⟨⟨hcaptured, nofun⟩, hg⟩
    | some s =>
      refine .computeStage (fun e _ g => hP _ g trivial) fun unchanged hunchanged => hquarantine.mono fun _ g hg => ?_
      obtain ⟨hchanged, hg⟩ := hg
      refine ⟨⟨hcaptured, ?_⟩, hg⟩
      rintro _ ⟨⟩
      rw [hunchanged, eq_false_iff.mpr hchanged]
  cases acquired with
  | error conflict => exact .reply fun g hg => hpark _ _ g hg.1 hg.2
  | ok lease =>
    refine (Triple.lift (quiet_returns (b.trials lease).quiet recordOrSelfEvent_uses)).bind fun _ => ?_
    refine .computeStage (hmalformed lease) fun policy hparsed =>
      (Triple.lift (b.execute (hexec lease policy agentConfig hparsed hagent))).bind fun outcome => ?_
    cases outcome with
    | ok r =>
      exact (Triple.lift (quiet_returns (b.settled_quiet r) recordOrSelfEvent_uses)).bind fun _ =>
        .pure (hQ snapshot hopen r)
    | error err => exact (chainFailed_triple b.quiet hP).pre (hgive err)

/-- What the executor stage of a hop leaves: the output of nothing or of a result merged, its writes
valid for the definition's typed slots. -/
inductive HopWork.Of (cfg : RuntimeConfig) (definition : Value) (d : Drive) (hop : Hop) : HopWork → Prop where
  | plain {context : Value} (hexecutor : hop.definition.get "executor" = none)
      (hmerge : mergeHop cfg d hop .null = .ok context)
      (hvalid : validateBlackboardWrites cfg.lib definition (hop.definition.get "output") context = .ok ()) :
      Of cfg definition d hop ⟨{ d.inst with context := context }, none, none, d.evidence⟩
  | executed {r : ExecuteResult} {merged : Value} (hexecutor : (hop.definition.get "executor").isSome)
      (hmerge : mergeHop cfg d hop r.output = .ok merged)
      (hvalid : validateBlackboardWrites cfg.lib definition (hop.definition.get "output")
        (clearAgentAwaitOnAdvance (clearSubworkflowWaitOnAdvance merged hop.name) hop.name) = .ok ()) :
      Of cfg definition d hop ⟨{ d.inst with
        context := clearAgentAwaitOnAdvance (clearSubworkflowWaitOnAdvance merged hop.name) hop.name },
        r.childWorkflowId, some true, d.evidence ++ r.evidence⟩

theorem runHopExecutor_triple (hquiet : ∀ e, Quiet e → mon.Keeps P e) (hP : ∀ e g, d.Exits e → P g → B e g)
    (hexecuted : ∀ r e, Quiet e → mon.Keeps (R r) e) (hR : ∀ r e g, d.Exits e → R r g → B e g)
    (hsuspend : ∀ r suspend g, R r g → B (.reply (.suspended d.result suspend hop.name)) g)
    (hspoilPlain : ∀ context error failure, hop.definition.get "executor" = none →
    mergeHop cfg d hop .null = .ok context →
    validateBlackboardWrites cfg.lib args.definition (hop.definition.get "output") context = .error failure →
    ∀ g, P g → B (.reply (d.spoiled context error hop.name)) g)
    (hspoil : ∀ r merged error failure, mergeHop cfg d hop r.output = .ok merged →
    validateBlackboardWrites cfg.lib args.definition (hop.definition.get "output")
    (clearAgentAwaitOnAdvance (clearSubworkflowWaitOnAdvance merged hop.name) hop.name) = .error failure →
    ∀ g, R r g → B (.reply (d.spoiled
    (clearAgentAwaitOnAdvance (clearSubworkflowWaitOnAdvance merged hop.name) hop.name) error hop.name)) g)
    (hplain : ∀ work, work.Of cfg args.definition d hop → work.evidence = d.evidence → ∀ g, P g → Q work g)
    (hexec : ∀ policy executorConfig, hop.definition.get "executor" = some executorConfig →
    fromValue (hop.definition.get "reliability") = .ok policy →
    ∀ config ∈ policy.candidates executorConfig, ∀ key, mon.Returns P (execute (.declared (hop.firing d))
    ⟨d.inst, some hop.name, hop.arguments, config, key, some args.correlationId⟩) (Settled (fun _ => P) R))
    (hwork : ∀ r work, r.suspend = none → work.Of cfg args.definition d hop → work.evidence = d.evidence ++ r.evidence →
    ∀ g, R r g → Q work g) : mon.Triple P (runHopExecutor cfg args d hop) Q B := by
  unfold runHopExecutor
  cases hexecutor : hop.definition.get "executor" with
  | none =>
    exact .computeStage (fun e _ g => hP _ g trivial) fun context hcontext =>
      (checkHopWrites_triple hquiet fun _ _ => hspoilPlain _ _ _ hexecutor hcontext).bind fun _ => .assume fun hvalid =>
      .pure (hplain _ (.plain hexecutor hcontext hvalid) rfl)
  | some executorConfig =>
    refine .computeStage (fun e _ g => hP _ g trivial) fun policy hparsed => (Triple.lift
      (executeWithReliability_returns (.plain hquiet hexecuted) (hexec policy executorConfig hexecutor hparsed))).bind
      fun outcome => ?_
    cases outcome with
    | error e => exact chainFailed_triple hquiet hP
    | ok r =>
      dsimp only
      cases hs : r.suspend with
      | some suspend =>
        have hparked : mon.Triple (R r) (forSome (some suspend) fun suspend => do
            liftM (recordOrSelfEvent (d.event args "chain.suspended" [("transition", .string hop.name),
              ("fromState", .string d.inst.state), ("chainDepth", .nat d.steps.length)]))
            Stage.reply (.suspended d.result suspend hop.name) : ChainStage Unit) (fun _ _ => False) B :=
          (Triple.lift (quiet_returns (hexecuted r) recordOrSelfEvent_uses)).bind fun _ => .reply (hsuspend r suspend)
        exact hparked.bind fun _ _ => False.elim
      | none =>
      refine (Triple.onlyIf fun _ => .throw fun g => hR r _ g (by trivial)).bind fun _ => ?_
      exact .computeStage (fun e _ g => hR r _ g trivial) fun merged hmerge =>
        (checkHopWrites_triple (hexecuted r) fun _ _ => hspoil r _ _ _ hmerge).bind fun _ => .assume fun hvalid =>
        .pure (hwork r _ hs (.executed (by simp [hexecutor]) hmerge hvalid) rfl)

theorem selectHop_triple (hquiet : ∀ e, Quiet e → mon.Keeps P e) (hP : ∀ e g, d.Exits e → P g → B e g)
    (hselect : ∀ candidates direct, hopPlan cfg args.definition d.inst.state = .select candidates direct →
    mon.Triple P (selectDeterministicTransition candidates d.inst args.principal args.correlationId)
    (fun c => Q ⟨c.1, c.2, .emptyObject, if direct then "agent" else "deterministic",
    .selected candidates, none⟩) fun _ => P)
    (hauto : ∀ candidate, hopPlan cfg args.definition d.inst.state = .autoDrive candidate →
    mon.Triple P (autoDriveHop cfg args d candidate) Q B) :
    mon.Triple P (selectHop cfg args d) (fun hop => hop.elim P Q) B := by
  unfold selectHop
  split
  · exact .pure fun _ => id
  · rename_i candidate hplan
    exact (hauto candidate hplan).bind fun _ => .pure fun _ => id
  · rename_i candidates direct hplan
    refine (Triple.lift (hselect candidates direct hplan)).bind fun selected => ?_
    cases selected with
    | ok c => exact .pure fun _ => id
    | error e => exact chainFailed_triple hquiet hP

end

def OnEnters (definition : Value) (inst : WorkflowInstance) : Prop :=
  ∃ onEnter, definition.walk ["states", inst.state, "onEnter"] = some onEnter ∧ (onEnter.get "executor").isSome

variable {definition : Value}

theorem runOnEnter_triple (hquiet : ∀ e, Quiet e → mon.Keeps P e) (hP : OnEnters definition inst → ∀ g, P g → B g)
    (hexecuted : ∀ r e, Quiet e → mon.Keeps (R r) e) (hR : OnEnters definition inst → ∀ r g, R r g → B g)
    (hnone : ∀ g, P g → Q inst g)
    (hexec : ∀ config key, mon.Returns P (execute .onEnter ⟨inst, none, .emptyObject, config, key, some c⟩)
    (Settled (fun _ => P) R))
    (hcommit : ∀ onEnter r context, definition.walk ["states", inst.state, "onEnter"] = some onEnter →
    OnEnters definition inst → mergeOnEnter cfg inst onEnter r.output = .ok context →
    validateBlackboardWrites cfg.lib definition (onEnter.get "output") context = .ok () →
    mon.Triple (R r) (commitOnEnter cfg inst (onEnter.get "output") context r.evidence) Q fun _ => B) :
    mon.Triple P (runOnEnter cfg definition inst c) Q fun _ => B := by
  unfold runOnEnter
  split
  · exact .pure hnone
  rename_i onEnter honEnter
  split
  · exact .pure hnone
  rename_i executorConfig hexecutor
  have hon : OnEnters definition inst := ⟨onEnter, honEnter, by simp [hexecutor]⟩
  refine .compute (fun _ _ => hP hon) fun policy _ => (Triple.lift (executeWithReliability_returns
    (.plain hquiet hexecuted) fun config _ key => hexec config key)).bind fun outcome => ?_
  cases outcome with
  | error e => exact .throw (hP hon)
  | ok r =>
    refine (Triple.onlyIf fun _ => .throw (hR hon r)).bind fun _ =>
      .compute (fun _ _ => hR hon r) fun context hcontext => ?_
    split
    · exact .throw (hR hon r)
    · rename_i hvalid
      exact hcommit onEnter r context honEnter hon hcontext hvalid

/-- The arguments of an admitted submit, defaulted and valid for the transition's `inputSchema`. -/
structure Admitted.Validated (cfg : RuntimeConfig) (a : Admitted) (arguments : Value) : Prop where
  defaulted : arguments = applySchemaDefaults (a.transition.get "inputSchema") a.request.arguments
  valid : ∀ s, a.transition.get "inputSchema" = some s → Validates cfg.lib s arguments

/-- What the executor stage of a submit leaves: nothing merged, or the output of a result that neither parked the step
nor stated an impossible confidence. -/
inductive SubmitWork.Of (cfg : RuntimeConfig) (a : Admitted) (arguments : Value) : SubmitWork → Prop where
  | plain {context : Value} (hexecutor : a.transition.get "executor" = none)
      (hmerge : mergeSubmit cfg a arguments .null = .ok context)
      (hvalid : validateBlackboardWrites cfg.lib a.inst.definition (a.transition.get "output") context = .ok ()) :
      Of cfg a arguments ⟨{ a.inst with context := context }, [], none, none, none⟩
  | executed {r : ExecuteResult} {merged : Value} (hexecutor : (a.transition.get "executor").isSome)
      (hsuspend : r.suspend = none) (hmerge : mergeSubmit cfg a arguments r.output = .ok merged)
      (hvalid : validateBlackboardWrites cfg.lib a.inst.definition (a.transition.get "output")
        (clearAgentAwaitOnAdvance (clearSubworkflowWaitOnAdvance merged a.request.transition)
          a.request.transition) = .ok ())
      (hconstraints : evaluateConstraints cfg.lib a.inst.definition a.inst.state
        (clearAgentAwaitOnAdvance (clearSubworkflowWaitOnAdvance merged a.request.transition)
          a.request.transition) = .ok ())
      (hconfident : ∀ ev ∈ r.evidence, ev.ConfidenceOk) :
      Of cfg a arguments ⟨{ a.inst with
        context := clearAgentAwaitOnAdvance (clearSubworkflowWaitOnAdvance merged a.request.transition)
          a.request.transition }, r.evidence, r.childWorkflowId, some true, r.nextTransition⟩

structure Response.Shows (r : Response) (inst : WorkflowInstance) (hint : StatusHint)
    (error : Option ResponseError) : Prop where
  workflow : r.workflow = inst
  hint : r.hint = hint
  error : r.error = error

def AtCap (inst : WorkflowInstance) (name : String) : Prop :=
  ∃ transition cap fired, transitionDefinition inst.definition inst.state name = some transition ∧
    maxFires transition = some cap ∧ readCounterSlot inst.context (fireCountKey inst.state name) = .ok fired ∧
    cap ≤ fired

def refusalError (code message transition : String) : ResponseError :=
  ⟨code, message, [("attemptedTransition", .string transition)]⟩

/-- The ways out of a submit that commits nothing: an error, or a refusal that shows the loaded instance. -/
def Refusal (inst : WorkflowInstance) (request : SubmitTransition) : Exit Err Response → Prop
  | .fail _ => True
  | .reply r => ∃ code message, r.Shows inst .rejected (some (refusalError code message request.transition)) ∧
      (code = "TRANSITION_FIRE_CAP_EXCEEDED" → AtCap inst request.transition)

variable {principal : Principal}

section

variable {P : γ → Prop} {B : Exit Err Response → γ → Prop} (hquiet : ∀ e, Quiet e → mon.Keeps P e)

theorem replyWith_triple (hr : mon.Returns P r S) (hB : ∀ response g, S response g → B (.reply response) g) :
    mon.Triple P (replyWith r) Q B :=
  (Triple.lift hr).bind fun response => .reply (hB response)

include hquiet

theorem response_shows : mon.Returns P (response definition inst principal cfg hint error)
    fun r g => r.Shows inst hint error ∧ P g := by
  refine (quiet_returns hquiet evaluateOutcomes_quiet).bind fun met => ?_
  have hheld : (Prog.perform (S := Sig) .lockHeld : Run (List HeldLock)).Uses Quiet := .perform fun _ => rfl
  split
  · exact (quiet_returns hquiet hheld).bind fun _ => .pure fun _ hg => ⟨⟨rfl, rfl, rfl⟩, hg⟩
  · exact .pure fun _ hg => ⟨⟨rfl, rfl, rfl⟩, hg⟩

theorem recordRejected_shows {transition : String} :
    mon.Returns P (recordRejected definition inst principal cfg code message transition c)
      fun r g => r.Shows inst .rejected (some (refusalError code message transition)) ∧ P g :=
  (quiet_returns hquiet recordOrSelfEvent_uses).bind fun _ => response_shows hquiet

theorem reject_triple {request : SubmitTransition} (hP : ∀ e g, Refusal inst request e → P g → B e g)
    (hcode : code = "TRANSITION_FIRE_CAP_EXCEEDED" → AtCap inst request.transition) :
    mon.Triple P (reject cfg inst request c code message) Q B :=
  replyWith_triple (recordRejected_shows hquiet) fun r g hg => hP (.reply r) g ⟨code, message, hg.1, hcode⟩ hg.2

end

section

variable {a : Admitted} {P : γ → Prop} {B : Exit Err Response → γ → Prop}
  (hquiet : ∀ e, Quiet e → mon.Keeps P e) (hP : ∀ e g, Refusal a.inst a.request e → P g → B e g)

include hquiet hP

theorem modelAcceptanceEvent_triple : mon.Triple P (modelAcceptanceEvent cfg a) (fun _ => P) B := by
  have hfail (e : Err) (g : γ) : P g → B (.fail e) g := hP (.fail e) g trivial
  have hlist : UsesE Quiet (ExceptT.mk (Prog.perform (S := Sig) .auditListEvents) :
      Fallible (Option (List AuditEvent))) := .perform fun _ => rfl
  unfold modelAcceptanceEvent
  split
  · exact .pure fun _ => id
  refine Triple.bind (Triple.attempt (.of_uses (hlist.mono hquiet) hfail)) fun listed => ?_
  cases listed with
  | none => exact .throw (hfail _)
  | some events => exact .computeStage (fun e _ => hfail e) fun _ _ => .pure fun _ => id

theorem checkActor_triple : mon.Triple P (checkActor cfg a) (fun _ => P) B :=
  (Triple.onlyIf fun _ => reject_triple hquiet hP (by simp)).bind fun _ =>
    (Triple.onlyIf fun _ => .forSome fun _ _ => reject_triple hquiet hP (by simp)).bind fun _ =>
    .onlyIf fun _ => reject_triple hquiet hP (by simp)

theorem checkArguments_triple :
    mon.Triple P (checkArguments cfg a) (fun arguments g => a.Validated cfg arguments ∧ P g) B := by
  unfold checkArguments
  dsimp only
  cases hv : validateSchema cfg.lib (a.transition.get "inputSchema")
      (applySchemaDefaults (a.transition.get "inputSchema") a.request.arguments) "transition input" with
  | ok u => exact .pure fun g hg => ⟨⟨rfl, (validateSchema_ok_iff cfg.lib _ _ _).mp hv⟩, hg⟩
  | error e => exact reject_triple hquiet hP (by simp)

omit hquiet hP in
theorem guardRejection_code : (guardRejection diagnostic).1 ≠ "TRANSITION_FIRE_CAP_EXCEEDED" := by
  unfold guardRejection
  split
  · simp
  · split <;> simp

theorem checkGuards_triple : mon.Triple P (checkGuards cfg a arguments) (fun _ => P) B := by
  refine (Triple.lift (quiet_returns hquiet evaluateGuards_quiet)).bind fun result => ?_
  rcases result with e | outcome
  · cases e with
    | unsetSlot message => exact reject_triple hquiet hP (by simp)
    | other message => exact .throw fun g => hP _ g trivial
  · dsimp only
    split
    · exact .pure fun _ => id
    · exact reject_triple hquiet hP fun hcode => absurd hcode guardRejection_code

def Admitted.Capped (a : Admitted) : Prop :=
  ∀ cap, maxFires a.transition = some cap → ∃ n,
    readCounterSlot a.inst.context (fireCountKey a.inst.state a.request.transition) = .ok n ∧ n < cap

theorem checkFireCap_triple
    (htransition : transitionDefinition a.inst.definition a.inst.state a.request.transition = some a.transition) :
    mon.Triple P (checkFireCap cfg a) (fun _ g => a.Capped ∧ P g) B := by
  unfold checkFireCap
  cases hcap : maxFires a.transition with
  | none => exact .pure fun g hg => ⟨fun cap h => (by cases hcap.symm.trans h), hg⟩
  | some cap =>
    refine .computeStage (fun _ _ g => hP _ g trivial) fun current hcurrent => (Triple.exitIf fun hspent =>
      reject_triple hquiet hP fun _ => ⟨_, cap, current, htransition, hcap, hcurrent, hspent⟩).mono
        fun _ g hg => ⟨fun cap' h => ?_, hg.2⟩
    cases hcap.symm.trans h
    exact ⟨current, hcurrent, Nat.not_le.mp hg.1⟩

theorem checkConfidences_triple (evs : List Evidence) :
    mon.Triple P (checkConfidences cfg a evs) (fun _ g => (∀ ev ∈ evs, ev.ConfidenceOk) ∧ P g) B := by
  induction evs with
  | nil => exact .pure fun _ hg => ⟨by simp, hg⟩
  | cons ev rest ih =>
    unfold checkConfidences
    cases hev : ev.validateConfidence with
    | ok u => exact ih.mono fun _ g ⟨hrest, hg⟩ => ⟨List.forall_mem_cons.mpr ⟨hev, hrest⟩, hg⟩
    | error bad => exact reject_triple hquiet hP (by simp)

theorem checkSubmitWrites_triple :
    mon.Triple P (checkSubmitWrites cfg a context) (fun _ g => validateBlackboardWrites cfg.lib a.inst.definition
      (a.transition.get "output") context = .ok () ∧ P g) B := by
  unfold checkSubmitWrites
  split
  · rename_i hvalid
    exact .pure fun _ hg => ⟨hvalid, hg⟩
  · exact reject_triple hquiet hP (by simp)

theorem checkConstraints_triple : mon.Triple P (checkConstraints cfg a context) (fun _ g =>
      evaluateConstraints cfg.lib a.inst.definition a.inst.state context = .ok () ∧ P g) B := by
  unfold checkConstraints
  split
  · rename_i hholds
    exact .pure fun _ hg => ⟨hholds, hg⟩
  · exact reject_triple hquiet hP (by simp)

omit hquiet hP in
theorem mergeResult_parks (hs : r.suspend = some suspend)
    (hsuspend : mon.Triple P (suspendStep cfg a.inst.definition a.inst a.request.transition
    a.request.expectedVersion a.request.principal suspend) (fun r => B (.reply r)) fun e => B (.fail e)) :
    mon.Triple P (mergeResult cfg a arguments r) (fun _ _ => False) B := by
  have hparked : mon.Triple P (Stage.attempt (suspendStep cfg a.inst.definition a.inst a.request.transition
      a.request.expectedVersion a.request.principal suspend) : DispatchStage _) (fun r => B (.reply r)) B :=
    .attempt hsuspend
  unfold mergeResult
  rw [hs]
  exact (hparked.bind fun _ => .reply (Q := fun _ _ => False) fun _ => id).bind fun _ _ => False.elim

theorem mergeResult_triple (hexecutor : (a.transition.get "executor").isSome)
    (hsuspend : ∀ suspend, mon.Triple P (suspendStep cfg a.inst.definition a.inst a.request.transition
    a.request.expectedVersion a.request.principal suspend) (fun r => B (.reply r)) fun e => B (.fail e)) :
    mon.Triple P (mergeResult cfg a arguments r) (fun work g => (work.Of cfg a arguments ∧
    work.nextTransition = r.nextTransition) ∧ P g) B := by
  cases hs : r.suspend with
  | some suspend => exact (mergeResult_parks hs (hsuspend suspend)).mono fun _ _ => False.elim
  | none =>
    unfold mergeResult
    rw [hs]
    exact .computeStage (fun _ _ g => hP _ g trivial) fun merged hmerge =>
      (checkSubmitWrites_triple hquiet hP).bind fun _ => .assume fun hvalid =>
      (checkConstraints_triple hquiet hP).bind fun _ => .assume fun hconstraints =>
      (checkConfidences_triple hquiet hP r.evidence).bind fun _ =>
      .pure fun g ⟨hconfident, hg⟩ => ⟨⟨.executed hexecutor hs hmerge hvalid hconstraints hconfident, rfl⟩, hg⟩

theorem runSubmitExecutor_triple
    (b : Bracket mon cfg a.inst ((a.transition.get "executor").getD .emptyObject) P L E F R S)
    (hplain : ∀ work, work.Of cfg a arguments → work.evidence = [] → work.nextTransition = none → ∀ g, P g → Q work g)
    (hpark : ∀ files conflict, files ≠ [] → mon.Triple P (parkOnLock cfg a.inst.definition a.inst a.request.transition
    a.request.expectedVersion a.request.principal files conflict) (fun r => B (.reply r)) fun e => B (.fail e))
    (hexec : ∀ lease policy executorConfig, a.transition.get "executor" = some executorConfig →
    fromValue (a.transition.get "reliability") = .ok policy →
    ∀ config ∈ policy.candidates executorConfig, ∀ key, mon.Returns (L lease)
    (execute (.declared (a.firing arguments))
    ⟨a.inst, some a.request.transition, arguments, config, key, some a.correlationId⟩)
    (Settled (E lease) (R lease))) (hmerge : (a.transition.get "executor").isSome → ∀ r,
    mon.Triple (S r) (mergeResult cfg a arguments r) Q B)
    (hfail : ∀ err, mon.Triple (F err) (failSubmit cfg a arguments err) Q B) :
    mon.Triple P (runSubmitExecutor cfg a arguments) Q B := by
  unfold runSubmitExecutor
  cases hexecutor : a.transition.get "executor" with
  | none =>
    exact .computeStage (fun _ _ g => hP _ g trivial) fun context hcontext =>
      (checkSubmitWrites_triple hquiet hP).bind fun _ => .assume fun hvalid =>
      .pure (hplain _ (.plain hexecutor hcontext hvalid) rfl rfl)
  | some executorConfig =>
    rw [hexecutor] at b
    refine .computeStage (fun _ _ g => hP _ g trivial) fun policy hparsed =>
      (Triple.lift b.acquire).bind fun acquired => ?_
    rcases acquired with ⟨files, conflict⟩ | lease
    · exact .assume fun hfiles => (Triple.attempt (hpark files conflict hfiles)).bind fun _ => .reply fun _ => id
    · refine (Triple.lift (b.execute (hexec lease policy executorConfig hexecutor hparsed))).bind fun outcome => ?_
      cases outcome with
      | ok result => exact hmerge (by simp [hexecutor]) result
      | error err => exact hfail err

end

structure TimesOut (definition : Value) (inst : WorkflowInstance) (target : String) : Prop where
  declared : (u64Field definition "timeoutMs").isSome
  unresolved : isTerminal definition inst.state = false
  target : (definition.walk ["onTimeout", "target"]).bind Value.asStr = some target

def timeoutFiring (definition : Value) (inst : WorkflowInstance) : Firing :=
  ⟨.timeout, inst, ((definition.walk ["onTimeout", "transition"]).bind Value.asStr).getD "onTimeout",
    (definition.get "onTimeout").getD .null, .emptyObject⟩

def timeoutParams (definition : Value) (inst : WorkflowInstance) (correlationId : String) : RecordParams :=
  ⟨inst.state, (timeoutFiring definition inst).transition, (timeoutFiring definition inst).definition, "system",
    none, .emptyObject, .emptyObject, [], none, none, correlationId⟩

theorem checkAndApplyTimeout_triple
    {P : γ → Prop} {B : Err → γ → Prop} {R : String → γ → Prop} {N : WorkflowInstance → γ → Prop}
    (hquiet : ∀ e, Quiet e → mon.Keeps P e) (hcalm : ∀ saved e, Calm e → mon.Keeps (N saved) e)
    (hrecord : ∀ target c, TimesOut definition inst target → mon.Triple P
      (emitTransitionRecord (timeoutFiring definition inst) (timedOut inst target) (timeoutParams definition inst c))
      (fun _ => R target) fun _ => P) (hsave : ∀ target, TimesOut definition inst target → mon.Triple (R target)
      (saveIfVersion (.transition (timeoutFiring definition inst)) (timedOut inst target) inst.version) N B) :
    mon.Triple P (checkAndApplyTimeout definition inst principal) (fun out => out.elim P N) B := by
  have hlook {α : Type} {x : Run α} (hx : x.Uses Quiet) : mon.Triple P (liftM x : Fallible α) (fun _ => P) B :=
    .lift (quiet_returns hquiet hx)
  have hafter {saved : WorkflowInstance} {x : Run Unit} (hx : x.Uses Calm) :
      mon.Triple (N saved) (liftM x : Fallible Unit) (fun _ => N saved) B :=
    .lift (.of_uses (hx.mono (hcalm saved)))
  have hnone : mon.Triple P (pure none : Fallible (Option WorkflowInstance)) (fun out => out.elim P N) B :=
    .pure fun _ => id
  unfold checkAndApplyTimeout
  split
  · exact hnone
  rename_i timeoutMs hdeclared
  split
  · exact hnone
  rename_i hterminal
  refine (hlook now_uses).bind fun time => ?_
  split
  · exact hnone
  split
  · exact (hlook recordOrSelfEvent_uses).bind fun _ => hnone
  rename_i target htarget
  have hout : TimesOut definition inst target := ⟨by simp [hdeclared], by simpa using hterminal, htarget⟩
  refine (hlook freshId_uses).bind fun c => (Triple.lift (hrecord target c hout).run).bind fun written => ?_
  cases written with
  | error _ => exact hnone
  | ok _ =>
    exact (hsave target hout).bind fun saved => (hafter recordOrSelfEvent_uses).bind fun _ =>
      (Triple.onlyIf fun _ => hafter resumeParentIfAny_uses).bind fun _ => .pure fun _ => id

variable {a : Admitted}

section

variable {P B : γ → Prop} (hminor : ∀ e, Minor e → mon.Keeps P e) (hP : ∀ g, P g → B g)

include hminor hP

theorem minor_triple (hx : UsesE Minor x) : mon.Triple P x (fun _ => P) fun _ => B :=
  .of_uses (hx.mono hminor) fun _ => hP

theorem minor_ends (hx : UsesE Minor x) : mon.Triple P x (fun _ => B) fun _ => B :=
  (minor_triple hminor hP hx).mono fun _ => hP

theorem failSubmit_triple : mon.Triple P (failSubmit cfg a arguments err) Q fun _ => B := by
  refine (minor_triple hminor hP persistSlotUpdates_minor).bind fun _ =>
    (minor_triple hminor hP (.lift consumeDeadSubworkflowWait_uses)).bind fun effective =>
    (Triple.attempt (minor_triple hminor hP auditRecord_uses)).bind fun _ => ?_
  exact (Triple.onlyIf fun _ => minor_triple hminor hP (.lift cancelIgnored_uses)).bind fun _ =>
    replyWith_triple (response_shows fun e he => hminor e he.minor) fun _ g hg => hP g hg.2

end

variable {target fromState : String} {next : WorkflowInstance}

section

/-- What a monitor remembers of evaluated guards: the guard, the instance and the arguments it was asked
about, and its verdict. -/
abbrev Verdicts (γ : Type) := Value → WorkflowInstance → Value → Bool → γ → Prop

/-- From `P`, every verdict is remembered, and no later look or report forgets it. -/
structure Verdicts.Kept (V : Verdicts γ) (mon : Monitor Sig γ) (P : γ → Prop) : Prop where
  quiet : ∀ e, Quiet e → mon.Keeps P e
  verdict : ∀ guard inst arguments principal pass diagnostic g, P g →
    mon.allows g (.op (.guardEvaluate guard inst arguments principal) (.ok (pass, diagnostic))) →
    V guard inst arguments pass
      (mon.next g (.op (.guardEvaluate guard inst arguments principal) (.ok (pass, diagnostic))))
  stable : ∀ guard inst arguments pass e g, Quiet e → P g → mon.allows g e →
    V guard inst arguments pass g → V guard inst arguments pass (mon.next g e)

variable {V : Verdicts γ} {P : γ → Prop} {inst : WorkflowInstance} {arguments guard : Value} {principal : Principal}

theorem Verdicts.Kept.none (hquiet : ∀ e, Quiet e → mon.Keeps P e) : Verdicts.Kept (fun _ _ _ _ _ => True) mon P :=
  ⟨hquiet, fun _ _ _ _ _ _ _ _ _ => trivial, fun _ _ _ _ _ _ _ _ _ _ => trivial⟩

theorem Verdicts.Kept.along (h : V.Kept mon P) {F : (Value → WorkflowInstance → Value → Bool → Prop) → Prop}
    (hF : ∀ {v v'}, (∀ guard inst arguments pass, v guard inst arguments pass → v' guard inst arguments pass) →
      F v → F v') :
    V.Kept mon fun g => F (fun guard inst arguments pass => V guard inst arguments pass g) ∧ P g where
  quiet e he g hg ha := by
    obtain ⟨hdemand, hnext⟩ := h.quiet e he g hg.2 ha
    exact ⟨hdemand, hF (fun _ _ _ _ => h.stable _ _ _ _ e g he hg.2 ha) hg.1, hnext⟩
  verdict _ _ _ _ _ _ g hg ha := h.verdict _ _ _ _ _ _ g hg.2 ha
  stable _ _ _ _ e g he hg ha hv := h.stable _ _ _ _ e g he hg.2 ha hv

theorem Verdicts.Kept.seen (h : V.Kept mon P) (guard : Value) (inst : WorkflowInstance) (arguments : Value)
    (pass : Bool) : V.Kept mon fun g => V guard inst arguments pass g ∧ P g :=
  h.along (F := fun v => v guard inst arguments pass) fun hv => hv _ _ _ _

theorem guardHolds_verdict (h : V.Kept mon P) : mon.Triple P (guardHolds guard inst arguments principal)
      (fun pass g => V guard inst arguments pass g ∧ P g) fun _ => P := by
  refine Triple.bind (Q := fun r g => (∀ out, r = .ok out → V guard inst arguments out.1 g) ∧ P g)
    (.lift (.perform fun g r hg ha => ?_)) fun r => ?_
  · obtain ⟨hdemand, hnext⟩ := h.quiet (.op (.guardEvaluate guard inst arguments principal) r) rfl g hg ha
    refine ⟨hdemand, fun out hout => ?_, hnext⟩
    subst hout
    exact h.verdict _ _ _ _ _ _ g hg ha
  · rcases r with e | ⟨pass, diagnostic⟩
    · exact .throw fun _ => And.right
    · exact .pure fun _ hg => ⟨hg.1 _ rfl, hg.2⟩

/-- The target that the verdicts select: that of the first branch whose condition holds, or else the
default. -/
def BranchTarget (v : Value → Bool → Prop) (defaultTarget : String) : List Value → String → Prop
  | [], target => target = defaultTarget
  | branch :: rest, target => match branch.get "when", strField branch "target" with
    | some condition, some t =>
        v condition true ∧ target = t ∨ v condition false ∧ BranchTarget v defaultTarget rest target
    | _, _ => BranchTarget v defaultTarget rest target

def TargetOf (v : Value → Bool → Prop) (transition : Value) (target : String) : Prop :=
  ∃ defaultTarget, requiredStr transition "target" = .ok defaultTarget ∧
    BranchTarget v defaultTarget (((transition.get "branches").bind Value.asArray).getD []) target

section

variable {v : Value → Bool → Prop} {target : String}

theorem branchTarget_conditional (hwhen : branch.get "when" = some condition)
    (htarget : strField branch "target" = some t) : BranchTarget v dflt (branch :: rest) target ↔
    v condition true ∧ target = t ∨ v condition false ∧ BranchTarget v dflt rest target := by
  rw [BranchTarget, hwhen, htarget]

theorem branchTarget_unconditional (hnone : ∀ condition t, branch.get "when" = some condition →
      strField branch "target" = some t → False) :
    BranchTarget v dflt (branch :: rest) target ↔ BranchTarget v dflt rest target := by
  rw [BranchTarget]
  split
  · exact (hnone _ _ ‹_› ‹_›).elim
  · exact Iff.rfl

end

variable {v : Value → Bool → Prop}

theorem BranchTarget.mono (hv : ∀ guard pass, v guard pass → v' guard pass)
 {branches : List Value} (h : BranchTarget v dflt branches target) : BranchTarget v' dflt branches target := by
  induction branches with
  | nil => exact h
  | cons branch rest ih =>
    unfold BranchTarget at h ⊢
    split at h
    · exact h.imp (And.imp_left (hv _ _)) (And.imp (hv _ _) ih)
    · exact ih h

theorem TargetOf.mono (hv : ∀ guard pass, v guard pass → v' guard pass)
 (h : TargetOf v transition target) : TargetOf v' transition target := by
  obtain ⟨dflt, hdflt, hbranch⟩ := h
  exact ⟨dflt, hdflt, hbranch.mono hv⟩

theorem firstBranch_triple (h : V.Kept mon P) :
    mon.Triple P (firstBranch inst arguments principal c dflt branches idx)
    (fun target g => BranchTarget (fun guard pass => V guard inst arguments pass g) dflt branches target ∧ P g)
    fun _ => P := by
  induction branches generalizing idx P with
  | nil => exact .pure fun _ hg => ⟨rfl, hg⟩
  | cons branch rest ih =>
    unfold firstBranch
    split
    · rename_i condition target hwhen htarget
      simp only [branchTarget_conditional hwhen htarget]
      refine (guardHolds_verdict h).bind fun pass => ?_
      cases pass with
      | true =>
        exact (Triple.lift (quiet_returns (h.seen condition inst arguments true).quiet
          recordOrSelfEvent_uses)).bind fun _ => .pure fun _ hg => ⟨.inl ⟨hg.1, rfl⟩, hg.2⟩
      | false =>
        exact (ih (h.seen condition inst arguments false)).conseq (fun _ => id)
          (fun _ _ hg => ⟨.inr ⟨hg.2.1, hg.1⟩, hg.2.2⟩) fun _ _ => And.right
    · rename_i hunconditional
      exact (ih h).mono fun target g hg => ⟨(branchTarget_unconditional hunconditional).mpr hg.1, hg.2⟩

theorem resolveTarget_triple (h : V.Kept mon P) : mon.Triple P (resolveTarget transition inst arguments principal c)
      (fun target g => TargetOf (fun guard pass => V guard inst arguments pass g) transition target ∧ P g)
      fun _ => P := by
  refine .compute (fun _ _ _ => id) fun dflt hdflt => ?_
  cases hbranches : (transition.get "branches").bind Value.asArray with
  | none => exact .pure fun _ hg => ⟨⟨dflt, hdflt, by rw [hbranches]; rfl⟩, hg⟩
  | some branches =>
    exact (firstBranch_triple h).mono fun _ _ hg => ⟨⟨dflt, hdflt, by rw [hbranches]; exact hg.1⟩, hg.2⟩

/-- How a state's `while` guard left the instance: untouched, without its counter, or with a new count and the way
back to the state. -/
inductive WhileOutcome (v : Value → Bool → Prop) (definition : Value) (fromState : String)
    (next : WorkflowInstance) : Option String → WorkflowInstance → Prop where
  | undeclared (hstate : stateDefinition definition fromState = none) :
      WhileOutcome v definition fromState next none next
  | unlooped {stateDef : Value} (hstate : stateDefinition definition fromState = some stateDef)
      (hwhile : stateDef.get "while" = none) :
      WhileOutcome v definition fromState next none (clearWhileIter next fromState)
  | leave {stateDef guard : Value} (hstate : stateDefinition definition fromState = some stateDef)
      (hwhile : stateDef.get "while" = some guard) (hverdict : v guard false) :
      WhileOutcome v definition fromState next none (clearWhileIter next fromState)
  | again {stateDef guard : Value} {declared current : Nat}
      (hstate : stateDefinition definition fromState = some stateDef)
      (hwhile : stateDef.get "while" = some guard) (hcap : u64Field stateDef "max_iterations" = some declared)
      (hverdict : v guard true) (hcurrent : readWhileIter next fromState = .ok current)
      (hle : min (current + 1) (2 ^ 32 - 1) ≤ declared % 2 ^ 32) :
      WhileOutcome v definition fromState next (some fromState)
        (writeWhileIter next fromState (min (current + 1) (2 ^ 32 - 1)))

theorem WhileOutcome.mono (hv : ∀ guard pass, v guard pass → v' guard pass) {rerouted : Option String}
    (h : WhileOutcome v definition fromState next rerouted looped) :
    WhileOutcome v' definition fromState next rerouted looped := by
  cases h with
  | undeclared hstate => exact .undeclared hstate
  | unlooped hstate hwhile => exact .unlooped hstate hwhile
  | leave hstate hwhile hverdict => exact .leave hstate hwhile (hv _ _ hverdict)
  | again hstate hwhile hcap hverdict hcurrent hle =>
    exact .again hstate hwhile hcap (hv _ _ hverdict) hcurrent hle

theorem applyWhileLoop_triple (h : V.Kept mon P) :
    mon.Triple P (applyWhileLoop definition fromState next arguments principal c)
      (fun out g => WhileOutcome (fun guard pass => V guard next arguments pass g) definition fromState next
        out.1 out.2 ∧ P g) fun _ => P := by
  unfold applyWhileLoop
  split
  · rename_i hstate
    exact .pure fun g hg => ⟨.undeclared hstate, hg⟩
  rename_i stateDef hstate
  split
  · rename_i hwhile
    exact .pure fun g hg => ⟨.unlooped hstate hwhile, hg⟩
  rename_i guard hwhile
  split
  · exact .throw fun _ => id
  rename_i declared hcap
  refine (guardHolds_verdict h).bind fun truthy => ?_
  cases truthy with
  | false => exact .pure fun g hg => ⟨.leave hstate hwhile hg.1, hg.2⟩
  | true =>
    have hseen := h.seen guard next arguments true
    refine .compute (fun _ _ _ => And.right) fun current hcurrent => ?_
    refine Triple.bind (Triple.exitIf fun _ => .throw fun _ => And.right) fun _ => .assume fun hcapped => ?_
    refine (Triple.lift (quiet_returns hseen.quiet recordOrSelfEvent_uses)).bind fun _ => .pure fun g hg => ?_
    exact ⟨.again hstate hwhile hcap hg.1 hcurrent (Nat.not_lt.mp hcapped), hg.2⟩

end

section

def exitInstance (definition : Value) (fromState target : String) (next : WorkflowInstance) : WorkflowInstance :=
  if fromState = target then next
  else { next with context := clearedContext definition fromState next.context }

variable {P : γ → Prop}

theorem clearStateLocalSlotsOnExit_returns (hquiet : ∀ e, Quiet e → mon.Keeps P e) :
    mon.Returns P (clearStateLocalSlotsOnExit definition fromState target next c principal)
      fun out g => out = exitInstance definition fromState target next ∧ P g := by
  unfold clearStateLocalSlotsOnExit exitInstance
  split
  · exact .pure fun g hg => ⟨rfl, hg⟩
  dsimp only
  split
  · exact .pure fun g hg => ⟨rfl, hg⟩
  · exact (quiet_returns hquiet recordOrSelfEvent_uses).bind fun _ => .pure fun g hg => ⟨rfl, hg⟩

/-- The snapshot a submit commits: its counters moved, its target resolved, its `while` guard applied, the
state it leaves cleared. -/
inductive Admitted.Commits (a : Admitted) (v : Value → WorkflowInstance → Bool → Prop) (work : SubmitWork) :
    WorkflowInstance → Prop where
  | intro {context : Value} {rerouted : Option String} {looped : WorkflowInstance} {target : String}
      (hcount : countFire a (withSummary a.request.summary work.next.context) = .ok context)
      (htarget : TargetOf (fun guard => v guard { work.next with context := context }) a.transition target)
      (hloop : WhileOutcome (fun guard => v guard { work.next with context := context }) a.inst.definition
        a.inst.state { work.next with context := context } rerouted looped) :
      a.Commits v work { exitInstance a.inst.definition a.inst.state (rerouted.getD target) looped with
        state := rerouted.getD target,
        version := (exitInstance a.inst.definition a.inst.state (rerouted.getD target) looped).version + 1 }

theorem Admitted.Commits.mono {v v' : Value → WorkflowInstance → Bool → Prop}
    (hv : ∀ guard inst pass, v guard inst pass → v' guard inst pass) {work : SubmitWork}
    (h : a.Commits v work next) : a.Commits v' work next := by
  cases h with
  | intro hcount htarget hloop => exact .intro hcount (htarget.mono fun _ => hv _ _) (hloop.mono fun _ => hv _ _)

/-- A submit's commit: `C` of the committed instance, `J` once its evidence is stored and `E` of the instance entered.
-/
theorem commitSubmit_triple {C J E : WorkflowInstance → γ → Prop} {V : Verdicts γ} {B : Exit Err Response → γ → Prop}
    (hkept : V.Kept mon P) (hP : ∀ e g, P g → B (.fail e) g)
 {guards : List (String × Bool)} {acceptance : Option AuditEvent} {work : SubmitWork}
    (hcommit : ∀ next note, mon.Triple
      (fun g => a.Commits (fun guard inst pass => V guard inst arguments pass g) work next ∧ P g)
      (commitTransition (a.firing arguments) next note a.request.expectedVersion) C fun e => B (.fail e))
    (haccepted : ∀ saved event, mon.Triple (C saved) (auditRecord event) (fun _ => C saved) fun e => B (.fail e))
    (hevidence : ∀ saved, mon.Returns (C saved) (recordEvidence cfg saved.id work.evidence) fun _ => J saved)
    (honEnter : ∀ saved, mon.Triple (J saved) (runOnEnter cfg a.inst.definition saved a.correlationId) E
      fun e => B (.fail e))
    (hreported : ∀ entered event, mon.Triple (E entered) (auditRecord event) (fun _ => E entered)
      fun e => B (.fail e)) : mon.Triple P (commitSubmit cfg a arguments guards acceptance work) E B := by
  refine .computeStage (fun e _ => hP e) fun context hcount =>
    (Triple.attempt ((resolveTarget_triple hkept).failing hP)).bind fun target => ?_
  generalize hcounted : ({ work.next with context := context } : WorkflowInstance) = counted
  -- what the branch conditions said has to survive the `while` guard and the cleanup
  have htargeted := hkept.along (F := fun v => TargetOf (fun guard => v guard counted arguments) a.transition target)
    fun hv h => h.mono fun _ => hv _ _ _
  refine (Triple.attempt ((applyWhileLoop_triple htargeted).failing fun e g hg => hP e g hg.2)).bind fun out => ?_
  have hlooped := htargeted.along (F := fun v => WhileOutcome (fun guard => v guard counted arguments)
    a.inst.definition a.inst.state counted out.1 out.2) fun hv h => h.mono fun _ => hv _ _ _
  refine (Triple.lift (clearStateLocalSlotsOnExit_returns hlooped.quiet)).bind fun next => .assume fun hnext => ?_
  subst hnext hcounted
  exact (Triple.attempt ((hcommit _ _).pre fun g hg => ⟨.intro hcount hg.2.1 hg.1, hg.2.2⟩)).bind fun saved =>
    (Triple.forSome fun event _ => .attempt (haccepted saved event)).bind fun _ =>
    (Triple.lift (hevidence saved)).bind fun _ => (Triple.attempt (honEnter saved)).bind fun entered =>
    (Triple.attempt (hreported entered _)).bind fun _ => .pure fun _ => id

/-- The snapshot a hop commits: its target resolved, the continuation ledger restored and the budgets
charged. No `while` guard is asked and no state is cleared. -/
inductive Hop.Commits (d : Drive) (hop : Hop) (v : Value → WorkflowInstance → Bool → Prop) (work : HopWork) :
    WorkflowInstance → Prop where
  | intro {target : String} {restored : Value} {hopMs : Nat}
      (htarget : TargetOf (fun guard => v guard work.inst) hop.definition target)
      (hledger : commitContinuation work.inst.context (d.inst.context.get continuationReadsKey) d.inst.state
        hop.snapshot = .ok restored) :
      hop.Commits d v work { work.inst with
        state := target, version := work.inst.version + 1, context := chargedContext restored hopMs }

theorem Hop.Commits.mono {d : Drive} {v v' : Value → WorkflowInstance → Bool → Prop}
    (hv : ∀ guard inst pass, v guard inst pass → v' guard inst pass) {work : HopWork}
    (h : hop.Commits d v work next) : hop.Commits d v' work next := by
  cases h with
  | intro htarget hledger => exact .intro (htarget.mono fun _ => hv _ _) hledger

/-- A hop's commit, with `C`, `J` and `E` as for a submit's. -/
theorem commitHop_triple {C J E : WorkflowInstance → γ → Prop} {V : Verdicts γ} {Q : Drive → γ → Prop}
    {args : ChainArgs} {d : Drive} {work : HopWork} {startedAt : Nat}
    {B : Exit Err ChainOutcome → γ → Prop} (hkept : V.Kept mon P) (hP : ∀ e g, P g → B (.fail e) g)
    (hquiet : ∀ saved e, Quiet e → mon.Keeps (J saved) e) (hcommit : ∀ next note, mon.Triple
      (fun g => hop.Commits d (fun guard inst pass => V guard inst hop.arguments pass g) work next ∧ P g)
      (commitTransition (hop.firing d) next note work.inst.version) C fun e => B (.fail e))
    (hevidence : ∀ saved, mon.Returns (C saved) (recordEvidence cfg saved.id work.evidence) fun _ => J saved)
    (honEnter : ∀ saved, mon.Triple (J saved) (runOnEnter cfg args.definition saved args.correlationId) E
      fun e => B (.fail e)) (hQ : ∀ entered steps g, E entered g → Q ⟨entered, steps, work.evidence⟩ g) :
    mon.Triple P (commitHop cfg args d hop work startedAt) Q B := by
  refine (Triple.attempt ((resolveTarget_triple hkept).failing hP)).bind fun target => ?_
  have htargeted := hkept.along (F := fun v => TargetOf (fun guard => v guard work.inst hop.arguments) hop.definition
    target) fun hv h => h.mono fun _ => hv _ _ _
  exact .computeStage (fun e _ g hg => hP e g hg.2) fun restored hledger =>
    (Triple.lift (quiet_returns htargeted.quiet now_uses)).bind fun time =>
    (Triple.attempt ((hcommit _ _).pre fun g hg => ⟨.intro hg.1 hledger, hg.2⟩)).bind fun saved =>
    (Triple.lift (hevidence saved)).bind fun _ =>
    (Triple.lift (quiet_returns (hquiet saved) recordOrSelfEvent_uses)).bind fun _ =>
    (Triple.attempt (honEnter saved)).bind fun entered => .pure fun g hg => hQ entered _ g hg

end

end Praxec
