import Praxec.Effect.Verified
import Praxec.Runtime.Stages

namespace Praxec

open Json Effect Prog Monitor

variable {γ : Type} {mon : Monitor Sig γ} {cfg : RuntimeConfig}

structure Admitted.Ok (a : Admitted) : Prop where
  transition : transitionDefinition a.inst.definition a.inst.state a.request.transition = some a.transition
  version : a.inst.version = a.request.expectedVersion
  live : a.inst.cancelledAt = none
  named : a.request.transition ≠ haltTransition

structure Admitted.Cleared (a : Admitted) : Prop extends a.Ok where
  capped : a.Capped

structure WorkflowInstance.Fresh (cfg : RuntimeConfig) (inst : WorkflowInstance) : Prop where
  version : inst.version = 0
  state : requiredStr inst.definition "initialState" = .ok inst.state
  context : inst.context = initialContext inst.definition inst.input
  valid : validateInput cfg inst.definition inst.input = .ok ()
  live : inst.cancelledAt = none

/-- Assertions at the cut points of the runtime's procedures: `Known` of the instances worked on, `Called` of what a
drive is called with, `left` of what it ends in, `replied` of what a start or a submit ends in. -/
structure Outline (γ : Type) where
  idle : γ → Prop
  ended : γ → Prop
  validated : Admitted → Value → γ → Prop
  ready : Admitted → Value → γ → Prop
  worked : Admitted → Value → SubmitWork → γ → Prop
  driving : ChainArgs → Drive → γ → Prop
  chosen : ChainArgs → Drive → Hop → γ → Prop
  hopDone : ChainArgs → Drive → Hop → HopWork → γ → Prop
  Known : Value → WorkflowInstance → Prop := fun _ _ => True
  Called : ChainArgs → Prop := fun args => Known args.definition args.inst
  seen : WorkflowInstance → γ → Prop := fun _ => idle
  created : WorkflowInstance → γ → Prop := fun _ => idle
  expired : WorkflowInstance → γ → Prop := fun _ => idle
  entered : Option NextTransition → WorkflowInstance → γ → Prop := fun _ _ => idle
  left : Exit Err ChainOutcome → γ → Prop := fun _ => ended
  replied : Exit Err Response → γ → Prop := fun _ => ended

namespace Outline

def pre (o : Outline γ) : Proc → Prop
  | .runDeterministicChain args => o.Called args
  | _ => True

def fin (o : Outline γ) : (p : Proc) → p.Ret → γ → Prop
  | .runDeterministicChain _, .ok outcome => o.left (.reply outcome)
  | .runDeterministicChain _, .error e => o.left (.fail e)
  | .start _, .ok r | .submit _, .ok r => o.replied (.reply r)
  | .start _, .error e | .submit _, .error e => o.replied (.fail e)
  | _, _ => o.ended

structure Sound (o : Outline γ) (mon : Monitor Sig γ) (cfg : RuntimeConfig) : Prop where
  idle_ended : ∀ g, o.idle g → o.ended g
  seen_idle : ∀ inst g, o.seen inst g → o.idle g
  created_idle : ∀ inst g, o.created inst g → o.idle g
  expired_ended : ∀ saved g, o.expired saved g → o.ended g
  replied_ended : ∀ e g, o.replied e g → o.ended g
  fails : ∀ e g, o.idle g → o.replied (.fail e) g
  refuses : ∀ inst request e g, Refusal inst request e → o.seen inst g → o.replied e g
  halts : ∀ r inst reason g, r.Shows inst .cancelled (some ⟨"WORKFLOW_HALTED", reason, []⟩) → o.seen inst g →
    o.replied (.reply r) g
  expires : ∀ r saved g, r.Shows saved .timedOut none → o.expired saved g → o.replied (.reply r) g
  driving_left : ∀ args d e g, d.Exits e → o.driving args d g → o.left e g
  idle_calm : ∀ e, Calm e → mon.Keeps o.idle e
  seen_quiet : ∀ inst e, Quiet e → mon.Keeps (o.seen inst) e
  created_quiet : ∀ inst e, Quiet e → mon.Keeps (o.created inst) e
  expired_quiet : ∀ saved e, Quiet e → mon.Keeps (o.expired saved) e
  driving_quiet : ∀ args d e, Quiet e → mon.Keeps (o.driving args d) e
  chosen_quiet : ∀ args d hop e, Quiet e → mon.Keeps (o.chosen args d hop) e
  call_known : ∀ g args, (∀ v, mon.allows g (.call (.runDeterministicChain args) v) →
    mon.demands g (.call (.runDeterministicChain args) v)) → o.Called args
  timeout_known : ∀ g args, (∀ v, mon.allows g (.timeout (.runDeterministicChain args) v) →
    mon.demands g (.timeout (.runDeterministicChain args) v)) → o.Called args
  called : ∀ g g' p v, o.fin p v g' → mon.allows g (.call p v)
  timed : ∀ g g' p v, o.fin p v g' → mon.allows g (.timeout p (some v))
  cut : ∀ g p, mon.allows g (.timeout p none)
  load : ∀ id, mon.Triple o.idle (load id)
    (fun inst g => (inst.cancelledAt = none → o.Known inst.definition inst) ∧ o.seen inst g) fun _ => o.idle
  create : ∀ inst, inst.Fresh cfg →
    mon.Triple o.idle (ExceptT.mk (Prog.perform (S := Sig) (.storeCreate inst)) : Fallible WorkflowInstance)
      (fun created g => o.Known inst.definition created ∧ o.created created g) fun _ => o.idle
  cancel : ∀ id reason, mon.Triple o.idle (cancel cfg id reason) (fun _ => o.idle) fun _ => o.idle
  bindSpawn : ∀ inst link, mon.Returns (o.created inst) (bindSpawnIgnored link inst.id) fun _ => o.created inst
  checkArguments : ∀ a, a.Cleared → o.Known a.inst.definition a.inst →
    mon.Triple (o.seen a.inst) (checkArguments cfg a) (o.validated a) o.replied
  checkGuards : ∀ a arguments, a.Cleared → o.Known a.inst.definition a.inst →
    mon.Triple (o.validated a arguments) (checkGuards cfg a arguments) (fun _ => o.ready a arguments) o.replied
  runSubmitExecutor : ∀ a arguments, a.Cleared → o.Known a.inst.definition a.inst →
    mon.Triple (o.ready a arguments) (runSubmitExecutor cfg a arguments) (o.worked a arguments) o.replied
  commitSubmit : ∀ a arguments guards acceptance work, a.Cleared → o.Known a.inst.definition a.inst →
    mon.Triple (o.worked a arguments work) (commitSubmit cfg a arguments guards acceptance work)
      (fun inst g => o.Known a.inst.definition inst ∧ o.entered work.nextTransition inst g) o.replied
  checkAndApplyTimeout : ∀ definition inst principal, o.Known definition inst →
    mon.Triple (o.seen inst) (checkAndApplyTimeout definition inst principal)
      (fun out => out.elim (o.seen inst) o.expired) fun e => o.replied (.fail e)
  runOnEnter : ∀ definition inst correlationId, o.Known definition inst →
    mon.Triple (o.created inst) (runOnEnter cfg definition inst correlationId)
      (fun inst g => o.Known definition inst ∧ o.entered none inst g) fun e => o.replied (.fail e)
  driveAndSettle : ∀ r next inst, (r.hint = .started ∨ r.hint = .executed) → o.Known r.definition inst →
    mon.Triple (o.entered next inst) (driveAndSettle cfg r inst)
      (fun out g => o.replied (.reply out.1) g ∧ (next.isSome → out.2 = true → o.idle g))
      fun e => o.replied (.fail e)
  selectHop : ∀ args d, d.Within args → mon.Triple (o.driving args d) (selectHop cfg args d)
    (fun hop => hop.elim (o.driving args d) (o.chosen args d)) o.left
  runHopExecutor : ∀ args d hop,
    mon.Triple (o.chosen args d hop) (runHopExecutor cfg args d hop) (o.hopDone args d hop) o.left
  commitHop : ∀ args d hop work startedAt,
    mon.Triple (o.hopDone args d hop work) (commitHop cfg args d hop work startedAt) (o.driving args) o.left

def plain (o : Outline γ) : Outline γ where
  idle := o.idle
  ended := o.ended
  validated := o.validated
  ready := o.ready
  worked := o.worked
  driving := o.driving
  chosen := o.chosen
  hopDone := o.hopDone

structure Plain (o : Outline γ) (mon : Monitor Sig γ) (cfg : RuntimeConfig) : Prop where
  called : ∀ g p v, mon.allows g (.call p v)
  timed : ∀ g p v, mon.allows g (.timeout p v)
  idle_ended : ∀ g, o.idle g → o.ended g
  driving_ended : ∀ args d g, o.driving args d g → o.ended g
  idle_minor : ∀ e, Minor e → mon.Keeps o.idle e
  created : ∀ inst r, mon.Keeps o.idle (.op (.storeCreate inst) r)
  driving_quiet : ∀ args d e, Quiet e → mon.Keeps (o.driving args d) e
  chosen_quiet : ∀ args d hop e, Quiet e → mon.Keeps (o.chosen args d hop) e
  checkArguments : ∀ a, a.Cleared → mon.Triple o.idle (checkArguments cfg a) (o.validated a) fun _ => o.ended
  checkGuards : ∀ a arguments, a.Cleared → mon.Triple (o.validated a arguments) (checkGuards cfg a arguments)
    (fun _ => o.ready a arguments) fun _ => o.ended
  runSubmitExecutor : ∀ a arguments, a.Cleared →
    mon.Triple (o.ready a arguments) (runSubmitExecutor cfg a arguments) (o.worked a arguments) fun _ => o.ended
  commitSubmit : ∀ a arguments guards acceptance work, a.Cleared →
    mon.Triple (o.worked a arguments work) (commitSubmit cfg a arguments guards acceptance work)
      (fun _ => o.idle) fun _ => o.ended
  checkAndApplyTimeout : ∀ definition inst principal,
    mon.Triple o.idle (checkAndApplyTimeout definition inst principal) (fun _ => o.idle) fun _ => o.ended
  runOnEnter : ∀ definition inst correlationId,
    mon.Triple o.idle (runOnEnter cfg definition inst correlationId) (fun _ => o.idle) fun _ => o.ended
  selectHop : ∀ args d, mon.Triple (o.driving args d) (selectHop cfg args d)
    (fun hop => hop.elim (o.driving args d) (o.chosen args d)) fun _ => o.ended
  runHopExecutor : ∀ args d hop,
    mon.Triple (o.chosen args d hop) (runHopExecutor cfg args d hop) (o.hopDone args d hop) fun _ => o.ended
  commitHop : ∀ args d hop work startedAt,
    mon.Triple (o.hopDone args d hop work) (commitHop cfg args d hop work startedAt) (o.driving args)
      fun _ => o.ended

theorem plain_pre (o : Outline γ) (p : Proc) : o.plain.pre p := by
  cases p <;> trivial

theorem Plain.sound {o : Outline γ} (h : o.Plain mon cfg) : o.plain.Sound mon cfg := by
  have hminor {ε α : Type} {x : ExceptT ε Run α} (hx : UsesE Minor x) :
      mon.Triple o.idle x (fun _ => o.idle) fun _ => o.idle :=
    .of_uses (hx.mono h.idle_minor) fun _ _ => id
  have hknown {α : Type} {x : Fallible α} {B : γ → Prop} (hx : mon.Triple o.idle x (fun _ => o.idle) fun _ => B) :
      mon.Triple o.idle x (fun _ g => True ∧ o.idle g) fun _ => B :=
    hx.mono fun _ _ hg => ⟨trivial, hg⟩
  exact {
    idle_ended := h.idle_ended
    seen_idle := fun _ _ => id
    created_idle := fun _ _ => id
    expired_ended := fun _ => h.idle_ended
    replied_ended := fun _ _ => id
    fails := fun _ => h.idle_ended
    refuses := fun _ _ _ g _ => h.idle_ended g
    halts := fun _ _ _ g _ => h.idle_ended g
    expires := fun _ _ g _ => h.idle_ended g
    driving_left := fun args d _ g _ => h.driving_ended args d g
    idle_calm := fun e he => h.idle_minor e he.minor
    seen_quiet := fun _ e he => h.idle_minor e he.minor
    created_quiet := fun _ e he => h.idle_minor e he.minor
    expired_quiet := fun _ e he => h.idle_minor e he.minor
    driving_quiet := h.driving_quiet
    chosen_quiet := h.chosen_quiet
    call_known := fun _ _ _ => trivial
    timeout_known := fun _ _ _ => trivial
    called := fun g _ p v _ => h.called g p v
    timed := fun g _ p v _ => h.timed g p (some v)
    cut := fun g p => h.timed g p none
    load := fun _ => (hminor load_uses).mono fun _ _ hg => ⟨fun _ => trivial, hg⟩
    create := fun inst _ => hknown (.of_uses (.perform fun r => h.created inst r) fun _ _ => id)
    cancel := fun _ _ => hminor cancel_uses
    bindSpawn := fun _ _ => .of_uses (bindSpawnIgnored_uses.mono h.idle_minor)
    checkArguments := fun a ha _ => h.checkArguments a ha
    checkGuards := fun a arguments ha _ => h.checkGuards a arguments ha
    runSubmitExecutor := fun a arguments ha _ => h.runSubmitExecutor a arguments ha
    commitSubmit := fun a arguments guards acceptance work ha _ =>
      (h.commitSubmit a arguments guards acceptance work ha).mono fun _ _ hg => ⟨trivial, hg⟩
    checkAndApplyTimeout := fun definition inst principal _ =>
      (h.checkAndApplyTimeout definition inst principal).mono fun out _ hg => by cases out <;> exact hg
    runOnEnter := fun definition inst c _ => hknown (h.runOnEnter definition inst c)
    driveAndSettle := fun _ _ _ _ _ => (hminor driveAndSettle_minor).conseq (fun _ => id)
      (fun _ g hg => ⟨h.idle_ended g hg, fun _ _ => hg⟩) fun _ => h.idle_ended
    selectHop := fun args d _ => h.selectHop args d
    runHopExecutor := h.runHopExecutor
    commitHop := h.commitHop }

end Outline

namespace Outline.Sound

variable {o : Outline γ} (h : o.Sound mon cfg)

include h

theorem calm_triple (hx : UsesE Calm x) : mon.Triple o.idle x (fun _ => o.idle) fun _ => o.idle :=
  .of_uses (hx.mono h.idle_calm) fun _ _ => id

theorem failing (hx : mon.Triple o.idle x Q fun _ => o.idle) : mon.Triple o.idle x Q fun e => o.replied (.fail e) :=
  hx.failing h.fails

theorem seen_fails (e : Err) (g : γ) (hg : o.seen inst g) : o.replied (.fail e) g :=
  h.fails e g (h.seen_idle inst g hg)

variable {args : ChainArgs}

theorem driving_triple {α : Type} {d : Drive} {x : Run α} (hx : x.Uses Quiet) :
    mon.Triple (o.driving args d) (liftM x : ChainStage α) (fun _ => o.driving args d) o.left :=
  .lift (quiet_returns (h.driving_quiet args d) hx)

variable {request : SubmitTransition}

theorem reject (hcode : code ≠ "TRANSITION_FIRE_CAP_EXCEEDED") :
    mon.Triple (o.seen inst) (reject cfg inst request c code message) Q o.replied :=
  reject_triple (h.seen_quiet inst) (h.refuses inst request) fun hc => absurd hc hcode

theorem haltRun : mon.Triple o.idle (haltRun cfg r i) Q o.replied :=
  (Triple.attempt (h.failing (h.cancel _ _))).bind fun _ =>
    (Triple.attempt (h.failing (h.load _))).bind fun cancelled => .assume fun _ =>
    replyWith_triple (response_shows (h.seen_quiet cancelled)) fun r g hg => h.halts r cancelled _ g hg.1 hg.2

theorem admitSubmit : mon.Triple o.idle (admitSubmit cfg request)
      (fun a g => (a.Ok ∧ o.Known a.inst.definition a.inst) ∧ o.seen a.inst g) o.replied := by
  refine (Triple.attempt (h.failing (h.load _))).bind fun inst => .assume fun hinst =>
    (Triple.lift (quiet_returns (h.seen_quiet inst) freshId_uses)).bind fun correlationId =>
    (Triple.exitIf fun _ => h.haltRun.pre (h.seen_idle inst)).bind fun _ => .assume fun hnamed =>
    .computeStage (fun e _ => h.seen_fails e) fun _ _ =>
    (Triple.exitIf fun _ => .throw (h.seen_fails _)).bind fun _ => .assume fun hlive => ?_
  have hlive : inst.cancelledAt = none := by simpa using hlive
  refine (Triple.attempt (h.checkAndApplyTimeout _ _ _ (hinst hlive))).bind fun timedOut => ?_
  cases timedOut with
  | some saved =>
    refine Triple.bind (Q := fun _ _ => False) (replyWith_triple (response_shows (h.expired_quiet saved))
      fun r g hg => h.expires r saved g hg.1 hg.2) fun _ _ => False.elim
  | none =>
    refine (Triple.attempt (.of_uses (auditRecord_uses.mono (h.seen_quiet inst)) h.seen_fails)).bind fun _ =>
      (Triple.exitIf fun _ => h.reject (by simp)).bind fun _ => .assume fun hversion => ?_
    cases htransition : transitionDefinition inst.definition inst.state request.transition with
    | none => exact h.reject (by simp)
    | some transition =>
      exact .pure fun g hg => ⟨⟨⟨htransition, not_not.mp hversion, hlive, hnamed⟩, hinst hlive⟩, hg⟩

theorem dispatchOnce : mon.Triple o.idle (dispatchOnce cfg request)
      (fun out g => (out.nextTransition = none → o.replied (.reply out.response) g) ∧
        (out.nextTransition.isSome → o.idle g)) fun e => o.replied (.fail e) := by
  refine (Triple.finish (h.admitSubmit.bind fun a => .assume fun ⟨ha, hk⟩ => ?_)).mono fun out g hg =>
    hg.elim id fun ⟨r, hr, hreplied⟩ => hr ▸ ⟨fun _ => hreplied, nofun⟩
  have hquiet := h.seen_quiet a.inst
  have hrefuses := h.refuses a.inst a.request
  exact (modelAcceptanceEvent_triple hquiet hrefuses).bind fun acceptance =>
    (checkActor_triple hquiet hrefuses).bind fun _ =>
    (checkFireCap_triple hquiet hrefuses ha.transition).bind fun _ => .assume fun hcapped =>
    have ha : a.Cleared := ⟨ha, hcapped⟩
    (h.checkArguments a ha hk).bind fun arguments => (h.checkGuards a arguments ha hk).bind fun guards =>
    (h.runSubmitExecutor a arguments ha hk).bind fun work =>
    (h.commitSubmit a arguments guards acceptance work ha hk).bind fun inst => .assume fun hinst =>
    (Triple.attempt (h.driveAndSettle _ _ inst (.inr rfl) hinst)).bind fun ⟨response, completed⟩ =>
      .pure fun g ⟨hreplied, hnext⟩ => ⟨fun _ => hreplied, fun hsome => by
        cases completed with
        | false => cases hsome
        | true => exact hnext hsome rfl⟩

theorem submitLoop :
    mon.Triple o.idle (submitLoop cfg fuel request) (fun r => o.replied (.reply r)) fun e => o.replied (.fail e) := by
  induction fuel generalizing request with
  | zero =>
    unfold Praxec.submitLoop
    refine h.dispatchOnce.bind fun ⟨response, next⟩ => ?_
    cases next with
    | none => exact .pure fun _ hg => hg.1 rfl
    | some next =>
      exact ((h.calm_triple (.lift recordOrSelfEvent_uses)).conseq (fun _ hg => hg.2 rfl)
        (fun _ _ => id) h.fails).bind fun _ => .throw (h.fails _)
  | succ fuel ih =>
    unfold Praxec.submitLoop
    refine h.dispatchOnce.bind fun ⟨response, next⟩ => ?_
    cases next with
    | none => exact .pure fun _ hg => hg.1 rfl
    | some next => exact ih.pre fun _ hg => hg.2 rfl

theorem start {request : StartWorkflow} :
    mon.Triple o.idle (start cfg request) (fun r => o.replied (.reply r)) fun e => o.replied (.fail e) := by
  have hcalm {α : Type} {x : Fallible α} (hx : UsesE Calm x) :
      mon.Triple o.idle x (fun _ => o.idle) fun e => o.replied (.fail e) :=
    h.failing (h.calm_triple hx)
  have hlook {α : Type} {x : Run α} (hx : x.Uses Quiet) :
      mon.Triple o.idle (liftM x : Fallible α) (fun _ => o.idle) fun e => o.replied (.fail e) :=
    hcalm (.lift (calm_of_quiet hx))
  have hthrow {α : Type} {Q : α → γ → Prop} {e : Err} :
      mon.Triple o.idle (throw e : Fallible α) Q fun e => o.replied (.fail e) :=
    .throw (h.fails e)
  refine (Triple.onlyIf fun _ => hthrow).bind fun _ => (Triple.onlyIf fun _ => .forSome fun _ _ => ?_).bind fun _ =>
    (hcalm (.perform fun _ => rfl)).bind fun definition =>
    .compute (fun e _ => h.fails e) fun _ hvalid => (Triple.forSome fun _ _ => hthrow).bind fun _ =>
    .compute (fun e _ => h.fails e) fun _ _ => .compute (fun e _ => h.fails e) fun initialState hinitial =>
    .compute (fun e _ => h.fails e) fun version _ => (hlook freshId_uses).bind fun _ =>
    (hcalm acquireRunLeases_uses).bind fun env => (hlook now_uses).bind fun time =>
    (hlook freshId_uses).bind fun correlationId =>
    (h.failing (h.create _ ⟨rfl, hinitial, rfl, validateInput_defaults hvalid, rfl⟩)).bind fun inst =>
    .assume fun hinst =>
    (Triple.forSome fun _ _ => .onlyIf fun _ => .lift (h.bindSpawn inst _)).bind fun _ =>
    (Triple.of_uses (auditRecord_uses.mono (h.created_quiet inst)) fun e g hg =>
      h.fails e g (h.created_idle inst g hg)).bind fun _ =>
    (h.runOnEnter _ _ _ hinst).bind fun entered =>
    .assume fun hentered => (h.driveAndSettle _ none _ (.inl rfl) hentered).bind fun _ => .pure fun _ hg => hg.1
  exact (hcalm (.perform fun _ => rfl)).bind fun existing => .forSome fun _ _ => hthrow

theorem get : mon.Triple o.idle (get cfg workflowId principal) (fun _ => o.ended) fun _ => o.ended := by
  have hrespond {P : γ → Prop} (hquiet : ∀ e, Quiet e → mon.Keeps P e) (hP : ∀ g, P g → o.ended g) {d : Value}
      {i : WorkflowInstance} {hint : StatusHint} :
      mon.Triple P (liftM (response d i principal cfg hint none) : Fallible Response)
        (fun _ => o.ended) fun _ => o.ended :=
    .lift ((quiet_returns hquiet response_quiet).mono fun _ => hP)
  have hseen (inst : WorkflowInstance) (g : γ) (hg : o.seen inst g) : o.ended g :=
    h.idle_ended g (h.seen_idle inst g hg)
  refine ((h.load _).failing fun _ => h.idle_ended).bind fun inst => .assume fun hinst => ?_
  split
  · exact hrespond (h.seen_quiet inst) (hseen inst)
  rename_i hlive
  refine ((h.checkAndApplyTimeout _ _ _ (hinst (by simpa using hlive))).failing
    fun _ => h.replied_ended _).bind fun timedOut => ?_
  cases timedOut with
  | none => exact hrespond (h.seen_quiet inst) (hseen inst)
  | some saved => exact hrespond (h.expired_quiet saved) (h.expired_ended saved)

theorem reapRuns : mon.Triple o.idle (reapRuns cfg insts reaped) (fun _ => o.ended) fun _ => o.ended := by
  induction insts generalizing reaped with
  | nil => exact .pure h.idle_ended
  | cons inst rest ih =>
    unfold Praxec.reapRuns
    split
    · exact ih
    · exact ((h.cancel _ _).failing fun _ => h.idle_ended).bind fun _ => ih

theorem chainLoop {fuel : Nat} {d : Drive} :
    mon.Triple (o.driving args d) (chainLoop cfg args fuel d) (o.driving args) o.left := by
  have hchecks {d : Drive} : mon.Triple (o.driving args d) (hopChecks cfg args d)
      (fun proceed g => (proceed → d.Within args) ∧ o.driving args d g) o.left :=
    hopChecks_triple (h.driving_quiet args d) (h.driving_left args d)
  induction fuel generalizing d with
  | zero =>
    refine (h.driving_triple now_uses).bind fun startedAt => hchecks.bind fun proceed => .assume fun _ => ?_
    split <;> exact .pure fun _ => id
  | succ fuel ih =>
    refine (h.driving_triple now_uses).bind fun startedAt => hchecks.bind fun proceed => .assume fun hwithin => ?_
    split
    · exact .pure fun _ => id
    rename_i hproceed
    refine (h.selectHop args d (hwithin (by simpa using hproceed))).bind fun hop => ?_
    cases hop with
    | none => exact .pure fun _ => id
    | some hop =>
      refine (Triple.lift (quiet_returns (h.chosen_quiet args d hop) recordOrSelfEvent_uses)).bind fun _ =>
        (h.runHopExecutor args d hop).bind fun work => (h.commitHop args d hop work startedAt).bind fun d' =>
        (h.driving_triple pastTimeout_uses).bind fun late => ?_
      split
      · exact .pure fun _ => id
      · exact ih

theorem runDeterministicChain : mon.Triple (o.driving args ⟨args.inst, [], []⟩) (runDeterministicChain cfg args)
      (fun outcome => o.left (.reply outcome)) fun e => o.left (.fail e) := by
  refine (Triple.finish ?_).mono fun outcome g hg => hg.elim id fun ⟨_, hr, hleft⟩ => hr ▸ hleft
  exact .computeStage (fun e _ g => h.driving_left _ _ _ g trivial) fun _ _ =>
    h.chainLoop.bind fun d => finishChain_triple (h.driving_quiet args d) (h.driving_left args d)

theorem verified {init : Proc → γ} (hidle : ∀ p, (∀ args, p ≠ .runDeterministicChain args) → o.idle (init p))
    (hchain : ∀ args, o.Called args → o.driving args ⟨args.inst, [], []⟩ (init (.runDeterministicChain args))) :
    mon.Verifies init o.fin o.pre (body cfg) where
  body p hp := by
    have hrun {ε α : Type} {x : ExceptT ε Run α} (hx : mon.Triple o.idle x (fun _ => o.ended) fun _ => o.ended) :
        mon.Returns o.idle x.run fun _ => o.ended :=
      Returns.mono hx fun r _ hr => by cases r <;> exact hr
    have hcalm {α : Type} {x : Run α} (hx : x.Uses Calm) : mon.Returns o.idle x fun _ => o.ended :=
      (Returns.of_uses (hx.mono h.idle_calm)).mono fun _ => h.idle_ended
    cases p with
    | start request => exact wp_mono (fun r _ hr => by cases r <;> exact hr) (h.start _ (hidle _ nofun))
    | submit request => exact wp_mono (fun r _ hr => by cases r <;> exact hr) (h.submitLoop _ (hidle _ nofun))
    | get workflowId principal => exact hrun h.get _ (hidle _ nofun)
    | cancel workflowId reason =>
      exact hrun ((h.cancel _ _).conseq (fun _ => id) (fun _ => h.idle_ended) fun _ => h.idle_ended) _ (hidle _ nofun)
    | runDeterministicChain args =>
      exact wp_mono (fun r _ hr => by cases r <;> exact hr) (h.runDeterministicChain _ (hchain args hp))
    | resumeReadyLocks => exact hcalm resumeReadyLocks_uses _ (hidle _ nofun)
    | recoverSuspendedLocks => exact hcalm recoverSuspendedLocks_uses _ (hidle _ nofun)
    | recoverSuspendedSubworkflows => exact hcalm recoverSuspendedSubworkflows_uses _ (hidle _ nofun)
    | reapOrphanedRuns =>
      have hlist : mon.Triple o.idle (ExceptT.mk (Prog.perform (S := Sig) .storeListAll) :
          Fallible (List WorkflowInstance)) (fun _ => o.idle) fun _ => o.ended :=
        (h.calm_triple (.perform fun _ => rfl)).failing fun _ => h.idle_ended
      exact hrun (hlist.bind fun _ => h.reapRuns) _ (hidle _ nofun)
  call g p hp := by
    cases p with
    | runDeterministicChain args => exact h.call_known g args hp
    | _ => trivial
  timeout g p hp := by
    cases p with
    | runDeterministicChain args => exact h.timeout_known g args hp
    | _ => trivial
  called := h.called
  timed := h.timed
  cut := h.cut

end Outline.Sound

end Praxec
