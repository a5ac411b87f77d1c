import Praxec.Runtime.Outline
import Praxec.World

namespace Praxec

open Json Effect Prog Monitor List

variable {cfg : RuntimeConfig} {Φ : Value → Value → Prop} {K : WorkflowInstance → Prop}

/-- Each of these guards has been evaluated to true in the history, against the instance and the
arguments. -/
def Passed (inst : WorkflowInstance) (arguments : Value) (guards : List Value) (h : History) : Prop :=
  ∀ guard ∈ guards, ∃ principal diagnostic,
    Event.op (S := Sig) (.guardEvaluate guard inst arguments principal) (Except.ok (true, diagnostic)) ∈ h

theorem Passed.stable (inst : WorkflowInstance) (arguments : Value) (guards : List Value) :
    Stable (Passed inst arguments guards) := by
  intro h e hh guard hguard
  obtain ⟨principal, diagnostic, hmem⟩ := hh guard hguard
  exact ⟨principal, diagnostic, mem_append_left _ hmem⟩

def Judged : Verdicts History := fun guard inst arguments pass h => ∃ principal diagnostic,
  Event.op (S := Sig) (.guardEvaluate guard inst arguments principal) (Except.ok (pass, diagnostic)) ∈ h

theorem Judged.stable (guard : Value) (inst : WorkflowInstance) (arguments : Value) (pass : Bool) :
    Stable (Judged guard inst arguments pass) := by
  rintro h e ⟨principal, diagnostic, hmem⟩
  exact ⟨principal, diagnostic, mem_append_left _ hmem⟩

def Answered (site : ExecSite) (outcome : Execution) (h : History) : Prop :=
  ∃ request, Event.op (S := Sig) (.executeEnd site request) outcome ∈ h

theorem Answered.stable (site : ExecSite) (outcome : Execution) : Stable (Answered site outcome) := by
  rintro h e ⟨request, hmem⟩
  exact ⟨request, mem_append_left _ hmem⟩

def Failed (site : ExecSite) (err : ExecutorError) (h : History) : Prop :=
  err.slotUpdates.isSome → Answered site (.error err) h

theorem Failed.stable (site : ExecSite) (err : ExecutorError) : Stable (Failed site err) :=
  fun h e hh hsome => Answered.stable _ _ h e (hh hsome)

/-- How a hop comes about: selected among the state's candidates and fired without arguments, or driven by an agent
whose output becomes its arguments. -/
inductive Hop.Of (cfg : RuntimeConfig) (Φ : Value → Value → Prop) (args : ChainArgs) (d : Drive)
    (h : History) : Hop → Prop where
  | selected {candidates : List Candidate} {direct : Bool} {name : String} {transition : Value}
      (hplan : hopPlan cfg args.definition d.inst.state = .select candidates direct)
      (hmem : (name, transition) ∈ candidates)
      (hguards : candidates = [(name, transition)] ∨ Passed d.inst .emptyObject (guardsOf transition) h) :
      Of cfg Φ args d h ⟨name, transition, .emptyObject, if direct then "agent" else "deterministic",
        .selected candidates, none⟩
  | driven {name : String} {transition arguments : Value} {snapshot : Option Value}
      (hplan : hopPlan cfg args.definition d.inst.state = .autoDrive (name, transition))
      (hagent : Φ transition arguments) (hopen : GateOpen args.definition d.inst snapshot) :
      Of cfg Φ args d h ⟨name, transition, arguments, "agent", .agent, snapshot⟩

theorem Hop.Of.stable (args : ChainArgs) (d : Drive) (hop : Hop) : Stable fun h => hop.Of cfg Φ args d h := by
  intro h e hh
  cases hh with
  | selected hplan hmem hguards => exact .selected hplan hmem (hguards.imp id (Passed.stable _ _ _ h e))
  | driven hplan hagent hopen => exact .driven hplan hagent hopen

variable {args : ChainArgs} {d : Drive} {h : History}

theorem Hop.Of.site {hop : Hop}
    (hh : hop.Of cfg Φ args d h) : (hop.firing d).site ≠ .submit ∧ (hop.firing d).site ≠ .timeout := by
  cases hh <;> simp [Hop.firing]

theorem HopWork.Of.version {definition : Value} {hop : Hop} {work : HopWork}
    (h : work.Of cfg definition d hop) : work.inst.version = d.inst.version := by
  cases h <;> rfl

structure Admitted.Gated (cfg : RuntimeConfig) (a : Admitted) (arguments : Value) (h : History) :
    Prop where
  cleared : a.Cleared
  validated : a.Validated cfg arguments
  passed : Passed a.inst arguments (guardsOf a.transition) h

theorem Admitted.Gated.stable (a : Admitted) (arguments : Value) : Stable (a.Gated cfg arguments) :=
  fun h e hh => ⟨hh.cleared, hh.validated, Passed.stable _ _ _ h e hh.passed⟩

inductive Commit (cfg : RuntimeConfig) (Φ : Value → Value → Prop) (h : History) :
    Firing → WorkflowInstance → Prop where
  | submit {a : Admitted} {arguments : Value} {work : SubmitWork} {next : WorkflowInstance}
      (hgated : a.Gated cfg arguments h) (hwork : work.Of cfg a arguments)
      (hnext : a.Commits (fun guard inst pass => Judged guard inst arguments pass h) work next) :
      Commit cfg Φ h (a.firing arguments) next
  | hop {args : ChainArgs} {d : Drive} {hop : Hop} {work : HopWork} {next : WorkflowInstance}
      (hdefinition : d.inst.definition = args.definition) (hhop : hop.Of cfg Φ args d h)
      (hwork : work.Of cfg args.definition d hop)
      (hnext : hop.Commits d (fun guard inst pass => Judged guard inst hop.arguments pass h) work next)
      (hbelow : (u64Field d.inst.context chainHopsTotalKey).getD 0 < livelockBudgetOf args.definition) :
      Commit cfg Φ h (hop.firing d) next
  | timeout {inst : WorkflowInstance} {target : String} (hout : TimesOut inst.definition inst target) :
      Commit cfg Φ h (timeoutFiring inst.definition inst) (timedOut inst target)

inductive Dispatch (cfg : RuntimeConfig) (Φ : Value → Value → Prop) (h : History) :
    ExecSite → ExecuteRequest → Prop where
  | submit {a : Admitted} {arguments primary config : Value} {policy : ReliabilityPolicy} {key : Option String}
      (hgated : a.Gated cfg arguments h) (hexecutor : a.transition.get "executor" = some primary)
      (hparsed : ReliabilityPolicy.fromValue (a.transition.get "reliability") = .ok policy)
      (hconfig : config ∈ policy.candidates primary) :
      Dispatch cfg Φ h (.declared (a.firing arguments))
        ⟨a.inst, some a.request.transition, arguments, config, key, some a.correlationId⟩
  | hop {args : ChainArgs} {d : Drive} {hop : Hop} {primary config : Value} {policy : ReliabilityPolicy}
      {key : Option String} (hhop : hop.Of cfg Φ args d h)
      (hexecutor : hop.definition.get "executor" = some primary)
      (hparsed : ReliabilityPolicy.fromValue (hop.definition.get "reliability") = .ok policy)
      (hconfig : config ∈ policy.candidates primary) :
      Dispatch cfg Φ h (.declared (hop.firing d))
        ⟨d.inst, some hop.name, hop.arguments, config, key, some args.correlationId⟩
  | agent {args : ChainArgs} {d : Drive} {name : String} {transition config : Value} {key : Option String}
      (hplan : hopPlan cfg args.definition d.inst.state = .autoDrive (name, transition)) :
      Dispatch cfg Φ h (.agent transition)
        ⟨d.inst, some name, .emptyObject, config, key, some args.correlationId⟩
  | onEnter {inst : WorkflowInstance} {config : Value} {key : Option String} {c : String} :
      Dispatch cfg Φ h .onEnter ⟨inst, none, .emptyObject, config, key, some c⟩

structure TransitionRecord.Describes (record : TransitionRecord) (f : Firing) (next : WorkflowInstance) : Prop where
  workflowId : record.workflowId = next.id
  seq : record.seq = next.version
  transition : record.transition = f.transition
  fromState : record.fromState = f.before.state
  toState : record.toState = next.state
  arguments : record.arguments = f.arguments
  delta : record.blackboardDelta =
    if f.site = .timeout then .emptyObject else Praxec.blackboardDelta f.before.context next.context

def Recorded (f : Firing) (next : WorkflowInstance) (h : History) : Prop :=
  ∃ before record, h = before ++ [.op (.auditTransition f record) (Except.ok ())] ∧ record.Describes f next

def Declares (definition : Value) (state : String) : Prop :=
  ∃ t, (transitionDefinition definition state t).isSome

inductive Saves (cfg : RuntimeConfig) (Φ : Value → Value → Prop) (h : History) :
    SaveKind → WorkflowInstance → Prop where
  | transition {f : Firing} {next : WorkflowInstance} (hcommit : Commit cfg Φ h f next)
      (hrecorded : Recorded f next h) : Saves cfg Φ h (.transition f) next
  | lockWait {base : WorkflowInstance} {files : List Path} {conflict : LockConflict} {t : String}
      (hfiles : files ≠ []) (hdeclares : Declares base.definition base.state) :
      Saves cfg Φ h (.lockWait base files t) (parkedInstance base "_lock_wait" (lockWaitRecord files conflict t))
  | subworkflowWait {base : WorkflowInstance} {wait : Value} (hdeclares : Declares base.definition base.state) :
      Saves cfg Φ h (.subworkflowWait base) (parkedInstance base "_subworkflow_wait" wait)
  | agentAwait {base : WorkflowInstance} {wait : Value} (hdeclares : Declares base.definition base.state) :
      Saves cfg Φ h (.agentAwait base) (parkedInstance base "_agent_await" wait)
  | slotUpdates {a : Admitted} {arguments updates context : Value} {err : ExecutorError} (hcleared : a.Cleared)
      (hupdates : err.slotUpdates = some updates)
      (hfailed : Answered (.declared (a.firing arguments)) (.error err) h)
      (hmerge : mergeSubmit cfg a arguments updates = .ok context) :
      Saves cfg Φ h (.slotUpdates a.inst (a.transition.get "output"))
        { a.inst with context := context, version := a.inst.version + 1 }
  | deadWait {base : WorkflowInstance} (hdeclares : Declares base.definition base.state) : Saves cfg Φ h (.deadWait base)
      { base with context := base.context.remove "_subworkflow_wait", version := base.version + 1 }
  | onEnter {base : WorkflowInstance} {onEnter output context : Value}
      (honEnter : base.definition.walk ["states", base.state, "onEnter"] = some onEnter)
      (hmerge : mergeOnEnter cfg base onEnter output = .ok context)
      (hvalid : validateBlackboardWrites cfg.lib base.definition (onEnter.get "output") context = .ok ()) :
      Saves cfg Φ h (.onEnter base (onEnter.get "output")) { base with context := context, version := base.version + 1 }
  | cancel {base : WorkflowInstance} {time : Nat} {reason : String} : Saves cfg Φ h (.cancel base)
      { base with cancelledAt := some time, cancelledReason := some reason, version := base.version + 1 }
  | spawnBinding {base : WorkflowInstance} {wait : Value} : Saves cfg Φ h (.spawnBinding base)
      { base with context := writeMarker base.context "_subworkflow_wait" wait }

def SaveKind.Live : SaveKind → Prop
  | .spawnBinding _ => True
  | kind => kind.base.cancelledAt = none

variable {f : Firing} {next inst : WorkflowInstance}

theorem Saves.commit (hs : Saves cfg Φ h (.transition f) next) : Commit cfg Φ h f next := by
  cases hs with
  | transition hcommit _ => exact hcommit

def Working (K : WorkflowInstance → Prop) (inst : WorkflowInstance) : Prop :=
  K inst ∧ inst.cancelledAt = none

def Held (K : WorkflowInstance → Prop) (definition : Value) (inst : WorkflowInstance) : Prop :=
  Working K inst ∧ inst.definition = definition

variable {a : Admitted} {arguments : Value} {work : SubmitWork}

section

variable {h : History}

theorem WhileOutcome.frame {definition : Value} {fromState : String} {rerouted : Option String}
    (hloop : WhileOutcome v definition fromState next rerouted looped) :
    looped = { next with context := looped.context } := by
  cases hloop <;> rfl

theorem exitInstance_frame :
    exitInstance definition fromState target next =
      { next with context := (exitInstance definition fromState target next).context } := by
  unfold exitInstance
  split <;> rfl

theorem SubmitWork.Of.frame
    (hwork : work.Of cfg a arguments) : work.next = { a.inst with context := work.next.context } := by
  cases hwork <;> rfl

theorem HopWork.Of.frame {definition : Value} {hop : Hop} {work : HopWork}
    (hwork : work.Of cfg definition d hop) : work.inst = { d.inst with context := work.inst.context } := by
  cases hwork <;> rfl

theorem Admitted.Commits.definition
    {v : Value → WorkflowInstance → Bool → Prop} (hnext : a.Commits v work next) (hwork : work.Of cfg a arguments) :
    next.definition = a.inst.definition := by
  cases hnext with
  | intro _ _ hloop => rw [exitInstance_frame, hloop.frame, hwork.frame]

theorem Commit.frame (hc : Commit cfg Φ h f next) :
    next = { f.before with state := next.state, context := next.context, version := f.before.version + 1 } := by
  cases hc with
  | submit _ hwork hnext =>
    cases hnext with
    | intro _ _ hloop =>
      rw [exitInstance_frame, hloop.frame, hwork.frame]
      rfl
  | hop _ _ hwork hnext _ =>
    cases hnext with
    | intro _ _ =>
      rw [hwork.frame]
      rfl
  | timeout _ => rfl

theorem Commit.held (hc : Commit cfg Φ h f next)
    (hlive : f.before.cancelledAt = none) (hk : K next) : Held K f.before.definition next := by
  rw [hc.frame] at hk ⊢
  exact ⟨⟨hk, hlive⟩, rfl⟩

end

theorem Admitted.Ok.declares (ha : a.Ok) : Declares a.inst.definition a.inst.state :=
  ⟨a.request.transition, by rw [ha.transition]; rfl⟩

theorem declares_of_hopPlan {definition : Value} {state : String} (hplan : hopPlan cfg definition state ≠ .stop) :
    Declares definition state := by
  unfold hopPlan at hplan
  cases htransitions : (definition.walk ["states", state, "transitions"]).bind Value.asObject with
  | none =>
    rw [htransitions] at hplan
    exact absurd rfl hplan
  | some fields =>
    cases fields with
    | nil =>
      rw [htransitions] at hplan
      exact absurd (by simp) hplan
    | cons entry rest =>
      obtain ⟨name, t⟩ := entry
      refine ⟨name, ?_⟩
      obtain ⟨v, hv, hobject⟩ := Option.bind_eq_some_iff.mp htransitions
      obtain rfl : v = .object ((name, t) :: rest) := by
        cases v <;> simp_all [Value.asObject]
      rw [transitionDefinition, show ["states", state, "transitions", name] =
        ["states", state, "transitions"] ++ [name] from rfl, Value.walk_append, hv]
      simp [Fields.get_cons]

theorem Hop.Of.plan {hop : Hop} (hhop : hop.Of cfg Φ args d h) :
    hopPlan cfg args.definition d.inst.state ≠ .stop := by
  cases hhop with
  | selected hplan _ _ => rw [hplan]; exact nofun
  | driven hplan _ => rw [hplan]; exact nofun

/-- What a drive is called with: an instance under its definition, and the hop budget of that definition. -/
structure ChainArgs.Held (K : WorkflowInstance → Prop) (args : ChainArgs) : Prop where
  inst : Praxec.Held K args.definition args.inst
  budget : args.livelockBudget = livelockBudgetOf args.definition

/-- What a drive reports of the instance it drove: a failed one may show what was never saved, and one
that was cut what someone else saved. -/
def ChainOutcome.Reports (K : WorkflowInstance → Prop) : ChainOutcome → Prop
  | .failed .. => True
  | .waitingOnLock result _ files _ =>
      (Working K result.inst ∧ Declares result.inst.definition result.inst.state) ∧ files ≠ []
  | .suspended result .. => Working K result.inst ∧ Declares result.inst.definition result.inst.state
  | outcome => K outcome.progress.inst

/-- Executors run only where they are dispatched, transition records and snapshots come only from
commits, and all of it happens to instances in `K` at the version they have there. -/
def Committed (cfg : RuntimeConfig) (Φ : Value → Value → Prop) (K : WorkflowInstance → Prop)
    (h : History) : Event Sig → Prop
  | .op (.executeBegin site request) _ => K request.workflow ∧ Dispatch cfg Φ h site request
  | .op (.storeSave kind next v) _ =>
      (K kind.base ∧ v = kind.base.version ∧ kind.Live) ∧ Saves cfg Φ h kind next
  | .op (.storeCreate inst) _ => inst.Fresh cfg
  | .op (.auditTransition f record) _ => ∃ next, Commit cfg Φ h f next ∧ record.Describes f next
  | .call (.runDeterministicChain args) _ | .timeout (.runDeterministicChain args) _ =>
      args.Held K
  | _ => True

/-- `Φ` holds of the output of every agent that is to drive a transition. -/
def AgentsMeet (Φ : Value → Value → Prop) : Event Sig → Prop
  | .op (.executeEnd (.agent transition) _) (.ok r) => Φ transition r.output
  | _ => True

theorem agentsMeet_any (e : Event Sig) : AgentsMeet (fun _ _ => True) e := by
  unfold AgentsMeet
  split <;> trivial

/-- The store and the drives hand out instances in `K` only, and the store those it was asked for or
given. -/
def HandsOut (K : WorkflowInstance → Prop) : Event Sig → Prop
  | .op (.storeLoad id) (.ok inst) => inst.id = id ∧ K inst
  | .op (.storeSave _ next _) (.ok saved) => saved = next ∧ K saved
  | .op (.storeCreate inst) (.ok created) => created = inst ∧ K created
  | .call (.runDeterministicChain _) (.ok outcome)
  | .timeout (.runDeterministicChain _) (some (.ok outcome)) => outcome.Reports K
  | _ => True

namespace Commits

abbrev mon (cfg : RuntimeConfig) (Φ : Value → Value → Prop) (K : WorkflowInstance → Prop) :
    Monitor Sig History :=
  .history (fun e => AgentsMeet Φ e ∧ HandsOut K e) (Committed cfg Φ K)

variable {P : History → Prop} (hP : Stable P)

include hP

theorem keeps_calm {e : Event Sig} (he : Calm e) : (mon cfg Φ K).Keeps P e := by
  refine hP.keeps fun h _ _ => ?_
  cases e with
  | op o r =>
    cases o with
    | storeSave kind next v | storeCreate inst | auditTransition f record | executeBegin site request =>
      exact nomatch he
    | _ => trivial
  | call p r =>
    cases p with
    | runDeterministicChain args => exact he.elim
    | _ => trivial
  | timeout p r => exact he.elim

theorem keeps_quiet (e : Event Sig) (he : Quiet e) : (mon cfg Φ K).Keeps P e :=
  keeps_calm hP he.calm

theorem keeps_handback (e : Event Sig) (he : Handback e) : (mon cfg Φ K).Keeps P e :=
  keeps_calm hP (Handback.calm he)

theorem calm_triple (hx : UsesE Calm x) : (mon cfg Φ K).Triple P x (fun _ => P) fun _ => P :=
  .of_uses (hx.mono fun _ => keeps_calm hP) fun _ _ => id

theorem calm_returns (hx : x.Uses Calm) : (mon cfg Φ K).Returns P x fun _ => P :=
  .of_uses (hx.mono fun _ => keeps_calm hP)

theorem quiet_triple (hx : UsesE Quiet x) : (mon cfg Φ K).Triple P x (fun _ => P) fun _ => P :=
  calm_triple hP (calm_of_quiet hx)

variable {id : String}

section

theorem load_triple : (mon cfg Φ K).Triple P (load id) (fun inst h => (inst.id = id ∧ K inst) ∧ P h) fun _ => P := by
  refine Returns.perform fun h r hh ha => ⟨trivial, ?_⟩
  cases r with
  | ok inst => exact ⟨ha.2, hP h _ hh⟩
  | error e => exact hP h _ hh

variable {v : Nat}

theorem save_triple (hbase : K kind.base)
    (hv : v = kind.base.version) (hlive : kind.Live) (hsaves : ∀ h, P h → Saves cfg Φ h kind next) :
    (mon cfg Φ K).Triple P (saveIfVersion kind next v) (fun saved h => (saved = next ∧ K saved) ∧ P h) fun _ => P := by
  refine Returns.perform fun h r hh ha => ⟨⟨⟨hbase, hv, hlive⟩, hsaves h hh⟩, ?_⟩
  cases r with
  | ok saved => exact ⟨ha.2, hP h _ hh⟩
  | error e => exact hP h _ hh

theorem create_triple (hfresh : inst.Fresh cfg) : (mon cfg Φ K).Triple P
      (ExceptT.mk (Prog.perform (S := Sig) (.storeCreate inst)) : Fallible WorkflowInstance)
      (fun created h => (created = inst ∧ K created) ∧ P h) fun _ => P := by
  refine Returns.perform fun h r hh ha => ⟨hfresh, ?_⟩
  cases r with
  | ok inst => exact ⟨ha.2, hP h _ hh⟩
  | error e => exact hP h _ hh

theorem emit_triple {p : RecordParams}
    (hdescribes : (transitionRecord next p).Describes f next) (hcommit : ∀ h, P h → Commit cfg Φ h f next) :
    (mon cfg Φ K).Triple P (emitTransitionRecord f next p) (fun _ h => Recorded f next h ∧ P h) fun _ => P := by
  refine Triple.bind (Q := fun written h => (written = .ok () → Recorded f next h) ∧ P h)
    (.lift (.perform fun h r hh _ => ⟨⟨next, hcommit h hh, hdescribes⟩, fun hr => ?_, hP h _ hh⟩)) fun written => ?_
  · subst hr
    exact ⟨h, _, rfl, hdescribes⟩
  · cases written with
    | ok u => exact .pure fun h hh => ⟨hh.1 rfl, hh.2⟩
    | error e => exact .throw fun h => And.right

theorem save_recorded (hbase : K f.before) (hv : v = f.before.version) (hlive : f.before.cancelledAt = none)
    (hcommit : ∀ h, P h → Commit cfg Φ h f next) :
    (mon cfg Φ K).Triple (fun h => Recorded f next h ∧ P h) (saveIfVersion (.transition f) next v)
      (fun saved h => (saved = next ∧ K saved) ∧ P h) fun _ => P := by
  refine Returns.perform fun h r hh ha => ⟨⟨⟨hbase, hv, hlive⟩, .transition (hcommit h hh.2) hh.1⟩, ?_⟩
  cases r with
  | ok saved => exact ⟨ha.2, hP h _ hh.2⟩
  | error e => exact hP h _ hh.2

theorem commit_triple {note : CommitNote} (hbase : K f.before)
    (hv : v = f.before.version) (hlive : f.before.cancelledAt = none) (hsite : f.site ≠ .timeout)
    (hcommit : ∀ h, P h → Commit cfg Φ h f next) :
    (mon cfg Φ K).Triple P (commitTransition f next note v) (fun saved h => (saved = next ∧ K saved) ∧ P h)
      fun _ => P :=
  (emit_triple hP ⟨rfl, rfl, rfl, rfl, rfl, rfl, (if_neg hsite).symm⟩ hcommit).bind fun _ =>
    save_recorded hP hbase hv hlive hcommit

end

theorem cancel_triple : (mon cfg Φ K).Triple P (cancel cfg workflowId reason) (fun _ => P) fun _ => P := by
  refine (load_triple hP).bind fun inst => .assume fun hinst => ?_
  split
  · exact .pure fun _ => id
  rename_i hlive
  have hlive : inst.cancelledAt = none := by simpa using hlive
  exact (quiet_triple hP (.lift now_uses)).bind fun time =>
    (save_triple hP hinst.2 rfl (by exact hlive) fun _ _ => .cancel).bind fun saved => .assume fun _ =>
    (quiet_triple hP (.lift recordOrSelfEvent_uses)).bind fun _ =>
    (calm_triple hP (.lift releaseRunLeases_uses)).bind fun _ => calm_triple hP (.lift resumeParentIfAny_uses)

theorem cancelIgnored_returns : (mon cfg Φ K).Returns P (cancelIgnored cfg id reason) fun _ => P :=
  (cancel_triple hP).run.bind fun r => .pure fun _ hr => by cases r <;> exact hr

theorem bindSpawn_returns {link : ParentLink} :
    (mon cfg Φ K).Returns P (bindSpawnIgnored link childId) fun _ => P := by
  have hbind : (mon cfg Φ K).Triple P (recordSubworkflowSpawnBinding link childId) (fun _ => P) fun _ => P :=
    (load_triple hP).bind fun parent => .assume fun hparent =>
      (save_triple hP hparent.2 rfl (by trivial) fun _ _ => .spawnBinding).bind fun _ => .pure fun _ hh => hh.2
  exact hbind.run.bind fun r => .pure fun _ hr => by cases r <;> exact hr

theorem execute_returns {site : ExecSite} {request : ExecuteRequest}
    (hinst : K request.workflow) (hdispatch : ∀ h, P h → Dispatch cfg Φ h site request)
    (hR : ∀ r h, P h → AgentsMeet Φ (.op (.executeEnd site request) (.ok r)) → R r h) :
    (mon cfg Φ K).Returns P (execute site request) (Settled (fun err h => Failed site err h ∧ P h) R) := by
  refine Returns.bind (Q := fun _ => P) (.of_uses (.perform fun _ => hP.keeps fun h hh _ => ⟨hinst, hdispatch h hh⟩))
    fun _ => .perform fun h r hh ha => ⟨trivial, ?_⟩
  cases r with
  | ok r => exact hR r _ (hP h _ hh) ha.1
  | error e => exact ⟨fun _ => ⟨request, mem_append_right _ (mem_singleton.mpr rfl)⟩, hP h _ hh⟩

theorem trials (hR : ∀ r, Stable (R r)) :
    Trials (mon cfg Φ K) cfg.registered P (fun err h => Failed site err h ∧ P h) R where
  quiet := keeps_quiet hP
  failed_quiet err := keeps_quiet ((Failed.stable site err).and hP)
  executed_quiet r := keeps_quiet (hR r)
  again _ _ := And.right
  none _ hh := ⟨fun hsome => (by cases hsome), hh⟩
  refused _ _ _ hh := ⟨fun hsome => (by cases hsome), hh⟩

theorem bracket (site : ExecSite) (hR : ∀ r, Stable (R r)) :
    Bracket (mon cfg Φ K) cfg i declared P (fun _ => P) (fun _ err h => Failed site err h ∧ P h)
      (fun err h => Failed site err h ∧ P h) (fun _ => R) R where
  quiet := keeps_quiet hP
  trials _ := trials hP hR
  settled_quiet r := keeps_quiet (hR r)
  acquire := acquireOwnedFiles_returns (fun _ => id) (fun _ => keeps_quiet hP) ((Returns.of_uses
    (.perform fun _ => hP.keeps fun _ _ _ => trivial)).mono fun r _ hg => by cases r <;> exact hg)
  release _ r := .of_uses (releaseLease_uses.mono (keeps_handback (hR r)))
  abandon _ err := .of_uses (releaseLease_uses.mono (keeps_handback ((Failed.stable site err).and hP)))

theorem evidence_returns {evs : List Evidence} : (mon cfg Φ K).Returns P (recordEvidence cfg id evs) fun _ => P :=
  .of_uses (recordEvidence_uses fun _ _ _ => hP.keeps fun _ _ _ => trivial)

theorem runOnEnter_keeps {definition : Value} {c : String} (hi : Held K definition i) :
    (mon cfg Φ K).Triple P (runOnEnter cfg definition i c) (fun entered h => Held K definition entered ∧ P h)
      fun _ => P := by
  obtain ⟨⟨hk, hlive⟩, rfl⟩ := hi
  refine runOnEnter_triple (keeps_quiet hP) (fun _ _ => id) (fun _ => keeps_quiet hP) (fun _ _ _ => id)
    (fun _ hh => ⟨⟨⟨hk, hlive⟩, rfl⟩, hh⟩)
    (fun _ _ => (execute_returns hP hk (fun _ _ => .onEnter) fun _ _ hh _ => hh).mono
      (Settled.mono (fun _ _ => And.right) fun _ _ => id))
    fun _ _ _ honEnter _ hmerge hvalid => (Triple.lift (evidence_returns hP)).bind fun _ =>
      (save_triple hP hk rfl (by exact hlive) fun _ _ => .onEnter honEnter hmerge hvalid).mono fun saved _ hh => ?_
  obtain ⟨⟨rfl, hsaved⟩, hh⟩ := hh
  exact ⟨⟨⟨hsaved, hlive⟩, rfl⟩, hh⟩

omit hP

theorem forget {ε α : Type} {B : History → Prop} {Q : α → History → Prop}
    {x : ExceptT ε Run α} (hx : (mon cfg Φ K).Triple P x Q fun _ => B) :
    (mon cfg Φ K).Triple P x Q fun _ _ => True :=
  hx.failing fun _ _ _ => trivial

section

variable {inst : WorkflowInstance} {arguments guard : Value} {principal : Principal} {c : String}

theorem evaluateGuard_returns :
    (mon cfg Φ K).Returns (Passed inst arguments passed) (evaluateGuard guard inst arguments principal)
    fun r h => Passed inst arguments passed h ∧
    ∀ diagnostic, r = .ok (true, diagnostic) → Passed inst arguments (passed ++ [guard]) h := by
  refine .perform fun h r hh _ => ⟨trivial, Passed.stable _ _ _ h _ hh, fun diagnostic hr => ?_⟩
  subst hr
  intro g hg
  rcases mem_append.mp hg with hg | hg
  · exact Passed.stable _ _ _ h _ hh g hg
  · cases mem_singleton.mp hg
    exact ⟨principal, diagnostic, mem_append_right _ (mem_singleton.mpr rfl)⟩

theorem evaluateGuards_triple (passed : List Value) : (mon cfg Φ K).Triple (Passed inst arguments passed)
    (evaluateGuards inst arguments principal c guards idx evaluated)
    (fun out h => out.pass → Passed inst arguments (passed ++ guards) h) fun _ _ => True := by
  induction guards generalizing passed idx evaluated with
  | nil => exact .pure fun h hh _ => by simpa using hh
  | cons guard rest ih =>
    refine Triple.bind (Q := fun r h => r.1 → Passed inst arguments (passed ++ [guard]) h) ?_ fun r => ?_
    · refine Returns.mono evaluateGuard_returns fun r h hh => ?_
      rcases r with e | ⟨pass, diagnostic⟩
      · trivial
      · exact fun hpass => hh.2 diagnostic (by rw [← show pass from hpass])
    · obtain ⟨pass, diagnostic⟩ := r
      cases pass with
      | false =>
        refine Triple.pre (P := fun _ => True) ?_ fun _ _ => trivial
        refine (quiet_triple (Stable.const True) (.lift auditRecord_uses)).bind fun written => ?_
        cases written with
        | error e => exact .throw fun _ _ => trivial
        | ok _ => exact .pure fun _ _ => nofun
      | true =>
        refine Triple.pre (P := Passed inst arguments (passed ++ [guard])) ?_ fun _ hh => hh rfl
        refine (forget (quiet_triple (Passed.stable _ _ _) (.lift auditRecord_uses))).bind fun written => ?_
        cases written with
        | error e => exact .throw fun _ _ => trivial
        | ok _ => exact (ih (passed ++ [guard])).mono fun _ _ hh => by simpa using hh

theorem checkGuards_passed : (mon cfg Φ K).Triple (fun _ => True) (checkGuards cfg a arguments)
      (fun _ => Passed a.inst arguments (guardsOf a.transition)) fun _ _ => True := by
  have hguards : (mon cfg Φ K).Triple (fun _ => True)
      (guardsPass a.transition a.inst arguments a.request.principal a.correlationId)
      (fun out h => out.pass → Passed a.inst arguments (guardsOf a.transition) h) fun _ _ => True :=
    (evaluateGuards_triple []).pre fun _ _ => nofun
  refine (Triple.lift hguards.run).bind fun result => ?_
  rcases result with e | outcome
  · cases e with
    | unsetSlot message =>
      exact reject_triple (keeps_quiet (Stable.const True)) (fun _ _ _ => id) (by simp)
    | other message => exact .throw fun _ => id
  · dsimp only
    split
    · rename_i hpass
      exact .pure fun h hh => hh hpass
    · exact (reject_triple (keeps_quiet (Stable.const True)) (fun _ _ _ => id)
        fun hcode => absurd hcode guardRejection_code).pre fun _ _ => trivial

theorem guardHolds_triple (passed : List Value) :
    (mon cfg Φ K).Triple (Passed inst arguments passed) (guardHolds guard inst arguments principal)
      (fun pass h => pass → Passed inst arguments (passed ++ [guard]) h) fun _ _ => True := by
  refine (Triple.lift evaluateGuard_returns).bind fun r => ?_
  rcases r with e | ⟨pass, diagnostic⟩
  · exact .throw fun _ _ => trivial
  · exact .pure fun h hh hpass => hh.2 diagnostic (by rw [hpass])

theorem selectionGuardsPass_triple (passed : List Value) :
    (mon cfg Φ K).Triple (Passed inst .emptyObject passed) (selectionGuardsPass inst principal c guards)
    (fun pass h => pass → Passed inst .emptyObject (passed ++ guards) h) fun _ _ => True := by
  induction guards generalizing passed with
  | nil => exact .pure fun h hh _ => by simpa using hh
  | cons guard rest ih =>
    refine (guardHolds_triple passed).bind fun pass => ?_
    cases pass with
    | false =>
      refine Triple.pre (P := fun _ => True) ?_ fun _ _ => trivial
      exact (quiet_triple (Stable.const True) (.lift recordOrSelfEvent_uses)).bind fun _ => .pure fun _ _ => nofun
    | true =>
      refine Triple.pre (P := Passed inst .emptyObject (passed ++ [guard])) ?_ fun _ hh => hh rfl
      refine (forget (quiet_triple (Passed.stable _ _ _) (.lift recordOrSelfEvent_uses))).bind fun _ => ?_
      exact (ih (passed ++ [guard])).mono fun _ _ hh => by simpa using hh

def Eligible (inst : WorkflowInstance) (candidates : List Candidate) (c : Candidate) (h : History) : Prop :=
  c ∈ candidates ∧ Passed inst .emptyObject (guardsOf c.2) h

theorem viableCandidates_triple (candidates : List Candidate) :
    (mon cfg Φ K).Triple (fun _ => True) (viableCandidates inst principal c candidates)
      (fun found h => ∀ candidate, candidate ∈ found.1 ∨ candidate ∈ found.2 →
        Eligible inst candidates candidate h) fun _ _ => True := by
  induction candidates with
  | nil => exact .pure fun h _ => by simp
  | cons candidate rest ih =>
    have hlater {h : History} {found : Candidate} (hfound : Eligible inst rest found h) :
        Eligible inst (candidate :: rest) found h :=
      ⟨.tail _ hfound.1, hfound.2⟩
    unfold viableCandidates
    split
    · rename_i hunguarded
      refine ih.bind fun found => .pure fun h hh other hother => ?_
      rcases hother with hviable | hdefault
      · exact hlater (hh other (.inl hviable))
      · rcases mem_cons.mp hdefault with rfl | hdefault
        · exact ⟨.head _, by rw [isEmpty_iff.mp hunguarded]; exact forall_mem_nil _⟩
        · exact hlater (hh other (.inr hdefault))
    · refine (Triple.pre (selectionGuardsPass_triple []) fun _ _ => forall_mem_nil _).bind fun pass => ?_
      have hstable : Stable fun h => pass → Passed inst .emptyObject (guardsOf candidate.2) h :=
        fun h e hh hpass => Passed.stable _ _ _ h e (hh hpass)
      refine Triple.pre ((Triple.frame (m := mon cfg Φ K) hstable ih).bind fun found => .pure fun h hh other hother => ?_)
        fun h hh => ⟨by simpa using hh, trivial⟩
      rcases hother with hviable | hdefault
      · cases pass with
        | false => exact hlater (hh.2 other (.inl hviable))
        | true =>
          rcases mem_cons.mp hviable with rfl | hviable
          · exact ⟨.head _, hh.1 rfl⟩
          · exact hlater (hh.2 other (.inl hviable))
      · exact hlater (hh.2 other (.inr hdefault))

theorem selectDeterministicTransition_triple :
    (mon cfg Φ K).Triple (fun _ => True) (selectDeterministicTransition candidates inst principal c)
    (fun found h => candidates = [found] ∨ Eligible inst candidates found h) fun _ _ => True := by
  unfold selectDeterministicTransition
  split
  · exact .pure fun _ _ => .inl rfl
  refine (viableCandidates_triple candidates).bind fun found => ?_
  dsimp only
  split
  · rename_i heq
    exact .pure fun h hh => .inr (hh _ (.inl (by simp [heq])))
  · rename_i heq
    exact .pure fun h hh => .inr (hh _ (.inr (by simp [heq])))
  all_goals exact .throw fun _ _ => trivial

end

section

variable {definition : Value} {t : String} {v : Nat}

include hP

theorem parkOnLock_triple {files : List Path} {conflict : LockConflict} (hi : Working K i)
    (hdeclares : Declares i.definition i.state) (hv : v = i.version) (hfiles : files ≠ []) :
    (mon cfg Φ K).Triple P (parkOnLock cfg definition i t v p files conflict) (fun _ => P) fun _ => P :=
  (save_triple hP hi.1 hv (by exact hi.2) fun _ _ => .lockWait hfiles hdeclares).bind fun _ => .assume fun _ =>
    (Triple.onlyIf fun _ => calm_triple hP (.lift (.perform fun _ => rfl))).bind fun _ =>
    (quiet_triple hP (.lift recordIgnored_uses)).bind fun _ => quiet_triple hP (.lift response_quiet)

theorem suspendStep_triple {suspend : StepSuspend} (hi : Working K i) (hdeclares : Declares i.definition i.state)
    (hv : v = i.version) :
    (mon cfg Φ K).Triple P (suspendStep cfg definition i t v p suspend) (fun _ => P) fun _ => P := by
  cases suspend with
  | subworkflow child =>
    exact (save_triple hP hi.1 hv (by exact hi.2) fun _ _ => .subworkflowWait hdeclares).bind fun saved => .assume fun _ =>
      (quiet_triple hP (.lift recordIgnored_uses)).bind fun _ => quiet_triple hP (.lift response_quiet)
  | agentAwait correlationId prompt =>
    exact (save_triple hP hi.1 hv (by exact hi.2) fun _ _ => .agentAwait hdeclares).bind fun saved => .assume fun _ =>
      (quiet_triple hP (.lift recordIgnored_uses)).bind fun _ => quiet_triple hP (.lift response_quiet)

theorem consumeDeadSubworkflowWait_returns (hi : Working K i) (hdeclares : Declares i.definition i.state) :
    (mon cfg Φ K).Returns P (consumeDeadSubworkflowWait i t) fun _ => P := by
  unfold consumeDeadSubworkflowWait
  split
  · exact .pure fun _ => id
  split
  · exact .pure fun _ => id
  split
  · exact .pure fun _ => id
  refine (calm_returns hP load_uses).bind fun loaded => ?_
  cases loaded with
  | error _ => exact .pure fun _ => id
  | ok child =>
    dsimp only
    split
    · exact .pure fun _ => id
    refine (save_triple hP hi.1 rfl (by exact hi.2) fun _ _ => .deadWait hdeclares).run.bind fun saved => ?_
    cases saved with
    | error _ => exact .pure fun _ => id
    | ok saved =>
      exact ((calm_returns hP recordOrSelfEvent_uses).bind fun _ => .pure fun _ => id).conseq
        (fun _ => And.right) fun _ _ => id

end

section

variable {a : Admitted} (ha : a.Cleared) (hk : Working K a.inst)

include hP ha hk

theorem persistSlotUpdates_triple : (mon cfg Φ K).Triple (fun h => Failed (.declared (a.firing arguments)) err h ∧ P h)
    (persistSlotUpdates cfg a arguments err.slotUpdates)
    (fun out h => (Working K out.1 ∧ Declares out.1.definition out.1.state) ∧ P h) fun _ => P := by
  have hdeclares := ha.toOk.declares
  cases hupdates : err.slotUpdates with
  | none => exact .pure fun _ hh => ⟨⟨hk, hdeclares⟩, hh.2⟩
  | some updates =>
    unfold persistSlotUpdates
    dsimp only
    split
    · exact .pure fun _ hh => ⟨⟨hk, hdeclares⟩, hh.2⟩
    rename_i hmerge
    have hfailed := (Failed.stable (.declared (a.firing arguments)) err).and hP
    refine (Triple.lift (save_triple hfailed hk.1 ha.version.symm (by exact hk.2) fun _ hh =>
      .slotUpdates ha hupdates (hh.1 (by simp [hupdates])) hmerge).run).bind fun saved => ?_
    cases saved with
    | ok saved =>
      refine .pure fun _ hh => ?_
      obtain ⟨⟨rfl, hsaved⟩, -, hh⟩ := hh
      exact ⟨⟨⟨hsaved, hk.2⟩, hdeclares⟩, hh⟩
    | error e =>
      dsimp only
      split
      · exact (reject_triple (keeps_quiet hP) (fun _ _ _ => id) (by simp)).pre fun _ => And.right
      · exact .pure fun _ hh => ⟨⟨hk, hdeclares⟩, hh.2⟩

theorem failSubmit_keeps {α : Type} {Q : α → History → Prop} {err : ExecutorError} :
    (mon cfg Φ K).Triple (fun h => Failed (.declared (a.firing arguments)) err h ∧ P h)
      (failSubmit cfg a arguments err) Q fun _ => P :=
  (persistSlotUpdates_triple hP ha hk).bind fun _ => .assume fun hout =>
    (Triple.lift (consumeDeadSubworkflowWait_returns hP hout.1 hout.2)).bind fun _ =>
    (Triple.attempt (quiet_triple hP auditRecord_uses)).bind fun _ =>
    (Triple.onlyIf fun _ => .lift (cancelIgnored_returns hP)).bind fun _ =>
    replyWith_triple (response_shows (keeps_quiet hP)) fun _ _ => And.right

end

def Left (K : WorkflowInstance → Prop) : Exit Err ChainOutcome → Prop
  | .fail _ => True
  | .reply outcome => outcome.Reports K

theorem left_of_exits (hd : Working K d.inst) {e : Exit Err ChainOutcome} (he : d.Exits e) : Left K e := by
  cases e with
  | fail e => trivial
  | reply outcome =>
    have hK {result : ChainResult} (h : result = d.result) : Working K result.inst := h ▸ hd
    cases outcome with
    | failed => trivial
    | waitingOnLock | suspended => exact he.elim
    | _ => exact (hK he).1

section

include hP

theorem driveChain_triple (hargs : args.Held K) :
    (mon cfg Φ K).Triple P (driveChainWithDeadline cfg args) (fun outcome h => outcome.Reports K ∧ P h) fun _ => P := by
  have hdeadline {d : Drive} {wallMs deadlineMs : Nat} (hd : K d.inst) : (mon cfg Φ K).Triple P
      (liftM (missionDeadlineExceededOutcome args d wallMs deadlineMs) : Fallible ChainOutcome)
      (fun outcome h => outcome.Reports K ∧ P h) fun _ => P :=
    .lift ((quiet_returns (keeps_quiet hP) recordOrSelfEvent_uses).bind fun _ => .pure fun _ hh => ⟨hd, hh⟩)
  unfold driveChainWithDeadline
  dsimp only
  split
  · refine Returns.invoke fun h r hh ha => ⟨hargs, ?_⟩
    cases r with
    | ok outcome => exact ⟨ha.2, hP h _ hh⟩
    | error e => exact hP h _ hh
  split
  · exact hdeadline hargs.inst.1.1
  refine Triple.bind (Q := fun inner h => (∀ outcome, inner = some (.ok outcome) → outcome.Reports K) ∧ P h)
    (.lift fun h hh r ha => ⟨hargs, ?_, hP h _ hh⟩) fun inner => .assume fun hinner => ?_
  · rintro outcome rfl
    exact ha.2
  cases inner with
  | some outcome =>
    cases outcome with
    | ok outcome => exact Triple.pure (m := mon cfg Φ K) fun _ hh => ⟨hinner outcome rfl, hh⟩
    | error e => exact Triple.throw (m := mon cfg Φ K) fun _ => id
  | none =>
    exact (load_triple hP).bind fun reloaded => .assume fun hreloaded => hdeadline hreloaded.2

variable {r : DriveReport}

theorem settle_triple (ho : outcome.Reports K) :
    (mon cfg Φ K).Triple P (r.settle cfg outcome) (fun _ => P) fun _ => P := by
  have hrespond {result : ChainResult} {hint : StatusHint} {e : Option ResponseError} :
      (mon cfg Φ K).Triple P (liftM (r.respond cfg result hint e) : Fallible Response) (fun _ => P) fun _ => P :=
    .lift ((calm_returns hP (calm_of_quiet response_quiet)).bind fun _ => .pure fun _ => id)
  have hcancelled {result : ChainResult} {code reason : String} {detail : Fields} :
      (mon cfg Φ K).Triple P (r.cancelled cfg result code reason detail) (fun _ => P) fun _ => P :=
    (cancel_triple hP).bind fun _ => (quiet_triple hP load_uses).bind fun _ =>
      (quiet_triple hP (.lift response_quiet)).bind fun _ => .pure fun _ => id
  cases outcome with
  | completed result =>
    refine (Triple.onlyIf fun _ => ?_).bind fun _ => hrespond
    exact (calm_triple hP (.lift releaseRunLeases_uses)).bind fun _ =>
      (quiet_triple hP auditRecord_uses).bind fun _ =>
      (quiet_triple hP (.lift emitOutcomeRecorded_quiet)).bind fun _ =>
      .onlyIf fun _ => calm_triple hP (.lift resumeParentIfAny_uses)
  | failed result error errorClass failedTransition =>
    exact (calm_triple hP (.lift releaseRunLeases_uses)).bind fun _ => hrespond.bind fun _ =>
      (Triple.onlyIf fun _ => .lift (cancelIgnored_returns hP)).bind fun _ => .pure fun _ => id
  | waitingOnLock result transition files conflict => exact parkOnLock_triple hP ho.1.1 ho.1.2 rfl ho.2
  | suspended result suspend transition => exact suspendStep_triple hP ho.1 ho.2 rfl
  | quarantined result reason | deadlineExceeded result reason _ _ => exact hcancelled
  | aborted result reason => exact hrespond

theorem driveAndSettle_triple (hi : Held K r.definition i) :
    (mon cfg Φ K).Triple P (driveAndSettle cfg r i) (fun _ => P) fun _ => P :=
  (driveChain_triple hP ⟨hi, rfl⟩).bind fun _ => .assume fun ho => (settle_triple hP ho).bind fun _ => .pure fun _ => id

end

theorem selectHop_of (hheld : Held K args.definition d.inst) :
    (mon cfg Φ K).Triple (fun _ => True) (selectHop cfg args d)
      (fun hop => hop.elim (fun _ => True) fun hop h => hop.Of cfg Φ args d h) fun e _ => Left K e := by
  have htrue : Stable (S := Sig) fun _ => True := .const True
  have hd := hheld.1
  refine selectHop_triple (keeps_quiet htrue) (fun _ _ he _ => left_of_exits hd he)
    (fun candidates direct hplan => ?_) fun candidate hplan => ?_
  · refine selectDeterministicTransition_triple.mono fun found h hfound => ?_
    rcases hfound with hsingle | helig
    · exact .selected hplan (hsingle ▸ mem_singleton.mpr rfl) (.inl hsingle)
    · exact .selected hplan helig.1 (.inr helig.2)
  · obtain ⟨name, transition⟩ := candidate
    have hdeclares : Declares d.inst.definition d.inst.state :=
      hheld.2 ▸ declares_of_hopPlan (by rw [hplan]; exact nofun)
    exact autoDriveHop_triple (bracket htrue (.agent transition) fun r => .const (Φ transition r.output))
      (fun _ _ he _ => left_of_exits hd he) (fun _ _ => And.right)
      (fun _ _ _ hfiles _ => ⟨⟨hd, hdeclares⟩, hfiles⟩) (fun _ _ _ _ _ => trivial)
      (fun _ _ _ _ _ _ _ _ => execute_returns htrue hd.1 (fun _ _ => .agent hplan) fun _ _ _ ha => ha)
      fun _ hopen _ _ hagent => .driven hplan hagent hopen

theorem judged_kept (hP : Stable P) : Judged.Kept (mon cfg Φ K) P where
  quiet := keeps_quiet hP
  verdict _ _ _ principal _ diagnostic _ _ _ :=
    ⟨principal, diagnostic, mem_append_right _ (mem_singleton.mpr rfl)⟩
  stable guard inst arguments pass e h _ _ _ := Judged.stable guard inst arguments pass h e

theorem judged_and (hP : Stable P) {F : (Value → WorkflowInstance → Value → Bool → Prop) → Prop}
    (hF : ∀ {v v'}, (∀ guard inst arguments pass, v guard inst arguments pass → v' guard inst arguments pass) →
      F v → F v') :
    Stable fun h => F (fun guard inst arguments pass => Judged guard inst arguments pass h) ∧ P h :=
  fun h e hh => ⟨hF (fun _ _ _ _ => Judged.stable _ _ _ _ h e) hh.1, hP h e hh.2⟩

structure Hopping (K : WorkflowInstance → Prop) (args : ChainArgs) (d : Drive) : Prop where
  budget : args.livelockBudget = livelockBudgetOf args.definition
  held : Held K args.definition d.inst
  below : (u64Field d.inst.context chainHopsTotalKey).getD 0 < livelockBudgetOf args.definition

def outline (cfg : RuntimeConfig) (Φ : Value → Value → Prop) (K : WorkflowInstance → Prop) :
    Outline History where
  idle _ := True
  ended _ := True
  validated a arguments _ := a.Validated cfg arguments
  ready a arguments := a.Gated cfg arguments
  worked a arguments work h := work.Of cfg a arguments ∧ a.Gated cfg arguments h
  driving args d _ := args.livelockBudget = livelockBudgetOf args.definition ∧ Held K args.definition d.inst
  chosen args d hop h := Hopping K args d ∧ hop.Of cfg Φ args d h
  hopDone args d hop work h := (Hopping K args d ∧ work.Of cfg args.definition d hop) ∧ hop.Of cfg Φ args d h
  Known := Held K
  Called := ChainArgs.Held K
  left e _ := Left K e

theorem commitSubmit_keeps {guards : List (String × Bool)}
    {acceptance : Option AuditEvent} (ha : a.Cleared) (hk : Held K a.inst.definition a.inst)
    (hwork : work.Of cfg a arguments) :
    (mon cfg Φ K).Triple (a.Gated cfg arguments) (commitSubmit cfg a arguments guards acceptance work)
      (fun entered _ => Held K a.inst.definition entered ∧ True) fun _ _ => True := by
  have hgated : Stable (a.Gated cfg arguments) := .stable a arguments
  have hreport {i : WorkflowInstance} {e : AuditEvent} : (mon cfg Φ K).Triple
      (fun _ => Held K a.inst.definition i ∧ True) (auditRecord e) (fun _ _ => Held K a.inst.definition i ∧ True)
      fun _ _ => True := forget (quiet_triple (.const _) auditRecord_uses)
  refine commitSubmit_triple (C := fun saved _ => Held K a.inst.definition saved ∧ True)
    (judged_kept hgated) (fun _ _ _ => trivial) (fun next note => ?_) (fun _ _ => hreport)
    (fun saved => evidence_returns (.const (Held K a.inst.definition saved ∧ True)))
    (fun saved => .known fun hsaved => runOnEnter_keeps (.const True) hsaved.1) fun _ _ => hreport
  have hready : Stable fun h => a.Commits (fun guard inst pass => Judged guard inst arguments pass h) work next ∧
      a.Gated cfg arguments h :=
    judged_and hgated (F := fun v => a.Commits (fun guard inst => v guard inst arguments) work next)
      fun hv hnext => hnext.mono fun _ _ => hv _ _ _
  have hcommit : ∀ h, (a.Commits (fun guard inst pass => Judged guard inst arguments pass h) work next ∧
      a.Gated cfg arguments h) → Commit cfg Φ h (a.firing arguments) next :=
    fun _ hh => .submit hh.2 hwork hh.1
  refine (commit_triple hready hk.1.1 ha.version.symm hk.1.2 (by simp [Admitted.firing]) hcommit).conseq
    (fun _ => id) (fun saved h hh => ?_) fun _ _ _ => trivial
  obtain ⟨⟨rfl, hsaved⟩, hh⟩ := hh
  exact ⟨(hcommit h hh).held hk.1.2 hsaved, trivial⟩

theorem sound : (outline cfg Φ K).Sound (mon cfg Φ K) cfg where
  idle_ended _ _ := trivial
  seen_idle _ _ := id
  created_idle _ _ := id
  expired_ended _ _ := id
  replied_ended _ _ := id
  fails _ _ := id
  refuses _ _ _ _ _ := id
  halts _ _ _ _ _ := id
  expires _ _ _ _ := id
  driving_left _ _ _ _ he hd := left_of_exits hd.2.1 he
  idle_calm _ := keeps_calm (.const True)
  seen_quiet _ := keeps_quiet (.const True)
  created_quiet _ := keeps_quiet (.const True)
  expired_quiet _ := keeps_quiet (.const True)
  driving_quiet args d := keeps_quiet (.const _)
  chosen_quiet args d hop := keeps_quiet ((Stable.const _).and (Hop.Of.stable args d hop))
  call_known _ _ h := h (.error "") ⟨trivial, trivial⟩
  timeout_known _ _ h := h none ⟨trivial, trivial⟩
  called _ _ p v hv := by
    cases p with
    | runDeterministicChain args =>
      cases v with
      | ok outcome => exact ⟨trivial, hv⟩
      | error e => exact ⟨trivial, trivial⟩
    | _ => exact ⟨trivial, trivial⟩
  timed _ _ p v hv := by
    cases p with
    | runDeterministicChain args =>
      cases v with
      | ok outcome => exact ⟨trivial, hv⟩
      | error e => exact ⟨trivial, trivial⟩
    | _ => exact ⟨trivial, trivial⟩
  cut _ p := by cases p <;> exact ⟨trivial, trivial⟩
  load _ := (load_triple (.const True)).mono fun _ _ hh => ⟨fun hlive => ⟨⟨hh.1.2, hlive⟩, rfl⟩, hh.2⟩
  create inst hfresh := (create_triple (.const True) hfresh).mono fun created _ hh => by
    obtain ⟨⟨rfl, hk⟩, -⟩ := hh
    exact ⟨⟨⟨hk, hfresh.live⟩, rfl⟩, trivial⟩
  cancel _ _ := cancel_triple (.const True)
  bindSpawn _ _ := bindSpawn_returns (.const True)
  checkArguments _ _ _ := (checkArguments_triple (keeps_quiet (.const True)) fun _ _ _ => id).mono fun _ _ h => h.1
  checkGuards _ _ ha _ := .known fun hvalid => checkGuards_passed.mono fun _ _ hpassed => ⟨ha, hvalid, hpassed⟩
  runSubmitExecutor a arguments ha hk := by
    have hgated : Stable (a.Gated cfg arguments) := .stable a arguments
    exact runSubmitExecutor_triple (keeps_quiet hgated) (fun _ _ _ _ => trivial)
      (bracket hgated (.declared (a.firing arguments)) fun _ => hgated)
      (fun _ hwork _ _ _ hh => ⟨hwork, hh⟩)
      (fun _ _ hfiles => (forget (parkOnLock_triple hgated hk.1 ha.toOk.declares ha.version.symm hfiles)).mono fun _ _ _ => trivial)
      (fun _ _ _ hexecutor hparsed _ hconfig _ => execute_returns hgated hk.1.1
        (fun _ hh => .submit hh hexecutor hparsed hconfig) fun _ _ hh _ => hh)
      (fun hexecutor _ => (mergeResult_triple (keeps_quiet hgated) (fun _ _ _ _ => trivial) hexecutor fun _ =>
        (forget (suspendStep_triple hgated hk.1 ha.toOk.declares ha.version.symm)).mono fun _ _ _ => trivial).mono
          fun _ _ hh => ⟨hh.1.1, hh.2⟩)
      fun _ => forget (failSubmit_keeps hgated ha hk.1)
  commitSubmit a arguments _ _ _ ha hk := .assume fun hwork => commitSubmit_keeps ha hk hwork
  checkAndApplyTimeout definition inst _ hk := by
    obtain ⟨⟨hinst, hlive⟩, rfl⟩ := hk
    have htrue : Stable (S := Sig) fun _ => True := .const True
    refine (checkAndApplyTimeout_triple (N := fun _ _ => True) (keeps_quiet htrue) (fun _ _ => keeps_calm htrue)
      (fun target c hout => emit_triple htrue ⟨rfl, rfl, rfl, rfl, rfl, rfl, rfl⟩ fun _ _ => .timeout hout)
      fun target hout => (save_recorded htrue hinst rfl hlive fun _ _ => .timeout hout).mono
        fun _ _ _ => trivial).mono fun out _ _ => by cases out <;> trivial
  runOnEnter _ _ _ hk := runOnEnter_keeps (.const True) hk
  driveAndSettle _ _ _ _ hk := (driveAndSettle_triple (.const True) hk).mono fun _ _ _ => ⟨trivial, fun _ _ => trivial⟩
  selectHop args d hwithin := .known fun hd => (selectHop_of hd.2).mono fun hop h hhop => by
    cases hop with
    | none => exact hd
    | some hop => exact ⟨⟨hd.1, hd.2, hd.1 ▸ hwithin.budget⟩, hhop⟩
  runHopExecutor args d hop := .assume fun hdriven => by
    have hd := hdriven.held
    have hchosen : Stable fun h => hop.Of cfg Φ args d h := .stable args d hop
    exact runHopExecutor_triple (keeps_quiet hchosen) (fun _ _ he _ => left_of_exits hd.1 he)
      (fun _ => keeps_quiet hchosen) (fun _ _ _ he _ => left_of_exits hd.1 he)
      (fun _ _ _ hh => ⟨hd.1, hd.2 ▸ declares_of_hopPlan hh.plan⟩)
      (fun _ _ _ _ _ _ _ _ => trivial) (fun _ _ _ _ _ _ _ _ => trivial)
      (fun _ hwork _ _ hh => ⟨⟨hdriven, hwork⟩, hh⟩)
      (fun _ _ hexecutor hparsed _ hconfig _ => (execute_returns hchosen hd.1.1
        (fun _ hh => .hop hh hexecutor hparsed hconfig) fun _ _ hh _ => hh).mono
          (Settled.mono (fun _ _ => And.right) fun _ _ => id))
      fun _ _ _ hwork _ _ hh => ⟨⟨hdriven, hwork⟩, hh⟩
  commitHop args d hop work _ := .assume fun ⟨hdriven, hwork⟩ => by
    have hd := hdriven.held
    have hchosen : Stable fun h => hop.Of cfg Φ args d h := .stable args d hop
    refine commitHop_triple (C := fun saved _ => Held K args.definition saved) (judged_kept hchosen)
      (fun _ _ _ => trivial) (fun _ => keeps_quiet (.const _)) (fun next note => ?_)
      (fun saved => evidence_returns (.const (Held K args.definition saved)))
      (fun saved => .known fun hsaved => runOnEnter_keeps (.const True) hsaved)
      fun _ _ _ hentered => ⟨hdriven.budget, hentered.1⟩
    have hready : Stable fun h => hop.Commits d (fun guard inst pass => Judged guard inst hop.arguments pass h) work
        next ∧ hop.Of cfg Φ args d h :=
      judged_and hchosen (F := fun v => hop.Commits d (fun guard inst => v guard inst hop.arguments) work next)
        fun hv hnext => hnext.mono fun _ _ => hv _ _ _
    have hcommit : ∀ h, (hop.Commits d (fun guard inst pass => Judged guard inst hop.arguments pass h) work next ∧
        hop.Of cfg Φ args d h) → Commit cfg Φ h (hop.firing d) next :=
      fun _ hh => .hop hd.2 hh.2 hwork hh.1 hdriven.below
    intro h hh
    refine (commit_triple hready hd.1.1 hwork.version hd.1.2 hh.2.site.2 hcommit).conseq (fun _ => id)
      (fun saved h hh => ?_) (fun _ _ _ => trivial) h hh
    obtain ⟨⟨rfl, hsaved⟩, hh⟩ := hh
    exact hd.2 ▸ (hcommit h hh).held hd.1.2 hsaved

end Commits

end Praxec
