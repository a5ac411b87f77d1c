import Praxec.Runtime.Lineage
import Praxec.Runtime.Trail

namespace Praxec

open Json Effect Prog Monitor Trail Gateway Trail StatusHint

variable {cfg : RuntimeConfig}

def StatusHint.Parks (hint : StatusHint) : Prop :=
  hint = .waitingOnLock ∨ hint = .waitingOnSubworkflow ∨ hint = .waitingOnAgentAwait

def SaveKind.Parks : SaveKind → Prop
  | .lockWait .. | .subworkflowWait _ | .agentAwait _ => True
  | _ => False

variable {e : Event Sig}

def LoadsAs (inst : WorkflowInstance) (e : Event Sig) : Prop :=
  ∃ id, e = .op (.storeLoad id) (.ok inst)

def SavesAs (φ : SaveKind → Prop) (inst : WorkflowInstance) (e : Event Sig) : Prop :=
  ∃ kind next v, φ kind ∧ e = .op (.storeSave kind next v) (.ok inst)

def CreatesAs (inst : WorkflowInstance) (e : Event Sig) : Prop :=
  ∃ fresh, e = .op (.storeCreate fresh) (.ok inst)

def SelectsNext (e : Event Sig) : Prop :=
  ∃ site request r, e = .op (.executeEnd site request) (.ok r) ∧ r.nextTransition.isSome

def Exhausts (e : Event Sig) : Prop :=
  ∃ site request err, e = .op (.executeEnd site request) (.error err) ∧ isAgentExhaustion err.message = true

/-- A drive whose outcome is not what is stored when it has been reported: it shows merged output that was
never saved, or the run is cancelled on it. -/
def Misreports (e : Event Sig) : Prop :=
  (∃ outcome, Drove outcome e ∧ outcome.shown = none) ∨
    ∃ result error errorClass t, Drove (.failed result error errorClass t) e ∧ isAgentExhaustion error = true

def Fails : Event Sig → Prop
  | .op (.storeLoad _) (.error _) | .op (.storeSave ..) (.error _) | .op (.auditRecord _) (.error _) => True
  | _ => False

def StoreFails : Event Sig → Prop
  | .op (.storeLoad _) (.error _) | .op (.storeSave ..) (.error _) => True
  | _ => False

def CancelsAs (id : String) (e : Event Sig) : Prop :=
  ∃ inst, (LoadsAs inst e ∨ SavesAs (fun _ => True) inst e) ∧ inst.id = id ∧ inst.cancelledAt.isSome

def Quarantines (id : String) (e : Event Sig) : Prop :=
  ∃ result reason, Drove (.quarantined result reason) e ∧ result.inst.id = id

theorem Fails.aside (he : Fails e) : Aside e := by
  cases e with
  | op o r =>
    cases o with
    | storeSave kind next v =>
      cases r with
      | ok _ => exact he.elim
      | error _ => trivial
    | storeCreate inst => exact he.elim
    | _ => trivial
  | call p r | timeout p r => exact he.elim

variable {g : Trail}

namespace Trail

def Uncommitted (g : Trail) : Prop :=
  ¬ g.Has Advances

/-- A request that failed after a commit or a drive, a drive that failed, or a commit into a state that runs an
executor on entry. -/
def Faulted (g : Trail) : Prop :=
  (∃ before e after, g.2 = before ++ e :: after ∧ (∃ x ∈ before, Advances x) ∧ Fails e) ∨ g.Has DriveFails ∨
    ∃ saved, g.Has (SavesAs (fun kind => ∃ f, kind = .transition f) saved) ∧ OnEnters saved.definition saved

def Excused (g : Trail) : Prop :=
  (g.Uncommitted ∨ g.Has SelectsNext) ∨ g.Faulted

/-- Reasons why a reply may show something else than what is stored: an exhausted agent's run is cancelled behind
the reply, a drive reported output it never saved, or the run was bound as its own parent. -/
def Unshown (cfg : RuntimeConfig) (g : Trail) : Prop :=
  (g.Has Exhausts ∨ ∃ kind, cfg.registered kind = false ∧ isAgentExhaustion (ExecutorError.permanent (unregistered kind)).message = true) ∨
    g.Has Misreports ∨ ∃ created bound, g.Has (CreatesAs created) ∧
      g.Has (SavesAs (fun kind => ∃ parent, kind = .spawnBinding parent) bound) ∧ bound.id = created.id

def Shows (cfg : RuntimeConfig) (g : Trail) (inst : WorkflowInstance) : Prop :=
  g.Current inst ∨ g.Unshown cfg

def Unquarantined (g : Trail) : Prop :=
  ∀ id, ¬ g.Has (Quarantines id)

def Broken (g : Trail) : Prop :=
  ∃ (before : Trail) (e : Event Sig), g = before.snoc e ∧ StoreFails e

def Quenched (g : Trail) : Prop :=
  ∀ id, g.Has (Quarantines id) → g.Has (CancelsAs id) ∨
    ∃ before e after, g.2 = before ++ e :: after ∧ (∃ x ∈ before, Quarantines id x) ∧ StoreFails e

theorem Unmoved.uncommitted : Unmoved Uncommitted := by
  intro g e he hg h
  exact (has_snoc.mp h).elim hg he

theorem Unshown.snoc (h : g.Unshown cfg) (e : Event Sig) : (g.snoc e).Unshown cfg := by
  rcases h with (h | h) | h | ⟨created, bound, hc, hb, hid⟩
  · exact .inl (.inl (h.snoc e))
  · exact .inl (.inr h)
  · exact .inr (.inl (h.snoc e))
  · exact .inr (.inr ⟨created, bound, hc.snoc e, hb.snoc e, hid⟩)

theorem Steady.shows (i : WorkflowInstance) : Steady fun g => g.Shows cfg i :=
  fun g e he => Or.imp (Steady.current i g e he) fun h => h.snoc e

theorem Unquarantined.snoc (hg : g.Unquarantined) (he : ∀ outcome, ¬ Drove outcome e) : (g.snoc e).Unquarantined := by
  intro id h
  rcases has_snoc.mp h with hold | ⟨_, _, hdrove, -⟩
  · exact hg id hold
  · exact he _ hdrove

theorem Undriven.unquarantined : Undriven Unquarantined :=
  fun _ _ he hg => hg.snoc fun _ hdrove => he hdrove.drives

theorem Unquarantined.quenched (h : g.Unquarantined) : g.Quenched :=
  fun id hid => absurd hid (h id)

theorem Broken.quenched (h : g.Broken) : g.Quenched := by
  obtain ⟨before, e, rfl, hfails⟩ := h
  intro id hid
  rcases has_snoc.mp hid with hold | ⟨_, _, hdrove, -⟩
  · exact .inr ⟨before.2, e, [], rfl, hold, hfails⟩
  · cases hdrove <;> exact hfails.elim

theorem excused_of_fails (g : Trail) (he : Fails e) : (g.snoc e).Excused := by
  by_cases hadvanced : g.Has Advances
  · exact .inr (.inl ⟨g.2, e, [], rfl, hadvanced, he⟩)
  · exact .inl (.inl (Unmoved.uncommitted g e he.aside.not_advances hadvanced))

end Trail

def CallsDrive (cfg : RuntimeConfig) (g : Trail) : Event Sig → Prop
  | .call (.runDeterministicChain args) _ | .timeout (.runDeterministicChain args) _ =>
      (∀ args', g.1 ≠ .runDeterministicChain args') ∧ g.Shows cfg args.inst
  | _ => True

namespace Replies

abbrev mon (cfg : RuntimeConfig) : Monitor Sig Trail :=
  .tracing Echoes (CallsDrive cfg)

variable {P : Trail → Prop}

theorem callsDrive_of_not_drives (he : ¬ Drives e) : CallsDrive cfg g e := by
  cases e with
  | op o r => trivial
  | call p r | timeout p r =>
    cases p with
    | runDeterministicChain args => exact absurd trivial he
    | _ => trivial

variable {id : String} {kind : SaveKind} {next : WorkflowInstance} {v : Nat}

section

variable (hP : Steady P)

include hP

theorem keeps_aside (he : Aside e) : (mon cfg).Keeps P e :=
  fun g hg _ => ⟨callsDrive_of_not_drives (mt Drives.advances he.not_advances), hP g e he hg⟩

theorem keeps_quiet (e : Event Sig) (he : Quiet e) : (mon cfg).Keeps P e :=
  keeps_aside hP he.calm.aside

theorem aside_returns (hx : x.Uses Aside) : (mon cfg).Returns P x fun _ => P :=
  .of_uses (hx.mono fun _ => keeps_aside hP)

theorem calm_returns {α : Type} {x : Run α} (hx : x.Uses Calm) : (mon cfg).Returns P x fun _ => P :=
  aside_returns hP (hx.mono fun _ => Calm.aside)

theorem audit_triple : (mon cfg).Triple P (auditRecord event) (fun _ => P) fun _ g => g.Excused ∧ P g := by
  refine Returns.perform fun g r hg _ => ⟨trivial, ?_⟩
  cases r with
  | ok _ => exact hP g _ trivial hg
  | error e => exact ⟨g.excused_of_fails trivial, hP g _ trivial hg⟩

theorem load_triple : (mon cfg).Triple P (load id)
    (fun inst g => (inst.id = id ∧ g.Has (LoadsAs inst) ∧ g.Current inst) ∧ P g)
    fun _ g => (g.Excused ∧ g.Broken) ∧ P g := by
  refine Returns.perform fun g r hg ha => ⟨trivial, ?_⟩
  cases r with
  | ok inst =>
    refine ⟨⟨ha, has_last ⟨id, rfl⟩, ?_⟩, hP g _ trivial hg⟩
    rw [show (mon cfg).next g _ = g.snoc _ from rfl, Trail.current_snoc]
    exact .inl rfl
  | error e => exact ⟨⟨g.excused_of_fails trivial, g, _, rfl, trivial⟩, hP g _ trivial hg⟩

theorem save_triple {R : Trail → Prop} (hR : ∀ g saved, P g → R (g.snoc (.op (.storeSave kind next v) (.ok saved)))) :
    (mon cfg).Triple P (saveIfVersion kind next v)
      (fun saved g => (saved = next ∧ (∀ φ : SaveKind → Prop, φ kind → g.Has (SavesAs φ saved)) ∧ g.Current saved) ∧ R g)
      fun _ g => (g.Excused ∧ g.Broken) ∧ P g := by
  refine Returns.perform fun g r hg ha => ⟨trivial, ?_⟩
  cases r with
  | ok saved =>
    refine ⟨⟨ha, fun φ hφ => has_last ⟨kind, next, v, hφ, rfl⟩, ?_⟩, hR g saved hg⟩
    rw [show (mon cfg).next g _ = g.snoc _ from rfl, Trail.current_snoc]
    exact .inl rfl
  | error e => exact ⟨⟨g.excused_of_fails trivial, g, _, rfl, trivial⟩, hP g _ trivial hg⟩

end

variable {reason : String}

theorem cancel_triple (hP : Unmoved P) : (mon cfg).Triple P (cancel cfg id reason)
    (fun _ g => g.Has (CancelsAs id) ∧ P g) fun _ g => (g.Excused ∧ g.Broken) ∧ P g := by
  have hrest {x : Run Unit} (hx : x.Uses Calm) : (mon cfg).Triple (fun g => g.Has (CancelsAs id) ∧ P g)
      (liftM x : Fallible Unit) (fun _ g => g.Has (CancelsAs id) ∧ P g)
      fun _ g => (g.Excused ∧ g.Broken) ∧ P g :=
    .lift (calm_returns ((Undriven.has _).unmoved.and hP).steady hx)
  refine (load_triple hP.steady).bind fun inst => ?_
  split
  · rename_i hcancelled
    refine .pure fun g ⟨⟨hid, ⟨e, he, hloads⟩, _⟩, hg⟩ => ⟨⟨e, he, inst, .inl hloads, hid, hcancelled⟩, hg⟩
  refine Triple.pre (.assume fun hid => ?_) fun g hg => ⟨hg.1.1, hg.2⟩
  refine (Triple.lift (calm_returns hP.steady now_uses)).bind fun time =>
    (save_triple hP.steady (R := P) fun g _ => hP g _ (by exact not_false)).bind fun saved =>
    .pre ((hrest recordOrSelfEvent_uses).bind fun _ =>
      (hrest releaseRunLeases_uses).bind fun _ => hrest resumeParentIfAny_uses) fun g ⟨⟨hsaved, hsaves, _⟩, hg⟩ => ?_
  obtain ⟨e, he, hsavesAs⟩ := hsaves (fun _ => True) trivial
  exact ⟨⟨e, he, saved, .inr hsavesAs, by rw [hsaved]; exact hid, by rw [hsaved]; rfl⟩, hg⟩

theorem cancelIgnored_returns (hP : Unmoved P) : (mon cfg).Returns P (cancelIgnored cfg id reason) fun _ => P :=
  (cancel_triple hP).run.bind fun r => .pure fun _ hr => by cases r <;> exact hr.2

structure Idle (g : Trail) : Prop where
  proc : ∀ args, g.1 ≠ .runDeterministicChain args
  uncommitted : g.Uncommitted ∨ g.Has SelectsNext
  unquarantined : g.Unquarantined

theorem Idle.unmoved : Unmoved Idle := fun g e he hg =>
  ⟨hg.proc, (Unmoved.uncommitted.or (Undriven.has _).unmoved) g e he hg.uncommitted,
    Undriven.unquarantined.unmoved g e he hg.unquarantined⟩

theorem Idle.excused (hg : Idle g) : g.Excused :=
  .inl hg.uncommitted

structure Seen (cfg : RuntimeConfig) (inst : WorkflowInstance) (g : Trail) : Prop where
  idle : Idle g
  loaded : g.Has (LoadsAs inst)
  shows : g.Shows cfg inst

structure Created (cfg : RuntimeConfig) (inst : WorkflowInstance) (g : Trail) : Prop where
  idle : Idle g
  creates : g.Has (CreatesAs inst)
  shows : g.Shows cfg inst

structure Going (next : Option NextTransition) (g : Trail) : Prop where
  proc : ∀ args, g.1 ≠ .runDeterministicChain args
  selects : next.isSome → g.Has SelectsNext
  unquarantined : g.Unquarantined

theorem Going.undriven (next : Option NextTransition) : Undriven (Going next) := fun g e he hg =>
  ⟨hg.proc, fun h => (hg.selects h).snoc e, Undriven.unquarantined g e he hg.unquarantined⟩

structure Stored (cfg : RuntimeConfig) (next : Option NextTransition) (inst : WorkflowInstance) (g : Trail) : Prop
    extends Going next g where
  shows : g.Shows cfg inst

theorem Seen.steady (inst : WorkflowInstance) : Steady (Seen cfg inst) := fun g e he hg =>
  ⟨Idle.unmoved.steady g e he hg.idle, hg.loaded.snoc e, Steady.shows inst g e he hg.shows⟩

theorem Created.steady (inst : WorkflowInstance) : Steady (Created cfg inst) := fun g e he hg =>
  ⟨Idle.unmoved.steady g e he hg.idle, hg.creates.snoc e, Steady.shows inst g e he hg.shows⟩

theorem Stored.steady (next : Option NextTransition) (inst : WorkflowInstance) :
    Steady (Stored cfg next inst) := fun g e he hg =>
  ⟨(Going.undriven next).steady g e he hg.toGoing, Steady.shows inst g e he hg.shows⟩

structure Replied (cfg : RuntimeConfig) (r : Response) (g : Trail) : Prop where
  shows : g.Shows cfg r.workflow
  refused : (r.hint = .rejected ∨ ∃ message detail, r.error = some ⟨"EXECUTOR_FAILED", message, detail⟩) →
    g.Uncommitted ∨ g.Has SelectsNext
  capped : ∀ message detail, r.error = some ⟨"TRANSITION_FIRE_CAP_EXCEEDED", message, detail⟩ →
    g.Has (LoadsAs r.workflow) ∧ ∃ t, detail = [("attemptedTransition", .string t)] ∧ AtCap r.workflow t
  parked : r.hint.Parks → g.Has (SavesAs SaveKind.Parks r.workflow)
  quenched : g.Quenched

def Ended (cfg : RuntimeConfig) : Exit Err Response → Trail → Prop
  | .fail _, g => g.Excused ∧ g.Quenched
  | .reply r, g => Replied cfg r g

theorem Idle.fails (hg : Idle g) : g.Excused ∧ g.Quenched :=
  ⟨hg.excused, hg.unquarantined.quenched⟩

variable {inst : WorkflowInstance}

theorem Seen.refuses {request : SubmitTransition} {e : Exit Err Response}
    (hg : Seen cfg inst g) (he : Refusal inst request e) : Ended cfg e g := by
  cases e with
  | fail e => exact hg.idle.fails
  | reply r =>
    obtain ⟨code, message, hr, hcap⟩ := he
    refine ⟨hr.workflow ▸ hg.shows, fun _ => hg.idle.uncommitted, fun message' detail h => ?_, fun h => ?_,
      hg.idle.unquarantined.quenched⟩
    · rw [hr.error] at h
      cases h
      rw [hr.workflow]
      exact ⟨hg.loaded, request.transition, rfl, hcap rfl⟩
    · rw [hr.hint] at h
      rcases h with h | h | h <;> cases h

variable {hint : StatusHint} {error : Option ResponseError}

theorem Replied.plain (hr : r.Shows inst hint error) (hshows : g.Shows cfg inst) (hquenched : g.Quenched)
    (hhint : hint ≠ .rejected) (hparks : ¬ hint.Parks) (hcode : ∀ e, error = some e →
    e.code ≠ "EXECUTOR_FAILED" ∧ e.code ≠ "TRANSITION_FIRE_CAP_EXCEEDED") : Replied cfg r g where
  shows := hr.workflow ▸ hshows
  refused h := by
    rcases h with h | ⟨message, detail, h⟩
    · exact absurd (hr.hint ▸ h) hhint
    · exact absurd rfl (hcode _ (hr.error ▸ h)).1
  capped message detail h := absurd rfl (hcode _ (hr.error ▸ h)).2
  parked h := absurd (hr.hint ▸ h) hparks
  quenched := hquenched

structure Parked (inst : WorkflowInstance) (g : Trail) : Prop where
  saved : g.Has (SavesAs SaveKind.Parks inst)
  current : g.Current inst
  unquarantined : g.Unquarantined

theorem Parked.steady (inst : WorkflowInstance) : Steady (Parked inst) := fun g e he hg =>
  ⟨hg.saved.snoc e, Steady.current inst g e he hg.current,
    Undriven.unquarantined.steady g e he hg.unquarantined⟩

section

variable {definition : Value} {i saved : WorkflowInstance} {t : String} {v : Nat} {p : Principal}

theorem park_triple (hkind : kind.Parks) :
    (mon cfg).Triple Unquarantined (saveIfVersion kind next v) Parked fun e => Ended cfg (.fail e) :=
  (save_triple Undriven.unquarantined.steady fun g _ => Undriven.unquarantined g _ not_false).conseq
    (fun _ => id) (fun _ _ hg => ⟨hg.1.2.1 _ hkind, hg.1.2.2, hg.2⟩) fun _ _ hg => ⟨hg.1.1, hg.2.quenched⟩

theorem parked_calm {x : Run Unit} (hx : x.Uses Calm) : (mon cfg).Triple (Parked saved)
    (liftM x : Fallible Unit) (fun _ => Parked saved) fun e => Ended cfg (.fail e) :=
  .lift (calm_returns (Parked.steady saved) hx)

theorem parked_replies (hhint : hint.Parks) :
    (mon cfg).Triple (Parked saved) (liftM (response definition saved p cfg hint none) : Fallible Response)
      (fun r => Ended cfg (.reply r)) fun e => Ended cfg (.fail e) := by
  refine .lift ((response_shows (keeps_quiet (Parked.steady saved))).mono fun r g ⟨hr, hg⟩ => ?_)
  refine ⟨.inl (hr.workflow ▸ hg.current), fun h => ?_, fun message detail h => ?_, fun _ => hr.workflow ▸ hg.saved,
    hg.unquarantined.quenched⟩
  · rcases h with h | ⟨_, _, h⟩
    · rw [hr.hint] at h
      subst h
      rcases hhint with h | h | h <;> cases h
    · cases hr.error.symm.trans h
  · cases hr.error.symm.trans h

theorem parkOnLock_triple {files : List Path} {conflict : LockConflict} :
    (mon cfg).Triple Unquarantined (parkOnLock cfg definition i t v p files conflict)
      (fun r => Ended cfg (.reply r)) fun e => Ended cfg (.fail e) :=
  (park_triple (by trivial)).bind fun _ => (Triple.onlyIf fun _ => parked_calm (.perform fun _ => rfl)).bind fun _ =>
    (parked_calm recordIgnored_uses).bind fun _ => parked_replies (.inl rfl)

theorem suspendStep_triple {suspend : StepSuspend} :
    (mon cfg).Triple Unquarantined (suspendStep cfg definition i t v p suspend)
      (fun r => Ended cfg (.reply r)) fun e => Ended cfg (.fail e) := by
  cases suspend with
  | subworkflow child =>
    exact (park_triple (by trivial)).bind fun _ =>
      (parked_calm recordIgnored_uses).bind fun _ => parked_replies (.inr (.inl rfl))
  | agentAwait correlationId prompt =>
    exact (park_triple (by trivial)).bind fun _ =>
      (parked_calm recordIgnored_uses).bind fun _ => parked_replies (.inr (.inr rfl))

end

section

variable {inst : WorkflowInstance} {request : ExecuteRequest}

def Failed (cfg : RuntimeConfig) (P : Trail → Prop) (err : ExecutorError) (g : Trail) : Prop :=
  (isAgentExhaustion err.message = true → g.Unshown cfg) ∧ P g

def Received (P : Trail → Prop) (r : ExecuteResult) (g : Trail) : Prop :=
  (r.nextTransition.isSome → g.Has SelectsNext) ∧ P g

variable (hP : Steady P)

include hP

theorem Failed.steady (err : ExecutorError) : Steady (Failed cfg P err) :=
  fun g e he hg => ⟨fun h => (hg.1 h).snoc e, hP g e he hg.2⟩

theorem Received.steady (r : ExecuteResult) : Steady (Received P r) :=
  fun g e he hg => ⟨fun h => (hg.1 h).snoc e, hP g e he hg.2⟩

theorem execute_returns : (mon cfg).Returns P (execute site request) (Settled (Failed cfg P) (Received P)) := by
  refine (aside_returns hP (x := Prog.perform (S := Sig) (.executeBegin site request)) (.perform fun _ => trivial)).bind
    fun _ => .perform fun g r hg _ => ⟨trivial, ?_⟩
  cases r with
  | ok r => exact ⟨fun h => has_last ⟨site, request, r, rfl, h⟩, hP g _ trivial hg⟩
  | error err => exact ⟨fun h => .inl (.inl (has_last ⟨site, request, err, rfl, h⟩)), hP g _ trivial hg⟩

theorem trials : Trials (mon cfg) cfg.registered P (Failed cfg P) (Received P) where
  quiet := keeps_quiet hP
  failed_quiet err := keeps_quiet (Failed.steady hP err)
  executed_quiet r := keeps_quiet (Received.steady hP r)
  again _ _ := And.right
  none _ hg := ⟨fun h => absurd h (by decide), hg⟩
  refused kind hkind _ hg := ⟨fun h => .inl (.inr ⟨kind, hkind, h⟩), hg⟩

theorem bracket : Bracket (mon cfg) cfg inst declared P (fun _ => P) (fun _ => Failed cfg P)
    (Failed cfg P) (fun _ => Received P) (Received P) where
  quiet := keeps_quiet hP
  trials _ := trials hP
  settled_quiet r := keeps_quiet (Received.steady hP r)
  acquire := acquireOwnedFiles_returns (fun _ => id) (fun _ => keeps_quiet hP) (.perform fun g r hg _ =>
    ⟨trivial, by cases r <;> exact hP g _ trivial hg⟩)
  release _ r := calm_returns (Received.steady hP r) (releaseLease_uses.mono fun _ => Handback.calm)
  abandon _ err := calm_returns (Failed.steady hP err) (releaseLease_uses.mono fun _ => Handback.calm)

theorem evidence_returns : (mon cfg).Returns P (recordEvidence cfg id evs) fun _ => P :=
  aside_returns hP (recordEvidence_uses fun _ _ _ => trivial)

end

def Holding (cfg : RuntimeConfig) (inst : WorkflowInstance) (g : Trail) : Prop :=
  Idle g ∧ g.Shows cfg inst

theorem Holding.steady (inst : WorkflowInstance) : Steady (Holding cfg inst) :=
  Idle.unmoved.steady.and (Steady.shows inst)

section

variable {a : Admitted} {arguments : Value}

theorem persistSlotUpdates_triple {updates : Option Value} :
    (mon cfg).Triple (Seen cfg a.inst) (persistSlotUpdates cfg a arguments updates)
      (fun out => Holding cfg out.1) (Ended cfg) := by
  have hsame : (mon cfg).Triple (Seen cfg a.inst) (pure (a.inst, true) : DispatchStage (WorkflowInstance × Bool))
      (fun out => Holding cfg out.1) (Ended cfg) := .pure fun _ hg => ⟨hg.idle, hg.shows⟩
  cases updates with
  | none => exact .pure fun _ hg => ⟨hg.idle, hg.shows⟩
  | some updates =>
    unfold persistSlotUpdates
    dsimp only
    split
    · exact hsame
    refine (Triple.lift (save_triple (Seen.steady a.inst)
      fun g _ hg => Idle.unmoved g _ (by exact not_false) hg.idle).run).bind fun saved => ?_
    cases saved with
    | ok saved => exact .pure fun _ hg => ⟨hg.2, .inl hg.1.2.2⟩
    | error e =>
      refine Triple.pre ?_ fun _ => And.right
      dsimp only
      split
      · exact reject_triple (keeps_quiet (Seen.steady a.inst)) (fun _ _ he hg => hg.refuses he) (by simp)
      · exact hsame

theorem consumeDeadSubworkflowWait_returns {i : WorkflowInstance} {t : String} :
    (mon cfg).Returns (Holding cfg i) (consumeDeadSubworkflowWait i t) (Holding cfg) := by
  have hsame : (mon cfg).Returns (Holding cfg i) (Pure.pure i : Run WorkflowInstance) (Holding cfg) := .pure fun _ => id
  unfold consumeDeadSubworkflowWait
  split
  · exact hsame
  split
  · exact hsame
  split
  · exact hsame
  refine (load_triple (Holding.steady i)).run.bind fun loaded => ?_
  cases loaded with
  | error _ => exact hsame.conseq (fun _ => And.right) fun _ _ => id
  | ok child =>
    refine Returns.conseq ?_ (fun _ => And.right) fun _ _ => id
    dsimp only
    split
    · exact hsame
    refine (save_triple (Holding.steady i) fun g _ hg => Idle.unmoved g _ (by exact not_false) hg.1).run.bind fun saved => ?_
    cases saved with
    | error _ => exact hsame.conseq (fun _ => And.right) fun _ _ => id
    | ok saved =>
      refine Returns.conseq ?_ (P := Holding cfg saved) (fun g hg => ⟨hg.2, .inl hg.1.2.2⟩) fun _ _ => id
      exact (calm_returns (Holding.steady saved) recordOrSelfEvent_uses).bind fun _ => .pure fun _ => id

theorem failSubmit_ended :
    (mon cfg).Triple (Failed cfg (Seen cfg a.inst) err) (failSubmit cfg a arguments err) Q (Ended cfg) := by
  have hframe : ∀ (g : Trail) e, (isAgentExhaustion err.message → g.Unshown cfg) →
      isAgentExhaustion err.message → (g.snoc e).Unshown cfg :=
    fun g e hg h => (hg h).snoc e
  refine (Triple.frame hframe persistSlotUpdates_triple).bind fun out =>
    Triple.bind (Q := fun effective => Failed cfg (Holding cfg effective) err) ?_ fun effective => ?_
  · exact Triple.frame (m := mon cfg) hframe (Triple.lift consumeDeadSubworkflowWait_returns)
  have hheld : Steady (Failed cfg (Holding cfg effective) err) := Failed.steady (Holding.steady effective) err
  refine (Triple.attempt ((audit_triple hheld).failing
    fun e _ hg => hg.2.2.1.fails)).bind fun _ => (Triple.onlyIf fun hexhausted => ?_).bind fun _ =>
    replyWith_triple (response_shows (keeps_quiet hheld)) fun r g ⟨hr, hg⟩ => ?_
  · refine Triple.lift (Returns.conseq (cancelIgnored_returns (Idle.unmoved.and (Q := Unshown cfg)
      fun _ e _ h => h.snoc e)) (fun g hg => ⟨hg.2.1, hg.1 hexhausted⟩) fun _ g hg => ?_)
    exact ⟨fun _ => hg.2, hg.1, .inr hg.2⟩
  · refine ⟨hr.workflow ▸ hg.2.2, fun _ => hg.2.1.uncommitted, fun _ _ h => ?_, fun h => ?_,
      hg.2.1.unquarantined.quenched⟩
    · have hcode := hr.error.symm.trans h
      simp at hcode
    · rw [hr.hint] at h
      rcases h with h | h | h <;> cases h

end

variable {definition arguments : Value}

section

variable {next : WorkflowInstance} {v : Nat}

theorem emit_triple (hP : Steady P) :
    (mon cfg).Triple P (emitTransitionRecord f next params) (fun _ => P) fun _ => P :=
  .of_uses (emitTransitionRecord_uses fun _ => keeps_aside hP trivial) fun _ _ => id

theorem commit_triple (hP : Steady P) {R : Trail → Prop} {note : CommitNote}
    (hR : ∀ g saved, P g → R (g.snoc (.op (.storeSave (.transition f) next v) (.ok saved)))) :
    (mon cfg).Triple P (commitTransition f next note v)
      (fun saved g => (saved = next ∧ (∀ φ : SaveKind → Prop, φ (.transition f) → g.Has (SavesAs φ saved)) ∧
        g.Current saved) ∧ R g) fun _ => P :=
  (emit_triple hP).bind fun _ => (save_triple hP hR).failing fun _ _ => And.right

structure Worked (cfg : RuntimeConfig) (a : Admitted) (arguments : Value) (work : SubmitWork) (g : Trail) : Prop where
  of : work.Of cfg a arguments
  selects : work.nextTransition.isSome → g.Has SelectsNext
  seen : Seen cfg a.inst g

structure Landed (cfg : RuntimeConfig) (a : Admitted) (work : SubmitWork) (saved : WorkflowInstance) (g : Trail) :
    Prop where
  stored : Stored cfg work.nextTransition saved g
  commits : g.Has (SavesAs (fun kind => ∃ f, kind = .transition f) saved)
  definition : saved.definition = a.inst.definition

variable {a : Admitted} {arguments : Value} {work : SubmitWork}

theorem Worked.steady : Steady (Worked cfg a arguments work) := fun g e he hg =>
  ⟨hg.of, fun h => (hg.selects h).snoc e, Seen.steady _ g e he hg.seen⟩

theorem Landed.steady (saved : WorkflowInstance) : Steady (Landed cfg a work saved) := fun g e he hg =>
  ⟨Stored.steady _ _ g e he hg.stored, hg.commits.snoc e, hg.definition⟩

variable {next : Option NextTransition}

theorem Stored.fails (hg : g.Excused ∧ Stored cfg next inst g) (e : Err) : Ended cfg (.fail e) g :=
  ⟨hg.1, hg.2.unquarantined.quenched⟩

theorem save_stored
    (hP : Steady P) (hgoing : ∀ g, P g → Going next g) : (mon cfg).Triple P (saveIfVersion kind inst v)
      (Stored cfg next) fun e => Ended cfg (.fail e) :=
  (save_triple hP fun g _ hg => Going.undriven next g _ (by exact not_false) (hgoing g hg)).conseq (fun _ => id)
    (fun _ _ hg => ⟨hg.2, .inl hg.1.2.2⟩) fun _ g hg => ⟨hg.1.1, (hgoing g hg.2).unquarantined.quenched⟩

theorem commitOnEnter_stored (hP : Steady P) (hgoing : ∀ g, P g → Going next g) :
    (mon cfg).Triple P (commitOnEnter cfg inst mapping context evidence) (Stored cfg next)
    fun e => Ended cfg (.fail e) :=
  (Triple.lift (evidence_returns hP)).bind fun _ => save_stored hP hgoing

theorem runOnEnter_stored (hP : Steady P) (hstored : ∀ g, P g → Stored cfg next inst g)
    (hexcused : OnEnters definition inst → ∀ g, P g → g.Excused) :
    (mon cfg).Triple P (runOnEnter cfg definition inst c) (Stored cfg next) fun e => Ended cfg (.fail e) := by
  have hfails (hon : OnEnters definition inst) (g : Trail) (hg : P g) : g.Excused ∧ g.Quenched :=
    ⟨hexcused hon g hg, (hstored g hg).unquarantined.quenched⟩
  have hexec (config : Value) (key : Option String) : (mon cfg).Returns P
      (execute .onEnter ⟨inst, none, .emptyObject, config, key, some c⟩) (Settled (fun _ => P) fun _ => P) :=
    (execute_returns hP).mono (Settled.mono (fun _ _ => And.right) fun _ _ => And.right)
  exact runOnEnter_triple (keeps_quiet hP) hfails (fun _ => keeps_quiet hP) (fun hon _ => hfails hon) hstored hexec
    fun _ _ _ _ _ _ _ => commitOnEnter_stored hP fun g hg => (hstored g hg).toGoing

theorem commitSubmit_ended {guards : List (String × Bool)} {acceptance : Option AuditEvent} :
    (mon cfg).Triple (Worked cfg a arguments work) (commitSubmit cfg a arguments guards acceptance work)
      (Stored cfg work.nextTransition) (Ended cfg) := by
  refine commitSubmit_triple (C := Landed cfg a work) (J := Landed cfg a work)
    (.none (keeps_quiet Worked.steady)) (fun e _ hg => hg.seen.idle.fails) (fun next note => .assume fun hnext => ?_)
    (fun saved _ => (audit_triple (Landed.steady saved)).failing fun e _ hg => Stored.fails ⟨hg.1, hg.2.stored⟩ e)
    (fun saved => evidence_returns (Landed.steady saved)) (fun saved => ?_)
    fun entered _ => (audit_triple (Stored.steady _ entered)).failing fun e _ hg => Stored.fails hg e
  · have hafter (g : Trail) (saved : WorkflowInstance) (hg : Worked cfg a arguments work g) :
        work.Of cfg a arguments ∧ Going work.nextTransition (g.snoc
          (.op (.storeSave (.transition (a.firing arguments)) next a.request.expectedVersion) (.ok saved))) :=
      ⟨hg.of, Going.undriven _ g _ not_false ⟨hg.seen.idle.proc, hg.selects, hg.seen.idle.unquarantined⟩⟩
    refine (commit_triple Worked.steady (R := fun g => work.Of cfg a arguments ∧ Going work.nextTransition g)
      hafter).conseq (fun _ => id) (fun saved g ⟨⟨hsaved, hsaves, hcurrent⟩, hwork, hgoing⟩ => ?_)
      fun e _ hg => hg.seen.idle.fails
    exact ⟨⟨hgoing, .inl hcurrent⟩, hsaves _ ⟨_, rfl⟩, hsaved ▸ hnext.definition hwork⟩
  · exact runOnEnter_stored (Landed.steady saved) (fun _ hg => hg.stored) fun hon g hg =>
      .inr (.inr (.inr ⟨saved, hg.commits, hg.definition ▸ hon⟩))

theorem checkAndApplyTimeout_ended : (mon cfg).Triple (Seen cfg inst) (checkAndApplyTimeout definition inst principal)
    (fun out => out.elim (Seen cfg inst) (Stored cfg none)) fun e => Ended cfg (.fail e) :=
  checkAndApplyTimeout_triple (keeps_quiet (Seen.steady inst))
    (fun saved _ he => keeps_aside (Stored.steady none saved) he.aside) (fun _ _ _ => emit_triple (Seen.steady inst))
    fun _ _ => save_stored (Seen.steady inst) fun _ hg => ⟨hg.idle.proc, nofun, hg.idle.unquarantined⟩

end

section

variable {next : Option NextTransition} {args : ChainArgs} {outcome : ChainOutcome}

structure Driven (cfg : RuntimeConfig) (next : Option NextTransition) (outcome : ChainOutcome) (g : Trail) : Prop where
  proc : ∀ args, g.1 ≠ .runDeterministicChain args
  selects : next.isSome → g.Has SelectsNext
  shows : g.Shows cfg outcome.progress.inst
  exhausted : ∀ result error errorClass t, outcome = .failed result error errorClass t →
    isAgentExhaustion error = true → g.Unshown cfg
  quarantined : ∀ id, g.Has (Quarantines id) → ∃ result reason, outcome = .quarantined result reason ∧ result.inst.id = id

theorem Driven.steady : Steady (Driven cfg next outcome) := fun g e he hg =>
  ⟨hg.proc, fun h => (hg.selects h).snoc e, Steady.shows _ g e he hg.shows,
    fun result error errorClass t h hexhausted => (hg.exhausted result error errorClass t h hexhausted).snoc e,
    fun id h => (has_snoc.mp h).elim (hg.quarantined id)
      fun ⟨_, _, hdrove, _⟩ => absurd hdrove.drives.advances he.not_advances⟩

theorem Driven.unquarantined (hg : Driven cfg next outcome g)
    (ho : ∀ result reason, outcome ≠ .quarantined result reason) : g.Unquarantined := fun id h =>
  let ⟨result, reason, hquarantined, _⟩ := hg.quarantined id h
  ho result reason hquarantined

theorem Stored.drove (hg : Stored cfg next inst g) (he : Drove outcome e) : Driven cfg next outcome (g.snoc e) where
  proc := hg.proc
  selects h := (hg.selects h).snoc e
  shows := by
    cases hs : outcome.shown with
    | none => exact .inr (.inr (.inl (has_last (.inl ⟨outcome, he, hs⟩))))
    | some i => exact .inl (ChainOutcome.shown_progress hs ▸ current_drove he hs)
  exhausted result error errorClass t ho hexhausted :=
    .inr (.inl (has_last (.inr ⟨result, error, errorClass, t, ho ▸ he, hexhausted⟩)))
  quarantined id h := by
    rcases has_snoc.mp h with hold | ⟨result, reason, hdrove, hid⟩
    · exact absurd hold (hg.unquarantined id)
    · exact ⟨result, reason, he.unique hdrove, hid⟩

theorem Going.driveFails (hg : Going next g) (he : DriveFails e) : (g.snoc e).Excused ∧ (g.snoc e).Quenched :=
  ⟨.inr (.inr (.inl (has_last he))),
    (hg.unquarantined.snoc fun _ hdrove => by cases he <;> cases hdrove).quenched⟩

variable {result : ChainResult}

theorem Stored.spent
    (hg : Stored cfg next result.inst g) : Driven cfg next (.deadlineExceeded result reason wallMs deadlineMs) g :=
  ⟨hg.proc, hg.selects, hg.shows, fun _ _ _ _ h => (nomatch h), fun id h => absurd h (hg.unquarantined id)⟩

theorem deadline_driven : (mon cfg).Triple (Stored cfg next inst)
    (liftM (missionDeadlineExceededOutcome args ⟨inst, [], []⟩ wallMs deadlineMs) : Fallible ChainOutcome)
      (Driven cfg next) fun e => Ended cfg (.fail e) :=
  .lift ((quiet_returns (keeps_quiet (Stored.steady next inst)) recordOrSelfEvent_uses).bind fun _ =>
    .pure fun _ hg => Stored.spent hg)

theorem driveChain_driven (hinst : args.inst = inst) : (mon cfg).Triple
    (Stored cfg next inst) (driveChainWithDeadline cfg args) (Driven cfg next) fun e => Ended cfg (.fail e) := by
  subst hinst
  unfold driveChainWithDeadline
  dsimp only
  split
  · refine Returns.invoke fun g r hg _ => ⟨⟨hg.proc, hg.shows⟩, ?_⟩
    cases r with
    | ok outcome => exact hg.drove .call
    | error e => exact hg.toGoing.driveFails .call
  split
  · exact deadline_driven
  refine Triple.bind (Q := fun inner g => match inner with
    | some (.ok outcome) => Driven cfg next outcome g
    | some (.error e) => Ended cfg (.fail e) g
    | none => Going next g) (.lift fun g hg r _ => ⟨⟨hg.proc, hg.shows⟩, ?_⟩) fun inner => ?_
  · rcases r with _ | (e | outcome)
    · exact ⟨hg.proc, fun h => (hg.selects h).snoc _, hg.unquarantined.snoc fun _ h => by cases h⟩
    · exact hg.toGoing.driveFails .timeout
    · exact hg.drove .timeout
  · rcases inner with _ | (e | outcome)
    · exact ((load_triple (Going.undriven next).steady).failing
        fun _ _ hg => ⟨hg.1.1, hg.2.unquarantined.quenched⟩).bind fun reloaded =>
        deadline_driven.pre fun _ hg => ⟨hg.2, .inl hg.1.2.2⟩
    · exact Triple.throw (m := mon cfg) fun _ => id
    · exact Triple.pure (m := mon cfg) fun _ => id

variable {r : DriveReport}

theorem respond_shows (hP : Steady P) :
    (mon cfg).Returns P (r.respond cfg result hint error) fun resp g => resp.Shows result.inst hint error ∧ P g :=
  (response_shows (keeps_quiet hP)).bind fun _ => .pure fun _ hg => ⟨⟨hg.1.workflow, hg.1.hint, hg.1.error⟩, hg.2⟩

def QuarantinesOnly (id : String) (g : Trail) : Prop :=
  ∀ other, g.Has (Quarantines other) → other = id

theorem QuarantinesOnly.undriven (id : String) : Undriven (QuarantinesOnly id) := fun _ _ he hg other h =>
  (has_snoc.mp h).elim (hg other) fun ⟨_, _, hdrove, _⟩ => absurd hdrove.drives he

theorem cancelled_replies (hcode : code ≠ "EXECUTOR_FAILED" ∧ code ≠ "TRANSITION_FIRE_CAP_EXCEEDED") :
    (mon cfg).Triple (QuarantinesOnly result.inst.id) (r.cancelled cfg result code reason detail) (Replied cfg)
    fun e => Ended cfg (.fail e) := by
  have honly := (QuarantinesOnly.undriven result.inst.id).unmoved
  have hboth := (Undriven.has (CancelsAs result.inst.id)).unmoved.and honly
  refine ((cancel_triple honly).failing fun _ _ hg =>
    ⟨hg.1.1, hg.1.2.quenched⟩).bind fun _ => ((load_triple hboth.steady).failing
    fun _ _ hg => ⟨hg.1.1, hg.1.2.quenched⟩).bind fun cancelled => ?_
  refine Triple.pre (P := fun g => g.Current cancelled ∧ g.Has (CancelsAs result.inst.id) ∧
    QuarantinesOnly result.inst.id g) ?_ fun g hg => ⟨hg.1.2.2, hg.2⟩
  refine (Triple.lift (response_shows (keeps_quiet ((Steady.current cancelled).and hboth.steady)))).bind
    fun response => .pure fun g ⟨hr, hcurrent, hcancels, honly⟩ => ?_
  exact Replied.plain ⟨hr.workflow, hr.hint, hr.error⟩ (.inl hcurrent) (fun id h => .inl (honly id h ▸ hcancels))
    (by simp) (by simp [Parks]) fun e he => by cases he; exact hcode

def Reported (cfg : RuntimeConfig) (next : Option NextTransition) (outcome : ChainOutcome) (resp : Response)
    (g : Trail) : Prop :=
  Replied cfg resp g ∧ (next.isSome → outcome.isCompleted = true → Idle g)

theorem Driven.fails (hg : g.Excused ∧ Driven cfg next outcome g)
    (ho : ∀ result reason, outcome ≠ .quarantined result reason) (e : Err) : Ended cfg (.fail e) g :=
  ⟨hg.1, (hg.2.unquarantined ho).quenched⟩

theorem Driven.plain (hg : Driven cfg next outcome g) (hr : resp.Shows outcome.progress.inst hint error)
    (hhint : hint = .started ∨ hint = .executed ∨ hint = .failed) (hcode : ∀ e, error = some e →
    e.code ≠ "EXECUTOR_FAILED" ∧ e.code ≠ "TRANSITION_FIRE_CAP_EXCEEDED")
    (ho : ∀ result reason, outcome ≠ .quarantined result reason) : Replied cfg resp g := by
  refine Replied.plain hr hg.shows (hg.unquarantined ho).quenched ?_ ?_ hcode
  · rcases hhint with rfl | rfl | rfl <;> simp
  · rcases hhint with rfl | rfl | rfl <;> simp [Parks]

theorem completed_reported (hhint : r.hint = .started ∨ r.hint = .executed) :
    (mon cfg).Triple (Driven cfg next (.completed result)) (r.settle cfg (.completed result))
      (Reported cfg next (.completed result)) fun e => Ended cfg (.fail e) := by
  have hsteady : Steady (Driven cfg next (.completed result)) := Driven.steady
  have hcalm {x : Run Unit} (hx : x.Uses Calm) : (mon cfg).Triple (Driven cfg next (.completed result))
      (liftM x : Fallible Unit) (fun _ => Driven cfg next (.completed result)) fun e => Ended cfg (.fail e) :=
    .lift (calm_returns hsteady hx)
  refine (Triple.onlyIf fun _ => (hcalm releaseRunLeases_uses).bind fun _ => ((audit_triple hsteady).conseq (fun _ => id)
    (fun _ _ => id) fun e _ hg => Driven.fails hg nofun e).bind fun _ =>
    (hcalm (calm_of_quiet emitOutcomeRecorded_quiet)).bind fun _ =>
    .onlyIf fun _ => hcalm resumeParentIfAny_uses).bind fun _ =>
    .lift ((respond_shows hsteady).mono fun resp g ⟨hr, hg⟩ => ⟨?_, fun hnext _ => ?_⟩)
  · exact hg.plain hr (hhint.imp_right .inl) nofun nofun
  · exact ⟨hg.proc, .inr (hg.selects hnext), hg.unquarantined nofun⟩

theorem failed_reported {error t : String} : (mon cfg).Triple (Driven cfg next (.failed result error errorClass t))
      (r.settle cfg (.failed result error errorClass t)) (Reported cfg next (.failed result error errorClass t))
      fun e => Ended cfg (.fail e) := by
  have hsteady : Steady (Driven cfg next (.failed result error errorClass t)) := Driven.steady
  have hlost : Unmoved fun g => g.Unshown cfg ∧ g.Unquarantined :=
    Unmoved.and (fun _ e _ h => h.snoc e) Undriven.unquarantined.unmoved
  refine (Triple.lift (calm_returns hsteady releaseRunLeases_uses)).bind fun _ =>
    (Triple.lift (respond_shows hsteady)).bind fun resp => .assume fun hr => ?_
  refine Triple.pre (P := fun g => (isAgentExhaustion error → g.Unshown cfg) ∧ g.Shows cfg result.inst ∧
    g.Unquarantined) ((Triple.onlyIf fun hexhausted => .lift ?_).bind fun _ => .pure fun g hg => ⟨?_, fun _ h => nomatch h⟩)
    fun g hg => ⟨hg.exhausted _ _ _ _ rfl, hg.shows, hg.unquarantined nofun⟩
  · exact (cancelIgnored_returns hlost).conseq (fun g hg => ⟨hg.1 hexhausted, hg.2.2⟩)
      fun _ g hg => ⟨fun _ => hg.1, .inr hg.1, hg.2⟩
  · exact Replied.plain hr hg.2.1 hg.2.2.quenched (by simp) (by simp [Parks])
      fun e he => by cases he; simp

theorem settle_reported (hhint : r.hint = .started ∨ r.hint = .executed) :
    (mon cfg).Triple (Driven cfg next outcome) (r.settle cfg outcome) (Reported cfg next outcome)
      fun e => Ended cfg (.fail e) := by
  cases outcome with
  | completed result => exact completed_reported hhint
  | failed result error errorClass t => exact failed_reported
  | waitingOnLock result transition files conflict =>
    exact parkOnLock_triple.conseq (fun _ hg => hg.unquarantined nofun) (fun _ _ hr => ⟨hr, fun _ h => nomatch h⟩)
      fun _ _ => id
  | suspended result suspend transition =>
    exact suspendStep_triple.conseq (fun _ hg => hg.unquarantined nofun) (fun _ _ hr => ⟨hr, fun _ h => nomatch h⟩)
      fun _ _ => id
  | quarantined result reason =>
    refine (cancelled_replies (by simp)).conseq (fun g hg other h => ?_) (fun _ _ hr => ⟨hr, fun _ h => nomatch h⟩)
      fun _ _ => id
    obtain ⟨_, _, ho, hid⟩ := hg.quarantined other h
    cases ho
    exact hid.symm
  | deadlineExceeded result reason elapsedMs deadlineMs =>
    exact (cancelled_replies (by simp)).conseq (fun g hg other h => absurd h (hg.unquarantined nofun other))
      (fun _ _ hr => ⟨hr, fun _ h => nomatch h⟩) fun _ _ => id
  | aborted result reason =>
    refine .lift ((respond_shows Driven.steady).mono fun resp g ⟨hr, hg⟩ => ⟨?_, fun _ h => nomatch h⟩)
    exact hg.plain hr (hhint.imp_right .inl) (fun e he => by cases he; simp) nofun

theorem driveAndSettle_replied (hhint : r.hint = .started ∨ r.hint = .executed) :
    (mon cfg).Triple (Stored cfg next inst) (driveAndSettle cfg r inst)
      (fun out g => Replied cfg out.1 g ∧ (next.isSome → out.2 → Idle g)) fun e => Ended cfg (.fail e) :=
  (driveChain_driven (by rfl)).bind fun _ => (settle_reported hhint).bind fun _ => .pure fun _ => id

end

theorem create_created : (mon cfg).Triple Idle
    (ExceptT.mk (Prog.perform (S := Sig) (.storeCreate inst)) : Fallible WorkflowInstance) (Created cfg)
    fun _ => Idle := by
  refine Returns.perform fun g r hg _ => ⟨trivial, ?_⟩
  cases r with
  | ok created =>
    refine ⟨Idle.unmoved g _ not_false hg, has_last ⟨inst, rfl⟩, .inl ?_⟩
    rw [show (mon cfg).next g _ = g.snoc _ from rfl, Trail.current_snoc]
    exact .inl rfl
  | error e => exact Idle.unmoved g _ not_false hg

theorem bindSpawn_created :
    (mon cfg).Returns (Created cfg inst) (bindSpawnIgnored link inst.id) fun _ => Created cfg inst := by
  refine Returns.bind (Q := fun _ => Created cfg inst) (Returns.mono (Triple.run (B := fun _ => Created cfg inst)
    (Q := fun _ => Created cfg inst) ?_) fun r _ hr => by cases r <;> exact hr) fun _ => .pure fun _ => id
  refine ((load_triple (Created.steady inst)).conseq (fun _ => id) (fun _ _ => And.right) fun _ _ => And.right).bind
    fun parent => Triple.bind (Q := fun _ => Created cfg inst) (Returns.perform fun g r hg ha => ⟨trivial, ?_⟩)
    fun _ => .pure fun _ => id
  cases r with
  | error e => exact Created.steady inst g _ trivial hg
  | ok saved =>
    refine ⟨Idle.unmoved g _ not_false hg.idle, hg.creates.snoc _, ?_⟩
    by_cases hself : saved.id = inst.id
    · exact .inr (.inr (.inr ⟨inst, saved, hg.creates.snoc _, has_last ⟨_, _, _, ⟨parent, rfl⟩, rfl⟩, hself⟩))
    · refine hg.shows.imp (fun hcurrent => ?_) fun h => h.snoc _
      rw [show (mon cfg).next g _ = g.snoc _ from rfl, Trail.current_snoc]
      exact .inr ⟨Ne.symm hself, hcurrent⟩

theorem runOnEnter_created : (mon cfg).Triple (Created cfg inst) (runOnEnter cfg definition inst c) (Stored cfg none)
      fun e => Ended cfg (.fail e) :=
  runOnEnter_stored (Created.steady inst) (fun _ hg => ⟨⟨hg.idle.proc, nofun, hg.idle.unquarantined⟩, hg.shows⟩)
    fun _ _ hg => hg.idle.excused

section

variable {args : ChainArgs} {d : Drive}

def At (args : ChainArgs) (inst : WorkflowInstance) (g : Trail) : Prop :=
  g.1 = .runDeterministicChain args ∧ g.Current inst

theorem At.steady (inst : WorkflowInstance) : Steady (At args inst) := fun g e he hg =>
  ⟨hg.1, Steady.current inst g e he hg.2⟩

def Left : Exit Err ChainOutcome → Trail → Prop
  | .fail _, _ => True
  | .reply outcome, g => ∀ i, outcome.shown = some i → g.Current i

theorem At.left {e : Exit Err ChainOutcome} (he : ∀ outcome, e = .reply outcome → outcome.progress = d.result)
    (hg : At args d.inst g) : Left e g := by
  cases e with
  | fail e => trivial
  | reply outcome =>
    intro i hi
    rw [← ChainOutcome.shown_progress hi, he outcome rfl]
    exact hg.2

theorem At.exits {e : Exit Err ChainOutcome} (he : d.Exits e) (hg : At args d.inst g) : Left e g := by
  refine hg.left fun outcome ho => ?_
  subst ho
  cases outcome <;> first | exact he | exact he.elim

theorem save_at : (mon cfg).Triple (At args inst) (saveIfVersion kind next v) (At args) fun e => Left (.fail e) :=
  (save_triple (At.steady inst) (R := fun g => g.1 = .runDeterministicChain args) fun _ _ => And.left).conseq
    (fun _ => id) (fun _ _ hg => ⟨hg.2, hg.1.2.2⟩) fun _ _ _ => trivial

theorem execute_at {site : ExecSite} {request : ExecuteRequest} :
    (mon cfg).Returns (At args inst) (execute site request) (Settled (fun _ => At args inst) fun _ => At args inst) :=
  (execute_returns (At.steady inst)).mono (Settled.mono (fun _ _ => And.right) fun _ _ => And.right)

theorem runOnEnter_at :
    (mon cfg).Triple (At args inst) (runOnEnter cfg definition inst c) (At args) fun e => Left (.fail e) :=
  runOnEnter_triple (B := fun _ => True) (keeps_quiet (At.steady inst)) (fun _ _ _ => trivial)
    (fun _ => keeps_quiet (At.steady inst)) (fun _ _ _ _ => trivial) (fun _ => id) (fun _ _ => execute_at)
    fun _ _ _ _ _ _ _ => (Triple.lift (evidence_returns (At.steady inst))).bind fun _ => save_at

theorem selectHop_at : (mon cfg).Triple (At args d.inst) (selectHop cfg args d)
    (fun hop => hop.elim (At args d.inst) fun _ => At args d.inst) Left := by
  have hquiet : ∀ e, Quiet e → (mon cfg).Keeps (At args d.inst) e := keeps_quiet (At.steady d.inst)
  refine selectHop_triple hquiet (fun _ _ => At.exits) (fun _ _ _ => .of_uses (selectDeterministicTransition_quiet.mono
    hquiet) fun _ _ => id) fun candidate _ => ?_
  exact autoDriveHop_triple (bracket (At.steady d.inst)) (fun _ _ => At.exits) (fun _ _ => And.right)
    (fun _ _ _ _ hg => hg.left fun _ ho => by cases ho; rfl) (fun _ _ _ _ _ => trivial)
    (fun _ _ _ _ _ _ _ _ => execute_returns (At.steady d.inst)) fun _ _ _ _ hg => hg.2

theorem runHopExecutor_at : (mon cfg).Triple (At args d.inst) (runHopExecutor cfg args d hop)
    (fun _ => At args d.inst) Left :=
  have hquiet := keeps_quiet (At.steady d.inst)
  runHopExecutor_triple hquiet (fun _ _ => At.exits) (fun _ => hquiet) (fun _ _ _ => At.exits)
    (fun _ _ _ hg => hg.left fun _ ho => by cases ho; rfl) (fun _ _ _ _ _ _ _ _ _ h => nomatch h)
    (fun _ _ _ _ _ _ _ _ _ h => nomatch h) (fun _ _ _ _ => id) (fun _ _ _ _ _ _ _ => execute_at) fun _ _ _ _ _ _ => id

theorem commitHop_at : (mon cfg).Triple (At args d.inst)
    (commitHop cfg args d hop work startedAt) (fun d' => At args d'.inst) Left :=
  commitHop_triple (C := At args) (J := At args) (E := At args) (.none (keeps_quiet (At.steady d.inst)))
    (fun _ _ _ => trivial) (fun saved => keeps_quiet (At.steady saved))
    (fun _ _ => .assume fun _ => ((emit_triple (At.steady d.inst)).failing fun _ _ _ => trivial).bind fun _ => save_at)
    (fun saved => evidence_returns (At.steady saved)) (fun _ => runOnEnter_at) fun _ _ _ => id

end

def outline (cfg : RuntimeConfig) : Outline Trail where
  idle := Idle
  ended _ := True
  seen := Seen cfg
  created := Created cfg
  validated a _ := Seen cfg a.inst
  ready a _ := Seen cfg a.inst
  worked := Worked cfg
  expired := Stored cfg none
  entered := Stored cfg
  replied := Ended cfg
  driving args d := At args d.inst
  chosen args d _ := At args d.inst
  hopDone args d _ _ := At args d.inst
  left := Left

theorem runSubmitExecutor_worked {a : Admitted} :
    (mon cfg).Triple (Seen cfg a.inst) (runSubmitExecutor cfg a arguments) (Worked cfg a arguments) (Ended cfg) := by
  have hsteady : Steady (Seen cfg a.inst) := Seen.steady a.inst
  refine runSubmitExecutor_triple (keeps_quiet hsteady) (fun _ _ he hg => hg.refuses he) (bracket hsteady)
    (fun work hwork _ hnone _ hg => ⟨hwork, fun h => absurd h (by simp [hnone]), hg⟩)
    (fun _ _ _ => parkOnLock_triple.pre fun _ hg => hg.idle.unquarantined)
    (fun _ _ _ _ _ _ _ _ => execute_returns hsteady) (fun hexecutor r => ?_) fun _ => failSubmit_ended
  refine (mergeResult_triple (keeps_quiet (Received.steady hsteady r)) (fun _ _ he hg => hg.2.refuses he) hexecutor
    fun _ => suspendStep_triple.pre fun _ hg => hg.2.idle.unquarantined).mono fun work g hg => ?_
  obtain ⟨⟨hwork, hnext⟩, hselects, hseen⟩ := hg
  exact ⟨hwork, hnext ▸ hselects, hseen⟩

theorem sound : (outline cfg).Sound (mon cfg) cfg where
  idle_ended _ _ := trivial
  seen_idle _ _ hg := hg.idle
  created_idle _ _ hg := hg.idle
  expired_ended _ _ _ := trivial
  replied_ended _ _ _ := trivial
  fails _ _ hg := hg.fails
  refuses _ _ _ _ he hg := hg.refuses he
  halts _ _ _ _ hr hg := Replied.plain hr hg.shows hg.idle.unquarantined.quenched (by simp)
    (by simp [Parks]) fun _ he => by cases he; simp
  expires _ _ _ hr hg := Replied.plain hr hg.shows hg.unquarantined.quenched (by simp) (by simp [Parks])
    fun _ h => nomatch h
  driving_left _ _ _ _ := At.exits
  idle_calm _ he := keeps_aside Idle.unmoved.steady he.aside
  seen_quiet inst := keeps_quiet (Seen.steady inst)
  created_quiet inst := keeps_quiet (Created.steady inst)
  expired_quiet saved := keeps_quiet (Stored.steady none saved)
  driving_quiet _ d := keeps_quiet (At.steady d.inst)
  chosen_quiet _ d _ := keeps_quiet (At.steady d.inst)
  call_known _ _ _ := trivial
  timeout_known _ _ _ := trivial
  called _ _ _ _ _ := trivial
  timed _ _ _ _ _ := trivial
  cut _ _ := trivial
  load _ := (load_triple Idle.unmoved.steady).conseq (fun _ => id)
    (fun _ _ hg => ⟨fun _ => trivial, hg.2, hg.1.2.1, .inl hg.1.2.2⟩) fun _ _ => And.right
  create _ _ := create_created.mono fun _ _ hg => ⟨trivial, hg⟩
  cancel _ _ := (cancel_triple Idle.unmoved).conseq (fun _ => id) (fun _ _ => And.right) fun _ _ => And.right
  bindSpawn _ _ := bindSpawn_created
  checkArguments a _ _ := (checkArguments_triple (keeps_quiet (Seen.steady a.inst))
    fun _ _ he hg => hg.refuses he).mono fun _ _ hg => hg.2
  checkGuards a _ _ _ := checkGuards_triple (keeps_quiet (Seen.steady a.inst)) fun _ _ he hg => hg.refuses he
  runSubmitExecutor _ _ _ _ := runSubmitExecutor_worked
  commitSubmit _ _ _ _ _ _ _ := commitSubmit_ended.mono fun _ _ hg => ⟨trivial, hg⟩
  checkAndApplyTimeout _ _ _ _ := checkAndApplyTimeout_ended
  runOnEnter _ _ _ _ := runOnEnter_created.mono fun _ _ hg => ⟨trivial, hg⟩
  driveAndSettle _ _ _ hhint _ := driveAndSettle_replied hhint
  selectHop _ _ _ := selectHop_at
  runHopExecutor _ _ _ := runHopExecutor_at
  commitHop _ _ _ _ _ := commitHop_at

theorem verified (cfg : RuntimeConfig) :
    (mon cfg).Verifies (fun p => (p, [])) (outline cfg).fin (outline cfg).pre (body cfg) := by
  have hnone (φ : Event Sig → Prop) (p : Proc) : ¬ Has (p, []) φ := fun ⟨_, h, _⟩ => nomatch h
  exact sound.verified (fun p hp => (⟨hp, .inl (hnone _ p), fun _ => hnone _ p⟩ : Idle (p, [])))
    fun args _ => (⟨rfl, rfl⟩ : At args args.inst (.runDeterministicChain args, []))

end Replies

section

variable {m : Gateway} {a : GatewayAction}

theorem Gateway.Lineage.echoes (hm : m.Lineage cfg fun _ _ => True) (hact : m.act (body cfg) a = some m')
    (happ : m.Appends a p hist (.op o r)) : Echoes (.op o r) := by
  have hout := hm.handsOut hact happ
  cases o with
  | storeLoad id | storeSave kind next v | storeCreate inst =>
    cases r with
    | ok inst => exact hout.1
    | error e => trivial
  | _ => trivial

theorem Gateway.ReachableWith.replies (hm : ReachableWith cfg ok definitions m) :
    m.Verified (Replies.mon cfg) (fun p => (p, [])) (Replies.outline cfg).fin := by
  refine hm.from_reached.verified (Replies.verified cfg) (fun p _ => by cases p <;> trivial) ?_ rfl
  intro m a m' ⟨hm, hact, _⟩ p hist o r happ
  exact (lineage_of_reaches hm).echoes hact happ

theorem Gateway.ReachableWith.returned (hm : ReachableWith cfg ok definitions m)
    (ht : ⟨p, hist, .pure v, stack⟩ ∈ m.threads) : (Replies.outline cfg).fin p v (p, hist) := by
  have hfin := (ReachableWith.replies hm _ ht).returned
  rwa [after_tracing] at hfin

end

end Praxec
