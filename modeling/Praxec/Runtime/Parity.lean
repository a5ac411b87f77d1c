import Praxec.Runtime.FireCap
import Praxec.Runtime.While

namespace Praxec

open Json Effect Prog Monitor Gateway

variable {cfg : RuntimeConfig} {request : SubmitTransition}

variable {inst : WorkflowInstance} {a : Admitted}

def Moved (h : History) : Prop :=
  ∃ f next w r, f.site = .submit ∧ Event.op (S := Sig) (.storeSave (.transition f) next w) r ∈ h

theorem Moved.stable : Stable Moved := by
  rintro h e ⟨f, next, w, r, hsite, hmem⟩
  exact ⟨f, next, w, r, hsite, List.mem_append_left _ hmem⟩

def Submitted (cfg : RuntimeConfig) (request : SubmitTransition) (h : History) (f : Firing)
    (next : WorkflowInstance) : Prop :=
  ∃ (a : Admitted) (arguments : Value) (work : SubmitWork), a.request = request ∧ a.Ok ∧ a.Validated cfg arguments ∧ work.Of cfg a arguments ∧
    a.firing arguments = f ∧ a.Commits (fun guard inst pass => Judged guard inst arguments pass h) work next

def FirstSubmitted (cfg : RuntimeConfig) (request : SubmitTransition) (h : History) : Event Sig → Prop
  | .op (.storeSave (.transition f) next _) _ => f.site = .submit → ¬ Moved h → Submitted cfg request h f next
  | _ => True

abbrev following (cfg : RuntimeConfig) (request : SubmitTransition) : Monitor Sig History :=
  .history (fun _ => True) (FirstSubmitted cfg request)

theorem moved_any : (following cfg request).Returns Moved x fun _ => Moved := by
  refine .of_uses (.all (fun e => Moved.stable.keeps fun h hh _ => ?_) x)
  unfold FirstSubmitted
  split
  · exact fun _ hmoved => absurd hh hmoved
  · trivial

theorem moved_stage :
    (following cfg request).Triple Moved x (fun _ => Moved) fun _ _ => True :=
  (moved_any).mono fun r _ hh => by cases r <;> first | exact hh | trivial

def Unfollowed : Event Sig → Prop
  | .op (.storeSave (.transition f) _ _) _ => f.site ≠ .submit
  | _ => True

theorem keeps_unfollowed (he : Unfollowed e) : (following cfg request).Keeps (fun _ => True) e := by
  refine fun h _ _ => ⟨?_, trivial⟩
  change FirstSubmitted cfg request h e
  unfold FirstSubmitted
  split
  · exact fun hsite => absurd hsite he
  · trivial

theorem Minor.unfollowed (he : Minor e) : Unfollowed e := by
  unfold Unfollowed
  split
  · exact nomatch he
  · trivial

theorem keeps_minor (e : Event Sig) (he : Minor e) : (following cfg request).Keeps (fun _ => True) e :=
  keeps_unfollowed he.unfollowed

theorem unfollowed_triple (hx : UsesE Unfollowed x) :
    (following cfg request).Triple (fun _ => True) x (fun _ _ => True) fun _ _ => True :=
  .of_uses (hx.mono fun _ => keeps_unfollowed) fun _ _ _ => trivial

theorem judged_following : Judged.Kept (following cfg request) fun _ => True where
  quiet e he := keeps_minor e he.minor
  verdict _ _ _ principal _ diagnostic _ _ _ :=
    ⟨principal, diagnostic, List.mem_append_right _ (List.mem_singleton.mpr rfl)⟩
  stable guard inst arguments pass e h _ _ _ := Judged.stable guard inst arguments pass h e

theorem bracket_following :
    Bracket (following cfg request) cfg inst declared (fun _ => True) (fun _ _ => True) (fun _ _ _ => True) (fun _ _ => True)
    (fun _ _ _ => True) fun _ _ => True where
  quiet e he := keeps_minor e he.minor
  trials _ := .plain (fun e he => keeps_minor e he.minor) fun _ e he => keeps_minor e he.minor
  settled_quiet _ e he := keeps_minor e he.minor
  acquire := acquireOwnedFiles_returns (fun _ => id) (fun _ e he => keeps_minor e he.minor) (.perform fun g r _ _ =>
    ⟨trivial, by cases r <;> trivial⟩)
  release _ _ := .of_uses (releaseLease_uses.mono keeps_minor)
  abandon _ _ := .of_uses (releaseLease_uses.mono keeps_minor)

theorem admitSubmit_following : (following cfg request).Triple (fun _ => True) (admitSubmit cfg request)
    (fun a _ => a.request = request ∧ a.Ok) fun _ _ => True := by
  have hquiet {α : Type} {x : Fallible α} (hx : UsesE Quiet x) :
      (following cfg request).Triple (fun _ => True) x (fun _ _ => True) fun _ _ => True :=
    unfollowed_triple (hx.mono fun _ he => he.minor.unfollowed)
  have hreject {α : Type} {Q : α → History → Prop} {inst : WorkflowInstance} {c code message : String} :
      (following cfg request).Triple (fun _ => True) (reject cfg inst request c code message) Q fun _ _ => True :=
    replyWith_triple (quiet_returns (fun e he => keeps_minor e he.minor) recordRejected_quiet) fun _ _ _ => trivial
  have hhalt {inst : WorkflowInstance} : (following cfg request).Triple (fun _ => True)
      (haltRun cfg request inst : DispatchStage Unit) (fun _ _ => False) fun _ _ => True :=
    (Triple.attempt (unfollowed_triple (cancel_uses.mono fun _ => Minor.unfollowed))).bind fun _ =>
      (Triple.attempt (hquiet load_uses)).bind fun _ =>
      replyWith_triple (quiet_returns (fun e he => keeps_minor e he.minor) response_quiet) fun _ _ _ => trivial
  refine (Triple.attempt (hquiet load_uses)).bind fun inst =>
    (Triple.lift (quiet_returns (fun e he => keeps_minor e he.minor) freshId_uses)).bind fun c =>
    (Triple.exitIf fun _ => hhalt).bind fun _ => .assume fun hnamed =>
    .computeStage (fun _ _ _ _ => trivial) fun _ _ =>
    (Triple.exitIf fun _ => .throw fun _ _ => trivial).bind fun _ => .assume fun hlive => ?_
  have hlive : inst.cancelledAt = none := by simpa using hlive
  have htimeout : (following cfg request).Triple (fun _ => True)
      (checkAndApplyTimeout inst.definition inst request.principal) (fun _ _ => True) fun _ _ => True := by
    refine (checkAndApplyTimeout_triple (R := fun _ _ => True) (N := fun _ _ => True) (fun e he => keeps_minor e he.minor)
      (fun _ e he => keeps_minor e he.minor)
      (fun _ _ _ => unfollowed_triple (emitTransitionRecord_uses fun _ => trivial))
      fun _ _ => unfollowed_triple (.perform fun _ => nofun)).mono fun _ _ _ => trivial
  refine (Triple.attempt htimeout).bind fun timedOut => ?_
  cases timedOut with
  | some saved =>
    refine Triple.bind (Q := fun _ _ => False) (replyWith_triple (quiet_returns (fun e he => keeps_minor e he.minor)
      response_quiet) fun _ _ _ => trivial) fun _ _ => False.elim
  | none =>
    refine (Triple.attempt (hquiet auditRecord_uses)).bind fun _ =>
      (Triple.exitIf fun _ => hreject).bind fun _ => .assume fun hversion => ?_
    cases htransition : transitionDefinition inst.definition inst.state request.transition with
    | none => exact hreject
    | some transition => exact .pure fun _ _ => ⟨rfl, htransition, not_not.mp hversion, hlive, hnamed⟩

theorem runSubmitExecutor_following : (following cfg request).Triple (fun _ => True)
    (runSubmitExecutor cfg a arguments) (fun work _ => work.Of cfg a arguments) fun _ _ => True := by
  have hexecute {site : ExecSite} {r : ExecuteRequest} : (following cfg request).Returns (fun _ => True) (execute site r)
      (Settled (fun _ _ => True) fun _ _ => True) := by
    refine Returns.bind (Q := fun _ _ => True) (.of_uses (.perform fun _ => keeps_unfollowed trivial)) fun _ =>
      .perform fun h r _ _ => ⟨trivial, ?_⟩
    cases r <;> trivial
  exact runSubmitExecutor_triple (fun e he => keeps_minor e he.minor) (fun _ _ _ _ => trivial) bracket_following
    (fun _ hwork _ _ _ _ => hwork) (fun _ _ _ => minor_ends keeps_minor (fun _ _ => trivial) parkOnLock_minor)
    (fun _ _ _ _ _ _ _ _ => hexecute)
    (fun hexecutor _ => (mergeResult_triple (fun e he => keeps_minor e he.minor) (fun _ _ _ _ => trivial) hexecutor
      fun _ => minor_ends keeps_minor (fun _ _ => trivial) suspendStep_minor).mono fun _ _ hh => hh.1.1)
    fun _ => failSubmit_triple keeps_minor fun _ _ => trivial

theorem commitSubmit_following (hrequest : a.request = request) (ha : a.Ok)
    (hvalid : a.Validated cfg arguments) (hwork : work.Of cfg a arguments) :
    (following cfg request).Triple (fun _ => True) (commitSubmit cfg a arguments guards acceptance work)
    (fun _ => Moved) fun _ _ => True := by
  refine commitSubmit_triple (C := fun _ => Moved) judged_following (fun _ _ _ => trivial) (fun next note => ?_)
    (fun _ _ => moved_stage) (fun _ => moved_any) (fun _ => moved_stage) fun _ _ => moved_stage
  have hjudged : Stable fun h => a.Commits (fun guard inst pass => Judged guard inst arguments pass h) work next :=
    fun h e hh => hh.mono fun guard inst pass => Judged.stable guard inst arguments pass h e
  have hrecord : (following cfg request).Triple
      (fun h => a.Commits (fun guard inst pass => Judged guard inst arguments pass h) work next)
      (emitTransitionRecord (a.firing arguments) next (recordParams (a.firing arguments) next note))
      (fun _ h => a.Commits (fun guard inst pass => Judged guard inst arguments pass h) work next) fun _ _ => True :=
    .of_uses (emitTransitionRecord_uses fun _ => hjudged.keeps fun _ _ _ => trivial) fun _ _ _ => trivial
  have hsave : (following cfg request).Triple
      (fun h => a.Commits (fun guard inst pass => Judged guard inst arguments pass h) work next)
      (saveIfVersion (.transition (a.firing arguments)) next a.request.expectedVersion) (fun _ => Moved) fun _ _ => True := by
    refine Returns.perform fun h r hh _ => ⟨fun _ _ => ⟨a, arguments, work, hrequest, ha, hvalid, hwork, rfl, hh⟩, ?_⟩
    have hmoved : Moved (h ++ [.op (.storeSave (.transition (a.firing arguments)) next a.request.expectedVersion) r]) :=
      ⟨_, _, _, _, rfl, List.mem_append_right _ (List.mem_singleton.mpr rfl)⟩
    cases r with
    | ok _ => exact hmoved
    | error _ => trivial
  exact (hrecord.bind fun _ => hsave).pre fun _ => And.left

theorem submit_following : (following cfg request).wp (submit cfg request).run (fun _ _ => True) [] := by
  have hquiet (e : Event Sig) (he : Quiet e) : (following cfg request).Keeps (fun _ => True) e := keeps_minor e he.minor
  have hdispatch : (following cfg request).Triple (fun _ => True) (dispatchOnce cfg request)
      (fun outcome h => outcome.nextTransition.isSome → Moved h) fun _ _ => True := by
    refine (Triple.finish (admitSubmit_following.bind fun a => ?_)).mono fun outcome h hh =>
      hh.elim id fun ⟨_, hr, _⟩ => hr ▸ nofun
    refine .known fun ⟨hrequest, ha⟩ => ?_
    refine (modelAcceptanceEvent_triple hquiet fun _ _ _ _ => trivial).bind fun acceptance =>
      (checkActor_triple hquiet fun _ _ _ _ => trivial).bind fun _ =>
      (checkFireCap_triple hquiet (fun _ _ _ _ => trivial) ha.transition).bind fun _ => .assume fun _ =>
      (checkArguments_triple hquiet fun _ _ _ _ => trivial).bind fun arguments => .assume fun hvalid =>
      (Triple.of_uses (checkGuards_quiet.mono hquiet) fun _ _ _ => trivial).bind fun guards =>
      runSubmitExecutor_following.bind fun work => .known fun hwork =>
      (commitSubmit_following hrequest ha hvalid hwork).bind fun entered =>
      (Triple.attempt (moved_stage)).bind fun out => .pure fun _ hh _ => hh
  have htriple : (following cfg request).Triple (fun _ => True) (submit cfg request) (fun _ _ => True) fun _ _ => True := by
    unfold submit submitLoop
    refine hdispatch.bind fun outcome h hh => ?_
    cases hnext : outcome.nextTransition with
    | none => trivial
    | some next => exact ((moved_stage).mono fun _ _ _ => trivial) h (hh (by rw [hnext]; rfl))
  exact wp_mono (fun _ _ _ => trivial) (htriple [] trivial)

variable {m : Gateway} {before : History}

section

variable (v : Value → WorkflowInstance → Value → Bool)

abbrev Says (inst : WorkflowInstance) : Value → Bool → Prop :=
  fun guard pass => pass = v guard inst .emptyObject

def Loops (inst : WorkflowInstance) : Prop :=
  ∃ stateDef guard, stateDefinition inst.definition inst.state = some stateDef ∧ stateDef.get "while" = some guard ∧
    v guard inst .emptyObject = true

def outputOf (cfg : RuntimeConfig) (inst : WorkflowInstance) (transition : Value) : Except Err Value :=
  mergeOutput cfg.lib ⟨.emptyObject, inst.context, inst.input, some .null, some inst.runEnv⟩ (transition.get "output")

/-- What a submit does beyond a hop has no effect: `output` is the context after the output mapping, `counted` the same
after the fire counter, and `target` where the hop goes. -/
structure Admitted.Aligned (a : Admitted) (output counted : Value) (target : String) : Prop where
  looped : Loops v { a.inst with context := counted } → target = a.inst.state ∧
    (output.isObject = true → output.get (whileIterKey a.inst.state) = some (.nat (2 ^ 32 - 1)))
  left : ¬ Loops v { a.inst with context := counted } → output.get (whileIterKey a.inst.state) = none
  targeted : ¬ Loops v { a.inst with context := counted } →
    TargetOf (Says v { a.inst with context := counted }) a.transition target
  cleared : ¬ Loops v { a.inst with context := counted } → target ≠ a.inst.state → ∀ key ∉ engineKeys,
    Owned a.inst.definition a.inst.state key → output.get key = none
  uncounted : (maxFires a.transition).isSome → Loops v { a.inst with context := counted } ∨ target = a.inst.state →
    output.isObject = true → output.get (fireCountKey a.inst.state a.request.transition) = some (.nat (2 ^ 64 - 1))

def Agree (next next' : WorkflowInstance) : Prop :=
  next.state = next'.state ∧ ∀ key ∉ engineKeys, next.context.get key = next'.context.get key

variable {v}

theorem BranchTarget.unique
    (h : BranchTarget (Says v inst) dflt branches t) (h' : BranchTarget (Says v inst) dflt branches t') : t = t' := by
  induction branches with
  | nil => exact Eq.trans h (Eq.symm h')
  | cons branch rest ih =>
    by_cases hconditional : ∃ condition target, branch.get "when" = some condition ∧ strField branch "target" = some target
    · obtain ⟨condition, target, hwhen, htarget⟩ := hconditional
      rw [branchTarget_conditional hwhen htarget] at h h'
      rcases h with ⟨hv, rfl⟩ | ⟨hv, h⟩ <;> rcases h' with ⟨hv', rfl⟩ | ⟨hv', h'⟩
      · rfl
      · cases hv.trans hv'.symm
      · cases hv.trans hv'.symm
      · exact ih h h'
    · have hnone (condition : Value) (target : String) (hwhen : branch.get "when" = some condition)
          (htarget : strField branch "target" = some target) : False := hconditional ⟨condition, target, hwhen, htarget⟩
      rw [branchTarget_unconditional hnone] at h h'
      exact ih h h'

theorem TargetOf.unique
    (h : TargetOf (Says v inst) transition t) (h' : TargetOf (Says v inst) transition t') : t = t' := by
  obtain ⟨dflt, hdflt, h⟩ := h
  obtain ⟨dflt', hdflt', h'⟩ := h'
  cases hdflt.symm.trans hdflt'
  exact h.unique h'

theorem get_counter_iff (hread : readCounterSlot context key = .ok n) :
    (context.insert key (.nat (min (n + 1) bound))).get key = context.get key ↔
    (context.isObject → context.get key = some (.nat bound)) := by
  cases hobject : context.isObject with
  | false =>
    have hinsert : context.insert key (.nat (min (n + 1) bound)) = context := by
      cases context <;> first | rfl | cases hobject
    simp [hinsert]
  | true =>
    rw [Value.get_insert hobject, if_pos rfl]
    constructor
    · intro h _
      rw [readCounterSlot, ← h] at hread
      have hn : min (n + 1) bound = n := Except.ok.inj hread
      rw [← h, show min (n + 1) bound = bound by omega]
    · intro h
      rw [readCounterSlot, h rfl] at hread
      have hn : bound = n := Except.ok.inj hread
      rw [h rfl, show min (n + 1) bound = bound by omega]

theorem whileIterKey_not_engineKey (state : String) : whileIterKey state ∉ engineKeys := by
  intro h
  simp only [engineKeys, List.mem_cons, List.not_mem_nil, or_false] at h
  rcases h with h | h | h <;>
  · have hchars := congrArg String.toList h
    simp [whileIterKey, chainHopsTotalKey, chainWallMsTotalKey, continuationReadsKey] at hchars

theorem countFire_iff (hcount : countFire a output = .ok counted) :
    counted.get (fireCountKey a.inst.state a.request.transition) =
    output.get (fireCountKey a.inst.state a.request.transition) ↔
    ((maxFires a.transition).isSome → output.isObject →
    output.get (fireCountKey a.inst.state a.request.transition) = some (.nat (2 ^ 64 - 1))) := by
  cases hcap : maxFires a.transition with
  | none =>
    rw [countFire, hcap] at hcount
    cases hcount
    simp
  | some cap =>
    obtain ⟨n, hread, rfl⟩ := countFire_reads hcap hcount
    rw [saturate, get_counter_iff hread]
    simp

variable {next : WorkflowInstance}

section

variable {a : Admitted} {output counted : Value} {target : String}

theorem isObject_countFire (hcount : countFire a output = .ok counted) : counted.isObject = output.isObject := by
  cases hcap : maxFires a.transition with
  | none =>
    rw [countFire, hcap] at hcount
    cases hcount
    rfl
  | some cap =>
    obtain ⟨n, -, rfl⟩ := countFire_reads hcap hcount
    cases output <;> rfl

theorem get_counted_iff (hcount : countFire a output = .ok counted) : (∀ key ∉ engineKeys, key ≠ whileIterKey a.inst.state →
      counted.get key = output.get key) ↔ ((maxFires a.transition).isSome → output.isObject →
    output.get (fireCountKey a.inst.state a.request.transition) = some (.nat (2 ^ 64 - 1))) := by
  rw [← countFire_iff hcount]
  constructor
  · intro h
    exact h _ (isFireCounter_key _ _).not_engineKey (whileIterKey_ne_fireCountKey _ _ _).symm
  · intro h key _ _
    by_cases hfire : key = fireCountKey a.inst.state a.request.transition
    · rw [hfire, h]
    · exact get_countFire_of_ne hcount hfire

theorem again_iff (target : String) (hcount : countFire a output = .ok counted) (hloops : Loops v { a.inst with context := counted })
    {current : Nat} (hcurrent : readWhileIter { a.inst with context := counted } a.inst.state = .ok current) :
    (a.inst.state = target ∧ ∀ key ∉ engineKeys, (counted.insert (whileIterKey a.inst.state)
      (.nat (min (current + 1) (2 ^ 32 - 1)))).get key = output.get key) ↔ a.Aligned v output counted target := by
  have hiter := get_countFire_of_ne hcount (whileIterKey_ne_fireCountKey a.inst.state a.inst.state a.request.transition)
  have hobject := isObject_countFire hcount
  obtain ⟨n, hread, hn⟩ : ∃ n, readCounterSlot counted (whileIterKey a.inst.state) = .ok n ∧ min n (2 ^ 32 - 1) = current := by
    unfold readWhileIter at hcurrent
    cases hread : readCounterSlot counted (whileIterKey a.inst.state) with
    | error e => rw [hread] at hcurrent; cases hcurrent
    | ok n =>
      rw [hread] at hcurrent
      exact ⟨n, rfl, Except.ok.inj hcurrent⟩
  have hsaturated : (counted.insert (whileIterKey a.inst.state) (.nat (min (current + 1) (2 ^ 32 - 1)))).get
      (whileIterKey a.inst.state) = output.get (whileIterKey a.inst.state) ↔
      (output.isObject → output.get (whileIterKey a.inst.state) = some (.nat (2 ^ 32 - 1))) := by
    rw [show min (current + 1) (2 ^ 32 - 1) = min (n + 1) (2 ^ 32 - 1) by omega, ← hiter, get_counter_iff hread, hobject]
  constructor
  · rintro ⟨hstate, hkeys⟩
    refine ⟨fun _ => ⟨hstate.symm, hsaturated.mp (hkeys _ (whileIterKey_not_engineKey _))⟩, fun h => absurd hloops h,
      fun h => absurd hloops h, fun h => absurd hloops h, fun hcap _ => (get_counted_iff hcount).mp (fun key hkey hne => ?_) hcap⟩
    rw [← hkeys key hkey, Value.get_insert_of_ne _ _ hne]
  · intro haligned
    obtain ⟨hstate, hbound⟩ := haligned.looped hloops
    refine ⟨hstate.symm, fun key hkey => ?_⟩
    by_cases hne : key = whileIterKey a.inst.state
    · rw [hne, hsaturated.mpr hbound]
    · rw [Value.get_insert_of_ne _ _ hne]
      exact (get_counted_iff hcount).mpr (fun hcap => haligned.uncounted hcap (.inl hloops)) key hkey hne

theorem leave_iff (hcount : countFire a output = .ok counted) (hleaves : ¬ Loops v { a.inst with context := counted })
    {t : String} (ht : TargetOf (Says v { a.inst with context := counted }) a.transition t) :
    (t = target ∧ ∀ key ∉ engineKeys, (exitInstance a.inst.definition a.inst.state t
      (clearWhileIter { a.inst with context := counted } a.inst.state)).context.get key = output.get key) ↔
        a.Aligned v output counted target := by
  have hsame (key : String) (hkey : ¬ Owned a.inst.definition a.inst.state key) : counted.get key = output.get key :=
    get_countFire_of_ne hcount fun h => hkey (.inr (.inr ⟨_, h⟩))
  by_cases hstays : a.inst.state = t
  · -- the visit goes on: only the loop counter is dropped
    rw [exitInstance, if_pos hstays]
    simp only [clearWhileIter, Value.get_remove]
    constructor
    · rintro ⟨rfl, hkeys⟩
      refine ⟨fun h => absurd h hleaves, fun _ => ?_, fun _ => ht, fun _ hne => absurd hstays.symm hne, fun hcap _ =>
        (get_counted_iff hcount).mp (fun key hkey hne => ?_) hcap⟩
      · simpa using (hkeys _ (whileIterKey_not_engineKey a.inst.state)).symm
      · simpa [hne] using hkeys key hkey
    · intro haligned
      have htarget : t = target := ht.unique (haligned.targeted hleaves)
      refine ⟨htarget, fun key hkey => ?_⟩
      split
      · rename_i hkey
        rw [hkey, haligned.left hleaves]
      · rename_i hne
        exact (get_counted_iff hcount).mpr (fun hcap => haligned.uncounted hcap (.inr (htarget.symm.trans hstays.symm)))
          key hkey hne
  · rw [exitInstance, if_neg hstays]
    change (t = target ∧ ∀ key ∉ engineKeys, (cleanup a.inst.definition a.inst.state counted).get key = output.get key) ↔ _
    constructor
    · rintro ⟨rfl, hkeys⟩
      have hnone (key : String) (hkey : key ∉ engineKeys) (howned : Owned a.inst.definition a.inst.state key) :
          output.get key = none := by
        rw [← hkeys key hkey, get_cleanup_of_owned howned]
      refine ⟨fun h => absurd h hleaves, fun _ => hnone _ (whileIterKey_not_engineKey _) (.inr (.inl rfl)), fun _ => ht,
        fun _ _ => hnone, fun _ h => absurd h (not_or.mpr ⟨hleaves, fun h => hstays h.symm⟩)⟩
    · intro haligned
      have htarget : t = target := ht.unique (haligned.targeted hleaves)
      refine ⟨htarget, fun key hkey => ?_⟩
      by_cases howned : Owned a.inst.definition a.inst.state key
      · rw [get_cleanup_of_owned howned, haligned.cleared hleaves (fun h => hstays (htarget.trans h).symm) key hkey howned]
      · rw [get_cleanup_of_not_owned howned, hsame key howned]

theorem Admitted.Commits.aligned_iff (target : String) (ha : a.Ok) (hsummary : a.request.summary = none)
    (hwork : work.next = { a.inst with context := output })
    (hnext : a.Commits (fun guard inst pass => pass = v guard inst .emptyObject) work next) :
    ∃ counted, countFire a output = .ok counted ∧
      ((next.state = target ∧ ∀ key ∉ engineKeys, next.context.get key = output.get key) ↔
        a.Aligned v output counted target) := by
  cases hnext with
  | @intro counted rerouted looped t hcount htarget hloop =>
    replace hcount : countFire a output = .ok counted := by
      rw [hsummary, hwork] at hcount
      exact hcount
    rw [hwork] at htarget hloop
    refine ⟨counted, hcount, ?_⟩
    cases hloop with
    | undeclared hstate =>
      have hdeclared := StateLocal.stateDefinition_isSome ha
      rw [show stateDefinition a.inst.definition a.inst.state = none from hstate] at hdeclared
      cases hdeclared
    | unlooped hstate hwhile =>
      refine leave_iff hcount ?_ htarget
      rintro ⟨stateDef, guard, hstate', hwhile', -⟩
      cases hstate.symm.trans hstate'
      cases hwhile.symm.trans hwhile'
    | leave hstate hwhile hverdict =>
      refine leave_iff hcount ?_ htarget
      rintro ⟨stateDef, guard, hstate', hwhile', hholds⟩
      cases hstate.symm.trans hstate'
      cases hwhile.symm.trans hwhile'
      cases hverdict.trans hholds
    | again hstate hwhile _ hverdict hcurrent _ =>
      have hstays := again_iff target hcount ⟨_, _, hstate, hwhile, hverdict.symm⟩ hcurrent
      simpa [exitInstance, writeWhileIter] using hstays

end

/-- The guards that a task had evaluated were judged by `v`. -/
def Evaluated (v : Value → WorkflowInstance → Value → Bool) (h : History) : Prop :=
  ∀ guard inst arguments pass, Judged guard inst arguments pass h → pass = v guard inst arguments

def Asked (m : Gateway) (p : Proc) (before : History) (f : Firing) (next : WorkflowInstance) : Prop :=
  ∃ t ∈ m.threads, ∃ w r after, (p, before ++ .op (.storeSave (.transition f) next w) r :: after) ∈ t.activations

structure SubmitCommits (m : Gateway) (request : SubmitTransition) (before : History) (f : Firing)
    (next : WorkflowInstance) : Prop where
  asked : Asked m (.submit request) before f next
  site : f.site = .submit
  first : ¬ Moved before

structure HopCommits (m : Gateway) (before : History) (f : Firing) (next : WorkflowInstance) : Prop where
  asked : ∃ p, Asked m p before f next
  site : ∃ candidates, f.site = .selected candidates

variable {definitions : Fields}

theorem SubmitCommits.submitted (hm : Reachable cfg definitions m)
    (h : SubmitCommits m request before f next) : Submitted cfg request before f next := by
  obtain ⟨t, ht, w, r, after, hx⟩ := h.asked
  have hfirst : FirstSubmitted cfg request before (.op (.storeSave (.transition f) next w) r) :=
    hm.activation (A := fun _ => True) (fun _ _ _ _ _ _ => trivial) (fun _ _ => trivial) (fun _ _ => trivial) rfl
      (p := Proc.submit request) submit_following ht hx rfl
  exact hfirst h.site h.first

theorem HopCommits.committed (hm : Reachable cfg definitions m) (h : HopCommits m before f next)
    (hexecutor : f.definition.get "executor" = none) (hv : Evaluated v before) : ∃ output target,
    outputOf cfg f.before f.definition = .ok output ∧
    TargetOf (Says v { f.before with context := output }) f.definition target ∧ next.state = target ∧
      ∀ key ∉ engineKeys, next.context.get key = output.get key := by
  obtain ⟨p, t, ht, w, r, after, hx⟩ := h.asked
  obtain ⟨candidates, hsite⟩ := h.site
  have hcommitted := committed_of_reaches hm t ht _ hx _ _ _ rfl
  cases hcommitted.2.commit with
  | submit _ _ _ => cases hsite
  | timeout _ => cases hsite
  | @hop args d hop work _ hdefinition hhop hwork hnext _ =>
    cases hhop with
    | driven _ _ => cases hsite
    | selected _ _ _ =>
      cases hwork with
      | executed hsome _ _ => exact Bool.noConfusion ((congrArg Option.isSome hexecutor).symm.trans hsome)
      | @plain output _ hmerge _ =>
        have hkept (key : String) (hkey : key ∉ engineKeys) : next.context.get key = output.get key := hnext.kept hkey
        cases hnext with
        | intro htarget _ => exact ⟨output, _, hmerge, htarget.mono fun _ _ => hv _ _ _ _, rfl, hkept⟩

/-- A transition without executor, committed from one snapshot by a submit without arguments and by a hop, comes out
the same just if what the submit does beyond the hop has no effect. -/
theorem hop_matches_submit {m m' : Gateway} (hm : Reachable cfg definitions m)
    (hm' : Reachable cfg definitions' m') {before before' : History} {f f' : Firing}
    {next next' : WorkflowInstance} (hsubmit : SubmitCommits m request before f next)
    (hhop : HopCommits m' before' f' next') (hv : Evaluated v before) (hv' : Evaluated v before')
    (hsame : f'.before = f.before ∧ f'.definition = f.definition) (hexecutor : f.definition.get "executor" = none)
    (harguments : request.arguments = .emptyObject) (hsummary : request.summary = none)
    (hdefaults : applySchemaDefaults (f.definition.get "inputSchema") .emptyObject = .emptyObject) :
    Agree next next' ↔ ∃ c output counted target, outputOf cfg f.before f.definition = .ok output ∧
      countFire ⟨request, f.before, c, f.definition⟩ output = .ok counted ∧
      TargetOf (Says v { f.before with context := output }) f.definition target ∧
      Admitted.Aligned v ⟨request, f.before, c, f.definition⟩ output counted target := by
  obtain ⟨a, arguments, work, rfl, ha, hvalid, hwork, rfl, hnext⟩ := hsubmit.submitted hm
  obtain ⟨output, target, houtput, htarget, hstate, hkeys⟩ := hhop.committed hm' (hsame.2 ▸ hexecutor) hv'
  rw [hsame.1, hsame.2] at houtput htarget
  have hempty : arguments = .emptyObject := by
    rw [hvalid.defaulted, harguments]
    exact hdefaults
  subst hempty
  have hplain : work.next = { a.inst with context := output } := by
    cases hwork with
    | plain _ hmerge _ =>
      cases hmerge.symm.trans houtput
      rfl
    | executed hsome _ _ _ _ _ => exact Bool.noConfusion ((congrArg Option.isSome hexecutor).symm.trans hsome)
  obtain ⟨counted, hcount, hiff⟩ := Admitted.Commits.aligned_iff target ha hsummary hplain
    (hnext.mono fun _ _ _ => hv _ _ _ _)
  have hagree : Agree next next' ↔ next.state = target ∧ ∀ key ∉ engineKeys, next.context.get key = output.get key := by
    rw [Agree, hstate]
    refine and_congr_right fun _ => forall_congr' fun key => imp_congr_right fun hkey => ?_
    rw [hkeys key hkey]
  rw [hagree, hiff]
  constructor
  · intro haligned
    exact ⟨a.correlationId, output, counted, target, houtput, hcount, htarget, haligned⟩
  · rintro ⟨c, output', counted', target', houtput', hcount', htarget', haligned⟩
    cases houtput.symm.trans houtput'
    cases hcount.symm.trans hcount'
    cases htarget.unique htarget'
    exact ⟨haligned.looped, haligned.left, haligned.targeted, haligned.cleared, haligned.uncounted⟩

end

def savesWhere (φ : History → Firing → WorkflowInstance → Bool) :
    History → History → Bool
  | _, [] => false
  | before, e :: after => (match e with
      | .op (.storeSave (.transition f) next _) _ => φ before f next
      | _ => false) || savesWhere φ (before ++ [e]) after

theorem savesWhere_spec (h : savesWhere φ before rest) : ∃ b f next w r after,
    before ++ rest = b ++ .op (.storeSave (.transition f) next w) r :: after ∧ φ b f next := by
  induction rest generalizing before with
  | nil => cases h
  | cons e after ih =>
    rcases Bool.or_eq_true_iff.mp h with h | h
    · split at h
      · exact ⟨before, _, _, _, _, after, rfl, h⟩
      · cases h
    · obtain ⟨b, f, next, w, r, after', hsplit, hφ⟩ := ih h
      exact ⟨b, f, next, w, r, after', by rw [← hsplit]; simp, hφ⟩

def opening : Event Sig → Bool
  | .op (.guardEvaluate ..) (.ok (pass, _)) => pass
  | .op (.storeSave (.transition f) _ _) _ => decide (f.site ≠ .submit)
  | _ => true

theorem evaluated_of_opening (hall : h.all opening) : Evaluated (fun _ _ _ => true) h := by
  rintro guard inst arguments pass ⟨principal, diagnostic, hmem⟩
  exact List.all_eq_true.mp hall _ hmem

theorem not_moved_of_opening (hall : h.all opening) : ¬ Moved h := by
  rintro ⟨f, next, w, r, hsite, hmem⟩
  exact of_decide_eq_true (List.all_eq_true.mp hall _ hmem) hsite

def submitsWhere (φ : Firing → WorkflowInstance → Bool) (m : Gateway) : Bool :=
  m.threads.any fun t => t.activations.any fun x => match x with
    | (.submit request, hist) => decide (request = goSubmit "wf_1" 0) &&
        savesWhere (fun before f next => before.all opening && (decide (f.site = .submit) && φ f next)) [] hist
    | _ => false

theorem submitsWhere_spec (h : submitsWhere φ m) :
    ∃ before f next, SubmitCommits m (goSubmit "wf_1" 0) before f next ∧ Evaluated (fun _ _ _ => true) before ∧
    φ f next := by
  obtain ⟨t, ht, h⟩ := List.any_eq_true.mp h
  obtain ⟨x, hx, h⟩ := List.any_eq_true.mp h
  split at h
  · obtain ⟨hrequest, h⟩ := Bool.and_eq_true_iff.mp h
    obtain ⟨before, f, next, w, r, after, hsplit, hsaves⟩ := savesWhere_spec h
    obtain ⟨hopening, hsaves⟩ := Bool.and_eq_true_iff.mp hsaves
    obtain ⟨hsite, hφ⟩ := Bool.and_eq_true_iff.mp hsaves
    cases of_decide_eq_true hrequest
    cases hsplit
    exact ⟨before, f, next, ⟨⟨t, ht, w, r, after, hx⟩, of_decide_eq_true hsite, not_moved_of_opening hopening⟩,
      evaluated_of_opening hopening, hφ⟩
  · cases h

def hopsWhere (φ : Firing → WorkflowInstance → Bool) (m : Gateway) : Bool :=
  m.threads.any fun t => t.activations.any fun x => savesWhere (fun before f next => before.all opening && (match f.site with
    | .selected _ => φ f next
    | _ => false)) [] x.2

theorem hopsWhere_spec (h : hopsWhere φ m) :
    ∃ before f next, HopCommits m before f next ∧ Evaluated (fun _ _ _ => true) before ∧ φ f next := by
  obtain ⟨t, ht, h⟩ := List.any_eq_true.mp h
  obtain ⟨⟨p, hist⟩, hx, h⟩ := List.any_eq_true.mp h
  obtain ⟨before, f, next, w, r, after, hsplit, hsaves⟩ := savesWhere_spec h
  cases hsplit
  obtain ⟨hopening, hsaves⟩ := Bool.and_eq_true_iff.mp hsaves
  split at hsaves
  · rename_i candidates hsite
    exact ⟨before, f, next, ⟨⟨p, t, ht, w, r, after, hx⟩, candidates, hsite⟩, evaluated_of_opening hopening, hsaves⟩
  · cases hsaves

def launched (definition : Value) : Option WorkflowInstance :=
  ((boot [("d", definition)]).runs (body .plain) (fun _ _ => true) (launch 0 "d" "1")).bind fun m => m.world.find "wf_1"

def stepsTo (definition : Value) (state : String) (f : Firing) (next : WorkflowInstance) : Bool :=
  decide (some f.before = launched definition ∧ f.definition = transitionOf "b" "deterministic" [] ∧ next.state = state)

/-- Where the `while` guard holds, a submit stays in the state that a hop leaves. -/
theorem hop_leaves_looping_state : ∃ v m m' before before' f f' next next',
    Reachable .plain [("d", loopingDefinition "deterministic")] m ∧
    Reachable .plain [("d", loopingDefinition "deterministic")] m' ∧
    SubmitCommits m (goSubmit "wf_1" 0) before f next ∧ HopCommits m' before' f' next' ∧ Evaluated v before ∧
    Evaluated v before' ∧ (f'.before = f.before ∧ f'.definition = f.definition) ∧ f.definition.get "executor" = none ∧
    (goSubmit "wf_1" 0).arguments = .emptyObject ∧ (goSubmit "wf_1" 0).summary = none ∧ ¬ Agree next next' := by
  obtain ⟨m, hm, h⟩ := reachable_of_script .plain [("d", loopingDefinition "deterministic")] loopScript
    (submitsWhere (stepsTo (loopingDefinition "deterministic") "a") ·)
  obtain ⟨m', hm', h'⟩ := reachable_of_script .plain [("d", loopingDefinition "deterministic")] hopScript
    (hopsWhere (stepsTo (loopingDefinition "deterministic") "b") ·)
  obtain ⟨before, f, next, hsubmit, hv, hstep⟩ := submitsWhere_spec h
  obtain ⟨before', f', next', hhop, hv', hstep'⟩ := hopsWhere_spec h'
  obtain ⟨hbefore, hdefinition, hstate⟩ := of_decide_eq_true hstep
  obtain ⟨hbefore', hdefinition', hstate'⟩ := of_decide_eq_true hstep'
  refine ⟨fun _ _ _ => true, m, m', before, before', f, f', next, next', hm, hm', hsubmit, hhop, hv, hv',
    ⟨Option.some.inj (hbefore'.trans hbefore.symm), hdefinition'.trans hdefinition.symm⟩, ?_, rfl, rfl, fun hagree => ?_⟩
  · rw [hdefinition]
    decide
  · exact absurd (hstate.symm.trans (hagree.1.trans hstate')) (by decide)

def straightDefinition : Value :=
  definitionOf "a" [("a", stateOf [("go", transitionOf "b" "deterministic" [])]), ("b", terminalState)]

theorem straight_aligned (hinst : some inst = launched straightDefinition) : ∃ c output counted target,
    outputOf .plain inst (transitionOf "b" "deterministic" []) = .ok output ∧
    countFire ⟨goSubmit "wf_1" 0, inst, c, transitionOf "b" "deterministic" []⟩ output = .ok counted ∧
    TargetOf (Says v { inst with context := output }) (transitionOf "b" "deterministic" []) target ∧
      Admitted.Aligned v ⟨goSubmit "wf_1" 0, inst, c, transitionOf "b" "deterministic" []⟩ output counted target := by
  obtain ⟨hstate, hdefinition, hcontext⟩ : inst.state = "a" ∧ inst.definition = straightDefinition ∧
      inst.context = .emptyObject := by
    have hlaunched : (launched straightDefinition).all fun inst => decide (inst.state = "a" ∧
        inst.definition = straightDefinition ∧ inst.context = .emptyObject) := by decide +kernel
    rw [← hinst] at hlaunched
    exact of_decide_eq_true hlaunched
  have hloops : ¬ Loops v { inst with context := .emptyObject } := by
    rintro ⟨stateDef, guard, hdeclared, hwhile, -⟩
    rw [hstate, hdefinition] at hdeclared
    cases hdeclared
    cases hwhile
  refine ⟨"", .emptyObject, .emptyObject, "b", ?_, rfl, ⟨"b", rfl, rfl⟩, fun h => absurd h hloops, fun _ => rfl,
    fun _ => ⟨"b", rfl, rfl⟩, fun _ _ _ _ _ => rfl, fun hcap => nomatch hcap⟩
  rw [outputOf, hcontext]
  rfl

theorem straight_step_matches : ∃ m m' before before' f f' next next',
    Reachable .plain [("d", straightDefinition)] m ∧ Reachable .plain [("d", straightDefinition)] m' ∧
    SubmitCommits m (goSubmit "wf_1" 0) before f next ∧ HopCommits m' before' f' next' ∧
    (f'.before = f.before ∧ f'.definition = f.definition) ∧ Agree next next' := by
  obtain ⟨m, hm, h⟩ := reachable_of_script .plain [("d", straightDefinition)]
    (launch 0 "d" "1" ++ .spawn (.submit (goSubmit "wf_1" 0)) :: answers 1 1 ++ [.answer 1 (.fresh "2")] ++ answers 1 3)
    (submitsWhere (stepsTo straightDefinition "b") ·)
  obtain ⟨m', hm', h'⟩ := reachable_of_script .plain [("d", straightDefinition)] hopScript
    (hopsWhere (stepsTo straightDefinition "b") ·)
  obtain ⟨before, f, next, hsubmit, hv, hstep⟩ := submitsWhere_spec h
  obtain ⟨before', f', next', hhop, hv', hstep'⟩ := hopsWhere_spec h'
  obtain ⟨hbefore, hdefinition, -⟩ := of_decide_eq_true hstep
  obtain ⟨hbefore', hdefinition', -⟩ := of_decide_eq_true hstep'
  have hsame : f'.before = f.before ∧ f'.definition = f.definition :=
    ⟨Option.some.inj (hbefore'.trans hbefore.symm), hdefinition'.trans hdefinition.symm⟩
  refine ⟨m, m', before, before', f, f', next, next', hm, hm', hsubmit, hhop, hsame,
    (hop_matches_submit hm hm' hsubmit hhop hv hv' hsame ?_ rfl rfl ?_).mpr ?_⟩
  · rw [hdefinition]
    decide
  · rw [hdefinition]
    decide
  · rw [hdefinition]
    exact straight_aligned hbefore

end Praxec
