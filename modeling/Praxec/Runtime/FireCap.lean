import Praxec.Runtime.Replay
import Praxec.Runtime.Replies
import Praxec.Runtime.StateLocal
import Praxec.Runtime.Tally

namespace Praxec

open Json Effect List Gateway

variable {cfg : RuntimeConfig}

def IsFireCounter (key : String) : Prop :=
  Text.startsWith key "_fire_count." = true

instance (key : String) : Decidable (IsFireCounter key) :=
  inferInstanceAs (Decidable (_ = true))

/-- How often each transition has been committed in the visit to the current state: a change of state
begins a new visit, and a deadline fires no transition of the state. -/
def addFires (fires : String → Nat) : StoreWrite → String → Nat
  | .created _ => fun _ => 0
  | .saved (.transition f) next => fun t =>
      if next.state ≠ f.before.state then 0
      else if f.site ≠ .timeout ∧ f.transition = t then fires t + 1
      else fires t
  | .saved .. => fires

def firesInVisit (id : String) (journal : List StoreWrite) : String → Nat :=
  tally addFires (fun _ => 0) id journal

def DeclaresCap (definition : Value) (state t : String) (cap : Nat) : Prop :=
  cap < 2 ^ 64 ∧ ∃ transition, transitionDefinition definition state t = some transition ∧ maxFires transition = some cap

section

theorem isFireCounter_key (state t : String) : IsFireCounter (fireCountKey state t) := by
  unfold IsFireCounter fireCountKey fireCountStem
  rw [String.append_assoc, String.append_assoc]
  exact Text.startsWith_append _ _

theorem fireCountKey_inj : fireCountKey state t = fireCountKey state t' ↔ t = t' := by
  simpa [fireCountKey] using congrArg String.toList h

theorem not_isFireCounter_whileIter : ¬ IsFireCounter (whileIterKey state) := by
  simp [IsFireCounter, Text.startsWith, whileIterKey]

variable {key : String} (hkey : IsFireCounter key)

include hkey

theorem IsFireCounter.ne (hother : ¬ IsFireCounter other) : key ≠ other :=
  fun h => hother (h ▸ hkey)

theorem IsFireCounter.not_waitMarker : key ∉ waitMarkers := by
  intro h
  simp only [waitMarkers, mem_cons, not_mem_nil, or_false] at h
  rcases h with rfl | rfl <;> revert hkey <;> decide

theorem IsFireCounter.not_engineKey : key ∉ engineKeys := by
  intro h
  simp only [engineKeys, mem_cons, not_mem_nil, or_false] at h
  rcases h with rfl | rfl | rfl <;> revert hkey <;> decide

end

/-- The context counts the visit: it holds the fire counters of the current state only, and where a cap is
declared the counter says how often the transition has been committed. -/
structure CountsFires (inst : WorkflowInstance) (fires : String → Nat) : Prop where
  own : ∀ key, IsFireCounter key → inst.context.get key ≠ none → ∃ t, key = fireCountKey inst.state t
  exact : ∀ t cap, DeclaresCap inst.definition inst.state t cap →
    readCounterSlot inst.context (fireCountKey inst.state t) = .ok (fires t)

namespace CountsFires

variable {next : WorkflowInstance} {fires : String → Nat}

theorem zero (h : ∀ key, IsFireCounter key → next.context.get key = none) : CountsFires next fun _ => 0 where
  own key hkey hsome := absurd (h key hkey) hsome
  exact t _ _ := readCounterSlot_none (h _ (isFireCounter_key _ t))

theorem congr (hb : CountsFires base fires) (hstate : next.state = base.state) (hdefinition : next.definition = base.definition)
    (hcontext : ∀ key, IsFireCounter key → next.context.get key = base.context.get key) : CountsFires next fires where
  own key hkey hsome := by
    rw [hcontext key hkey] at hsome
    rw [hstate]
    exact hb.own key hkey hsome
  exact t cap hcap := by
    rw [hstate, hdefinition] at hcap
    rw [hstate, readCounterSlot_congr (hcontext _ (isFireCounter_key _ t))]
    exact hb.exact t cap hcap

theorem of_agree (hb : CountsFires base fires)
    (hagree : ∀ t cap, DeclaresCap base.definition base.state t cap → fires' t = fires t) : CountsFires base fires' where
  own := hb.own
  exact t cap hcap := by rw [hagree t cap hcap, hb.exact t cap hcap]

theorem rebound (hs : CountsFires base fires) (hr : Rebound next base) : CountsFires next fires :=
  hs.congr (by rw [← hr.rest]) hr.sameRun.definition fun key hkey => hr.context key (hkey.ne (by decide))

theorem left (hb : CountsFires base fires) (hown : ∀ t, next.context.get (fireCountKey base.state t) = none)
    (hother : ∀ key, IsFireCounter key → (∀ t, key ≠ fireCountKey base.state t) →
      next.context.get key = base.context.get key ∨ next.context.get key = none) : CountsFires next fun _ => 0 := by
  refine zero fun key hkey => ?_
  by_cases ht : ∃ t, key = fireCountKey base.state t
  · obtain ⟨t, rfl⟩ := ht
    exact hown t
  · refine (hother key hkey fun t h => ht ⟨t, h⟩).elim (fun hsame => ?_) id
    rw [hsame]
    exact not_not.mp (mt (hb.own key hkey) ht)

end CountsFires

/-- The event keeps counters and fires together: a chain hop fires no transition with a cap, only a submit
leaves a state that has counted, and no output is mapped onto a counter. -/
def FiresKept : Event Sig → Prop
  | .op (.storeSave (.transition f) next _) _ =>
      (f.site ≠ .submit → f.site ≠ .timeout → ∀ cap, ¬ DeclaresCap f.before.definition f.before.state f.transition cap) ∧
      (f.site ≠ .submit → next.state ≠ f.before.state →
        ∀ t, f.before.context.get (fireCountKey f.before.state t) = none) ∧
      (f.site ≠ .timeout → ∀ key ∈ writtenSlots (f.definition.get "output"), ¬ IsFireCounter key)
  | .op (.storeSave (.slotUpdates _ mapping) _ _) _ | .op (.storeSave (.onEnter _ mapping) _ _) _ =>
      ∀ key ∈ writtenSlots mapping, ¬ IsFireCounter key
  | .op (.storeCreate inst) _ =>
      inst.context.isObject = true ∧ ∀ key, IsFireCounter key → inst.context.get key = none
  | _ => True

def KeepsFires (m : Gateway) (a : GatewayAction) (_ : Gateway) : Prop :=
  ∀ p hist e, m.Appends a p hist e → FiresKept e

section

variable {a : Admitted} {arguments : Value} {v : Value → WorkflowInstance → Bool → Prop} {work : SubmitWork}
  {next : WorkflowInstance} {fires : String → Nat}

theorem Admitted.Commits.counted (hc : a.Commits v work next) (hstay : next.state = a.inst.state) :
    ∃ context, countFire a (withSummary a.request.summary work.next.context) = .ok context ∧
      ∀ key, key ≠ whileIterKey a.inst.state → next.context.get key = context.get key := by
  cases hc with
  | intro hcount htarget hloop =>
    refine ⟨_, hcount, fun key hkey => ?_⟩
    rw [exitInstance, if_pos hstay.symm]
    exact hloop.get_of_ne hkey

theorem SubmitWork.Of.fireCounter (hwork : work.Of cfg a arguments)
    (hunwritten : ∀ key ∈ writtenSlots (a.transition.get "output"), ¬ IsFireCounter key)
    (hkey : IsFireCounter key) : work.next.context.get key = a.inst.context.get key :=
  (hwork.maps.get_of_not_written fun hmem => hunwritten key hmem hkey).resolve_right fun h => hkey.not_waitMarker h.1

theorem countFire_reads (hcap : maxFires a.transition = some cap) (hcount : countFire a context = .ok counted) : ∃ n,
    readCounterSlot context (fireCountKey a.inst.state a.request.transition) = .ok n ∧
    counted = context.insert (fireCountKey a.inst.state a.request.transition) (.nat (saturate (n + 1))) := by
  unfold countFire at hcount
  rw [hcap] at hcount
  dsimp only at hcount
  cases hread : readCounterSlot context (fireCountKey a.inst.state a.request.transition) with
  | error e => rw [hread] at hcount; cases hcount
  | ok n =>
    rw [hread] at hcount
    cases hcount
    exact ⟨n, rfl, rfl⟩

theorem Admitted.Commits.fireCounter (hnext : a.Commits v work next) (hwork : work.Of cfg a arguments)
    (hunwritten : ∀ key ∈ writtenSlots (a.transition.get "output"), ¬ IsFireCounter key)
    (hkey : IsFireCounter key) (hother : ∀ t, key ≠ fireCountKey a.inst.state t) :
    next.context.get key = a.inst.context.get key ∨ next.context.get key = none := by
  have hruntime : ¬ RuntimeKey (a.firing arguments) key := by
    rintro (h | h | h)
    · exact hkey.ne (by decide) h
    · exact hkey.ne (not_isFireCounter_whileIter) h
    · obtain ⟨t, ht⟩ := (startsWith_fireCountStem _ _).mp h
      exact hother t ht
  exact (hnext.kept hruntime).imp (fun h => h.trans (hwork.fireCounter hunwritten hkey)) And.right

variable (hb : CountsFires a.inst fires) (ha : a.Cleared)

include hb ha

theorem CountsFires.fires_lt (hcap : DeclaresCap a.inst.definition a.inst.state a.request.transition cap) :
    maxFires a.transition = some cap ∧ fires a.request.transition < cap := by
  obtain ⟨transition, htransition, hmax⟩ := hcap.2
  rw [ha.transition] at htransition
  cases htransition
  obtain ⟨n, hread, hlt⟩ := ha.capped cap hmax
  rw [hb.exact _ cap hcap] at hread
  cases hread
  exact ⟨hmax, hlt⟩

theorem CountsFires.stayed (hobject : a.inst.context.isObject) (hwork : work.Of cfg a arguments)
    (hnext : a.Commits v work next) (hunwritten : ∀ key ∈ writtenSlots (a.transition.get "output"), ¬ IsFireCounter key)
    (hstay : next.state = a.inst.state)
    (hdefinition : next.definition = a.inst.definition) :
    CountsFires next fun t => if a.request.transition = t then fires t + 1 else fires t := by
  obtain ⟨context, hcount, hcontext⟩ := hnext.counted hstay
  have hcounter (t : String) : next.context.get (fireCountKey a.inst.state t) = context.get (fireCountKey a.inst.state t) :=
    hcontext _ ((isFireCounter_key _ t).ne (not_isFireCounter_whileIter))
  have hworked (t : String) : (withSummary a.request.summary work.next.context).get (fireCountKey a.inst.state t) =
      a.inst.context.get (fireCountKey a.inst.state t) :=
    (get_withSummary_of_ne ((isFireCounter_key _ t).ne (by decide))).trans
      (hwork.fireCounter hunwritten (isFireCounter_key _ t))
  refine ⟨fun key hkey hsome => ?_, fun t cap hcap => ?_⟩
  · rw [hstay]
    by_contra hnone
    have hown := hb.own key hkey
    rcases hnext.fireCounter hwork hunwritten hkey fun t h => hnone ⟨t, h⟩ with hsame | hgone
    · exact hnone (hown (hsame ▸ hsome))
    · exact hsome hgone
  · rw [hstay, hdefinition] at hcap
    rw [hstay, readCounterSlot_congr (hcounter t)]
    by_cases ht : a.request.transition = t
    · subst ht
      obtain ⟨hmax, hlt⟩ := hb.fires_lt ha hcap
      obtain ⟨n, hread, rfl⟩ := countFire_reads hmax hcount
      rw [readCounterSlot_congr (hworked _), hb.exact _ cap hcap] at hread
      cases hread
      have hsaturate : saturate (fires a.request.transition + 1) = fires a.request.transition + 1 := by
        have hfits := hcap.1
        unfold saturate
        omega
      have hobject : (withSummary a.request.summary work.next.context).isObject :=
        (hwork.edited.trans (edited_withSummary _ _)).isObject.trans hobject
      rw [if_pos rfl, hsaturate, readCounterSlot, Value.get_insert hobject, if_pos rfl]
      rfl
    · rw [if_neg ht, readCounterSlot_congr ((get_countFire_of_ne hcount
        fun h => ht (fireCountKey_inj.mp h).symm).trans (hworked t))]
      exact hb.exact t cap hcap

end

section

variable {h : History} {f : Firing} {next : WorkflowInstance} {fires : String → Nat} {v : Nat}
  {r : Except Err WorkflowInstance}

theorem addFires_left (hleft : next.state ≠ f.before.state) :
    addFires fires (.saved (.transition f) next) = fun _ => 0 :=
  funext fun _ => if_pos hleft

theorem addFires_stayed (hstay : next.state = f.before.state) (hsite : f.site ≠ .timeout) :
    addFires fires (.saved (.transition f) next) = fun t => if f.transition = t then fires t + 1 else fires t := by
  simp [addFires, hstay, hsite]

theorem Commit.fireCounter (hc : Commit cfg Φ h f next) (hsubmit : f.site ≠ .submit) (htimeout : f.site ≠ .timeout)
    (hunwritten : ∀ key ∈ writtenSlots (f.definition.get "output"), ¬ IsFireCounter key)
    (hkey : IsFireCounter key) : next.context.get key = f.before.context.get key := by
  obtain ⟨applied, happlied⟩ := hc.applied htimeout
  have hmapped : applied.get key = f.before.context.get key :=
    (happlied.maps.get_of_not_written fun hmem => hunwritten key hmem hkey).resolve_right fun h => hkey.not_waitMarker h.1
  have hruntime : ¬ RuntimeKey f key := by
    cases hc with
    | submit _ _ _ => exact absurd rfl hsubmit
    | hop _ hhop _ _ _ => exact mt hhop.runtimeKey.mp hkey.not_engineKey
    | timeout _ => exact absurd rfl htimeout
  exact ((happlied.kept key hruntime).resolve_right fun h => hsubmit h.1.1).trans hmapped

theorem Commit.countsFires (hc : Commit cfg Φ h f next) (hb : CountsFires f.before fires)
    (hobject : f.before.context.isObject) (hkept : FiresKept (.op (.storeSave (.transition f) next v) r)) :
    CountsFires next (addFires fires (.saved (.transition f) next)) ∧
      (f.site ≠ .timeout → ∀ cap, DeclaresCap f.before.definition f.before.state f.transition cap →
        fires f.transition < cap) := by
  obtain ⟨huncapped, hexit, hunwritten⟩ := hkept
  have hdefinition : next.definition = f.before.definition := by rw [hc.frame]
  by_cases hsubmit : f.site = .submit
  · cases hc with
    | @submit a arguments _ _ hgated hwork hnext =>
      have hunwritten := hunwritten (by simp [Admitted.firing])
      refine ⟨?_, fun _ cap hcap => (hb.fires_lt hgated.cleared hcap).2⟩
      by_cases hstay : next.state = a.inst.state
      · rw [addFires_stayed hstay (by simp [Admitted.firing])]
        exact hb.stayed hgated.cleared hobject hwork hnext hunwritten hstay hdefinition
      · rw [addFires_left hstay]
        obtain ⟨context, hcontext⟩ := StateLocal.submit_clears hgated.cleared.toOk hnext hstay
        refine hb.left (fun t => ?_) fun key hkey hother => hnext.fireCounter hwork hunwritten hkey hother
        rw [hcontext]
        exact get_cleanup_of_owned (.inr (.inr ⟨t, rfl⟩)) context
    | hop _ hhop _ _ _ => exact absurd hsubmit hhop.site.1
    | timeout _ => cases hsubmit
  · have hcontext (key : String) (hkey : IsFireCounter key) : next.context.get key = f.before.context.get key := by
      by_cases htimeout : f.site = .timeout
      · rw [hc.context_of_timeout htimeout]
      · exact hc.fireCounter hsubmit htimeout (hunwritten htimeout) hkey
    refine ⟨?_, fun htimeout cap hcap => absurd hcap (huncapped hsubmit htimeout cap)⟩
    by_cases hstay : next.state = f.before.state
    · refine (hb.congr hstay hdefinition hcontext).of_agree fun t cap hcap => ?_
      rw [hstay, hdefinition] at hcap
      simp only [addFires, hstay, ne_eq, not_true_eq_false, if_false]
      refine if_neg ?_
      rintro ⟨htimeout, rfl⟩
      exact huncapped hsubmit htimeout cap hcap
    · rw [addFires_left hstay]
      exact hb.left (fun t => (hcontext _ (isFireCounter_key _ t)).trans (hexit hsubmit hstay t))
        fun key hkey _ => .inl (hcontext key hkey)

end

section

variable {h : History} {next : WorkflowInstance} {fires : String → Nat} {v : Nat} {r : Except Err WorkflowInstance}

theorem Saves.countsFires (hs : Saves cfg Φ h kind next) (hb : CountsFires kind.base fires)
    (hobject : kind.base.context.isObject) (hkept : FiresKept (.op (.storeSave kind next v) r)) :
    CountsFires next (addFires fires (.saved kind next)) := by
  cases hs with
  | transition hcommit _ => exact (hcommit.countsFires hb hobject hkept).1
  | lockWait _ | subworkflowWait | agentAwait | spawnBinding =>
    exact hb.congr rfl rfl fun key hkey => get_writeMarker_of_ne _ _ (hkey.ne (by decide))
  | slotUpdates _ _ _ hmerge =>
    exact hb.congr rfl rfl fun key hkey => mergeOutput_get_of_not_written _ _ hmerge fun hmem => hkept key hmem hkey
  | onEnter _ hmerge _ =>
    exact hb.congr rfl rfl fun key hkey => mergeOutput_get_of_not_written _ _ hmerge fun hmem => hkept key hmem hkey
  | deadWait =>
    exact hb.congr rfl rfl fun key hkey => (Value.get_remove _ _ _).trans (if_neg (hkey.ne (by decide)))
  | cancel => exact hb.congr rfl rfl fun _ _ => rfl

end

def WithinCap (fires : String → Nat) (write : StoreWrite) : Prop :=
  write.inst.context.isObject = true ∧ ∀ f next, write = .saved (.transition f) next → f.site ≠ .timeout →
    ∀ cap, DeclaresCap f.before.definition f.before.state f.transition cap → fires f.transition < cap

theorem Tallied.fires (hm : Tallied cfg addFires (fun _ => 0) CountsFires WithinCap m) (hok : KeepsFires m a m')
    (hadded : Added cfg (fun _ _ => True) m a write) :
    CountsFires write.inst (addFires (firesInVisit write.inst.id m.world.journal) write) ∧
    WithinCap (firesInVisit write.inst.id m.world.journal) write := by
  cases hadded with
  | created happ _ _ =>
    obtain ⟨hobject, hnone⟩ := hok _ _ _ happ
    exact ⟨.zero hnone, hobject, fun _ _ heq => (by cases heq)⟩
  | saved _ happ hfind hbase hrebound _ hsaves =>
    have hkept := hok _ _ _ happ
    have hcounts := (hm.stored _ _ hfind).rebound hrebound
    obtain ⟨_, write, hwrite, hobject, -⟩ := hm.journaled hbase
    rw [hwrite] at hobject
    refine ⟨hsaves.countsFires hcounts hobject hkept, hsaves.isObject hobject, fun f next heq hsite cap hcap => ?_⟩
    cases heq
    exact (hsaves.commit.countsFires hcounts hobject hkept).2 hsite cap hcap

/-- A refusal at the cap shows a snapshot that was stored when it was loaded, with the transition fired as often
as its cap allows in the visit it shows. -/
def RefusedAtCap (journal : List StoreWrite) (inst : WorkflowInstance) (detail : Fields) : Prop :=
  ∃ t seen, detail = [("attemptedTransition", .string t)] ∧ seen <+: journal ∧ current inst.id seen = some inst ∧
    (∃ transition, transitionDefinition inst.definition inst.state t = some transition ∧ (maxFires transition).isSome) ∧
    ∀ cap, DeclaresCap inst.definition inst.state t cap → cap ≤ firesInVisit inst.id seen t

/-- In every run whose steps keep counters and fires together, no transition is committed more often in a visit
than its cap allows, and a submit is refused at the cap only when it has been. -/
theorem fires_capped {m : Gateway} (hm : ReachableWith cfg KeepsFires definitions m) :
    (∀ before f next after, m.world.journal = before ++ .saved (.transition f) next :: after → f.site ≠ .timeout →
      ∀ cap, DeclaresCap f.before.definition f.before.state f.transition cap →
        firesInVisit next.id before f.transition < cap) ∧
    ∀ request hist r stack, ⟨.submit request, hist, .pure (.ok r), stack⟩ ∈ m.threads → ∀ message detail,
      r.error = some ⟨"TRANSITION_FIRE_CAP_EXCEEDED", message, detail⟩ →
        RefusedAtCap m.world.journal r.workflow detail := by
  have htallied := ReachableWith.tallied hm Tallied.fires
  refine ⟨fun before f next after hsplit hsite cap hcap =>
    (htallied.written before _ after hsplit).2 f next rfl hsite cap hcap, fun request hist r stack ht message detail he => ?_⟩
  obtain ⟨⟨e, hmem, id, rfl⟩, t, rfl, transition, cap, fired, htransition, hmax, hread, hle⟩ :=
    (ReachableWith.returned hm ht).capped message detail he
  obtain ⟨seen, hpre, hcurrent, hcounts⟩ := ReachableWith.loads hm Tallied.fires _ ht _ (.head _) _ hmem _ _ rfl
  obtain rfl : r.workflow.id = id := (mem_of_current hcurrent).1
  refine ⟨t, seen, rfl, hpre, hcurrent, ⟨transition, htransition, by simp [hmax]⟩, fun declared hdeclared => ?_⟩
  rw [hcounts.exact t declared hdeclared] at hread
  cases hread
  obtain ⟨_, htransition', hmax'⟩ := hdeclared.2
  cases htransition.symm.trans htransition'
  cases hmax.symm.trans hmax'
  exact hle

def cappedDefinition (actor : String) : Value :=
  definitionOf "a" [("a", stateOf [("go", transitionOf "a" actor [("max_fires_per_visit", .nat 1)])])]

def overfires (journal : List StoreWrite) : Bool :=
  match journal.getLast? with
  | some (.saved (.transition f) next) => decide (f.site ≠ .timeout ∧
      (transitionDefinition f.before.definition f.before.state f.transition).bind maxFires = some 1 ∧
      firesInVisit next.id journal.dropLast f.transition = 1)
  | _ => false

theorem hop_ignores_cap : ∃ m, Reachable .plain [("d", cappedDefinition "deterministic")] m ∧
    ∃ before f next after, m.world.journal = before ++ .saved (.transition f) next :: after ∧ f.site ≠ .timeout ∧
      DeclaresCap f.before.definition f.before.state f.transition 1 ∧ firesInVisit next.id before f.transition = 1 := by
  obtain ⟨m, hm, h⟩ := reachable_of_script .plain [("d", cappedDefinition "deterministic")]
    (launch 0 "d" "1" ++ answers 0 15) (fun m => overfires m.world.journal)
  unfold overfires at h
  split at h
  · rename_i f next hlast
    obtain ⟨hsite, hcap, hfires⟩ := of_decide_eq_true h
    refine ⟨m, hm, _, f, next, [], (dropLast_append_getLast? _ hlast).symm, hsite, ⟨by decide, ?_⟩, hfires⟩
    exact Option.bind_eq_some_iff.mp hcap
  · cases h

def resubmitScript : List GatewayAction :=
  launch 0 "d" "1" ++ .spawn (.submit (goSubmit "wf_1" 0)) :: answers 1 1 ++ [.answer 1 (.fresh "2")] ++ answers 1 3 ++
    .spawn (.submit (goSubmit "wf_1" 1)) :: answers 2 1 ++ [.answer 2 (.fresh "3")] ++ answers 2 3

def submitsCapped (m : Gateway) (a : GatewayAction) : Bool :=
  match m.pending a with
  | some (.storeSave (.transition f) _ _) => decide (f.site = .submit ∧ f.definition.get "output" = none)
  | some (.storeSave ..) => false
  | some (.storeCreate inst) => decide (inst.context = .emptyObject)
  | _ => true

theorem keepsFires_of_submitsCapped (m : Gateway) (a : GatewayAction) (m' : Gateway) (h : submitsCapped m a) :
    KeepsFires m a m' := by
  intro p hist e happ
  cases e with
  | call p r | timeout p r => trivial
  | op o r =>
    unfold submitsCapped at h
    rw [happ.pending] at h
    cases o with
    | storeCreate inst =>
      have hempty := of_decide_eq_true h
      exact ⟨by rw [hempty]; rfl, fun key _ => by rw [hempty]; rfl⟩
    | storeSave kind next v =>
      cases kind with
      | transition f =>
        obtain ⟨hsite, hmapping⟩ := of_decide_eq_true h
        refine ⟨fun hno => absurd hsite hno, fun hno => absurd hsite hno, fun _ key hkey => ?_⟩
        rw [hmapping] at hkey
        cases hkey
      | _ => cases h
    | _ => trivial

def refusedAtCap : Thread Sig → Bool
  | ⟨.submit _, _, .pure (.ok r), _⟩ => decide (r.error.map ResponseError.code = some "TRANSITION_FIRE_CAP_EXCEEDED")
  | _ => false

theorem second_submit_refused : ∃ m, ReachableWith .plain KeepsFires [("d", cappedDefinition "caller")] m ∧
    firesInVisit "wf_1" m.world.journal "go" = 1 ∧
    (∃ request hist r stack message detail, ⟨.submit request, hist, .pure (.ok r), stack⟩ ∈ m.threads ∧
      r.error = some ⟨"TRANSITION_FIRE_CAP_EXCEEDED", message, detail⟩ ∧
      RefusedAtCap m.world.journal r.workflow detail) ∧
    ∀ before f next after, m.world.journal = before ++ .saved (.transition f) next :: after → f.site ≠ .timeout →
      ∀ cap, DeclaresCap f.before.definition f.before.state f.transition cap →
        firesInVisit next.id before f.transition < cap := by
  obtain ⟨m, hm, h⟩ := reachableWith_of_script .plain [("d", cappedDefinition "caller")] resubmitScript
    (fun m => firesInVisit "wf_1" m.world.journal "go" = 1 ∧ ∃ t ∈ m.threads, refusedAtCap t = true) submitsCapped
    keepsFires_of_submitsCapped
  obtain ⟨hfires, t, ht, hrefused⟩ := h
  refine ⟨m, hm, hfires, ?_, (fires_capped hm).1⟩
  unfold refusedAtCap at hrefused
  split at hrefused
  · rename_i request hist r stack
    obtain ⟨⟨code, message, detail⟩, herror, rfl⟩ := Option.map_eq_some_iff.mp (of_decide_eq_true hrefused)
    exact ⟨request, hist, r, stack, message, detail, ht, herror,
      (fires_capped hm).2 request hist r stack ht message detail herror⟩
  · cases hrefused

end Praxec
