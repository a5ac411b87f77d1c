import Praxec.Runtime.Parking
import Praxec.Runtime.Replies
import Praxec.Runtime.Resolution

namespace Praxec

open Json Effect Monitor List Gateway Machine

variable {cfg : RuntimeConfig} {definitions : Fields}

def replied : Thread Sig → Option Response
  | ⟨.start _, _, .pure (.ok r), _⟩ | ⟨.submit _, _, .pure (.ok r), _⟩ => some r
  | _ => none

def WorkflowInstance.AwaitsHuman (inst : WorkflowInstance) : Prop :=
  ((stateDefinition inst.definition inst.state).bind fun s => strField s "actor") = some "human"

instance (inst : WorkflowInstance) : Decidable inst.AwaitsHuman :=
  inferInstanceAs (Decidable (_ = _))

variable {r : Response}

theorem Response.status_of_parks (hparks : r.hint.Parks) : r.status = .waiting ↔ ¬ r.workflow.AtEnd := by
  unfold Response.status WorkflowInstance.AtEnd
  cases isTerminal r.workflow.definition r.workflow.state with
  | true =>
    refine iff_of_false (fun hwaiting => ?_) (not_not_intro rfl)
    have hresolved := congrArg MissionStatus.isResolved hwaiting
    rw [isResolved_deriveMissionStatus] at hresolved
    cases hresolved
  | false => rcases hparks with h | h | h <;> simp [h, deriveMissionStatus]

theorem Response.status_of_read (hhint : r.hint = .waitingForAction) (hopen : ¬ r.workflow.AtEnd) :
    r.status = .waiting ↔ r.workflow.AwaitsHuman := by
  have hnot : isTerminal r.workflow.definition r.workflow.state = false := Bool.eq_false_iff.mpr hopen
  simp only [Response.status, hnot, hhint, deriveMissionStatus, WorkflowInstance.AwaitsHuman]
  split <;> simp_all

section

variable {m : Gateway}

theorem Saves.live_of_parks {kind : SaveKind} {next : WorkflowInstance}
    (hs : Saves cfg Φ h kind next) (hlive : kind.Live) (hparks : kind.Parks) : next.cancelledAt = none := by
  cases hs with
  | lockWait _ _ | subworkflowWait _ | agentAwait _ => exact hlive
  | _ => exact hparks.elim

theorem Gateway.ReachableWith.parked_live (hm : ReachableWith cfg ok definitions m) (ht : t ∈ m.threads)
    (hr : replied t = some r) (hparks : r.hint.Parks) : r.workflow.cancelledAt = none := by
  have hsaved : Trail.Has (t.proc, t.hist) (SavesAs SaveKind.Parks r.workflow) := by
    unfold replied at hr
    split at hr <;> cases hr <;>
    · have hreplied := ReachableWith.returned hm ht
      exact hreplied.parked hparks
  obtain ⟨e, he, kind, next, v, hkind, rfl⟩ := hsaved
  have hecho : Echoes _ := hm.from_reached.appended (fun hok p hist o r happ =>
    (lineage_of_reaches hok.1).echoes hok.2.1 happ)
    (fun p _ => by cases p <;> trivial) (fun p _ => by cases p <;> trivial) rfl t ht _ (.head _) _ he
  obtain ⟨before, after, hsplit⟩ := append_of_mem he
  have hcommitted := committed_of_reaches hm t ht _ (.head _) _ _ _ hsplit
  rw [hecho]
  exact hcommitted.2.live_of_parks hcommitted.1.2.2 hkind

/-- What a `get` that has returned shows, and where it has it from. -/
theorem Gateway.ReachableWith.got {ok : Gateway → GatewayAction → Gateway → Prop}
    (hm : ReachableWith cfg ok definitions m) {id : String} {principal : Principal} {hist : History}
 {stack : Stack Sig (Proc.get id principal)} (ht : ⟨Proc.get id principal, hist, .pure (.ok r), stack⟩ ∈ m.threads) :
    ∃ loaded shown hint, GetReads id hist loaded shown hint ∧ r.Shows shown hint none := by
  have hget : (Monitor.history Echoes fun _ _ => True).Triple (fun h => h = []) (get cfg id principal) (fun r h =>
      ∃ loaded shown hint, GetReads id h loaded shown hint ∧ r.Shows shown hint none) fun _ _ => True :=
    get_triple (R := fun inst hint r => r.Shows inst hint none) (fun kind next v saved ha => ha)
      fun hP inst hint => response_shows fun e _ => hP.keeps fun _ _ _ => trivial
  exact hm.from_reached.finished (fun hok p hist o r happ => (lineage_of_reaches hok.1).echoes hok.2.1 happ)
    (fun p _ => by cases p <;> trivial) (fun p _ => by cases p <;> trivial) rfl (p := Proc.get id principal)
    (hget [] rfl) ht

end

section

def Unwritten (id : String) (m : Gateway) (a : GatewayAction) (_ : Gateway) : Prop :=
  ∀ p hist e inst, m.Appends a p hist e → CreatesAs inst e ∨ SavesAs (fun _ => True) inst e → inst.id ≠ id

/-- The event, which came after `inst` was stored and before anything else was, reads and writes accordingly. -/
def Sees (inst : WorkflowInstance) (e : Event Sig) : Prop :=
  (∀ loaded, e = .op (.storeLoad inst.id) (.ok loaded) → loaded = inst) ∧
    ∀ saved, SavesAs (fun _ => True) saved e → saved.id ≠ inst.id

/-- The snapshot is still stored, and task `j`, if there is one, has seen no other. -/
structure Undisturbed (cfg : RuntimeConfig) (definitions : Fields) (inst : WorkflowInstance) (j : Nat)
    (m : Gateway) : Prop where
  reachable : Reachable cfg definitions m
  stored : m.world.find inst.id = some inst
  sees : ∀ t, m.threads[j]? = some t → ∀ x ∈ t.activations, ∀ e ∈ x.2, Sees inst e

variable {m : Gateway} {a : GatewayAction}

theorem Gateway.Lineage.find_unwritten {id : String} (hm : m.Lineage cfg Φ)
    (hact : m.act (body cfg) a = some m') (hok : Unwritten id m a m') : m'.world.find id = m.world.find id := by
  rcases hm.journal_step hact with ⟨-, hsame⟩ | ⟨write, -, hadded, hfind⟩
  · simp only [World.find, hsame]
  · rw [hfind, if_neg]
    cases hadded with
    | created happ _ _ => exact hok _ _ _ _ happ (.inl ⟨_, rfl⟩)
    | saved _ happ _ _ _ _ _ => exact hok _ _ _ _ happ (.inr ⟨_, _, _, trivial, rfl⟩)

theorem Undisturbed.step (hm : Undisturbed cfg definitions inst j m) (hact : m.act (body cfg) a = some m')
    (hok : Unwritten inst.id m a m') : Undisturbed cfg definitions inst j m' where
  reachable := hm.reachable.step hact trivial
  stored := by
    have hlineage := lineage_of_reaches hm.reachable
    rw [hlineage.find_unwritten hact hok]
    exact hm.stored
  sees t ht x hx e he := by
    rcases activations_of_moves (moves hact ht) hx with
      ⟨t₀, ht₀, hx₀⟩ | hempty | ⟨hist, last, heq, happ, t₀, ht₀, hx₀⟩
    · exact hm.sees t₀ ht₀ x hx₀ e he
    · rw [hempty] at he
      cases he
    · rw [heq] at he
      rcases mem_append.mp he with hold | hlast
      · exact hm.sees t₀ ht₀ _ hx₀ e hold
      · cases mem_singleton.mp hlast
        refine ⟨fun loaded heq => ?_, fun saved hsaves => hok _ _ _ _ happ (.inr hsaves)⟩
        subst heq
        exact Option.some.inj ((loaded_of_appends happ).symm.trans hm.stored)

end

/-- A run that a call has parked, and that nothing has been written to since, is reported as waiting by a `get` that
comes after the call just if a human is to act in its state. -/
theorem parked_shown_waiting {m₁ m₂ : Gateway} (hm : Reachable cfg definitions m₁) {t : Thread Sig}
    (ht : t ∈ m₁.threads) {r : Response} (hr : replied t = some r) (hparks : r.hint.Parks) (hwaiting : r.status = .waiting)
    {id : String} (hid : r.workflow.id = id) (hstored : m₁.world.find id = some r.workflow)
    (hrun : Reaches (body cfg) (Unwritten id) m₁ m₂) {j : Nat} (hj : m₁.threads.length ≤ j)
    {principal : Principal} {hist : History} {r' : Response} {stack : Stack Sig (.get id principal)}
    (hget : m₂.threads[j]? = some ⟨.get id principal, hist, .pure (.ok r'), stack⟩) :
    r'.status = .waiting ↔ r.workflow.AwaitsHuman := by
  subst hid
  have hopen := (Response.status_of_parks hparks).mp hwaiting
  have hlive := ReachableWith.parked_live hm ht hr hparks
  have hseen : Undisturbed cfg definitions r.workflow j m₂ :=
    hrun.invariant ⟨hm, hstored, fun t ht => by simp [getElem?_eq_none hj] at ht⟩ fun h hact hok => h.step hact hok
  obtain ⟨loaded, shown, hint, hreads, hshows⟩ := ReachableWith.got hseen.reachable (mem_of_getElem? hget)
  have hsees := hseen.sees _ hget _ (.head _)
  obtain rfl := (hsees _ (mem_of_head? hreads.loads)).1 loaded rfl
  rcases hreads.source with ⟨rfl, rfl⟩ | ⟨target, -, rfl, kind, v, hsaved⟩
  · have hhint : r'.hint = .waitingForAction := by simp [hshows.hint, hlive]
    rw [Response.status_of_read hhint (hshows.workflow ▸ hopen), hshows.workflow]
  · have hother := (hsees _ hsaved).2 _ ⟨_, _, _, trivial, rfl⟩
    exact absurd rfl hother

def parkedScript : List GatewayAction :=
  parkScript ++ answers 3 1

def readParkedScript : List GatewayAction :=
  .spawn (.get "wf_2" .anonymous) :: answers 4 2

def humanLockedDefinition : Value :=
  definitionOf "a" [("a", .object [("actor", "human"), ("transitions", .object [("go", transitionOf "b" "caller"
    [("executor", .object [("kind", "noop"), ("owned_files", .array [.string "f"])])])])]), ("b", terminalState)]

def storesNothing (m : Gateway) (a : GatewayAction) : Bool :=
  match m.pending a with
  | some (.storeCreate _) | some (.storeSave ..) => false
  | _ => true

theorem unwritten_of_storesNothing (id : String) (m : Gateway) (a : GatewayAction) (m' : Gateway)
    (h : storesNothing m a) : Unwritten id m a m' := by
  intro p hist e inst happ hwrites
  unfold storesNothing at h
  rcases hwrites with ⟨fresh, rfl⟩ | ⟨kind, next, v, -, rfl⟩ <;>
  · rw [happ.pending] at h
    cases h

def parkedAs (m : Gateway) (t : Thread Sig) : Bool :=
  (replied t).any fun r => decide (r.hint = .waitingOnLock ∧ r.status = .waiting ∧ r.workflow.id = "wf_2" ∧
    m.world.find "wf_2" = some r.workflow)

def readAs (status : MissionStatus) : Thread Sig → Bool
  | ⟨.get id _, _, .pure (.ok r), _⟩ => decide (id = "wf_2" ∧ r.status = status)
  | _ => false

theorem readAs_spec (h : readAs status t) :
    ∃ principal hist r stack, t = ⟨.get "wf_2" principal, hist, .pure (.ok r), stack⟩ ∧ r.status = status := by
  unfold readAs at h
  split at h
  · obtain ⟨rfl, hstatus⟩ := of_decide_eq_true h
    exact ⟨_, _, _, _, rfl, hstatus⟩
  · cases h

theorem parked_then_read (definition : Value) (status : MissionStatus)
    (h : ((boot [("d", definition)]).runs (body .plain) (fun _ _ => true) parkedScript).any
      (fun m => (m.runs (body .plain) storesNothing readParkedScript).any fun m' =>
        m.threads.any (parkedAs m) && (m'.threads[m.threads.length]?).any (readAs status))) :
    ∃ m₁ m₂, Reachable .plain [("d", definition)] m₁ ∧ (∃ t ∈ m₁.threads, ∃ r, replied t = some r ∧
      r.hint = .waitingOnLock ∧ r.status = .waiting ∧ r.workflow.id = "wf_2" ∧ m₁.world.find "wf_2" = some r.workflow) ∧
      Reaches (body .plain) (Unwritten "wf_2") m₁ m₂ ∧ ∃ principal hist r' stack,
        m₂.threads[m₁.threads.length]? = some ⟨.get "wf_2" principal, hist, .pure (.ok r'), stack⟩ ∧ r'.status = status := by
  obtain ⟨m₁, m₂, hm, hrun, h⟩ := reaches_of_scripts .plain [("d", definition)] parkedScript storesNothing
    (unwritten_of_storesNothing "wf_2") h
  obtain ⟨hparked, hread⟩ := Bool.and_eq_true_iff.mp h
  obtain ⟨t, ht, hparked⟩ := any_eq_true.mp hparked
  obtain ⟨r, hr, hparked⟩ := (Option.any_eq_true _ _).mp hparked
  obtain ⟨t', ht', hread⟩ := (Option.any_eq_true _ _).mp hread
  obtain ⟨principal, hist, r', stack, rfl, hstatus⟩ := readAs_spec hread
  exact ⟨m₁, m₂, hm, ⟨t, ht, r, hr, of_decide_eq_true hparked⟩, hrun, principal, hist, r', stack, ht', hstatus⟩

/-- A run parked on a lease is reported as running by the next `get`. -/
theorem parked_run_shown_running : ∃ m₁ m₂, Gateway.Reachable .plain [("d", lockedDefinition)] m₁ ∧
    (∃ t ∈ m₁.threads, ∃ r, replied t = some r ∧ r.hint = .waitingOnLock ∧ r.status = .waiting ∧
      r.workflow.id = "wf_2" ∧ m₁.world.find "wf_2" = some r.workflow) ∧
    Machine.Reaches (body .plain) (Unwritten "wf_2") m₁ m₂ ∧ ∃ principal hist r' stack,
      m₂.threads[m₁.threads.length]? = some ⟨.get "wf_2" principal, hist, .pure (.ok r'), stack⟩ ∧ r'.status = .running :=
  parked_then_read lockedDefinition .running (by decide +kernel)

theorem human_parked_shown_waiting : ∃ m₁ m₂, Gateway.Reachable .plain [("d", humanLockedDefinition)] m₁ ∧
    ∃ inst, m₁.world.find "wf_2" = some inst ∧ Machine.Reaches (body .plain) (Unwritten "wf_2") m₁ m₂ ∧
      ∃ principal hist r stack, m₂.threads[m₁.threads.length]? = some ⟨.get "wf_2" principal, hist, .pure (.ok r), stack⟩ ∧
        r.status = .waiting ∧ inst.AwaitsHuman := by
  obtain ⟨m₁, m₂, hm, ⟨t, ht, r, hr, hhint, hwaiting, hid, hstored⟩, hrun, principal, hist, r', stack, hget, hstatus⟩ :=
    parked_then_read humanLockedDefinition .waiting (by decide +kernel)
  refine ⟨m₁, m₂, hm, r.workflow, hstored, hrun, principal, hist, r', stack, hget, hstatus, ?_⟩
  exact (parked_shown_waiting hm ht hr (.inl hhint) hwaiting hid hstored hrun (Nat.le_refl _) hget).mp hstatus

end Praxec
