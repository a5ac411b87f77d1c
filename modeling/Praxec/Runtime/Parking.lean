import Praxec.Runtime.StateLocal
import Praxec.Runtime.Tally

namespace Praxec

open Json Effect List Option Gateway

variable {cfg : RuntimeConfig} {definitions : Fields}

def lockWaitOf (context : Value) : Option (String × List Path) :=
  (context.get "_lock_wait").map fun wait => (lockWaitTransition wait, lockWaitFiles wait)

/-- What a write makes of the park before it: a lock wait parks the run, and a transition resolves that. -/
def StoreWrite.parks (parked : Option (String × List Path)) : StoreWrite → Option (String × List Path)
  | .created _ | .saved (.transition _) _ => none
  | .saved (.lockWait _ files transition) _ => some (transition, files)
  | .saved .. => parked

def parkedOn (id : String) (journal : List StoreWrite) : Option (String × List Path) :=
  journal.foldl (fun parked write => if write.inst.id = id then write.parks parked else parked) none

theorem parkedOn_snoc (id : String) (journal : List StoreWrite) (write : StoreWrite) :
    parkedOn id (journal ++ [write]) =
      if write.inst.id = id then write.parks (parkedOn id journal) else parkedOn id journal := by
  simp [parkedOn]

theorem lockWaitOf_congr (h : a.get "_lock_wait" = b.get "_lock_wait") : lockWaitOf a = lockWaitOf b := by
  rw [lockWaitOf, h, lockWaitOf]

theorem lockWaitOf_none (h : context.get "_lock_wait" = none) : lockWaitOf context = none := by
  rw [lockWaitOf, h, map_none]

theorem lockWaitFiles_record :
    lockWaitFiles (lockWaitRecord files conflict t) = files := by
  have hfiles : (lockWaitRecord files conflict t).get "files" = some (.array (files.map Value.string)) := rfl
  rw [lockWaitFiles, hfiles]
  simp [Value.asArray, filterMap_map, Function.comp_def, Value.asStr]

theorem lockWaitOf_parked :
    lockWaitOf (parkedInstance base "_lock_wait" (lockWaitRecord files conflict t)).context = some (t, files) := by
  have hmarker : (parkedInstance base "_lock_wait" (lockWaitRecord files conflict t)).context.get "_lock_wait" =
      some (lockWaitRecord files conflict t) := get_writeMarker_self _ _ _
  rw [lockWaitOf, hmarker, map_some, lockWaitFiles_record]
  rfl

theorem lockWait_not_runtimeKey : ¬ RuntimeKey f "_lock_wait" := by
  unfold RuntimeKey
  split
  · rintro (h | h | h)
    · exact absurd h (by decide)
    · have hchars := congrArg String.toList h
      simp [whileIterKey] at hchars
    · obtain ⟨t, ht⟩ := (startsWith_fireCountStem _ _).mp h
      have hchars := congrArg String.toList ht
      simp [fireCountKey, fireCountStem] at hchars
  · exact id
  · decide

/-- The event keeps the marker and the park together: a transition starts from an unmarked context and
does not write the marker, or it is submitted and leaves a state that declares the marker as its own slot;
nothing else but a park writes the marker; and what is parked has a name. -/
def MarkerKept : Event Sig → Prop
  | .op (.storeSave (.transition f) next _) _ =>
      f.before.context.get "_lock_wait" = none ∧ "_lock_wait" ∉ writtenSlots (f.definition.get "output") ∨
      f.site = .submit ∧ next.state ≠ f.before.state ∧
        "_lock_wait" ∈ stateLocalSlots f.before.definition f.before.state
  | .op (.storeSave (.lockWait _ _ transition) _ _) _ => transition ≠ ""
  | .op (.storeSave (.slotUpdates _ mapping) _ _) _ | .op (.storeSave (.onEnter _ mapping) _ _) _ =>
      "_lock_wait" ∉ writtenSlots mapping
  | .op (.storeCreate inst) _ => inst.context.get "_lock_wait" = none
  | _ => True

def KeepsMarkers (m : Gateway) (a : GatewayAction) (_ : Gateway) : Prop :=
  ∀ p hist e, m.Appends a p hist e → MarkerKept e

section

variable {h : History} {next : WorkflowInstance}

theorem Commit.unmarked (hc : Commit cfg Φ h f next)
    (hkept : MarkerKept (.op (.storeSave (.transition f) next v) r)) : next.context.get "_lock_wait" = none := by
  rcases hkept with ⟨hunmarked, hunwritten⟩ | ⟨hsite, hleft, hslot⟩
  · by_cases hsite : f.site = .timeout
    · cases hc with
      | submit _ _ _ => cases hsite
      | hop _ hhop _ _ _ => exact absurd hsite hhop.site.2
      | timeout _ => exact hunmarked
    · obtain ⟨applied, happlied⟩ := hc.applied hsite
      have hmapped : applied.get "_lock_wait" = none :=
        (happlied.maps.get_of_not_written hunwritten).elim (fun hk => hk.trans hunmarked) And.right
      exact (happlied.kept _ (lockWait_not_runtimeKey)).elim (fun hk => hk.trans hmapped) And.right
  · cases hc with
    | submit hgated _ hnext =>
      obtain ⟨context, hcontext⟩ := StateLocal.submit_clears hgated.cleared.toOk hnext hleft
      rw [hcontext]
      exact get_cleanup_of_owned (.inl hslot) context
    | hop _ hhop _ _ _ => exact absurd hsite hhop.site.1
    | timeout _ => cases hsite

theorem Saves.parks (hs : Saves cfg Φ h kind next) (hkept : MarkerKept (.op (.storeSave kind next v) r)) :
    lockWaitOf next.context = (StoreWrite.saved kind next).parks (lockWaitOf kind.base.context) := by
  cases hs with
  | transition hcommit _ => exact lockWaitOf_none (hcommit.unmarked hkept)
  | lockWait _ => exact lockWaitOf_parked
  | subworkflowWait | agentAwait => exact lockWaitOf_congr (get_writeMarker_of_ne _ _ (by decide))
  | slotUpdates _ _ _ hmerge => exact lockWaitOf_congr (mergeOutput_get_of_not_written _ _ hmerge hkept)
  | onEnter _ hmerge _ => exact lockWaitOf_congr (mergeOutput_get_of_not_written _ _ hmerge hkept)
  | deadWait => exact lockWaitOf_congr ((Value.get_remove _ _ _).trans (if_neg (by decide)))
  | cancel => rfl
  | spawnBinding => exact lockWaitOf_congr (get_writeMarker_of_ne _ _ (by decide))

theorem Saves.parks_named (hs : Saves cfg Φ h kind next) (hkept : MarkerKept (.op (.storeSave kind next v) r))
    (hparked : ∀ p ∈ parked, p.1 ≠ "" ∧ p.2 ≠ []) :
    ∀ p ∈ (StoreWrite.saved kind next).parks parked, p.1 ≠ "" ∧ p.2 ≠ [] := by
  cases hs with
  | transition _ _ => exact fun _ hp => by cases hp
  | lockWait hfiles =>
    rintro _ ⟨⟩
    exact ⟨hkept, hfiles⟩
  | _ => exact hparked

end

structure Parking (cfg : RuntimeConfig) (m : Gateway) : Prop where
  lineage : m.Lineage cfg fun _ _ => True
  marked : ∀ id stored, m.world.find id = some stored → lockWaitOf stored.context = parkedOn id m.world.journal
  named : ∀ id, ∀ p ∈ parkedOn id m.world.journal, p.1 ≠ "" ∧ p.2 ≠ []
  stored : ∀ id, (parkedOn id m.world.journal).isSome → (m.world.find id).isSome
  unmarked : ∀ f next, .saved (.transition f) next ∈ m.world.journal → next.context.get "_lock_wait" = none

theorem Parking.boot : Parking cfg (boot definitions) where
  lineage := .boot definitions
  marked _ _ hfind := by cases hfind
  named _ _ hp := by cases hp
  stored _ hp := by cases hp
  unmarked _ _ hw := by cases hw

section

variable {m : Gateway} {a : GatewayAction}

theorem Parking.added (hm : Parking cfg m) (hok : ∀ p hist e, m.Appends a p hist e → MarkerKept e)
    (hadded : Added cfg (fun _ _ => True) m a write) :
    lockWaitOf write.inst.context = write.parks (parkedOn write.inst.id m.world.journal) ∧
    (∀ p ∈ write.parks (parkedOn write.inst.id m.world.journal), p.1 ≠ "" ∧ p.2 ≠ []) ∧
    ∀ f next, write = .saved (.transition f) next → next.context.get "_lock_wait" = none := by
  cases hadded with
  | created happ _ _ =>
    exact ⟨lockWaitOf_none (hok _ _ _ happ), fun _ hp => (by cases hp), fun _ _ heq => (by cases heq)⟩
  | saved _ happ hfind _ hrebound _ hsaves =>
    have hkept := hok _ _ _ happ
    have hbase := lockWaitOf_congr (hrebound.context "_lock_wait" (by decide))
    rw [hm.marked _ _ hfind] at hbase
    refine ⟨?_, hsaves.parks_named hkept (hm.named _), fun f next heq => ?_⟩
    · rw [StoreWrite.inst, hsaves.parks hkept, hbase]
    · cases heq
      exact hsaves.commit.unmarked hkept

theorem Parking.step (hm : Parking cfg m) (hact : m.act (body cfg) a = some m') (hok : KeepsMarkers m a m') :
    Parking cfg m' := by
  have hlineage := hm.lineage.step hact
  rcases hm.lineage.journal_step hact with ⟨hjournal, hinstances⟩ | ⟨write, hjournal, hadded, hfind⟩
  · have hsame (id : String) : m'.world.find id = m.world.find id := by rw [World.find, hinstances, World.find]
    refine ⟨hlineage, ?_, ?_, ?_, ?_⟩ <;> simp only [hjournal, hsame]
    exacts [hm.marked, hm.named, hm.stored, hm.unmarked]
  · obtain ⟨hmarked, hnamed, hunmarked⟩ := hm.added hok hadded
    refine ⟨hlineage, fun id stored hstored => ?_, fun id => ?_, fun id hparked => ?_, fun f next hw => ?_⟩
    · rw [hjournal, parkedOn_snoc]
      rw [hfind] at hstored
      split
      · rename_i hid
        rw [if_pos hid] at hstored
        cases hstored
        rw [hmarked, hid]
      · rename_i hid
        rw [if_neg hid] at hstored
        exact hm.marked id stored hstored
    · rw [hjournal, parkedOn_snoc]
      split
      · rename_i hid
        rw [← hid]
        exact hnamed
      · exact hm.named id
    · rw [hfind]
      rw [hjournal, parkedOn_snoc] at hparked
      split
      · rfl
      · rename_i hid
        rw [if_neg hid] at hparked
        exact hm.stored id hparked
    · rw [hjournal] at hw
      rcases mem_append.mp hw with hold | hlast
      · exact hm.unmarked f next hold
      · exact hunmarked f next (mem_singleton.mp hlast).symm

end

theorem Gateway.ReachableWith.parking (hm : ReachableWith cfg KeepsMarkers definitions m) : Parking cfg m :=
  hm.invariant .boot fun hp hact hok => hp.step hact hok

section

def queues : Event Sig → Option (String × String × List Path)
  | .op (.enqueue id transition files _) _ => some (id, transition, files)
  | _ => none

def recoverable (inst : WorkflowInstance) : Option (String × String × List Path) :=
  (lockWaitOf inst.context).bind fun p =>
    if p.1.isEmpty || p.2.isEmpty then none else some (inst.id, p.1, p.2)

abbrev traced : Monitor Sig History :=
  .history (fun _ => True) fun _ _ => True

def Queued (start : History) (queued : List (String × String × List Path)) (h : History) : Prop :=
  ∃ rest, h = start ++ rest ∧ rest.filterMap queues = queued

variable {start : History} {queued : List (String × String × List Path)}

theorem Queued.keeps_quiet (e : Event Sig) (he : Quiet e) : traced.Keeps (Queued start queued) e := by
  rintro _ ⟨rest, rfl, rfl⟩ -
  refine ⟨trivial, rest ++ [e], by rw [← append_assoc]; rfl, ?_⟩
  have hnone : queues e = none := by
    cases e with
    | op o r => cases o <;> first | rfl | cases he
    | _ => rfl
  simp [hnone]

theorem recoverOneLock_returns : traced.Returns (Queued start queued) (recoverOneLock inst)
    fun _ => Queued start (queued ++ (recoverable inst).toList) := by
  unfold recoverOneLock recoverable lockWaitOf
  cases hmarker : inst.context.get "_lock_wait" with
  | none => exact .pure fun h hh => by simpa using hh
  | some wait =>
    dsimp only [map_some, bind_some]
    split
    · simpa using quiet_returns Queued.keeps_quiet recordOrSelfEvent_uses
    · refine .perform fun h r hh _ => ⟨trivial, ?_⟩
      obtain ⟨rest, rfl, rfl⟩ := hh
      exact ⟨rest ++ [_], by rw [← append_assoc]; rfl, by simp [queues]⟩

theorem recoverLocks_returns :
    traced.Returns (Queued start queued) (recoverLocks insts)
      fun _ => Queued start (queued ++ insts.filterMap recoverable) := by
  induction insts generalizing queued with
  | nil => exact .pure fun h hh => by simpa using hh
  | cons inst rest ih =>
    refine recoverOneLock_returns.bind fun _ => ih.mono fun _ h hh => ?_
    have hcons : queued ++ (recoverable inst).toList ++ rest.filterMap recoverable =
        queued ++ (inst :: rest).filterMap recoverable := by
      cases hr : recoverable inst <;> simp [hr]
    rwa [hcons] at hh

theorem recovery_queues : traced.wp (recoverSuspendedLocks cfg) (fun _ h => ∀ suspended rest,
    h = .op .storeListWaitingOnLock (.ok suspended) :: rest →
      rest.filterMap queues = suspended.filterMap recoverable) [] := by
  suffices hreturns : traced.Returns (fun h => h = []) (recoverSuspendedLocks cfg) (fun _ h => ∀ suspended rest,
      h = .op .storeListWaitingOnLock (.ok suspended) :: rest →
        rest.filterMap queues = suspended.filterMap recoverable) from hreturns [] rfl
  unfold recoverSuspendedLocks
  split
  · exact .pure fun h hh suspended rest heq => by rw [hh] at heq; cases heq
  · refine Monitor.Returns.bind (Q := fun listed h => Queued [.op .storeListWaitingOnLock listed] [] h)
      (.perform fun h r hh _ => ⟨trivial, [], by rw [hh]; rfl, rfl⟩) fun listed => ?_
    refine (recoverLocks_returns).mono fun _ h hh suspended rest heq => ?_
    obtain ⟨queued, rfl, hqueued⟩ := hh
    cases heq
    exact hqueued

end

section

variable {m : Gateway}

theorem listed_of_appends (happ : m.Appends a p hist (.op .storeListWaitingOnLock (.ok suspended))) :
    suspended = m.world.waitingOn "_lock_wait" := by
  cases happ with
  | answer ht hr =>
    rename_i input _ _ _
    cases input with
    | auto => cases hr; rfl
    | _ => cases hr
  | leave ht hl => cases hl

theorem World.Agrees.mem_waitingOn {w : World} (hw : w.Agrees) {key : String} {inst : WorkflowInstance} :
    inst ∈ w.waitingOn key ↔ w.find inst.id = some inst ∧ inst.context.hasKey key := by
  unfold World.waitingOn
  rw [mem_filter]
  refine and_congr_left fun _ => ⟨fun hmem => ?_, fun hfind => ?_⟩
  · obtain ⟨entry, hentry, rfl⟩ := mem_map.mp hmem
    have hfind := hw.entries entry hentry
    rwa [← (hw.mem hfind).1] at hfind
  · obtain ⟨l₁, l₂, hsplit, -⟩ := lookup_eq_some_iff.mp hfind
    rw [hsplit]
    simp

theorem Parking.listed (hm : Parking cfg m) (id transition : String) (files : List Path) :
    (id, transition, files) ∈ (m.world.waitingOn "_lock_wait").filterMap recoverable ↔
      parkedOn id m.world.journal = some (transition, files) := by
  rw [mem_filterMap]
  constructor
  · rintro ⟨inst, hlisted, hrecoverable⟩
    obtain ⟨hfind, -⟩ := hm.lineage.agrees.mem_waitingOn.mp hlisted
    obtain ⟨p, hp, hqueued⟩ := bind_eq_some_iff.mp hrecoverable
    rw [hm.marked _ _ hfind] at hp
    split at hqueued
    · cases hqueued
    · cases hqueued
      exact hp
  · intro hparked
    obtain ⟨stored, hfind⟩ := isSome_iff_exists.mp (hm.stored id (by rw [hparked]; rfl))
    obtain ⟨rfl, -⟩ := hm.lineage.agrees.mem hfind
    have hmarker := (hm.marked _ _ hfind).trans hparked
    obtain ⟨hname, hfiles⟩ := hm.named _ _ hparked
    refine ⟨stored, hm.lineage.agrees.mem_waitingOn.mpr ⟨hfind, ?_⟩, ?_⟩
    · obtain ⟨wait, hwait, -⟩ := map_eq_some_iff.mp hmarker
      rw [Value.hasKey, hwait]
      rfl
    · simp [recoverable, hmarker, hfiles, hname]

end

def ShowsParked (m : Gateway) (e : Event Sig) : Prop :=
  ∀ suspended, e = .op .storeListWaitingOnLock (.ok suspended) →
    ∃ journal, journal <+: m.world.journal ∧ ∀ id transition files,
      (id, transition, files) ∈ suspended.filterMap recoverable ↔ parkedOn id journal = some (transition, files)

theorem Gateway.ReachableWith.listings (hm : ReachableWith cfg KeepsMarkers definitions m) :
    ∀ t ∈ m.threads, ∀ x ∈ t.activations, ∀ e ∈ x.2, ShowsParked m e := by
  refine hm.from_reached.events (A := ShowsParked) rfl (fun hact hok e hold suspended he => ?_)
    fun hact hok p hist e happ suspended he => ?_
  · obtain ⟨journal, hpre, hlists⟩ := hold suspended he
    exact ⟨journal, hpre.trans ((ReachableWith.parking hok.1).lineage.journal_prefix hact), hlists⟩
  · subst he
    have hbefore := ReachableWith.parking hok.1
    exact ⟨_, hbefore.lineage.journal_prefix hact, fun id t files => listed_of_appends happ ▸ hbefore.listed id t files⟩

def lockedDefinition : Value :=
  definitionOf "a" [("a", stateOf [("go", transitionOf "b" "caller"
    [("executor", .object [("kind", "noop"), ("owned_files", .array [.string "f"])])])]), ("b", terminalState)]

def parkScript : List GatewayAction :=
  launch 0 "d" "1" ++ launch 1 "d" "2" ++ .spawn (.submit (goSubmit "wf_1" 0)) :: answers 2 1 ++
    [.answer 2 (.fresh "3")] ++ answers 2 4 ++ .spawn (.submit (goSubmit "wf_2" 0)) :: answers 3 1 ++
    [.answer 3 (.fresh "4")] ++ answers 3 5

def releaseScript : List GatewayAction :=
  answers 2 1 ++ [executed 2 ⟨.emptyObject, [], none, none, none⟩] ++ answers 2 3

def redriveScript : List GatewayAction :=
  releaseScript ++ [.enter 2] ++ answers 2 4 ++ [.enter 2] ++ answers 2 1 ++ [.answer 2 (.fresh "5")] ++ answers 2 4 ++
    releaseScript ++ [.enter 2] ++ answers 2 2 ++ [.leave 2] ++ answers 2 2

def recoverScript : List GatewayAction :=
  [.restart, .spawn .recoverSuspendedLocks] ++ answers 0 2

def leavesMarker : StoreWrite → Bool
  | .saved (.transition _) next => next.context.hasKey "_lock_wait"
  | _ => false

def markerKept (m : Gateway) (a : GatewayAction) : Bool :=
  match m.pending a with
  | some (.storeSave (.transition f) _ _) => decide (f.before.context.get "_lock_wait" = none ∧
      "_lock_wait" ∉ writtenSlots (f.definition.get "output"))
  | some (.storeSave (.lockWait _ _ transition) _ _) => decide (transition ≠ "")
  | some (.storeSave (.slotUpdates ..) _ _) | some (.storeSave (.onEnter ..) _ _) => false
  | some (.storeCreate inst) => decide (inst.context.get "_lock_wait" = none)
  | _ => true

theorem keepsMarkers_of_markerKept (m : Gateway) (a : GatewayAction) (m' : Gateway) (h : markerKept m a) :
    KeepsMarkers m a m' := by
  intro p hist e happ
  cases e with
  | call p r | timeout p r => trivial
  | op o r =>
    rw [markerKept, happ.pending] at h
    cases o with
    | storeCreate inst =>
      have hunmarked := of_decide_eq_true h
      exact hunmarked
    | storeSave kind next v =>
      cases kind with
      | transition f => exact .inl (of_decide_eq_true h)
      | lockWait base files transition =>
        have hnamed := of_decide_eq_true h
        exact hnamed
      | slotUpdates base mapping | onEnter base mapping => cases h
      | _ => trivial
    | _ => trivial

end Praxec
