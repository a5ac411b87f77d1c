import Praxec.Store.Backends

namespace Praxec

open Json Effect List

inductive StoreReply.Same : StoreReply → StoreReply → Prop where
  | stored (inst : WorkflowInstance) : Same (.stored inst) (.stored inst)
  | found (id : Option String) : Same (.found id) (.found id)
  | listed {insts insts' : List WorkflowInstance} (hperm : insts.Perm insts') : Same (.listed insts) (.listed insts')
  | rejected (e e' : Err) : Same (.rejected e) (.rejected e')

instance StoreReply.decidableSame : DecidableRel StoreReply.Same
  | .stored a, .stored b => decidable_of_iff (a = b) ⟨fun h => h ▸ .stored a, fun | .stored _ => rfl⟩
  | .found a, .found b => decidable_of_iff (a = b) ⟨fun h => h ▸ .found a, fun | .found _ => rfl⟩
  | .listed a, .listed b => decidable_of_iff (a.Perm b) ⟨.listed, fun | .listed h => h⟩
  | .rejected a, .rejected b => isTrue (.rejected a b)
  | .stored _, .found _ | .stored _, .listed _ | .stored _, .rejected _ | .found _, .stored _ | .found _, .listed _
  | .found _, .rejected _ | .listed _, .stored _ | .listed _, .found _ | .listed _, .rejected _ | .rejected _, .stored _
  | .rejected _, .found _ | .rejected _, .listed _ => isFalse nofun

abbrev StoreContents := String → Option WorkflowInstance

namespace StoreContents

variable {p : Platform} {c : StoreContents} {inst : WorkflowInstance}

def put (c : StoreContents) (inst : WorkflowInstance) : StoreContents :=
  Function.update c inst.id (some inst)

theorem put_eq (c : StoreContents) (inst : WorkflowInstance) (id : String) :
    c.put inst id = if id = inst.id then some inst else c id := by
  simp [put, Function.update_apply]

structure Lists (c : StoreContents) (P : WorkflowInstance → Prop) (insts : List WorkflowInstance) : Prop where
  nodup : insts.Nodup
  mem : ∀ inst, inst ∈ insts ↔ c inst.id = some inst ∧ P inst

theorem Lists.perm (h : c.Lists P insts) (h' : c.Lists P insts') : insts.Perm insts' :=
  (perm_ext_iff_of_nodup h.nodup h'.nodup).mpr fun inst => (h.mem inst).trans (h'.mem inst).symm

theorem Lists.filter (h : c.Lists (fun _ => True) insts)
    (hq : ∀ inst, c inst.id = some inst → (q inst ↔ P inst)) : c.Lists P (insts.filter q) := by
  refine ⟨h.nodup.filter _, fun inst => ?_⟩
  rw [mem_filter, h.mem]
  constructor
  · rintro ⟨⟨hinst, -⟩, hpass⟩
    exact ⟨hinst, (hq inst hinst).mp hpass⟩
  · rintro ⟨hinst, hP⟩
    exact ⟨⟨hinst, trivial⟩, (hq inst hinst).mpr hP⟩

theorem Lists.of_entries (key : String → String) (order : Order)
    (hkeys : (entries.map Prod.fst).Nodup) (hmem : ∀ entry ∈ entries, entry.1 = key entry.2.id ∧ c entry.2.id = some entry.2)
    (hall : ∀ inst, c inst.id = some inst → (key inst.id, inst) ∈ entries) :
    c.Lists (fun _ => True) ((order.of entries).map Prod.snd) := by
  have hperm := (order.perm entries).map Prod.snd
  refine ⟨hperm.nodup_iff.mpr ?_, fun inst => ?_⟩
  · have heq : (entries.map Prod.snd).map (fun inst => key inst.id) = entries.map Prod.fst := by
      rw [map_map]
      exact map_congr_left fun entry he => (hmem entry he).1.symm
    exact .of_map _ (heq ▸ hkeys)
  · rw [hperm.mem_iff, and_true]
    constructor
    · intro hinst
      obtain ⟨entry, he, rfl⟩ := mem_map.mp hinst
      exact (hmem entry he).2
    · exact fun hinst => mem_map.mpr ⟨_, hall inst hinst, rfl⟩

inductive Answers (c : StoreContents) : StoreCall → StoreReply → Prop where
  | created {inst : WorkflowInstance} (hnew : c inst.id = none) : Answers c (.create inst) (.stored inst)
  | collided {inst stored : WorkflowInstance} {e : Err} (hstored : c inst.id = some stored) :
      Answers c (.create inst) (.rejected e)
  | loaded {id : String} {inst : WorkflowInstance} (hstored : c id = some inst) : Answers c (.load id) (.stored inst)
  | missing {id : String} {e : Err} (hnone : c id = none) : Answers c (.load id) (.rejected e)
  | saved {inst stored : WorkflowInstance} {expectedVersion : Nat} (hstored : c inst.id = some stored)
      (hversion : stored.version = expectedVersion) : Answers c (.saveIfVersion inst expectedVersion) (.stored inst)
  | stale {inst : WorkflowInstance} {expectedVersion : Nat} {e : Err}
      (hstale : ∀ stored, c inst.id = some stored → stored.version ≠ expectedVersion) :
      Answers c (.saveIfVersion inst expectedVersion) (.rejected e)
  | found {runId : String} {id : Option String}
      (hroot : ∀ root, id = some root ↔ ∃ inst, c root = some inst ∧ inst.rootRunId = some runId) :
      Answers c (.findByRunId runId) (.found id)
  | waitingOnLock {insts : List WorkflowInstance}
      (hlists : c.Lists (fun inst => (inst.context.get "_lock_wait").isSome) insts) :
      Answers c .listWaitingOnLock (.listed insts)
  | waitingOnSubworkflow {insts : List WorkflowInstance}
      (hlists : c.Lists (fun inst => (inst.context.get "_subworkflow_wait").isSome) insts) :
      Answers c .listWaitingOnSubworkflow (.listed insts)
  | all {insts : List WorkflowInstance} (hlists : c.Lists (fun _ => True) insts) : Answers c .listAll (.listed insts)

theorem Answers.same (h : c.Answers call r) (h' : c.Answers call r') : r.Same r' := by
  cases h with
  | created hnew =>
    cases h' with
    | created _ => exact .stored _
    | collided hstored => cases hnew.symm.trans hstored
  | collided hstored =>
    cases h' with
    | created hnew => cases hnew.symm.trans hstored
    | collided _ => exact .rejected _ _
  | loaded hstored =>
    cases h' with
    | loaded hstored' => cases hstored.symm.trans hstored'; exact .stored _
    | missing hnone => cases hnone.symm.trans hstored
  | missing hnone =>
    cases h' with
    | loaded hstored => cases hnone.symm.trans hstored
    | missing _ => exact .rejected _ _
  | saved hstored hversion =>
    cases h' with
    | saved _ _ => exact .stored _
    | stale hstale => exact absurd hversion (hstale _ hstored)
  | stale hstale =>
    cases h' with
    | saved hstored hversion => exact absurd hversion (hstale _ hstored)
    | stale _ => exact .rejected _ _
  | found hroot =>
    cases h' with
    | found hroot' =>
      rw [Option.ext fun root => (hroot root).trans (hroot' root).symm]
      exact .found _
  | waitingOnLock hlists => cases h' with | waitingOnLock hlists' => exact .listed (hlists.perm hlists')
  | waitingOnSubworkflow hlists => cases h' with | waitingOnSubworkflow hlists' => exact .listed (hlists.perm hlists')
  | all hlists => cases h' with | all hlists' => exact .listed (hlists.perm hlists')

def after (c : StoreContents) : StoreCall → StoreContents
  | .create inst => if (c inst.id).isNone then c.put inst else c
  | .saveIfVersion inst expectedVersion => if (c inst.id).any fun stored => stored.version = expectedVersion then c.put inst else c
  | _ => c

section

variable {stored : WorkflowInstance} {expectedVersion : Nat}

theorem after_create_of_new (hnew : c inst.id = none) : c.after (.create inst) = c.put inst :=
  if_pos (by rw [hnew]; rfl)

theorem after_create_of_stored (hstored : c inst.id = some stored) : c.after (.create inst) = c :=
  if_neg (by rw [hstored]; exact Bool.false_ne_true)

theorem after_save_of_current (hstored : c inst.id = some stored) (hversion : stored.version = expectedVersion) :
    c.after (.saveIfVersion inst expectedVersion) = c.put inst :=
  if_pos (by simp [hstored, hversion])

theorem after_save_of_stale (hstale : ∀ stored, c inst.id = some stored → stored.version ≠ expectedVersion) :
    c.after (.saveIfVersion inst expectedVersion) = c := by
  refine if_neg fun hany => ?_
  cases hstored : c inst.id with
  | none => simp [hstored] at hany
  | some stored => exact hstale stored hstored (by simpa [hstored] using hany)

theorem stale_served {H : StoreContents → Prop} {e : Err} (h : H c)
    (hstale : ∀ stored, c inst.id = some stored → stored.version ≠ expectedVersion) :
    c.Answers (.saveIfVersion inst expectedVersion) (.rejected e) ∧ H (c.after (.saveIfVersion inst expectedVersion)) := by
  rw [after_save_of_stale hstale]
  exact ⟨.stale hstale, h⟩

end

def OwnPath (p : Platform) (c : StoreContents) (id : String) : Prop :=
  ∀ other, (c other).isSome → FileStore.pathFor p other = FileStore.pathFor p id → other = id

/-- Calls that every backend answers as a store should: ids have paths of their own, what is stored can be read
back, a run has one root, which stays its root, run ids that are looked up belong to roots only, and markers that are
looked for are not null. -/
def Orderly (p : Platform) (c : StoreContents) : StoreCall → Prop
  | .create inst => c.OwnPath p inst.id ∧ (c inst.id = none → inst.id ≠ "" ∧ p.reparse inst = .ok inst ∧
      ∀ id other, c id = some other → inst.rootRunId.isSome → other.rootRunId ≠ inst.rootRunId)
  | .load id => c.OwnPath p id
  | .saveIfVersion inst expectedVersion => c.OwnPath p inst.id ∧ ∀ stored, c inst.id = some stored →
      stored.version = expectedVersion → p.reparse inst = .ok inst ∧ inst.rootRunId = stored.rootRunId
  | .findByRunId runId => ∀ id inst, c id = some inst → inst.runEnv.runId = some runId → inst.parent = none
  | .listWaitingOnLock => ∀ id inst, c id = some inst → inst.context.get "_lock_wait" ≠ some .null
  | .listWaitingOnSubworkflow => ∀ id inst, c id = some inst → inst.context.get "_subworkflow_wait" ≠ some .null
  | .listAll => True

def service (p : Platform) : Service StoreCall StoreReply where
  Contents := StoreContents
  empty _ := none
  admits := Orderly p
  answers := Answers
  after := after

/-- What orderly calls keep: instances stand under ids that are not empty, can be read back, and are the only roots of
their runs. -/
structure Sound (p : Platform) (c : StoreContents) : Prop where
  id : ∀ {id inst}, c id = some inst → inst.id = id
  named : ∀ {id inst}, c id = some inst → id ≠ ""
  read : ∀ {id inst}, c id = some inst → p.reparse inst = .ok inst
  root : ∀ {id id' inst inst' runId}, c id = some inst → c id' = some inst' → inst.rootRunId = some runId →
    inst'.rootRunId = some runId → id = id'

structure Storable (p : Platform) (c : StoreContents) (inst : WorkflowInstance) : Prop where
  path : c.OwnPath p inst.id
  named : inst.id ≠ ""
  read : p.reparse inst = .ok inst
  root : ∀ {id other runId}, id ≠ inst.id → c id = some other → inst.rootRunId = some runId → other.rootRunId ≠ some runId

theorem Orderly.storable_of_new (hcall : c.Orderly p (.create inst)) (hnew : c inst.id = none) : c.Storable p inst := by
  obtain ⟨hpath, hfresh⟩ := hcall
  obtain ⟨hnamed, hread, hroot⟩ := hfresh hnew
  refine ⟨hpath, hnamed, hread, fun {id other runId} _ hother hrun hsame => ?_⟩
  exact hroot id other hother (by rw [hrun]; rfl) (hsame.trans hrun.symm)

theorem Orderly.storable_of_stored (hc : c.Sound p)
    (hcall : c.Orderly p (.saveIfVersion inst expectedVersion)) (hstored : c inst.id = some stored)
    (hversion : stored.version = expectedVersion) : c.Storable p inst := by
  obtain ⟨hpath, hkept⟩ := hcall
  obtain ⟨hread, hroot⟩ := hkept stored hstored hversion
  refine ⟨hpath, hc.named hstored, hread, fun hne hother hrun hsame => hne ?_⟩
  exact hc.root hother hstored hsame (hroot ▸ hrun)

theorem Sound.put (hc : c.Sound p) (hinst : c.Storable p inst) : (c.put inst).Sound p := by
  -- an entry afterwards is the new one or an old one of another id
  have hcases {id : String} {other : WorkflowInstance} (h : c.put inst id = some other) :
      id = inst.id ∧ other = inst ∨ id ≠ inst.id ∧ c id = some other := by
    rw [put_eq] at h
    split at h
    · exact .inl ⟨‹_›, (Option.some.inj h).symm⟩
    · exact .inr ⟨‹_›, h⟩
  constructor
  · intro id other h
    rcases hcases h with ⟨rfl, rfl⟩ | ⟨_, h⟩
    exacts [rfl, hc.id h]
  · intro id other h
    rcases hcases h with ⟨rfl, rfl⟩ | ⟨_, h⟩
    exacts [hinst.named, hc.named h]
  · intro id other h
    rcases hcases h with ⟨rfl, rfl⟩ | ⟨_, h⟩
    exacts [hinst.read, hc.read h]
  · intro id id' other other' runId h h' hrun hrun'
    rcases hcases h with ⟨hid, heq⟩ | ⟨hne, hold⟩ <;> rcases hcases h' with ⟨hid', heq'⟩ | ⟨hne', hold'⟩
    · rw [hid, hid']
    · exact absurd hrun' (hinst.root hne' hold' (heq ▸ hrun))
    · exact absurd hrun (hinst.root hne hold (heq' ▸ hrun'))
    · exact hc.root hold hold' hrun hrun'

theorem Sound.after (hc : c.Sound p) (hcall : c.Orderly p call) : (c.after call).Sound p := by
  cases call with
  | create inst =>
    cases hstored : c inst.id with
    | none =>
      rw [after_create_of_new hstored]
      exact hc.put (hcall.storable_of_new hstored)
    | some stored => rwa [after_create_of_stored hstored]
  | saveIfVersion inst expectedVersion =>
    by_cases hcurrent : ∃ stored, c inst.id = some stored ∧ stored.version = expectedVersion
    · obtain ⟨stored, hstored, hversion⟩ := hcurrent
      rw [after_save_of_current hstored hversion]
      exact hc.put (hcall.storable_of_stored hc hstored hversion)
    · rwa [after_save_of_stale fun stored hstored hversion => hcurrent ⟨stored, hstored, hversion⟩]
  | _ => exact hc

end StoreContents

end Praxec
