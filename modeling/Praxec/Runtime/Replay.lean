import Praxec.Runtime.Recording
import Praxec.Runtime.Writes

namespace Praxec

open Json Effect Fields Gateway

variable {cfg : RuntimeConfig} {fields : Fields}

def applyDelta (context delta : Value) : Value :=
  (delta.asObject.getD []).foldl (fun acc entry =>
    if entry.2 = .null then acc.remove entry.1 else acc.insert entry.1 entry.2) context

def deltasAt (id : String) (records : List TransitionRecord) (seq : Nat) : List Value :=
  (records.filter fun record => record.workflowId = id ∧ record.seq = seq).map TransitionRecord.blackboardDelta

/-- The context at a version: the changes up to it, applied to the first context in the order of their
sequence numbers. -/
def replay (id : String) (records : List TransitionRecord) (first : Value) : Nat → Value
  | 0 => (deltasAt id records 0).foldl applyDelta first
  | n + 1 => (deltasAt id records (n + 1)).foldl applyDelta (replay id records first n)

section

theorem get_of_distinct_cons (h : Fields.Distinct ((key, v) :: rest)) : Fields.get rest key = none := by
  rw [Option.eq_none_iff_forall_ne_some]
  exact fun w hw => (List.nodup_cons.mp h).1 (mem_keys_of_get hw)

theorem get_filter (h : fields.Distinct) :
    Fields.get (fields.filter p) key = (fields.get key).filter fun v => p (key, v) := by
  induction fields with
  | nil => rfl
  | cons entry rest ih =>
    obtain ⟨k, v⟩ := entry
    have hih := ih (List.nodup_cons.mp h).2
    rw [get_cons]
    by_cases hkey : key = k
    · subst hkey
      have hnone := get_of_distinct_cons h
      by_cases hp : p (key, v)
      · simp [hp, get_cons, Option.filter]
      · simp [hp, hih, hnone, Option.filter]
    · by_cases hp : p (k, v)
      · simp [hp, get_cons, hkey, hih]
      · simp [hp, hkey, hih]

theorem get_map_null :
    Fields.get (fields.map fun entry => (entry.1, Value.null)) key = (fields.get key).map fun _ => .null := by
  induction fields with
  | nil => rfl
  | cons entry rest ih =>
    rw [List.map_cons, get_cons, get_cons, ih]
    split <;> rfl

theorem isObject_foldl_delta (entries : Fields) (v : Value) : (entries.foldl (fun acc entry =>
      if entry.2 = .null then acc.remove entry.1 else acc.insert entry.1 entry.2) v).isObject = v.isObject := by
  induction entries generalizing v with
  | nil => rfl
  | cons entry rest ih =>
    rw [List.foldl_cons, ih]
    split <;> exact Value.isObject_mapObject _ _

theorem get_foldl_delta (hd : entries.Distinct) {v : Value} (hv : v.isObject) (key : String) :
    (entries.foldl (fun acc entry =>
      if entry.2 = .null then acc.remove entry.1 else acc.insert entry.1 entry.2) v).get key =
      match Fields.get entries key with
      | none => v.get key
      | some x => if x = .null then none else some x := by
  induction entries generalizing v with
  | nil => rfl
  | cons entry rest ih =>
    obtain ⟨k, x⟩ := entry
    have hobject : (if x = .null then v.remove k else v.insert k x).isObject :=
      (isObject_foldl_delta [(k, x)] v).trans hv
    rw [List.foldl_cons, ih (List.nodup_cons.mp hd).2 hobject, get_cons]
    by_cases hkey : key = k
    · subst hkey
      rw [get_of_distinct_cons hd, if_pos rfl]
      dsimp only
      split
      · simp [Value.get_remove]
      · simp [Value.get_insert hv]
    · rw [if_neg hkey]
      cases Fields.get rest key with
      | some y => rfl
      | none =>
        dsimp only
        split
        · simp [Value.get_remove, hkey]
        · simp [Value.get_insert hv, hkey]

def deltaFields (before after : Fields) : Fields :=
  (after.filter fun entry => match before.get entry.1 with
    | some prev => !prev.same entry.2
    | none => true) ++
  (before.filter fun entry => !after.contains entry.1).map fun entry => (entry.1, Value.null)

theorem distinct_deltaFields (hb : before.Distinct) (ha : after.Distinct) : (deltaFields before after).Distinct := by
  have hremoved : ((before.filter fun entry => !after.contains entry.1).map fun entry => (entry.1, Value.null)).map
      Prod.fst = (before.filter fun entry => !after.contains entry.1).map Prod.fst := by
    simp [List.map_map, Function.comp_def]
  unfold Fields.Distinct deltaFields
  rw [List.map_append, hremoved]
  refine List.nodup_append.mpr ⟨ha.sublist (List.filter_sublist.map _), hb.sublist (List.filter_sublist.map _), ?_⟩
  rintro key hchanged _ hdropped rfl
  obtain ⟨⟨_, v⟩, hentry, rfl⟩ := List.mem_map.mp hchanged
  obtain ⟨⟨k, w⟩, hentry', rfl⟩ := List.mem_map.mp hdropped
  have hgone : after.get k = none := by simpa [Fields.contains] using (List.mem_filter.mp hentry').2
  have hfree : ∀ entry ∈ after, k ≠ entry.1 := by simpa [Fields.get, List.lookup_eq_none_iff] using hgone
  exact hfree _ (List.mem_filter.mp hentry).1 rfl

theorem get_deltaFields (hb : before.Distinct) (ha : after.Distinct) (key : String) :
    Fields.get (deltaFields before after) key = match after.get key, before.get key with
      | some v, some prev => if prev.same v then none else some v
      | some v, none => some v
      | none, some _ => some .null
      | none, none => none := by
  unfold deltaFields
  rw [Fields.get, List.lookup_append, ← Fields.get, ← Fields.get, get_map_null, get_filter ha, get_filter hb]
  cases hafter : after.get key with
  | none => cases hbefore : before.get key <;> simp [Fields.contains, hafter, Option.filter]
  | some v =>
    cases hbefore : before.get key with
    | none => simp [hbefore, Option.filter]
    | some prev => cases hsame : prev.same v <;> simp [Fields.contains, hafter, hbefore, Option.filter, hsame]

theorem alike_applyDelta {replayed : Value} (hpre : pre.Distinct) (hpost : post.Distinct)
    (hobject : post.isObject = pre.isObject)
    (hnull : ∀ key, post.get key = some .null → pre.get key = some .null) (h : replayed.Alike pre) :
    (applyDelta replayed (blackboardDelta pre post)).Alike post := by
  cases hpreObject : pre.isObject with
  | false =>
    have hpostObject := hobject.trans hpreObject
    have hnone {v : Value} (hv : v.isObject = false) : v.asObject = none := by simpa [Value.isObject] using hv
    have hdelta : blackboardDelta pre post = .emptyObject := by
      rw [blackboardDelta, hnone hpreObject, hnone hpostObject]
      rfl
    rw [hdelta]
    refine ⟨h.isObject.trans hobject.symm, fun key => ?_⟩
    rw [Value.get_of_not_isObject hpostObject]
    have hkey := h.get key
    rwa [Value.get_of_not_isObject hpreObject] at hkey
  | true =>
    obtain ⟨before, rfl⟩ := (Value.isObject_iff pre).mp hpreObject
    obtain ⟨after, rfl⟩ := (Value.isObject_iff post).mp (hobject.trans hpreObject)
    have hb := hpre before rfl
    have ha := hpost after rfl
    refine ⟨(isObject_foldl_delta _ _).trans h.isObject, fun key => ?_⟩
    have hget : (applyDelta replayed (blackboardDelta (.object before) (.object after))).get key = _ :=
      get_foldl_delta (distinct_deltaFields hb ha) h.isObject key
    rw [hget, get_deltaFields hb ha]
    have hkey : Alike (replayed.get key) (Fields.get before key) := h.get key
    have hnullKey : Fields.get after key = some .null → Fields.get before key = some .null := hnull key
    rw [Value.get_object]
    cases hafter : Fields.get after key with
    | none =>
      cases hbefore : Fields.get before key with
      | none => exact .inl (hbefore ▸ hkey).eq_none
      | some prev => exact .inl rfl
    | some v =>
      cases hbefore : Fields.get before key with
      | none =>
        have hv : v ≠ .null := by
          rintro rfl
          cases hbefore.symm.trans (hnullKey hafter)
        exact .inl (if_neg hv)
      | some prev =>
        cases hsame : prev.same v with
        | true =>
          rw [hbefore] at hkey
          simpa [hsame] using hkey.trans (.inr ⟨prev, v, rfl, rfl, hsame⟩)
        | false =>
          have hv : v ≠ .null := by
            rintro rfl
            cases hbefore.symm.trans (hnullKey hafter)
            cases hsame
          simp only [hsame, Bool.false_eq_true, if_false]
          exact .inl (if_neg hv)

end

section

open Value

variable {h : History}

theorem object_foldl_insert (specs fields : Fields) (f : Value → Value) :
    Value.object (specs.foldl (fun acc spec => Fields.insert acc spec.1 (f spec.2)) fields) =
      specs.foldl (fun acc spec => acc.insert spec.1 (f spec.2)) (.object fields) := by
  induction specs generalizing fields with
  | nil => rfl
  | cons spec rest ih => exact ih _

theorem edited_mergeOutput (hmerge : mergeOutput lib sc mapping = .ok merged) : Edited sc.context merged := by
  unfold mergeOutput at hmerge
  split at hmerge
  · cases hmerge
    exact .refl
  · split at hmerge
    · rename_i hcontext
      cases hmerge
      rw [hcontext, object_foldl_insert]
      exact Edited.refl.foldl_insert _ _
    · cases hmerge

theorem edited_clearWaitOnAdvance :
    Edited context (clearWaitOnAdvance marker context t) := by
  unfold clearWaitOnAdvance
  split
  · exact Edited.refl.remove _
  · exact .refl

theorem edited_resolved :
    Edited context (clearAgentAwaitOnAdvance (clearSubworkflowWaitOnAdvance context t) t) :=
  (edited_clearWaitOnAdvance).trans (edited_clearWaitOnAdvance)

theorem SubmitWork.Of.edited {arguments : Value} {work : SubmitWork} (hwork : work.Of cfg a arguments) :
    Edited a.inst.context work.next.context := by
  cases hwork with
  | plain _ hmerge _ => exact edited_mergeOutput hmerge
  | executed _ _ hmerge _ _ _ => exact (edited_mergeOutput hmerge).trans (edited_resolved)

theorem HopWork.Of.edited {definition : Value} {hop : Hop} {work : HopWork}
    (hwork : work.Of cfg definition d hop) : Edited d.inst.context work.inst.context := by
  cases hwork with
  | plain _ hmerge _ => exact edited_mergeOutput hmerge
  | executed _ hmerge _ => exact (edited_mergeOutput hmerge).trans (edited_resolved)

theorem edited_withSummary (summary : Option String) (context : Value) : Edited context (withSummary summary context) := by
  cases summary with
  | none => exact .refl
  | some text => exact Edited.refl.insert _ _

theorem edited_countFire {summary : Option String} {context counted : Value}
    (hcount : countFire a (withSummary summary context) = .ok counted) : Edited context counted := by
  have hsummary := edited_withSummary summary context
  unfold countFire at hcount
  split at hcount
  · cases hcount
    exact hsummary
  · dsimp only at hcount
    cases hread : readCounterSlot (withSummary summary context) (fireCountKey a.inst.state a.request.transition) with
    | error e => rw [hread] at hcount; cases hcount
    | ok n =>
      rw [hread] at hcount
      cases hcount
      exact hsummary.insert _ _

variable {next : WorkflowInstance}

theorem WhileOutcome.edited {definition : Value} {fromState : String} {rerouted : Option String}
    (hloop : WhileOutcome v definition fromState next rerouted looped) : Edited next.context looped.context := by
  cases hloop with
  | undeclared _ => exact .refl
  | unlooped _ _ | leave _ _ _ => exact Edited.refl.remove _
  | again _ _ _ _ _ _ => exact Edited.refl.insert _ _

theorem edited_exitInstance :
    Edited next.context (exitInstance definition fromState target next).context := by
  unfold exitInstance
  split
  · exact .refl
  · exact (Edited.refl.retain _).foldl_remove _

theorem edited_commitContinuation {context restored : Value} {previous snapshot : Option Value} {state : String}
    (hledger : commitContinuation context previous state snapshot = .ok restored) : Edited context restored := by
  unfold commitContinuation at hledger
  split at hledger
  · cases hledger
    exact Edited.refl.remove _
  · split at hledger
    · cases context with
      | object fields => cases hledger; exact Edited.refl.insert (v := .object fields) _ _
      | _ => cases hledger
    · cases hledger

theorem Commit.edited (hc : Commit cfg Φ h f next) : Edited f.before.context next.context := by
  cases hc with
  | submit _ hwork hnext =>
    cases hnext with
    | intro hcount _ hloop =>
      exact hwork.edited.trans ((edited_countFire hcount).trans (hloop.edited.trans (edited_exitInstance)))
  | hop _ _ hwork hnext _ =>
    cases hnext with
    | intro _ hledger =>
      exact hwork.edited.trans ((edited_commitContinuation hledger).trans ((Edited.refl.insert _ _).insert _ _))
  | timeout _ => exact .refl

theorem isObject_writeMarker :
    (writeMarker context key wait).isObject := by
  cases context <;> rfl

theorem Saves.isObject (hs : Saves cfg Φ h kind next) (hobject : kind.base.context.isObject) :
    next.context.isObject := by
  cases hs with
  | transition hcommit _ => exact hcommit.edited.isObject.trans hobject
  | lockWait _ | subworkflowWait | agentAwait | spawnBinding => exact isObject_writeMarker
  | slotUpdates _ _ _ hmerge => exact (edited_mergeOutput hmerge).isObject.trans hobject
  | onEnter _ hmerge _ => exact (edited_mergeOutput hmerge).isObject.trans hobject
  | deadWait => exact (Value.Edited.refl.remove _).isObject.trans hobject
  | cancel => exact hobject

end

section

variable {id : String} {records : List TransitionRecord} {record : TransitionRecord} {first : Value}

def Unrecorded (records : List TransitionRecord) (id : String) (seq : Nat) : Prop :=
  ∀ record ∈ records, ¬ (record.workflowId = id ∧ record.seq = seq)

def Unrepeated (records : List TransitionRecord) : Prop :=
  ∀ id seq, (records.filter fun record => record.workflowId = id ∧ record.seq = seq).length ≤ 1

variable {seq : Nat}

theorem filter_of_unrecorded (h : Unrecorded records id seq) :
    (records.filter fun record => record.workflowId = id ∧ record.seq = seq) = [] := by
  rw [List.filter_eq_nil_iff]
  exact fun record hmem => by simpa using h record hmem

theorem deltasAt_of_unrecorded (h : Unrecorded records id seq) : deltasAt id records seq = [] := by
  rw [deltasAt, filter_of_unrecorded h, List.map_nil]

theorem deltasAt_of_mem (hu : Unrepeated records) (hmem : record ∈ records) :
    deltasAt record.workflowId records record.seq = [record.blackboardDelta] := by
  have hfound : record ∈ records.filter fun r => r.workflowId = record.workflowId ∧ r.seq = record.seq :=
    List.mem_filter.mpr ⟨hmem, by simp⟩
  have hlength := hu record.workflowId record.seq
  unfold deltasAt
  generalize records.filter (fun r => r.workflowId = record.workflowId ∧ r.seq = record.seq) = found at *
  match found, hlength, hfound with
  | [only], _, hfound => rw [List.mem_singleton.mp hfound]; rfl

theorem Unrepeated.snoc (hu : Unrepeated records) (hnew : Unrecorded records record.workflowId record.seq) :
    Unrepeated (records ++ [record]) := by
  intro id seq
  rw [List.filter_append]
  by_cases hkey : record.workflowId = id ∧ record.seq = seq
  · obtain ⟨rfl, rfl⟩ := hkey
    rw [filter_of_unrecorded hnew]
    simp
  · simpa [hkey] using hu id seq

theorem deltasAt_snoc (hkey : ¬ (record.workflowId = id ∧ record.seq = seq)) :
    deltasAt id (records ++ [record]) seq = deltasAt id records seq := by
  simp [deltasAt, List.filter_append, hkey]

theorem replay_snoc (hlater : record.workflowId = id → n < record.seq) :
    replay id (records ++ [record]) first n = replay id records first n := by
  induction n with
  | zero => rw [replay, replay, deltasAt_snoc fun hkey => by have := hlater hkey.1; omega]
  | succ n ih =>
    rw [replay, replay, deltasAt_snoc fun hkey => by have := hlater hkey.1; omega,
      ih fun hid => Nat.lt_of_succ_lt (hlater hid)]

end

/-- Saves that the records account for: a transition that sets no key to null, or what leaves the context
alone while nobody has recorded a transition for its version. -/
def SaveKind.Accounted (records : List TransitionRecord) (next : WorkflowInstance) : SaveKind → Prop
  | .transition f => ∀ key, next.context.get key = some .null → f.before.context.get key = some .null
  | .cancel base => Unrecorded records base.id (base.version + 1)
  | .onEnter base mapping | .slotUpdates base mapping =>
      writtenSlots mapping = [] ∧ Unrecorded records base.id (base.version + 1)
  | _ => False

/-- A record is written once and for the version after the stored one, saves are accounted for, and a new
context has no key twice. -/
def Accounted (w : World) : Event Sig → Prop
  | .op (.auditTransition _ record) (.ok _) => Unrecorded w.records record.workflowId record.seq ∧
      ∃ stored, w.find record.workflowId = some stored ∧ record.seq = stored.version + 1
  | .op (.storeSave kind next _) (.ok _) => kind.Accounted w.records next
  | .op (.storeCreate inst) (.ok _) => inst.context.Distinct
  | _ => True

def RecordsAll (m : Gateway) (a : GatewayAction) (_ : Gateway) : Prop :=
  ∀ p hist e, m.Appends a p hist e → Accounted m.world e

structure Replays (cfg : RuntimeConfig) (m : Gateway) : Prop where
  recording : Recording (fun records record => record ∈ records) cfg m
  known : ∀ record ∈ m.world.records, (m.world.find record.workflowId).isSome
  unrepeated : Unrepeated m.world.records
  distinct : ∀ write ∈ m.world.journal, write.inst.context.Distinct
  replays : ∀ first, .created first ∈ m.world.journal → ∀ write ∈ m.world.journal, write.inst.id = first.id →
    (replay first.id m.world.records first.context write.inst.version).Alike write.inst.context

section

variable {kind : SaveKind} {next : WorkflowInstance} {records : List TransitionRecord} {first : Value}

theorem Saves.edited (hs : Saves cfg Φ h kind next) (hacc : kind.Accounted records next) :
    next.version = kind.base.version + 1 ∧ Value.Edited kind.base.context next.context := by
  cases hs with
  | transition hcommit _ => exact ⟨by rw [hcommit.frame]; rfl, hcommit.edited⟩
  | cancel => exact ⟨rfl, .refl⟩
  | slotUpdates _ _ _ hmerge => exact ⟨rfl, edited_mergeOutput hmerge⟩
  | onEnter _ hmerge _ => exact ⟨rfl, edited_mergeOutput hmerge⟩
  | _ => exact hacc.elim

theorem alike_of_unwritten {lib : Libraries} {sc : Scopes} {mapping : Option Value} {replayed : Value}
    (hmerge : mergeOutput lib sc mapping = .ok merged) (hwritten : writtenSlots mapping = [])
    (halike : replayed.Alike sc.context) : replayed.Alike merged := by
  refine ⟨halike.isObject.trans (edited_mergeOutput hmerge).isObject.symm, fun key => ?_⟩
  rw [mergeOutput_get_of_not_written lib sc hmerge (by simp [hwritten])]
  exact halike.get key

theorem Commit.context_of_timeout (hc : Commit cfg Φ h f next)
    (hsite : f.site = .timeout) : next.context = f.before.context := by
  cases hc with
  | submit _ _ _ => cases hsite
  | hop _ hhop _ _ _ => exact absurd hsite hhop.site.2
  | timeout _ => rfl

theorem Saves.replayed (hs : Saves cfg Φ t.hist kind next) (hacc : kind.Accounted records next)
    (hdistinct : kind.base.context.Distinct) (hu : Unrepeated records)
    (hawaited : ∀ record, Awaits t record → record ∈ records)
    (halike : (replay next.id records first kind.base.version).Alike kind.base.context) :
    (replay next.id records first next.version).Alike next.context := by
  obtain ⟨hversion, hedited⟩ := hs.edited hacc
  have hid := hs.sameRun.id
  have hquiet (hfree : Unrecorded records kind.base.id (kind.base.version + 1)) :
      replay next.id records first next.version = replay next.id records first kind.base.version := by
    rw [hversion, replay, deltasAt_of_unrecorded (hid ▸ hfree)]
    rfl
  cases kind with
  | transition f =>
    obtain ⟨record, hawaits, hdescribes⟩ := hs.awaits
    have hdeltas := deltasAt_of_mem hu (hawaited record hawaits)
    rw [hdescribes.workflowId, hdescribes.seq] at hdeltas
    rw [hversion] at hdeltas ⊢
    rw [replay, hdeltas, List.foldl_cons, hdescribes.delta]
    split
    · rename_i hsite
      rw [hs.commit.context_of_timeout hsite]
      exact halike
    · exact alike_applyDelta hdistinct (hedited.distinct hdistinct) hedited.isObject hacc halike
  | cancel base =>
    rw [hquiet hacc]
    cases hs
    exact halike
  | slotUpdates base mapping =>
    rw [hquiet hacc.2]
    cases hs with
    | slotUpdates _ _ _ hmerge => exact alike_of_unwritten hmerge hacc.1 halike
  | onEnter base mapping =>
    rw [hquiet hacc.2]
    cases hs with
    | onEnter _ hmerge _ => exact alike_of_unwritten hmerge hacc.1 halike
  | _ => exact hacc.elim

end

theorem Replays.boot : Replays cfg (boot definitions) where
  recording := .boot
  known _ hr := by cases hr
  unrepeated _ _ := Nat.zero_le _
  distinct _ hw := by cases hw
  replays _ hw := by cases hw

section

variable {m : Gateway} {a : GatewayAction}

theorem Replays.recorded (hm : Replays cfg m) (hrec : Recording (fun records record => record ∈ records) cfg m')
    (hnew : Unrecorded m.world.records record.workflowId record.seq)
    (hstored : ∃ stored, m.world.find record.workflowId = some stored ∧ record.seq = stored.version + 1)
    (hrecords : m'.world.records = m.world.records ++ [record]) (hinstances : m'.world.instances = m.world.instances)
    (hjournal : m'.world.journal = m.world.journal) : Replays cfg m' := by
  obtain ⟨stored, hfind, hseq⟩ := hstored
  have hsame (id : String) : m'.world.find id = m.world.find id := by rw [World.find, hinstances, World.find]
  refine ⟨hrec, fun older holder => ?_, ?_, hjournal ▸ hm.distinct, fun first hfirst write hw hid => ?_⟩
  · rw [hsame]
    rw [hrecords] at holder
    rcases List.mem_append.mp holder with hold | hlast
    · exact hm.known older hold
    · rw [List.mem_singleton.mp hlast, hfind]
      rfl
  · rw [hrecords]
    exact hm.unrepeated.snoc hnew
  · rw [hjournal] at hfirst hw
    rw [hrecords, replay_snoc fun hworkflow => ?_]
    · exact hm.replays first hfirst write hw hid
    · obtain ⟨found, hfound, hle⟩ := hm.recording.lineage.chained.current_of_mem hw
      rw [hid, ← hworkflow, ← hm.recording.lineage.agrees.find, hfind] at hfound
      cases hfound
      omega

variable {write : StoreWrite}

theorem Replays.stored (hm : Replays cfg m) (hw : write ∈ m.world.journal) : m.world.find write.inst.id ≠ none := by
  obtain ⟨found, hfound, -⟩ := hm.recording.lineage.chained.current_of_mem hw
  rw [hm.recording.lineage.agrees.find, hfound]
  exact Option.some_ne_none found

theorem Replays.created (hm : Replays cfg m) {inst : WorkflowInstance} (hnew : m.world.find inst.id = none)
    (hfresh : inst.Fresh cfg) :
    (replay inst.id m.world.records inst.context inst.version).Alike inst.context := by
  have hfree : Unrecorded m.world.records inst.id 0 := by
    rintro record hmem ⟨hid, -⟩
    have hknown := hm.known record hmem
    rw [hid, hnew] at hknown
    cases hknown
  rw [hfresh.version, replay, deltasAt_of_unrecorded hfree]
  exact ⟨rfl, fun _ => .inl rfl⟩

theorem Replays.added (hm : Replays cfg m) (hadded : Added cfg (fun _ _ => True) m a write)
    (hacc : ∀ p hist e, m.Appends a p hist e → Accounted m.world e) :
    write.inst.context.Distinct ∧ ∀ first, .created first ∈ m.world.journal ++ [write] → write.inst.id = first.id →
      (replay first.id m.world.records first.context write.inst.version).Alike write.inst.context := by
  cases hadded with
  | created happ hnew hfresh =>
    refine ⟨hacc _ _ _ happ, fun first hfirst hid => ?_⟩
    rcases List.mem_append.mp hfirst with hold | hlast
    · exact absurd (hid ▸ hnew) (hm.stored hold)
    · cases List.mem_singleton.mp hlast
      exact hm.created hnew hfresh
  | saved ht happ _ hbase _ _ hsaves =>
    obtain ⟨base, hbase, hbaseEq⟩ := hbase
    have haccounted := hacc _ _ _ happ
    have hdistinct := hm.distinct base hbase
    rw [hbaseEq] at hdistinct
    refine ⟨(hsaves.edited haccounted).2.distinct hdistinct, fun first hfirst hid => ?_⟩
    rcases List.mem_append.mp hfirst with hold | hlast
    · have halike := hm.replays first hold base hbase (by rw [hbaseEq, ← hsaves.sameRun.id]; exact hid)
      rw [hbaseEq, ← hid] at halike
      rw [← hid]
      exact hsaves.replayed haccounted hdistinct hm.unrepeated (hm.recording.awaited _ ht) halike
    · cases List.mem_singleton.mp hlast

theorem Replays.written (hm : Replays cfg m) (hrec : Recording (fun records record => record ∈ records) cfg m')
 (hadded : Added cfg (fun _ _ => True) m a write) (hacc : ∀ p hist e, m.Appends a p hist e → Accounted m.world e)
    (hrecords : m'.world.records = m.world.records) (hjournal : m'.world.journal = m.world.journal ++ [write])
    (hfind : ∀ id, m'.world.find id = if write.inst.id = id then some write.inst else m.world.find id) :
    Replays cfg m' := by
  obtain ⟨hdistinct, hreplays⟩ := hm.added hadded hacc
  refine ⟨hrec, fun record hr => ?_, hrecords ▸ hm.unrepeated, ?_, fun first hfirst other hw hid => ?_⟩
  · rw [hfind]
    split
    · rfl
    · exact hm.known record (hrecords ▸ hr)
  · rw [hjournal]
    exact List.forall_mem_append.mpr ⟨hm.distinct, fun _ hw => List.mem_singleton.mp hw ▸ hdistinct⟩
  · rw [hjournal] at hfirst hw
    rw [hrecords]
    rcases List.mem_append.mp hw with hold | hlast
    · rcases List.mem_append.mp hfirst with hfirst | hfirst
      · exact hm.replays first hfirst other hold hid
      · cases List.mem_singleton.mp hfirst
        cases hadded with
        | created _ hnew _ => exact absurd (hid ▸ hnew) (hm.stored hold)
    · cases List.mem_singleton.mp hlast
      exact hreplays first hfirst hid

theorem Replays.step (hm : Replays cfg m) (hact : m.act (body cfg) a = some m') (hok : RecordsAll m a m') :
    Replays cfg m' := by
  have hrec : Recording (fun records record => record ∈ records) cfg m' :=
    hm.recording.step hact (fun _ _ => List.mem_append_right _ (List.mem_singleton.mpr rfl))
      fun _ _ _ _ ho => List.mem_append_left _ ho
  rcases records_step hact with hrecords | ⟨record, hw, hrecords⟩
  · rcases hm.recording.lineage.journal_step hact with ⟨hjournal, hinstances⟩ | ⟨write, hjournal, hadded, hfind⟩
    · have hsame (id : String) : m'.world.find id = m.world.find id := by rw [World.find, hinstances, World.find]
      exact ⟨hrec, fun record hr => hsame _ ▸ hm.known record (hrecords ▸ hr), hrecords ▸ hm.unrepeated,
        hjournal ▸ hm.distinct, by rw [hjournal, hrecords]; exact hm.replays⟩
    · exact hm.written hrec hadded hok hrecords hjournal hfind
  · obtain ⟨-, hinstances, hjournal⟩ := records_of_writes hact hw
    obtain ⟨p, hist, f, happ⟩ := hw
    obtain ⟨hnew, hstored⟩ := hok p hist _ happ
    exact hm.recorded hrec hnew hstored hrecords hinstances hjournal

end

def enteringDefinition (onEnter : Fields) : Value :=
  definitionOf "a" [("a", stateOf [("go", transitionOf "b" "deterministic"
    [("output", .object [("y", .object [("set", .nat 2)])])])]), ("b", .object (("terminal", .bool true) :: onEnter))]

def writesOnEnter : Fields :=
  [("onEnter", .object [("executor", .object [("kind", "noop")]),
    ("output", .object [("x", .object [("set", .nat 1)])])])]

def accountedStep (m : Gateway) (a : GatewayAction) : Bool :=
  match m.pending a with
  | some (.auditTransition _ record) =>
      decide (∀ older ∈ m.world.records, ¬ (older.workflowId = record.workflowId ∧ older.seq = record.seq)) &&
      (m.world.find record.workflowId).any fun stored => decide (record.seq = stored.version + 1)
  | some (.storeSave (.transition _) next _) => (next.context.asObject.getD []).all fun entry => entry.2 ≠ .null
  | some (.storeSave ..) => false
  | some (.storeCreate inst) => decide ((inst.context.asObject.getD []).map Prod.fst).Nodup
  | _ => true

theorem recordsAll_of_accountedStep (m : Gateway) (a : GatewayAction) (m' : Gateway) (h : accountedStep m a) :
    RecordsAll m a m' := by
  intro p hist e happ
  unfold Accounted
  split
  · rw [accountedStep, happ.pending] at h
    simp only [Bool.and_eq_true, decide_eq_true_eq, Option.any_eq_true] at h
    exact h
  · rename_i kind next v saved
    rw [accountedStep, happ.pending] at h
    cases kind with
    | transition f =>
      intro key hnull
      have hall : ∀ entry ∈ next.context.asObject.getD [], entry.2 ≠ .null := by simpa using h
      cases hcontext : next.context with
      | object fields =>
        rw [hcontext] at hall hnull
        exact absurd rfl (hall _ (mem_of_get hnull))
      | _ => rw [hcontext] at hnull; cases hnull
    | _ => cases h
  · rw [accountedStep, happ.pending] at h
    intro fields hfields
    have hkeys := of_decide_eq_true h
    rw [hfields] at hkeys
    exact hkeys
  · trivial

end Praxec
