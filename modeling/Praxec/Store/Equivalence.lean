import Praxec.Store.Service

namespace Praxec

open Json Effect StoreContents List Option Bool WorkflowInstance StoreReply

variable {p : Platform} {c : StoreContents} {inst : WorkflowInstance}

theorem lookup_insert_apply (t : AList fun _ : String => α) (key other : String) (a : α) :
    (t.insert key a).lookup other = if other = key then some a else t.lookup other := by
  by_cases h : other = key
  · rw [if_pos h, h, AList.lookup_insert]
  · rw [if_neg h, AList.lookup_insert_ne h]

theorem StoreContents.Lists.find_root {insts : List WorkflowInstance} (hc : c.Sound p)
    (hlists : c.Lists (fun _ => True) insts) {runId : String}
    (hroots : ∀ id inst, c id = some inst → inst.runEnv.runId = some runId → inst.parent = none) (root : String) :
    (insts.find? fun inst => inst.runEnv.runId = some runId).map WorkflowInstance.id = some root ↔
      ∃ inst, c root = some inst ∧ inst.rootRunId = some runId := by
  have hfound {inst : WorkflowInstance} (hfind : insts.find? (fun inst => inst.runEnv.runId = some runId) = some inst) :
      c inst.id = some inst ∧ inst.rootRunId = some runId := by
    have hinst := ((hlists.mem inst).mp (mem_of_find?_eq_some hfind)).1
    have hrun : inst.runEnv.runId = some runId := of_decide_eq_true (find?_some hfind :)
    exact ⟨hinst, by rw [rootRunId, hroots _ _ hinst hrun, hrun]; rfl⟩
  constructor
  · intro hroot
    obtain ⟨inst, hfind, rfl⟩ := map_eq_some_iff.mp hroot
    exact ⟨inst, hfound hfind⟩
  · rintro ⟨inst, hinst, hrun⟩
    cases hfind : insts.find? (fun inst => inst.runEnv.runId = some runId) with
    | some first =>
      obtain ⟨hfirst, hof⟩ := hfound hfind
      rw [hc.root hinst hfirst hrun hof]
      rfl
    | none =>
      have hnot := find?_eq_none.mp hfind inst ((hlists.mem inst).mpr ⟨(hc.id hinst).symm ▸ hinst, trivial⟩)
      have hof : inst.runEnv.runId = some runId := by
        unfold rootRunId at hrun
        split at hrun
        exacts [hrun, nomatch hrun]
      exact absurd (decide_eq_true hof) hnot

namespace MemoryStore

structure Holds (c : StoreContents) (s : MemoryStore) : Prop where
  inner : ∀ id, s.inner.lookup id = c id
  index : ∀ runId id, s.byRunId.lookup runId = some id ↔ ∃ inst, c id = some inst ∧ inst.rootRunId = some runId

variable {s : MemoryStore}

theorem Holds.inner_put (h : Holds c s) (inst : WorkflowInstance) (id : String) :
    (s.inner.insert inst.id inst).lookup id = c.put inst id := by
  rw [lookup_insert_apply, put_eq, h.inner]

theorem Holds.values (hc : c.Sound p) (h : Holds c s) : c.Lists (fun _ => True) (s.values p) := by
  refine .of_entries (fun id => id) p.mapOrder ?_ (fun entry he => ?_) fun inst hinst => ?_
  · rw [List.map_map]
    exact s.inner.nodupKeys
  · obtain ⟨⟨id, inst⟩, hmem, rfl⟩ := mem_map.mp he
    have hinst : c id = some inst := (h.inner id).symm.trans (AList.mem_lookup_iff.mpr hmem)
    exact ⟨(hc.id hinst).symm, (hc.id hinst).symm ▸ hinst⟩
  · exact mem_map.mpr ⟨⟨inst.id, inst⟩, AList.mem_lookup_iff.mp ((h.inner _).trans hinst), rfl⟩

theorem Holds.create_root (h : Holds c s) (hnew : c inst.id = none) (hrun : inst.rootRunId = some runId)
    (hunused : s.byRunId.lookup runId = none) :
    Holds (c.put inst) ⟨s.inner.insert inst.id inst, s.byRunId.insert runId inst.id⟩ := by
  refine ⟨h.inner_put inst, fun other id => ?_⟩
  rw [lookup_insert_apply, put_eq]
  by_cases hother : other = runId
  · subst hother
    rw [if_pos rfl]
    constructor
    · rintro ⟨⟩
      exact ⟨inst, if_pos rfl, hrun⟩
    · rintro ⟨root, hroot, hof⟩
      split at hroot
      · rw [‹id = inst.id›]
      · cases hunused.symm.trans ((h.index other id).mpr ⟨root, hroot, hof⟩)
  · rw [if_neg hother, h.index]
    constructor
    · rintro ⟨root, hroot, hof⟩
      have hne : id ≠ inst.id := fun heq => by rw [heq, hnew] at hroot; cases hroot
      exact ⟨root, (if_neg hne).trans hroot, hof⟩
    · rintro ⟨root, hroot, hof⟩
      split at hroot
      · cases hroot
        cases hrun.symm.trans hof
        exact absurd rfl hother
      · exact ⟨root, hroot, hof⟩

theorem Holds.put_inner (h : Holds c s) (hsame : ∀ runId, inst.rootRunId = some runId ↔
      ∃ stored, c inst.id = some stored ∧ stored.rootRunId = some runId) :
    Holds (c.put inst) { s with inner := s.inner.insert inst.id inst } := by
  refine ⟨h.inner_put inst, fun runId id => ?_⟩
  rw [h.index, put_eq]
  by_cases hid : id = inst.id
  · subst hid
    rw [← hsame, if_pos rfl]
    constructor
    · exact fun hrun => ⟨inst, rfl, hrun⟩
    · rintro ⟨_, ⟨⟩, hrun⟩
      exact hrun
  · rw [if_neg hid]

theorem create_refines (h : Holds c s) (hcall : c.Orderly p (.create inst)) :
    c.Answers (.create inst) (.ofInstance (s.create inst).1) ∧ Holds (c.after (.create inst)) (s.create inst).2 := by
  cases hstored : c inst.id with
  | some stored =>
    have hcreate : s.create inst = (.error s!"workflow id collision: {inst.id}", s) :=
      if_pos (by rw [h.inner, hstored]; rfl)
    rw [hcreate, after_create_of_stored hstored]
    exact ⟨.collided hstored, h⟩
  | none =>
    have hroot := (hcall.2 hstored).2.2
    have hcreate : ¬ (s.inner.lookup inst.id).isSome := by rw [h.inner, hstored]; exact false_ne_true
    have hsame (hchild : inst.rootRunId = none) (runId : String) : inst.rootRunId = some runId ↔
        ∃ stored, c inst.id = some stored ∧ stored.rootRunId = some runId := by simp [hchild, hstored]
    rw [after_create_of_new hstored, create, if_neg hcreate]
    split
    · rename_i runId hrun hparent
      have hrun : inst.rootRunId = some runId := by simp [rootRunId, hrun, hparent]
      have hunused : s.byRunId.lookup runId = none := by
        refine eq_none_iff_forall_ne_some.mpr fun id hfound => ?_
        obtain ⟨root, hmem, hof⟩ := (h.index runId id).mp hfound
        exact hroot id root hmem (by rw [hrun]; rfl) (hof.trans hrun.symm)
      rw [if_neg (by rw [hunused]; exact false_ne_true)]
      exact ⟨.created hstored, h.create_root hstored hrun hunused⟩
    · rename_i hother
      refine ⟨.created hstored, h.put_inner (hsame ?_)⟩
      cases hparent : inst.parent with
      | some _ => simp [rootRunId, hparent]
      | none =>
        cases hrun : inst.runEnv.runId with
        | none => simp [rootRunId, hrun]
        | some runId => exact (hother runId hrun hparent).elim

theorem save_refines (h : Holds c s) (hcall : c.Orderly p (.saveIfVersion inst expectedVersion)) :
    c.Answers (.saveIfVersion inst expectedVersion) (.ofInstance (s.saveIfVersion inst expectedVersion).1) ∧
      Holds (c.after (.saveIfVersion inst expectedVersion)) (s.saveIfVersion inst expectedVersion).2 := by
  unfold saveIfVersion
  rw [h.inner]
  cases hstored : c inst.id with
  | none =>
    exact stale_served (H := fun c => Holds c s) h (by simp [hstored])
  | some stored =>
    dsimp only
    split
    · rename_i hversion
      exact stale_served (H := fun c => Holds c s) h (by simp [hstored, hversion])
    · rename_i hversion
      have hversion := Decidable.not_not.mp hversion
      have hroot := (hcall.2 stored hstored hversion).2
      rw [after_save_of_current hstored hversion]
      exact ⟨.saved hstored hversion, h.put_inner fun runId => by simp [hstored, hroot]⟩

theorem refines : (service p).RefinedBy (backend p) fun c s => c.Sound p ∧ Holds c s where
  init := ⟨⟨nofun, nofun, nofun, nofun⟩, fun _ => rfl, fun _ _ => ⟨nofun, nofun⟩⟩
  answers := by
    rintro c s call ⟨hc, h⟩ hcall
    cases call with
    | create inst => exact (create_refines h hcall).1
    | load id =>
      change c.Answers (.load id) (.ofInstance (s.load id))
      unfold load
      rw [h.inner]
      cases hstored : c id with
      | some inst => exact .loaded hstored
      | none => exact .missing hstored
    | saveIfVersion inst expectedVersion => exact (save_refines h hcall).1
    | findByRunId runId => exact .found fun root => h.index runId root
    | listWaitingOnLock => exact .waitingOnLock ((h.values hc).filter fun _ _ => Iff.rfl)
    | listWaitingOnSubworkflow => exact .waitingOnSubworkflow ((h.values hc).filter fun _ _ => Iff.rfl)
    | listAll => exact .all (h.values hc)
  step := by
    rintro c s call ⟨hc, h⟩ hcall
    refine ⟨hc.after hcall, ?_⟩
    cases call with
    | create inst => exact (create_refines h hcall).2
    | saveIfVersion inst expectedVersion => exact (save_refines h hcall).2
    | _ => exact h

end MemoryStore

variable {id : String}

namespace SqliteStore

def Holds (c : StoreContents) (s : SqliteStore) : Prop :=
  ∀ id, s.rows.lookup id = (c id).map fun inst => ⟨inst.version, inst⟩

variable {s : SqliteStore}

theorem Holds.put (h : Holds c s) (inst : WorkflowInstance) :
    Holds (c.put inst) ⟨s.rows.insert inst.id ⟨inst.version, inst⟩⟩ := by
  intro id
  rw [lookup_insert_apply, put_eq, h]
  split <;> rfl

theorem Holds.mem_rows (h : Holds c s) :
    ⟨id, row⟩ ∈ s.rows.entries ↔ ∃ inst, c id = some inst ∧ (⟨inst.version, inst⟩ : Row) = row := by
  rw [← AList.mem_lookup_iff, h, mem_def, map_eq_some_iff]

theorem Holds.not_violates (h : Holds c s) (hinst : c.Storable p inst) : s.violatesRunId inst = false := by
  rw [Bool.eq_false_iff]
  intro hviolates
  rw [violatesRunId, Bool.and_eq_true, List.any_eq_true] at hviolates
  obtain ⟨hroot, ⟨id, row⟩, hrow, hsame⟩ := hviolates
  obtain ⟨runId, hrun⟩ := Option.isSome_iff_exists.mp hroot
  obtain ⟨other, hother, rfl⟩ := h.mem_rows.mp hrow
  obtain ⟨hne, hsame⟩ := of_decide_eq_true hsame
  exact hinst.root hne hother hrun (hsame.trans hrun)

theorem Holds.select (hc : c.Sound p) (h : Holds c s) : c.Lists (fun _ => True) ((s.select p).map Prod.snd) ∧
    ∀ row ∈ s.select p, c row.1 = some row.2 := by
  have hrows {row : String × WorkflowInstance} (hrow : row ∈ s.rows.entries.map fun row => (row.1, row.2.inst)) :
      c row.1 = some row.2 := by
    obtain ⟨⟨id, row⟩, hmem, rfl⟩ := mem_map.mp hrow
    obtain ⟨inst, hinst, rfl⟩ := h.mem_rows.mp hmem
    exact hinst
  refine ⟨.of_entries (fun id => id) p.rowOrder ?_ (fun row hrow => ?_) fun inst hinst => ?_,
    fun row hrow => hrows ((p.rowOrder.perm _).mem_iff.mp hrow)⟩
  · rw [List.map_map]
    exact s.rows.nodupKeys
  · have hinst := hrows hrow
    exact ⟨(hc.id hinst).symm, (hc.id hinst).symm ▸ hinst⟩
  · exact mem_map.mpr ⟨⟨inst.id, _⟩, h.mem_rows.mpr ⟨inst, hinst, rfl⟩, rfl⟩

theorem mapM_reparse (hc : c.Sound p) {rows : List (String × WorkflowInstance)}
    (hrows : ∀ row ∈ rows, c row.1 = some row.2) : rows.mapM (fun row => p.reparse row.2) = .ok (rows.map Prod.snd) := by
  induction rows with
  | nil => rfl
  | cons row rest ih =>
    rw [mapM_cons, hc.read (hrows row (.head _)), ih fun row hrow => hrows row (.tail _ hrow)]
    rfl

theorem Holds.listWaiting (hc : c.Sound p) (h : Holds c s)
    (hmarker : ∀ id inst, c id = some inst → inst.context.get marker ≠ some .null) :
    ∃ insts, s.listWaiting p marker = .ok insts ∧ c.Lists (fun inst => (inst.context.get marker).isSome) insts := by
  obtain ⟨hlists, hrows⟩ := h.select hc
  refine ⟨_, mapM_reparse hc fun row hrow => hrows row (mem_filter.mp hrow).1, ?_⟩
  have hfilter := hlists.filter (P := fun inst => (inst.context.get marker).isSome)
    (q := fun inst => (jsonExtract inst.context marker).isSome) fun inst hinst => ?_
  · rwa [List.filter_map] at hfilter
  · have hnull := hmarker inst.id inst hinst
    unfold jsonExtract
    cases hget : inst.context.get marker with
    | none => simp
    | some v =>
      rw [hget] at hnull
      simp [Option.filter, show v ≠ .null from fun hv => hnull (hv ▸ rfl)]

theorem Holds.findByRunId (hc : c.Sound p) (h : Holds c s) (runId : String) : s.findByRunId p runId =
    (((s.select p).map Prod.snd).find? fun inst => inst.runEnv.runId = some runId).map WorkflowInstance.id := by
  rw [List.find?_map, Option.map_map]
  exact Option.map_congr fun row hrow => (hc.id ((h.select hc).2 row (List.mem_of_find?_eq_some hrow))).symm

theorem create_refines (h : Holds c s) (hcall : c.Orderly p (.create inst)) :
    c.Answers (.create inst) (.ofInstance (s.create inst).1) ∧ Holds (c.after (.create inst)) (s.create inst).2 := by
  unfold create
  rw [h]
  cases hstored : c inst.id with
  | some stored =>
    rw [after_create_of_stored hstored]
    exact ⟨.collided hstored, h⟩
  | none =>
    rw [after_create_of_new hstored, h.not_violates (hcall.storable_of_new hstored)]
    exact ⟨.created hstored, h.put inst⟩

theorem save_refines (hc : c.Sound p) (h : Holds c s) (hcall : c.Orderly p (.saveIfVersion inst expectedVersion)) :
    c.Answers (.saveIfVersion inst expectedVersion) (.ofInstance (s.saveIfVersion inst expectedVersion).1) ∧
      Holds (c.after (.saveIfVersion inst expectedVersion)) (s.saveIfVersion inst expectedVersion).2 := by
  unfold saveIfVersion
  rw [h]
  cases hstored : c inst.id with
  | none =>
    exact stale_served (H := fun c => Holds c s) h (by simp [hstored])
  | some stored =>
    dsimp only [map_some]
    split
    · rename_i hversion
      exact stale_served (H := fun c => Holds c s) h (by simp [hstored, hversion])
    · rename_i hversion
      have hversion := Decidable.not_not.mp hversion
      rw [after_save_of_current hstored hversion, h.not_violates (hcall.storable_of_stored hc hstored hversion)]
      exact ⟨.saved hstored hversion, h.put inst⟩

theorem load_eq (hc : c.Sound p) (h : Holds c s) : s.load p id = match c id with
    | some inst => .ok inst
    | none => .error s!"workflow {id} not found" := by
  unfold load
  rw [h]
  cases hstored : c id with
  | none => rfl
  | some inst =>
    dsimp only [map_some]
    rw [hc.read hstored]
    exact if_neg (Decidable.not_not.mpr (hc.id hstored))

theorem refines : (service p).RefinedBy (backend p) fun c s => c.Sound p ∧ Holds c s where
  init := ⟨⟨nofun, nofun, nofun, nofun⟩, fun _ => rfl⟩
  answers := by
    rintro c s call ⟨hc, h⟩ hcall
    cases call with
    | create inst => exact (create_refines h hcall).1
    | load id =>
      change c.Answers (.load id) (.ofInstance (s.load p id))
      rw [load_eq hc h]
      cases hstored : c id with
      | some inst => exact .loaded hstored
      | none => exact .missing hstored
    | saveIfVersion inst expectedVersion => exact (save_refines hc h hcall).1
    | findByRunId runId =>
      change c.Answers (.findByRunId runId) (.found (s.findByRunId p runId))
      rw [h.findByRunId hc]
      exact .found ((h.select hc).1.find_root hc hcall)
    | listWaitingOnLock =>
      change c.Answers .listWaitingOnLock (.ofList (s.listWaiting p "_lock_wait"))
      obtain ⟨insts, hlist, hlists⟩ := h.listWaiting hc hcall
      rw [hlist]
      exact .waitingOnLock hlists
    | listWaitingOnSubworkflow =>
      change c.Answers .listWaitingOnSubworkflow (.ofList (s.listWaiting p "_subworkflow_wait"))
      obtain ⟨insts, hlist, hlists⟩ := h.listWaiting hc hcall
      rw [hlist]
      exact .waitingOnSubworkflow hlists
    | listAll =>
      change c.Answers .listAll (.ofList (s.listAll p))
      rw [show s.listAll p = _ from mapM_reparse hc (h.select hc).2]
      exact .all (h.select hc).1
  step := by
    rintro c s call ⟨hc, h⟩ hcall
    refine ⟨hc.after hcall, ?_⟩
    cases call with
    | create inst => exact (create_refines h hcall).2
    | saveIfVersion inst expectedVersion => exact (save_refines hc h hcall).2
    | _ => exact h

end SqliteStore

namespace FileStore

structure Holds (p : Platform) (c : StoreContents) (s : FileStore) : Prop where
  filed : ∀ {id inst}, c id = some inst → s.files.lookup (pathFor p id) = some inst
  kept : ∀ {name inst}, s.files.lookup name = some inst → name = pathFor p inst.id ∧ c inst.id = some inst

variable {s : FileStore}

theorem pathFor_ne_empty (hid : id ≠ "") : pathFor p id ≠ "" := by
  intro hpath
  have hlist := congrArg String.toList hpath
  rw [pathFor, String.toList_ofList] at hlist
  exact hid (String.toList_inj.mp (map_eq_nil_iff.mp hlist))

theorem Holds.readFile (hc : c.Sound p) (h : Holds p c s) (hpath : c.OwnPath p id) :
    s.readFile p id = .ok (c id) := by
  unfold FileStore.readFile
  cases hstored : c id with
  | some inst =>
    rw [h.filed hstored]
    dsimp only
    rw [hc.read hstored]
  | none =>
    cases hfile : s.files.lookup (pathFor p id) with
    | none => rfl
    | some other =>
      -- the file would be another instance's, at the same path
      obtain ⟨hname, hother⟩ := h.kept hfile
      have hid := hpath other.id (by rw [hother]; rfl) hname.symm
      rw [hid, hstored] at hother
      cases hother

theorem Holds.put (h : Holds p c s) (hpath : c.OwnPath p inst.id) : Holds p (c.put inst) (s.writeAtomic p inst) := by
  have hlookup (name : String) : (s.writeAtomic p inst).files.lookup name =
      if name = pathFor p inst.id then some inst else s.files.lookup name := lookup_insert_apply _ _ _ _
  constructor
  · intro id other hother
    rw [put_eq] at hother
    rw [hlookup]
    split at hother
    · rw [‹id = inst.id›, if_pos rfl, hother]
    · rename_i hne
      rw [if_neg fun hsame => hne (hpath id (by rw [hother]; rfl) hsame), h.filed hother]
  · intro name other hother
    rw [hlookup] at hother
    rw [put_eq]
    split at hother
    · cases hother
      exact ⟨‹_›, if_pos rfl⟩
    · rename_i hne
      obtain ⟨hname, hkept⟩ := h.kept hother
      exact ⟨hname, (if_neg fun hid => hne (hname.trans (by rw [hid]))).trans hkept⟩

theorem Holds.scan (hc : c.Sound p) (h : Holds p c s) : c.Lists (fun _ => True) (s.scan p) := by
  have hfiles {file : String × WorkflowInstance} (hfile : file ∈ s.files.entries.map fun file => (file.1, file.2)) :
      file.1 = pathFor p file.2.id ∧ c file.2.id = some file.2 := by
    obtain ⟨⟨name, inst⟩, hmem, rfl⟩ := mem_map.mp hfile
    exact h.kept (AList.mem_lookup_iff.mpr hmem)
  have hscan : s.scan p = (p.dirOrder.of (s.files.entries.map fun file => (file.1, file.2))).map Prod.snd := by
    unfold FileStore.scan
    rw [filter_eq_self.mpr]
    · rw [← filterMap_eq_map (f := Prod.snd)]
      refine filterMap_congr fun file hfile => ?_
      rw [hc.read (hfiles ((p.dirOrder.perm _).mem_iff.mp hfile)).2]
      rfl
    · intro file hfile
      obtain ⟨hname, hstored⟩ := hfiles ((p.dirOrder.perm _).mem_iff.mp hfile)
      exact decide_eq_true (if_neg (hname ▸ pathFor_ne_empty (hc.named hstored)))
  rw [hscan]
  refine .of_entries (pathFor p) p.dirOrder ?_ (fun file hfile => hfiles hfile) fun inst hinst => ?_
  · rw [List.map_map]
    exact s.files.nodupKeys
  · exact mem_map.mpr ⟨⟨_, inst⟩, AList.mem_lookup_iff.mp (h.filed hinst), rfl⟩

theorem create_refines (hc : c.Sound p) (h : Holds p c s) (hcall : c.Orderly p (.create inst)) :
    c.Answers (.create inst) (.ofInstance (s.create p inst).1) ∧ Holds p (c.after (.create inst)) (s.create p inst).2 := by
  unfold create
  rw [h.readFile hc hcall.1]
  cases hstored : c inst.id with
  | some stored =>
    rw [after_create_of_stored hstored]
    exact ⟨.collided hstored, h⟩
  | none =>
    rw [after_create_of_new hstored]
    exact ⟨.created hstored, h.put hcall.1⟩

theorem save_refines (hc : c.Sound p) (h : Holds p c s) (hcall : c.Orderly p (.saveIfVersion inst expectedVersion)) :
    c.Answers (.saveIfVersion inst expectedVersion) (.ofInstance (s.saveIfVersion p inst expectedVersion).1) ∧
      Holds p (c.after (.saveIfVersion inst expectedVersion)) (s.saveIfVersion p inst expectedVersion).2 := by
  unfold saveIfVersion
  rw [h.readFile hc hcall.1]
  cases hstored : c inst.id with
  | none =>
    exact stale_served (H := fun c => Holds p c s) h (by simp [hstored])
  | some stored =>
    dsimp only
    split
    · rename_i hversion
      exact stale_served (H := fun c => Holds p c s) h (by simp [hstored, hversion])
    · rename_i hversion
      have hversion := Decidable.not_not.mp hversion
      rw [after_save_of_current hstored hversion]
      exact ⟨.saved hstored hversion, h.put hcall.1⟩

theorem refines : (service p).RefinedBy (backend p) fun c s => c.Sound p ∧ Holds p c s where
  init := ⟨⟨nofun, nofun, nofun, nofun⟩, nofun, nofun⟩
  answers := by
    rintro c s call ⟨hc, h⟩ hcall
    cases call with
    | create inst => exact (create_refines hc h hcall).1
    | load id =>
      change c.Answers (.load id) (.ofInstance (s.load p id))
      unfold load
      rw [h.readFile hc hcall]
      cases hstored : c id with
      | some inst => exact .loaded hstored
      | none => exact .missing hstored
    | saveIfVersion inst expectedVersion => exact (save_refines hc h hcall).1
    | findByRunId runId => exact .found ((h.scan hc).find_root hc hcall)
    | listWaitingOnLock => exact .waitingOnLock ((h.scan hc).filter fun _ _ => Iff.rfl)
    | listWaitingOnSubworkflow => exact .waitingOnSubworkflow ((h.scan hc).filter fun _ _ => Iff.rfl)
    | listAll => exact .all (h.scan hc)
  step := by
    rintro c s call ⟨hc, h⟩ hcall
    refine ⟨hc.after hcall, ?_⟩
    cases call with
    | create inst => exact (create_refines hc h hcall).2
    | saveIfVersion inst expectedVersion => exact (save_refines hc h hcall).2
    | _ => exact h

end FileStore

/-- Over orderly calls the three backends cannot be told apart. -/
theorem backends_agree (p : Platform) {calls : List StoreCall} (hcalls : (service p).Admits (service p).empty calls) :
    List.Forall₂ Same ((MemoryStore.backend p).replies (MemoryStore.backend p).init calls)
      ((SqliteStore.backend p).replies (SqliteStore.backend p).init calls) ∧
    List.Forall₂ Same ((MemoryStore.backend p).replies (MemoryStore.backend p).init calls)
      ((FileStore.backend p).replies (FileStore.backend p).init calls) :=
  ⟨MemoryStore.refines.replies Answers.same SqliteStore.refines MemoryStore.refines.init SqliteStore.refines.init hcalls,
    MemoryStore.refines.replies Answers.same FileStore.refines MemoryStore.refines.init FileStore.refines.init hcalls⟩

def Order.same : Order :=
  ⟨fun entries => entries, fun _ => .refl _⟩

def Platform.plain : Platform :=
  ⟨Char.isAlphanum, .ok, .same, .same, .same⟩

def storedOf (id : String) (runId : Option String) (parent : Option ParentLink) (context : Fields) : WorkflowInstance :=
  ⟨id, "d", "1", .emptyObject, "a", 0, .emptyObject, .object context, 0, ⟨"/", runId, none, none, []⟩, 0, none, none, parent⟩

def repliesOf (backend : Platform → Transducer StoreCall StoreReply) (calls : List StoreCall) : List StoreReply :=
  (backend .plain).replies (backend .plain).init calls

def twoRoots : List StoreCall :=
  [.create (storedOf "a" (some "r") none []), .create (storedOf "b" (some "r") none [])]

def childLookup : List StoreCall :=
  [.create (storedOf "a" (some "r") (some ⟨"p", "go"⟩) []), .findByRunId "r"]

def nullMarker : List StoreCall :=
  [.create (storedOf "a" none none [("_lock_wait", .null)]), .listWaitingOnLock]

def samePath : List StoreCall :=
  [.create (storedOf "a.b" none none []), .load "a/b"]

theorem backends_differ :
    ¬ List.Forall₂ Same (repliesOf MemoryStore.backend twoRoots) (repliesOf FileStore.backend twoRoots) ∧
    ¬ List.Forall₂ Same (repliesOf MemoryStore.backend childLookup) (repliesOf SqliteStore.backend childLookup) ∧
    ¬ List.Forall₂ Same (repliesOf MemoryStore.backend nullMarker) (repliesOf SqliteStore.backend nullMarker) ∧
    ¬ List.Forall₂ Same (repliesOf MemoryStore.backend samePath) (repliesOf FileStore.backend samePath) := by
  decide +kernel

theorem root_calls_agree : ∃ calls : List StoreCall, calls.length = 3 ∧
    repliesOf MemoryStore.backend calls = [.stored (storedOf "a" (some "r") none []),
      .stored (storedOf "a" (some "r") none []), .found (some "a")] ∧
    List.Forall₂ Same (repliesOf MemoryStore.backend calls) (repliesOf SqliteStore.backend calls) ∧
    List.Forall₂ Same (repliesOf MemoryStore.backend calls) (repliesOf FileStore.backend calls) := by
  refine ⟨[.create (storedOf "a" (some "r") none []), .load "a", .findByRunId "r"], rfl, by decide +kernel,
    backends_agree .plain ⟨⟨nofun, fun _ => ⟨by decide, rfl, nofun⟩⟩, ?_, ?_, trivial⟩⟩
  -- only the created root is stored from here on
  · intro other hother _
    change (StoreContents.put (fun _ => none) (storedOf "a" (some "r") none []) other).isSome at hother
    rw [put_eq] at hother
    split at hother
    · assumption
    · cases hother
  · intro id inst hinst _
    change StoreContents.put (fun _ => none) (storedOf "a" (some "r") none []) id = some inst at hinst
    rw [put_eq] at hinst
    split at hinst
    · cases hinst
      rfl
    · cases hinst

end Praxec
