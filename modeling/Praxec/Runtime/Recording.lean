import Praxec.Runtime.Lineage

namespace Praxec

open Json Effect List Gateway Machine

variable {cfg : RuntimeConfig} {Φ : Value → Value → Prop} {definitions : Fields}

section

variable {m m' : Gateway} {a : GatewayAction}

def WritesRecord (m : Gateway) (a : GatewayAction) (record : TransitionRecord) : Prop :=
  ∃ p hist f, m.Appends a p hist (.op (.auditTransition f record) (.ok ()))

theorem records_step (hact : m.act (body cfg) a = some m') : m'.world.records = m.world.records ∨
    ∃ record, WritesRecord m a record ∧ m'.world.records = m.world.records ++ [record] := by
  cases act_cases hact with
  | answer ht hr =>
    rcases (World.handle_logs hr).records with hsame | ⟨f, record, he, hwritten⟩
    · exact .inl hsame
    · have happ := Appends.answer ht hr
      rw [he] at happ
      exact .inr ⟨record, ⟨_, _, f, happ⟩, hwritten⟩
  | outside hout =>
    obtain ⟨ms, rfl⟩ := World.outside_eq hout
    exact .inl rfl
  | _ => exact .inl rfl

theorem records_of_writes (hact : m.act (body cfg) a = some m')
    (hw : WritesRecord m a record) : m'.world.records = m.world.records ++ [record] ∧
    m'.world.instances = m.world.instances ∧ m'.world.journal = m.world.journal := by
  obtain ⟨p, hist, f, happ⟩ := hw
  obtain ⟨input, hr⟩ := happ.handled hact
  cases input with
  | auto =>
    have hworld := (Prod.mk.inj (Option.some.inj hr)).2
    rw [← hworld]
    exact ⟨rfl, rfl, rfl⟩
  | fail e => cases hr
  | _ => cases hr

inductive Added (cfg : RuntimeConfig) (Φ : Value → Value → Prop) (m : Gateway) (a : GatewayAction) :
    StoreWrite → Prop where
  | created {inst : WorkflowInstance} {p : Proc} {hist : History}
      (happ : m.Appends a p hist (.op (.storeCreate inst) (.ok inst))) (hnew : m.world.find inst.id = none)
      (hfresh : inst.Fresh cfg) : Added cfg Φ m a (.created inst)
  | saved {t : Thread Sig} {kind : SaveKind} {next stored : WorkflowInstance} {v : Nat} (ht : t ∈ m.threads)
      (happ : m.Appends a t.proc t.hist (.op (.storeSave kind next v) (.ok next)))
      (hfind : m.world.find next.id = some stored) (hbase : Journaled m.world.journal kind.base)
      (hrebound : Rebound kind.base stored) (hlive : kind.Live) (hsaves : Saves cfg Φ t.hist kind next) :
      Added cfg Φ m a (.saved kind next)

theorem Gateway.Lineage.journal_step (hm : m.Lineage cfg Φ) (hact : m.act (body cfg) a = some m') :
    m'.world.journal = m.world.journal ∧ m'.world.instances = m.world.instances ∨
      ∃ write, m'.world.journal = m.world.journal ++ [write] ∧ Added cfg Φ m a write ∧
        ∀ id, m'.world.find id = if write.inst.id = id then some write.inst else m.world.find id := by
  cases act_cases hact with
  | outside hout =>
    obtain ⟨ms, rfl⟩ := World.outside_eq hout
    exact .inl ⟨rfl, rfl⟩
  | spawn _ | enter _ _ | leave _ _ | expire _ _ | restart => exact .inl ⟨rfl, rfl⟩
  | answer ht hr =>
    cases World.handle_store hr with
    | same hinstances hjournal _ => exact .inl ⟨hjournal, hinstances⟩
    | created hnew =>
      exact .inr ⟨_, rfl, .created (.answer ht hr) hnew (hm.owes ht (r := Except.error "") trivial trivial),
        World.find_put _ _⟩
    | saved hfind hversion =>
      obtain ⟨⟨⟨base, hbase, hbaseEq⟩, hv, hlive⟩, hsaves⟩ := hm.owes ht (r := Except.error "") trivial trivial
      refine .inr ⟨_, rfl, .saved (mem_of_getElem? ht) (.answer ht hr) hfind ⟨base, hbase, hbaseEq⟩ ?_ hlive hsaves,
        World.find_put _ _⟩
      obtain ⟨hid, stored, hstored, rfl⟩ := hm.agrees.mem hfind
      rw [← hbaseEq]
      refine hm.chained.rebound hbase hstored ?_ ?_
      · rw [hbaseEq, hid, hsaves.sameRun.id]
      · rw [hbaseEq, ← hv, hversion]

end

section

def Awaits (t : Thread Sig) (record : TransitionRecord) : Prop :=
  ∃ f, t.hist.getLast? = some (.op (.auditTransition f record) (.ok ()))

theorem Saves.awaits {next}
    (hs : Saves cfg Φ t.hist (.transition f) next) : ∃ record, Awaits t record ∧ record.Describes f next := by
  cases hs with
  | transition hcommit hrecorded =>
    obtain ⟨before, record, hhist, hdescribes⟩ := hrecorded
    exact ⟨record, ⟨f, by rw [hhist, getLast?_concat]⟩, hdescribes⟩

/-- Records that matter: a task is about to commit what they say, or something has been committed at
their version. -/
def Matters (m : Gateway) (record : TransitionRecord) : Prop :=
  (∃ t ∈ m.threads, Awaits t record) ∨
    ∃ write ∈ m.world.journal, record.workflowId = write.inst.id ∧ record.seq = write.inst.version

variable (R : List TransitionRecord → TransitionRecord → Prop)

/-- Records of the stream that stand by `R`, for every task that is about to commit and for every commit. -/
structure Recording (cfg : RuntimeConfig) (m : Gateway) : Prop where
  lineage : m.Lineage cfg fun _ _ => True
  awaited : ∀ t ∈ m.threads, ∀ record, Awaits t record → R m.world.records record
  committed : ∀ f next, .saved (.transition f) next ∈ m.world.journal →
    ∃ record, R m.world.records record ∧ record.Describes f next

variable {R}

theorem Recording.boot : Recording R cfg (boot definitions) :=
  ⟨.boot definitions, fun _ ht => (by cases ht), fun _ _ hw => (by cases hw)⟩

theorem Recording.step (hrec : Recording R cfg m)
    (hact : m.act (body cfg) a = some m') (hnew : ∀ records record, R (records ++ [record]) record)
    (hkept : ∀ record, WritesRecord m a record → ∀ older, Matters m older → R m.world.records older →
    R (m.world.records ++ [record]) older) : Recording R cfg m' := by
  have hstands {older : TransitionRecord} (hmatters : Matters m older) (ho : R m.world.records older) :
      R m'.world.records older := by
    rcases records_step hact with hsame | ⟨record, hw, hwritten⟩
    · rwa [hsame]
    · rw [hwritten]
      exact hkept record hw older hmatters ho
  refine ⟨hrec.lineage.step hact, ?_, ?_⟩
  · rintro t ht record ⟨f, hlast⟩
    rcases last_of_step hact ht hlast with hold | ⟨p, hist, happ⟩
    · exact hstands (.inl ⟨t, hold, f, hlast⟩) (hrec.awaited t hold record ⟨f, hlast⟩)
    · rw [(records_of_writes hact ⟨p, hist, f, happ⟩).1]
      exact hnew _ _
  · have hcommitted (f : Firing) (next : WorkflowInstance) (hold : .saved (.transition f) next ∈ m.world.journal) :
        ∃ record, R m'.world.records record ∧ record.Describes f next := by
      obtain ⟨record, hstood, hdescribes⟩ := hrec.committed f next hold
      exact ⟨record, hstands (.inr ⟨_, hold, hdescribes.workflowId, hdescribes.seq⟩) hstood, hdescribes⟩
    intro f next hw
    rcases hrec.lineage.journal_step hact with ⟨hsame, -⟩ | ⟨write, hadded, hwrite, -⟩
    · exact hcommitted f next (hsame ▸ hw)
    rw [hadded] at hw
    rcases mem_append.mp hw with hold | hlast
    · exact hcommitted f next hold
    cases mem_singleton.mp hlast
    cases hwrite with
    | saved ht _ _ _ _ _ hsaves =>
      obtain ⟨record, hawaits, hdescribes⟩ := hsaves.awaits
      exact ⟨record, hstands (.inl ⟨_, ht, hawaits⟩) (hrec.awaited _ ht record hawaits), hdescribes⟩

end

theorem Gateway.ReachableWith.recording
    (hm : ReachableWith cfg ok definitions m) : Recording (fun records record => record ∈ records) cfg m :=
  hm.invariant .boot fun hrec hact _ => hrec.step hact (fun _ _ => mem_append_right _ (mem_singleton.mpr rfl))
    fun _ _ _ _ ho => mem_append_left _ ho

def surviving (id : String) (seq : Nat) (records : List TransitionRecord) : Option TransitionRecord :=
  records.foldl (fun found record => if record.workflowId = id ∧ record.seq = seq then some record else found) none

theorem surviving_snoc (id : String) (seq : Nat) (records : List TransitionRecord) (record : TransitionRecord) :
    surviving id seq (records ++ [record]) =
      if record.workflowId = id ∧ record.seq = seq then some record else surviving id seq records := by
  simp [surviving]

/-- The step writes no record, or one for the version after the stored one, for which no other task has
written a record that it is about to commit. -/
def RecordsAlone (m : Gateway) (a : GatewayAction) (_ : Gateway) : Prop :=
  ∀ record, WritesRecord m a record →
    (∃ stored, m.world.find record.workflowId = some stored ∧ record.seq = stored.version + 1) ∧
    ∀ t ∈ m.threads, ∀ other, Awaits t other → ¬ (other.workflowId = record.workflowId ∧ other.seq = record.seq)

theorem Gateway.ReachableWith.surviving (hm : ReachableWith cfg RecordsAlone definitions m) :
    Recording (fun records record => surviving record.workflowId record.seq records = some record) cfg m := by
  refine hm.invariant .boot fun {m _ _} hrec hact hok => hrec.step hact (fun records record => ?_) ?_
  · rw [surviving_snoc, if_pos ⟨rfl, rfl⟩]
  · intro record hw older hmatters hstood
    obtain ⟨⟨stored, hstored, hseq⟩, halone⟩ := hok record hw
    rw [surviving_snoc, if_neg, hstood]
    rintro ⟨hid, hversion⟩
    rcases hmatters with ⟨t, ht, hawaits⟩ | ⟨write, hwrite, hwid, hwversion⟩
    · exact halone t ht older hawaits ⟨hid.symm, hversion.symm⟩
    · obtain ⟨found, hfound, hle⟩ := hrec.lineage.chained.current_of_mem hwrite
      rw [← hwid, ← hid, ← hrec.lineage.agrees.find, hstored] at hfound
      cases hfound
      omega

theorem Saves.state {next} (hs : Saves cfg Φ h kind next) : next.state = kind.base.state ∨ ∃ f, kind = .transition f := by
  cases hs with
  | transition => exact .inr ⟨_, rfl⟩
  | _ => exact .inl rfl

def forkDefinition : Value :=
  definitionOf "a" [("a", stateOf [("left", transitionOf "b" "caller" []), ("right", transitionOf "c" "caller" [])]),
    ("b", terminalState), ("c", terminalState)]

def recordedSubmit (i : Nat) (transition correlationId : String) : List GatewayAction :=
  .spawn (.submit ⟨"wf_1", 0, transition, .emptyObject, .anonymous, none, none, none⟩) :: answers i 1 ++
    [.answer i (.fresh correlationId)] ++ answers i 2

def misrecorded (w : World) : StoreWrite → Bool
  | .saved (.transition f) next =>
      decide ((surviving next.id next.version w.records).map TransitionRecord.transition ≠ some f.transition)
  | _ => false

def recordsAlone (m : Gateway) (a : GatewayAction) : Bool :=
  match m.pending a with
  | some (.auditTransition _ record) =>
      (m.world.find record.workflowId).any (fun stored => decide (record.seq = stored.version + 1)) &&
      m.threads.all fun t => match t.hist.getLast? with
        | some (.op (.auditTransition ..) _) => false
        | _ => true
  | _ => true

theorem recordsAlone_step (m : Gateway) (a : GatewayAction) (m' : Gateway) (h : recordsAlone m a) :
    RecordsAlone m a m' := by
  rintro record ⟨p, hist, f, happ⟩
  rw [recordsAlone, happ.pending] at h
  simp only [Bool.and_eq_true, Option.any_eq_true, decide_eq_true_eq, all_eq_true] at h
  refine ⟨h.1, ?_⟩
  rintro t ht other ⟨g, hlast⟩ -
  have hidle := h.2 t ht
  rw [hlast] at hidle
  cases hidle

end Praxec
