import Mathlib.Data.List.Induction
import Praxec.Runtime.Commits

namespace Praxec

open Json Effect Prog Monitor List

variable {cfg : RuntimeConfig} {Φ : Value → Value → Prop} {h : History}

structure Rebound (a b : WorkflowInstance) : Prop where
  rest : { a with context := b.context } = b
  context : ∀ key, key ≠ "_subworkflow_wait" → a.context.get key = b.context.get key

namespace Rebound

variable {a b : WorkflowInstance}

theorem refl (a : WorkflowInstance) : Rebound a a :=
  ⟨rfl, fun _ _ => rfl⟩

theorem symm (hab : Rebound a b) : Rebound b a := by
  refine ⟨?_, fun key hkey => (hab.context key hkey).symm⟩
  rw [← hab.rest]

theorem trans (hab : Rebound a b) (hbc : Rebound b c) : Rebound a c := by
  refine ⟨?_, fun key hkey => (hab.context key hkey).trans (hbc.context key hkey)⟩
  rw [← hbc.rest, ← hab.rest]

theorem id_eq (hab : Rebound a b) : a.id = b.id := by
  rw [← hab.rest]

theorem version_eq (hab : Rebound a b) : a.version = b.version := by
  rw [← hab.rest]

end Rebound

structure SameRun (a b : WorkflowInstance) : Prop where
  id : a.id = b.id
  definition : a.definition = b.definition
  input : a.input = b.input

theorem Saves.sameRun {kind : SaveKind} {next : WorkflowInstance} (hs : Saves cfg Φ h kind next) :
    SameRun next kind.base := by
  cases hs with
  | transition hcommit _ => rw [hcommit.frame]; exact ⟨rfl, rfl, rfl⟩
  | _ => exact ⟨rfl, rfl, rfl⟩

theorem Rebound.sameRun {a b : WorkflowInstance} (hab : Rebound a b) : SameRun a b := by
  rw [← hab.rest]
  exact ⟨rfl, rfl, rfl⟩

theorem Saves.version {kind : SaveKind} {next : WorkflowInstance} (hs : Saves cfg Φ h kind next) :
    next.version = kind.base.version + 1 ∧ kind ≠ .spawnBinding kind.base ∨
      kind = .spawnBinding kind.base ∧ Rebound next kind.base := by
  cases hs with
  | transition hcommit _ => left; rw [hcommit.frame]; exact ⟨rfl, nofun⟩
  | spawnBinding => exact .inr ⟨rfl, rfl, fun key hkey => get_writeMarker_of_ne _ _ hkey⟩
  | _ => exact .inl ⟨rfl, nofun⟩

def current (id : String) (journal : List StoreWrite) : Option WorkflowInstance :=
  journal.foldl (fun found write => if write.inst.id = id then some write.inst else found) none

theorem current_snoc (id : String) (journal : List StoreWrite) (write : StoreWrite) :
    current id (journal ++ [write]) = if write.inst.id = id then some write.inst else current id journal := by
  simp [current]

theorem mem_of_current {id : String} {journal : List StoreWrite} {inst : WorkflowInstance}
    (hc : current id journal = some inst) : inst.id = id ∧ ∃ write ∈ journal, write.inst = inst := by
  induction journal using List.reverseRecOn with
  | nil => cases hc
  | append_singleton journal write ih =>
    rw [current_snoc] at hc
    split at hc
    · cases hc
      exact ⟨‹_›, write, by simp, rfl⟩
    · obtain ⟨hid, earlier, hmem, heq⟩ := ih hc
      exact ⟨hid, earlier, mem_append_left _ hmem, heq⟩

/-- A journal in which every instance is created once, and every save is made from the snapshot that it
replaces. -/
inductive Chained (cfg : RuntimeConfig) (Φ : Value → Value → Prop) : List StoreWrite → Prop where
  | nil : Chained cfg Φ []
  | created {journal : List StoreWrite} {inst : WorkflowInstance} (hj : Chained cfg Φ journal)
      (hnew : current inst.id journal = none) (hfresh : inst.Fresh cfg) : Chained cfg Φ (journal ++ [.created inst])
  | saved {journal : List StoreWrite} {kind : SaveKind} {next stored : WorkflowInstance} {h : History}
      (hj : Chained cfg Φ journal) (hcurrent : current next.id journal = some stored)
      (hbase : Rebound kind.base stored) (hlive : kind.Live) (hsaves : Saves cfg Φ h kind next) :
      Chained cfg Φ (journal ++ [.saved kind next])

namespace Chained

variable {journal : List StoreWrite}

theorem snapshots {I : WorkflowInstance → Prop} (hj : Chained cfg Φ journal)
    (hfresh : ∀ inst, inst.Fresh cfg → I inst)
    (hsave : ∀ kind next stored h, I stored → Rebound kind.base stored → kind.Live → Saves cfg Φ h kind next →
      I next) : ∀ write ∈ journal, I write.inst := by
  induction hj with
  | nil => exact fun _ hw => by cases hw
  | created hj hnew hinst ih => exact forall_mem_append.mpr ⟨ih, fun _ hw => mem_singleton.mp hw ▸ hfresh _ hinst⟩
  | saved hj hcurrent hbase hlive hsaves ih =>
    obtain ⟨_, old, hold, rfl⟩ := mem_of_current hcurrent
    exact forall_mem_append.mpr
      ⟨ih, fun _ hw => mem_singleton.mp hw ▸ hsave _ _ _ _ (ih old hold) hbase hlive hsaves⟩

theorem current_of_mem (hj : Chained cfg Φ journal) (hw : write ∈ journal) :
    ∃ stored, current write.inst.id journal = some stored ∧ write.inst.version ≤ stored.version := by
  induction hj with
  | nil => cases hw
  | created hj hnew hfresh ih =>
    rw [current_snoc]
    rcases mem_append.mp hw with hold | hlast
    · obtain ⟨stored, hstored, hle⟩ := ih hold
      split
      · rename_i hid
        rw [← hid] at hstored
        cases hnew.symm.trans hstored
      · exact ⟨stored, hstored, hle⟩
    · cases mem_singleton.mp hlast
      exact ⟨_, if_pos rfl, Nat.le_refl _⟩
  | @saved journal kind next stored h hj hcurrent hbase _ hsaves ih =>
    rw [current_snoc]
    rcases mem_append.mp hw with hold | hlast
    · obtain ⟨found, hfound, hle⟩ := ih hold
      split
      · rename_i hid
        cases hcurrent.symm.trans (hid ▸ hfound)
        have hversion := hbase.version_eq
        have hnext : kind.base.version ≤ next.version := by
          rcases hsaves.version with ⟨hmoved, -⟩ | ⟨-, hbound⟩
          · omega
          · exact Nat.le_of_eq hbound.version_eq.symm
        exact ⟨next, rfl, by omega⟩
      · exact ⟨found, hfound, hle⟩
    · cases mem_singleton.mp hlast
      exact ⟨_, if_pos rfl, Nat.le_refl _⟩

theorem agree (hE : Equivalence E) {id : String} {version : Nat}
    (hj : Chained cfg Φ journal) (hbindings : ∀ parent next stored, .saved (.spawnBinding parent) next ∈ journal →
    next.id = id → next.version = version → Rebound next stored → E next stored)
    {write other : StoreWrite} (hw : write ∈ journal) (ho : other ∈ journal)
    (hwrite : write.inst.id = id ∧ write.inst.version = version)
    (hother : other.inst.id = id ∧ other.inst.version = version) : E write.inst other.inst := by
  induction hj generalizing write other with
  | nil => cases hw
  | @created journal inst hj hnew hfresh ih =>
    have hfirst {old : StoreWrite} (hold : old ∈ journal) (heq : old.inst.id = inst.id) : False := by
      obtain ⟨stored, hstored, _⟩ := hj.current_of_mem hold
      rw [heq, hnew] at hstored
      cases hstored
    rcases mem_append.mp hw with hw | hw <;> rcases mem_append.mp ho with ho | ho
    · exact ih (fun parent next stored hb => hbindings parent next stored (mem_append_left _ hb)) hw ho hwrite hother
    · cases mem_singleton.mp ho
      exact (hfirst hw (hwrite.1.trans hother.1.symm)).elim
    · cases mem_singleton.mp hw
      exact (hfirst ho (hother.1.trans hwrite.1.symm)).elim
    · cases mem_singleton.mp hw
      cases mem_singleton.mp ho
      exact hE.refl _
  | @saved journal kind next stored h hj hcurrent hbase _ hsaves ih =>
    obtain ⟨hstoredId, current, hmem, rfl⟩ := mem_of_current hcurrent
    have ih := @ih fun parent next stored hb => hbindings parent next stored (mem_append_left _ hb)
    -- an older snapshot at the new one's version is the one it was bound from
    have hlast {old : StoreWrite} (hold : old ∈ journal) (hofOld : old.inst.id = id ∧ old.inst.version = version)
        (hofNext : next.id = id ∧ next.version = version) : E old.inst next := by
      obtain ⟨found, hfound, hle⟩ := hj.current_of_mem hold
      rw [hofOld.1, ← hofNext.1, hcurrent] at hfound
      cases hfound
      have hbaseVersion := hbase.version_eq
      rcases hsaves.version with ⟨hnext, -⟩ | ⟨hkind, hnext⟩
      · omega
      · have hnextVersion := hnext.version_eq
        have hbound : E next current.inst := hbindings kind.base next current.inst
          (mem_append_right _ (mem_singleton.mpr (by rw [← hkind]))) hofNext.1 hofNext.2 (hnext.trans hbase)
        exact hE.trans (ih hold hmem hofOld ⟨hstoredId.trans hofNext.1, by omega⟩) (hE.symm hbound)
    rcases mem_append.mp hw with hw | hw <;> rcases mem_append.mp ho with ho | ho
    · exact ih hw ho hwrite hother
    · cases mem_singleton.mp ho
      exact hlast hw hwrite hother
    · cases mem_singleton.mp hw
      exact hE.symm (hlast ho hother hwrite)
    · cases mem_singleton.mp hw
      cases mem_singleton.mp ho
      exact hE.refl _

theorem rebound (hj : Chained cfg Φ journal) {write other : StoreWrite} (hw : write ∈ journal)
    (ho : other ∈ journal) (hid : write.inst.id = other.inst.id)
    (hversion : write.inst.version = other.inst.version) : Rebound write.inst other.inst :=
  hj.agree ⟨.refl, .symm, .trans⟩ (fun _ _ _ _ _ _ hbound => hbound) hw ho ⟨hid, hversion⟩ ⟨rfl, rfl⟩

end Chained

structure World.Agrees (w : World) : Prop where
  find : ∀ id, w.find id = current id w.journal
  entries : ∀ entry ∈ w.instances, w.find entry.1 = some entry.2

def HandsBack (w : World) : (o : Op) → o.Res → Prop
  | .storeLoad id, .ok inst => w.find id = some inst
  | .storeSave .., .ok _ | .storeCreate _, .ok _ => False
  | _, _ => True

/-- What one answered request does to the store: nothing but handing out what it has, one creation, or
one save at the stored version. -/
inductive StoreStep (w : World) : (o : Op) → o.Res → World → Prop where
  | same {o : Op} {r : o.Res} {w' : World} (hinstances : w'.instances = w.instances)
      (hjournal : w'.journal = w.journal) (hreply : HandsBack w o r) : StoreStep w o r w'
  | created {inst : WorkflowInstance} (hnew : w.find inst.id = none) :
      StoreStep w (.storeCreate inst) (.ok inst) (w.put (.created inst))
  | saved {kind : SaveKind} {next stored : WorkflowInstance} {v : Nat} (hfind : w.find next.id = some stored)
      (hversion : stored.version = v) :
      StoreStep w (.storeSave kind next v) (.ok next) (w.put (.saved kind next))

theorem World.handle_store {w w' : World} {o : Op} {input : Input} {r : o.Res}
    (hr : w.handle o input = some (r, w')) : StoreStep w o r w' := by
  cases o with
  | storeLoad id =>
    cases input with
    | auto =>
      cases hr
      refine .same rfl rfl ?_
      unfold loadInstance
      cases hfind : w.find id with
      | some inst => exact hfind
      | none => trivial
    | fail e => cases hr; exact .same rfl rfl trivial
    | _ => cases hr
  | storeSave kind next v =>
    cases input with
    | auto =>
      have hsave : w.saveIfVersion kind next v = (r, w') := Option.some.inj hr
      obtain ⟨e, he⟩ | ⟨stored, hfind, hversion, he⟩ := w.saveIfVersion_cases kind next v
      · cases hsave.symm.trans he
        exact .same rfl rfl trivial
      · cases hsave.symm.trans he
        exact .saved hfind hversion
    | fail e => cases hr; exact .same rfl rfl trivial
    | _ => cases hr
  | storeCreate inst =>
    cases input with
    | auto =>
      have hcreate : w.create inst = (r, w') := Option.some.inj hr
      obtain ⟨e, he⟩ | ⟨hnew, he⟩ := w.create_cases inst
      · cases hcreate.symm.trans he
        exact .same rfl rfl trivial
      · cases hcreate.symm.trans he
        exact .created hnew
    | fail e => cases hr; exact .same rfl rfl trivial
    | _ => cases hr
  | _ => cases input <;> cases hr <;> exact .same rfl rfl trivial

theorem lookup_filter_ne {id key : String} (hid : id ≠ key) (entries : List (String × α)) :
    (entries.filter fun entry => entry.1 ≠ key).lookup id = entries.lookup id := by
  induction entries with
  | nil => rfl
  | cons entry rest ih =>
    obtain ⟨name, value⟩ := entry
    by_cases hname : name = key
    · have hskip : (id == name) = false := by simpa [hname] using hid
      rw [filter_cons_of_neg (by simp [hname]), ih, lookup_cons, hskip]
    · rw [filter_cons_of_pos (by simpa using hname), lookup_cons, lookup_cons, ih]

theorem World.find_put (w : World) (write : StoreWrite) (id : String) :
    (w.put write).find id = if write.inst.id = id then some write.inst else w.find id := by
  unfold find put
  rw [lookup_cons]
  split
  · rename_i hid
    rw [if_pos (beq_iff_eq.mp hid).symm]
  · rename_i hid
    have hne : id ≠ write.inst.id := beq_eq_false_iff_ne.mp hid
    rw [if_neg hne.symm, lookup_filter_ne hne]

theorem World.Agrees.put {w : World} (hw : w.Agrees) (write : StoreWrite) : (w.put write).Agrees where
  find id := by
    rw [World.find_put, hw.find]
    exact (current_snoc id w.journal write).symm
  entries entry hmem := by
    rw [World.find_put]
    rcases mem_cons.mp hmem with rfl | hold
    · exact if_pos rfl
    · obtain ⟨hmem, hne⟩ := mem_filter.mp hold
      rw [if_neg fun h => (of_decide_eq_true hne) h.symm]
      exact hw.entries entry hmem

theorem World.Agrees.mem {w : World} (hw : w.Agrees) {id : String} {inst : WorkflowInstance}
    (hfind : w.find id = some inst) : inst.id = id ∧ ∃ write ∈ w.journal, write.inst = inst :=
  mem_of_current ((hw.find id).symm.trans hfind)

def Journaled (journal : List StoreWrite) (inst : WorkflowInstance) : Prop :=
  ∃ write ∈ journal, write.inst = inst

structure Gateway.Lineage (cfg : RuntimeConfig) (Φ : Value → Value → Prop) (m : Gateway) : Prop where
  chained : Chained cfg Φ m.world.journal
  agrees : m.world.Agrees
  verified : ∀ K, (∀ write ∈ m.world.journal, K write.inst) →
    m.Verified (Commits.mon cfg Φ K) (fun _ => []) (Commits.outline cfg Φ K).fin

namespace Gateway.Lineage

variable {m m' : Gateway} {a : GatewayAction}

theorem boot (definitions : Fields) : (Gateway.boot definitions).Lineage cfg Φ where
  chained := .nil
  agrees := ⟨fun _ => rfl, fun _ hmem => by cases hmem⟩
  verified _ _ _ hmem := by cases hmem

theorem store_step (hact : m.act (body cfg) a = some m') :
    (m'.world.instances = m.world.instances ∧ m'.world.journal = m.world.journal) ∨
    ∃ o r, StoreStep m.world o r m'.world := by
  cases Machine.act_cases hact with
  | answer ht hr => exact .inr ⟨_, _, World.handle_store hr⟩
  | outside hout =>
    obtain ⟨ms, rfl⟩ := World.outside_eq hout
    exact .inl ⟨rfl, rfl⟩
  | _ => exact .inl ⟨rfl, rfl⟩

theorem journal_grows (hact : m.act (body cfg) a = some m') {write : StoreWrite}
    (hw : write ∈ m.world.journal) : write ∈ m'.world.journal := by
  obtain ⟨_, hjournal⟩ | ⟨_, _, hstore⟩ := store_step hact
  · rwa [hjournal]
  · generalize m'.world = w' at hstore ⊢
    cases hstore with
    | same _ hjournal _ => rwa [hjournal]
    | created _ | saved _ _ => exact mem_append_left _ hw

theorem handsOut_step (hm : m.Lineage cfg Φ) {o : Op} {r : o.Res} {w' : World} (hstore : StoreStep m.world o r w')
    (hK : ∀ write ∈ w'.journal, K write.inst) : HandsOut K (.op o r) := by
  cases hstore with
  | created _ | saved _ _ => exact ⟨rfl, hK _ (mem_append_right _ (mem_singleton.mpr rfl))⟩
  | same _ hjournal hreply =>
    cases o with
    | storeLoad id =>
      cases r with
      | ok inst =>
        obtain ⟨hid, write, hmem, rfl⟩ := hm.agrees.mem hreply
        exact ⟨hid, hK write (hjournal ▸ hmem)⟩
      | error _ => trivial
    | storeSave _ _ _ | storeCreate _ =>
      cases r with
      | ok _ => exact hreply.elim
      | error _ => trivial
    | _ => trivial

theorem handsOut (hm : m.Lineage cfg Φ) (hact : m.act (body cfg) a = some m') {p : Proc}
    {o : Op} {r : o.Res} (happ : m.Appends a p hist (.op o r)) : HandsOut (Journaled m'.world.journal) (.op o r) := by
  obtain ⟨input, hr⟩ := happ.handled hact
  exact hm.handsOut_step (World.handle_store hr) fun write hw => ⟨write, hw, rfl⟩

theorem verified_step (hm : m.Lineage cfg Φ) (hact : m.act (body cfg) a = some m')
    (hagents : ∀ p hist o r, m.Appends a p hist (.op o r) → AgentsMeet Φ (.op o r))
    (hK : ∀ write ∈ m'.world.journal, K write.inst) :
    m'.Verified (Commits.mon cfg Φ K) (fun _ => []) (Commits.outline cfg Φ K).fin := by
  have hbody : (Commits.mon cfg Φ K).Verifies (fun _ => []) (Commits.outline cfg Φ K).fin
      (Commits.outline cfg Φ K).pre (body cfg) := Commits.sound.verified (fun _ _ => trivial) fun _ hk => ⟨hk.budget, hk.inst⟩
  refine (hm.verified K fun write hw => hK write (journal_grows hact hw)).step hbody (fun p hp => ?_) hact
    fun p hist o r happ => ⟨hagents p hist o r happ, ?_⟩
  · cases p with
    | runDeterministicChain args => cases hp
    | _ => trivial
  · obtain ⟨input, hr⟩ := happ.handled hact
    exact hm.handsOut_step (World.handle_store hr) hK

theorem owes (hm : m.Lineage cfg Φ) {i : Nat} {p : Proc} {o : Op}
    {k : o.Res → Run p.Ret} {stack : Stack Sig p} (ht : m.threads[i]? = some ⟨p, hist, .op o k, stack⟩)
    {r : o.Res} (hagents : AgentsMeet Φ (.op o r)) (hout : HandsOut (Journaled m.world.journal) (.op o r)) :
    Committed cfg Φ (Journaled m.world.journal) hist (.op o r) := by
  have hthread := (hm.verified (Journaled m.world.journal) fun write hw => ⟨write, hw, rfl⟩).thread ht
  have hdemand := (hthread.code r ⟨hagents, hout⟩).1
  rwa [after_history] at hdemand

theorem agrees_step (hm : m.Lineage cfg Φ) (hact : m.act (body cfg) a = some m') : m'.world.Agrees := by
  have hsame {w' : World} (hinstances : w'.instances = m.world.instances)
      (hjournal : w'.journal = m.world.journal) : w'.Agrees := by
    have hfind (id : String) : w'.find id = m.world.find id := by rw [World.find, hinstances, World.find]
    refine ⟨fun id => by rw [hfind, hjournal, hm.agrees.find], fun entry hmem => ?_⟩
    rw [hfind]
    exact hm.agrees.entries entry (hinstances ▸ hmem)
  obtain ⟨hinstances, hjournal⟩ | ⟨_, _, hstore⟩ := store_step hact
  · exact hsame hinstances hjournal
  · generalize m'.world = w' at hstore ⊢
    cases hstore with
    | same hinstances hjournal _ => exact hsame hinstances hjournal
    | created _ | saved _ _ => exact hm.agrees.put _

theorem chained_step (hm : m.Lineage cfg Φ) (hact : m.act (body cfg) a = some m') :
    Chained cfg Φ m'.world.journal := by
  have hsame {w' : World} (hjournal : w'.journal = m.world.journal) : Chained cfg Φ w'.journal :=
    hjournal ▸ hm.chained
  cases Machine.act_cases hact with
  | outside hout =>
    obtain ⟨ms, rfl⟩ := World.outside_eq hout
    exact hm.chained
  | spawn _ | enter _ _ | leave _ _ | expire _ _ | restart => exact hm.chained
  | answer ht hr =>
    cases World.handle_store hr with
    | same _ hjournal _ => exact hsame hjournal
    | created hnew =>
      -- the creation owes the same whatever it is answered
      have hfresh := hm.owes ht (r := Except.error "") trivial trivial
      exact .created hm.chained (by rw [← hm.agrees.find, hnew]) hfresh
    | saved hfind hversion =>
      obtain ⟨⟨⟨base, hbase, hbaseEq⟩, hv, hlive⟩, hsaves⟩ := hm.owes ht (r := Except.error "") trivial trivial
      obtain ⟨hid, stored, hstored, rfl⟩ := hm.agrees.mem hfind
      refine .saved hm.chained ((hm.agrees.find _).symm.trans hfind) ?_ hlive hsaves
      rw [← hbaseEq]
      refine hm.chained.rebound hbase hstored ?_ ?_
      · rw [hbaseEq, hid, hsaves.sameRun.id]
      · rw [hbaseEq, ← hv, hversion]

theorem step (hm : m.Lineage cfg fun _ _ => True) (hact : m.act (body cfg) a = some m') : m'.Lineage cfg fun _ _ => True :=
  ⟨hm.chained_step hact, hm.agrees_step hact, fun _ => hm.verified_step hact fun _ _ _ _ _ => agentsMeet_any _⟩

end Gateway.Lineage

/-- In every run whose agents meet `Φ`, every save replaces the snapshot it was made from. -/
theorem Gateway.ReachableWith.lineage (hm : Gateway.ReachableWith cfg ok definitions m)
    (hok : ∀ {m a m'}, ok m a m' → ∀ p hist o r, m.Appends a p hist (.op o r) → AgentsMeet Φ (.op o r)) :
    m.Lineage cfg Φ :=
  Machine.Reaches.invariant hm (.boot definitions) fun hlineage hact hstep =>
    ⟨hlineage.chained_step hact, hlineage.agrees_step hact, fun _ => hlineage.verified_step hact (hok hstep)⟩

theorem lineage_of_reaches (hm : Gateway.ReachableWith cfg ok definitions m) : m.Lineage cfg fun _ _ => True :=
  hm.lineage fun _ _ _ _ _ _ => agentsMeet_any _

/-- In every run whose agents meet `Φ`, every dispatch and every commit is one of those the code makes. -/
theorem Gateway.ReachableWith.committed (hm : Gateway.ReachableWith cfg ok definitions m)
    (hok : ∀ {m a m'}, ok m a m' → ∀ p hist o r, m.Appends a p hist (.op o r) → AgentsMeet Φ (.op o r)) :
    ∀ t ∈ m.threads, ∀ x ∈ t.activations, ∀ before e after, x.2 = before ++ e :: after →
    Committed cfg Φ (Journaled m.world.journal) before e := by
  have hlineage := Gateway.ReachableWith.lineage (Φ := Φ) hm hok
  intro t ht x hx before e after hsplit
  have hverified := hlineage.verified (Journaled m.world.journal) fun write hw => ⟨write, hw, rfl⟩
  exact Monitor.met_history ((hverified t ht).activations_met hx) hsplit

theorem committed_of_reaches
    (hm : Gateway.ReachableWith cfg ok definitions m) : ∀ t ∈ m.threads, ∀ x ∈ t.activations, ∀ before e after,
    x.2 = before ++ e :: after → Committed cfg (fun _ _ => True) (Journaled m.world.journal) before e :=
  hm.committed fun _ _ _ _ _ _ => agentsMeet_any _

end Praxec
