import Praxec.Runtime.Recording

namespace Praxec

open Json Effect Gateway

variable {cfg : RuntimeConfig}

def tally (add : σ → StoreWrite → σ) (zero : σ) (id : String) (journal : List StoreWrite) : σ :=
  journal.foldl (fun sum write => if write.inst.id = id then add sum write else sum) zero

theorem tally_snoc (add : σ → StoreWrite → σ) (zero : σ) (id : String) (journal : List StoreWrite)
    (write : StoreWrite) : tally add zero id (journal ++ [write]) =
      if write.inst.id = id then add (tally add zero id journal) write else tally add zero id journal := by
  simp [tally]

theorem tally_of_unwritten (add : σ → StoreWrite → σ) (zero : σ) {id : String} {journal : List StoreWrite}
    (hnone : current id journal = none) : tally add zero id journal = zero := by
  induction journal using List.reverseRecOn with
  | nil => rfl
  | append_singleton journal write ih =>
    rw [current_snoc] at hnone
    split at hnone
    · cases hnone
    · rename_i hid
      rw [tally_snoc, if_neg hid]
      exact ih hnone

variable {m : Gateway} {a : GatewayAction}

theorem Gateway.Lineage.journal_prefix (hm : m.Lineage cfg fun _ _ => True)
    (hact : m.act (body cfg) a = some m') : m.world.journal <+: m'.world.journal := by
  rcases hm.journal_step hact with ⟨hjournal, -⟩ | ⟨write, hjournal, -⟩
  · exact ⟨[], (List.append_nil _).trans hjournal.symm⟩
  · exact ⟨[write], hjournal.symm⟩

theorem loaded_of_appends {hist : History} {id : String}
    {inst : WorkflowInstance} (happ : m.Appends a p hist (.op (.storeLoad id) (.ok inst))) :
    m.world.find id = some inst := by
  cases happ with
  | answer ht hr =>
    cases World.handle_store hr with
    | same _ _ hreply => exact hreply
  | leave ht hl => cases hl

theorem saved_of_appends (hact : m.act (body cfg) a = some m')
    (happ : m.Appends a p hist (.op (.storeSave kind next v) (.ok saved))) : saved = next := by
  obtain ⟨input, hr⟩ := happ.handled hact
  generalize m'.world = w' at hr
  cases World.handle_store hr with
  | same _ _ hreply => exact hreply.elim
  | saved _ _ => rfl

theorem Gateway.ReachableWith.added (hm : ReachableWith cfg ok definitions m)
    (hsplit : m.world.journal = before ++ write :: after) :
    ∃ m₀ a m₁, ReachableWith cfg ok definitions m₀ ∧ m₀.act (body cfg) a = some m₁ ∧ ok m₀ a m₁ ∧
    m₀.world.journal = before ∧ Added cfg (fun _ _ => True) m₀ a write := by
  induction hm generalizing after with
  | refl => cases before <;> cases hsplit
  | step hreached hact hok ih =>
    have hlineage := lineage_of_reaches hreached
    rcases hlineage.journal_step hact with ⟨hjournal, -⟩ | ⟨last, hjournal, hadded, -⟩
    · exact ih (hjournal ▸ hsplit)
    · rw [hjournal] at hsplit
      rcases split_snoc hsplit with ⟨rest, hearlier⟩ | ⟨rfl, rfl⟩
      · exact ih hearlier
      · exact ⟨_, _, _, hreached, hact, hok, rfl, hadded⟩

/-- Every stored snapshot stands in `R` to what the writes under its id add up to, and every write in `P`
to what those before it did. -/
structure Tallied (cfg : RuntimeConfig) (add : σ → StoreWrite → σ) (zero : σ) (R : WorkflowInstance → σ → Prop)
    (P : σ → StoreWrite → Prop) (m : Gateway) : Prop where
  lineage : m.Lineage cfg fun _ _ => True
  stored : ∀ id inst, m.world.find id = some inst → R inst (tally add zero id m.world.journal)
  written : ∀ before write after, m.world.journal = before ++ write :: after →
    P (tally add zero write.inst.id before) write

section

variable {add : σ → StoreWrite → σ} {zero : σ} {R : WorkflowInstance → σ → Prop} {P : σ → StoreWrite → Prop}
  {m m' : Gateway} {a : GatewayAction}

theorem Tallied.step (hm : Tallied cfg add zero R P m) (hact : m.act (body cfg) a = some m')
    (hnew : ∀ write, Added cfg (fun _ _ => True) m a write →
      R write.inst (add (tally add zero write.inst.id m.world.journal) write) ∧
        P (tally add zero write.inst.id m.world.journal) write) : Tallied cfg add zero R P m' := by
  have hlineage := hm.lineage.step hact
  rcases hm.lineage.journal_step hact with ⟨hjournal, hinstances⟩ | ⟨write, hjournal, hadded, hfind⟩
  · have hsame (id : String) : m'.world.find id = m.world.find id := by rw [World.find, hinstances, World.find]
    refine ⟨hlineage, ?_, ?_⟩ <;> simp only [hjournal, hsame]
    exacts [hm.stored, hm.written]
  · obtain ⟨hR, hP⟩ := hnew write hadded
    refine ⟨hlineage, fun id inst hinst => ?_, fun before earlier after hsplit => ?_⟩
    · rw [hfind] at hinst
      rw [hjournal, tally_snoc]
      split at hinst
      · rename_i hid
        cases hinst
        rw [if_pos hid, ← hid]
        exact hR
      · rename_i hid
        rw [if_neg hid]
        exact hm.stored id inst hinst
    · rw [hjournal] at hsplit
      rcases split_snoc hsplit with ⟨rest, hold⟩ | ⟨rfl, rfl⟩
      · exact hm.written before earlier rest hold
      · exact hP

theorem Tallied.journaled (hm : Tallied cfg add zero R P m)
    (hinst : Journaled m.world.journal inst) : ∃ sum write, write.inst = inst ∧ P sum write := by
  obtain ⟨write, hw, rfl⟩ := hinst
  obtain ⟨before, after, hsplit⟩ := List.append_of_mem hw
  exact ⟨_, write, rfl, hm.written before write after hsplit⟩

end

def LoadsTallied (add : σ → StoreWrite → σ) (zero : σ) (R : WorkflowInstance → σ → Prop) (m : Gateway) (e : Event Sig) :
    Prop :=
  ∀ id inst, e = .op (.storeLoad id) (.ok inst) → ∃ journal, journal <+: m.world.journal ∧
    current id journal = some inst ∧ R inst (tally add zero id journal)

section

variable {add : σ → StoreWrite → σ} {zero : σ} {R : WorkflowInstance → σ → Prop} {P : σ → StoreWrite → Prop}
  {m : Gateway} (hm : ReachableWith cfg ok definitions m) (hnew : ∀
  {m a m' write}, Tallied cfg add zero R P m → ok m a m' → Added cfg (fun _ _ => True) m a write → R write.inst (add
  (tally add zero write.inst.id m.world.journal) write) ∧ P (tally add zero write.inst.id m.world.journal) write)

include hm hnew

theorem Gateway.ReachableWith.tallied : Tallied cfg add zero R P m :=
  hm.invariant ⟨.boot definitions, fun _ _ hfind => (by cases hfind), fun before _ _ hsplit => (by cases before <;> cases hsplit)⟩
    fun ht hact hok => ht.step hact fun _ hadded => hnew ht hok hadded

theorem Gateway.ReachableWith.loads : ∀ t ∈ m.threads, ∀ x ∈ t.activations, ∀ e ∈ x.2, LoadsTallied add zero R m e := by
  refine hm.from_reached.events (A := LoadsTallied add zero R) rfl (fun hact hok e hold id inst he => ?_)
    fun hact hok p hist e happ id inst he => ?_
  · obtain ⟨journal, hpre, hrest⟩ := hold id inst he
    exact ⟨journal, hpre.trans ((ReachableWith.tallied hok.1 hnew).lineage.journal_prefix hact), hrest⟩
  · subst he
    have hbefore := ReachableWith.tallied hok.1 hnew
    have hfind := loaded_of_appends happ
    exact ⟨_, hbefore.lineage.journal_prefix hact, (hbefore.lineage.agrees.find id).symm.trans hfind,
      hbefore.stored id inst hfind⟩

end

end Praxec
