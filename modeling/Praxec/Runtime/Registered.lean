import Praxec.Runtime.Creation
import Praxec.Runtime.Tally

namespace Praxec

open Json Effect Gateway Machine

variable {definitions : Fields}

def Registered (definitions : Fields) (definition : Value) : Prop :=
  ∃ id, definitions.lookup id = some definition

theorem Gateway.ReachableWith.definitions_eq (hm : ReachableWith cfg ok definitions m) :
    m.world.definitions = definitions := by
  refine Reaches.invariant (I := fun m : Gateway => m.world.definitions = definitions) hm rfl fun hm hact _ => ?_
  cases act_cases hact with
  | answer ht hr => exact (World.handle_logs hr).definitions.trans hm
  | outside hout =>
    obtain ⟨ms, rfl⟩ := World.outside_eq hout
    exact hm
  | _ => exact hm

theorem Gateway.ReachableWith.fetched (hm : ReachableWith cfg ok definitions m) : ∀ t ∈ m.threads,
    ∀ x ∈ t.activations, ∀ e ∈ x.2, ∀ id definition, e = .op (.definitionGet id) (.ok definition) →
      Registered definitions definition := by
  refine hm.from_reached.events (A := fun _ (e : Event Sig) => ∀ id definition, e = .op (.definitionGet id) (.ok definition) →
    Registered definitions definition) rfl (fun _ _ _ h => h) ?_
  rintro m a m' hact ⟨hreached, -, -⟩ p hist e happ id definition rfl
  obtain ⟨input, hr⟩ := happ.handled hact
  refine ⟨id, ?_⟩
  rw [← ReachableWith.definitions_eq hreached]
  cases input with
  | auto =>
    have hanswer := (Prod.mk.inj (Option.some.inj hr)).1
    split at hanswer
    · cases hanswer
      assumption
    · cases hanswer
  | fail e => cases hr
  | _ => cases hr

theorem Gateway.ReachableWith.registered (hm : ReachableWith cfg ok definitions m) :
    ∀ inst, Journaled m.world.journal inst → Registered definitions inst.definition := by
  refine hm.from_reached.invariant (I := fun m : Gateway => ∀ inst, Journaled m.world.journal inst →
    Registered definitions inst.definition) (fun _ ⟨_, hw, _⟩ => by cases hw) ?_
  rintro m m' a hinv hact ⟨hreached, -, hok⟩ inst ⟨write, hw, rfl⟩
  have hlineage := lineage_of_reaches hreached
  rcases hlineage.journal_step hact with ⟨hjournal, -⟩ | ⟨new, hjournal, hadded, -⟩
  · rw [hjournal] at hw
    exact hinv _ ⟨write, hw, rfl⟩
  rw [hjournal] at hw
  rcases List.mem_append.mp hw with hold | hlast
  · exact hinv _ ⟨write, hold, rfl⟩
  cases List.mem_singleton.mp hlast
  cases hadded with
  | created happ _ _ =>
    have hreached' := hreached.step hact hok
    obtain ⟨t, ht, hx⟩ := happ.mem hact
    obtain ⟨-, id, hmem⟩ := Reaches.footprint Creation.body_wp hreached' rfl ht hx
    exact ReachableWith.fetched hreached' t ht _ hx _ (List.mem_append_left _ hmem) id _ rfl
  | saved _ _ _ hbase _ _ hsaves => exact hsaves.sameRun.definition ▸ hinv _ hbase

theorem Gateway.ReachableWith.loaded (hm : ReachableWith cfg ok definitions m) : ∀ t ∈ m.threads,
    ∀ x ∈ t.activations, ∀ e ∈ x.2, ∀ id inst, e = .op (.storeLoad id) (.ok inst) → Journaled m.world.journal inst := by
  refine hm.from_reached.events (A := fun (m : Gateway) e => ∀ id inst, e = .op (.storeLoad id) (.ok inst) →
    Journaled m.world.journal inst) rfl ?_ ?_
  · rintro m a m' hact - e h id inst he
    obtain ⟨write, hw, hinst⟩ := h id inst he
    exact ⟨write, Lineage.journal_grows hact hw, hinst⟩
  · rintro m a m' hact ⟨hreached, -, -⟩ p hist e happ id inst rfl
    have hlineage := lineage_of_reaches hreached
    obtain ⟨-, write, hw, hinst⟩ := hlineage.agrees.mem (loaded_of_appends happ)
    exact ⟨write, Lineage.journal_grows hact hw, hinst⟩

theorem Gateway.ReachableWith.driven (hm : ReachableWith cfg ok definitions m) : ∀ t ∈ m.threads,
    ∀ x ∈ t.activations, ∀ args, x.1 = .runDeterministicChain args → Registered definitions args.definition := by
  refine Reaches.procs Creation.body_wp (R := fun _ (p : Proc) => ∀ args, p = .runDeterministicChain args →
    Registered definitions args.definition) hm.from_reached rfl ?_ ?_ ?_
  · intro m t q hreached ht hdriven hcallable args hq
    cases (callable_of_follows hcallable).2 args hq with
    | driven hp h => exact h ▸ hdriven _ hp
    | loaded hmem h =>
      exact h ▸ ReachableWith.registered hreached _
        (ReachableWith.loaded hreached t ht _ (.head _) _ hmem _ _ rfl)
    | fetched hmem => exact ReachableWith.fetched hreached t ht _ (.head _) _ hmem _ _ rfl
  · rintro m p m' hact - args rfl
    cases act_cases hact with
    | spawn hentry => cases hentry
  · exact fun _ _ h => h

theorem Gateway.ReachableWith.seen (hm : ReachableWith cfg ok definitions m) (ht : t ∈ m.threads)
    (hx : (p, before ++ after) ∈ t.activations)
    (h : Seen (p, before) definition) : Registered definitions definition := by
  cases h with
  | driven hp h => exact h ▸ ReachableWith.driven hm t ht _ hx _ hp
  | loaded hmem h =>
    exact h ▸ ReachableWith.registered hm _
      (ReachableWith.loaded hm t ht _ hx _ (List.mem_append_left _ hmem) _ _ rfl)
  | fetched hmem => exact ReachableWith.fetched hm t ht _ hx _ (List.mem_append_left _ hmem) _ _ rfl

theorem Gateway.ReachableWith.guards (hm : ReachableWith cfg ok definitions m)
    (ht : t ∈ m.threads) (hx : x ∈ t.activations) {guard arguments : Value}
    {inst : WorkflowInstance} {principal : Principal}
    (he : .op (.guardEvaluate guard inst arguments principal) r ∈ x.2) :
    ∃ definition, Registered definitions definition ∧ Guards definition guard := by
  obtain ⟨p, hist⟩ := x
  obtain ⟨before, after, rfl⟩ := List.append_of_mem he
  obtain ⟨definition, hseen, hguard⟩ := Reaches.footprint Creation.body_wp hm rfl ht hx
  exact ⟨definition, ReachableWith.seen hm ht hx hseen, hguard⟩

end Praxec
