import Praxec.Hitl
import Praxec.Runtime.Tally

namespace Praxec

open Json Effect Prog Monitor List Gateway

variable {cfg : RuntimeConfig} {definitions : Fields}

structure BelowBudgets (cfg : RuntimeConfig) (inst : WorkflowInstance) : Prop where
  hops : (u64Field inst.context chainHopsTotalKey).getD 0 < livelockBudgetOf inst.definition
  wall : 0 < missionDeadlineSecsFor cfg inst.definition →
    (u64Field inst.context chainWallMsTotalKey).getD 0 < saturate (missionDeadlineSecsFor cfg inst.definition * 1000)

variable {inst next : WorkflowInstance}

theorem reapReason_eq_none_iff (hbudgets : BelowBudgets cfg inst) :
    reapReason cfg inst = none ↔ inst.cancelledAt.isSome ∨ isTerminal inst.definition inst.state ∨
      awaitingHuman inst.definition inst.state ∨ engineWait inst.context := by
  have hhops := Nat.not_le.mpr hbudgets.hops
  have hwall : ¬ (0 < missionDeadlineSecsFor cfg inst.definition ∧
      saturate (missionDeadlineSecsFor cfg inst.definition * 1000) ≤ (u64Field inst.context chainWallMsTotalKey).getD 0) :=
    fun h => absurd h.2 (Nat.not_le.mpr (hbudgets.wall h.1))
  unfold reapReason
  dsimp only
  split
  · simp_all
  · split
    · simp_all
    · split <;> simp_all

def Listed (all : List WorkflowInstance) (h : History) : Prop :=
  h.head? = some (.op .storeListAll (.ok all))

variable {all : List WorkflowInstance}

theorem Listed.append (hh : Listed all h) (rest : History) : Listed all (h ++ rest) := by
  cases h with
  | nil => cases hh
  | cons _ _ => exact hh

def Reaped (cfg : RuntimeConfig) (id : String) (h : History) : Prop :=
  ∃ all inst, Listed all h ∧ inst ∈ all ∧ inst.id = id ∧ (reapReason cfg inst).isSome

theorem Reaped.append {id : String} (hh : Reaped cfg id h) (rest : History) : Reaped cfg id (h ++ rest) := by
  obtain ⟨all, inst, hlisted, hreaped⟩ := hh
  exact ⟨all, inst, hlisted.append rest, hreaped⟩

theorem Reaped.stable (id : String) : Stable (Reaped cfg id) :=
  fun _ e hh => hh.append [e]

def SavesReaped (cfg : RuntimeConfig) (h : History) : Event Sig → Prop
  | .op (.storeSave _ next _) _ => Reaped cfg next.id h
  | _ => True

def LoadsAsked (e : Event Sig) : Prop :=
  ∀ id inst, e = .op (.storeLoad id) (.ok inst) → inst.id = id

abbrev reaping (cfg : RuntimeConfig) : Monitor Sig History :=
  .history LoadsAsked (SavesReaped cfg)

section

theorem reaping_calm (hP : Stable P) (e : Event Sig) (he : Calm e) : (reaping cfg).Keeps P e := by
  refine hP.keeps fun _ _ _ => ?_
  cases e with
  | op o r =>
    cases o with
    | storeSave _ _ _ => cases he
    | _ => trivial
  | _ => trivial

theorem cancel_reaps {id reason : String} : (reaping cfg).Triple (Reaped cfg id) (cancel cfg id reason)
    (fun _ => Reaped cfg id) fun _ => Reaped cfg id := by
  have hcalm {ε α : Type} {x : ExceptT ε Run α} (hx : UsesE Calm x) :
      (reaping cfg).Triple (Reaped cfg id) x (fun _ => Reaped cfg id) fun _ => Reaped cfg id :=
    .of_uses (hx.mono (reaping_calm (Reaped.stable id))) fun _ _ => fun hh => hh
  have hload : (reaping cfg).Triple (Reaped cfg id) (load id) (fun inst h => inst.id = id ∧ Reaped cfg id h)
      fun _ => Reaped cfg id := by
    refine Returns.perform fun h r hh ha => ⟨trivial, ?_⟩
    cases r with
    | ok inst => exact ⟨ha id inst rfl, Reaped.stable id h _ hh⟩
    | error _ => exact Reaped.stable id h _ hh
  refine hload.bind fun inst => .assume fun hid => ?_
  split
  · exact .pure fun _ hh => hh
  refine (hcalm (calm_of_quiet (UsesE.lift now_uses))).bind fun time => Triple.bind (Q := fun _ => Reaped cfg id) ?_ fun saved =>
    (hcalm (calm_of_quiet (UsesE.lift recordOrSelfEvent_uses))).bind fun _ =>
    (hcalm (.lift releaseRunLeases_uses)).bind fun _ => hcalm (.lift resumeParentIfAny_uses)
  refine Returns.perform fun h r hh _ => ⟨show Reaped cfg inst.id h from hid ▸ hh, ?_⟩
  cases r <;> exact Reaped.stable id h _ hh

theorem reapRuns_reaps (hsub : ∀ inst ∈ insts, inst ∈ all) {reaped : Nat} :
    (reaping cfg).Triple (Listed all) (reapRuns cfg insts reaped) (fun _ _ => True) fun _ _ => True := by
  induction insts generalizing reaped with
  | nil => exact .pure fun _ _ => trivial
  | cons inst rest ih =>
    have hrest (n : Nat) := @ih (fun inst hmem => hsub inst (.tail _ hmem)) n
    unfold reapRuns
    split
    · exact hrest _
    · rename_i reason hreason
      have hlisted : Stable (Listed all) := fun _ e hh => hh.append [e]
      have hcancel := (Triple.frame (m := reaping cfg) hlisted (@cancel_reaps cfg inst.id reason)).conseq
        (fun h hh => ⟨hh, all, inst, hh, hsub inst (.head _), rfl, by rw [hreason]; rfl⟩) (fun _ _ hh => hh.1)
        fun _ _ _ => trivial
      exact hcancel.bind fun _ => hrest _

theorem reapOrphanedRuns_reaps : (reaping cfg).wp (body cfg .reapOrphanedRuns) (fun _ _ => True) [] := by
  have htriple : (reaping cfg).Triple (fun h => h = []) (reapOrphanedRuns cfg) (fun _ _ => True) fun _ _ => True := by
    refine Triple.bind (Q := fun all h => Listed all h) ?_ fun all => reapRuns_reaps fun _ hmem => hmem
    refine Returns.perform fun h r hh _ => ⟨trivial, ?_⟩
    subst hh
    cases r with
    | ok all => rfl
    | error _ => trivial
  exact wp_mono (fun _ _ _ => trivial) (htriple [] rfl)

end

def ListsOnce (e : Event Sig) : Prop :=
  ∀ all, e = .op .storeListAll (.ok all) → ∀ inst ∈ all, ∀ other ∈ all, inst.id = other.id → inst = other

theorem all_of_appends {m : Gateway} {a : GatewayAction} {p : Proc} {hist : History}
    (happ : m.Appends a p hist (.op .storeListAll (.ok all))) : all = m.world.instances.map Prod.snd := by
  cases happ with
  | answer ht hr =>
    rename_i input _ _ _
    cases input with
    | auto => cases hr; rfl
    | _ => cases hr
  | leave ht hl => cases hl

theorem World.Agrees.find_of_mem {w : World} (hw : w.Agrees)
    (hinst : inst ∈ w.instances.map Prod.snd) : w.find inst.id = some inst := by
  obtain ⟨entry, hentry, rfl⟩ := mem_map.mp hinst
  have hfind := hw.entries entry hentry
  rwa [(hw.mem hfind).1]

variable {t : Thread Sig}

section

variable {m : Gateway} (hm : Reachable cfg definitions m)

include hm

theorem Gateway.Reachable.listed_once (ht : t ∈ m.threads) {x : Proc × History}
    (hx : x ∈ t.activations) (hlisted : Listed all x.2) :
    ∀ inst ∈ all, ∀ other ∈ all, inst.id = other.id → inst = other := by
  refine hm.from_reached.events (A := fun _ e => ListsOnce e) rfl (fun _ _ _ => id) (fun _ hok p hist e happ all he => ?_)
    t ht x hx _ (mem_of_head? hlisted) all rfl
  subst he
  have hagrees := (lineage_of_reaches hok.1).agrees
  rw [all_of_appends happ]
  intro inst hinst other hother hid
  have hfirst := hagrees.find_of_mem hinst
  rw [hid] at hfirst
  exact Option.some.inj (hfirst.symm.trans (hagrees.find_of_mem hother))

theorem Gateway.Reachable.reaps (ht : t ∈ m.threads) (hx : (Proc.reapOrphanedRuns, hist) ∈ t.activations)
    (he : .op (.storeSave kind next v) r ∈ hist) : Reaped cfg next.id hist := by
  obtain ⟨before, after, rfl⟩ := append_of_mem he
  have hreaped := hm.from_reached.activation (A := LoadsAsked) (D := SavesReaped cfg)
    (fun ⟨hreached, _, _⟩ _ _ _ _ happ id inst heq => by
      have hlineage := lineage_of_reaches hreached
      exact (hlineage.agrees.mem (loaded_of_appends (heq ▸ happ))).1)
    (fun _ _ _ _ heq => by cases heq) (fun _ _ _ _ heq => by cases heq) rfl (p := Proc.reapOrphanedRuns)
    reapOrphanedRuns_reaps ht hx rfl
  exact Reaped.append hreaped _

end

instance (inst : WorkflowInstance) : Decidable (BelowBudgets cfg inst) :=
  decidable_of_iff (_ ∧ (_ → _)) ⟨fun h => ⟨h.1, h.2⟩, fun h => ⟨h.hops, h.wall⟩⟩

def approvalDefinition (fields : Fields) : Value :=
  definitionOf "a" [("a", .object (fields ++ [("transitions", .object [("go", transitionOf "b" "human" [])])])),
    ("b", terminalState)]

def reapScript (n : Nat) : List GatewayAction :=
  launch 0 "d" "1" ++ .restart :: .spawn .reapOrphanedRuns :: answers 0 n

def listing : Event Sig → Option (List WorkflowInstance)
  | .op .storeListAll (.ok all) => some all
  | _ => none

def gatesListed (cfg : RuntimeConfig) (t : Thread Sig) : List WorkflowInstance :=
  if t.proc = .reapOrphanedRuns then
    ((t.hist.head?.bind listing).getD []).filter fun inst => (pendingGate inst).isSome && decide (BelowBudgets cfg inst)
  else []

theorem of_mem_gatesListed (h : inst ∈ gatesListed cfg t) :
    (Proc.reapOrphanedRuns, t.hist) ∈ t.activations ∧ ∃ all gate, Listed all t.hist ∧ inst ∈ all ∧
      pendingGate inst = some gate ∧ BelowBudgets cfg inst := by
  unfold gatesListed at h
  split at h
  · rename_i hproc
    obtain ⟨hmem, hgate⟩ := mem_filter.mp h
    rw [Bool.and_eq_true, decide_eq_true_iff] at hgate
    obtain ⟨gate, hpending⟩ := Option.isSome_iff_exists.mp hgate.1
    refine ⟨by rw [← hproc]; exact .head _, ?_⟩
    cases hlisting : t.hist.head?.bind listing with
    | none =>
      rw [hlisting] at hmem
      cases hmem
    | some all =>
      rw [hlisting] at hmem
      obtain ⟨e, he, hall⟩ := Option.bind_eq_some_iff.mp hlisting
      unfold listing at hall
      split at hall
      · cases hall
        exact ⟨_, gate, he, hmem, hpending, hgate.2⟩
      · cases hall
  · cases h

end Praxec
