import Mathlib.Data.Prod.Lex
import Mathlib.Data.String.Basic
import Mathlib.Order.WithBot
import Praxec.SortedMap

namespace Praxec.Deescalation

open SortedMap List Nat

structure StepObservation where
  affinity : String
  step : String
  taskCohort : Option String
  model : String
  effort : Option String
  passed : Bool

structure CohortStats where
  runs : ℕ
  passes : ℕ
deriving DecidableEq

structure ModelStats where
  affinity : String
  model : String
  effort : Option String
  runs : ℕ
  passes : ℕ
  cohorts : List (String × CohortStats)
  steps : List String
deriving DecidableEq

structure Acc where
  runs : ℕ := 0
  passes : ℕ := 0
  steps : List (String × Unit) := []
  cohorts : List (String × CohortStats) := []

def CohortStats.add (passed : Bool) (bucket : CohortStats) : CohortStats :=
  ⟨bucket.runs + 1, bucket.passes + passed.toNat⟩

def Acc.add (a : Acc) (o : StepObservation) : Acc where
  runs := a.runs + 1
  passes := if o.passed then a.passes + 1 else a.passes
  cohorts := match o.taskCohort with
    | some cohort => entry cohort ⟨0, 0⟩ (.add o.passed) a.cohorts
    | none => a.cohorts
  steps := entry o.step () id a.steps

-- A missing effort comes first in the order of the keys.
abbrev Key := String ×ₗ String ×ₗ WithBot String

def StepObservation.key (o : StepObservation) : Key := toLex (o.affinity, toLex (o.model, o.effort))

def rollUp (observations : List StepObservation) : List (Key × Acc) :=
  observations.foldl (fun map o => entry o.key {} (·.add o) map) []

def aggregate (observations : List StepObservation) : List ModelStats :=
  (rollUp observations).map fun (key, a) =>
    { affinity := (ofLex key).1, model := (ofLex (ofLex key).2).1, effort := (ofLex (ofLex key).2).2,
      runs := a.runs, passes := a.passes, cohorts := a.cohorts, steps := a.steps.map Prod.fst }

def comparableForLower (base candidate : ModelStats) (minRuns : ℕ) : Bool :=
  if base.cohorts.isEmpty || base.cohorts.map Prod.fst != candidate.cohorts.map Prod.fst
      || total CohortStats.runs base.cohorts != base.runs
      || total CohortStats.runs candidate.cohorts != candidate.runs then false
  else base.cohorts.all fun (key, b) => (candidate.cohorts.lookup key).any fun c =>
    minRuns ≤ b.runs && minRuns ≤ c.runs && b.runs * candidate.runs == c.runs * base.runs
      && b.passes * c.runs ≤ c.passes * b.runs

/-- What every bucket keeps: each cohort has a run, and the passes outside the cohorts are passes of
runs outside the cohorts. -/
structure Acc.Sound (a : Acc) : Prop where
  sorted : Sorted a.cohorts
  sampled : ∀ e ∈ a.cohorts, 0 < e.2.runs
  least : total CohortStats.passes a.cohorts ≤ a.passes
  most : a.passes + total CohortStats.runs a.cohorts ≤ a.runs + total CohortStats.passes a.cohorts

theorem Acc.Sound.empty : Acc.Sound {} where
  sorted := .nil
  sampled := forall_mem_nil _
  least := le_rfl
  most := le_rfl

theorem Acc.Sound.add {a : Acc} (h : a.Sound) (o : StepObservation) : (a.add o).Sound := by
  have hpasses : (a.add o).passes = a.passes + o.passed.toNat := by
    cases hp : o.passed <;> simp [Acc.add, hp]
  have hbound : o.passed.toNat ≤ 1 := Bool.toNat_le _
  obtain ⟨hs, hr, hleast, hmost⟩ := h
  cases hc : o.taskCohort with
  | none =>
    have hcohorts : (a.add o).cohorts = a.cohorts := by simp [Acc.add, hc]
    refine ⟨hcohorts ▸ hs, hcohorts ▸ hr, ?_, ?_⟩ <;> rw [hpasses, hcohorts]
    · omega
    · simp only [Acc.add]
      omega
  | some cohort =>
    have hcohorts : (a.add o).cohorts = entry cohort ⟨0, 0⟩ (.add o.passed) a.cohorts := by
      simp [Acc.add, hc]
    have hruns : total CohortStats.runs (a.add o).cohorts = total CohortStats.runs a.cohorts + 1 :=
      hcohorts ▸ total_entry 1 rfl fun _ => rfl
    have hsum : total CohortStats.passes (a.add o).cohorts
        = total CohortStats.passes a.cohorts + o.passed.toNat :=
      hcohorts ▸ total_entry _ rfl fun _ => rfl
    refine ⟨hcohorts ▸ hs.entry, ?_, ?_, ?_⟩
    · rw [hcohorts]
      exact forall_entry (succ_pos _) (fun _ _ => succ_pos _) hr
    · omega
    · have hadd : (a.add o).runs = a.runs + 1 := rfl
      omega

theorem sound_of_mem_rollUp :
    ∀ e ∈ rollUp observations, e.2.Sound := by
  have hfold : ∀ map : List (Key × Acc), (∀ e ∈ map, e.2.Sound) →
      ∀ e ∈ observations.foldl (fun map o => entry o.key {} (·.add o) map) map, e.2.Sound := by
    induction observations with
    | nil => exact fun _ h => h
    | cons o observations ih =>
      intro map h
      exact ih _ (forall_entry (Acc.Sound.empty.add o) (fun _ ha => ha.add o) h)
  exact hfold [] (forall_mem_nil _)

theorem exists_acc_of_mem_aggregate {stats : ModelStats} (h : stats ∈ aggregate observations) :
    ∃ a : Acc, a.Sound ∧ a.runs = stats.runs ∧ a.passes = stats.passes ∧ a.cohorts = stats.cohorts := by
  obtain ⟨e, he, rfl⟩ := mem_map.mp h
  exact ⟨e.2, sound_of_mem_rollUp e he, rfl, rfl, rfl⟩

/-- The weighted sum: with the same mix of cohorts, rates that compare in each cohort compare in total. -/
theorem total_passes_mul_le {b c : List (String × CohortStats)} (h : b.Forall₂ (fun x y =>
    0 < x.2.runs ∧ x.2.runs * C = y.2.runs * B ∧ x.2.passes * y.2.runs ≤ y.2.passes * x.2.runs) c) :
    total CohortStats.passes b * C ≤ total CohortStats.passes c * B := by
  induction h with
  | nil => simp [total]
  | @cons x y _ _ hxy _ ih =>
    obtain ⟨hpos, hmix, hrate⟩ := hxy
    have hhead : x.2.passes * C ≤ y.2.passes * B := by
      refine Nat.le_of_mul_le_mul_right ?_ hpos
      calc x.2.passes * C * x.2.runs = x.2.passes * y.2.runs * B := by
            rw [mul_assoc, mul_comm C, hmix, mul_assoc]
        _ ≤ y.2.passes * x.2.runs * B := Nat.mul_le_mul_right B hrate
        _ = y.2.passes * B * x.2.runs := mul_right_comm _ _ _
    simp only [total, List.map_cons, List.sum_cons, Nat.add_mul] at ih ⊢
    exact Nat.add_le_add hhead ih

/-- A candidate accepted cohort by cohort has no lower overall pass rate than the base. -/
theorem pass_rate_le_of_comparableForLower {base candidate : ModelStats} {minRuns : ℕ}
    (hbase : base ∈ aggregate observations) (hcandidate : candidate ∈ aggregate trials)
    (h : comparableForLower base candidate minRuns) :
    base.passes * candidate.runs ≤ candidate.passes * base.runs := by
  obtain ⟨b, hb, hbruns, hbpasses, hbcohorts⟩ := exists_acc_of_mem_aggregate hbase
  obtain ⟨c, hc, -, hcpasses, hccohorts⟩ := exists_acc_of_mem_aggregate hcandidate
  rw [comparableForLower] at h
  split_ifs at h with hguard
  have hkeys : base.cohorts.map Prod.fst = candidate.cohorts.map Prod.fst := by simp_all
  have hruns : total CohortStats.runs base.cohorts = base.runs := by simp_all
  have hpairs := forall₂_of_lookup (hbcohorts ▸ hb.sorted) hkeys (R := fun x y => 0 < x.runs ∧
    x.runs * candidate.runs = y.runs * base.runs ∧ x.passes * y.runs ≤ y.passes * x.runs) fun e he => by
      obtain ⟨c, hc, htest⟩ := Option.any_eq_true _ _ |>.mp (all_eq_true.mp h e he)
      simp only [Bool.and_eq_true, decide_eq_true_eq, beq_iff_eq] at htest
      exact ⟨c, hc, hb.sampled e (hbcohorts ▸ he), htest.1.2, htest.2⟩
  have hmost := hb.most
  have hleast := hc.least
  rw [hbcohorts] at hmost
  rw [hccohorts] at hleast
  calc base.passes * candidate.runs
      ≤ total CohortStats.passes base.cohorts * candidate.runs := mul_le_mul_right _ (by omega)
    _ ≤ total CohortStats.passes candidate.cohorts * base.runs := total_passes_mul_le hpairs
    _ ≤ candidate.passes * base.runs := mul_le_mul_right _ (by omega)

def fixStep (model : String) (passed : Bool) : StepObservation where
  affinity := "coding"
  step := "fix"
  taskCohort := "fix bug"
  model := model
  effort := none
  passed := passed

theorem pass_rate_le_fixStep : ∃ base ∈ aggregate [fixStep "large" true, fixStep "large" false],
    ∃ candidate ∈ aggregate [fixStep "small" true], comparableForLower base candidate 1 ∧
      base.passes * candidate.runs ≤ candidate.passes * base.runs := by
  have hbase := mem_of_head? (l := aggregate [fixStep "large" true, fixStep "large" false]) rfl
  have hcandidate := mem_of_head? (l := aggregate [fixStep "small" true]) rfl
  refine ⟨_, hbase, _, hcandidate, ?comparable, pass_rate_le_of_comparableForLower hbase hcandidate ?comparable⟩
  decide +kernel

end Praxec.Deescalation
