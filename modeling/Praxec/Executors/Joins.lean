import Mathlib.Algebra.Order.Floor.Div
import Mathlib.Data.List.Perm.Basic
import Mathlib.GroupTheory.GroupAction.Ring
import Praxec.Executors.Parallel

namespace Praxec

open Json List Option Nat

abbrev BranchEnd := Option Execution

def BranchEnd.isOk : BranchEnd → Bool
  | some (.ok _) => true
  | _ => false

/-- What `drive_joinset` has gathered, and whether it has aborted the branches that are left. -/
structure JoinState where
  gathered : Gathered
  ended : Bool

namespace JoinState

variable (join : JoinCondition) (onFailure : OnBranchFailure) (n : Nat)

def start : JoinState :=
  ⟨.empty n, false⟩

def receive (s : JoinState) (a : Joined) : JoinState :=
  if s.ended then ⟨s.gathered.drain [a], true⟩
  else match a with
    | none => ⟨{ s.gathered with failedCount := s.gathered.failedCount + 1 }, false⟩
    | some (index, result) =>
        ⟨s.gathered.take index result, endsJoin join onFailure n (s.gathered.take index result) result⟩

def run (s : JoinState) (arrivals : List Joined) : JoinState :=
  arrivals.foldl (receive join onFailure n) s

theorem run_ended (g : Gathered) (arrivals : List Joined) :
    run join onFailure n ⟨g, true⟩ arrivals = ⟨g.drain arrivals, true⟩ := by
  induction arrivals generalizing g with
  | nil => rfl
  | cons a rest ih =>
    cases a with
    | none => exact ih g
    | some pair => exact ih _

/-- The two loops of `drive_joinset` are one run of the join. -/
theorem gather_eq_run (g : Gathered) (arrivals : List Joined) :
    gather join onFailure n g arrivals = (run join onFailure n ⟨g, false⟩ arrivals).gathered := by
  induction arrivals generalizing g with
  | nil => rfl
  | cons a rest ih =>
    cases a with
    | none => exact ih _
    | some pair =>
      obtain ⟨index, result⟩ := pair
      have hstep : run join onFailure n ⟨g, false⟩ (some (index, result) :: rest) =
          run join onFailure n ⟨g.take index result, endsJoin join onFailure n (g.take index result) result⟩ rest := rfl
      rw [gather, hstep]
      cases endsJoin join onFailure n (g.take index result) result with
      | true => rw [run_ended]; rfl
      | false => exact ih _

/-- The branches end in the given order. Before the join ends each comes back as it ends; then one that was aborted may
still come back so, or without a result. -/
inductive Schedule (ends : Nat → BranchEnd) : JoinState → List Nat → List Joined → Prop
  | done {s : JoinState} : Schedule ends s [] []
  | arrive {s : JoinState} {i : Nat} {order : List Nat} {arrivals : List Joined}
      (h : Schedule ends (receive join onFailure n s ((ends i).map (i, ·))) order arrivals) :
      Schedule ends s (i :: order) ((ends i).map (i, ·) :: arrivals)
  | abort {s : JoinState} {i : Nat} {order : List Nat} {arrivals : List Joined} (hended : s.ended = true)
      (h : Schedule ends s order arrivals) : Schedule ends s (i :: order) (none :: arrivals)

variable {join onFailure n} {ends : Nat → BranchEnd} {s : JoinState} {order : List Nat} {arrivals : List Joined}

theorem receive_none_of_ended (h : s.ended) : receive join onFailure n s none = s := by
  obtain ⟨g, ended⟩ := s
  cases h
  rfl

theorem Schedule.length_eq (h : Schedule join onFailure n ends s order arrivals) : arrivals.length = order.length := by
  induction h with
  | done => rfl
  | arrive _ ih | abort _ _ ih => rw [length_cons, length_cons, ih]

theorem Schedule.of_mem (h : Schedule join onFailure n ends s order arrivals) (hmem : some (i, result) ∈ arrivals) :
    i ∈ order ∧ ends i = some result := by
  induction h with
  | done => cases hmem
  | @arrive s j order arrivals _ ih =>
    rcases mem_cons.mp hmem with heq | hmem
    · obtain ⟨result', hends, hpair⟩ := map_eq_some_iff.mp heq.symm
      cases hpair
      exact ⟨.head _, hends⟩
    · exact ⟨.tail _ (ih hmem).1, (ih hmem).2⟩
  | abort _ _ ih =>
    rcases mem_cons.mp hmem with heq | hmem
    · cases heq
    · exact ⟨.tail _ (ih hmem).1, (ih hmem).2⟩

theorem Schedule.endOnce (h : Schedule join onFailure n ends s order arrivals) (hnodup : order.Nodup) : EndOnce arrivals := by
  induction h with
  | done => exact .nil
  | @arrive s i order arrivals h ih =>
    obtain ⟨hfresh, hnodup⟩ := nodup_cons.mp hnodup
    cases hends : ends i with
    | none => exact ih hnodup
    | some result =>
      refine nodup_cons.mpr ⟨fun hmem => ?_, ih hnodup⟩
      obtain ⟨a, ha, hindex⟩ := mem_filterMap.mp hmem
      obtain ⟨⟨j, result'⟩, rfl, rfl⟩ := map_eq_some_iff.mp hindex
      exact hfresh (h.of_mem ha).1
  | abort _ _ ih => exact ih (nodup_cons.mp hnodup).2

end JoinState

namespace JoinCondition

def Met (n ok : Nat) : JoinCondition → Prop
  | all => ok = n
  | any => 1 ≤ ok
  | atLeast k => k ≤ ok
  | percent p => (p * n) ⌈/⌉ 100 ≤ ok
  | aggregator _ => False

variable {join : JoinCondition} {n ok failed total : Nat}

theorem percentThreshold_eq : percentThreshold p n = (p * n) ⌈/⌉ 100 := by
  rfl

theorem met_of_reached (hok : 1 ≤ ok) (h : join.reached n ok) : join.Met n ok := by
  cases join with
  | all | aggregator _ => cases h
  | any => exact hok
  | atLeast k =>
    have hle : k ≤ ok := of_decide_eq_true h
    exact hle
  | percent p =>
    have hle : percentThreshold p n ≤ ok := of_decide_eq_true h
    exact hle

theorem not_met_of_lost (h : join.lost n ok failed) (htotal : total ≤ ok + (n - ok - failed)) :
    ¬ join.Met n total := by
  cases join with
  | all | any | aggregator _ => cases h
  | atLeast k =>
    have hlt : ok + (n - ok - failed) < k := of_decide_eq_true h
    unfold Met
    omega
  | percent p =>
    have hlt : ok + (n - ok - failed) < percentThreshold p n := of_decide_eq_true h
    rw [Met, ← percentThreshold_eq]
    omega

theorem Met.mono (hall : join ≠ .all) (h : join.Met n ok) (hle : ok ≤ ok') : join.Met n ok' := by
  cases join with
  | all => exact absurd rfl hall
  | any | atLeast k | percent p => exact le_trans h hle
  | aggregator _ => exact h

end JoinCondition

section

open JoinState

variable {join : JoinCondition} {n total : Nat} {ends : Nat → BranchEnd} {s : JoinState} {done order : List Nat} {arrivals rest : List Joined}

theorem Gathered.take_counts (g : Gathered) (i : Nat) (result : Execution) :
    (g.take i result).okCount = g.okCount + (if BranchEnd.isOk (some result) then 1 else 0) ∧
      (g.take i result).failedCount = g.failedCount + (if BranchEnd.isOk (some result) then 0 else 1) := by
  cases result <;> exact ⟨rfl, rfl⟩

/-- What a join that goes on after a failure knows of its branches. `total` of all of them end well; once the join has
ended early, it is met already or it cannot be met any more. -/
structure JoinTally (join : JoinCondition) (n : Nat) (ends : Nat → BranchEnd) (total : Nat) (done : List Nat) (s : JoinState) : Prop where
  ok_le : s.gathered.okCount ≤ done.countP fun i => (ends i).isOk
  sum_le : s.gathered.okCount + s.gathered.failedCount ≤ done.length
  ok_eq : s.ended = false → s.gathered.okCount = done.countP fun i => (ends i).isOk
  sum_eq : s.ended = false → s.gathered.okCount + s.gathered.failedCount = done.length
  decided : s.ended = true → join ≠ .all ∧ (join.Met n s.gathered.okCount ∨ ¬ join.Met n total)

theorem JoinTally.aborted (h : JoinTally join n ends total done s) (hended : s.ended) (i : Nat) :
    JoinTally join n ends total (done ++ [i]) s := by
  have hle := h.ok_le
  have hsum := h.sum_le
  refine ⟨?_, ?_, fun hopen => ?_, fun hopen => ?_, h.decided⟩
  · rw [countP_append]
    omega
  · rw [length_append]
    omega
  · cases hended.symm.trans hopen
  · cases hended.symm.trans hopen

theorem drain_one (g : Gathered) (a : Joined) : g.drain [a] = g ∨ ∃ i result, a = some (i, result) ∧ g.drain [a] = g.take i result := by
  cases a with
  | none => exact .inl rfl
  | some pair =>
    obtain ⟨i, result⟩ := pair
    by_cases hfree : (g.branchResults[i]?).join = none
    · exact .inr ⟨i, result, rfl, if_pos hfree⟩
    · exact .inl (if_neg hfree)

theorem JoinTally.drained (h : JoinTally join n ends total done s) (hended : s.ended) (i : Nat) :
    JoinTally join n ends total (done ++ [i]) ⟨s.gathered.drain [(ends i).map (i, ·)], true⟩ := by
  have hstill := h.aborted hended i
  obtain ⟨hall, hdecided⟩ := h.decided hended
  rcases drain_one s.gathered ((ends i).map (i, ·)) with hsame | ⟨j, result, ha, htake⟩
  · rw [hsame]
    exact ⟨hstill.ok_le, hstill.sum_le, nofun, nofun, fun _ => ⟨hall, hdecided⟩⟩
  · obtain ⟨result', hends, hpair⟩ := map_eq_some_iff.mp ha
    cases hpair
    obtain ⟨hok, hfailed⟩ := s.gathered.take_counts i result
    rw [← hends] at hok hfailed
    have hle := h.ok_le
    have hsum := h.sum_le
    have hgrows : s.gathered.okCount ≤ (s.gathered.take i result).okCount := by omega
    rw [htake]
    refine ⟨?_, ?_, nofun, nofun, fun _ => ⟨hall, hdecided.imp_left fun hmet => hmet.mono hall hgrows⟩⟩
    · rw [hok, countP_append, countP_singleton]
      omega
    · rw [hok, hfailed, length_append, length_singleton]
      split <;> omega

theorem JoinTally.received (h : JoinTally join n ends total done s) (hopen : s.ended = false) (i : Nat)
    (htotal : total ≤ (done ++ [i]).countP (fun i => (ends i).isOk) + (n - (done ++ [i]).length)) :
    JoinTally join n ends total (done ++ [i]) (receive join .continued n s ((ends i).map (i, ·))) := by
  have hok := h.ok_eq hopen
  have hsum := h.sum_eq hopen
  rw [countP_append, countP_singleton, length_append, length_singleton] at htotal
  unfold receive
  rw [if_neg (by simp [hopen])]
  cases hends : ends i with
  | none =>
    have hcount : (done ++ [i]).countP (fun i => (ends i).isOk) = s.gathered.okCount := by
      rw [countP_append, countP_singleton, hends, hok]
      rfl
    have hlength : s.gathered.okCount + (s.gathered.failedCount + 1) = (done ++ [i]).length := by
      rw [length_append, length_singleton]
      omega
    exact ⟨hcount.ge, hlength.le, fun _ => hcount.symm, fun _ => hlength, nofun⟩
  | some result =>
    obtain ⟨hok', hfailed'⟩ := s.gathered.take_counts i result
    rw [hends] at htotal
    have hcount : (done ++ [i]).countP (fun i => (ends i).isOk) = (s.gathered.take i result).okCount := by
      rw [countP_append, countP_singleton, hends, hok', hok]
    have hlength : (s.gathered.take i result).okCount + (s.gathered.take i result).failedCount = (done ++ [i]).length := by
      rw [hok', hfailed', length_append, length_singleton]
      split <;> omega
    refine ⟨hcount.ge, hlength.le, fun _ => hcount.symm, fun _ => hlength, fun hended => ?_⟩
    cases result with
    | ok res =>
      have hreached : join.reached n (s.gathered.take i (.ok res)).okCount := hended
      have hmet : join.Met n (s.gathered.take i (.ok res)).okCount :=
        JoinCondition.met_of_reached (by exact le_add_left 1 _) hreached
      refine ⟨?_, .inl hmet⟩
      rintro rfl
      cases hreached
    | error err =>
      have hlost : join.lost n (s.gathered.take i (.error err)).okCount (s.gathered.take i (.error err)).failedCount := hended
      refine ⟨?_, .inr (JoinCondition.not_met_of_lost hlost ?_)⟩
      · rintro rfl
        cases hlost
      · rw [length_append, length_singleton] at hlength
        omega

theorem JoinTally.run (hschedule : Schedule join .continued n ends s order arrivals)
    (hlength : (done ++ order).length ≤ n)
    (htotal : total ≤ (done ++ order).countP (fun i => (ends i).isOk) + (n - (done ++ order).length))
    (h : JoinTally join n ends total done s) :
    JoinTally join n ends total (done ++ order) (run join .continued n s arrivals) := by
  induction hschedule generalizing done with
  | done =>
    rw [append_nil]
    exact h
  | @arrive s i order arrivals _ ih =>
    rw [append_cons] at hlength htotal ⊢
    refine ih hlength htotal ?_
    cases hended : s.ended with
    | true =>
      have hreceive : receive join .continued n s ((ends i).map (i, ·)) =
          ⟨s.gathered.drain [(ends i).map (i, ·)], true⟩ := if_pos hended
      rw [hreceive]
      exact h.drained hended i
    | false =>
      refine h.received hended i ?_
      have hrest : order.countP (fun i => (ends i).isOk) ≤ order.length := countP_le_length
      rw [length_append] at hlength
      rw [countP_append, length_append] at htotal
      omega
  | @abort s i order arrivals hended _ ih =>
    rw [append_cons] at hlength htotal ⊢
    have hreceive : JoinState.run join .continued n s (none :: arrivals) = JoinState.run join .continued n s arrivals := by
      rw [JoinState.run, foldl_cons, receive_none_of_ended hended, JoinState.run]
    rw [hreceive]
    exact ih hlength htotal (h.aborted hended i)

theorem joinTally_start : JoinTally join n ends total [] (JoinState.start n) :=
  ⟨le_rfl, le_rfl, fun _ => rfl, fun _ => rfl, fun hended => by cases hended⟩

theorem Schedule.split (h : Schedule join onFailure n ends s order (received ++ rest)) :
    ∃ before after, order = before ++ after ∧ Schedule join onFailure n ends s before received := by
  induction received generalizing s order with
  | nil => exact ⟨[], order, rfl, .done⟩
  | cons a received ih =>
    cases h with
    | arrive h =>
      obtain ⟨before, after, rfl, hbefore⟩ := ih h
      exact ⟨_ :: before, after, rfl, .arrive hbefore⟩
    | abort hended h =>
      obtain ⟨before, after, rfl, hbefore⟩ := ih h
      exact ⟨_ :: before, after, rfl, .abort hended hbefore⟩

variable {lib : Libraries} {parseF64 : String → Option Nat} {registered : String → Bool}
  {aggregate : ExecuteRequest → Execution} {request : ExecuteRequest}

theorem computeVerdict_succeeded_iff (hclosed : ∀ config, join ≠ .aggregator config) (hn : 1 ≤ n)
    (hsum : outcome.okCount + outcome.failedCount + outcome.cancelledCount = n) :
    computeVerdict lib parseF64 registered aggregate join n outcome request = .ok .succeeded ↔ join.Met n outcome.okCount := by
  unfold computeVerdict JoinCondition.Met
  cases join with
  | all =>
    simp only [Except.ok.injEq, ite_eq_left_iff, reduceCtorEq, imp_false, not_not]
    omega
  | any | atLeast k => simp only [Except.ok.injEq, ite_eq_left_iff, reduceCtorEq, imp_false, not_not]
  | percent p =>
    simp only [Except.ok.injEq, ite_eq_left_iff, reduceCtorEq, imp_false, not_not]
    rw [← JoinCondition.percentThreshold_eq]
    omega
  | aggregator config => exact absurd rfl (hclosed config)

/-- However the branches are scheduled, a join that goes on after failures succeeds exactly if the branches that end well,
left to themselves, are enough for it; the branches that are left are never counted below zero. -/
theorem continued_join_verdict (hclosed : ∀ config, join ≠ .aggregator config) (hn : 1 ≤ n)
    (horder : order.Perm (List.range n)) (hschedule : Schedule join .continued n ends (JoinState.start n) order arrivals) :
    (computeVerdict lib parseF64 registered aggregate join n (driveJoinset join .continued n arrivals) request =
        .ok .succeeded ↔ join.Met n ((List.range n).countP fun i => (ends i).isOk)) ∧
      ∀ received rest, arrivals = received ++ rest → (gather join .continued n (.empty n) received).okCount +
          (gather join .continued n (.empty n) received).failedCount ≤ n := by
  have hlength : order.length = n := horder.length_eq.trans length_range
  have htallied {before : List Nat} {received : List Joined} (hbefore : before.length ≤ n)
      (hrun : Schedule join .continued n ends (JoinState.start n) before received) {total : Nat}
      (htotal : total ≤ before.countP (fun i => (ends i).isOk) + (n - before.length)) :
      JoinTally join n ends total before (run join .continued n (JoinState.start n) received) := by
    have hend : JoinTally join n ends total ([] ++ before) (run join .continued n (JoinState.start n) received) :=
      JoinTally.run hrun hbefore htotal (joinTally_start)
    exact hend
  constructor
  · have hfinal := htallied hlength.le hschedule (le_add_right _ _)
    rw [driveJoinset, gather_eq_run]
    change JoinTally _ _ _ _ _ (run join .continued n ⟨.empty n, false⟩ arrivals) at hfinal
    have hsum := hfinal.sum_le
    rw [computeVerdict_succeeded_iff hclosed hn (by dsimp only; omega), ← horder.countP_eq]
    cases hended : (run join .continued n ⟨.empty n, false⟩ arrivals).ended with
    | false => rw [hfinal.ok_eq hended]
    | true =>
      obtain ⟨hall, hmet | hlost⟩ := hfinal.decided hended
      · exact iff_of_true hmet (hmet.mono hall hfinal.ok_le)
      · exact iff_of_false (fun hmet => hlost (hmet.mono hall hfinal.ok_le)) hlost
  · rintro received rest rfl
    obtain ⟨before, after, rfl, hbefore⟩ := Schedule.split hschedule
    have hle : before.length ≤ n := by
      rw [length_append] at hlength
      omega
    have hsum := (htallied hle hbefore (zero_le _)).sum_le
    rw [gather_eq_run]
    exact hsum.trans hle

def doneBranch : ExecuteResult :=
  ⟨.null, [], none, none, none⟩

def mixedEnds : Nat → BranchEnd
  | 0 => some (.ok doneBranch)
  | 1 => none
  | _ => some (.error (.permanent "failed"))

theorem continued_join_unmet : ∃ arrivals : List Joined,
    Schedule (.atLeast 2) .continued 3 mixedEnds (JoinState.start 3) [1, 2, 0] arrivals ∧ arrivals.getLast? = some none ∧
      computeVerdict .plain (fun _ => none) (fun _ => true) (fun _ => .error (.permanent "")) (.atLeast 2) 3
        (driveJoinset (.atLeast 2) .continued 3 arrivals) editRequest ≠ .ok .succeeded := by
  have hschedule : Schedule (.atLeast 2) .continued 3 mixedEnds (JoinState.start 3) [1, 2, 0]
      [none, some (2, .error (.permanent "failed")), none] := .arrive (.arrive (.abort rfl .done))
  refine ⟨_, hschedule, rfl, fun h => ?_⟩
  have hmet := (continued_join_verdict (fun _ h => by cases h) (by decide) (by decide) hschedule).1.mp h
  exact absurd hmet (by unfold JoinCondition.Met; decide)

end

section

open JoinState

def branchSlot (index : Nat) : Execution → Value
  | .ok res => .object [("ok", .bool true), ("index", .nat index), ("output", res.output)]
  | .error err => .object [("ok", .bool false), ("index", .nat index), ("error", .object
      [("code", .string err.errorClass.token), ("message", .string err.message)])]

theorem Gathered.take_branchResults (g : Gathered) (i : Nat) (result : Execution) :
    (g.take i result).branchResults = g.branchResults.set i (some (branchSlot i result)) := by
  cases result <;> rfl

def Joined.isFailed : Joined → Bool
  | some (_, .error _) => true
  | _ => false

variable (join : JoinCondition) (onFailure : OnBranchFailure) (n : Nat)

def panics (s : JoinState) : List Joined → Nat
  | [] => 0
  | a :: rest => (if a = none ∧ s.ended = false then 1 else 0) + panics (receive join onFailure n s a) rest

/-- What has been gathered from the branches that came back so far, `p` of them by a panic. -/
structure GatheredFrom (n : Nat) (got : List Joined) (p : Nat) (g : Gathered) : Prop where
  length : g.branchResults.length = n
  ok : g.okCount = got.countP Joined.isOk
  failed : g.failedCount = got.countP Joined.isFailed + p
  evidence : g.aggregatedEvidence = got.flatMap Joined.evidence
  filled : ∀ i result, some (i, result) ∈ got → g.branchResults[i]? = some (some (branchSlot i result))
  free : ∀ i < n, (∀ result, some (i, result) ∉ got) → g.branchResults[i]? = some none

variable {join onFailure n} {got rest : List Joined} {p : Nat} {g : Gathered}

theorem GatheredFrom.cutOff (h : GatheredFrom n got p g) : GatheredFrom n (got ++ [none]) p g := by
  have hmem {i : Nat} {result : Execution} : some (i, result) ∈ got ++ [none] ↔ some (i, result) ∈ got := by
    simp
  refine ⟨h.length, ?_, ?_, ?_, fun i result hi => h.filled i result (hmem.mp hi),
    fun i hi hnot => h.free i hi fun result => mt hmem.mpr (hnot result)⟩
  · simpa [Joined.isOk] using h.ok
  · simpa [Joined.isFailed] using h.failed
  · simpa [Joined.evidence] using h.evidence

theorem GatheredFrom.take (h : GatheredFrom n got p g) (hi : i < n) (hfresh : ∀ result, some (i, result) ∉ got)
    (result : Execution) : GatheredFrom n (got ++ [some (i, result)]) p (g.take i result) := by
  refine ⟨?_, ?_, ?_, ?_, fun j result' hj => ?_, fun j hj hnot => ?_⟩
  · rw [g.take_branchResults, length_set, h.length]
  · rw [g.take_okCount, h.ok, countP_append, countP_singleton]
  · have hfailed : (g.take i result).failedCount = g.failedCount + if Joined.isFailed (some (i, result)) then 1 else 0 := by
      cases result <;> rfl
    rw [hfailed, h.failed, countP_append, countP_singleton]
    omega
  · rw [g.take_evidence, h.evidence, flatMap_append, flatMap_singleton]
  · rw [g.take_branchResults]
    rcases mem_append.mp hj with hj | hj
    · have hne : i ≠ j := fun heq => hfresh result' (heq ▸ hj)
      rw [getElem?_set_ne hne]
      exact h.filled j result' hj
    · cases mem_singleton.mp hj
      rw [getElem?_set_self (h.length.symm ▸ hi)]
  · have hne : i ≠ j := fun heq => hnot result (heq ▸ mem_append_right _ (.head _))
    rw [g.take_branchResults, getElem?_set_ne hne]
    exact h.free j hj fun result' hmem => hnot result' (mem_append_left _ hmem)

theorem GatheredFrom.receive (h : GatheredFrom n got p s.gathered)
    (hi : ∀ i result, a = some (i, result) → i < n ∧ ∀ result, some (i, result) ∉ got) :
    GatheredFrom n (got ++ [a]) (p + if a = none ∧ s.ended = false then 1 else 0) (receive join onFailure n s a).gathered := by
  obtain ⟨g, ended⟩ := s
  cases a with
  | none =>
    cases ended with
    | true => exact h.cutOff
    | false =>
      have hnone := h.cutOff
      refine ⟨hnone.length, hnone.ok, ?_, hnone.evidence, hnone.filled, hnone.free⟩
      exact congrArg (· + 1) hnone.failed
  | some pair =>
    obtain ⟨i, result⟩ := pair
    obtain ⟨hlt, hfresh⟩ := hi i result rfl
    have hfree : (g.branchResults[i]?).join = none := by rw [h.free i hlt hfresh]; rfl
    have htake : (JoinState.receive join onFailure n ⟨g, ended⟩ (some (i, result))).gathered = g.take i result := by
      cases ended with
      | true => exact if_pos hfree
      | false => rfl
    rw [htake, if_neg (by simp)]
    exact h.take hlt hfresh result

theorem EndOnce.fresh
    (h : EndOnce (got ++ some (i, result) :: rest)) (result' : Execution) : some (i, result') ∉ got := by
  intro hmem
  unfold EndOnce at h
  rw [filterMap_append, nodup_append] at h
  exact h.2.2 i (mem_filterMap.mpr ⟨_, hmem, rfl⟩) i (.head _) rfl

theorem GatheredFrom.run (h : GatheredFrom n got p s.gathered) (honce : EndOnce (got ++ arrivals))
    (hlt : ∀ i result, some (i, result) ∈ arrivals → i < n) :
    GatheredFrom n (got ++ arrivals) (p + panics join onFailure n s arrivals) (run join onFailure n s arrivals).gathered := by
  induction arrivals generalizing got p s with
  | nil =>
    rw [append_nil]
    exact h
  | cons a rest ih =>
    have hstep : GatheredFrom n (got ++ [a]) (p + if a = none ∧ s.ended = false then 1 else 0)
        (JoinState.receive join onFailure n s a).gathered := by
      refine h.receive fun i result heq => ?_
      subst heq
      exact ⟨hlt i result (.head _), honce.fresh⟩
    rw [append_cons] at honce ⊢
    rw [panics, ← add_assoc]
    exact ih hstep honce fun i result hmem => hlt i result (.tail _ hmem)

theorem gatheredFrom_start : GatheredFrom n [] 0 (.empty n) := by
  refine ⟨length_replicate, rfl, rfl, rfl, nofun, fun i hi _ => ?_⟩
  exact getElem?_replicate_of_lt hi

variable {ends : Nat → BranchEnd} {order : List Nat} {arrivals before after : List Joined}

theorem gatheredFrom_of_schedule (horder : order.Perm (List.range n))
    (hschedule : Schedule join onFailure n ends (JoinState.start n) order arrivals) :
    GatheredFrom n arrivals (panics join onFailure n (JoinState.start n) arrivals) (gather join onFailure n (.empty n) arrivals) := by
  have honce : EndOnce arrivals := hschedule.endOnce (horder.nodup_iff.mpr nodup_range)
  rw [gather_eq_run]
  have hrun : GatheredFrom n ([] ++ arrivals) (0 + panics join onFailure n (JoinState.start n) arrivals)
      (run join onFailure n (JoinState.start n) arrivals).gathered :=
    GatheredFrom.run gatheredFrom_start honce fun i result hmem =>
      mem_range.mp (horder.mem_iff.mp (hschedule.of_mem hmem).1)
  rwa [zero_add] at hrun

theorem panics_le (s : JoinState) (arrivals : List Joined) : panics join onFailure n s arrivals ≤ arrivals.countP Option.isNone := by
  induction arrivals generalizing s with
  | nil => exact le_rfl
  | cons a rest ih =>
    have hrest := ih (JoinState.receive join onFailure n s a)
    rw [panics, countP_cons]
    cases a with
    | none =>
      simp only [isNone_none, if_true]
      split <;> omega
    | some pair => simpa using hrest

theorem countP_partition {α : Type} {p q r : α → Bool} {xs : List α}
    (h : ∀ x ∈ xs, (p x).toNat + (q x).toNat + (r x).toNat = 1) : xs.countP p + xs.countP q + xs.countP r = xs.length := by
  have hcount (t : α → Bool) (x : α) (rest : List α) : (x :: rest).countP t = rest.countP t + (t x).toNat := by
    rw [countP_cons]
    cases t x <;> rfl
  induction xs with
  | nil => rfl
  | cons x rest ih =>
    have hx := h x (.head _)
    have hrest := ih fun y hy => h y (.tail _ hy)
    rw [hcount, hcount, hcount, length_cons]
    omega

theorem countP_joined (arrivals : List Joined) :
    arrivals.countP Joined.isOk + arrivals.countP Joined.isFailed + arrivals.countP Option.isNone = arrivals.length := by
  refine countP_partition fun a _ => ?_
  match a with
  | none | some (_, .ok _) | some (_, .error _) => rfl

theorem driveJoinset_total (horder : order.Perm (List.range n))
    (hschedule : Schedule join onFailure n ends (JoinState.start n) order arrivals) :
    (driveJoinset join onFailure n arrivals).okCount + (driveJoinset join onFailure n arrivals).failedCount +
      (driveJoinset join onFailure n arrivals).cancelledCount = n := by
  have hsum : (gather join onFailure n (.empty n) arrivals).okCount +
      (gather join onFailure n (.empty n) arrivals).failedCount ≤ n := by
    have hgathered := gatheredFrom_of_schedule horder hschedule
    have hlength := hschedule.length_eq.trans (horder.length_eq.trans length_range)
    have hpanics : panics join onFailure n (JoinState.start n) arrivals ≤ arrivals.countP Option.isNone := panics_le _ _
    have hcounts := countP_joined arrivals
    rw [hgathered.ok, hgathered.failed]
    omega
  unfold driveJoinset
  dsimp only
  omega

structure FailsFirst (join : JoinCondition) (n : Nat) (arrivals before : List Joined) (a : Joined) (after : List Joined) : Prop where
  split : arrivals = before ++ a :: after
  preceding : ∀ b ∈ before, b.isOk = true
  failed : a.isOk = false
  unmet : ¬ join.Met n before.length

theorem FailsFirst.countP_isOk (h : FailsFirst join n arrivals before a after) :
    arrivals.countP Joined.isOk = before.length + after.countP Joined.isOk := by
  rw [h.split, countP_append, countP_eq_length.mpr h.preceding, countP_cons_of_neg (by simp [h.failed])]

/-- With `bail`, a failure that is received before the join is met keeps the join from succeeding exactly if the branches
that still come back ok do not complete it. -/
theorem bail_fails_fast_iff {lib : Libraries} {parseF64 : String → Option Nat} {registered : String → Bool}
    {aggregate : ExecuteRequest → Except ExecutorError ExecuteResult} {request : ExecuteRequest}
    (hclosed : ∀ config, join ≠ .aggregator config) (horder : order.Perm (List.range n))
    (hschedule : Schedule join .bail n ends (JoinState.start n) order arrivals) :
    (∀ before a after, FailsFirst join n arrivals before a after →
      computeVerdict lib parseF64 registered aggregate join n (driveJoinset join .bail n arrivals) request ≠ .ok .succeeded) ↔
    ∀ before a after, FailsFirst join n arrivals before a after →
      ¬ join.Met n (before.length + after.countP Joined.isOk) := by
  refine forall₄_congr fun before a after hfails => not_congr ?_
  have hn : 1 ≤ n := by
    have hlength := hschedule.length_eq.trans (horder.length_eq.trans length_range)
    rw [hfails.split, length_append, length_cons] at hlength
    omega
  have hok : (driveJoinset join .bail n arrivals).okCount = arrivals.countP Joined.isOk :=
    (gatheredFrom_of_schedule horder hschedule).ok
  rw [computeVerdict_succeeded_iff hclosed hn (driveJoinset_total horder hschedule), hok, hfails.countP_isOk]

def isOkSlot (slot : Value) : Bool :=
  slot.get "ok" = some (.bool true)

def isCancelledSlot (slot : Value) : Bool :=
  slot.get "ok" = some (.bool false) && (slot.pointer "/error/code").bind Value.asStr = some "cancelled"

def isFailedSlot (slot : Value) : Bool :=
  !isOkSlot slot && !isCancelledSlot slot

def slotsWhere (p : Value → Bool) (outcome : JoinOutcome) : List Nat :=
  (List.range outcome.branchResults.length).filter fun i => (outcome.branchResults[i]?).any p

def BranchEnd.evidence : BranchEnd → List Evidence
  | some (.ok res) => res.evidence
  | _ => []

/-- The outcome says of every branch what became of it, and its counts and its evidence are those of its slots. -/
structure JoinOutcome.Accounts (n : Nat) (ends : Nat → BranchEnd) (outcome : JoinOutcome) : Prop where
  total : outcome.okCount + outcome.failedCount + outcome.cancelledCount = n
  length : outcome.branchResults.length = n
  slots : ∀ i < n, outcome.branchResults[i]? = some (cancelledBranch i) ∨
    ∃ result, ends i = some result ∧ outcome.branchResults[i]? = some (branchSlot i result)
  ok : outcome.okCount = (slotsWhere isOkSlot outcome).length
  failed : outcome.failedCount = (slotsWhere isFailedSlot outcome).length
  cancelled : outcome.cancelledCount = (slotsWhere isCancelledSlot outcome).length
  evidence : ∃ oks : List Nat, oks.Perm (slotsWhere isOkSlot outcome) ∧
    outcome.aggregatedEvidence = oks.flatMap fun i => (ends i).evidence

theorem isOkSlot_branchSlot (i : Nat) (result : Execution) :
    isOkSlot (branchSlot i result) = Joined.isOk (some (i, result)) := by
  cases result <;> rfl

theorem isFailedSlot_branchSlot (i : Nat) (result : Execution) :
    isFailedSlot (branchSlot i result) = Joined.isFailed (some (i, result)) := by
  cases result with
  | ok res => rfl
  | error err =>
    obtain ⟨errorClass, message, updates⟩ := err
    cases errorClass <;> rfl

def positions (p : Joined → Bool) (arrivals : List Joined) : List Nat :=
  (arrivals.filter p).filterMap fun a => a.map Prod.fst

theorem mem_positions {p : Joined → Bool} {i : Nat} :
    i ∈ positions p arrivals ↔ ∃ result, some (i, result) ∈ arrivals ∧ p (some (i, result)) := by
  unfold positions
  rw [mem_filterMap]
  constructor
  · rintro ⟨a, ha, hindex⟩
    obtain ⟨⟨j, result⟩, rfl, rfl⟩ := map_eq_some_iff.mp hindex
    exact ⟨result, mem_filter.mp ha⟩
  · rintro ⟨result, hmem, hp⟩
    exact ⟨_, mem_filter.mpr ⟨hmem, hp⟩, rfl⟩

theorem length_positions {p : Joined → Bool} (hp : p none = false) : (positions p arrivals).length = arrivals.countP p := by
  induction arrivals with
  | nil => rfl
  | cons a rest ih =>
    unfold positions at ih ⊢
    cases ha : p a with
    | false => rw [filter_cons_of_neg (by simp [ha]), countP_cons_of_neg (by simp [ha]), ih]
    | true =>
      cases a with
      | none => cases hp.symm.trans ha
      | some pair =>
        rw [filter_cons_of_pos ha, countP_cons_of_pos ha]
        exact congrArg (· + 1) ih

theorem nodup_positions {p : Joined → Bool} (h : EndOnce arrivals) : (positions p arrivals).Nodup :=
  List.Nodup.sublist (filter_sublist.filterMap _) h

theorem flatMap_evidence (hends : ∀ i result, some (i, result) ∈ arrivals → ends i = some result) :
    arrivals.flatMap Joined.evidence = (positions Joined.isOk arrivals).flatMap fun i => (ends i).evidence := by
  induction arrivals with
  | nil => rfl
  | cons a rest ih =>
    have hrest := ih fun i result hmem => hends i result (.tail _ hmem)
    unfold positions at hrest ⊢
    rw [flatMap_cons, hrest]
    match a with
    | none => rfl
    | some (i, .error err) => rfl
    | some (i, .ok res) =>
      have hend : (ends i).evidence = res.evidence := by rw [hends i (.ok res) (.head _)]; rfl
      rw [filter_cons_of_pos rfl, filterMap_cons, map_some, flatMap_cons, hend]
      rfl

theorem driveJoinset_slot {slot : Option Value}
    (h : (gather join onFailure n (.empty n) arrivals).branchResults[i]? = some slot) :
    (driveJoinset join onFailure n arrivals).branchResults[i]? = some (slot.getD (cancelledBranch i)) := by
  unfold driveJoinset
  simp [h]

theorem driveJoinset_length (hgathered : GatheredFrom n arrivals p (gather join onFailure n (.empty n) arrivals)) :
    (driveJoinset join onFailure n arrivals).branchResults.length = n := by
  simp [driveJoinset, hgathered.length]

/-- A kind of slot that a cancelled branch never has is that of the branches that came back with `q`. -/
theorem positions_perm_slots (hgathered : GatheredFrom n arrivals p (gather join onFailure n (.empty n) arrivals))
    (honce : EndOnce arrivals) (hlt : ∀ i result, some (i, result) ∈ arrivals → i < n) {slotIs : Value → Bool}
    (hcancelled : ∀ i, slotIs (cancelledBranch i) = false)
    (hback : ∀ i result, slotIs (branchSlot i result) = q (some (i, result))) :
    (positions q arrivals).Perm (slotsWhere slotIs (driveJoinset join onFailure n arrivals)) := by
  have hfilled {i : Nat} {result : Execution} (hmem : some (i, result) ∈ arrivals) :
      (driveJoinset join onFailure n arrivals).branchResults[i]?.any slotIs = q (some (i, result)) := by
    rw [driveJoinset_slot (hgathered.filled i result hmem)]
    exact hback i result
  refine (perm_ext_iff_of_nodup (nodup_positions honce) (nodup_range.filter _)).mpr fun i => ?_
  rw [mem_positions, mem_filter, mem_range, driveJoinset_length hgathered]
  constructor
  · rintro ⟨result, hmem, hq⟩
    exact ⟨hlt i result hmem, (hfilled hmem).trans hq⟩
  · rintro ⟨hi, hany⟩
    by_cases hcame : ∃ result, some (i, result) ∈ arrivals
    · obtain ⟨result, hmem⟩ := hcame
      exact ⟨result, hmem, (hfilled hmem).symm.trans hany⟩
    · rw [driveJoinset_slot (hgathered.free i hi (not_exists.mp hcame))] at hany
      cases (hcancelled i).symm.trans hany

theorem slot_kinds : (isOkSlot slot).toNat + (isFailedSlot slot).toNat + (isCancelledSlot slot).toNat = 1 := by
  unfold isFailedSlot
  cases hcancelled : isCancelledSlot slot with
  | false => cases isOkSlot slot <;> rfl
  | true =>
    have hfalse : slot.get "ok" = some (.bool false) := of_decide_eq_true (Bool.and_eq_true_iff.mp hcancelled).1
    have hok : isOkSlot slot = false := by simp [isOkSlot, hfalse]
    rw [hok]
    rfl

theorem length_slotsWhere (outcome : JoinOutcome) : (slotsWhere isOkSlot outcome).length + (slotsWhere isFailedSlot outcome).length +
    (slotsWhere isCancelledSlot outcome).length = outcome.branchResults.length := by
  unfold slotsWhere
  rw [← countP_eq_length_filter, ← countP_eq_length_filter, ← countP_eq_length_filter, countP_partition,
    length_range]
  intro i hi
  rw [getElem?_eq_getElem (mem_range.mp hi)]
  exact slot_kinds

/-- The outcome of a fan-out accounts for its branches exactly if no branch panics while the join is open. -/
theorem fan_out_accounts_iff (horder : order.Perm (List.range n))
    (hschedule : Schedule join onFailure n ends (JoinState.start n) order arrivals) :
    (driveJoinset join onFailure n arrivals).Accounts n ends ↔ panics join onFailure n (JoinState.start n) arrivals = 0 := by
  have hgathered := gatheredFrom_of_schedule horder hschedule
  have honce : EndOnce arrivals := hschedule.endOnce (horder.nodup_iff.mpr nodup_range)
  have hlt {i : Nat} {result : Except ExecutorError ExecuteResult} (hmem : some (i, result) ∈ arrivals) : i < n :=
    mem_range.mp (horder.mem_iff.mp (hschedule.of_mem hmem).1)
  have hoks := positions_perm_slots hgathered honce (fun _ _ => hlt) (fun _ => rfl) isOkSlot_branchSlot
  have hfails := positions_perm_slots hgathered honce (fun _ _ => hlt) (fun _ => rfl) isFailedSlot_branchSlot
  have hok : (driveJoinset join onFailure n arrivals).okCount = (slotsWhere isOkSlot (driveJoinset join onFailure n arrivals)).length := by
    rw [← hoks.length_eq, length_positions rfl]
    exact hgathered.ok
  have hfailed : (driveJoinset join onFailure n arrivals).failedCount =
      (slotsWhere isFailedSlot (driveJoinset join onFailure n arrivals)).length + panics join onFailure n (JoinState.start n) arrivals := by
    rw [← hfails.length_eq, length_positions rfl]
    exact hgathered.failed
  have htotal := driveJoinset_total horder hschedule
  have hslots := length_slotsWhere (driveJoinset join onFailure n arrivals)
  rw [driveJoinset_length hgathered] at hslots
  constructor
  · intro haccounts
    have := haccounts.failed
    omega
  · intro hpanics
    refine ⟨htotal, driveJoinset_length hgathered, fun i hi => ?_, hok, by omega, by omega, _, hoks, ?_⟩
    · by_cases hcame : ∃ result, some (i, result) ∈ arrivals
      · obtain ⟨result, hmem⟩ := hcame
        exact .inr ⟨result, (hschedule.of_mem hmem).2, driveJoinset_slot (hgathered.filled i result hmem)⟩
      · exact .inl (driveJoinset_slot (hgathered.free i hi (not_exists.mp hcame)))
    · exact hgathered.evidence.trans (flatMap_evidence fun i result hmem => (hschedule.of_mem hmem).2)

/-- With `bail`, a join of any branch succeeds after a failure: on a sibling that had ended before it was aborted, and,
after a panic, on one that goes on. -/
theorem bail_succeeds_after_failure :
    (∃ arrivals : List Joined, Schedule .any .bail 2 mixedEnds (JoinState.start 2) [1, 0] arrivals ∧
      FailsFirst .any 2 arrivals [] none [some (0, .ok doneBranch)] ∧
      computeVerdict .plain (fun _ => none) (fun _ => true) (fun _ => .error (.permanent "")) .any 2
        (driveJoinset .any .bail 2 arrivals) editRequest = .ok .succeeded) ∧
    ∃ arrivals : List Joined, Schedule .any .bail 3 mixedEnds (JoinState.start 3) [2, 0, 1] arrivals ∧
      FailsFirst .any 3 arrivals [] (some (2, .error (.permanent "failed"))) [some (0, .ok doneBranch), none] ∧
      computeVerdict .plain (fun _ => none) (fun _ => true) (fun _ => .error (.permanent "")) .any 3
        (driveJoinset .any .bail 3 arrivals) editRequest = .ok .succeeded := by
  have hunmet {n : Nat} : ¬ JoinCondition.Met n ([] : List Joined).length .any := not_succ_le_zero 0
  refine ⟨⟨[none, some (0, .ok doneBranch)], .arrive (.arrive .done), ⟨rfl, nofun, rfl, hunmet⟩, rfl⟩,
    [some (2, .error (.permanent "failed")), some (0, .ok doneBranch), none], .arrive (.arrive (.abort rfl .done)),
    ⟨rfl, nofun, rfl, hunmet⟩, rfl⟩

theorem bail_fails_with_siblings_aborted :
    FailsFirst .any 3 [some (2, .error (.permanent "failed")), none, none] [] (some (2, .error (.permanent "failed"))) [none, none] ∧
    computeVerdict .plain (fun _ => none) (fun _ => true) (fun _ => .error (.permanent "")) .any 3
      (driveJoinset .any .bail 3 [some (2, .error (.permanent "failed")), none, none]) editRequest ≠ .ok .succeeded := by
  have hschedule : Schedule .any .bail 3 mixedEnds (JoinState.start 3) [2, 0, 1]
      [some (2, .error (.permanent "failed")), none, none] := .arrive (.abort rfl (.abort rfl .done))
  have hfails : FailsFirst .any 3 [some (2, .error (.permanent "failed")), none, none] []
      (some (2, .error (.permanent "failed"))) [none, none] := ⟨rfl, nofun, rfl, not_succ_le_zero 0⟩
  refine ⟨hfails, (bail_fails_fast_iff (fun _ h => by cases h) (by decide) hschedule).mpr (fun before a after h => ?_) _ _ _ hfails⟩
  have hok := h.countP_isOk
  rw [← hok]
  exact not_succ_le_zero 0

/-- A branch that panics counts as failed, and its slot says that it was cancelled. -/
theorem panicked_branch_unaccounted :
    ∃ arrivals : List Joined, Schedule .all .continued 2 mixedEnds (JoinState.start 2) [0, 1] arrivals ∧
      (driveJoinset .all .continued 2 arrivals).failedCount = 1 ∧
      slotsWhere isFailedSlot (driveJoinset .all .continued 2 arrivals) = [] ∧
      (driveJoinset .all .continued 2 arrivals).cancelledCount = 0 ∧
      slotsWhere isCancelledSlot (driveJoinset .all .continued 2 arrivals) = [1] :=
  ⟨[some (0, .ok doneBranch), none], .arrive (.arrive .done), rfl, by decide +kernel, rfl, by decide +kernel⟩

theorem aborted_branch_accounted :
    (driveJoinset .any .continued 2 [some (0, .ok doneBranch), none]).Accounts 2 mixedEnds := by
  have hschedule : Schedule .any .continued 2 mixedEnds (JoinState.start 2) [0, 1] [some (0, .ok doneBranch), none] :=
    .arrive (.abort rfl .done)
  exact (fan_out_accounts_iff (by decide) hschedule).mpr rfl

end

end Praxec
