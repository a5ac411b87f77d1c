import Praxec.Runtime.Creation
import Praxec.World

namespace Praxec

open Json Effect Prog Monitor List

/-- A program whose every request has an answer satisfying `A` returns on some such answers. -/
theorem Effect.Prog.exists_trace {S : Signature} {α : Type} {A : Event S → Prop} (hop : ∀ o, ∃ r, A (.op o r))
    (hcall : ∀ p, ∃ r, A (.call p r)) (htimeout : ∀ p, ∃ r, A (.timeout p r)) (x : Prog S α) :
    ∃ t a, x.Trace t (some a) ∧ ∀ e ∈ t, A e := by
  induction x with
  | pure a => exact ⟨[], a, .done a, nofun⟩
  | op o k ih =>
    obtain ⟨r, hr⟩ := hop o
    obtain ⟨t, a, ht, ha⟩ := ih r
    exact ⟨_, a, .op ht, forall_mem_cons.mpr ⟨hr, ha⟩⟩
  | call p k ih =>
    obtain ⟨r, hr⟩ := hcall p
    obtain ⟨t, a, ht, ha⟩ := ih r
    exact ⟨_, a, .call ht, forall_mem_cons.mpr ⟨hr, ha⟩⟩
  | timeout p k ih =>
    obtain ⟨r, hr⟩ := htimeout p
    obtain ⟨t, a, ht, ha⟩ := ih r
    exact ⟨_, a, .timeout ht, forall_mem_cons.mpr ⟨hr, ha⟩⟩

def IsOnly {α : Type} (P : α → Prop) (xs : List α) (x : α) : Prop :=
  ∃ before after, xs = before ++ x :: after ∧ P x ∧ ∀ y ∈ before ++ after, ¬ P y

theorem filter_eq_singleton_iff (hp : ∀ x, p x ↔ P x) : xs.filter p = [x] ↔ IsOnly P xs x := by
  simp only [filter_eq_cons_iff, filter_eq_nil_iff, IsOnly, hp, forall_mem_append]
  constructor
  · rintro ⟨before, after, hxs, hbefore, hx, hafter⟩
    exact ⟨before, after, hxs, hx, hbefore, hafter⟩
  · rintro ⟨before, after, hxs, hx, hbefore, hafter⟩
    exact ⟨before, after, hxs, hbefore, hx, hafter⟩

namespace Selection

def Ruled (v : Value → Bool) : Event Sig → Prop
  | .op (.guardEvaluate guard ..) r => ∃ diagnostic, r = .ok (v guard, diagnostic)
  | _ => True

def Unguarded (candidate : Candidate) : Prop :=
  guardsOf candidate.2 = []
deriving Decidable

def Passing (v : Value → Bool) (candidate : Candidate) : Prop :=
  guardsOf candidate.2 ≠ [] ∧ ∀ guard ∈ guardsOf candidate.2, v guard = true
deriving Decidable

/-- The candidate is the only one whose guards pass, or none passes and it is the only one without guards. -/
def Selected (v : Value → Bool) (candidates : List Candidate) (candidate : Candidate) : Prop :=
  IsOnly (Passing v) candidates candidate ∨
    (∀ c ∈ candidates, ¬ Passing v c) ∧ IsOnly Unguarded candidates candidate

section

variable (v : Value → Bool) (inst : WorkflowInstance) (candidates : List Candidate)

def viable : List Candidate :=
  candidates.filter fun c => !(guardsOf c.2).isEmpty && (guardsOf c.2).all v

def defaults : List Candidate :=
  candidates.filter fun c => (guardsOf c.2).isEmpty

def decision : Except Err Candidate :=
  match viable v candidates, defaults candidates with
  | [candidate], _ => .ok candidate
  | [], [candidate] => .ok candidate
  | [], [] => .error s!"no viable deterministic transition in state '{inst.state}': all {candidates.length} candidates had failing guards and there is no default"
  | [], _ => .error s!"ambiguous default in state '{inst.state}': {(defaults candidates).length} unguarded deterministic transitions; at most one default is allowed"
  | _, _ => .error s!"ambiguous deterministic transition in state '{inst.state}': {(viable v candidates).length} of {candidates.length} candidates had passing guards; exactly one must be viable"

variable {v inst candidates}

theorem viable_eq_singleton : viable v candidates = [c] ↔ IsOnly (Passing v) candidates c :=
  filter_eq_singleton_iff fun c => by simp [Passing]

theorem viable_eq_nil : viable v candidates = [] ↔ ∀ c ∈ candidates, ¬ Passing v c := by
  simp [viable, Passing, filter_eq_nil_iff]

theorem defaults_eq_singleton : defaults candidates = [c] ↔ IsOnly Unguarded candidates c :=
  filter_eq_singleton_iff fun c => by simp [Unguarded]

theorem decision_eq_ok {c : Candidate} : decision v inst candidates = .ok c ↔ Selected v candidates c := by
  unfold Selected
  rw [← viable_eq_singleton, ← viable_eq_nil, ← defaults_eq_singleton]
  unfold decision
  split <;> simp_all

theorem decision_perm {candidates' : List Candidate} (h : candidates.Perm candidates') :
    decision v inst candidates' = decision v inst candidates := by
  have hviable : (viable v candidates).Perm (viable v candidates') := h.filter _
  have hdefaults : (defaults candidates).Perm (defaults candidates') := h.filter _
  have hlong {xs ys : List Candidate} {x x' : Candidate} (hperm : (x :: x' :: xs).Perm ys) :
      ∃ y y' rest, ys = y :: y' :: rest := by
    match ys, hperm.length_eq with
    | y :: y' :: rest, _ => exact ⟨y, y', rest, rfl⟩
  unfold decision
  rw [h.length_eq, hviable.length_eq, hdefaults.length_eq]
  match hv : viable v candidates with
  | [x] =>
    rw [hv] at hviable
    rw [← singleton_perm.mp hviable]
  | x :: x' :: xs =>
    rw [hv] at hviable
    obtain ⟨y, y', ys, hys⟩ := hlong hviable
    rw [hys]
  | [] =>
    rw [hv] at hviable
    rw [nil_perm.mp hviable]
    match hd : defaults candidates with
    | [] =>
      rw [hd] at hdefaults
      rw [nil_perm.mp hdefaults]
    | [x] =>
      rw [hd] at hdefaults
      rw [← singleton_perm.mp hdefaults]
    | x :: x' :: xs =>
      rw [hd] at hdefaults
      obtain ⟨y, y', ys, hys⟩ := hlong hdefaults
      rw [hys]

end

variable {v : Value → Bool} {inst : WorkflowInstance} {principal : Principal} {c : String}

def mon (v : Value → Bool) : Monitor Sig Unit :=
  ⟨fun _ _ => (), fun _ => Ruled v, fun _ _ => True⟩

theorem record_returns : (mon v).Returns (fun _ => True) (recordOrSelfEvent event) fun _ _ => True :=
  .of_uses (.all (fun _ _ _ _ => ⟨trivial, trivial⟩) _)

theorem guardHolds_triple {guard arguments : Value} :
    (mon v).Triple (fun _ => True) (guardHolds guard inst arguments principal) (fun pass _ => pass = v guard)
      fun _ _ => False := by
  have hevaluate : (mon v).Returns (fun _ => True) (evaluateGuard guard inst arguments principal)
      fun r _ => ∃ diagnostic, r = .ok (v guard, diagnostic) :=
    .perform fun _ _ _ hr => ⟨trivial, hr⟩
  refine (Triple.lift hevaluate).bind fun r => .known ?_
  rintro ⟨diagnostic, rfl⟩
  exact .pure fun _ _ => rfl

theorem selectionGuardsPass_triple :
    (mon v).Triple (fun _ => True) (selectionGuardsPass inst principal c guards) (fun pass _ => pass = guards.all v)
    fun _ _ => False := by
  induction guards with
  | nil => exact .pure fun _ _ => rfl
  | cons guard rest ih =>
    refine guardHolds_triple.bind fun pass => .known fun hpass => (Triple.lift record_returns).bind fun _ => ?_
    rw [all_cons, ← hpass]
    cases pass with
    | false => exact .pure fun _ _ => rfl
    | true => exact ih

theorem viableCandidates_triple : (mon v).Triple (fun _ => True) (viableCandidates inst principal c candidates)
    (fun found _ => found = (viable v candidates, defaults candidates)) fun _ _ => False := by
  induction candidates with
  | nil => exact .pure fun _ _ => rfl
  | cons candidate rest ih =>
    unfold viableCandidates
    split
    · rename_i hunguarded
      refine ih.bind fun found => .pure fun _ hfound => ?_
      simp [hfound, viable, defaults, hunguarded]
    · rename_i hguarded
      refine selectionGuardsPass_triple.bind fun pass => .known fun hpass => ih.bind fun found => .pure fun _ hfound => ?_
      simp [hfound, hpass, viable, defaults, hguarded, filter_cons]

theorem selectDeterministicTransition_returns {candidates : List Candidate} (h : 2 ≤ candidates.length) :
    (mon v).Returns (fun _ => True) (selectDeterministicTransition candidates inst principal c).run
      fun r _ => r = decision v inst candidates := by
  have hselect : (mon v).Triple (fun _ => True) (selectDeterministicTransition candidates inst principal c)
      (fun candidate _ => .ok candidate = decision v inst candidates) fun e _ => .error e = decision v inst candidates := by
    unfold selectDeterministicTransition
    split
    · simp at h
    refine (viableCandidates_triple.failing fun _ _ => False.elim).bind fun found => .known fun hfound => ?_
    unfold decision
    rw [hfound]
    generalize viable v candidates = xs
    generalize defaults candidates = ys
    match xs, ys with
    | [x], _ | [], [x] => exact .pure fun _ _ => rfl
    | [], [] | [], _ :: _ :: _ | _ :: _ :: _, _ => exact .throw fun _ _ => rfl
  refine hselect.run.mono fun r _ hr => ?_
  cases r <;> exact hr

end Selection

open Selection

theorem exists_ruled (v : Value → Bool) (o : Op) : ∃ r, Ruled v (.op o r) := by
  match o with
  | .guardEvaluate guard _ _ _ => exact ⟨.ok (v guard, none), none, rfl⟩
  | .executeEnd .. => exact ⟨.error (.permanent ""), trivial⟩
  | .executeBegin .. | .lockRelease .. | .lockHeartbeat .. | .enqueue .. => exact ⟨(), trivial⟩
  | .lockAcquire .. => exact ⟨.ok (), trivial⟩
  | .lockAcquireAny .. => exact ⟨.ok "", trivial⟩
  | .lockHeld => exact ⟨[], trivial⟩
  | .takeReady _ => exact ⟨none, trivial⟩
  | .now => exact ⟨Nat.zero, trivial⟩
  | .freshId => exact ⟨"", trivial⟩
  | .cancelRequested => exact ⟨false, trivial⟩
  | .storeLoad _ | .storeSave .. | .storeCreate _ | .storeListWaitingOnLock | .storeListWaitingOnSubworkflow |
    .storeListAll | .storeFindByRunId _ | .definitionGet _ | .auditRecord _ | .auditTransition .. | .auditListEvents |
    .evidenceRecord .. => exact ⟨.error "", trivial⟩

/-- Among two or more candidates the choice is that of `Selected`, whatever their order. -/
theorem selectDeterministicTransition_spec (v : Value → Bool) (inst : WorkflowInstance) (principal : Principal) (c : String)
    {candidates : List Candidate} (hmany : 2 ≤ candidates.length) :
    (∃ events r, (selectDeterministicTransition candidates inst principal c).run.Trace events (some r) ∧
      ∀ e ∈ events, Ruled v e) ∧
    ∀ events r, (selectDeterministicTransition candidates inst principal c).run.Trace events (some r) →
      (∀ e ∈ events, Ruled v e) →
      (∀ candidate, r = .ok candidate ↔ Selected v candidates candidate) ∧
      ∀ candidates' events' r', candidates.Perm candidates' →
        (selectDeterministicTransition candidates' inst principal c).run.Trace events' (some r') →
        (∀ e ∈ events', Ruled v e) → r' = r := by
  have hresult {candidates : List Candidate} (h : 2 ≤ candidates.length) {events : History}
      {r : Except Err Candidate}
      (htrace : (selectDeterministicTransition candidates inst principal c).run.Trace events (some r))
      (hruled : ∀ e ∈ events, Ruled v e) : r = decision v inst candidates :=
    ((mon v).wp_sound (selectDeterministicTransition_returns h () trivial) htrace ((mon v).allowed_of_forall (fun e he _ => hruled e he) ())).2 r rfl
  refine ⟨exists_trace (exists_ruled v) ?_ ?_ _, fun events r htrace hruled => ?_⟩
  · exact fun p => (inferInstance : Nonempty (Sig.Ret p)).elim fun r => ⟨r, trivial⟩
  · exact fun p => ⟨none, trivial⟩
  obtain rfl := hresult hmany htrace hruled
  refine ⟨fun candidate => decision_eq_ok, fun candidates' events' r' hperm htrace' hruled' => ?_⟩
  rw [hresult (hperm.length_eq ▸ hmany) htrace' hruled', decision_perm hperm]

def guardedArm : Candidate :=
  ("match", transitionOf "b" "deterministic" [("guards", .array [.object [("kind", "role")]])])

def defaultArm : Candidate :=
  ("otherwise", transitionOf "c" "deterministic" [])

def branchingInstance : WorkflowInstance :=
  ⟨"wf_1", "d", "1", .emptyObject, "a", 0, .emptyObject, .emptyObject, 0, ⟨"/", none, none, none, []⟩, 0, none, none, none⟩

theorem selection_of_arms : 2 ≤ [guardedArm, defaultArm].length ∧
    (∃ events, (selectDeterministicTransition [guardedArm, defaultArm] branchingInstance .anonymous "c").run.Trace events
      (some (.ok guardedArm))) ∧
    ∃ events, (selectDeterministicTransition [guardedArm, defaultArm] branchingInstance .anonymous "c").run.Trace events
      (some (.ok defaultArm)) := by
  have hmany : 2 ≤ [guardedArm, defaultArm].length := by decide
  obtain ⟨⟨events, r, htrace, hruled⟩, hspec⟩ :=
    selectDeterministicTransition_spec (fun _ => true) branchingInstance .anonymous "c" hmany
  obtain ⟨⟨events', r', htrace', hruled'⟩, hspec'⟩ :=
    selectDeterministicTransition_spec (fun _ => false) branchingInstance .anonymous "c" hmany
  have hr : r = .ok guardedArm :=
    ((hspec events r htrace hruled).1 guardedArm).mpr (.inl ⟨[], [defaultArm], rfl, by decide, by decide⟩)
  have hr' : r' = .ok defaultArm :=
    ((hspec' events' r' htrace' hruled').1 defaultArm).mpr
      (.inr ⟨by decide, [guardedArm], [], rfl, by decide, by decide⟩)
  exact ⟨hmany, ⟨events, hr ▸ htrace⟩, events', hr' ▸ htrace'⟩

end Praxec
