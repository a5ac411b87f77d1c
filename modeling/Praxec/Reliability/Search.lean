import Mathlib.Data.List.Chain
import Praxec.Runtime.Minor
import Praxec.World

namespace Praxec

open Json Effect Prog Monitor List Nat

def executorKind (config : Value) : String :=
  ((config.get "kind").bind Value.asStr).getD ""

structure ExecCall where
  candidate : Nat
  attempt : Nat
  outcome : Execution

def executions (events : History) : List (ExecuteRequest × Execution) :=
  events.filterMap fun
    | .op (.executeEnd _ request) r => some (request, r)
    | _ => none

namespace ReliableSearch

inductive Attempts (retry : RetryPolicy) (candidate : Nat) :
    Nat → Nat → List ExecCall → Execution → Prop
  | succeeded {left attempt : Nat} {r : ExecuteResult} :
      Attempts retry candidate left attempt [⟨candidate, attempt, .ok r⟩] (.ok r)
  | exhausted {attempt : Nat} {err : ExecutorError} :
      Attempts retry candidate 0 attempt [⟨candidate, attempt, .error err⟩] (.error err)
  | refused {left attempt : Nat} {err : ExecutorError} (h : retry.retryable err.errorClass = false) :
      Attempts retry candidate (left + 1) attempt [⟨candidate, attempt, .error err⟩] (.error err)
  | again {left attempt : Nat} {err : ExecutorError} {calls : List ExecCall} {out : Execution}
      (h : retry.retryable err.errorClass = true) (hrest : Attempts retry candidate left (attempt + 1) calls out) :
      Attempts retry candidate (left + 1) attempt (⟨candidate, attempt, .error err⟩ :: calls) out

inductive Tries (registered : String → Bool) (retry : RetryPolicy) (candidates : List Value) :
    Nat → ExecutorError → List ExecCall → Execution → Prop
  | none {candidate : Nat} {last : ExecutorError} (h : candidates.length ≤ candidate) :
      Tries registered retry candidates candidate last [] (.error last)
  | skip {candidate : Nat} {last : ExecutorError} {config : Value} {calls : List ExecCall}
      {out : Execution} (h : candidates[candidate]? = some config)
      (hkind : registered (executorKind config) = false)
      (hrest : Tries registered retry candidates (candidate + 1) (.permanent (unregistered (executorKind config))) calls out) :
      Tries registered retry candidates candidate last calls out
  | done {candidate : Nat} {last : ExecutorError} {config : Value} {calls : List ExecCall} {r : ExecuteResult}
      (h : candidates[candidate]? = some config) (hkind : registered (executorKind config) = true)
      (hcalls : Attempts retry candidate (retry.maxAttempts - 1) 1 calls (.ok r)) :
      Tries registered retry candidates candidate last calls (.ok r)
  | next {candidate : Nat} {last err : ExecutorError} {config : Value} {calls rest : List ExecCall}
      {out : Execution} (h : candidates[candidate]? = some config)
      (hkind : registered (executorKind config) = true)
      (hcalls : Attempts retry candidate (retry.maxAttempts - 1) 1 calls (.error err))
      (hrest : Tries registered retry candidates (candidate + 1) err rest out) :
      Tries registered retry candidates candidate last (calls ++ rest) out

section

abbrev mon : Monitor Sig History :=
  .history (fun _ => True) fun _ _ => True

variable {registered : String → Bool} {log : List (ExecuteRequest × Execution)}

theorem keeps_quiet (e : Event Sig) (h : Quiet e) : mon.Keeps (fun events => executions events = log) e := by
  intro events hevents _
  refine ⟨trivial, ?_⟩
  change executions (events ++ [e]) = log
  rw [executions, filterMap_append]
  cases e with
  | op o r => cases o <;> first | exact (append_nil _).trans hevents | exact nomatch h
  | call p r | timeout p r => exact (append_nil _).trans hevents

theorem record_returns :
    mon.Returns (fun events => executions events = log) (recordOrWarn event) fun _ events => executions events = log :=
  .of_uses (recordOrWarn_uses.mono keeps_quiet)

theorem execute_returns : mon.Returns (fun events => executions events = log) (execute site request)
    fun r events => executions events = log ++ [(request, r)] := by
  have hbegin : mon.Returns (fun events => executions events = log)
      (Prog.perform (S := Sig) (.executeBegin site request)) fun _ events => executions events = log := by
    refine .perform fun events r hevents _ => ⟨trivial, ?_⟩
    change executions (events ++ [_]) = log
    rw [executions, filterMap_append]
    exact (append_nil _).trans hevents
  refine hbegin.bind fun _ => .perform fun events r hevents _ => ⟨trivial, ?_⟩
  change executions (events ++ [_]) = log ++ [_]
  rw [executions, filterMap_append]
  exact congrArg (· ++ [_]) hevents

def entry (job : ExecJob) (candidates : List Value) (call : ExecCall) :
    ExecuteRequest × Execution :=
  (job.request (candidates[call.candidate]?.getD .null), call.outcome)

variable {candidates rest : List Value}

theorem attemptCandidate_calls (hconfig : candidates[candidate]? = some config) :
    mon.Returns (fun events => executions events = log) (attemptCandidate job config kind candidate left attempt)
    fun out events => ∃ calls, Attempts job.retry candidate left attempt calls out ∧
    executions events = log ++ calls.map (entry job candidates) := by
  have hone (out) : [(job.request config, out)] = [⟨candidate, attempt, out⟩].map (entry job candidates) := by
    simp [entry, hconfig]
  induction left generalizing attempt log with
  | zero =>
    unfold attemptCandidate
    refine record_returns.bind fun _ => execute_returns.bind fun result => ?_
    rw [hone]
    cases result with
    | ok r => exact record_returns.bind fun _ => .pure fun _ hg => ⟨_, .succeeded, hg⟩
    | error err => exact record_returns.bind fun _ => .pure fun _ hg => ⟨_, .exhausted, hg⟩
  | succ left ih =>
    unfold attemptCandidate
    refine record_returns.bind fun _ => execute_returns.bind fun result => ?_
    cases result with
    | ok r =>
      rw [hone]
      exact record_returns.bind fun _ => .pure fun _ hg => ⟨_, .succeeded, hg⟩
    | error err =>
      dsimp only
      split
      case isTrue hretry =>
        refine record_returns.bind fun _ => (ih fun out => by simp [entry, hconfig]).mono ?_
        rintro out events ⟨calls, hcalls, hlog⟩
        refine ⟨_, .again hretry hcalls, ?_⟩
        rw [hlog, hone, append_assoc]
        rfl
      case isFalse hretry =>
        rw [hone]
        exact record_returns.bind fun _ => .pure fun _ hg => ⟨_, .refused (by simpa using hretry), hg⟩

theorem tryCandidates_calls (hrest : candidates.drop candidate = rest) :
    mon.Returns (fun events => executions events = log) (tryCandidates registered job rest candidate last)
    fun out events => ∃ calls, Tries registered job.retry candidates candidate last calls out ∧
    executions events = log ++ calls.map (entry job candidates) := by
  induction rest generalizing candidate last log with
  | nil =>
    refine .pure fun events hevents => ⟨[], .none (drop_eq_nil_iff.mp hrest), ?_⟩
    rw [hevents, map_nil, append_nil]
  | cons config rest ih =>
    have hconfig : candidates[candidate]? = some config := by
      rw [← head?_drop, hrest, head?_cons]
    have hdrop : candidates.drop (candidate + 1) = rest := by
      rw [← tail_drop, hrest, tail_cons]
    refine (Returns.onlyIf fun _ => record_returns).bind fun _ => ?_
    split
    case isTrue hkind =>
      refine (attemptCandidate_calls hconfig).bind fun result => ?_
      intro events
      rintro ⟨calls, hcalls, hlog⟩
      cases result with
      | ok r => exact ⟨calls, .done hconfig hkind hcalls, hlog⟩
      | error err =>
        refine wp_mono ?_ (ih hdrop events hlog)
        rintro out events ⟨more, hmore, hlog⟩
        refine ⟨calls ++ more, .next hconfig hkind hcalls hmore, ?_⟩
        rw [hlog, map_append, append_assoc]
    case isFalse hkind =>
      refine (ih hdrop).mono ?_
      rintro out events ⟨calls, hcalls, hlog⟩
      exact ⟨calls, .skip hconfig (by simpa [executorKind] using hkind) hcalls, hlog⟩

end

section

variable (registered : String → Bool) (retry : RetryPolicy) (candidates : List Value)

def Retried (x : ExecCall) : Prop :=
  ∃ err, x.outcome = .error err ∧ retry.retryable err.errorClass = true ∧ x.attempt < max 1 retry.maxAttempts

def Spent (x : ExecCall) : Prop :=
  ∃ err, x.outcome = .error err ∧ (retry.retryable err.errorClass = false ∨ x.attempt = max 1 retry.maxAttempts)

def Skipped (first bound : Nat) : Prop :=
  ∀ k config, first ≤ k → k < bound → candidates[k]? = some config → registered (executorKind config) = false

def Follows (x y : ExecCall) : Prop :=
  (y.candidate = x.candidate ∧ y.attempt = x.attempt + 1 ∧ Retried retry x) ∨
  (x.candidate < y.candidate ∧ y.attempt = 1 ∧ Spent retry x ∧
    Skipped registered candidates (x.candidate + 1) y.candidate)

def Earlier (x y : ExecCall) : Prop :=
  x.candidate < y.candidate ∨ (x.candidate = y.candidate ∧ x.attempt < y.attempt)

instance : IsTrans ExecCall Earlier where
  trans x y z := by
    unfold Earlier
    omega

variable {registered retry candidates}

theorem Follows.earlier (h : Follows registered retry candidates x y) : Earlier x y := by
  obtain ⟨hcandidate, hattempt, -⟩ | ⟨hcandidate, -⟩ := h
  · exact .inr ⟨hcandidate.symm, by omega⟩
  · exact .inl hcandidate

namespace Attempts

variable {candidate left attempt : Nat} {calls : List ExecCall} {out : Execution}

theorem head (h : Attempts retry candidate left attempt calls out) :
    ∃ x rest, calls = x :: rest ∧ x.candidate = candidate ∧ x.attempt = attempt := by
  cases h <;> exact ⟨_, _, rfl, rfl, rfl⟩

theorem candidate_eq (h : Attempts retry candidate left attempt calls out) :
    ∀ x ∈ calls, x.candidate = candidate := by
  induction h with
  | succeeded | exhausted | refused => simp
  | again _ _ ih => simpa using ih

theorem length_le (h : Attempts retry candidate left attempt calls out) : calls.length ≤ left + 1 := by
  induction h with
  | succeeded | exhausted | refused => simp
  | again _ _ ih => simpa using ih

theorem first_ok (h : Attempts retry candidate left attempt calls out) :
    calls.findSome? (fun x => x.outcome.toOption) = out.toOption := by
  induction h with
  | succeeded | exhausted | refused => rfl
  | again _ _ ih => exact ih

theorem isChain (h : Attempts retry candidate left attempt calls out)
    (hleft : attempt + left = max 1 retry.maxAttempts) : calls.IsChain (Follows registered retry candidates) := by
  induction h with
  | succeeded | exhausted | refused => exact .singleton _
  | again hretry hrest ih =>
    obtain ⟨x, rest, rfl, hcandidate, hattempt⟩ := hrest.head
    refine .cons_cons (.inl ⟨hcandidate, hattempt, _, rfl, hretry, ?_⟩) (ih (by omega))
    dsimp only
    omega

theorem last_spent (h : Attempts retry candidate left attempt calls (.error err))
    (hleft : attempt + left = max 1 retry.maxAttempts) :
    ∃ x, calls.getLast? = some x ∧ x.outcome = .error err ∧ Spent retry x := by
  generalize hout : Except.error err = out at h
  induction h with
  | succeeded => cases hout
  | exhausted =>
    cases hout
    exact ⟨_, rfl, rfl, err, rfl, .inr hleft⟩
  | refused hretry =>
    cases hout
    exact ⟨_, rfl, rfl, err, rfl, .inl hretry⟩
  | again _ _ ih =>
    obtain ⟨x, hlast, hx⟩ := ih (by omega) hout
    exact ⟨x, by rw [getLast?_cons, hlast]; rfl, hx⟩

end Attempts

theorem Skipped.cons (hconfig : candidates[candidate]? = some config)
    (hkind : registered (executorKind config) = false) (h : Skipped registered candidates (candidate + 1) bound) :
    Skipped registered candidates candidate bound := by
  intro k other hk hbound hother
  obtain rfl | hk := eq_or_lt_of_le hk
  · rw [hconfig] at hother
    cases hother
    exact hkind
  · exact h k other hk hbound hother

/-- What the candidates from number `candidate` on contribute to a search. -/
structure From (registered : String → Bool) (retry : RetryPolicy) (candidates : List Value) (candidate : Nat)
    (last : ExecutorError) (calls : List ExecCall) (out : Execution) : Prop where
  configured : ∀ x ∈ calls, ∃ config, candidates[x.candidate]? = some config ∧ registered (executorKind config) = true
  first : ∀ x ∈ calls.head?, candidate ≤ x.candidate ∧ x.attempt = 1 ∧ Skipped registered candidates candidate x.candidate
  next : calls.IsChain (Follows registered retry candidates)
  bounded : calls.length ≤ (candidates.length - candidate) * max 1 retry.maxAttempts
  first_ok : calls.findSome? (fun x => x.outcome.toOption) = out.toOption
  exhausted : ∀ err, out = .error err → ∀ x ∈ calls.getLast?,
    Spent retry x ∧ Skipped registered candidates (x.candidate + 1) candidates.length
  none_called : ∀ err, out = .error err → calls = [] → Skipped registered candidates candidate candidates.length
  past_end : ∀ err, out = .error err → candidates.length ≤ candidate → calls = [] ∧ err = last
  error_of_last : ∀ err, out = .error err → candidate < candidates.length → ∀ config ∈ candidates.getLast?,
    if registered (executorKind config) = true then calls.getLast?.map (·.outcome) = some (.error err)
    else err = .permanent (unregistered (executorKind config))

namespace Tries

variable {candidate : Nat} {last err : ExecutorError} {config : Value} {calls rest : List ExecCall}
  {out : Execution}

theorem getLast?_eq (hconfig : candidates[candidate]? = some config) (h : candidates.length ≤ candidate + 1) :
    candidates.getLast? = some config := by
  obtain ⟨hlt, -⟩ := List.getElem?_eq_some_iff.mp hconfig
  rw [getLast?_eq_getElem?, ← hconfig]
  congr 1
  omega

theorem from_none (h : candidates.length ≤ candidate) :
    From registered retry candidates candidate last [] (.error last) where
  configured := by simp
  first := by simp
  next := .nil
  bounded := zero_le _
  first_ok := rfl
  exhausted := by simp
  none_called := fun _ _ _ k _ hk hlt => by omega
  past_end := fun _ hout _ => ⟨rfl, by cases hout; rfl⟩
  error_of_last := fun _ _ hlt => by omega

theorem from_skip (hconfig : candidates[candidate]? = some config) (hkind : registered (executorKind config) = false)
    (h : From registered retry candidates (candidate + 1) (.permanent (unregistered (executorKind config))) calls out) :
    From registered retry candidates candidate last calls out := by
  obtain ⟨hlt, -⟩ := List.getElem?_eq_some_iff.mp hconfig
  refine { h with
    first := ?_
    bounded := le_trans h.bounded (mul_le_mul_right _ (by omega))
    none_called := fun err hout hcalls => (h.none_called err hout hcalls).cons hconfig hkind
    past_end := fun _ _ hle => by omega
    error_of_last := ?_ }
  · intro x hx
    obtain ⟨hle, hattempt, hskipped⟩ := h.first x hx
    exact ⟨by omega, hattempt, hskipped.cons hconfig hkind⟩
  · intro err hout _ other hother
    by_cases hmore : candidate + 1 < candidates.length
    · exact h.error_of_last err hout hmore other hother
    · obtain ⟨-, rfl⟩ := h.past_end err hout (by omega)
      rw [getLast?_eq hconfig (by omega)] at hother
      cases hother
      rw [if_neg (by simp [hkind])]

theorem from_done (hconfig : candidates[candidate]? = some config) (hkind : registered (executorKind config))
    (hcalls : Attempts retry candidate (retry.maxAttempts - 1) 1 calls (.ok r)) :
    From registered retry candidates candidate last calls (.ok r) := by
  obtain ⟨hlt, -⟩ := List.getElem?_eq_some_iff.mp hconfig
  refine {
      configured := fun x hx => ⟨config, hcalls.candidate_eq x hx ▸ hconfig, hkind⟩
      first := ?_
      next := hcalls.isChain (by omega)
      bounded := ?_
      first_ok := hcalls.first_ok
      exhausted := nofun
      none_called := nofun
      past_end := nofun
      error_of_last := nofun }
  · obtain ⟨x, rest, rfl, rfl, hattempt⟩ := hcalls.head
    rintro _ ⟨⟩
    exact ⟨le_refl _, hattempt, fun k _ hk hbound => by omega⟩
  · calc calls.length
      _ ≤ 1 * max 1 retry.maxAttempts := by have := hcalls.length_le; omega
      _ ≤ (candidates.length - candidate) * max 1 retry.maxAttempts := mul_le_mul_right _ (by omega)

theorem from_next (hconfig : candidates[candidate]? = some config) (hkind : registered (executorKind config))
    (hcalls : Attempts retry candidate (retry.maxAttempts - 1) 1 calls (.error err))
    (h : From registered retry candidates (candidate + 1) err rest out) :
    From registered retry candidates candidate last (calls ++ rest) out := by
  obtain ⟨hlt, -⟩ := List.getElem?_eq_some_iff.mp hconfig
  obtain ⟨x, hx, houtcome, hspent⟩ := hcalls.last_spent (by omega)
  have hcandidate : x.candidate = candidate := hcalls.candidate_eq x (mem_of_getLast? hx)
  refine {
      configured := ?_
      first := ?_
      next := isChain_append.mpr ⟨hcalls.isChain (by omega), h.next, ?_⟩
      bounded := ?_
      first_ok := ?_
      exhausted := ?_
      none_called := ?_
      past_end := fun _ _ hle => by omega
      error_of_last := ?_ }
  · intro y hy
    obtain hy | hy := mem_append.mp hy
    · exact ⟨config, hcalls.candidate_eq y hy ▸ hconfig, hkind⟩
    · exact h.configured y hy
  · obtain ⟨y, more, rfl, rfl, hattempt⟩ := hcalls.head
    rintro _ ⟨⟩
    exact ⟨le_refl _, hattempt, fun k _ hk hbound => by omega⟩
  · intro x' hx' y hy
    obtain rfl : x = x' := Option.some.inj (hx.symm.trans hx')
    obtain ⟨hle, hattempt, hskipped⟩ := h.first y hy
    rw [← hcandidate] at hle hskipped
    exact .inr ⟨by omega, hattempt, hspent, hskipped⟩
  · calc (calls ++ rest).length
      _ = calls.length + rest.length := length_append
      _ ≤ max 1 retry.maxAttempts + (candidates.length - (candidate + 1)) * max 1 retry.maxAttempts :=
        Nat.add_le_add (by have := hcalls.length_le; omega) h.bounded
      _ = (candidates.length - (candidate + 1) + 1) * max 1 retry.maxAttempts := by rw [Nat.add_mul]; omega
      _ = (candidates.length - candidate) * max 1 retry.maxAttempts := by congr 1; omega
  · rw [findSome?_append, hcalls.first_ok, h.first_ok]
    rfl
  · intro e hout y hy
    rw [getLast?_append] at hy
    cases hrest : rest.getLast? with
    | some z =>
      rw [hrest] at hy
      cases hy
      exact h.exhausted e hout y hrest
    | none =>
      rw [hrest, hx] at hy
      cases hy
      rw [hcandidate]
      exact ⟨hspent, h.none_called e hout (getLast?_eq_none_iff.mp hrest)⟩
  · intro _ _ hnil
    rw [(append_eq_nil_iff.mp hnil).1] at hx
    cases hx
  · intro e hout _ other hother
    by_cases hmore : candidate + 1 < candidates.length
    · have herror := h.error_of_last e hout hmore other hother
      split at herror
      case isTrue hregistered =>
        obtain ⟨y, hy, hfailed⟩ := Option.map_eq_some_iff.mp herror
        rw [if_pos hregistered, getLast?_append, hy]
        exact congrArg some hfailed
      case isFalse hregistered => rwa [if_neg hregistered]
    · obtain ⟨rfl, rfl⟩ := h.past_end e hout (by omega)
      rw [getLast?_eq hconfig (by omega)] at hother
      cases hother
      rw [if_pos hkind, append_nil, hx]
      exact congrArg some houtcome

theorem from_tries (h : Tries registered retry candidates candidate last calls out) :
    From registered retry candidates candidate last calls out := by
  induction h with
  | none h => exact from_none h
  | skip hconfig hkind _ ih => exact from_skip hconfig hkind ih
  | done hconfig hkind hcalls => exact from_done hconfig hkind hcalls
  | next hconfig hkind hcalls _ ih => exact from_next hconfig hkind hcalls ih

end Tries

end

end ReliableSearch

open ReliableSearch

/-- The calls search the candidates' outcomes for the first success: a candidate is tried again after a retryable
error only, those without an executor are passed over, and a search that finds nothing ends with the last candidate's
error. -/
structure ReliableSearch (registered : String → Bool) (retry : RetryPolicy) (candidates : List Value)
    (calls : List ExecCall) (out : Execution) : Prop where
  configured : ∀ x ∈ calls, ∃ config, candidates[x.candidate]? = some config ∧ registered (executorKind config) = true
  first : ∀ x ∈ calls.head?, x.attempt = 1 ∧ Skipped registered candidates 0 x.candidate
  ordered : calls.Pairwise Earlier
  next : calls.IsChain (ReliableSearch.Follows registered retry candidates)
  bounded : calls.length ≤ candidates.length * max 1 retry.maxAttempts
  first_ok : calls.findSome? (fun x => x.outcome.toOption) = out.toOption
  exhausted : ∀ err, out = .error err → ∀ x ∈ calls.getLast?,
    Spent retry x ∧ Skipped registered candidates (x.candidate + 1) candidates.length
  none_called : ∀ err, out = .error err → calls = [] → Skipped registered candidates 0 candidates.length
  error_of_last : ∀ err, out = .error err → ∀ config ∈ candidates.getLast?,
    if registered (executorKind config) = true then calls.getLast?.map (·.outcome) = some (.error err)
    else err = .permanent (unregistered (executorKind config))

section

variable (registered : String → Bool) (site : ExecSite) (inst : WorkflowInstance) (transition : Option String)
  (arguments primary : Value) (policy : ReliabilityPolicy) (correlationId : String)

def candidateRequest (candidate : Nat) : ExecuteRequest :=
  ⟨inst, transition, arguments, (policy.candidates primary)[candidate]?.getD .null,
    computeIdempotencyKey primary inst transition correlationId, some correlationId⟩

/-- Every reliable execution searches its candidates in order, in at most the calls the policy grants. -/
theorem executeWithReliability_searches {events : History} {out : Except ExecutorError ExecuteResult}
    (h : (executeWithReliability registered site inst transition arguments primary policy correlationId).Trace events
      (some out)) :
    ∃ calls : List ExecCall, executions events = calls.map (fun x =>
        (candidateRequest inst transition arguments primary policy correlationId x.candidate, x.outcome)) ∧
      calls.length ≤ (1 + policy.fallbackExecutors.length) * max 1 policy.retryPolicy.maxAttempts ∧
      ReliableSearch registered policy.retryPolicy (policy.candidates primary) calls out := by
  let job : ExecJob := ⟨site, inst, transition, arguments,
    computeIdempotencyKey primary inst transition correlationId, correlationId, policy.retryPolicy⟩
  have hcalls : mon.Returns (fun events => executions events = [])
      (tryCandidates registered job (policy.candidates primary) 0 (.permanent "no executor candidates")) _ :=
    tryCandidates_calls drop_zero
  obtain ⟨calls, htries, hlog⟩ :=
    (mon.wp_sound (hcalls [] rfl) h (mon.allowed_of_forall (fun _ _ _ => trivial) [])).2 out rfl
  rw [after_history] at hlog
  have hfrom := htries.from_tries
  have hbound : calls.length ≤ (policy.candidates primary).length * max 1 policy.retryPolicy.maxAttempts := hfrom.bounded
  refine ⟨calls, hlog, ?_, ?_⟩
  · rwa [ReliabilityPolicy.candidates, length_cons, add_comm] at hbound
  · exact { hfrom with
        first := fun x hx => (hfrom.first x hx).2
        ordered := (hfrom.next.imp fun _ _ => ReliableSearch.Follows.earlier).pairwise
        error_of_last := fun err hout => hfrom.error_of_last err hout (succ_pos _) }

end

def reliableInstance : WorkflowInstance :=
  ⟨"wf_1", "d", "1", .emptyObject, "a", 0, .emptyObject, .emptyObject, 0, ⟨"/", none, none, none, []⟩, 0, none, none, none⟩

def reliableRun (registered : String → Bool) : Run Execution :=
  executeWithReliability registered .onEnter reliableInstance none .emptyObject (.object [("kind", "a")])
    ⟨none, some ⟨2, .none, 0, none, ["timeout"]⟩, some ("first_success", [.object [("kind", "b")]])⟩ "c"

def reliableFailure (errorClass : ErrorClass) : Input :=
  .executed (.error ⟨errorClass, "failed", none⟩)

theorem unregistered_fallback_error : ∃ (registered : String → Bool) (events : History) (err : ExecutorError),
    (reliableRun registered).Trace events (some (.error err)) ∧
    (executions events).map Prod.snd = [.error ⟨.permanent, "failed", none⟩] ∧
    err = .permanent "executor kind 'b' is not registered" ∧
    (executions events).getLast?.map Prod.snd ≠ some (.error err) := by
  obtain ⟨events, out, htrace, h⟩ := Prog.exists_trace_of_play (H := gateway)
    (x := reliableRun (· == "a")) (Gateway.boot []).world [.auto, .auto, reliableFailure .permanent, .auto, .auto]
    (P := fun events out => decide ((executions events).map Prod.snd = [.error ⟨.permanent, "failed", none⟩] ∧
      out = .error (.permanent "executor kind 'b' is not registered"))) (by decide +kernel)
  obtain ⟨hcalls, rfl⟩ := of_decide_eq_true h
  refine ⟨_, events, _, htrace, hcalls, rfl, ?_⟩
  rw [← getLast?_map, hcalls]
  decide

theorem fallback_searched_after_retry : ∃ (events : History) (out : Except ExecutorError ExecuteResult)
    (calls : List ExecCall), (reliableRun fun _ => true).Trace events (some out) ∧
    (executions events).map Prod.snd =
      [.error ⟨.timeout, "failed", none⟩, .error ⟨.permanent, "failed", none⟩, .ok ⟨.emptyObject, [], none, none, none⟩] ∧
    (executions events).map Prod.snd = calls.map (·.outcome) ∧ calls.length ≤ 4 ∧
    ReliableSearch (fun _ => true) ⟨2, .none, 0, none, ["timeout"]⟩
      [.object [("kind", "a")], .object [("kind", "b")]] calls out := by
  obtain ⟨events, out, htrace, h⟩ := Prog.exists_trace_of_play (H := gateway)
    (x := reliableRun fun _ => true) (Gateway.boot []).world
    [.auto, .auto, reliableFailure .timeout, .auto, .auto, .auto, reliableFailure .permanent, .auto, .auto, .auto, .auto,
      .executed (.ok ⟨.emptyObject, [], none, none, none⟩), .auto]
    (P := fun events _ => decide ((executions events).map Prod.snd =
      [.error ⟨.timeout, "failed", none⟩, .error ⟨.permanent, "failed", none⟩, .ok ⟨.emptyObject, [], none, none, none⟩]))
    (by decide +kernel)
  obtain ⟨calls, hcalls, hbound, hsearch⟩ := executeWithReliability_searches _ _ _ _ _ _ _ _ htrace
  refine ⟨events, out, calls, htrace, of_decide_eq_true h, ?_, hbound, hsearch⟩
  rw [hcalls, map_map]
  rfl

end Praxec
