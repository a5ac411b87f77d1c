import Praxec.Effect.Verified

namespace Praxec.Effect

open Bool

variable {S : Signature} {φ : S.Proc → Bool}

def Event.callee : Event S → Option S.Proc
  | .op _ _ => none
  | .call p _ | .timeout p _ => some p

namespace Stack

def atRoot {p : S.Proc} : Stack S p → Bool
  | .root _ => true
  | _ => false

def base {p : S.Proc} (hist : List (Event S)) : Stack S p → S.Proc × List (Event S)
  | .root p => (p, hist)
  | .call hist' _ rest | .timeout hist' _ rest => rest.base hist'

def owns (φ : S.Proc → Bool) {p : S.Proc} : Stack S p → Bool
  | .root _ => true
  | .call _ _ rest | .timeout _ _ rest => φ p && rest.atRoot

/-- The procedure in `φ` that the activation a task was started with has entered, or else that activation. -/
def own (φ : S.Proc → Bool) {p : S.Proc} (hist : List (Event S)) : Stack S p → S.Proc × List (Event S)
  | .root p => (p, hist)
  | .call hist' _ rest | .timeout hist' _ rest => if φ p && rest.atRoot then (p, hist) else rest.own φ hist'

variable {p : S.Proc} {hist : List (Event S)} {stack : Stack S p}

theorem own_of_owns (h : stack.owns φ) : stack.own φ hist = (p, hist) := by
  cases stack with
  | root => rfl
  | call _ _ _ | timeout _ _ _ => exact if_pos h

theorem own_eq_of_not_owns (h : stack.owns φ = false) (hist' : List (Event S)) :
    stack.own φ hist = stack.own φ hist' := by
  cases stack with
  | root => cases h
  | call _ _ _ | timeout _ _ _ =>
    have hnot : ¬ (_ && _) := eq_false_iff.mp h
    exact (if_neg hnot).trans (if_neg hnot).symm

theorem owns_of_atRoot (h : stack.atRoot) : stack.owns φ := by
  cases stack with
  | root => rfl
  | call _ _ _ | timeout _ _ _ => cases h

theorem base_of_atRoot (h : stack.atRoot) : stack.base hist = (p, hist) := by
  cases stack with
  | root => rfl
  | call _ _ _ | timeout _ _ _ => cases h

theorem base_append (e : Event S) : stack.base (hist ++ [e]) = stack.base hist ∨
    stack.base (hist ++ [e]) = ((stack.base hist).1, (stack.base hist).2 ++ [e]) := by
  cases stack with
  | root => exact .inr rfl
  | call _ _ _ | timeout _ _ _ => exact .inl rfl

theorem base_append_of_not_owns (h : stack.owns φ = false) (e : Event S) : stack.base (hist ++ [e]) = stack.base hist := by
  cases stack with
  | root => cases h
  | call _ _ _ | timeout _ _ _ => rfl

theorem own_mem : stack.own φ hist ∈ (p, hist) :: stack.activations := by
  induction stack generalizing hist with
  | root => exact .head _
  | call hist' _ rest ih | timeout hist' _ rest ih =>
    unfold own
    split
    · exact .head _
    · exact .tail _ ih

theorem owned (h : stack.owns φ) (hnot : stack.atRoot = false) : φ p := by
  cases stack with
  | root => cases hnot
  | call _ _ _ | timeout _ _ _ => exact (and_eq_true_iff.mp h).1

end Stack

namespace Thread

def base (t : Thread S) : S.Proc × List (Event S) :=
  t.stack.base t.hist

def own (φ : S.Proc → Bool) (t : Thread S) : S.Proc × List (Event S) :=
  t.stack.own φ t.hist

def owns (φ : S.Proc → Bool) (t : Thread S) : Bool :=
  t.stack.owns φ

theorem own_mem (t : Thread S) : t.own φ ∈ t.activations :=
  Stack.own_mem

end Thread

/-- What an event that is appended to some activation of a task does to the one it was started with and to its own;
`last` is what the procedure that the event reports had had answered. -/
inductive Hears (φ : S.Proc → Bool) (e : Event S) (last : List (Event S)) (own base own' base' : S.Proc × List (Event S)) :
    Prop where
  | inner (hown : own' = own) (hbase : base' = base)
  | event (hown : own' = (own.1, own.2 ++ [e])) (hcallee : ∀ p, e.callee = some p → φ p = true → φ own.1 = true)
      (hbase : base' = base ∨ base' = (base.1, base.2 ++ [e]))
  | left {p : S.Proc} (hcallee : e.callee = some p) (hp : φ p = true) (hlast : own = (p, last))
      (hown : own' = (base.1, base.2 ++ [e])) (hbase : base' = (base.1, base.2 ++ [e]))

section

variable {p : S.Proc} {hist last : List (Event S)} {stack : Stack S p} {e : Event S}

theorem hears_append (hcallee : ∀ q, e.callee = some q → φ q → stack.atRoot = false) :
    Hears φ e last (stack.own φ hist) (stack.base hist) (stack.own φ (hist ++ [e])) (stack.base (hist ++ [e])) := by
  cases howns : stack.owns φ with
  | false => exact .inner (Stack.own_eq_of_not_owns howns _) (Stack.base_append_of_not_owns howns e)
  | true =>
    rw [Stack.own_of_owns howns, Stack.own_of_owns howns]
    exact .event rfl (fun q hq hφ => Stack.owned howns (hcallee q hq hφ)) (Stack.base_append e)

theorem hears_return (he : e.callee = some q) :
    Hears φ e last (if φ q && stack.atRoot then (q, last) else stack.own φ hist) (stack.base hist)
    (stack.own φ (hist ++ [e])) (stack.base (hist ++ [e])) := by
  cases hleft : φ q && stack.atRoot with
  | false =>
    refine hears_append fun q' hq' hφ => ?_
    cases he.symm.trans hq'
    simpa [hφ] using hleft
  | true =>
    obtain ⟨hφ, hroot⟩ := and_eq_true_iff.mp hleft
    have hown : stack.own φ (hist ++ [e]) = (p, hist ++ [e]) := Stack.own_of_owns (Stack.owns_of_atRoot hroot)
    rw [hown, Stack.base_of_atRoot hroot, Stack.base_of_atRoot hroot]
    exact .left he hφ rfl rfl rfl

theorem Thread.hears_leave {t t' : Thread S} {q : S.Proc} {hist : List (Event S)} (h : t.Returned t' q hist e) :
    Hears φ e t.hist (t.own φ) t.base (t'.own φ) t'.base := by
  cases h with
  | call | timeout => exact hears_return rfl

theorem Stack.hears_expire (h : stack.expire n = some t') (hist₀ : List (Event S)) :
    ∃ q last, Hears φ (.timeout q none) last (stack.own φ hist₀) (stack.base hist₀) (t'.own φ) t'.base := by
  -- What is above a timeout that passes is not at the root, so its own call is that of the rest.
  have hpass {p q : S.Proc} {rest : Stack S q} {hist hist₀ : List (Event S)} {n : Nat} (h : rest.expire n = some t') :
      (if φ p && rest.atRoot then (p, hist₀) else rest.own φ hist) = rest.own φ hist := by
    cases rest with
    | root => cases h
    | call _ _ _ | timeout _ _ _ => exact if_neg (by simp [atRoot])
  induction stack generalizing n hist₀ with
  | root => cases h
  | call hist k rest ih =>
    have h : rest.expire n = some t' := h
    obtain ⟨q, last, hhears⟩ := ih h hist
    refine ⟨q, last, ?_⟩
    rw [own, hpass h]
    exact hhears
  | timeout hist k rest ih =>
    cases n with
    | zero =>
      cases h
      exact ⟨_, _, hears_return rfl⟩
    | succ n =>
      have h : rest.expire n = some t' := h
      obtain ⟨q, last, hhears⟩ := ih h hist
      refine ⟨q, last, ?_⟩
      rw [own, hpass h]
      exact hhears

theorem Thread.own_enter {body : Body S} {t t' : Thread S} (h : t.enter body = some t') :
    t'.base = t.base ∧ (t'.own φ = t.own φ ∨ t.stack.atRoot ∧ φ t'.proc ∧ t'.own φ = (t'.proc, [])) := by
  unfold enter at h
  split at h <;> cases h <;>
  · refine ⟨rfl, ?_⟩
    rename_i q k stack
    cases hnew : φ q && stack.atRoot with
    | false => exact .inl (if_neg (by simp [hnew]))
    | true =>
      obtain ⟨hφ, hroot⟩ := and_eq_true_iff.mp hnew
      exact .inr ⟨hroot, hφ, if_pos hnew⟩

end

end Praxec.Effect
