import Praxec.Effect.Verified
import Praxec.Runtime.Stages

namespace Praxec

open Json Effect Prog Monitor

abbrev Trail := Proc × History

inductive Drove : ChainOutcome → Event Sig → Prop where
  | call {args : ChainArgs} {outcome : ChainOutcome} :
      Drove outcome (.call (.runDeterministicChain args) (.ok outcome))
  | timeout {args : ChainArgs} {outcome : ChainOutcome} :
      Drove outcome (.timeout (.runDeterministicChain args) (some (.ok outcome)))

inductive DriveFails : Event Sig → Prop where
  | call {args : ChainArgs} {e : Err} : DriveFails (.call (.runDeterministicChain args) (.error e))
  | timeout {args : ChainArgs} {e : Err} : DriveFails (.timeout (.runDeterministicChain args) (some (.error e)))

def Aside : Event Sig → Prop
  | .op (.storeSave ..) (.ok _) | .op (.storeCreate _) (.ok _) | .call (.runDeterministicChain _) _
  | .timeout (.runDeterministicChain _) _ => False
  | _ => True

def Advances : Event Sig → Prop
  | .op (.storeSave (.transition _) _ _) (.ok _) | .call (.runDeterministicChain _) _
  | .timeout (.runDeterministicChain _) _ => True
  | _ => False

def Drives : Event Sig → Prop
  | .call (.runDeterministicChain _) _ | .timeout (.runDeterministicChain _) _ => True
  | _ => False

variable {e : Event Sig}

theorem Drives.advances (he : Drives e) : Advances e := by
  cases e with
  | op o r => exact he.elim
  | call p r | timeout p r => cases p <;> trivial

def Echoes : Event Sig → Prop
  | .op (.storeLoad id) (.ok inst) => inst.id = id
  | .op (.storeSave _ next _) (.ok saved) => saved = next
  | .op (.storeCreate inst) (.ok created) => created = inst
  | _ => True

theorem Aside.not_advances (he : Aside e) : ¬ Advances e := by
  cases e with
  | op o r =>
    cases o with
    | storeSave kind next v =>
      cases r with
      | ok saved => exact he.elim
      | error _ => cases kind <;> exact id
    | _ => exact id
  | call p r | timeout p r =>
    cases p with
    | runDeterministicChain args => exact he.elim
    | _ => exact id

theorem Calm.aside (he : Calm e) : Aside e := by
  cases e with
  | op o r => cases o <;> trivial
  | call p r =>
    cases p with
    | runDeterministicChain args => exact he.elim
    | _ => trivial
  | timeout p r => exact he.elim

variable {outcome : ChainOutcome}

theorem Drove.drives (h : Drove outcome e) : Drives e := by
  cases h <;> trivial

theorem Drove.unique (h : Drove outcome e) (h' : Drove outcome' e) : outcome = outcome' := by
  cases h <;> cases h' <;> rfl

/-- The instance a drive's outcome shows, unless the drive failed on output it had merged and never saved. -/
def ChainOutcome.shown : ChainOutcome → Option WorkflowInstance
  | .failed result _ errorClass _ => if errorClass = "blackboard_type_error" then none else some result.inst
  | outcome => some outcome.progress.inst

variable {i : WorkflowInstance}

theorem ChainOutcome.shown_progress (h : outcome.shown = some i) : outcome.progress.inst = i := by
  cases outcome with
  | failed result error errorClass t =>
    simp only [shown] at h
    split at h
    · cases h
    · exact Option.some.inj h
  | _ => exact Option.some.inj h

def look (known : WorkflowInstance → Prop) : Event Sig → WorkflowInstance → Prop
  | .op (.storeLoad _) (.ok inst) => fun i => i = inst ∨ known i
  | .op (.storeCreate _) (.ok inst) | .op (.storeSave ..) (.ok inst) => fun i => i = inst ∨ i.id ≠ inst.id ∧ known i
  | .call (.runDeterministicChain args) r => fun i =>
      ∃ outcome, Drove outcome (.call (.runDeterministicChain args) r) ∧ outcome.shown = some i
  | .timeout (.runDeterministicChain args) r => fun i =>
      ∃ outcome, Drove outcome (.timeout (.runDeterministicChain args) r) ∧ outcome.shown = some i
  | _ => known

theorem look_aside (he : Aside e) (hi : known i) : look known e i := by
  cases e with
  | op o r =>
    cases o with
    | storeLoad id => cases r <;> first | exact .inr hi | exact hi
    | storeSave kind next v | storeCreate inst =>
      cases r with
      | ok saved => exact he.elim
      | error _ => exact hi
    | _ => exact hi
  | call p r | timeout p r =>
    cases p with
    | runDeterministicChain args => exact he.elim
    | _ => exact hi

namespace Trail

def begins : Proc → WorkflowInstance → Prop
  | .runDeterministicChain args, i => i = args.inst
  | _, _ => False

def Current (g : Trail) : WorkflowInstance → Prop :=
  g.2.foldl look (begins g.1)

def snoc (g : Trail) (e : Event Sig) : Trail :=
  (g.1, g.2 ++ [e])

theorem current_snoc (g : Trail) (e : Event Sig) : (g.snoc e).Current = look g.Current e := by
  simp [Current, snoc]

variable {g : Trail}

theorem current_drove (he : Drove outcome e) (hi : outcome.shown = some i) : (g.snoc e).Current i := by
  rw [current_snoc]
  cases he with
  | call => exact ⟨outcome, .call, hi⟩
  | timeout => exact ⟨outcome, .timeout, hi⟩

def Steady (P : Trail → Prop) : Prop :=
  ∀ g e, Aside e → P g → P (g.snoc e)

def Unmoved (P : Trail → Prop) : Prop :=
  ∀ g e, ¬ Advances e → P g → P (g.snoc e)

def Undriven (P : Trail → Prop) : Prop :=
  ∀ g e, ¬ Drives e → P g → P (g.snoc e)

variable {P : Trail → Prop}

theorem Unmoved.steady (h : Unmoved P) : Steady P :=
  fun g e he => h g e he.not_advances

theorem Undriven.unmoved (h : Undriven P) : Unmoved P :=
  fun g e he => h g e (mt Drives.advances he)

theorem Undriven.steady (h : Undriven P) : Steady P :=
  h.unmoved.steady

theorem Steady.and (hP : Steady P) (hQ : Steady Q) : Steady fun g => P g ∧ Q g :=
  fun g e he hg => ⟨hP g e he hg.1, hQ g e he hg.2⟩

theorem Unmoved.and (hP : Unmoved P) (hQ : Unmoved Q) : Unmoved fun g => P g ∧ Q g :=
  fun g e he hg => ⟨hP g e he hg.1, hQ g e he hg.2⟩

theorem Unmoved.or (hP : Unmoved P) (hQ : Unmoved Q) : Unmoved fun g => P g ∨ Q g :=
  fun g e he => Or.imp (hP g e he) (hQ g e he)

theorem Steady.current (i : WorkflowInstance) : Steady fun g => g.Current i := by
  intro g e he hg
  rw [current_snoc]
  exact look_aside he hg

def Has (g : Trail) (φ : Event Sig → Prop) : Prop :=
  ∃ e ∈ g.2, φ e

variable {φ : Event Sig → Prop}

theorem Has.snoc (h : g.Has φ) (e : Event Sig) : (g.snoc e).Has φ := by
  obtain ⟨x, hx, hφ⟩ := h
  exact ⟨x, List.mem_append_left _ hx, hφ⟩

theorem has_last (he : φ e) : (g.snoc e).Has φ :=
  ⟨e, List.mem_append_right _ (List.mem_singleton.mpr rfl), he⟩

theorem has_snoc : (g.snoc e).Has φ ↔ g.Has φ ∨ φ e := by
  simp [Has, snoc, or_and_right, exists_or]

theorem Undriven.has (φ : Event Sig → Prop) : Undriven fun g => g.Has φ :=
  fun _ e _ h => h.snoc e

end Trail

end Praxec
