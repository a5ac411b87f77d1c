import Praxec.Effect.Monitor

namespace Praxec.Effect

variable {S : Signature} {α γ ε ρ : Type}

inductive Exit (ε ρ : Type) where
  | fail (e : ε)
  | reply (r : ρ)

/-- A stage of a procedure that returns `ρ` and may fail with `ε`. -/
abbrev Stage (S : Signature) (ε ρ α : Type) := ExceptT (Exit ε ρ) (Prog S) α

namespace Stage

def attempt (x : ExceptT ε (Prog S) α) : Stage S ε ρ α :=
  ExceptT.mk (x.run >>= fun r => pure (r.mapError .fail))

def reply (r : ρ) : Stage S ε ρ α :=
  throw (.reply r)

def finish (f : ρ → σ) (x : Stage S ε ρ σ) : ExceptT ε (Prog S) σ :=
  ExceptT.mk (x.run >>= fun r => pure (match r with
    | .ok a => .ok a
    | .error (.fail e) => .error e
    | .error (.reply a) => .ok (f a)))

end Stage

namespace Monitor

variable {m : Monitor S γ}

abbrev wpE (m : Monitor S γ) (x : ExceptT ε (Prog S) α) (post : Except ε α → γ → Prop) (g : γ) : Prop :=
  m.wp x.run post g

theorem wpE_bind (x : ExceptT ε (Prog S) α) (f : α → ExceptT ε (Prog S) β) (post : Except ε β → γ → Prop) (g : γ) :
    m.wpE (x >>= f) post g ↔ m.wpE x (fun r g' => match r with
      | .ok a => m.wpE (f a) post g'
      | .error e => post (.error e) g') g := by
  refine (wp_bind (m := m) x.run (ExceptT.bindCont f) post g).trans ?_
  constructor <;>
  · intro h
    refine wp_mono (fun r g' hr => ?_) h
    cases r <;> exact hr

theorem wpE_lift (x : Prog S α) (post : Except ε α → γ → Prop) (g : γ) :
    m.wpE (liftM x : ExceptT ε (Prog S) α) post g ↔ m.wp x (fun a g' => post (.ok a) g') g :=
  wp_bind x (fun a => pure (Except.ok a)) post g

theorem wpE_attempt (x : ExceptT ε (Prog S) α) (post : Except (Exit ε ρ) α → γ → Prop) (g : γ) :
    m.wpE (Stage.attempt x) post g ↔ m.wpE x (fun r g' => post (r.mapError .fail) g') g :=
  wp_bind x.run (fun r => pure (r.mapError .fail)) post g

theorem wpE_finish (f : ρ → σ) (x : Stage S ε ρ σ) (post : Except ε σ → γ → Prop) (g : γ) :
    m.wpE (Stage.finish f x) post g ↔ m.wpE x (fun r g' => match r with
      | .ok a => post (.ok a) g'
      | .error (.fail e) => post (.error e) g'
      | .error (.reply a) => post (.ok (f a)) g') g := by
  refine (wp_bind (m := m) x.run _ post g).trans ?_
  constructor <;>
  · intro h
    refine wp_mono (fun r g' hr => ?_) h
    rcases r with (_ | _) | _ <;> exact hr

end Monitor

namespace Prog

variable {A : Event S → Prop}

abbrev UsesE (A : Event S → Prop) (x : ExceptT ε (Prog S) α) : Prop :=
  x.run.Uses A

theorem UsesE.bind (hx : UsesE A x) (hf : ∀ a, UsesE A (f a)) : UsesE A (x >>= f) := by
  refine Uses.bind (f := ExceptT.bindCont f) hx fun r => ?_
  cases r with
  | ok a => exact hf a
  | error e => trivial

theorem UsesE.lift {x : Prog S α} (hx : x.Uses A) : UsesE A (liftM x : ExceptT ε (Prog S) α) :=
  Uses.bind hx fun _ => trivial

theorem UsesE.onlyIf [Decidable c] (hx : c → UsesE A x) : UsesE A (Effect.onlyIf c x) := by
  unfold Effect.onlyIf
  split
  · exact hx ‹c›
  · trivial

theorem UsesE.forSome (hf : ∀ b, UsesE A (f b)) : UsesE A (Effect.forSome o f) := by
  cases o with
  | some b => exact hf b
  | none => trivial

theorem UsesE.attempt (hx : UsesE A x) : UsesE A (Stage.attempt x : Stage S ε ρ α) :=
  Uses.bind hx fun _ => trivial

end Prog

end Praxec.Effect
