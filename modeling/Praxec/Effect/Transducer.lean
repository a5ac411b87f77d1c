import Mathlib.Data.List.Forall2

namespace Praxec.Effect

variable {ι ω : Type}

structure Transducer (ι ω : Type) where
  State : Type
  init : State
  step : State → ι → ω × State

namespace Transducer

def replies (T : Transducer ι ω) : T.State → List ι → List ω
  | _, [] => []
  | s, call :: rest => (T.step s call).1 :: T.replies (T.step s call).2 rest

end Transducer

/-- What a component is for: what it may answer to a call over its contents, what the call leaves there, and which
calls it is there for. -/
structure Service (ι ω : Type) where
  Contents : Type
  empty : Contents
  admits : Contents → ι → Prop
  answers : Contents → ι → ω → Prop
  after : Contents → ι → Contents

namespace Service

variable {V : Service ι ω} {T : Transducer ι ω}

def Admits (V : Service ι ω) : V.Contents → List ι → Prop
  | _, [] => True
  | c, call :: rest => V.admits c call ∧ V.Admits (V.after c call) rest

/-- The component keeps its state in `R` to the contents and gives the service's answers. -/
structure RefinedBy (V : Service ι ω) (T : Transducer ι ω) (R : V.Contents → T.State → Prop) : Prop where
  init : R V.empty T.init
  answers : ∀ {c s call}, R c s → V.admits c call → V.answers c call (T.step s call).1
  step : ∀ {c s call}, R c s → V.admits c call → R (V.after c call) (T.step s call).2

/-- Components of one service whose answers are determined up to `E` give the same replies up to `E`. -/
theorem RefinedBy.replies (hE : ∀ {c call r r'}, V.answers c call r → V.answers c call r' → E r r')
    (hS : V.RefinedBy S P) (hT : V.RefinedBy T Q) (hs : P c s) (ht : Q c t) (hcalls : V.Admits c calls) :
    List.Forall₂ E (S.replies s calls) (T.replies t calls) := by
  induction calls generalizing c s t with
  | nil => exact .nil
  | cons call rest ih =>
    obtain ⟨hcall, hrest⟩ := hcalls
    exact .cons (hE (hS.answers hs hcall) (hT.answers ht hcall)) (ih (hS.step hs hcall) (hT.step ht hcall) hrest)

end Service

end Praxec.Effect
