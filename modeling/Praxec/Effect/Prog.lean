import Mathlib.Data.List.Basic

namespace Praxec.Effect

/-- What a program may ask of its surroundings: port operations with the type of their answers, and
procedures of the program itself with the type of what they return. -/
structure Signature where
  Op : Type
  Res : Op → Type
  Proc : Type
  Ret : Proc → Type

/-- A program as the tree of its requests. `call` waits for a procedure; `timeout` waits for a
procedure that may be dropped at any of its own requests, and then answers `none`. -/
inductive Prog (S : Signature) (α : Type) : Type where
  | pure (a : α)
  | op (o : S.Op) (k : S.Res o → Prog S α)
  | call (p : S.Proc) (k : S.Ret p → Prog S α)
  | timeout (p : S.Proc) (k : Option (S.Ret p) → Prog S α)

inductive Event (S : Signature) : Type where
  | op (o : S.Op) (r : S.Res o)
  | call (p : S.Proc) (r : S.Ret p)
  | timeout (p : S.Proc) (r : Option (S.Ret p))

def onlyIf {m : Type → Type} [Monad m] (c : Prop) [Decidable c] (x : m Unit) : m Unit :=
  if c then x else pure ()

def forSome {m : Type → Type} [Monad m] (o : Option β) (f : β → m Unit) : m Unit :=
  match o with
  | some b => f b
  | none => pure ()

namespace Prog

def bind : Prog S α → (α → Prog S β) → Prog S β
  | pure a, f => f a
  | op o k, f => op o fun r => (k r).bind f
  | call p k, f => call p fun r => (k r).bind f
  | timeout p k, f => timeout p fun r => (k r).bind f

instance : Monad (Prog S) where
  pure := pure
  bind := bind

def perform (o : S.Op) : Prog S (S.Res o) :=
  op o pure

def invoke (p : S.Proc) : Prog S (S.Ret p) :=
  call p pure

def invokeTimeout (p : S.Proc) : Prog S (Option (S.Ret p)) :=
  timeout p pure

@[simp]
theorem bind_pure_right (x : Prog S α) : x.bind pure = x := by
  induction x with
  | pure a => rfl
  | op o k ih => exact congrArg (op o) (funext ih)
  | call p k ih => exact congrArg (call p) (funext ih)
  | timeout p k ih => exact congrArg (timeout p) (funext ih)

theorem bind_assoc (x : Prog S α) (f : α → Prog S β) (g : β → Prog S γ) :
    (x.bind f).bind g = x.bind fun a => (f a).bind g := by
  induction x with
  | pure a => rfl
  | op o k ih => exact congrArg (op o) (funext ih)
  | call p k ih => exact congrArg (call p) (funext ih)
  | timeout p k ih => exact congrArg (timeout p) (funext ih)

instance : LawfulMonad (Prog S) :=
  LawfulMonad.mk' _ (fun x => bind_pure_right x) (fun _ _ => rfl) bind_assoc

/-- `x.Trace t o`: `x` can answer its requests as in `t`; `o` is its value once it has returned, and
`none` while it still waits. Answers are arbitrary. -/
inductive Trace : Prog S α → List (Event S) → Option α → Prop where
  | pause (x : Prog S α) : Trace x [] none
  | done (a : α) : Trace (pure a) [] (some a)
  | op {o k r t out} : Trace (k r) t out → Trace (op o k) (.op o r :: t) out
  | call {p k r t out} : Trace (k r) t out → Trace (call p k) (.call p r :: t) out
  | timeout {p k r t out} : Trace (k r) t out → Trace (timeout p k) (.timeout p r :: t) out

end Prog

end Praxec.Effect
