import Praxec.Effect.Stage

namespace Praxec.Effect

variable {S : Signature} {α γ ε ρ : Type}

namespace Monitor

variable (m : Monitor S γ)

/-- From `P`, every allowed run of `x` meets its demands and returns in `Q`. -/
def Returns (P : γ → Prop) (x : Prog S α) (Q : α → γ → Prop) : Prop :=
  ∀ g, P g → m.wp x Q g

/-- From `P`, every allowed run of `x` meets its demands and returns in `Q`, or throws in `B`. -/
def Triple (P : γ → Prop) (x : ExceptT ε (Prog S) α) (Q : α → γ → Prop) (B : ε → γ → Prop) : Prop :=
  m.Returns P x.run fun r g => match r with
    | .ok a => Q a g
    | .error e => B e g

def Keeps (P : γ → Prop) (e : Event S) : Prop :=
  ∀ g, P g → m.allows g e → m.demands g e ∧ P (m.next g e)

/-- The monitor that remembers every event: `A` is assumed of each, and `D` owed after those before it. -/
def history (A : Event S → Prop) (D : List (Event S) → Event S → Prop) : Monitor S (List (Event S)) :=
  ⟨fun h e => h ++ [e], fun _ => A, D⟩

theorem after_history (h t : List (Event S)) : (history A D).after h t = h ++ t := by
  induction t generalizing h with
  | nil => simp
  | cons e t ih =>
    rw [after_cons, ih]
    exact List.append_assoc h [e] t

def Stable (P : List (Event S) → Prop) : Prop :=
  ∀ h e, P h → P (h ++ [e])

theorem Stable.const (φ : Prop) : Stable (S := S) fun _ => φ :=
  fun _ _ => id

theorem Stable.and (hP : Stable P) (hP' : Stable P') : Stable fun h => P h ∧ P' h :=
  fun h e hh => ⟨hP h e hh.1, hP' h e hh.2⟩

theorem Stable.keeps (hP : Stable P) (hD : ∀ h, P h → A e → D h e) : (history A D).Keeps P e :=
  fun h hh ha => ⟨hD h hh ha, hP h e hh⟩

theorem wp_and {F : γ → Prop} (hF : ∀ g e, F g → F (m.next g e)) {x : Prog S α} {post : α → γ → Prop} {g : γ}
    (hg : F g) (hx : m.wp x post g) : m.wp x (fun a g' => F g' ∧ post a g') g := by
  induction x generalizing g with
  | pure a => exact ⟨hg, hx⟩
  | op o k ih | call p k ih | timeout p k ih =>
    intro r hr
    obtain ⟨hd, hk⟩ := hx r hr
    exact ⟨hd, ih r (hF g _ hg) hk⟩

variable {m} {P : γ → Prop} {Q : α → γ → Prop}

namespace Returns

theorem pure (h : ∀ g, P g → Q a g) : m.Returns P (Pure.pure a) Q :=
  h

theorem bind (hx : m.Returns P x Q) (hf : ∀ a, m.Returns (Q a) (f a) R) : m.Returns P (x >>= f) R :=
  fun g hg => (wp_bind x f R g).mpr (wp_mono (fun a g' ha => hf a g' ha) (hx g hg))

theorem perform {o : S.Op} {Q : S.Res o → γ → Prop}
    (h : ∀ g r, P g → m.allows g (.op o r) → m.demands g (.op o r) ∧ Q r (m.next g (.op o r))) :
    m.Returns P (Prog.perform o) Q :=
  fun g hg r hr => h g r hg hr

theorem invoke {p : S.Proc} {Q : S.Ret p → γ → Prop}
    (h : ∀ g r, P g → m.allows g (.call p r) → m.demands g (.call p r) ∧ Q r (m.next g (.call p r))) :
    m.Returns P (Prog.invoke p) Q :=
  fun g hg r hr => h g r hg hr

theorem conseq (hx : m.Returns P x Q) (hP : ∀ g, P' g → P g) (hQ : ∀ a g, Q a g → Q' a g) : m.Returns P' x Q' :=
  fun g hg => wp_mono hQ (hx g (hP g hg))

theorem mono (hx : m.Returns P x Q) (hQ : ∀ a g, Q a g → Q' a g) : m.Returns P x Q' :=
  hx.conseq (fun _ => id) hQ

theorem of_uses (hx : x.Uses (m.Keeps P)) : m.Returns P x fun _ => P := by
  induction x with
  | pure a => exact fun _ => id
  | op o k ih | call p k ih | timeout p k ih =>
    intro g hg r hr
    obtain ⟨hd, hn⟩ := (hx r).1 g hg hr
    exact ⟨hd, ih r (hx r).2 _ hn⟩

theorem onlyIf [Decidable c] (hx : c → m.Returns P x fun _ => P) : m.Returns P (Effect.onlyIf c x) fun _ => P := by
  unfold Effect.onlyIf
  split
  · exact hx ‹c›
  · exact fun _ => id

end Returns

namespace Triple

variable {B : ε → γ → Prop}

theorem pure (h : ∀ g, P g → Q a g) : m.Triple P (Pure.pure a : ExceptT ε (Prog S) α) Q B :=
  h

theorem throw (h : ∀ g, P g → B e g) : m.Triple P (MonadExcept.throw e : ExceptT ε (Prog S) α) Q B :=
  h

theorem bind (hx : m.Triple P x Q B) (hf : ∀ a, m.Triple (Q a) (f a) R B) : m.Triple P (x >>= f) R B := by
  intro g hg
  refine (wpE_bind x f _ g).mpr (wp_mono (fun r g' hr => ?_) (hx g hg))
  cases r with
  | ok a => exact hf a g' hr
  | error e => exact hr

theorem lift (hx : m.Returns P x Q) : m.Triple P (liftM x : ExceptT ε (Prog S) α) Q B :=
  fun g hg => (wpE_lift x _ g).mpr (hx g hg)

theorem compute {r : Except ε α} {f : α → ExceptT ε (Prog S) β} (hB : ∀ e, r = .error e → ∀ g, P g → B e g)
    (hf : ∀ a, r = .ok a → m.Triple P (f a) R B) : m.Triple P (ExceptT.mk (Pure.pure r) >>= f) R B := by
  cases r with
  | ok a => exact hf a rfl
  | error e => exact hB e rfl

theorem conseq (hx : m.Triple P x Q B) (hP : ∀ g, P' g → P g)
    (hQ : ∀ a g, Q a g → Q' a g) (hB : ∀ e g, B e g → B' e g) : m.Triple P' x Q' B' := by
  refine Returns.conseq hx hP fun r g hr => ?_
  cases r with
  | ok a => exact hQ a g hr
  | error e => exact hB e g hr

theorem mono (hx : m.Triple P x Q B) (hQ : ∀ a g, Q a g → Q' a g) : m.Triple P x Q' B :=
  hx.conseq (fun _ => id) hQ fun _ _ => id

theorem pre (hx : m.Triple P x Q B) (hP : ∀ g, P' g → P g) : m.Triple P' x Q B :=
  hx.conseq hP (fun _ _ => id) fun _ _ => id

theorem failing (hx : m.Triple P x Q B) (hB : ∀ e g, B e g → B' e g) : m.Triple P x Q B' :=
  hx.conseq (fun _ => id) (fun _ _ => id) hB

theorem of_uses (hx : Prog.UsesE (m.Keeps P) x) (hB : ∀ e g, P g → B e g) : m.Triple P x (fun _ => P) B := by
  refine (Returns.of_uses hx).mono fun r g hg => ?_
  cases r with
  | ok a => exact hg
  | error e => exact hB e g hg

theorem onlyIf [Decidable c]
    (hx : c → m.Triple P x (fun _ => P) B) : m.Triple P (Effect.onlyIf c x) (fun _ => P) B := by
  unfold Effect.onlyIf
  split
  · exact hx ‹c›
  · exact fun _ => id

theorem exitIf [Decidable c] (hx : c → m.Triple P x (fun _ _ => False) B) :
    m.Triple P (Effect.onlyIf c x) (fun _ g => ¬c ∧ P g) B := by
  unfold Effect.onlyIf
  split
  · exact (hx ‹c›).mono fun _ _ => False.elim
  · exact fun _ hg => ⟨‹¬c›, hg⟩

theorem assume (hx : φ → m.Triple P x Q B) : m.Triple (fun g => φ ∧ P g) x Q B :=
  fun g hg => hx hg.1 g hg.2

theorem known (hx : φ → m.Triple (fun _ => True) x Q B) : m.Triple (fun _ => φ) x Q B :=
  fun g hg => hx hg g trivial

theorem forSome (hf : ∀ b, o = some b → m.Triple P (f b) (fun _ => P) B) :
    m.Triple P (Effect.forSome o f) (fun _ => P) B := by
  cases o with
  | some b => exact hf b rfl
  | none => exact fun _ => id

theorem frame {F : γ → Prop} (hF : ∀ g e, F g → F (m.next g e)) {x : ExceptT ε (Prog S) α}
    (hx : m.Triple P x Q B) : m.Triple (fun g => F g ∧ P g) x (fun a g => F g ∧ Q a g) B := by
  intro g hg
  refine wp_mono (fun r g' hr => ?_) (m.wp_and hF hg.1 (hx g hg.2))
  cases r with
  | ok a => exact hr
  | error e => exact hr.2

theorem run (hx : m.Triple P x Q B) : m.Returns P x.run fun r g => match r with
      | .ok a => Q a g
      | .error e => B e g :=
  hx

section

variable {B : Exit ε ρ → γ → Prop}

theorem reply (h : ∀ g, P g → B (.reply r) g) : m.Triple P (Stage.reply r : Stage S ε ρ α) Q B :=
  h

theorem attempt (hx : m.Triple P x Q fun e => B (.fail e)) : m.Triple P (Stage.attempt x : Stage S ε ρ α) Q B := by
  intro g hg
  refine (wpE_attempt x _ g).mpr (wp_mono (fun r g' hr => ?_) (hx g hg))
  cases r <;> exact hr

theorem finish (hx : m.Triple P x Q B) :
    m.Triple P (Stage.finish f x) (fun s g => Q s g ∨ ∃ r, s = f r ∧ B (.reply r) g) fun e => B (.fail e) := by
  intro g hg
  refine (wpE_finish f x _ g).mpr (wp_mono (fun r g' hr => ?_) (hx g hg))
  rcases r with (_ | r) | a
  · exact hr
  · exact .inr ⟨r, rfl, hr⟩
  · exact .inl hr

theorem computeStage {r : Except ε α} {f : α → Stage S ε ρ β}
    (hB : ∀ e, r = .error e → ∀ g, P g → B (.fail e) g) (hf : ∀ a, r = .ok a → m.Triple P (f a) R B) :
    m.Triple P (Stage.attempt (ExceptT.mk (Pure.pure r)) >>= f) R B := by
  cases r with
  | ok a => exact hf a rfl
  | error e => exact hB e rfl

end

end Triple

end Monitor

end Praxec.Effect
