import Praxec.Effect.Prog

namespace Praxec.Effect

variable {S : Signature} {α γ : Type}

/-- A monitor follows the answered requests of one program. `allows` is what the surroundings are
assumed to answer, `demands` what the program owes; both may depend on the monitor's state. -/
structure Monitor (S : Signature) (γ : Type) where
  next : γ → Event S → γ
  allows : γ → Event S → Prop
  demands : γ → Event S → Prop

namespace Monitor

variable (m : Monitor S γ)

def after (g : γ) (t : List (Event S)) : γ :=
  t.foldl m.next g

def Allowed (g : γ) : List (Event S) → Prop
  | [] => True
  | e :: t => m.allows g e ∧ Allowed (m.next g e) t

def Met (g : γ) : List (Event S) → Prop
  | [] => True
  | e :: t => m.demands g e ∧ Met (m.next g e) t

@[simp]
theorem after_nil (g : γ) : m.after g [] = g :=
  rfl

@[simp]
theorem after_cons (g : γ) (e : Event S) (t : List (Event S)) : m.after g (e :: t) = m.after (m.next g e) t :=
  rfl

theorem after_append (g : γ) (t u : List (Event S)) : m.after g (t ++ u) = m.after (m.after g t) u :=
  List.foldl_append

theorem met_append : m.Met g (t ++ u) ↔ m.Met g t ∧ m.Met (m.after g t) u := by
  induction t generalizing g with
  | nil => simp [Met]
  | cons e t ih => simp [Met, ih, and_assoc]

theorem allowed_of_forall (h : ∀ e ∈ t, ∀ g, m.allows g e) (g : γ) : m.Allowed g t := by
  induction t generalizing g with
  | nil => trivial
  | cons e t ih =>
    obtain ⟨he, ht⟩ := List.forall_mem_cons.mp h
    exact ⟨he g, ih ht _⟩

theorem Met.demands_of_split (h : m.Met g (t ++ e :: u)) : m.demands (m.after g t) e :=
  ((m.met_append).mp h).2.1

/-- The weakest condition on the monitor's state under which every allowed answer keeps the program
within its demands and leads to the postcondition. -/
def wp : Prog S α → (α → γ → Prop) → γ → Prop
  | .pure a, post, g => post a g
  | .op o k, post, g => ∀ r, m.allows g (.op o r) →
      m.demands g (.op o r) ∧ wp (k r) post (m.next g (.op o r))
  | .call p k, post, g => ∀ r, m.allows g (.call p r) →
      m.demands g (.call p r) ∧ wp (k r) post (m.next g (.call p r))
  | .timeout p k, post, g => ∀ r, m.allows g (.timeout p r) →
      m.demands g (.timeout p r) ∧ wp (k r) post (m.next g (.timeout p r))

variable {m}

theorem wp_mono (h : ∀ a g, post a g → post' a g) (hx : m.wp x post g) : m.wp x post' g := by
  induction x generalizing g with
  | pure a => exact h a g hx
  | op o k ih => exact fun r hr => ⟨(hx r hr).1, ih r (hx r hr).2⟩
  | call p k ih => exact fun r hr => ⟨(hx r hr).1, ih r (hx r hr).2⟩
  | timeout p k ih => exact fun r hr => ⟨(hx r hr).1, ih r (hx r hr).2⟩

theorem wp_bind (x : Prog S α) (f : α → Prog S β) (post : β → γ → Prop) (g : γ) :
    m.wp (x >>= f) post g ↔ m.wp x (fun a g' => m.wp (f a) post g') g := by
  induction x generalizing g with
  | pure a => exact Iff.rfl
  | op o k ih => exact forall_congr' fun r => imp_congr_right fun _ => and_congr_right fun _ => ih r _
  | call p k ih => exact forall_congr' fun r => imp_congr_right fun _ => and_congr_right fun _ => ih r _
  | timeout p k ih =>
    exact forall_congr' fun r => imp_congr_right fun _ => and_congr_right fun _ => ih r _

theorem wp_sound (hx : m.wp x post g) (ht : x.Trace t out) (ha : m.Allowed g t) :
    m.Met g t ∧ ∀ a, out = some a → post a (m.after g t) := by
  induction ht generalizing g with
  | pause x => exact ⟨trivial, nofun⟩
  | done a => exact ⟨trivial, fun b hb => by cases hb; exact hx⟩
  | op _ ih | call _ ih | timeout _ ih =>
    obtain ⟨hd, hk⟩ := hx _ ha.1
    obtain ⟨hmet, hpost⟩ := ih hk ha.2
    exact ⟨⟨hd, hmet⟩, hpost⟩

end Monitor

/-- Every request of `x`, whatever the answers, lies in `A`. -/
def Prog.Uses (A : Event S → Prop) : Prog S α → Prop
  | .pure _ => True
  | .op o k => ∀ r, A (.op o r) ∧ (k r).Uses A
  | .call p k => ∀ r, A (.call p r) ∧ (k r).Uses A
  | .timeout p k => ∀ r, A (.timeout p r) ∧ (k r).Uses A

namespace Prog

variable {A : Event S → Prop}

theorem Uses.bind {x : Prog S α} {f : α → Prog S β} (hx : x.Uses A) (hf : ∀ a, (f a).Uses A) :
    (x >>= f).Uses A := by
  induction x with
  | pure a => exact hf a
  | op o k ih | call p k ih | timeout p k ih => exact fun r => ⟨(hx r).1, ih r (hx r).2⟩

theorem Uses.perform (h : ∀ r, A (.op o r)) : (Prog.perform o).Uses A :=
  fun r => ⟨h r, trivial⟩

theorem Uses.onlyIf {c : Prop} [Decidable c] {x : Prog S Unit} (hx : c → x.Uses A) :
    (Effect.onlyIf c x).Uses A := by
  unfold Effect.onlyIf
  split
  · exact hx ‹c›
  · trivial

theorem Uses.mono {B : Event S → Prop} (hAB : ∀ e, A e → B e) {x : Prog S α} (hx : x.Uses A) : x.Uses B := by
  induction x with
  | pure a => trivial
  | op o k ih | call p k ih | timeout p k ih => exact fun r => ⟨hAB _ (hx r).1, ih r (hx r).2⟩

theorem Uses.all (hA : ∀ e, A e) (x : Prog S α) : x.Uses A := by
  induction x with
  | pure a => trivial
  | op o k ih | call p k ih | timeout p k ih => exact fun r => ⟨hA _, ih r⟩

end Prog

end Praxec.Effect
