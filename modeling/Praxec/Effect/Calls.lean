import Praxec.Effect.Verified

namespace Praxec.Effect

variable {S : Signature} {H : Host S} {body : Body S}
  {ok : Machine H → Action H → Machine H → Prop} {m₀ m : Machine H}
  {A : S.Proc × List (Event S) → Event S → Prop}

/-- The monitor that asks of every procedure that it keeps to its footprint, which may grow with what it has had
answered. -/
abbrev Monitor.footprint (A : S.Proc × List (Event S) → Event S → Prop) : Monitor S (S.Proc × List (Event S)) :=
  tracing (fun _ => True) A

def Callable (A : S.Proc × List (Event S) → Event S → Prop) (g : S.Proc × List (Event S)) (q : S.Proc) : Prop :=
  (∃ v, A g (.call q v)) ∨ ∃ v, A g (.timeout q v)

namespace Machine

variable (hbody : ∀ p, (Monitor.footprint A).wp (body p) (fun _ _ => True) (p, []))

include hbody

section

variable (h : Reaches body ok m₀ m) (h₀ : m₀.threads = [])

include h h₀

theorem Reaches.footprints : m.Verified (.footprint A) (fun p => (p, [])) fun _ _ _ => True := by
  have hbodies : (Monitor.footprint A).Verifies (fun p => (p, [])) (fun _ _ _ => True) (fun _ => True) body :=
    ⟨fun p _ => hbody p, fun _ _ _ => trivial, fun _ _ _ => trivial, fun _ _ _ _ _ => trivial,
      fun _ _ _ _ _ => trivial, fun _ _ => trivial⟩
  exact h.verified hbodies (fun _ _ => trivial) (fun _ _ _ _ _ _ => trivial) h₀

theorem Reaches.footprint (ht : t ∈ m.threads)
    (hx : (p, before ++ e :: after) ∈ t.activations) : A (p, before) e := by
  have hmet := (h.footprints hbody h₀ t ht).activations_met hx
  have hd := Monitor.Met.demands_of_split (.footprint A) hmet
  rw [Monitor.after_tracing] at hd
  exact hd

end

omit hbody in
theorem callable_of_enter [∀ p, Nonempty (S.Ret p)] {t t' : Thread S}
    (h : t.Verified (.footprint A) (fun p => (p, [])) fun _ _ _ => True) (he : t.enter body = some t') :
    Callable A (t.proc, t.hist) t'.proc := by
  obtain ⟨p, hist, code, stack⟩ := t
  have hcode := h.code
  cases code with
  | pure _ | op _ _ => cases he
  | call q k =>
    cases he
    obtain ⟨v⟩ := ‹∀ p, Nonempty (S.Ret p)› q
    have hd := (hcode v trivial).1
    rw [Monitor.after_tracing] at hd
    exact .inl ⟨v, hd⟩
  | timeout q k =>
    cases he
    have hd := (hcode none trivial).1
    rw [Monitor.after_tracing] at hd
    exact .inr ⟨none, hd⟩

theorem Reaches.procs [∀ p, Nonempty (S.Ret p)] {R : Machine H → S.Proc → Prop} (h : Reaches body ok m₀ m)
    (h₀ : m₀.threads = [])
    (hcallable : ∀ {m t q}, Reaches body ok m₀ m → t ∈ m.threads → R m t.proc → Callable A (t.proc, t.hist) q → R m q)
    (hspawn : ∀ {m p m'}, m.act body (.spawn p) = some m' → ok m (.spawn p) m' → R m' p)
    (hkept : ∀ {m a m' p}, m.act body a = some m' → ok m a m' → R m p → R m' p) :
    ∀ t ∈ m.threads, ∀ x ∈ t.activations, R m x.1 := by
  refine h.from_reached.invariant (I := fun m => ∀ t ∈ m.threads, ∀ x ∈ t.activations, R m x.1) (by simp [h₀]) ?_
  rintro m m' a hm hact ⟨hreached, -, hok⟩ t ht ⟨p, hist⟩ hx
  have hold {t₀ : Thread S} {i : Nat} (ht₀ : m.threads[i]? = some t₀) {p : S.Proc} {hist : List (Event S)}
      (hy : (p, hist) ∈ t₀.activations) : R m' p :=
    hkept hact hok (hm t₀ (List.mem_of_getElem? ht₀) _ hy)
  obtain ⟨i, hi⟩ := List.mem_iff_getElem?.mp ht
  cases moves hact hi with
  | kept ht₀ _ => exact hold ht₀ hx
  | spawn _ _ =>
    cases List.mem_singleton.mp hx
    exact hspawn hact hok
  | answer ht₀ _ =>
    rcases List.mem_cons.mp hx with hhead | hx
    · cases hhead
      exact hold ht₀ (.head _)
    · exact hold ht₀ (.tail _ hx)
  | enter ht₀ he =>
    have ht₀' := List.mem_of_getElem? ht₀
    have hcalled := callable_of_enter (hreached.footprints hbody h₀ _ ht₀') he
    have hproc := hkept hact hok (hcallable hreached ht₀' (hm _ ht₀' _ (.head _)) hcalled)
    unfold Thread.enter at he
    split at he <;> cases he <;>
    · rcases List.mem_cons.mp hx with hhead | hx
      · cases hhead
        exact hproc
      · exact hold ht₀ hx
  | leave ht₀ hret =>
    cases hret <;>
    · rcases List.mem_cons.mp hx with hhead | hx
      · cases hhead
        exact hold ht₀ (.tail _ (.head _))
      · exact hold ht₀ (.tail _ (.tail _ hx))
  | expire ht₀ he =>
    obtain ⟨q, before, -, hcaller⟩ := Stack.expire_spec he
    rcases List.mem_cons.mp hx with hhead | hx
    · cases hhead
      exact hold ht₀ (.tail _ hcaller)
    · exact hold ht₀ (.tail _ (Stack.activations_of_expire he _ hx))

end Machine

end Praxec.Effect
