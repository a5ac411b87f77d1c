import Praxec.Effect.Machine
import Praxec.Effect.Triple

namespace Praxec.Effect

open Option

variable {S : Signature} {γ : Type} (mon : Monitor S γ) (init : S.Proc → γ)
  (fin : (p : S.Proc) → S.Ret p → γ → Prop)

/-- Every procedure is verified under a precondition that every call of it meets, and callers assume no
more of a call than that. -/
structure Monitor.Verifies (pre : S.Proc → Prop) (body : Body S) : Prop where
  body : ∀ p, pre p → mon.wp (body p) (fin p) (init p)
  call : ∀ g p, (∀ v, mon.allows g (.call p v) → mon.demands g (.call p v)) → pre p
  timeout : ∀ g p, (∀ v, mon.allows g (.timeout p v) → mon.demands g (.timeout p v)) → pre p
  called : ∀ g g' p v, fin p v g' → mon.allows g (.call p v)
  timed : ∀ g g' p v, fin p v g' → mon.allows g (.timeout p (some v))
  cut : ∀ g p, mon.allows g (.timeout p none)

/-- Every suspended caller has met its demands so far and will go on to, whatever its callee
returns, and returns in `fin`. -/
def Stack.Verified {p : S.Proc} : Stack S p → Prop
  | .root _ => True
  | .call (q := q) hist k rest => mon.Met (init q) hist ∧ (∀ v, mon.allows (mon.after (init q) hist) (.call p v) →
      mon.demands (mon.after (init q) hist) (.call p v) ∧
        mon.wp (k v) (fin q) (mon.after (init q) (hist ++ [.call p v]))) ∧ rest.Verified
  | .timeout (q := q) hist k rest => mon.Met (init q) hist ∧
      (∀ v, mon.allows (mon.after (init q) hist) (.timeout p v) →
        mon.demands (mon.after (init q) hist) (.timeout p v) ∧
          mon.wp (k v) (fin q) (mon.after (init q) (hist ++ [.timeout p v]))) ∧ rest.Verified

structure Thread.Verified (t : Thread S) : Prop where
  met : mon.Met (init t.proc) t.hist
  code : mon.wp t.code (fin t.proc) (mon.after (init t.proc) t.hist)
  stack : t.stack.Verified mon init fin

variable {mon init fin}

theorem Monitor.met_snoc (hm : mon.Met g hist) (hd : mon.demands (mon.after g hist) e) : mon.Met g (hist ++ [e]) :=
  mon.met_append.mpr ⟨hm, hd, trivial⟩

theorem Monitor.after_snoc : mon.after g (hist ++ [e]) = mon.next (mon.after g hist) e :=
  mon.after_append g hist [e]

theorem Stack.Verified.met {stack : Stack S p} (h : stack.Verified mon init fin)
    (ha : a ∈ stack.activations) : mon.Met (init a.1) a.2 := by
  induction stack with
  | root => simp [activations] at ha
  | call hist k rest ih | timeout hist k rest ih =>
    rcases List.mem_cons.mp ha with rfl | ha
    · exact h.1
    · exact ih h.2.2 ha

namespace Thread.Verified

theorem activations_met {t : Thread S} (h : t.Verified mon init fin) {a : S.Proc × List (Event S)}
    (ha : a ∈ t.activations) : mon.Met (init a.1) a.2 := by
  rcases List.mem_cons.mp ha with rfl | ha
  · exact h.met
  · exact h.stack.met ha

theorem start {body : Body S} {p : S.Proc}
    (h : mon.wp (body p) (fin p) (init p)) : (Thread.start body p).Verified mon init fin :=
  ⟨trivial, h, trivial⟩

theorem answer {p : S.Proc} {hist : List (Event S)} {o : S.Op} {k : S.Res o → Prog S (S.Ret p)}
    {stack : Stack S p} {r : S.Res o} (h : Thread.Verified mon init fin ⟨p, hist, .op o k, stack⟩)
    (ha : mon.allows (mon.after (init p) hist) (.op o r)) :
    Thread.Verified mon init fin ⟨p, hist ++ [.op o r], k r, stack⟩ := by
  obtain ⟨hd, hk⟩ := h.code r ha
  exact ⟨Monitor.met_snoc h.met hd, Monitor.after_snoc ▸ hk, h.stack⟩

theorem enter {pre : S.Proc → Prop} {body : Body S}
    (hbody : mon.Verifies init fin pre body) {t t' : Thread S} (h : t.Verified mon init fin)
    (he : t.enter body = some t') : t'.Verified mon init fin := by
  obtain ⟨p, hist, code, stack⟩ := t
  have hcode := h.code
  cases code with
  | pure _ | op _ _ => simp [Thread.enter] at he
  | call q k =>
    cases he
    refine ⟨trivial, hbody.body q (hbody.call _ q fun v hv => (hcode v hv).1), h.met, fun v hv => ?_, h.stack⟩
    exact ⟨(hcode v hv).1, Monitor.after_snoc ▸ (hcode v hv).2⟩
  | timeout q k =>
    cases he
    refine ⟨trivial, hbody.body q (hbody.timeout _ q fun v hv => (hcode v hv).1), h.met, fun v hv => ?_, h.stack⟩
    exact ⟨(hcode v hv).1, Monitor.after_snoc ▸ (hcode v hv).2⟩

end Thread.Verified

inductive Thread.Returned : Thread S → Thread S → S.Proc → List (Event S) → Event S → Prop where
  | call {p q hist v k rest hist₀} : Returned ⟨p, hist₀, .pure v, .call hist k rest⟩
      ⟨q, hist ++ [.call p v], k v, rest⟩ q hist (.call p v)
  | timeout {p q hist v k rest hist₀} : Returned ⟨p, hist₀, .pure v, .timeout hist k rest⟩
      ⟨q, hist ++ [.timeout p (some v)], k (some v), rest⟩ q hist (.timeout p (some v))

theorem Thread.returned_of_leave {t t' : Thread S} (h : t.leave = some t') :
    ∃ q hist e, t.Returned t' q hist e := by
  obtain ⟨p, hist₀, code, stack⟩ := t
  cases code with
  | op _ _ | call _ _ | timeout _ _ => simp [Thread.leave] at h
  | pure v =>
    cases stack with
    | root => simp [Thread.leave] at h
    | call hist k rest => cases h; exact ⟨_, _, _, .call⟩
    | timeout hist k rest => cases h; exact ⟨_, _, _, .timeout⟩

theorem Thread.Verified.returned {p : S.Proc} {hist : List (Event S)} {v : S.Ret p} {stack : Stack S p}
    (h : Thread.Verified mon init fin ⟨p, hist, .pure v, stack⟩) : fin p v (mon.after (init p) hist) :=
  h.code

theorem Thread.Verified.leave {t t' : Thread S} {q : S.Proc} {hist : List (Event S)} {e : Event S}
    (h : t.Verified mon init fin) (hl : t.Returned t' q hist e)
    (ha : mon.allows (mon.after (init q) hist) e) : t'.Verified mon init fin := by
  cases hl with
  | call | timeout =>
    obtain ⟨hmet, hk, hrest⟩ := h.stack
    obtain ⟨hd, hwp⟩ := hk _ ha
    exact ⟨Monitor.met_snoc hmet hd, hwp, hrest⟩

theorem Stack.expire_spec {p : S.Proc} {stack : Stack S p} {n : Nat} {t' : Thread S}
    (he : stack.expire n = some t') :
    ∃ q hist, t'.hist = hist ++ [.timeout q none] ∧ (t'.proc, hist) ∈ stack.activations := by
  induction stack generalizing n with
  | root => simp [expire] at he
  | call hist k rest ih =>
    obtain ⟨q, hist, h, hmem⟩ := ih he
    exact ⟨q, hist, h, .tail _ hmem⟩
  | timeout hist k rest ih =>
    cases n with
    | zero => cases he; exact ⟨_, hist, rfl, .head _⟩
    | succ n =>
      obtain ⟨q, hist, h, hmem⟩ := ih he
      exact ⟨q, hist, h, .tail _ hmem⟩

theorem Stack.activations_of_expire {stack : Stack S p}
    (he : stack.expire n = some t') : ∀ x ∈ t'.stack.activations, x ∈ stack.activations := by
  induction stack generalizing n with
  | root => simp [expire] at he
  | call hist k rest ih => exact fun x hx => .tail _ (ih he x hx)
  | timeout hist k rest ih =>
    cases n with
    | zero => cases he; exact fun x hx => .tail _ hx
    | succ n => exact fun x hx => .tail _ (ih he x hx)

theorem Stack.Verified.expire {p q : S.Proc} {stack : Stack S p} {n : Nat} {t' : Thread S}
    {hist : List (Event S)} (h : stack.Verified mon init fin) (he : stack.expire n = some t')
    (hist_eq : t'.hist = hist ++ [.timeout q none])
    (ha : mon.allows (mon.after (init t'.proc) hist) (.timeout q none)) : t'.Verified mon init fin := by
  induction stack generalizing n with
  | root => simp [Stack.expire] at he
  | call hist₀ k rest ih => exact ih h.2.2 he
  | timeout hist₀ k rest ih =>
    cases n with
    | succ n => exact ih h.2.2 he
    | zero =>
      cases he
      obtain ⟨rfl, hlast⟩ := List.append_inj' hist_eq rfl
      cases hlast
      obtain ⟨hmet, hk, hrest⟩ := h
      obtain ⟨hd, hwp⟩ := hk _ ha
      exact ⟨Monitor.met_snoc hmet hd, hwp, hrest⟩

namespace Machine

variable {H : Host S}

/-- The step appends `e` to an activation of `p` that has had `hist` answered. -/
inductive Appends (m : Machine H) : Action H → S.Proc → List (Event S) → Event S → Prop where
  | answer {i input p hist o k stack r w} (ht : m.threads[i]? = some ⟨p, hist, .op o k, stack⟩)
      (hr : H.handle m.world o input = some (r, w)) : Appends m (.answer i input) p hist (.op o r)
  | leave {i t t' p hist e} (ht : m.threads[i]? = some t) (hl : t.Returned t' p hist e) :
      Appends m (.leave i) p hist e
  | expire {i n t t' q hist} (ht : m.threads[i]? = some t) (he : t.stack.expire n = some t')
      (hist_eq : t'.hist = hist ++ [.timeout q none]) :
      Appends m (.expire i n) t'.proc hist (.timeout q none)

def pending (m : Machine H) : Action H → Option S.Op
  | .answer i _ => m.threads[i]?.bind fun t => match t.code with
      | .op o _ => some o
      | _ => none
  | _ => none

theorem Appends.pending {m : Machine H} {a : Action H} {p : S.Proc} {hist : List (Event S)} {o : S.Op}
    {r : S.Res o} (h : m.Appends a p hist (.op o r)) : m.pending a = some o := by
  cases h with
  | answer ht hr => simp [Machine.pending, ht]
  | leave ht hl => cases hl

theorem Appends.handled {body : Body S} {m m' : Machine H} {a : Action H} {p : S.Proc}
    {hist : List (Event S)} {o : S.Op} {r : S.Res o} (h : m.Appends a p hist (.op o r))
    (hact : m.act body a = some m') : ∃ input, H.handle m.world o input = some (r, m'.world) := by
  cases h with
  | answer ht hr =>
    simp only [act, ht, bind_some, answerThread, hr, map_some, Option.some.injEq] at hact
    subst hact
    exact ⟨_, hr⟩
  | leave ht hl => cases hl

theorem Appends.mem {body : Body S} {m m' : Machine H} {a : Action H} {p : S.Proc}
    {hist : List (Event S)} {e : Event S} (h : m.Appends a p hist e) (hact : m.act body a = some m') :
    ∃ t ∈ m'.threads, (p, hist ++ [e]) ∈ t.activations := by
  have hset {i : Nat} {t t' : Thread S} (ht : m.threads[i]? = some t) : t' ∈ m.threads.set i t' := by
    obtain ⟨hlt, -⟩ := List.getElem?_eq_some_iff.mp ht
    exact List.mem_set hlt t'
  cases h with
  | answer ht hr =>
    simp only [act, ht, bind_some, answerThread, hr, map_some, Option.some.injEq] at hact
    subst hact
    exact ⟨_, hset ht, .head _⟩
  | leave ht hl =>
    cases hl <;>
    · simp only [act, ht, bind_some, Thread.leave, map_some, Option.some.injEq] at hact
      subst hact
      exact ⟨_, hset ht, .head _⟩
  | expire ht he hist_eq =>
    simp only [act, ht, bind_some, he, map_some, Option.some.injEq] at hact
    subst hact
    exact ⟨_, hset ht, hist_eq ▸ .head _⟩

/-- What a step does to task `i`, which it leaves as given. -/
inductive Moves (body : Body S) (m m' : Machine H) (i : Nat) : Action H → Thread S → Prop where
  | kept {a t} (ht : m.threads[i]? = some t) (ha : a.task ≠ some i) : Moves body m m' i a t
  | spawn {p} (hp : H.entry p = true) (hi : i = m.threads.length) : Moves body m m' i (.spawn p) (Thread.start body p)
  | answer {input p hist o k stack r} (ht : m.threads[i]? = some ⟨p, hist, .op o k, stack⟩)
      (hr : H.handle m.world o input = some (r, m'.world)) :
      Moves body m m' i (.answer i input) ⟨p, hist ++ [.op o r], k r, stack⟩
  | enter {t t'} (ht : m.threads[i]? = some t) (he : t.enter body = some t') : Moves body m m' i (.enter i) t'
  | leave {t t' p hist e} (ht : m.threads[i]? = some t) (hl : t.Returned t' p hist e) : Moves body m m' i (.leave i) t'
  | expire {n t t'} (ht : m.threads[i]? = some t) (he : t.stack.expire n = some t') :
      Moves body m m' i (.expire i n) t'

theorem moves {body : Body S} {m m' : Machine H} {a : Action H} {i : Nat} {t : Thread S}
    (hact : m.act body a = some m') (ht : m'.threads[i]? = some t) : Moves body m m' i a t := by
  have hset {j : Nat} {t₀ t' : Thread S} (hj : m.threads[j]? = some t₀) (hget : (m.threads.set j t')[i]? = some t)
      (htask : a.task = some j) (hnew : Moves body m m' j a t') : Moves body m m' i a t := by
    by_cases hij : i = j
    · subst hij
      obtain ⟨hlt, -⟩ := List.getElem?_eq_some_iff.mp hj
      rw [List.getElem?_set_self hlt] at hget
      cases hget
      exact hnew
    · rw [List.getElem?_set_ne (Ne.symm hij)] at hget
      exact .kept hget (by simpa [htask] using Ne.symm hij)
  cases act_cases hact with
  | spawn hp =>
    rw [List.getElem?_append] at ht
    split at ht
    · exact .kept ht (by simp [Action.task])
    · rw [List.getElem?_singleton] at ht
      obtain ⟨hzero, hstart⟩ := ite_none_right_eq_some.mp ht
      cases hstart
      exact .spawn hp (by omega)
  | answer hj hr => exact hset hj ht rfl (.answer hj hr)
  | enter hj he => exact hset hj ht rfl (.enter hj he)
  | leave hj hleave =>
    obtain ⟨q, hist, e, hret⟩ := Thread.returned_of_leave hleave
    exact hset hj ht rfl (.leave hj hret)
  | expire hj he => exact hset hj ht rfl (.expire hj he)
  | outside _ => exact .kept ht (by simp [Action.task])
  | restart => cases ht

theorem length_of_act {body : Body S} {m m' : Machine H} {a : Action H}
    (hact : m.act body a = some m') (ha : a ≠ .restart) : m.threads.length ≤ m'.threads.length := by
  cases act_cases hact with
  | spawn _ => simp
  | answer _ _ => simp
  | enter _ _ | leave _ _ | expire _ _ => simp [setThread]
  | outside _ => exact Nat.le_refl _
  | restart => exact absurd rfl ha

theorem last_of_step {body : Body S} {m m' : Machine H} {a : Action H} {t : Thread S}
    {e : Event S} (hact : m.act body a = some m') (hmem : t ∈ m'.threads) (hlast : t.hist.getLast? = some e) :
    t ∈ m.threads ∨ ∃ p hist, m.Appends a p hist e := by
  obtain ⟨i, hi⟩ := List.mem_iff_getElem?.mp hmem
  cases moves hact hi with
  | kept ht _ => exact .inl (List.mem_of_getElem? ht)
  | spawn _ _ => cases hlast
  | answer ht hr =>
    rw [List.getLast?_concat] at hlast
    cases hlast
    exact .inr ⟨_, _, .answer ht hr⟩
  | enter _ he =>
    unfold Thread.enter at he
    split at he <;> cases he <;> cases hlast
  | leave ht hret =>
    have happ := Appends.leave ht hret
    cases hret <;>
    · rw [List.getLast?_concat] at hlast
      cases hlast
      exact .inr ⟨_, _, happ⟩
  | expire ht he =>
    obtain ⟨q, hist, heq, -⟩ := Stack.expire_spec he
    rw [heq, List.getLast?_concat] at hlast
    cases hlast
    exact .inr ⟨_, _, .expire ht he heq⟩

theorem activations_of_moves {body : Body S} (h : Moves body m m' i a t) (hx : x ∈ t.activations) :
    (∃ t₀, m.threads[i]? = some t₀ ∧ x ∈ t₀.activations) ∨ x.2 = [] ∨
    ∃ hist e, x.2 = hist ++ [e] ∧ m.Appends a x.1 hist e ∧
    ∃ t₀, m.threads[i]? = some t₀ ∧ (x.1, hist) ∈ t₀.activations := by
  cases h with
  | kept ht _ => exact .inl ⟨t, ht, hx⟩
  | spawn _ _ =>
    cases List.mem_singleton.mp hx
    exact .inr (.inl rfl)
  | answer ht hr =>
    rcases List.mem_cons.mp hx with rfl | hx
    · exact .inr (.inr ⟨_, _, rfl, .answer ht hr, _, ht, .head _⟩)
    · exact .inl ⟨_, ht, .tail _ hx⟩
  | enter ht he =>
    unfold Thread.enter at he
    split at he <;> cases he <;>
    · rcases List.mem_cons.mp hx with rfl | hx
      · exact .inr (.inl rfl)
      · exact .inl ⟨_, ht, hx⟩
  | leave ht hret =>
    have happ := Appends.leave ht hret
    cases hret <;>
    · rcases List.mem_cons.mp hx with rfl | hx
      · exact .inr (.inr ⟨_, _, rfl, happ, _, ht, .tail _ (.head _)⟩)
      · exact .inl ⟨_, ht, .tail _ (.tail _ hx)⟩
  | expire ht he =>
    obtain ⟨q, hist, heq, hcaller⟩ := Stack.expire_spec he
    rcases List.mem_cons.mp hx with rfl | hx
    · exact .inr (.inr ⟨hist, _, heq, .expire ht he heq, _, ht, .tail _ hcaller⟩)
    · exact .inl ⟨_, ht, .tail _ (Stack.activations_of_expire he x hx)⟩

theorem activations_of_step {body : Body S} {m m' : Machine H} {a : Action H} {t : Thread S}
    {x : S.Proc × List (Event S)} (hact : m.act body a = some m') (ht : t ∈ m'.threads) (hx : x ∈ t.activations) :
    (∃ t₀ ∈ m.threads, x ∈ t₀.activations) ∨ x.2 = [] ∨
      ∃ hist e, x.2 = hist ++ [e] ∧ m.Appends a x.1 hist e ∧ ∃ t₀ ∈ m.threads, (x.1, hist) ∈ t₀.activations := by
  obtain ⟨i, hi⟩ := List.mem_iff_getElem?.mp ht
  rcases activations_of_moves (moves hact hi) hx with ⟨t₀, ht₀, hx₀⟩ | hempty | ⟨hist, e, heq, happ, t₀, ht₀, hx₀⟩
  · exact .inl ⟨t₀, List.mem_of_getElem? ht₀, hx₀⟩
  · exact .inr (.inl hempty)
  · exact .inr (.inr ⟨hist, e, heq, happ, t₀, List.mem_of_getElem? ht₀, hx₀⟩)

theorem events_of_step {body : Body S} {m m' : Machine H} {a : Action H} {t : Thread S}
    {x : S.Proc × List (Event S)} {e : Event S} (hact : m.act body a = some m') (ht : t ∈ m'.threads)
    (hx : x ∈ t.activations) (he : e ∈ x.2) :
    (∃ t₀ ∈ m.threads, ∃ x₀ ∈ t₀.activations, e ∈ x₀.2) ∨ ∃ p hist, m.Appends a p hist e := by
  rcases activations_of_step hact ht hx with ⟨t₀, ht₀, hx₀⟩ | hempty | ⟨hist, last, heq, happ, t₀, ht₀, hx₀⟩
  · exact .inl ⟨t₀, ht₀, x, hx₀, he⟩
  · rw [hempty] at he
    cases he
  · rw [heq] at he
    rcases List.mem_append.mp he with hold | hlast
    · exact .inl ⟨t₀, ht₀, _, hx₀, hold⟩
    · cases List.mem_singleton.mp hlast
      exact .inr ⟨_, _, happ⟩

def Verified (mon : Monitor S γ) (init : S.Proc → γ) (fin : (p : S.Proc) → S.Ret p → γ → Prop) (m : Machine H) :
    Prop :=
  ∀ t ∈ m.threads, t.Verified mon init fin

variable {body : Body S} {m m' : Machine H} {a : Action H}

theorem Verified.setThread (h : m.Verified mon init fin) {i : Nat} {t : Thread S}
    (ht : t.Verified mon init fin) : (m.setThread i t).Verified mon init fin := by
  intro t' ht'
  rcases List.mem_or_eq_of_mem_set ht' with hmem | rfl
  · exact h t' hmem
  · exact ht

theorem Verified.thread (h : m.Verified mon init fin) {i : Nat} {t : Thread S}
    (ht : m.threads[i]? = some t) : t.Verified mon init fin :=
  h t (List.mem_of_getElem? ht)

section

variable {pre : S.Proc → Prop}

theorem Verified.step (hbody : mon.Verifies init fin pre body) (hentry : ∀ p, H.entry p → pre p)
    (h : m.Verified mon init fin) (hact : m.act body a = some m')
    (ha : ∀ p hist o r, m.Appends a p hist (.op o r) → mon.allows (mon.after (init p) hist) (.op o r)) :
    m'.Verified mon init fin := by
  cases act_cases hact with
  | spawn hp =>
    intro t ht
    rcases List.mem_append.mp ht with hmem | hmem
    · exact h t hmem
    · cases List.mem_singleton.mp hmem
      exact .start (hbody.body _ (hentry _ hp))
  | answer ht hr => exact h.setThread ((h.thread ht).answer (ha _ _ _ _ (.answer ht hr)))
  | enter ht he => exact h.setThread ((h.thread ht).enter hbody he)
  | leave ht hl =>
    obtain ⟨q, hist, e, hret⟩ := Thread.returned_of_leave hl
    refine h.setThread ((h.thread ht).leave hret ?_)
    cases hret with
    | call => exact hbody.called _ _ _ _ (h.thread ht).returned
    | timeout => exact hbody.timed _ _ _ _ (h.thread ht).returned
  | expire ht he =>
    obtain ⟨q, hist, hist_eq, -⟩ := Stack.expire_spec he
    exact h.setThread ((h.thread ht).stack.expire he hist_eq (hbody.cut _ _))
  | outside _ => exact h
  | restart => exact nofun

variable {ok : Machine H → Action H → Machine H → Prop} {m₀ : Machine H}

theorem Reaches.verified (h : Reaches body ok m₀ m) (hbody : mon.Verifies init fin pre body)
    (hentry : ∀ p, H.entry p → pre p)
    (hok : ∀ {m a m'}, ok m a m' → ∀ p hist o r, m.Appends a p hist (.op o r) →
      mon.allows (mon.after (init p) hist) (.op o r)) (h₀ : m₀.threads = []) : m.Verified mon init fin :=
  h.invariant (by simp [Verified, h₀]) fun hm hact hstep => hm.step hbody hentry hact (hok hstep)

theorem Reaches.world_invariant {W : H.World → Prop} (h : Reaches body ok m₀ m)
    (hbody : mon.Verifies init fin pre body) (hentry : ∀ p, H.entry p → pre p)
    (hok : ∀ {m a m'}, ok m a m' → ∀ p hist o r, m.Appends a p hist (.op o r) →
      mon.allows (mon.after (init p) hist) (.op o r)) (h₀ : m₀.threads = []) (hw₀ : W m₀.world)
    (hanswer : ∀ {w o input r w' g}, W w → H.handle w o input = some (r, w') → mon.allows g (.op o r) →
      mon.demands g (.op o r) → W w')
    (houtside : ∀ {w input w'}, W w → H.outside w input = some w' → W w')
    (hrestart : ∀ {w}, W w → W (H.restart w)) : W m.world := by
  refine (h.invariant (I := fun m => m.Verified mon init fin ∧ W m.world) ⟨by simp [Verified, h₀], hw₀⟩ ?_).2
  intro m m' a ⟨hv, hw⟩ hact hstep
  refine ⟨hv.step hbody hentry hact (hok hstep), ?_⟩
  cases act_cases hact with
  | answer ht hr =>
    have hallows := hok hstep _ _ _ _ (.answer ht hr)
    exact hanswer hw hr hallows ((hv.thread ht).code _ hallows).1
  | outside hout => exact houtside hw hout
  | restart => exact hrestart hw
  | spawn _ | enter _ _ | leave _ _ | expire _ _ => exact hw

end

end Machine

theorem Monitor.met_history
    {h hist : List (Event S)} (hmet : (history A D).Met h hist) {before after : List (Event S)}
    (hsplit : hist = before ++ e :: after) : D (h ++ before) e := by
  subst hsplit
  induction before generalizing h with
  | nil =>
    have hfirst : D h e := hmet.1
    simpa using hfirst
  | cons b before ih =>
    have hrest := ih (h := h ++ [b]) hmet.2
    rwa [List.append_assoc] at hrest

theorem Machine.Reaches.events {H : Host S} {body : Body S}
    {ok : Machine H → Action H → Machine H → Prop} {m₀ m : Machine H} {A : Machine H → Event S → Prop}
    (h : Reaches body ok m₀ m) (h₀ : m₀.threads = [])
    (hkept : ∀ {m a m'}, m.act body a = some m' → ok m a m' → ∀ e, A m e → A m' e)
    (hnew : ∀ {m a m'}, m.act body a = some m' → ok m a m' → ∀ p hist e, m.Appends a p hist e → A m' e) :
    ∀ t ∈ m.threads, ∀ x ∈ t.activations, ∀ e ∈ x.2, A m e := by
  refine h.invariant (I := fun m => ∀ t ∈ m.threads, ∀ x ∈ t.activations, ∀ e ∈ x.2, A m e) (by simp [h₀])
    fun hm hact hok t ht x hx e he => ?_
  rcases events_of_step hact ht hx he with ⟨t₀, ht₀, x₀, hx₀, he₀⟩ | ⟨p, hist, happ⟩
  · exact hkept hact hok e (hm t₀ ht₀ x₀ hx₀ e he₀)
  · exact hnew hact hok p hist e happ

theorem split_snoc (h : xs ++ [x] = before ++ y :: after) :
    (∃ rest, xs = before ++ y :: rest) ∨ before = xs ∧ y = x := by
  rcases List.eq_nil_or_concat after with rfl | ⟨rest, last, rfl⟩
  · obtain ⟨hbefore, hy⟩ := List.append_inj' h rfl
    exact .inr ⟨hbefore.symm, (List.singleton_inj.mp hy).symm⟩
  · rw [List.concat_eq_append, ← List.cons_append, ← List.append_assoc] at h
    exact .inl ⟨rest, (List.append_inj' h rfl).1⟩

theorem Machine.Reaches.positions {H : Host S} {body : Body S}
    {ok : Machine H → Action H → Machine H → Prop} {m₀ m : Machine H} {D : S.Proc → List (Event S) → Event S → Prop}
    (h : Reaches body ok m₀ m) (h₀ : m₀.threads = [])
    (hok : ∀ {m a m'}, ok m a m' → ∀ p hist e, m.Appends a p hist e → D p hist e) :
    ∀ t ∈ m.threads, ∀ x ∈ t.activations, ∀ before e after, x.2 = before ++ e :: after → D x.1 before e := by
  refine h.invariant (I := fun m => ∀ t ∈ m.threads, ∀ x ∈ t.activations, ∀ before e after,
    x.2 = before ++ e :: after → D x.1 before e) (by simp [h₀]) fun hm hact hstep t ht x hx before e after hsplit => ?_
  rcases activations_of_step hact ht hx with ⟨t₀, ht₀, hx₀⟩ | hempty | ⟨hist, last, heq, happ, t₀, ht₀, hx₀⟩
  · exact hm t₀ ht₀ x hx₀ before e after hsplit
  · simp [hempty] at hsplit
  · rw [heq] at hsplit
    rcases split_snoc hsplit with ⟨rest, hearlier⟩ | ⟨rfl, rfl⟩
    · exact hm t₀ ht₀ _ hx₀ before e rest hearlier
    · exact hok hstep _ _ _ happ

theorem Machine.Reaches.appended {H : Host S} {body : Body S}
    {ok : Machine H → Action H → Machine H → Prop} {m₀ m : Machine H} {A : Event S → Prop}
    (h : Reaches body ok m₀ m)
    (hok : ∀ {m a m'}, ok m a m' → ∀ p hist o r, m.Appends a p hist (.op o r) → A (.op o r))
    (hcall : ∀ p v, A (.call p v)) (htimeout : ∀ p v, A (.timeout p v)) (h₀ : m₀.threads = []) :
    ∀ t ∈ m.threads, ∀ x ∈ t.activations, ∀ e ∈ x.2, A e := by
  refine h.events (A := fun _ => A) h₀ (fun _ _ _ => id) fun _ hstep p hist e happ => ?_
  cases e with
  | op o r => exact hok hstep p hist o r happ
  | call q v => exact hcall q v
  | timeout q v => exact htimeout q v

/-- The monitor that remembers the procedure and every event, and asks `D` of both. -/
def Monitor.tracing (A : Event S → Prop) (D : S.Proc × List (Event S) → Event S → Prop) :
    Monitor S (S.Proc × List (Event S)) :=
  ⟨fun g e => (g.1, g.2 ++ [e]), fun _ => A, D⟩

theorem Monitor.after_tracing (p : S.Proc) (h t : List (Event S)) : (tracing A D).after (p, h) t = (p, h ++ t) := by
  induction t generalizing h with
  | nil => simp
  | cons e t ih =>
    refine (ih (h ++ [e])).trans ?_
    rw [List.append_assoc, List.singleton_append]

/-- The monitor that remembers every event and asks `D` of the activations of `p` alone. -/
def Monitor.within (p : S.Proc) (A : Event S → Prop) (D : List (Event S) → Event S → Prop) :
    Monitor S (S.Proc × List (Event S)) :=
  tracing A fun g e => g.1 = p → D g.2 e

section

variable {A : Event S → Prop} {D : List (Event S) → Event S → Prop} {p : S.Proc}

theorem Monitor.wp_within (hx : (history A D).wp x post h) : (within p A D).wp x (fun a g => post a g.2) (p, h) := by
  induction x generalizing h with
  | pure a => exact hx
  | op o k ih | call q k ih | timeout q k ih =>
    intro r hr
    obtain ⟨hd, hk⟩ := hx r hr
    exact ⟨fun _ => hd, ih r hk⟩

theorem Monitor.met_within {h hist : List (Event S)} (hmet : (within p A D).Met (p, h) hist)
    {before after : List (Event S)} (hsplit : hist = before ++ e :: after) : D (h ++ before) e := by
  subst hsplit
  have hd := Met.demands_of_split (within p A D) hmet
  rw [within, after_tracing] at hd
  exact hd rfl

variable {H : Host S} {body : Body S} {ok : Machine H → Action H → Machine H → Prop}
  {m₀ m : Machine H} {Q : S.Ret p → List (Event S) → Prop} (h : Machine.Reaches body ok m₀ m)
  (hok : ∀ {m a m'}, ok m a m' → ∀ p hist o r, m.Appends a p hist (.op o r) → A (.op o r))
  (hcall : ∀ p v, A (.call p v)) (htimeout : ∀ p v, A (.timeout p v)) (h₀ : m₀.threads = [])
  (hbody : (Monitor.history A D).wp (body p) Q [])

include h hok hcall htimeout h₀ hbody

theorem Machine.Reaches.verified_within : m.Verified (Monitor.within p A D) (fun q => (q, []))
    fun q v g => ∀ hq : q = p, Q (hq ▸ v) g.2 := by
  have hbodies : (Monitor.within p A D).Verifies (fun q => (q, [])) (fun q v g => ∀ hq : q = p, Q (hq ▸ v) g.2)
      (fun _ => True) body := ⟨fun q _ => ?_, fun _ _ _ => trivial, fun _ _ _ => trivial, fun _ _ p v _ => hcall p v,
    fun _ _ p v _ => htimeout p (some v), fun _ p => htimeout p none⟩
  · exact h.verified hbodies (fun _ _ => trivial) hok h₀
  by_cases hq : q = p
  · subst hq
    exact Monitor.wp_mono (fun _ _ hQ _ => hQ) (Monitor.wp_within hbody)
  · have hany : (Monitor.within p A D).Returns (fun g => g.1 = q) (body q) fun _ g => g.1 = q :=
      .of_uses (.all (fun _ _ hg _ => ⟨fun hp => absurd (hg.symm.trans hp) hq, hg⟩) _)
    exact Monitor.wp_mono (fun _ _ _ heq => absurd heq hq) (hany (q, []) rfl)

/-- What the body of a procedure owes, each of its activations has met, if the answers are in `A`. -/
theorem Machine.Reaches.activation (ht : t ∈ m.threads) (hx : (p, hist) ∈ t.activations)
    (hsplit : hist = before ++ e :: after) : D before e :=
  Monitor.met_within ((h.verified_within hok hcall htimeout h₀ hbody t ht).activations_met hx) hsplit

theorem Machine.Reaches.finished (ht : ⟨p, hist, .pure v, stack⟩ ∈ m.threads) : Q v hist := by
  have hfin := (h.verified_within hok hcall htimeout h₀ hbody _ ht).returned rfl
  rwa [Monitor.within, Monitor.after_tracing] at hfin

end

end Praxec.Effect
