import Praxec.Effect.Monitor

namespace Praxec.Effect

open Option

abbrev Body (S : Signature) := (p : S.Proc) → Prog S (S.Ret p)

/-- The callers of a running procedure, innermost first, each with the requests it has had answered
and the continuation that waits for the callee. -/
inductive Stack (S : Signature) : S.Proc → Type where
  | root (p : S.Proc) : Stack S p
  | call {p q : S.Proc} (hist : List (Event S)) (k : S.Ret p → Prog S (S.Ret q)) (rest : Stack S q) :
      Stack S p
  | timeout {p q : S.Proc} (hist : List (Event S)) (k : Option (S.Ret p) → Prog S (S.Ret q))
      (rest : Stack S q) : Stack S p

/-- A task: the procedure it is in, what that activation has had answered, what is left of it, and
its callers. -/
structure Thread (S : Signature) where
  proc : S.Proc
  hist : List (Event S)
  code : Prog S (S.Ret proc)
  stack : Stack S proc

/-- Drop everything above the `n`-th enclosing timeout, which then answers `none`. -/
def Stack.expire {p : S.Proc} : Stack S p → Nat → Option (Thread S)
  | .root _, _ => none
  | .call _ _ rest, n => rest.expire n
  | .timeout (q := q) hist k rest, 0 => some ⟨q, hist ++ [.timeout p none], k none, rest⟩
  | .timeout _ _ rest, n + 1 => rest.expire n

def Stack.activations {p : S.Proc} : Stack S p → List (S.Proc × List (Event S))
  | .root _ => []
  | .call (q := q) hist _ rest => (q, hist) :: rest.activations
  | .timeout (q := q) hist _ rest => (q, hist) :: rest.activations

namespace Thread

def start (body : Body S) (p : S.Proc) : Thread S :=
  ⟨p, [], body p, .root p⟩

def activations (t : Thread S) : List (S.Proc × List (Event S)) :=
  (t.proc, t.hist) :: t.stack.activations

def enter (body : Body S) : Thread S → Option (Thread S)
  | ⟨_, hist, .call p k, stack⟩ => some ⟨p, [], body p, .call hist k stack⟩
  | ⟨_, hist, .timeout p k, stack⟩ => some ⟨p, [], body p, .timeout hist k stack⟩
  | _ => none

def leave : Thread S → Option (Thread S)
  | ⟨p, _, .pure v, .call (q := q) hist k rest⟩ => some ⟨q, hist ++ [.call p v], k v, rest⟩
  | ⟨p, _, .pure v, .timeout (q := q) hist k rest⟩ =>
      some ⟨q, hist ++ [.timeout p (some v)], k (some v), rest⟩
  | _ => none

end Thread

/-- The surroundings of the tasks: a shared world that answers one request at a time. `Input` is
what the world itself does not determine; `entry` is what can be started from outside; `restart` is what
survives the loss of every task. -/
structure Host (S : Signature) where
  World : Type
  Input : Type
  entry : S.Proc → Bool
  handle : World → (o : S.Op) → Input → Option (S.Res o × World)
  outside : World → Input → Option World
  restart : World → World

structure Machine (H : Host S) where
  world : H.World
  threads : List (Thread S)

/-- One step of the machine: a new task, an answered request of task `i`, a call entered or left, a
deadline that passes, a change from outside, or a restart. -/
inductive Action (H : Host S) where
  | spawn (p : S.Proc)
  | answer (i : Nat) (input : H.Input)
  | enter (i : Nat)
  | leave (i : Nat)
  | expire (i : Nat) (n : Nat)
  | outside (input : H.Input)
  | restart

variable {H : Host S}

def Action.task : Action H → Option Nat
  | .answer i _ | .enter i | .leave i | .expire i _ => some i
  | .spawn _ | .outside _ | .restart => none

namespace Machine

def setThread (m : Machine H) (i : Nat) (t : Thread S) : Machine H :=
  { m with threads := m.threads.set i t }

def answerThread (w : H.World) (t : Thread S) (input : H.Input) : Option (Thread S × H.World) :=
  match t with
  | ⟨p, hist, .op o k, stack⟩ =>
      (H.handle w o input).map fun rw => (⟨p, hist ++ [.op o rw.1], k rw.1, stack⟩, rw.2)
  | _ => none

def act (body : Body S) (m : Machine H) : Action H → Option (Machine H)
  | .spawn p => if H.entry p then some { m with threads := m.threads ++ [Thread.start body p] } else none
  | .answer i input => m.threads[i]?.bind fun t =>
      (answerThread m.world t input).map fun tw => { m.setThread i tw.1 with world := tw.2 }
  | .enter i => m.threads[i]?.bind fun t => (t.enter body).map (m.setThread i)
  | .leave i => m.threads[i]?.bind fun t => t.leave.map (m.setThread i)
  | .expire i n => m.threads[i]?.bind fun t => (t.stack.expire n).map (m.setThread i)
  | .outside input => (H.outside m.world input).map fun w => { m with world := w }
  | .restart => some ⟨H.restart m.world, []⟩

/-- States reached from `m₀` by steps that all satisfy `ok`. -/
inductive Reaches (body : Body S)
    (ok : Machine H → Action H → Machine H → Prop) (m₀ : Machine H) : Machine H → Prop where
  | refl : Reaches body ok m₀ m₀
  | step {m m' a} : Reaches body ok m₀ m → m.act body a = some m' → ok m a m' → Reaches body ok m₀ m'

def runs (body : Body S) (check : Machine H → Action H → Bool) (m : Machine H) :
    List (Action H) → Option (Machine H)
  | [] => some m
  | a :: rest => if check m a then (m.act body a).bind fun m' => m'.runs body check rest else none

variable {body : Body S} {ok : Machine H → Action H → Machine H → Prop} {m₀ m m' : Machine H} {a : Action H}

theorem Reaches.of_runs (hcheck : ∀ {m a m'}, check m a → m.act body a = some m' → ok m a m')
    (h : Reaches body ok m₀ m) (hr : m.runs body check script = some m') : Reaches body ok m₀ m' := by
  induction script generalizing m with
  | nil => cases hr; exact h
  | cons a rest ih =>
    unfold runs at hr
    split at hr
    · rename_i hc
      obtain ⟨m₁, hact, hrest⟩ := bind_eq_some_iff.mp hr
      exact ih (.step h hact (hcheck hc hact)) hrest
    · cases hr

theorem reaches_of_script (hcheck : ∀ {m a m'}, check m a → m.act body a = some m' → ok m a m')
    (h : (m₀.runs body check script).any P) : ∃ m, Reaches body ok m₀ m ∧ P m := by
  cases hm : m₀.runs body check script with
  | none => simp [hm] at h
  | some m => exact ⟨m, .of_runs hcheck .refl hm, by simpa [hm] using h⟩

theorem reaches_of_scripts {check check' : Machine H → Action H → Bool}
    (hcheck : ∀ {m a m'}, check m a → m.act body a = some m' → ok m a m')
    (hcheck' : ∀ {m a m'}, check' m a → m.act body a = some m' → ok' m a m') {script script' : List (Action H)}
    {P : Machine H → Machine H → Bool}
    (h : (m₀.runs body check script).any (fun m => (m.runs body check' script').any (P m))) :
    ∃ m m', Reaches body ok m₀ m ∧ Reaches body ok' m m' ∧ P m m' := by
  obtain ⟨m, hm, h'⟩ := reaches_of_script hcheck h
  obtain ⟨m', hm', hP⟩ := reaches_of_script hcheck' h'
  exact ⟨m, m', hm, hm', hP⟩

theorem Reaches.from_reached (h : Reaches body ok m₀ m) :
    Reaches body (fun m a m' => Reaches body ok m₀ m ∧ m.act body a = some m' ∧ ok m a m') m₀ m := by
  induction h with
  | refl => exact .refl
  | step h hact hok ih => exact ih.step hact ⟨h, hact, hok⟩

theorem Reaches.invariant {I : Machine H → Prop} (h : Reaches body ok m₀ m) (h₀ : I m₀)
    (hstep : ∀ {m m' : Machine H} {a : Action H}, I m → m.act body a = some m' → ok m a m' → I m') : I m := by
  induction h with
  | refl => exact h₀
  | step _ hact hok ih => exact hstep ih hact hok

inductive StepCases (body : Body S) (m : Machine H) :
    Action H → Machine H → Prop where
  | spawn {p} (hp : H.entry p = true) :
      StepCases body m (.spawn p) { m with threads := m.threads ++ [Thread.start body p] }
  | answer {i input p hist o k stack r w} (ht : m.threads[i]? = some ⟨p, hist, .op o k, stack⟩)
      (hr : H.handle m.world o input = some (r, w)) :
      StepCases body m (.answer i input)
        ⟨w, m.threads.set i ⟨p, hist ++ [.op o r], k r, stack⟩⟩
  | enter {i t t'} (ht : m.threads[i]? = some t) (he : t.enter body = some t') :
      StepCases body m (.enter i) (m.setThread i t')
  | leave {i t t'} (ht : m.threads[i]? = some t) (hl : t.leave = some t') :
      StepCases body m (.leave i) (m.setThread i t')
  | expire {i n t t'} (ht : m.threads[i]? = some t) (he : t.stack.expire n = some t') :
      StepCases body m (.expire i n) (m.setThread i t')
  | outside {input w} (hw : H.outside m.world input = some w) :
      StepCases body m (.outside input) { m with world := w }
  | restart : StepCases body m .restart ⟨H.restart m.world, []⟩

theorem act_cases (h : m.act body a = some m') : StepCases body m a m' := by
  cases a with
  | spawn p =>
    obtain ⟨hp, h⟩ := ite_none_right_eq_some.mp h
    cases h
    exact .spawn hp
  | answer i input =>
    obtain ⟨t, ht, h⟩ := bind_eq_some_iff.mp h
    obtain ⟨tw, htw, rfl⟩ := map_eq_some_iff.mp h
    obtain ⟨p, hist, code, stack⟩ := t
    cases code with
    | op o k =>
      obtain ⟨rw, hrw, rfl⟩ := map_eq_some_iff.mp htw
      exact .answer ht hrw
    | pure _ | call _ _ | timeout _ _ => simp [answerThread] at htw
  | enter i =>
    obtain ⟨t, ht, h⟩ := bind_eq_some_iff.mp h
    obtain ⟨t', ht', rfl⟩ := map_eq_some_iff.mp h
    exact .enter ht ht'
  | leave i =>
    obtain ⟨t, ht, h⟩ := bind_eq_some_iff.mp h
    obtain ⟨t', ht', rfl⟩ := map_eq_some_iff.mp h
    exact .leave ht ht'
  | expire i n =>
    obtain ⟨t, ht, h⟩ := bind_eq_some_iff.mp h
    obtain ⟨t', ht', rfl⟩ := map_eq_some_iff.mp h
    exact .expire ht ht'
  | outside input =>
    obtain ⟨w, hw, rfl⟩ := map_eq_some_iff.mp h
    exact .outside hw
  | restart => cases h; exact .restart

end Machine

def Prog.play {α : Type} : Prog S α → H.World → List H.Input → Option (List (Event S) × α × H.World)
  | .pure a, w, _ => some ([], a, w)
  | .op o k, w, input :: rest => (H.handle w o input).bind fun rw =>
      ((k rw.1).play rw.2 rest).map fun out => (.op o rw.1 :: out.1, out.2)
  | _, _, _ => none

theorem Prog.trace_of_play {α : Type} {x : Prog S α} {w w' : H.World} {inputs : List H.Input} {t : List (Event S)} {a : α}
    (h : x.play w inputs = some (t, a, w')) : x.Trace t (some a) := by
  induction x generalizing w inputs t with
  | pure b =>
    cases h
    exact .done _
  | op o k ih =>
    cases inputs with
    | nil => cases h
    | cons input rest =>
      obtain ⟨rw, -, h⟩ := bind_eq_some_iff.mp h
      obtain ⟨⟨t', a', w''⟩, hrest, hout⟩ := map_eq_some_iff.mp h
      cases hout
      exact .op (ih rw.1 hrest)
  | call p k ih | timeout p k ih => cases h

theorem Prog.exists_trace_of_play {α : Type} {x : Prog S α} (w : H.World) (inputs : List H.Input)
    {P : List (Event S) → α → Bool} (h : (x.play w inputs).any (fun out => P out.1 out.2.1)) :
    ∃ t a, x.Trace t (some a) ∧ P t a := by
  cases hplay : x.play w inputs with
  | none => simp [hplay] at h
  | some out => exact ⟨out.1, out.2.1, trace_of_play hplay, by simpa [hplay] using h⟩

end Praxec.Effect
