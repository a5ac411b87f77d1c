import Praxec.Effect.Base
import Praxec.Runtime.Status

namespace Praxec

open Json Effect Prog Monitor List Option Bool Gateway Trail Machine

variable {cfg : RuntimeConfig} {definitions : Fields} {i : Nat} {W : String} {m : Gateway} {a : GatewayAction}

def Proc.isDrive : Proc → Bool
  | .runDeterministicChain _ => true
  | _ => false

/-- Only the call that task `i` was started with, and the drive it is in, write to the run, and no restart cuts it
short. -/
def Solo (i : Nat) (W : String) (m : Gateway) (a : GatewayAction) (_ : Gateway) : Prop :=
  a ≠ .restart ∧ ∀ p hist e inst, m.Appends a p hist e → CreatesAs inst e ∨ SavesAs (fun _ => True) inst e →
    inst.id = W → a.task = some i ∧ ∃ t, m.threads[i]? = some t ∧ t.owns Proc.isDrive = true

theorem Solo.unwritten (h : Solo i W m a m')
    (hother : a.task = some i → ∀ t, m.threads[i]? = some t → t.owns Proc.isDrive = false) : Unwritten W m a m' := by
  intro p hist e inst happ hwrites hid
  obtain ⟨htask, t, ht, howns⟩ := h.2 p hist e inst happ hwrites hid
  cases howns.symm.trans (hother htask t ht)

variable {p : Proc}

section

/-- What a task's own call knows to be stored of the run is stored, unless the call it was started with has gone out
of step with the store. -/
def Informed (cfg : RuntimeConfig) (W : String) (w : World) (own base : Trail) : Prop :=
  base.Unshown cfg ∨ ∀ inst, inst.id = W → own.Current inst → w.find W = some inst

theorem look_stored {w w' : World} {o : Op} {input : Input} {r : o.Res}
    (hr : w.handle o input = some (r, w')) (hecho : Echoes (.op o r))
    (hknown : ∀ inst, inst.id = W → known inst → w.find W = some inst) :
    ∀ inst, inst.id = W → look known (.op o r) inst → w'.find W = some inst := by
  intro inst hid hlook
  cases World.handle_store hr with
  | same hinstances _ hreply =>
    have hfind : w'.find W = w.find W := by rw [World.find, hinstances, World.find]
    rw [hfind]
    cases o with
    | storeLoad id =>
      cases r with
      | ok loaded =>
        rcases hlook with rfl | hknew
        · have hloaded : w.find id = some inst := hreply
          rwa [← hecho, hid] at hloaded
        · exact hknown inst hid hknew
      | error _ => exact hknown inst hid hlook
    | storeSave kind next v | storeCreate fresh =>
      cases r with
      | ok saved => exact hreply.elim
      | error _ => exact hknown inst hid hlook
    | _ => exact hknown inst hid hlook
  | created _ | saved _ _ =>
    rw [World.find_put]
    rcases hlook with rfl | ⟨hne, hknew⟩
    · exact if_pos hid
    · rw [if_neg fun hwritten => hne (hid.trans hwritten.symm)]
      exact hknown inst hid hknew

variable {w : World} {own base : Trail} {e : Event Sig}

theorem Trail.Unshown.grows (h : base.Unshown cfg) (hbase : base' = base ∨ base' = base.snoc e) : base'.Unshown cfg := by
  rcases hbase with rfl | rfl
  · exact h
  · exact h.snoc e

theorem Informed.answer {hist : History} {stack : Stack Sig p} {o : Op} {input : Input} {r : o.Res}
    (h : Informed cfg W w (stack.own Proc.isDrive hist) (stack.base hist)) (hr : w.handle o input = some (r, w'))
    (hecho : Echoes (.op o r)) (hinner : stack.owns Proc.isDrive = false → w'.find W = w.find W) :
    Informed cfg W w' (stack.own Proc.isDrive (hist ++ [.op o r])) (stack.base (hist ++ [.op o r])) := by
  refine h.imp (fun hunshown => hunshown.grows (Stack.base_append _)) fun hknown => ?_
  cases howns : stack.owns Proc.isDrive with
  | false =>
    rw [hinner howns, Stack.own_eq_of_not_owns howns hist]
    exact hknown
  | true =>
    rw [Stack.own_of_owns howns] at hknown ⊢
    intro inst hid hcurrent
    exact look_stored hr hecho hknown inst hid (Trail.current_snoc (p, hist) (.op o r) ▸ hcurrent)

theorem look_callee (he : e.callee = some p) (hp : p.isDrive = false) : look known e = known := by
  cases e with
  | op o r => cases he
  | call q r | timeout q r =>
    cases he
    cases p with
    | runDeterministicChain args => cases hp
    | _ => rfl

theorem look_drive (he : e.callee = some p) (hp : p.isDrive)
    (h : look known e inst) : ∃ outcome, Drove outcome e ∧ outcome.shown = some inst := by
  cases e with
  | op o r => cases he
  | call q r | timeout q r =>
    cases he
    cases p with
    | runDeterministicChain args => exact h
    | _ => cases hp

theorem CallsDrive.not_drive (h : CallsDrive cfg g e) (he : e.callee = some p)
    (hp : p.isDrive) : g.1.isDrive = false := by
  cases e with
  | op o r => cases he
  | call q r | timeout q r =>
    cases he
    cases p with
    | runDeterministicChain args =>
      obtain ⟨p, hist⟩ := g
      cases p with
      | runDeterministicChain args' => exact absurd rfl (h.1 args')
      | _ => rfl
    | _ => cases hp

theorem Informed.hears (h : Informed cfg W w own base)
    (hears : Hears Proc.isDrive e last own base own' base') (he : e.callee = some p)
    (hcalls : own' = own.snoc e → CallsDrive cfg own e)
    (hleft : ∀ outcome inst, Drove outcome e → outcome.shown = some inst → Current (p, last) inst) :
    Informed cfg W w own' base' := by
  cases hears with
  | inner hown hbase => rwa [hown, hbase]
  | event hown hcallee hbase =>
    refine h.imp (fun hunshown => hunshown.grows hbase) fun hknown => ?_
    cases hp : p.isDrive with
    | false =>
      rw [hown]
      intro inst hid hcurrent
      rw [← Trail.snoc, Trail.current_snoc, look_callee he hp] at hcurrent
      exact hknown inst hid hcurrent
    | true => cases (hcallee p he hp).symm.trans ((hcalls hown).not_drive he hp)
  | left hcallee hp hlast hown hbase =>
    refine h.imp (fun hunshown => hunshown.grows (.inr hbase)) fun hknown => ?_
    cases he.symm.trans hcallee
    rw [hown]
    intro inst hid hcurrent
    rw [← Trail.snoc, Trail.current_snoc] at hcurrent
    obtain ⟨outcome, hdrove, hshown⟩ := look_drive he hp hcurrent
    exact hknown inst hid (hlast ▸ hleft outcome inst hdrove hshown)

theorem Informed.enter {t t' : Thread Sig} (h : Informed cfg W w (t.own Proc.isDrive) t.base)
    (hv : t.Verified (Replies.mon cfg) (fun p => (p, [])) (Replies.outline cfg).fin)
    (he : t.enter (body cfg) = some t') : Informed cfg W w (t'.own Proc.isDrive) t'.base := by
  obtain ⟨hbase, hown | ⟨hroot, hdrive, hown⟩⟩ := Thread.own_enter (φ := Proc.isDrive) he
  · rwa [hown, hbase]
  have hsame : t.own Proc.isDrive = t.base :=
    (Stack.own_of_owns (Stack.owns_of_atRoot hroot)).trans (Stack.base_of_atRoot hroot).symm
  have hshows (inst : WorkflowInstance) (hbegins : begins t'.proc inst) : Shows cfg t.base inst := by
    have hbase : t.base = (t.proc, t.hist) := Stack.base_of_atRoot hroot
    have hcode := hv.code
    rw [after_tracing] at hcode
    rw [hbase]
    obtain ⟨p, hist, code, stack⟩ := t
    cases code with
    | pure _ | op _ _ => cases he
    | call q k =>
      cases he
      cases q with
      | runDeterministicChain args =>
        cases hbegins
        exact (hcode (.error "") trivial).1.2
      | _ => exact hbegins.elim
    | timeout q k =>
      cases he
      cases q with
      | runDeterministicChain args =>
        cases hbegins
        exact (hcode none trivial).1.2
      | _ => exact hbegins.elim
  rw [hown, hbase]
  by_cases hunshown : Unshown cfg t.base
  · exact .inl hunshown
  · refine .inr fun inst hid hbegins => ?_
    rw [hsame] at h
    exact h.resolve_left hunshown inst hid ((hshows inst hbegins).resolve_right hunshown)

end

theorem unwritten_of_not_answer (ha : ∀ j input, a ≠ .answer j input) : Unwritten W m a m' := by
  intro p hist e inst happ hwrites
  cases happ with
  | answer _ _ => exact absurd rfl (ha _ _)
  | leave _ hl =>
    rcases hwrites with ⟨_, he⟩ | ⟨_, _, _, _, he⟩ <;>
    · subst he
      cases hl
  | expire _ _ _ => rcases hwrites with ⟨_, he⟩ | ⟨_, _, _, _, he⟩ <;> cases he

/-- A state of a gateway in which the call of task `i`, if it is still there, knows what is stored of the run. -/
structure Attended (cfg : RuntimeConfig) (definitions : Fields) (i : Nat) (W : String) (m : Gateway) : Prop where
  reachable : Reachable cfg definitions m
  informed : ∀ t, m.threads[i]? = some t → Informed cfg W m.world (t.own Proc.isDrive) t.base

theorem Attended.step (hm : Attended cfg definitions i W m) (hact : m.act (body cfg) a = some m') (hok : Solo i W m a m') :
    Attended cfg definitions i W m' := by
  have hreachable : Reachable cfg definitions m' := hm.reachable.step hact trivial
  have hlineage := lineage_of_reaches hm.reachable
  have hverified := ReachableWith.replies hm.reachable
  refine ⟨hreachable, fun t ht => ?_⟩
  have hcalls {e : Event Sig} {own : Trail} (hown : t.own Proc.isDrive = own.snoc e) : CallsDrive cfg own e := by
    have hmet := (ReachableWith.replies hreachable t (mem_of_getElem? ht)).activations_met
      (t.own_mem (φ := Proc.isDrive))
    rw [hown] at hmet
    have hdemands := Met.demands_of_split (Replies.mon cfg) (t := own.2) (u := []) hmet
    rwa [after_tracing] at hdemands
  -- A callee that ends leaves the world as it is.
  have hends {t₀ : Thread Sig} {e : Event Sig} {p : Proc} {last : History} (ht₀ : m.threads[i]? = some t₀)
      (ha : ∀ j input, a ≠ .answer j input)
      (hears : Hears Proc.isDrive e last (t₀.own Proc.isDrive) t₀.base (t.own Proc.isDrive) t.base) (he : e.callee = some p)
      (hleft : ∀ outcome inst, Drove outcome e → outcome.shown = some inst → Current (p, last) inst) :
      Informed cfg W m'.world (t.own Proc.isDrive) t.base := by
    have hfind : m'.world.find W = m.world.find W := hlineage.find_unwritten hact (unwritten_of_not_answer ha)
    unfold Informed
    rw [hfind]
    exact (hm.informed _ ht₀).hears hears he hcalls hleft
  cases moves hact ht with
  | kept ht₀ htask =>
    have hfind := hlineage.find_unwritten hact (hok.unwritten fun h => absurd h htask)
    unfold Informed
    rw [hfind]
    exact hm.informed t ht₀
  | @spawn p hp _ =>
    refine .inr fun inst _ hbegins => ?_
    cases p with
    | runDeterministicChain args => cases hp
    | _ => exact False.elim hbegins
  | answer ht₀ hr =>
    refine (hm.informed _ ht₀).answer hr (hlineage.echoes hact (.answer ht₀ hr)) fun howns => ?_
    refine hlineage.find_unwritten hact (hok.unwritten fun _ t' ht' => ?_)
    cases ht₀.symm.trans ht'
    exact howns
  | enter ht₀ he =>
    have hfind : m'.world.find W = m.world.find W := hlineage.find_unwritten hact (unwritten_of_not_answer nofun)
    unfold Informed
    rw [hfind]
    exact (hm.informed _ ht₀).enter (hverified _ (mem_of_getElem? ht₀)) he
  | leave ht₀ hl =>
    have hears := Thread.hears_leave (φ := Proc.isDrive) hl
    have hleft (p : Proc) (hist : History) (v : p.Ret) (stack : Stack Sig p)
        (ht₀ : m.threads[i]? = some ⟨p, hist, .pure v, stack⟩) (outcome : ChainOutcome) (inst : WorkflowInstance)
        (hdrove : Drove outcome (.call p v) ∨ Drove outcome (.timeout p (some v))) (hshown : outcome.shown = some inst) :
        Current (p, hist) inst := by
      have hreturned := ReachableWith.returned hm.reachable (mem_of_getElem? ht₀)
      rcases hdrove with hdrove | hdrove <;>
      · cases hdrove
        exact hreturned inst hshown
    cases hl with
    | call => exact hends ht₀ nofun hears rfl fun outcome inst hdrove => hleft _ _ _ _ ht₀ outcome inst (.inl hdrove)
    | timeout => exact hends ht₀ nofun hears rfl fun outcome inst hdrove => hleft _ _ _ _ ht₀ outcome inst (.inr hdrove)
  | expire ht₀ he =>
    obtain ⟨q, last, hears⟩ := Stack.hears_expire (φ := Proc.isDrive) he _
    exact hends ht₀ nofun hears rfl fun outcome inst hdrove => by cases hdrove

theorem Attended.spawned (hm : Reachable cfg definitions m₀)
    (hspawn : m₀.act (body cfg) (.spawn p) = some m) : Attended cfg definitions m₀.threads.length W m := by
  have hempty : Attended cfg definitions m₀.threads.length W m₀ := ⟨hm, fun t ht => by simp at ht⟩
  exact hempty.step hspawn ⟨nofun, fun _ _ _ _ happ => by cases happ⟩

def soloAt (i : Nat) (m : Gateway) (a : GatewayAction) : Bool :=
  match a with
  | .restart => false
  | .answer j _ => match m.pending a with
      | some (.storeCreate _) | some (.storeSave ..) => j = i && (m.threads[i]?).any (Thread.owns Proc.isDrive)
      | _ => true
  | _ => true

theorem solo_of_soloAt
    (h : soloAt i m a) : Solo i W m a m' := by
  have hstays : a ≠ .restart := by
    rintro rfl
    cases h
  refine ⟨hstays, fun p hist e inst happ hwrites hid => ?_⟩
  by_cases hanswer : ∃ j input, a = .answer j input
  · obtain ⟨j, input, rfl⟩ := hanswer
    have hwriter : (j = i && (m.threads[i]?).any (Thread.owns Proc.isDrive)) := by
      unfold soloAt at h
      rcases hwrites with ⟨fresh, rfl⟩ | ⟨kind, next, v, -, rfl⟩ <;>
      · rw [happ.pending] at h
        exact h
    obtain ⟨hj, howns⟩ := and_eq_true_iff.mp hwriter
    obtain ⟨t, ht, howns⟩ := (any_eq_true _ _).mp howns
    exact ⟨congrArg some (of_decide_eq_true hj), t, ht, howns⟩
  · have hunwritten : Unwritten W m a m' := unwritten_of_not_answer fun j input heq => hanswer ⟨j, input, heq⟩
    exact absurd hid (hunwritten p hist e inst happ hwrites)

theorem Gateway.solo_of_scripts (cfg : RuntimeConfig) (definitions : Fields) (before : List GatewayAction)
    (p : Proc) (script : List GatewayAction) (W : String) (P : Gateway → Gateway → Bool)
    (h : (((boot definitions).runs (body cfg) (fun _ _ => true) before).any fun m₀ =>
      (m₀.act (body cfg) (.spawn p)).any fun m₁ => (m₁.runs (body cfg) (soloAt m₀.threads.length) script).any (P m₀))) :
    ∃ m₀ m₁ m, Reachable cfg definitions m₀ ∧ m₀.act (body cfg) (.spawn p) = some m₁ ∧
      Reaches (body cfg) (Solo m₀.threads.length W) m₁ m ∧ P m₀ m := by
  obtain ⟨m₀, hm₀, h⟩ : ∃ m₀, Reachable cfg definitions m₀ ∧ _ :=
    reaches_of_script (fun _ _ => trivial) h
  obtain ⟨m₁, hspawn, h⟩ := (any_eq_true _ _).mp h
  obtain ⟨m, hrun, hP⟩ : ∃ m, Reaches (body cfg) (Solo m₀.threads.length W) m₁ m ∧ P m₀ m := by
    refine reaches_of_script ?_ h
    exact fun hc _ => solo_of_soloAt hc
  exact ⟨m₀, m₁, m, hm₀, hspawn, hrun, hP⟩

def spoilingDefinition : Value :=
  .object [("version", "1"), ("initialState", "a"),
    ("blackboard", .object [("x", .object [("required", .array [.string "k"])])]),
    ("states", .object [("a", stateOf [("go", transitionOf "b" "deterministic" [("output", .object [("x", .nat 1)])])]),
      ("b", terminalState)])]

def spoiledScript : List GatewayAction :=
  (launch 0 "d" "1").tail ++ answers 0 5 ++ [.leave 0] ++ answers 0 1

def returned (φ : Gateway → Response → Bool) (m₀ m : Gateway) : Bool :=
  (m.threads[m₀.threads.length]?).any fun t => t.stack.atRoot && (replied t).any (φ m)

theorem returned_spec (h : returned φ m₀ m) :
    ∃ t r, m.threads[m₀.threads.length]? = some t ∧ t.stack.atRoot ∧ replied t = some r ∧ φ m r := by
  obtain ⟨t, ht, h⟩ := (any_eq_true _ _).mp h
  obtain ⟨hroot, h⟩ := and_eq_true_iff.mp h
  obtain ⟨r, hr, hφ⟩ := (any_eq_true _ _).mp h
  exact ⟨t, r, ht, hroot, hr, hφ⟩

def uneventful : Event Sig → Bool
  | .op (.storeSave ..) _ | .op (.executeEnd ..) _ | .call (.runDeterministicChain _) (.ok (.failed ..))
  | .timeout (.runDeterministicChain _) _ => false
  | _ => true

theorem not_unshown_of_uneventful {g : Trail} (h : g.2.all uneventful) : ¬ g.Unshown .plain := by
  have hat {φ : Event Sig → Prop} (hφ : ∀ e, φ e → uneventful e = false) : ¬ g.Has φ := by
    rintro ⟨e, he, hφe⟩
    cases (all_eq_true.mp h e he).symm.trans (hφ e hφe)
  rintro ((hexhausts | ⟨kind, hkind, -⟩) | hmisreports | ⟨created, bound, -, hbound, -⟩)
  · exact hat (fun e ⟨_, _, _, he, _⟩ => he ▸ rfl) hexhausts
  · cases hkind
  · refine hat (fun e he => ?_) hmisreports
    rcases he with ⟨outcome, hdrove, hshown⟩ | ⟨result, error, errorClass, t, hdrove, -⟩
    · cases outcome with
      | failed _ _ _ _ => cases hdrove <;> rfl
      | _ => cases hshown
    · cases hdrove <;> rfl
  · exact hat (fun e ⟨_, _, _, _, he⟩ => he ▸ rfl) hbound

end Praxec
