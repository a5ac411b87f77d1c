import Praxec.Runtime.Solo

namespace Praxec

open Json Effect Prog Monitor Option Gateway Trail Machine WorkflowInstance

variable {cfg : RuntimeConfig} {W state : String} {m : Gateway} {a : GatewayAction} {e : Event Sig}

def Unadvanced (W state : String) (w : World) (own base : Trail) : Prop :=
  base.Has Advances ∨ own.1.isDrive = true ∨ (w.find W).map WorkflowInstance.state = some state

theorem advances_of_callee (he : e.callee = some p) (hp : p.isDrive) : Advances e := by
  cases e with
  | op o r => cases he
  | call q r | timeout q r =>
    cases he
    cases p with
    | runDeterministicChain args => trivial
    | _ => cases hp

theorem Unadvanced.hears (h : Unadvanced W state w own base)
    (hears : Hears Proc.isDrive e last own base own' base') : Unadvanced W state w own' base' := by
  cases hears with
  | inner hown hbase => rwa [hown, hbase]
  | event hown _ hbase =>
    refine h.imp (fun hadvances => ?_) fun hrest => by rwa [hown]
    rcases hbase with rfl | rfl
    · exact hadvances
    · exact hadvances.snoc e
  | left hcallee hp _ hown hbase =>
    rw [hbase]
    exact .inl (has_last (advances_of_callee hcallee hp))

theorem stays_or_advances (hm : m.Lineage cfg Φ) (hact : m.act (body cfg) a = some m')
    (hstate : (m.world.find W).map WorkflowInstance.state = some state)
    (he : ∀ p hist e', m.Appends a p hist e' → e' = e) :
    Advances e ∨ (m'.world.find W).map WorkflowInstance.state = some state := by
  rcases hm.journal_step hact with ⟨-, hsame⟩ | ⟨write, -, hadded, hfind⟩
  · rw [World.find, hsame]
    exact .inr hstate
  rw [hfind]
  split
  · rename_i hid
    subst hid
    cases hadded with
    | created _ hnew _ =>
      rw [StoreWrite.inst, hnew] at hstate
      cases hstate
    | saved _ happ hstored _ hrebound _ hsaves =>
      rcases hsaves.state with hkept | ⟨f, rfl⟩
      · rw [StoreWrite.inst, hstored] at hstate
        cases hstate
        refine .inr (congrArg some ?_)
        rw [StoreWrite.inst, hkept, ← hrebound.rest]
      · cases he _ _ _ happ
        exact .inl trivial
  · exact .inr hstate

/-- A state of a gateway in which the run is where it was before task `i`, if it is still there, moves it. -/
structure Awaited (cfg : RuntimeConfig) (definitions : Fields) (i : Nat) (W state : String) (m : Gateway) :
    Prop where
  reachable : Reachable cfg definitions m
  spawned : i < m.threads.length
  unadvanced : ∀ t, m.threads[i]? = some t → Unadvanced W state m.world (t.own Proc.isDrive) t.base

theorem Unadvanced.world (h : Unadvanced W state w own base) (hfind : w'.find W = w.find W) :
    Unadvanced W state w' own base := by
  unfold Unadvanced
  rwa [hfind]

theorem Awaited.step (hm : Awaited cfg definitions i W state m) (hact : m.act (body cfg) a = some m')
    (hok : Solo i W m a m') : Awaited cfg definitions i W state m' := by
  have hlineage := lineage_of_reaches hm.reachable
  have hnowrite (ha : ∀ j input, a ≠ .answer j input) : m'.world.find W = m.world.find W :=
    hlineage.find_unwritten hact (unwritten_of_not_answer ha)
  have hspawned := Nat.lt_of_lt_of_le hm.spawned (length_of_act hact hok.1)
  refine ⟨hm.reachable.step hact trivial, hspawned, fun t ht => ?_⟩
  cases moves hact ht with
  | kept ht₀ htask =>
    exact (hm.unadvanced t ht₀).world (hlineage.find_unwritten hact (hok.unwritten fun h => absurd h htask))
  | spawn _ hlength => exact absurd hm.spawned (by omega)
  | @answer input p hist o k stack r ht₀ hr =>
    have hold := hm.unadvanced _ ht₀
    cases howns : stack.owns Proc.isDrive with
    | false =>
      have hfind := hlineage.find_unwritten hact (hok.unwritten fun _ t' ht' => by cases ht₀.symm.trans ht'; exact howns)
      have hnew := hold.world hfind
      unfold Thread.own Thread.base at hnew ⊢
      rw [Stack.own_eq_of_not_owns howns hist, Stack.base_append_of_not_owns howns]
      exact hnew
    | true =>
      have hevent : ∀ p' hist' e', m.Appends (.answer i input) p' hist' e' → e' = .op o r := by
        intro p' hist' e' happ
        cases happ with
        | answer ht' hr' =>
          cases ht₀.symm.trans ht'
          cases hr.symm.trans hr'
          rfl
      unfold Thread.own Thread.base at hold ⊢
      cases hroot : stack.atRoot with
      | false =>
        refine .inr (.inl ?_)
        rw [Stack.own_of_owns howns]
        exact Stack.owned howns hroot
      | true =>
        rw [Stack.own_of_owns howns, Stack.base_of_atRoot hroot] at hold ⊢
        rcases hold with hadvances | hdrive | hstate
        · exact .inl (hadvances.snoc (.op o r))
        · exact .inr (.inl hdrive)
        · rcases stays_or_advances hlineage hact hstate hevent with hadvances | hstays
          · exact .inl (has_last (g := (p, hist)) hadvances)
          · exact .inr (.inr hstays)
  | enter ht₀ he =>
    have hnew := (hm.unadvanced _ ht₀).world (hnowrite nofun)
    obtain ⟨hbase, hown | ⟨-, hdrive, hown⟩⟩ := Thread.own_enter (φ := Proc.isDrive) he
    · rwa [hown, hbase]
    · rw [hown]
      exact .inr (.inl hdrive)
  | leave ht₀ hl => exact ((hm.unadvanced _ ht₀).world (hnowrite nofun)).hears (Thread.hears_leave hl)
  | expire ht₀ he =>
    obtain ⟨q, last, hears⟩ := Stack.hears_expire (φ := Proc.isDrive) he _
    exact ((hm.unadvanced _ ht₀).world (hnowrite nofun)).hears hears

/-- What a submit that failed returns: an error, a refusal, or a failure of the executor of its transition. -/
def FailedSubmit : Except Err Response → Prop
  | .error _ => True
  | .ok r => r.hint = .rejected ∨ ∃ message detail, r.error = some ⟨"EXECUTOR_FAILED", message, detail⟩

/-- The run of a submit that failed, and that nobody else interfered with, is in the state it was in before, unless the
call chained a next transition or something failed after a commit. -/
theorem failed_submit_stays {m₀ m₁ : Gateway} (hm₀ : Reachable cfg definitions m₀) {request : SubmitTransition}
    {inst : WorkflowInstance} (hstored : m₀.world.find request.workflowId = some inst)
    (hspawn : m₀.act (body cfg) (.spawn (.submit request)) = some m₁)
    (hrun : Reaches (body cfg) (Solo m₀.threads.length request.workflowId) m₁ m) {hist : History}
    {v : Except Err Response} {stack : Stack Sig (Proc.submit request)} (hroot : stack.atRoot = true)
    (ht : m.threads[m₀.threads.length]? = some ⟨Proc.submit request, hist, .pure v, stack⟩)
    (hfailed : FailedSubmit v) (hnext : ¬ Has (.submit request, hist) SelectsNext)
    (hfaulted : ¬ Faulted (.submit request, hist)) :
    ∃ stored, m.world.find request.workflowId = some stored ∧ stored.state = inst.state := by
  have hspawned : Awaited cfg definitions m₀.threads.length request.workflowId inst.state m₁ := by
    refine ⟨hm₀.step hspawn trivial, ?_, fun t _ => .inr (.inr ?_)⟩
    · cases act_cases hspawn with
      | spawn _ => simp
    · cases act_cases hspawn with
      | spawn _ => exact congrArg (Option.map state) hstored
  have hawaited := hrun.invariant hspawned fun h hact hok => h.step hact hok
  have hreturned := ReachableWith.returned hawaited.reachable (List.mem_of_getElem? ht)
  have huncommitted : Uncommitted (.submit request, hist) := by
    cases v with
    | error e => exact (hreturned.1.resolve_right hfaulted).resolve_right hnext
    | ok r => exact (hreturned.refused hfailed).resolve_right hnext
  have hunadvanced := hawaited.unadvanced _ ht
  unfold Thread.own Thread.base at hunadvanced
  rw [Stack.own_of_owns (Stack.owns_of_atRoot hroot), Stack.base_of_atRoot hroot] at hunadvanced
  rcases hunadvanced with hadvances | hdrive | hstate
  · exact absurd hadvances huncommitted
  · cases hdrive
  · exact map_eq_some_iff.mp hstate

def entryDefinition : Value :=
  definitionOf "a" [("a", stateOf [("go", transitionOf "b" "caller" [])]),
    ("b", .object [("onEnter", .object [("executor", .object [("kind", "noop")])]),
      ("transitions", .object [("go", transitionOf "b" "caller" [])])])]

def entryFailsScript : List GatewayAction :=
  answers 1 1 ++ [.answer 1 (.fresh "2")] ++ answers 1 5 ++ [.answer 1 (.executed (.error (.permanent "no")))] ++ answers 1 1

def submitFailed (request : SubmitTransition) : Thread Sig → Bool
  | ⟨.submit request', _, .pure (.error _), .root _⟩ => decide (request' = request)
  | ⟨.submit request', _, .pure (.ok r), .root _⟩ => decide (request' = request ∧ r.hint = .rejected)
  | _ => false

theorem submitFailed_spec {request : SubmitTransition} {t : Thread Sig} (h : submitFailed request t) :
    ∃ hist v, ∃ stack : Stack Sig (Proc.submit request), stack.atRoot ∧
      t = ⟨Proc.submit request, hist, .pure v, stack⟩ ∧ FailedSubmit v := by
  unfold submitFailed at h
  split at h
  · cases of_decide_eq_true h
    exact ⟨_, _, _, rfl, rfl, trivial⟩
  · obtain ⟨rfl, hhint⟩ := of_decide_eq_true h
    exact ⟨_, _, _, rfl, rfl, .inl hhint⟩
  · cases h

/-- A submit whose state fails on entry returns an error, and the run has moved. -/
theorem failed_submit_advances : ∃ m₀ m₁ m, Reachable .plain [("d", entryDefinition)] m₀ ∧
    (∃ inst, m₀.world.find "wf_1" = some inst ∧ inst.state = "a") ∧
    m₀.act (body .plain) (.spawn (.submit (goSubmit "wf_1" 0))) = some m₁ ∧
    Reaches (body .plain) (Solo m₀.threads.length "wf_1") m₁ m ∧
    (∃ hist v, ∃ stack : Stack Sig (Proc.submit (goSubmit "wf_1" 0)), stack.atRoot = true ∧
      m.threads[m₀.threads.length]? = some ⟨Proc.submit (goSubmit "wf_1" 0), hist, .pure v, stack⟩ ∧ FailedSubmit v) ∧
    ∃ stored, m.world.find "wf_1" = some stored ∧ stored.state = "b" := by
  obtain ⟨m₀, m₁, m, hm₀, hspawn, hrun, h⟩ := solo_of_scripts .plain [("d", entryDefinition)] (launch 0 "d" "1")
    (.submit (goSubmit "wf_1" 0)) entryFailsScript "wf_1" (fun m₀ m =>
      (m.threads[m₀.threads.length]?).any (submitFailed (goSubmit "wf_1" 0)) &&
        decide ((m₀.world.find "wf_1").map state = some "a" ∧
          (m.world.find "wf_1").map state = some "b")) (by decide +kernel)
  obtain ⟨hfailed, hstates⟩ := Bool.and_eq_true_iff.mp h
  obtain ⟨t, ht, hfailed⟩ := (any_eq_true _ _).mp hfailed
  obtain ⟨hist, v, stack, hroot, rfl, hv⟩ := submitFailed_spec hfailed
  obtain ⟨hbefore, hafter⟩ := of_decide_eq_true hstates
  exact ⟨m₀, m₁, m, hm₀, map_eq_some_iff.mp hbefore, hspawn, hrun, ⟨hist, v, stack, hroot, ht, hv⟩,
    map_eq_some_iff.mp hafter⟩

def inert : Event Sig → Bool
  | .op (.storeSave ..) _ | .op (.executeEnd ..) _ | .call (.runDeterministicChain _) _
  | .timeout (.runDeterministicChain _) _ => false
  | _ => true

theorem not_has_of_inert {g : Trail} (h : g.2.all inert) {φ : Event Sig → Prop} (hφ : ∀ e, φ e → inert e = false) :
    ¬ g.Has φ := by
  rintro ⟨e, he, hφe⟩
  cases (List.all_eq_true.mp h e he).symm.trans (hφ e hφe)

theorem Advances.not_inert {e : Event Sig} (he : Advances e) : inert e = false := by
  unfold Advances at he
  split at he
  · rfl
  · rfl
  · rfl
  · exact he.elim

theorem stale_submit_stays : ∃ m₀ m₁ m, Reachable .plain [("d", entryDefinition)] m₀ ∧
    m₀.act (body .plain) (.spawn (.submit (goSubmit "wf_1" 5))) = some m₁ ∧
    Reaches (body .plain) (Solo m₀.threads.length "wf_1") m₁ m ∧
    (∃ hist v, ∃ stack : Stack Sig (Proc.submit (goSubmit "wf_1" 5)), stack.atRoot = true ∧
      m.threads[m₀.threads.length]? = some ⟨Proc.submit (goSubmit "wf_1" 5), hist, .pure v, stack⟩ ∧ FailedSubmit v) ∧
    ∃ inst stored, m₀.world.find "wf_1" = some inst ∧ m.world.find "wf_1" = some stored ∧ stored.state = inst.state := by
  obtain ⟨m₀, m₁, m, hm₀, hspawn, hrun, h⟩ := solo_of_scripts .plain [("d", entryDefinition)] (launch 0 "d" "1")
    (.submit (goSubmit "wf_1" 5)) (answers 1 1 ++ [.answer 1 (.fresh "2")] ++ answers 1 3) "wf_1" (fun m₀ m =>
      (m.threads[m₀.threads.length]?).any (fun t => submitFailed (goSubmit "wf_1" 5) t && t.hist.all inert) &&
        (m₀.world.find "wf_1").isSome) (by decide +kernel)
  obtain ⟨hthread, hstored⟩ := Bool.and_eq_true_iff.mp h
  obtain ⟨t, ht, hthread⟩ := (any_eq_true _ _).mp hthread
  obtain ⟨hfailed, hinert⟩ := Bool.and_eq_true_iff.mp hthread
  obtain ⟨hist, v, stack, hroot, rfl, hv⟩ := submitFailed_spec hfailed
  obtain ⟨inst, hinst⟩ := isSome_iff_exists.mp hstored
  have hnext : ¬ Has (Proc.submit (goSubmit "wf_1" 5), hist) SelectsNext :=
    not_has_of_inert hinert fun e ⟨_, _, _, he, _⟩ => he ▸ rfl
  have hfaulted : ¬ Faulted (Proc.submit (goSubmit "wf_1" 5), hist) := by
    rintro (⟨before, e, after, hsplit, ⟨x, hx, hadvances⟩, -⟩ | hdrive | ⟨saved, ⟨e, he, _, _, _, _, heq⟩, -⟩)
    · have hmem : x ∈ hist := by
        rw [show hist = before ++ e :: after from hsplit]
        exact List.mem_append_left _ hx
      exact not_has_of_inert (g := (Proc.submit (goSubmit "wf_1" 5), hist)) hinert (fun _ => Advances.not_inert)
        ⟨x, hmem, hadvances⟩
    · exact not_has_of_inert hinert (fun e he => by cases he <;> rfl) hdrive
    · exact not_has_of_inert hinert (φ := (· = e)) (fun _ h => h ▸ heq ▸ rfl) ⟨e, he, rfl⟩
  obtain ⟨stored, hfind, hstate⟩ := failed_submit_stays hm₀ hinst hspawn hrun hroot ht hv hnext hfaulted
  exact ⟨m₀, m₁, m, hm₀, hspawn, hrun, ⟨hist, v, stack, hroot, ht, hv⟩, inst, stored, hinst, hfind, hstate⟩

end Praxec
