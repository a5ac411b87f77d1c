import Praxec.Runtime.Lineage

namespace Praxec

open Json Effect Prog Monitor List Bool Gateway WorkflowInstance

variable {cfg : RuntimeConfig} {Φ : Value → Value → Prop}

/-- The transition a request fires and the arguments it is seen with: its declared executor starts, its
record is written, or its snapshot is saved. -/
def Op.fires : Op → Option (Firing × Value)
  | .executeBegin (.declared f) request => some (f, request.arguments)
  | .auditTransition f record => some (f, record.arguments)
  | .storeSave (.transition f) _ _ => some (f, f.arguments)
  | _ => none

def fires : Event Sig → Option (Firing × Value)
  | .op o _ => o.fires
  | _ => none

inductive Fired (cfg : RuntimeConfig) (Φ : Value → Value → Prop) (h : History) : Firing → Prop where
  | submit {a : Admitted} {arguments : Value} (hgated : a.Gated cfg arguments h) : Fired cfg Φ h (a.firing arguments)
  | hop {args : ChainArgs} {d : Drive} {hop : Hop} (hhop : hop.Of cfg Φ args d h) : Fired cfg Φ h (hop.firing d)
  | timeout {f : Firing} (hsite : f.site = .timeout) : Fired cfg Φ h f

variable {h : History} {f : Firing}

theorem Commit.fired {next : WorkflowInstance} (hc : Commit cfg Φ h f next) : Fired cfg Φ h f := by
  cases hc with
  | submit hgated _ _ => exact .submit hgated
  | hop _ hhop _ _ _ => exact .hop hhop
  | timeout _ => exact .timeout rfl

theorem Committed.fired (hc : Committed cfg Φ K h e)
    (hf : fires e = some (f, arguments)) : Fired cfg Φ h f ∧ arguments = f.arguments := by
  cases e with
  | call p r | timeout p r => cases hf
  | op o r =>
    cases o with
    | executeBegin site request =>
      cases hc.2 with
      | submit hgated _ _ _ => cases hf; exact ⟨.submit hgated, rfl⟩
      | hop hhop _ _ _ => cases hf; exact ⟨.hop hhop, rfl⟩
      | agent _ | onEnter => cases hf
    | auditTransition f record =>
      cases hf
      obtain ⟨next, hcommit, hdescribes⟩ := hc
      exact ⟨hcommit.fired, hdescribes.arguments⟩
    | storeSave kind next v =>
      cases kind with
      | transition f =>
        cases hf
        exact ⟨hc.2.commit.fired, rfl⟩
      | _ => cases hf
    | _ => cases hf

def Accepts (lib : Libraries) (transition arguments : Value) : Prop :=
  ∀ s, transition.get "inputSchema" = some s → Validates lib s arguments

instance (lib : Libraries) (transition arguments : Value) : Decidable (Accepts lib transition arguments) :=
  decidable_of_iff (validateSchema lib (transition.get "inputSchema") arguments "" = .ok ())
    (validateSchema_ok_iff lib _ _ _)

/-- What the chain does not check: the output of an agent is valid for the transition it drives, and a
selected transition accepts the empty object. -/
def ArgumentsAccepted (cfg : RuntimeConfig) (m : Gateway) (a : GatewayAction) (_ : Gateway) : Prop :=
  ∀ p hist e, m.Appends a p hist e → AgentsMeet (Accepts cfg.lib) e ∧
    ∀ f arguments candidates, fires e = some (f, arguments) → f.site = .selected candidates →
      Accepts cfg.lib f.definition .emptyObject

theorem Fired.accepts (hf : Fired cfg (Accepts cfg.lib) h f) (hsite : f.site ≠ .timeout)
    (hselected : ∀ candidates, f.site = .selected candidates → Accepts cfg.lib f.definition .emptyObject) :
    Accepts cfg.lib f.definition f.arguments := by
  cases hf with
  | submit hgated => exact hgated.validated.valid
  | hop hhop =>
    cases hhop with
    | selected _ _ _ => exact hselected _ rfl
    | driven _ hagent => exact hagent
  | timeout ht => exact absurd ht hsite

/-- A transition runs its executor, is recorded and is committed only with arguments valid for its
`inputSchema`. -/
theorem fired_arguments_valid {definitions : Fields} {m : Gateway}
    (h : ReachableWith cfg (ArgumentsAccepted cfg) definitions m) :
    ∀ t ∈ m.threads, ∀ x ∈ t.activations, ∀ e ∈ x.2, ∀ f arguments, fires e = some (f, arguments) →
      f.site ≠ .timeout → Accepts cfg.lib f.definition arguments := by
  intro t ht x hx e he f arguments hf hsite
  have haccepted := h.appended (A := fun e => ∀ f arguments candidates, fires e = some (f, arguments) →
    f.site = .selected candidates → Accepts cfg.lib f.definition .emptyObject)
    (fun hok p hist _ _ happ => (hok p hist _ happ).2) (fun _ _ _ _ _ hf => by cases hf)
    (fun _ _ _ _ _ hf => by cases hf) rfl t ht x hx e he
  obtain ⟨before, after, hsplit⟩ := append_of_mem he
  have hcommitted := ReachableWith.committed h (fun hok p hist _ _ happ => (hok p hist _ happ).1) t ht x hx
    before e after hsplit
  obtain ⟨hfired, rfl⟩ := Committed.fired hcommitted hf
  exact hfired.accepts hsite fun candidates hs => haccepted f _ candidates hf hs

def drivenDefinition : Value :=
  definitionOf "a" [("a", stateOf [("go", transitionOf "b" "agent"
    [("inputSchema", .object [("required", .array [.string "x"])])])]), ("b", terminalState)]

def drivenScript (output : Value) : List GatewayAction :=
  launch 0 "d" "1" ++ answers 0 6 ++ [executed 0 ⟨output, [], none, none, none⟩] ++ answers 0 6

/-- The chain commits a transition with agent output that its `inputSchema` does not admit. -/
theorem driven_hop_commits_invalid_arguments : ∃ m, Reachable .requiring [("d", drivenDefinition)] m ∧
      (m.world.find "wf_1").map state = some "b" ∧
      ∃ t ∈ m.threads, ∃ x ∈ t.activations, ∃ e ∈ x.2, ∃ f arguments, fires e = some (f, arguments) ∧
        f.site ≠ .timeout ∧ ¬ Accepts .requiring f.definition arguments := by
  obtain ⟨m, hm, h⟩ := reachable_of_script .requiring [("d", drivenDefinition)] (drivenScript .emptyObject)
    (fun m => decide ((m.world.find "wf_1").map state = some "b") &&
      m.threads.any fun t => t.activations.any fun x => x.2.any fun e => (fires e).any fun fa : Firing × Value =>
        decide (fa.1.site ≠ .timeout ∧ ¬ Accepts .requiring fa.1.definition fa.2))
  simp only [and_eq_true, any_eq_true, Option.any_eq_true, decide_eq_true_eq] at h
  obtain ⟨hstate, t, ht, x, hx, e, he, fa, hfires, hsite, hinvalid⟩ := h
  exact ⟨m, hm, hstate, t, ht, x, hx, e, he, fa.1, fa.2, hfires, hsite, hinvalid⟩

def acceptedAction (cfg : RuntimeConfig) (m : Gateway) (a : GatewayAction) : Bool :=
  (match m.pending a, a with
    | some (.executeEnd (.agent transition) _), .answer _ (.executed (.ok r)) =>
        decide (Accepts cfg.lib transition r.output)
    | _, _ => true) &&
  ((m.pending a).bind Op.fires).all fun fa => decide (Accepts cfg.lib fa.1.definition .emptyObject) ||
    match fa.1.site with
    | .selected _ => false
    | _ => true

theorem argumentsAccepted_of_action (h : acceptedAction cfg m a) : ArgumentsAccepted cfg m a m' := by
  intro p hist e happ
  obtain ⟨hagent, hselected⟩ := and_eq_true_iff.mp h
  cases e with
  | call q r | timeout q r => exact ⟨trivial, fun _ _ _ hf => by cases hf⟩
  | op o r =>
    rw [happ.pending] at hagent hselected
    refine ⟨?_, fun f arguments candidates hf hsite => ?_⟩
    · cases o with
      | executeEnd site request =>
        obtain ⟨i, rfl⟩ := executed_of_appends happ
        cases site with
        | agent transition =>
          cases r with
          | ok r =>
            have haccepts : Accepts cfg.lib transition r.output := of_decide_eq_true hagent
            exact haccepts
          | error _ => trivial
        | _ => trivial
      | _ => trivial
    · have hfires : o.fires = some (f, arguments) := hf
      simpa [hfires, hsite] using hselected

theorem driven_hop_commits_valid_arguments :
    ∃ m, ReachableWith .requiring (ArgumentsAccepted .requiring) [("d", drivenDefinition)] m ∧
      (m.world.find "wf_1").map state = some "b" ∧
      ∀ t ∈ m.threads, ∀ x ∈ t.activations, ∀ e ∈ x.2, ∀ f arguments, fires e = some (f, arguments) →
        f.site ≠ .timeout → Accepts .requiring f.definition arguments := by
  obtain ⟨m, hm, h⟩ := reachableWith_of_script .requiring [("d", drivenDefinition)]
    (drivenScript (.object [("x", .nat 1)]))
    (fun m => (m.world.find "wf_1").map state = some "b")
    (acceptedAction .requiring) (fun _ _ _ => argumentsAccepted_of_action)
  exact ⟨m, hm, h, fired_arguments_valid hm⟩

def CommitSite.asksGuards : CommitSite → Bool
  | .selected [_] | .agent => false
  | _ => true

def GuardsAsked (m : Gateway) (a : GatewayAction) (_ : Gateway) : Prop :=
  ∀ p hist e, m.Appends a p hist e → ∀ f arguments, fires e = some (f, arguments) →
    f.site.asksGuards = false → guardsOf f.definition = []

theorem Fired.passed (hf : Fired cfg Φ h f) (hsite : f.site ≠ .timeout)
    (hasked : f.site.asksGuards = false → guardsOf f.definition = []) :
    Passed f.before f.arguments (guardsOf f.definition) h := by
  have hnone {inst : WorkflowInstance} {arguments : Value} {guards : List Value} (hg : guards = []) :
      Passed inst arguments guards h := by
    rw [hg]
    exact nofun
  cases hf with
  | submit hgated => exact hgated.passed
  | hop hhop =>
    cases hhop with
    | selected _ _ hguards =>
      rcases hguards with hsingle | hpassed
      · subst hsingle
        exact hnone (hasked rfl)
      · exact hpassed
    | driven _ _ => exact hnone (hasked rfl)
  | timeout ht => exact absurd ht hsite

/-- A transition runs its executor, is recorded and is committed only after each of its guards has been
evaluated to true against the instance it leaves and the arguments. -/
theorem fired_guards_passed {definitions : Fields} {m : Gateway}
    (h : ReachableWith cfg GuardsAsked definitions m) :
    ∀ t ∈ m.threads, ∀ x ∈ t.activations, ∀ before e after, x.2 = before ++ e :: after →
      ∀ f arguments, fires e = some (f, arguments) → f.site ≠ .timeout →
        Passed f.before arguments (guardsOf f.definition) before := by
  intro t ht x hx before e after hsplit f arguments hf hsite
  have he : e ∈ x.2 := hsplit ▸ mem_append_right _ (.head _)
  have hasked := h.appended (A := fun e => ∀ f arguments, fires e = some (f, arguments) →
    f.site.asksGuards = false → guardsOf f.definition = [])
    (fun hok p hist _ _ => hok p hist _) (fun _ _ _ _ hf => by cases hf) (fun _ _ _ _ hf => by cases hf) rfl t ht
    x hx e he
  have hcommitted := committed_of_reaches h t ht x hx before e after hsplit
  obtain ⟨hfired, rfl⟩ := Committed.fired hcommitted hf
  exact hfired.passed hsite (hasked f _ hf)

def guardedDefinition (others : Fields) : Value :=
  definitionOf "a" [("a", stateOf (("go", transitionOf "b" "deterministic"
    [("guards", .array [.object [("kind", "expr")]])]) :: others)), ("b", terminalState)]

def isGuardEvaluation : Event Sig → Bool
  | .op (.guardEvaluate ..) _ => true
  | _ => false

theorem not_passed_of_unevaluated {inst : WorkflowInstance} {arguments guard : Value} {guards : List Value}
 (hguard : guard ∈ guards) (hnone : ∀ e ∈ h, isGuardEvaluation e = false) : ¬ Passed inst arguments guards h := by
  intro hpassed
  obtain ⟨principal, diagnostic, hmem⟩ := hpassed guard hguard
  cases hnone _ hmem

/-- The chain commits the only transition of a state without asking its guard. -/
theorem single_candidate_commits_unguarded : ∃ m, Reachable .plain [("d", guardedDefinition [])] m ∧
      (m.world.find "wf_1").map state = some "b" ∧
      ∃ t ∈ m.threads, ∃ x ∈ t.activations, ∃ before e after, x.2 = before ++ e :: after ∧
        ∃ f arguments, fires e = some (f, arguments) ∧ f.site ≠ .timeout ∧
          ¬ Passed f.before arguments (guardsOf f.definition) before := by
  obtain ⟨m, hm, h⟩ := reachable_of_script .plain [("d", guardedDefinition [])]
    (launch 0 "d" "1" ++ answers 0 7)
    (fun m => decide ((m.world.find "wf_1").map state = some "b") &&
      m.threads.any fun t => t.activations.any fun x => x.2.all (fun e => !isGuardEvaluation e) &&
        x.2.any fun e => (fires e).any fun fa : Firing × Value =>
          decide (fa.1.site ≠ .timeout ∧ guardsOf fa.1.definition ≠ []))
  simp only [and_eq_true, any_eq_true, all_eq_true, Option.any_eq_true, decide_eq_true_eq,
    not_eq_true'] at h
  obtain ⟨hstate, t, ht, x, hx, hnone, e, he, fa, hfires, hsite, hguards⟩ := h
  obtain ⟨before, after, hsplit⟩ := append_of_mem he
  obtain ⟨guard, hguard⟩ := exists_mem_of_ne_nil _ hguards
  refine ⟨m, hm, hstate, t, ht, x, hx, before, e, after, hsplit, fa.1, fa.2, hfires, hsite, ?_⟩
  exact not_passed_of_unevaluated hguard fun e he => hnone e (hsplit ▸ mem_append_left _ he)

def askedAction (m : Gateway) (a : GatewayAction) : Bool :=
  ((m.pending a).bind Op.fires).all fun fa => fa.1.site.asksGuards || decide (guardsOf fa.1.definition = [])

theorem guardsAsked_of_action (h : askedAction m a) : GuardsAsked m a m' := by
  intro p hist e happ f arguments hf hsite
  cases e with
  | call q r | timeout q r => cases hf
  | op o r =>
    have hfires : o.fires = some (f, arguments) := hf
    rw [askedAction, happ.pending] at h
    simpa [hfires, hsite] using h

theorem candidate_with_default_commits_guarded : ∃ m, ReachableWith .plain GuardsAsked
        [("d", guardedDefinition [("else", transitionOf "b" "deterministic" [])])] m ∧
      (m.world.find "wf_1").map state = some "b" ∧
      ∀ t ∈ m.threads, ∀ x ∈ t.activations, ∀ before e after, x.2 = before ++ e :: after →
        ∀ f arguments, fires e = some (f, arguments) → f.site ≠ .timeout →
          Passed f.before arguments (guardsOf f.definition) before := by
  obtain ⟨m, hm, h⟩ := reachableWith_of_script .plain
    [("d", guardedDefinition [("else", transitionOf "b" "deterministic" [])])]
    (launch 0 "d" "1" ++ answers 0 3 ++ [.answer 0 (.verdict (.ok (true, none)))] ++ answers 0 5)
    (fun m => (m.world.find "wf_1").map state = some "b")
    askedAction (fun _ _ _ => guardsAsked_of_action)
  exact ⟨m, hm, h, fired_guards_passed hm⟩

end Praxec
