import Praxec.Guards
import Praxec.Runtime.Registered

namespace Praxec

open Json Effect List Option Value Fields Bool Gateway Text

inductive Diagnostic where
  | error (message : String)
  | warning (message : String)
deriving DecidableEq

def Diagnostic.isError : Diagnostic → Bool
  | error _ => true
  | warning _ => false

def Accepted (diagnostics : List Diagnostic) : Prop :=
  ∀ d ∈ diagnostics, d.isError = false

instance (diagnostics : List Diagnostic) : Decidable (Accepted diagnostics) :=
  inferInstanceAs (Decidable (∀ d ∈ diagnostics, _))

theorem accepted_append {ds ds' : List Diagnostic} : Accepted (ds ++ ds') ↔ Accepted ds ∧ Accepted ds' :=
  forall_mem_append

theorem accepted_flatMap {xs : List α} : Accepted (xs.flatMap f) ↔ ∀ x ∈ xs, Accepted (f x) := by
  simp only [Accepted, mem_flatMap]
  exact ⟨fun h x hx d hd => h d ⟨x, hx, hd⟩, fun h d ⟨x, hx, hd⟩ => h x hx d hd⟩

theorem not_accepted_error (message : String) : ¬ Accepted [.error message] :=
  fun h => nomatch h _ (.head _)

structure GuardLocation where
  id : String
  state : String
  transition : String

section

variable (loc : GuardLocation)

def requireOperand (guard : Value) (field label : String) : List Diagnostic :=
  if (strField guard field).any (· ≠ "") then []
  else [.error s!"INVALID_GUARD_OPERAND: workflow '{loc.id}': transition '{loc.transition}' in state '{loc.state}' declares a '{label}' guard missing a non-empty `{field}:` operand (a missing/empty operand silently denies at runtime)"]

def pushScopeWhitespaceError (id location operand : String) : List Diagnostic :=
  let trimmed := trim operand
  if operand ≠ trimmed ∧ isRootedOperand operand then
    [.error s!"SCOPE_OPERAND_WHITESPACE: workflow '{id}' {location}: scope operand '{operand}' has surrounding whitespace. Scopes are matched VERBATIM at runtime (the load-time validators trim, but `resolve_value`/`resolve_operand` do not), so this reaches the tool as the literal string '{operand}' instead of resolving. Write it exactly as '{trimmed}' — no leading or trailing spaces."]
  else []

def checkOperand (operand : String) : List Diagnostic :=
  pushScopeWhitespaceError loc.id s!"transition '{loc.transition}' in state '{loc.state}' 'expr' guard" operand ++
    if isRootedOperand operand && !isResolvableGuardScope operand then
      [.error s!"UNRESOLVABLE_GUARD_SCOPE: workflow '{loc.id}': transition '{loc.transition}' in state '{loc.state}' has an 'expr' guard whose operand '{operand}' names no resolvable scope — it would coalesce to null and make the guard always-false. Use `$.context.*`, `$.arguments.*`, `$.workflow.input.*`, `$.run.repo_root`, or `$.workflow.\x7bid,state,version\x7d`"]
    else []

def checkExpr (raw : String) : List Diagnostic :=
  if raw = "" then
    [.error s!"INVALID_GUARD_OPERAND: workflow '{loc.id}': transition '{loc.transition}' in state '{loc.state}' declares an 'expr' guard missing a non-empty `expr:` operand (a missing/empty expr silently denies at runtime)"]
  else match exprOperands raw with
    | none => [.error s!"INVALID_GUARD_EXPR: workflow '{loc.id}': transition '{loc.transition}' in state '{loc.state}' declares an 'expr' guard whose `expr:` ('{raw}') is not a parseable binary comparison (e.g. `$.context.x == \"y\"`); it would silently evaluate to false at runtime"]
    | some (lhs, rhs) => checkOperand loc lhs ++ checkOperand loc rhs

def checkStep (guard : Value) (inner : Option (List (List Diagnostic))) (body : Option (List Diagnostic)) :
    List Diagnostic :=
  match GuardKind.fromToken (rawKind guard) with
  | none =>
      let shown := if rawKind guard = "" then "<missing>" else rawKind guard
      let valid := ", ".intercalate (GuardKind.all.map GuardKind.asStr)
      [.error s!"workflow '{loc.id}': transition '{loc.transition}' in state '{loc.state}' declares guard with invalid kind '{shown}' (valid: {valid})"]
  | some .permission => requireOperand loc guard "permission" "permission"
  | some .role => requireOperand loc guard "role" "role"
  | some .guidanceAcknowledged => requireOperand loc guard "subject" "guidance_acknowledged"
  | some .scriptAcknowledged => requireOperand loc guard "subject" "script_acknowledged"
  | some .expr | some .jsonpath => checkExpr loc ((strField guard "expr").getD "")
  | some .allOf | some .anyOf => (inner.getD []).flatten
  | some .not => body.getD []
  | some .evidence | some .amplifierContract => []

def checkGuardKindRecursive (guard : Value) : List Diagnostic :=
  foldGuard (checkStep loc) guard

theorem checkGuardKindRecursive_eq {guard : Value} : checkGuardKindRecursive loc guard = checkStep loc guard
    ((innerGuards guard).map fun inner => inner.map (checkGuardKindRecursive loc))
    ((guard.get "guard").map (checkGuardKindRecursive loc)) :=
  foldGuard_eq guard

end

def checkTransitionGuards (loc : GuardLocation) (transition : Value) : List Diagnostic :=
  (guardsOf transition).flatMap (checkGuardKindRecursive loc) ++
    (((transition.get "branches").bind Value.asArray).getD []).flatMap fun branch =>
      ((branch.get "when").map (checkGuardKindRecursive loc)).getD []

def validateGuardKinds (id : String) (definition : Value) : List Diagnostic :=
  (((definition.get "states").bind Value.asObject).getD []).flatMap fun state =>
    (((state.2.get "transitions").bind Value.asObject).getD []).flatMap fun transition =>
      checkTransitionGuards ⟨id, state.1, transition.1⟩ transition.2

variable {guard : Value}

section

def lacksBody (guard : Value) : Bool :=
  match GuardKind.fromToken (rawKind guard) with
  | some .allOf | some .anyOf => (innerGuards guard).isNone
  | some .not => (guard.get "guard").isNone
  | _ => false

def bodied (guard : Value) : Bool :=
  foldGuard (fun guard inner body => !lacksBody guard && match GuardKind.fromToken (rawKind guard) with
    | some .allOf | some .anyOf => (inner.getD []).all id
    | some .not => body.getD true
    | _ => true) guard

theorem bodied_eq : bodied guard = (!lacksBody guard && match GuardKind.fromToken (rawKind guard) with
    | some .allOf | some .anyOf => (((innerGuards guard).map fun inner => inner.map bodied).getD []).all id
    | some .not => ((guard.get "guard").map bodied).getD true
    | _ => true) :=
  foldGuard_eq guard

def evaluateStrictly (cfg : RuntimeConfig) (env : GuardEnv) (inst : WorkflowInstance) (arguments : Value)
    (principal : Principal) (guard : Value) : Except GuardFault Bool :=
  foldGuard (fun guard inner body =>
    if lacksBody guard then .error .missingGuard else evaluateStep cfg env inst arguments principal guard inner body) guard

variable (cfg : RuntimeConfig) (env : GuardEnv) (inst : WorkflowInstance) (arguments : Value) (principal : Principal)

theorem evaluateStrictly_eq : evaluateStrictly cfg env inst arguments principal guard =
    if lacksBody guard then .error .missingGuard
    else evaluateStep cfg env inst arguments principal guard
      ((innerGuards guard).map fun inner => inner.map (evaluateStrictly cfg env inst arguments principal))
      ((guard.get "guard").map (evaluateStrictly cfg env inst arguments principal)) :=
  foldGuard_eq guard

theorem evaluateStrictly_of_bodied (h : bodied guard) :
    evaluateStrictly cfg env inst arguments principal guard = evaluate cfg env inst arguments principal guard := by
  induction guard using guard_induction with
  | h guard ihinner ihbody =>
    rw [bodied_eq, and_eq_true, not_eq_true'] at h
    obtain ⟨hbody, h⟩ := h
    rw [evaluateStrictly_eq, hbody, if_neg Bool.false_ne_true, evaluate_eq]
    have hinner (hall : (((innerGuards guard).map fun inner => inner.map bodied).getD []).all id) :
        ((innerGuards guard).map fun inner => inner.map (evaluateStrictly cfg env inst arguments principal)).getD [] =
          ((innerGuards guard).map fun inner => inner.map (evaluate cfg env inst arguments principal)).getD [] := by
      cases hguards : innerGuards guard with
      | none => rfl
      | some inner =>
        rw [hguards] at hall
        exact map_congr_left fun g hg =>
          ihinner inner hguards g hg (all_eq_true.mp hall _ (mem_map_of_mem hg))
    unfold evaluateStep
    cases hkind : GuardKind.fromToken (rawKind guard) with
    | none => rfl
    | some kind =>
      rw [hkind] at h
      cases kind with
      | allOf => exact congrArg allPass (hinner h)
      | anyOf => exact congrArg (anyPass none) (hinner h)
      | not =>
        cases hget : guard.get "guard" with
        | none => rfl
        | some g =>
          rw [hget] at h
          dsimp only [map_some]
          rw [ihbody g hget h]
      | _ => rfl

end

section

variable {cfg : RuntimeConfig} {env : GuardEnv} {inst : WorkflowInstance} {arguments : Value} {principal : Principal}
  {loc : GuardLocation}

def Configured (verdict : Except GuardFault α) : Prop :=
  ∀ fault, verdict = .error fault → fault.isConfiguration = false

theorem Configured.ok (v : α) : Configured (.ok v) :=
  nofun

theorem Configured.error {fault : GuardFault} (h : fault.isConfiguration = false) :
    Configured (.error fault : Except GuardFault α) := by
  rintro _ ⟨⟩
  exact h

theorem Configured.map {verdict : Except GuardFault α} (h : Configured verdict) (f : α → β) :
    Configured (verdict.map f) := by
  cases verdict with
  | ok v => exact .ok _
  | error fault => exact .error (h fault rfl)

theorem Configured.bind {verdict : Except GuardFault α} (h : Configured verdict)
    (hf : ∀ v, Configured (f v)) : Configured (verdict >>= f) := by
  cases verdict with
  | ok v => exact hf v
  | error fault => exact .error (h fault rfl)

theorem stripStart_eq_none (h : (stripStart root.toList s.toList).map String.ofList = none) :
    startsWith s root = false := by
  unfold stripStart at h
  split at h
  · cases h
  · rename_i hprefix
    exact eq_false_iff.mpr hprefix

theorem resolveOperand_configured (h : isRootedOperand s → isResolvableGuardScope s) :
    Configured (resolveOperand cfg.lib env inst arguments s) := by
  unfold resolveOperand
  dsimp only
  split
  · exact .ok _
  split
  · exact .ok _
  split
  · exact .ok _
  split
  · exact .ok _
  split
  · exact .ok _
  split
  · split
    · exact .ok _
    · exact .error rfl
  split
  · exact .ok _
  split
  · exact .ok _
  split
  · rename_i hid hstate hversion hroot _ hcontext _ harguments _ hinput hrooted
    have hcontext := stripStart_eq_none hcontext
    have harguments := stripStart_eq_none harguments
    have hinput := stripStart_eq_none hinput
    have hresolvable := h (by simpa [isRootedOperand] using hrooted)
    simp [isResolvableGuardScope, hid, hstate, hversion, hroot, hcontext, harguments, hinput] at hresolvable
  · exact .ok _

theorem checkOperand_accepted (h : Accepted (checkOperand loc operand)) :
    isRootedOperand operand → isResolvableGuardScope operand := by
  intro hrooted
  have hscope := (accepted_append.mp h).2
  split at hscope
  · exact absurd hscope (not_accepted_error _)
  · rename_i hnames
    simpa [hrooted] using hnames

theorem evalExpr_configured {expr : String} (h : Accepted (checkExpr loc expr)) :
    Configured (evalExpr cfg.lib env inst arguments expr) := by
  unfold checkExpr exprOperands at h
  split at h
  · exact absurd h (not_accepted_error _)
  unfold evalExpr
  cases hparse : parseBinaryExpr expr with
  | none =>
    rw [hparse] at h
    exact absurd h (not_accepted_error _)
  | some e =>
    rw [hparse] at h
    obtain ⟨hleft, hright⟩ := accepted_append.mp h
    exact .bind (resolveOperand_configured (checkOperand_accepted hleft)) fun _ =>
      .bind (resolveOperand_configured (checkOperand_accepted hright)) fun _ => .ok _

theorem allPass_configured {verdicts : List (Except GuardFault Bool)} (h : ∀ v ∈ verdicts, Configured v) :
    Configured (allPass verdicts) := by
  induction verdicts with
  | nil => exact .ok _
  | cons verdict rest ih =>
    rcases verdict with fault | (_ | _)
    · exact .error (h _ (.head _) fault rfl)
    · exact .ok _
    · exact ih fun v hv => h v (.tail _ hv)

theorem anyPass_configured {verdicts : List (Except GuardFault Bool)} {first : Option GuardFault}
    (h : ∀ v ∈ verdicts, Configured v) (hfirst : ∀ fault, first = some fault → fault.isConfiguration = false) :
    Configured (anyPass first verdicts) := by
  induction verdicts generalizing first with
  | nil =>
    cases first with
    | none => exact .ok _
    | some fault => exact .error (hfirst fault rfl)
  | cons verdict rest ih =>
    have hrest (v : Except GuardFault Bool) (hv : v ∈ rest) : Configured v := h v (.tail _ hv)
    rcases verdict with fault | (_ | _)
    · refine ih hrest fun f hf => ?_
      cases first with
      | none =>
        cases hf
        exact h _ (.head _) _ rfl
      | some _ => exact hfirst f hf
    · exact ih hrest hfirst
    · exact .ok _

theorem evaluateEvidence_configured : Configured (evaluateEvidence cfg.lib env guard inst) := by
  unfold evaluateEvidence
  dsimp only
  split
  · exact .ok _
  split
  · exact .error rfl
  split <;> exact .ok _

theorem evaluateAcknowledged_configured {kind : GuardKind} {library : String}
    {unknown : String → GuardFault} {store : Option (String → String → Except Err (Option String))}
    (h : ∀ subject, (unknown subject).isConfiguration = false) :
    Configured (evaluateAcknowledged inst guard kind library unknown store) := by
  unfold evaluateAcknowledged
  split
  · exact .error rfl
  split
  · exact .error (h _)
  split
  · exact .ok _
  split
  · exact .error rfl
  · exact .ok _

theorem evaluate_configured (h : Accepted (checkGuardKindRecursive loc guard)) (hbodied : bodied guard) :
    Configured (evaluate cfg env inst arguments principal guard) := by
  induction guard using guard_induction with
  | h guard ihinner ihbody =>
    rw [evaluate_eq]
    rw [checkGuardKindRecursive_eq] at h
    rw [bodied_eq, and_eq_true] at hbodied
    obtain ⟨hbody, hbodied⟩ := hbodied
    unfold evaluateStep
    unfold checkStep at h
    unfold lacksBody at hbody
    have hverdicts (hinner : Accepted (((innerGuards guard).map fun inner =>
        inner.map (checkGuardKindRecursive loc)).getD []).flatten)
        (hbodies : (((innerGuards guard).map fun inner => inner.map bodied).getD []).all id) :
        ∀ v ∈ ((innerGuards guard).map fun inner => inner.map (evaluate cfg env inst arguments principal)).getD [],
          Configured v := by
      cases hguards : innerGuards guard with
      | none => exact nofun
      | some inner =>
        rw [hguards] at hinner hbodies
        intro v hv
        obtain ⟨g, hg, rfl⟩ := mem_map.mp hv
        have hchecked : Accepted (checkGuardKindRecursive loc g) := fun d hd =>
          hinner d (mem_flatten.mpr ⟨_, mem_map_of_mem hg, hd⟩)
        exact ihinner inner hguards g hg hchecked (all_eq_true.mp hbodies _ (mem_map_of_mem hg))
    split
    · rename_i hkind
      rw [hkind] at h
      exact absurd h (not_accepted_error _)
    · split
      · exact .error rfl
      · split
        · exact .error rfl
        · exact .ok _
    · exact .ok _
    · exact .ok _
    · rename_i hkind
      rw [hkind] at h
      exact evalExpr_configured h
    · rename_i hkind
      rw [hkind] at h
      exact evalExpr_configured h
    · rename_i hkind
      rw [hkind] at h hbodied
      exact allPass_configured (hverdicts h hbodied)
    · rename_i hkind
      rw [hkind] at h hbodied
      exact anyPass_configured (hverdicts h hbodied) nofun
    · rename_i hkind
      rw [hkind] at h hbody hbodied
      cases hget : guard.get "guard" with
      | none =>
        rw [hget] at hbody
        cases hbody
      | some g =>
        rw [hget] at h hbodied
        exact (ihbody g hget h hbodied).map _
    · exact evaluateAcknowledged_configured fun _ => rfl
    · exact evaluateAcknowledged_configured fun _ => rfl
    · exact (evaluateEvidence_configured).map _

theorem evaluateWithDiagnostic_configured (h : Accepted (checkGuardKindRecursive loc guard))
    (hbodied : bodied guard) : Configured (evaluateWithDiagnostic cfg env inst arguments principal guard) := by
  unfold evaluateWithDiagnostic
  split
  · exact evaluateEvidence_configured
  · exact (evaluate_configured h hbodied).map _

end

section

/-- What the load-time checks of a definition's guards take for granted: that states and transitions are objects, that
`while` guards and outcome checks would pass them too, and that every compound guard has its body. -/
structure GuardsWhole (id : String) (definition : Value) : Prop where
  states : ∀ v, definition.get "states" = some v → v.isObject = true
  transitions : ∀ state stateDef v, stateDefinition definition state = some stateDef → stateDef.get "transitions" = some v →
    v.isObject = true
  loops : ∀ state stateDef guard, stateDefinition definition state = some stateDef → stateDef.get "while" = some guard →
    Accepted (checkGuardKindRecursive ⟨id, state, "while"⟩ guard)
  outcomes : ∀ outcome ∈ ((definition.get "outcomes").bind Value.asArray).getD [],
    Accepted (checkGuardKindRecursive ⟨id, "", "outcomes"⟩ (outcomeGuard outcome))
  bodies : ∀ guard, Guards definition guard → bodied guard = true

variable {id : String} {definition : Value}

theorem HasTransition.walked {transition : Value} (ht : HasTransition definition transition)
    (hstates : ∀ v, definition.get "states" = some v → v.isObject)
    (htransitions : ∀ state stateDef v, stateDefinition definition state = some stateDef →
      stateDef.get "transitions" = some v → v.isObject) :
    ∃ states state stateDef transitions name, (definition.get "states").bind Value.asObject = some states ∧
      (state, stateDef) ∈ states ∧ (stateDef.get "transitions").bind Value.asObject = some transitions ∧
      (name, transition) ∈ transitions := by
  have hentered {state : String} {stateDef : Value} (hstate : stateDefinition definition state = some stateDef) :
      ∃ states, (definition.get "states").bind Value.asObject = some states ∧ (state, stateDef) ∈ states := by
    obtain ⟨v, hv, hstep⟩ := bind_eq_some_iff.mp hstate
    rw [step_eq_get definition (by decide)] at hv
    obtain ⟨fields, rfl⟩ := (isObject_iff v).mp (hstates v hv)
    obtain ⟨w, hw, hsome⟩ := bind_eq_some_iff.mp hstep
    cases hsome
    exact ⟨fields, by rw [hv]; rfl, mem_of_get hw⟩
  have hlisted {state : String} {transitions : Value}
      (hwalk : definition.walk ["states", state, "transitions"] = some transitions) :
      ∃ stateDef, stateDefinition definition state = some stateDef ∧ stateDef.get "transitions" = some transitions := by
    rw [show ["states", state, "transitions"] = ["states", state] ++ ["transitions"] from rfl, walk_append] at hwalk
    obtain ⟨stateDef, hstate, hstep⟩ := bind_eq_some_iff.mp hwalk
    obtain ⟨w, hw, hsome⟩ := bind_eq_some_iff.mp hstep
    cases hsome
    rw [step_eq_get stateDef (by decide)] at hw
    exact ⟨stateDef, hstate, hw⟩
  cases ht with
  | @found state name h =>
    unfold transitionDefinition at h
    rw [show ["states", state, "transitions", name] = ["states", state, "transitions"] ++ [name] from rfl,
      walk_append] at h
    obtain ⟨v, hwalk, hstep⟩ := bind_eq_some_iff.mp h
    obtain ⟨stateDef, hstate, hget⟩ := hlisted hwalk
    obtain ⟨fields, rfl⟩ := (isObject_iff v).mp (htransitions state stateDef v hstate hget)
    obtain ⟨w, hw, hsome⟩ := bind_eq_some_iff.mp hstep
    cases hsome
    obtain ⟨states, hobject, hmem⟩ := hentered hstate
    exact ⟨states, state, stateDef, fields, name, hobject, hmem, by rw [hget]; rfl, mem_of_get hw⟩
  | @listed state name transitions h hmem =>
    obtain ⟨v, hwalk, hobject⟩ := bind_eq_some_iff.mp h
    obtain ⟨stateDef, hstate, hget⟩ := hlisted hwalk
    obtain ⟨states, hstates, hstate⟩ := hentered hstate
    exact ⟨states, state, stateDef, transitions, name, hstates, hstate, by rw [hget]; exact hobject, hmem⟩

theorem Guards.checked (hg : Guards definition guard) (haccepted : Accepted (validateGuardKinds id definition))
    (hwhole : GuardsWhole id definition) :
    (∃ loc, Accepted (checkGuardKindRecursive loc guard)) ∧ bodied guard := by
  refine ⟨?_, hwhole.bodies guard hg⟩
  have hchecked {transition : Value} (ht : HasTransition definition transition) :
      ∃ loc, Accepted (checkTransitionGuards loc transition) := by
    obtain ⟨states, state, stateDef, transitions, name, hstates, hstate, htransitions, hname⟩ :=
      ht.walked hwhole.states hwhole.transitions
    unfold validateGuardKinds at haccepted
    rw [hstates] at haccepted
    have hentry := accepted_flatMap.mp haccepted (state, stateDef) hstate
    rw [htransitions] at hentry
    exact ⟨_, accepted_flatMap.mp hentry (name, transition) hname⟩
  cases hg with
  | transition ht hg =>
    obtain ⟨loc, hloc⟩ := hchecked ht
    exact ⟨loc, accepted_flatMap.mp (accepted_append.mp hloc).1 _ hg⟩
  | branch ht hbranches hb hwhen =>
    obtain ⟨loc, hloc⟩ := hchecked ht
    have hbranch := (accepted_append.mp hloc).2
    rw [hbranches] at hbranch
    have hguard := accepted_flatMap.mp hbranch _ hb
    rw [hwhen] at hguard
    exact ⟨loc, hguard⟩
  | loop hs hwhile => exact ⟨_, hwhole.loops _ _ _ hs hwhile⟩
  | outcome ho => exact ⟨_, hwhole.outcomes _ ho⟩

end

section

variable {cfg : RuntimeConfig} {m : Gateway} {t : Thread Sig} {x : Proc × History} {guard arguments : Value}
  {inst : WorkflowInstance} {principal : Principal}

/-- Where every definition is accepted and whole, no guard of a run is at fault by itself, and none passes for want of a
body. -/
theorem accepted_guards_configured (hm : Reachable cfg definitions m)
    (haccepted : ∀ id definition, definitions.lookup id = some definition →
      Accepted (validateGuardKinds id definition) ∧ GuardsWhole id definition)
    (ht : t ∈ m.threads) (hx : x ∈ t.activations) (he : .op (.guardEvaluate guard inst arguments principal) r ∈ x.2)
    (env : GuardEnv) :
    Configured (evaluateWithDiagnostic cfg env inst arguments principal guard) ∧
      evaluateStrictly cfg env inst arguments principal guard = evaluate cfg env inst arguments principal guard := by
  obtain ⟨definition, ⟨id, hid⟩, hguard⟩ := ReachableWith.guards hm ht hx he
  obtain ⟨hvalid, hwhole⟩ := haccepted id definition hid
  obtain ⟨⟨loc, hchecked⟩, hbodied⟩ := hguard.checked hvalid hwhole
  exact ⟨evaluateWithDiagnostic_configured hchecked hbodied, evaluateStrictly_of_bodied cfg env inst arguments principal hbodied⟩

end

def twiceGuarded (guard loop : Value) : Value :=
  definitionOf "a" [("a", .object [("while", loop), ("max_iterations", .nat 3),
    ("transitions", .object [("go", transitionOf "b" "deterministic" [("guards", .array [guard])])])]), ("b", terminalState)]

def twiceGuardedScript (r : Except GuardError (Bool × Option String)) : List GatewayAction :=
  launch 0 "d" "1" ++ .spawn (.submit (goSubmit "wf_1" 0)) :: answers 1 1 ++ [.answer 1 (.fresh "2")] ++ answers 1 1 ++
    [.answer 1 (.verdict (.ok (true, none)))] ++ answers 1 1 ++ [.answer 1 (.verdict r)]

def answersGuard (guard : Value) (r : Except GuardError (Bool × Option String)) : Event Sig → Bool
  | .op (.guardEvaluate asked ..) (answer : Except GuardError (Bool × Option String)) => decide (asked = guard ∧ answer = r)
  | _ => false

theorem answersGuard_spec {hist : History} (h : hist.any (answersGuard guard r)) :
    ∃ inst arguments principal, .op (.guardEvaluate guard inst arguments principal) r ∈ hist := by
  obtain ⟨e, he, h⟩ := any_eq_true.mp h
  unfold answersGuard at h
  split at h
  · obtain ⟨rfl, rfl⟩ := of_decide_eq_true h
    exact ⟨_, _, _, he⟩
  · cases h

def asksBoth (guard loop : Value) (r : Except GuardError (Bool × Option String)) (m : Gateway) : Bool :=
  m.threads.any fun t => t.activations.any fun x =>
    x.2.any (answersGuard guard (.ok (true, none))) && x.2.any (answersGuard loop r)

def emptyAllOf : Value :=
  .object [("kind", "all_of")]

def unknownKind : Value :=
  .object [("kind", "nope")]

/-- An accepted definition whose transition guard passes for want of a body and whose `while` guard is of no known
kind. -/
theorem accepted_guards_misconfigured : ∃ m, Reachable .plain [("d", twiceGuarded emptyAllOf unknownKind)] m ∧
    Accepted (validateGuardKinds "d" (twiceGuarded emptyAllOf unknownKind)) ∧
    ∃ t ∈ m.threads, ∃ x ∈ t.activations,
      (∃ inst arguments principal, .op (.guardEvaluate emptyAllOf inst arguments principal) (.ok (true, none)) ∈ x.2 ∧
        ∀ env, evaluate .plain env inst arguments principal emptyAllOf = .ok true ∧
          evaluateStrictly .plain env inst arguments principal emptyAllOf = .error .missingGuard) ∧
      ∃ inst arguments principal fault,
        .op (.guardEvaluate unknownKind inst arguments principal) (.error fault.toError) ∈ x.2 ∧
        fault.isConfiguration = true ∧
        ∀ env, evaluateWithDiagnostic .plain env inst arguments principal unknownKind = .error fault := by
  obtain ⟨m, hm, h⟩ := reachable_of_script .plain [("d", twiceGuarded emptyAllOf unknownKind)]
    (twiceGuardedScript (.error (GuardFault.invalidKind "nope").toError))
    (asksBoth emptyAllOf unknownKind (.error (GuardFault.invalidKind "nope").toError) ·)
  obtain ⟨t, ht, h⟩ := any_eq_true.mp h
  obtain ⟨x, hx, h⟩ := any_eq_true.mp h
  obtain ⟨hguard, hloop⟩ := and_eq_true_iff.mp h
  obtain ⟨inst, arguments, principal, hguard⟩ := answersGuard_spec hguard
  obtain ⟨inst', arguments', principal', hloop⟩ := answersGuard_spec hloop
  refine ⟨m, hm, by decide +kernel, t, ht, x, hx, ⟨inst, arguments, principal, hguard, fun env => ⟨rfl, rfl⟩⟩,
    inst', arguments', principal', _, hloop, rfl, fun env => rfl⟩

def lacksRole : Value :=
  .object [("kind", "not"), ("guard", .object [("kind", "role"), ("role", "guest")])]

def atState : Value :=
  .object [("kind", "expr"), ("expr", "$.workflow.state == \"a\"")]

theorem guarded_states (h : stateDefinition (twiceGuarded lacksRole atState) state = some stateDef) :
    (state = "a" ∧ stateDef = .object [("while", atState), ("max_iterations", .nat 3), ("transitions",
    .object [("go", transitionOf "b" "deterministic" [("guards", .array [lacksRole])])])]) ∨
    (state = "b" ∧ stateDef = terminalState) := by
  obtain ⟨v, hv, hsome⟩ := bind_eq_some_iff.mp h
  cases hsome
  rcases mem_cons.mp (mem_of_get hv) with h | h
  · exact .inl (Prod.mk.inj h)
  · exact .inr (Prod.mk.inj (mem_singleton.mp h))

theorem guarded_whole : GuardsWhole "d" (twiceGuarded lacksRole atState) := by
  have hstates : ∀ v, (twiceGuarded lacksRole atState).get "states" = some v → v.isObject := by
    rintro v ⟨⟩
    rfl
  have htransitions : ∀ state stateDef v, stateDefinition (twiceGuarded lacksRole atState) state = some stateDef →
      stateDef.get "transitions" = some v → v.isObject := by
    intro state stateDef v hstate hv
    rcases guarded_states hstate with ⟨rfl, rfl⟩ | ⟨rfl, rfl⟩ <;> cases hv
    rfl
  have htransition {transition : Value} (ht : HasTransition (twiceGuarded lacksRole atState) transition) :
      transition = transitionOf "b" "deterministic" [("guards", .array [lacksRole])] := by
    obtain ⟨states, state, stateDef, transitions, name, ⟨⟩, hstate, hfields, hname⟩ := ht.walked hstates htransitions
    rcases mem_cons.mp hstate with h | h
    · obtain ⟨-, rfl⟩ := Prod.mk.inj h
      cases hfields
      exact (Prod.mk.inj (mem_singleton.mp hname)).2
    · obtain ⟨-, rfl⟩ := Prod.mk.inj (mem_singleton.mp h)
      cases hfields
  refine ⟨hstates, htransitions, ?_, nofun, ?_⟩
  · intro state stateDef guard hstate hwhile
    rcases guarded_states hstate with ⟨rfl, rfl⟩ | ⟨rfl, rfl⟩ <;> cases hwhile
    decide +kernel
  · intro guard hguard
    cases hguard with
    | transition ht hg =>
      cases htransition ht
      cases mem_singleton.mp hg
      decide +kernel
    | branch ht hbranches =>
      cases htransition ht
      cases hbranches
    | loop hstate hwhile =>
      rcases guarded_states hstate with ⟨rfl, rfl⟩ | ⟨rfl, rfl⟩ <;> cases hwhile
      decide +kernel
    | outcome ho => cases ho

theorem guarded_run_configured : ∃ m, Reachable .plain [("d", twiceGuarded lacksRole atState)] m ∧
    ∃ t ∈ m.threads, ∃ x ∈ t.activations, ∃ inst arguments principal,
      .op (.guardEvaluate atState inst arguments principal) (.ok (true, none)) ∈ x.2 ∧
      ∀ env, Configured (evaluateWithDiagnostic .plain env inst arguments principal atState) ∧
        evaluateStrictly .plain env inst arguments principal atState = evaluate .plain env inst arguments principal atState := by
  obtain ⟨m, hm, h⟩ := reachable_of_script .plain [("d", twiceGuarded lacksRole atState)]
    (twiceGuardedScript (.ok (true, none))) (asksBoth lacksRole atState (.ok (true, none)) ·)
  obtain ⟨t, ht, h⟩ := any_eq_true.mp h
  obtain ⟨x, hx, h⟩ := any_eq_true.mp h
  obtain ⟨-, hloop⟩ := and_eq_true_iff.mp h
  obtain ⟨inst, arguments, principal, hloop⟩ := answersGuard_spec hloop
  refine ⟨m, hm, t, ht, x, hx, inst, arguments, principal, hloop, accepted_guards_configured hm ?_ ht hx hloop⟩
  intro id definition hlookup
  obtain ⟨rfl, rfl⟩ := Prod.mk.inj (mem_singleton.mp (mem_of_get hlookup))
  exact ⟨by decide +kernel, guarded_whole⟩

end Praxec
