import Praxec.World

namespace Praxec

open Json Option Value

def maxWorkflowDepth : Nat := 10

section

variable (lib : Libraries) (resolveRunRepoRoot : String → Except Err String) (request : ExecuteRequest)

def recordedChild : Option String :=
  (request.workflow.context.get "_subworkflow_wait").bind fun wait =>
    match request.transition, strField wait "transition" with
    | some transition, some parked => if transition = parked then strField wait "child_workflow_id" else none
    | _, _ => none

mutual
def resolveInput (sc : Scopes) : Value → Except ExecutorError Value
  | .string s =>
      if Text.startsWith s "$." then match readInScopes sc s with
        | some v => .ok v
        | none => .error (.permanent
            s!"SUBWORKFLOW_INPUT_UNRESOLVED: legacy `input:` reference '{s}' did not resolve against the available scopes (arguments / context). Refusing to seed the child with null.")
      else .ok (.string s)
  | .object fields => (resolveInputFields sc fields).map .object
  | other => .ok other

def resolveInputFields (sc : Scopes) : Fields → Except ExecutorError (Fields)
  | [] => .ok []
  | (k, v) :: rest => do
    let resolved ← resolveInput sc v
    let others ← resolveInputFields sc rest
    return (k, resolved) :: others
end

def ExecuteRequest.scopes : Scopes :=
  ⟨request.arguments, request.workflow.context, request.workflow.input, none, some request.workflow.runEnv⟩

def subInput : Except ExecutorError Value :=
  match request.executorConfig.get "use" with
  | some useBlock => .ok (.object (resolveUseInputs request.scopes ((useBlock.get "inputs").getD .emptyObject)))
  | none => resolveInput { request.scopes with workflowInput := .emptyObject }
      ((request.executorConfig.get "input").getD .emptyObject)

def RunEnv.new (repoRoot : String) (runId traceId : Option String) : RunEnv :=
  ⟨repoRoot, runId, traceId, none, []⟩

def childRunEnv : Except ExecutorError RunEnv :=
  match strField request.executorConfig "repoRoot" with
  | none => .ok request.workflow.runEnv
  | some expr => do
    let resolved := readInScopes request.scopes expr
    let selector ← match resolved.bind Value.asStr with
      | some selector => .ok selector
      | none =>
        let shown := (resolved.map fun v => "Some(" ++ lib.debugText v ++ ")").getD "None"
        .error (.permanent
          s!"REPO_ROOT_OVERRIDE_UNRESOLVED: workflow-executor `repoRoot: {expr}` resolved to {shown}, not a path string naming a writable repo")
    let root ← (resolveRunRepoRoot selector).mapError fun e => .permanent s!"REPO_ROOT_OVERRIDE_INVALID: {e}"
    return .new root request.workflow.runEnv.runId request.workflow.runEnv.traceId

inductive ChildCall where
  | get (childId : String)
  | start (request : StartWorkflow)
deriving DecidableEq

def childCall : Except ExecutorError ChildCall := do
  let definitionId ← match strField request.executorConfig "definitionId" with
    | some definitionId => .ok definitionId
    | none => .error (.permanent "workflow executor requires 'definitionId'")
  if maxWorkflowDepth ≤ request.workflow.depth then
    .error (.permanent
      s!"WORKFLOW_DEPTH_EXCEEDED: sub-workflow nesting reached depth {request.workflow.depth + 1} (cap {maxWorkflowDepth}). Likely a cyclic or runaway `workflow`-kind transition graph. The cap exists to catch authoring bugs; legitimate nesting this deep is vanishingly rare.")
  match recordedChild request with
  | some childId => return .get childId
  | none =>
    let input ← subInput request
    let env ← childRunEnv lib resolveRunRepoRoot request
    return .start ⟨definitionId, input, .anonymous, env, request.workflow.depth + 1,
      some ⟨request.workflow.id, request.transition.getD ""⟩⟩

end

section

def rekeyOutput (projected out : Fields) (entry : String × Value) : Fields :=
  match entry.2.asStr with
  | none => out
  | some name => match projected.get entry.1 with
    | none => out
    | some v => out.insert name v

def rekeyByCapOutputName (useOutputs : Value) (projected : Fields) : Fields :=
  match useOutputs.asObject with
  | none => []
  | some bindings => bindings.foldl (rekeyOutput projected) []

variable (lib : Libraries)

def capabilityOutputs (snippetOutputs useOutputs childContext : Value) : Except (List SchemaViolation) Fields :=
  let projected := repairOutputsAgainstSnippet snippetOutputs useOutputs (projectUseOutputs useOutputs childContext)
  match validateOutputsAgainstSnippet lib snippetOutputs useOutputs projected with
  | [] => .ok (rekeyByCapOutputName useOutputs projected)
  | violations => .error violations

def concludeSubworkflow (config : Value) (definitionId childId : String) (status : MissionStatus) (context : Value) :
    Execution :=
  match status with
  | .succeeded =>
    match config.get "use" with
    | none => .ok ⟨context, [], some childId, none, none⟩
    | some useBlock =>
      match capabilityOutputs lib ((config.get "_snippetOutputs").getD .null)
          ((useBlock.get "outputs").getD .emptyObject) context with
      | .ok outputs => .ok ⟨.object outputs, [], some childId, none, none⟩
      | .error violations =>
        let shown := "; ".intercalate (violations.map fun v => v.slot ++ ": " ++ v.reason)
        .error ⟨.permanent,
          s!"schema violation: capability '{definitionId}' produced outputs failing snippet contract: {shown}", none⟩
  | .failed reason => .error (.permanent s!"sub-workflow failed ({reason.asStr})")
  | .running | .waiting => .ok ⟨.emptyObject, [], some childId, none, some (.subworkflow childId)⟩

/-- The step's result from the child's answer; a child that failed while it was started carries its own error. -/
def workflowResult (config : Value) (definitionId : String) (call : ChildCall) (response : Response) :
    Execution :=
  match call, response.status with
  | .start _, .failed reason =>
    let message := (response.error.map (·.message)).getD "sub-workflow failed at start"
    .error (.permanent s!"sub-workflow '{definitionId}' failed during start ({reason.asStr}): {message}")
  | .start _, status => concludeSubworkflow lib config definitionId response.workflow.id status response.workflow.context
  | .get childId, status => concludeSubworkflow lib config definitionId childId status response.workflow.context

end

section

variable {lib : Libraries}

variable {name : String} {schema value : Value}

theorem schemaViolation_eq_none_iff : schemaViolation lib name schema value = none ↔ Validates lib schema value := by
  unfold schemaViolation Validates
  cases lib.compileSchema schema with
  | error e => simp
  | ok validator => cases hv : validator value <;> simp [hv]

theorem get_foldl_rekey {bindings projected out : Fields} {found : Option String}
    (hall : ∀ entry ∈ bindings, ∀ n, entry.2.asStr = some n → (projected.get entry.1).isSome)
    (hout : out.get name = found.bind projected.get) : (bindings.foldl (rekeyOutput projected) out).get name =
      (bindings.foldl (fun found entry => if entry.2.asStr = some name then some entry.1 else found) found).bind
        projected.get := by
  induction bindings generalizing out found with
  | nil => exact hout
  | cons entry rest ih =>
    refine ih (fun other hother => hall other (.tail _ hother)) ?_
    cases hentry : entry.2.asStr with
    | none => simpa [rekeyOutput, hentry] using hout
    | some n =>
      obtain ⟨v, hv⟩ := isSome_iff_exists.mp (hall entry (.head _) n hentry)
      simp only [rekeyOutput, hentry, hv, Fields.get_insert, Option.some.injEq]
      by_cases hn : n = name
      · rw [if_pos hn, if_pos hn.symm, bind_some, hv]
      · rw [if_neg hn, if_neg (Ne.symm hn), hout]

variable {names bindings : Fields} {context : Value}

def direct (names : Fields) (context : Value) : Fields :=
  repairOutputsAgainstSnippet (.object names) (identityBinding names) (projectUseOutputs (identityBinding names) context)

def composed (names bindings : Fields) (context : Value) : Fields :=
  repairOutputsAgainstSnippet (.object names) (.object bindings) (projectUseOutputs (.object bindings) context)

theorem get_composed (hnames : names.Distinct) (hbindings : bindings.Distinct)
    (hmem : (name, schema) ∈ names) (hpath : byName bindings name = some path) :
    (composed names bindings context).get path = (direct names context).get name := by
  have hself := byName_identity hmem
  have hdistinct := distinct_identityBinding hnames
  refine get_repair_congr hbindings hdistinct hpath hself names ?_
  rw [get_project hbindings hpath context]
  exact (get_project hdistinct hself context).symm

theorem direct_validates (hgreen : validateOutputsAgainstSnippet lib (.object names) (identityBinding names)
    (direct names context) = []) (hmem : (name, schema) ∈ names) :
    Validates lib schema (((direct names context).get name).getD .null) := by
  have hnone := List.filterMap_eq_nil_iff.mp hgreen _ hmem
  rw [byName_identity hmem] at hnone
  exact schemaViolation_eq_none_iff.mp hnone

theorem composed_validates (hnames : names.Distinct) (hbindings : bindings.Distinct)
    (hgreen : validateOutputsAgainstSnippet lib (.object names) (identityBinding names) (direct names context) = []) :
    validateOutputsAgainstSnippet lib (.object names) (.object bindings) (composed names bindings context) = [] := by
  refine List.filterMap_eq_nil_iff.mpr fun entry hmem => ?_
  cases hpath : byName bindings entry.1 with
  | none => rfl
  | some path =>
    rw [bind_some, get_composed hnames hbindings hmem hpath]
    exact schemaViolation_eq_none_iff.mpr (direct_validates hgreen hmem)

theorem isSome_get_composed (hbindings : bindings.Distinct) {entry : String × Value} (hmem : entry ∈ bindings)
 (hname : entry.2.asStr = some name) : ((composed names bindings context).get entry.1).isSome := by
  refine isSome_get_repair ?_ names
  rw [projectUseOutputs, Value.asObject, get_foldl_project hbindings hmem hname]
  rfl

theorem rekeyed_validates (hnames : names.Distinct) (hbindings : bindings.Distinct)
    (hgreen : validateOutputsAgainstSnippet lib (.object names) (identityBinding names) (direct names context) = [])
 (hmem : (name, schema) ∈ names)
    (hvalue : (rekeyByCapOutputName (.object bindings) (composed names bindings context)).get name = some value) :
    Validates lib schema value := by
  have hget : (rekeyByCapOutputName (.object bindings) (composed names bindings context)).get name =
      (byName bindings name).bind (composed names bindings context).get :=
    get_foldl_rekey (fun _ hentry _ hn => isSome_get_composed hbindings hentry hn) rfl
  obtain ⟨path, hpath, hfound⟩ := bind_eq_some_iff.mp (hget.symm.trans hvalue)
  have hdirect := direct_validates hgreen hmem
  rw [← get_composed hnames hbindings hmem hpath, hfound] at hdirect
  exact hdirect

variable {schemas useOutputs : Value}

theorem capabilityOutputs_of_valid (h : validateOutputsAgainstSnippet lib schemas useOutputs
      (repairOutputsAgainstSnippet schemas useOutputs (projectUseOutputs useOutputs context)) = []) :
    capabilityOutputs lib schemas useOutputs context = .ok (rekeyByCapOutputName useOutputs
      (repairOutputsAgainstSnippet schemas useOutputs (projectUseOutputs useOutputs context))) := by
  simp only [capabilityOutputs, h]

theorem validate_of_not_object (h : schemas.asObject = none ∨ useOutputs.asObject = none) :
    validateOutputsAgainstSnippet lib schemas useOutputs projected = [] := by
  unfold validateOutputsAgainstSnippet
  split
  · rename_i hschemas hbindings
    rcases h with h | h
    · cases hschemas.symm.trans h
    · cases hbindings.symm.trans h
  · rfl

theorem capabilityOutputs_green (hschemas : schemas.Distinct) (huse : useOutputs.Distinct)
    (hgreen : ∀ names, schemas = .object names →
      validateOutputsAgainstSnippet lib (.object names) (identityBinding names) (direct names context) = []) :
    ∃ outputs, capabilityOutputs lib schemas useOutputs context = .ok outputs ∧
      ∀ name schema value, schemas.get name = some schema → outputs.get name = some value →
        Validates lib schema value := by
  cases hnames : schemas.asObject with
  | none =>
    refine ⟨_, capabilityOutputs_of_valid (validate_of_not_object (.inl hnames)), fun name schema value hget _ => ?_⟩
    have hnot : schemas.isObject = false := by rw [Value.isObject, hnames]; rfl
    rw [get_of_not_isObject hnot] at hget
    cases hget
  | some names =>
    obtain rfl : schemas = .object names := asObject_eq_some hnames
    cases hbindings : useOutputs.asObject with
    | none =>
      refine ⟨_, capabilityOutputs_of_valid (validate_of_not_object (.inr hbindings)), fun name schema value _ hget => ?_⟩
      rw [rekeyByCapOutputName, hbindings] at hget
      cases hget
    | some bindings =>
      obtain rfl : useOutputs = .object bindings := asObject_eq_some hbindings
      have hvalid := composed_validates (hschemas names rfl) (huse bindings rfl) (hgreen names rfl)
      refine ⟨_, capabilityOutputs_of_valid hvalid, fun name schema value hschema hvalue => ?_⟩
      exact rekeyed_validates (hschemas names rfl) (huse bindings rfl) (hgreen names rfl)
        (Fields.mem_of_get hschema) hvalue

/-- A run that passes the check of its own outputs also passes when it is composed, under any binding, and
hands its host only outputs that validate. -/
theorem composed_run_green (lib : Libraries) (definition context config useBlock : Value) (definitionId childId : String)
    (huse : config.get "use" = some useBlock) (hsnippet : config.get "_snippetOutputs" = declaredOutputs definition)
    (hschemas : ∀ schemas, declaredOutputs definition = some schemas → schemas.Distinct)
    (hbindings : ((useBlock.get "outputs").getD .emptyObject).Distinct)
    (hgreen : enforceDeclaredOutputs lib definition context = []) :
    ∃ outputs : Fields, concludeSubworkflow lib config definitionId childId .succeeded context =
        .ok ⟨.object outputs, [], some childId, none, none⟩ ∧
      ∀ schemas name schema value, declaredOutputs definition = some schemas → schemas.get name = some schema →
        outputs.get name = some value → Validates lib schema value := by
  have hdistinct : ((declaredOutputs definition).getD .null).Distinct := by
    cases hdecl : declaredOutputs definition with
    | none => exact fun _ hobject => by cases hobject
    | some schemas => exact hschemas schemas hdecl
  have hnames (names : Fields) (h : (declaredOutputs definition).getD .null = .object names) :
      validateOutputsAgainstSnippet lib (.object names) (identityBinding names) (direct names context) = [] := by
    cases hdecl : declaredOutputs definition with
    | none => rw [hdecl] at h; cases h
    | some schemas =>
      obtain rfl : schemas = .object names := by rw [hdecl] at h; exact h
      cases names with
      | nil => rfl
      | cons entry rest => simpa only [enforceDeclaredOutputs, hdecl, Value.asObject, direct] using hgreen
  obtain ⟨outputs, hok, hall⟩ := capabilityOutputs_green hdistinct hbindings hnames
  refine ⟨outputs, ?_, fun schemas name schema value hdecl hschema => ?_⟩
  · simp only [concludeSubworkflow, huse, hsnippet, hok]
  · exact hall name schema value (by rw [hdecl]; exact hschema)

def Libraries.arrays : Libraries :=
  { Libraries.plain with
    compileSchema := fun _ => .ok fun v => if v.asArray.isSome then [] else ["is not of type array"] }

def reviewDefinition : Value :=
  .object [("outputs", .object [("findings", .object [("type", "array")])])]

def reviewUse : Value :=
  .object [("outputs", .object [("$.context.first", "findings"), ("$.context.last", "findings")])]

def reviewConfig : Value :=
  .object [("kind", "workflow"), ("definitionId", "review"), ("use", reviewUse),
    ("_snippetOutputs", .object [("findings", .object [("type", "array")])])]

theorem review_composed_green :
    ∃ outputs : Fields, concludeSubworkflow .arrays reviewConfig "review" "wf_2" .succeeded .emptyObject =
        .ok ⟨.object outputs, [], some "wf_2", none, none⟩ ∧
      ∀ schemas name schema value, declaredOutputs reviewDefinition = some schemas → schemas.get name = some schema →
        outputs.get name = some value → Validates .arrays schema value := by
  refine composed_run_green .arrays reviewDefinition .emptyObject reviewConfig reviewUse "review" "wf_2" rfl rfl
    (fun schemas h => ?_) (fun fields h => ?_) (by decide)
  · cases h
    intro fields h
    cases h
    unfold Fields.Distinct
    decide
  · cases h
    unfold Fields.Distinct
    decide

end

end Praxec
