import Mathlib.Data.List.Dedup
import Praxec.Executors.Workflow
import Praxec.Expr

namespace Praxec

open Json List

def defaultMaxRecursionDepth : Nat := 3

def ungovernedCapThreshold : Nat := 10

inductive JoinCondition where
  | all
  | any
  | atLeast (k : Nat)
  | percent (p : Nat)
  | aggregator (config : Value)
deriving DecidableEq

inductive OnBranchFailure where
  | bail | continued
deriving DecidableEq

inductive Verdict where
  | succeeded | failed | thresholdNotMet
deriving DecidableEq

inductive BranchesSpec where
  | literal (branches : List Value)
  | forEach (path : String) (doTemplate : Value) (whereClause : Option String) (itemInputSchema : Option Value)
deriving DecidableEq

structure ParallelConfig where
  join : JoinCondition
  maxConcurrency : Option Nat
  onBranchFailure : OnBranchFailure
  totalTimeout : Option Nat
  maxRecursionDepth : Nat
  branchesSpec : BranchesSpec
deriving DecidableEq

namespace JoinCondition

def asToken : JoinCondition → String
  | all => "all"
  | any => "any"
  | atLeast _ => "at_least"
  | percent _ => "percent"
  | aggregator config => match strField config "kind" with
    | some "expression" => "expression"
    | some "script" => "aggregator_script"
    | some "mcp" => "aggregator_mcp"
    | some "rest" => "aggregator_rest"
    | some "workflow" => "aggregator_workflow"
    | some "cli" => "aggregator_cli"
    | _ => "aggregator"

def percentThreshold (p n : Nat) : Nat :=
  (p * n + 99) / 100

end JoinCondition

def Verdict.asToken : Verdict → String
  | succeeded => "succeeded"
  | failed => "failed"
  | thresholdNotMet => "threshold_not_met"

section

def invalidParallel {α : Type} (message : String) : Except ExecutorError α :=
  .error (.permanent ("INVALID_PARALLEL_CONFIG: " ++ message))

def orInvalid {α : Type} (message : String) : Option α → Except ExecutorError α
  | some v => .ok v
  | none => invalidParallel message

def liftInputSchema (template : Value) : Except ExecutorError (Value × Option Value) :=
  match template.get "inputSchema" with
  | none => .ok (template, none)
  | some (.object schema) => .ok (template.remove "inputSchema", some (.object schema))
  | some _ => invalidParallel
      "dynamic `branches.do.inputSchema` must be a JSON Schema object (the map-boundary per-item input contract)"

def parseWhere : Option Value → Except ExecutorError (Option String)
  | none => .ok none
  | some (.string s) =>
      if Text.isBlank s then invalidParallel "dynamic `branches.where` must be non-empty when present" else .ok (some s)
  | some _ => invalidParallel
      "dynamic `branches.where` must be a string expression (paths `$.value`, `$.index`, plus literals and binary comparisons)"

def BranchesSpec.fromValue : Value → Except ExecutorError BranchesSpec
  | .array branches => .ok (.literal branches)
  | .object fields => do
      let path ← orInvalid
        "dynamic `branches` requires `for_each: <path>` (string path resolving to a JSON array)"
        (strField (.object fields) "for_each")
      let template ← orInvalid
        "dynamic `branches` requires `do: <executor config>` (per-branch executor template)" (Fields.get fields "do")
      let (doTemplate, itemInputSchema) ← liftInputSchema template
      let whereClause ← parseWhere (Fields.get fields "where")
      return .forEach path doTemplate whereClause itemInputSchema
  | _ => invalidParallel "`branches` must be either an array of executor configs OR an object with `for_each` + `do`"

variable (lib : Libraries)

def parseJoinObject (fields : Fields) : Except ExecutorError JoinCondition :=
  match Fields.get fields "at_least" with
  | some k => match k.asU64 with
    | none => invalidParallel "`join.at_least` must be a positive integer"
    | some 0 => invalidParallel "`join.at_least` must be > 0 (got 0)"
    | some k => .ok (.atLeast k)
  | none => match Fields.get fields "percent" with
    | some p => match p.asU64 with
      | none => invalidParallel "`join.percent` must be an integer in 0..=100"
      | some p =>
          if 100 < p then invalidParallel s!"`join.percent` must be in 0..=100 (got {p})" else .ok (.percent p)
    | none => match Fields.get fields "expression" with
      | some e => match e.asStr with
        | none => invalidParallel "`join.expression` must be a string"
        | some e =>
            if Text.isBlank e then invalidParallel "`join.expression` must be non-empty"
            else .ok (.aggregator (.object [("kind", "expression"), ("expr", .string e)]))
      | none => match Fields.get fields "aggregator" with
        | some (.object aggregator) =>
            let kind := (strField (.object aggregator) "kind").getD ""
            let expr := (strField (.object aggregator) "expr").getD ""
            if kind = "" then
              invalidParallel "`join.aggregator.kind` is required (e.g. `expression`, `script`, `mcp`, `rest`, `workflow`, `cli`)"
            else if kind = "expression" ∧ Text.isBlank expr then
              invalidParallel "`join.aggregator.kind = expression` requires non-empty `expr:` field"
            else .ok (.aggregator (.object aggregator))
        | some _ => invalidParallel "`join.aggregator` must be an executor-shaped object with at least `kind:`"
        | none => unknownJoin (.object fields)
where
  unknownJoin (other : Value) : Except ExecutorError JoinCondition :=
    invalidParallel ("unknown `join` value: " ++ lib.toText other ++
      ". Allowed: \"all\", \"any\", \x7bat_least: K\x7d, \x7bpercent: 0..=100\x7d, \x7baggregator: \x7bkind: ..., ...\x7d\x7d, or sugar \x7bexpression: \"<expr>\"\x7d")

def JoinCondition.fromValue : Option Value → Except ExecutorError JoinCondition
  | none => .ok .all
  | some (.string "all") => .ok .all
  | some (.string "any") => .ok .any
  | some (.object fields) => parseJoinObject lib fields
  | some other => parseJoinObject.unknownJoin lib other

def OnBranchFailure.fromValue (value : Option Value) : Except ExecutorError OnBranchFailure :=
  match (value.bind Value.asStr).getD "bail" with
  | "bail" => .ok .bail
  | "continue" => .ok .continued
  | other => invalidParallel s!"`on_branch_failure` must be \"bail\" or \"continue\" (got \"{other}\")"

def ParallelConfig.fromValue (config : Value) : Except ExecutorError ParallelConfig := do
  let branchesRaw ← orInvalid
    "missing `branches` (required: literal array OR `\x7bfor_each: <path>, do: <executor config>\x7d`)"
    (config.get "branches")
  let branchesSpec ← BranchesSpec.fromValue branchesRaw
  let join ← JoinCondition.fromValue lib (config.get "join")
  let maxConcurrency := u64Field config "max_concurrency"
  if maxConcurrency = some 0 then
    invalidParallel "`max_concurrency` must be positive (got 0)"
  let onBranchFailure ← OnBranchFailure.fromValue (config.get "on_branch_failure")
  -- a depth is narrowed to 32 bits
  let maxRecursionDepth := ((u64Field config "max_recursion_depth").map (· % 2 ^ 32)).getD defaultMaxRecursionDepth
  return ⟨join, maxConcurrency, onBranchFailure, u64Field config "total_timeout_ms", maxRecursionDepth, branchesSpec⟩

end

section

mutual
def substituteBranchTemplate (index : Nat) (value : Value) : Value → Value
  | .string s =>
      if s = "$.branch.index" then .nat index else if s = "$.branch.value" then value else .string s
  | .array xs => .array (substituteBranchList index value xs)
  | .object fields => .object (substituteBranchFields index value fields)
  | other => other

def substituteBranchList (index : Nat) (value : Value) : List Value → List Value
  | [] => []
  | x :: xs => substituteBranchTemplate index value x :: substituteBranchList index value xs

def substituteBranchFields (index : Nat) (value : Value) : Fields → Fields
  | [] => []
  | (k, v) :: rest => (k, substituteBranchTemplate index value v) :: substituteBranchFields index value rest
end

def segmentBranchIdempotencyKey (config : Value) (index : Nat) : Value :=
  match config.get "idempotencyKey" with
  | some (.bool true) => config.insert "idempotencyKey"
      (.string s!"\x7bworkflowId\x7d.\x7btransition\x7d.\x7bcorrelationId\x7d:branch:{index}")
  | some (.string template) => config.insert "idempotencyKey" (.string s!"{template}:branch:{index}")
  | _ => config

variable (lib : Libraries) (parseF64 : String → Option Nat)

def validateAgainstSchema (schema value : Value) (label : String) : Except String Unit :=
  match lib.compileSchema schema with
  | .error e => .error s!"invalid {label} schema: {e}"
  | .ok validator => match validator value with
    | [] => .ok ()
    | errors => .error (label ++ ": " ++ "; ".intercalate errors)

def checkItems (schema : Value) : List (Value × Nat) → Except ExecutorError Unit
  | [] => .ok ()
  | (value, index) :: rest => match validateAgainstSchema lib schema value "parallel map-boundary item input" with
    | .ok () => checkItems schema rest
    | .error e => .error (.permanent
        s!"PARALLEL_MAP_INPUT_VIOLATION: for_each item at index {index} does not conform to the worker's `do.inputSchema` — {e}")

def keepsItem (whereClause : Option String) (item : Value × Nat) : Bool :=
  match whereClause with
  | none => true
  | some expr => evaluateJoinExpression lib parseF64 expr (.object [("value", item.1), ("index", .nat item.2)])

/-- The executor configs of the branches; a branch keeps the position that its element has in the array. -/
def resolveBranches (config : ParallelConfig) (request : ExecuteRequest) : Except ExecutorError (List Value) :=
  match config.branchesSpec with
  | .literal branches => .ok branches
  | .forEach path doTemplate whereClause itemInputSchema =>
      match readInScopes request.scopes path with
      | none => invalidParallel
          s!"`for_each: {path}` did not resolve to any value in scopes ($.context, $.workflow.input, $.arguments)"
      | some (.array xs) => do
          let kept := xs.zipIdx.filter (keepsItem lib parseF64 whereClause)
          match itemInputSchema with
          | some schema => checkItems lib schema kept
          | none => .ok ()
          return kept.map fun item => substituteBranchTemplate item.2 item.1 doTemplate
      | some resolved => invalidParallel
          s!"`for_each: {path}` resolved to a non-array value ({shortKind resolved}); for_each requires an array source"

/-- The fan-out of one parallel step, `depth` of which are around it: the configs that its branches run, or why none
does. -/
def fanOut (depth : Nat) (request : ExecuteRequest) : Except ExecutorError (List Value) := do
  let config ← ParallelConfig.fromValue lib request.executorConfig
  if config.maxRecursionDepth ≤ depth then
    throw (.permanent
      s!"PARALLEL_DEPTH_EXCEEDED: nested parallel reached depth {depth + 1} (cap {config.maxRecursionDepth}). Override with `max_recursion_depth` on the parallel executor config if this nesting is intentional; default cap exists to catch authoring bugs that produce exponential fan-out.")
  let branches ← resolveBranches lib parseF64 config request
  let n := branches.length
  if ungovernedCapThreshold ≤ n ∧ config.maxConcurrency = none then
    throw (.permanent
      s!"INVALID_PARALLEL_CONFIG: {n} branches without `max_concurrency` cap. At {ungovernedCapThreshold}+ branches, set `max_concurrency: N` explicitly to prevent runaway resource consumption against rate-limited downstreams (SPEC §24, F4 mitigation).")
  return branches.zipIdx.map fun branch => segmentBranchIdempotencyKey branch.1 branch.2

end

section

abbrev Joined := Option (Nat × Execution)

structure Gathered where
  branchResults : List (Option Value)
  aggregatedEvidence : List Evidence
  okCount : Nat
  failedCount : Nat
  firstFailureIndex : Option Nat
deriving DecidableEq

namespace Gathered

def empty (n : Nat) : Gathered :=
  ⟨List.replicate n none, [], 0, 0, none⟩

def succeed (g : Gathered) (index : Nat) (res : ExecuteResult) : Gathered :=
  { g with
    okCount := g.okCount + 1
    aggregatedEvidence := g.aggregatedEvidence ++ res.evidence
    branchResults := g.branchResults.set index
      (some (.object [("ok", .bool true), ("index", .nat index), ("output", res.output)])) }

def fail (g : Gathered) (index : Nat) (err : ExecutorError) : Gathered :=
  { g with
    failedCount := g.failedCount + 1
    firstFailureIndex := g.firstFailureIndex.or (some index)
    branchResults := g.branchResults.set index
      (some (.object [("ok", .bool false), ("index", .nat index), ("error", .object
        [("code", .string err.errorClass.token), ("message", .string err.message)])])) }

def take (g : Gathered) (index : Nat) : Execution → Gathered
  | .ok res => g.succeed index res
  | .error err => g.fail index err

def drain (g : Gathered) : List Joined → Gathered
  | [] => g
  | none :: rest => drain g rest
  | some (index, result) :: rest =>
      drain (if (g.branchResults[index]?).join = none then g.take index result else g) rest

end Gathered

variable (join : JoinCondition) (onFailure : OnBranchFailure) (n : Nat)

def JoinCondition.reached (okCount : Nat) : Bool :=
  match join with
  | .any => true
  | .atLeast k => k ≤ okCount
  | .percent p => percentThreshold p n ≤ okCount
  | .all | .aggregator _ => false

def JoinCondition.lost (okCount failedCount : Nat) : Bool :=
  match join with
  | .atLeast k => okCount + (n - okCount - failedCount) < k
  | .percent p => okCount + (n - okCount - failedCount) < percentThreshold p n
  | .all | .any | .aggregator _ => false

def endsJoin (g : Gathered) : Execution → Bool
  | .ok _ => join.reached n g.okCount
  | .error _ => onFailure = .bail || join.lost n g.okCount g.failedCount

def gather (g : Gathered) : List Joined → Gathered
  | [] => g
  | none :: rest => gather { g with failedCount := g.failedCount + 1 } rest
  | some (index, result) :: rest =>
      let taken := g.take index result
      if endsJoin join onFailure n taken result then taken.drain rest else gather taken rest

structure JoinOutcome where
  branchResults : List Value
  aggregatedEvidence : List Evidence
  okCount : Nat
  failedCount : Nat
  cancelledCount : Nat
  firstFailureIndex : Option Nat
deriving DecidableEq

def cancelledBranch (index : Nat) : Value :=
  .object [("ok", .bool false), ("index", .nat index), ("error", .object
    [("code", "cancelled"), ("message", "branch cancelled before completion")])]

def driveJoinset (arrivals : List Joined) : JoinOutcome :=
  let g := gather join onFailure n (.empty n) arrivals
  ⟨g.branchResults.zipIdx.map fun slot => slot.1.getD (cancelledBranch slot.2), g.aggregatedEvidence, g.okCount,
    g.failedCount, n - g.okCount - g.failedCount, g.firstFailureIndex⟩

def Joined.isOk : Joined → Bool
  | some (_, .ok _) => true
  | _ => false

def Joined.isFinished : Joined → Bool
  | some (_, .ok res) => res.suspend.isNone
  | _ => false

def Joined.evidence : Joined → List Evidence
  | some (_, .ok res) => res.evidence
  | _ => []

def EndOnce (arrivals : List Joined) : Prop :=
  (arrivals.filterMap fun a => a.map Prod.fst).Nodup

def Gathered.Awaits (g : Gathered) (arrivals : List Joined) : Prop :=
  ∀ index result, some (index, result) ∈ arrivals → (g.branchResults[index]?).join = none

theorem Gathered.take_okCount (g : Gathered) (index : Nat) (result : Execution) :
    (g.take index result).okCount = g.okCount + if Joined.isOk (some (index, result)) then 1 else 0 := by
  cases result <;> rfl

theorem Gathered.take_evidence (g : Gathered) (index : Nat) (result : Execution) :
    (g.take index result).aggregatedEvidence = g.aggregatedEvidence ++ Joined.evidence (some (index, result)) := by
  cases result with
  | ok res => rfl
  | error err => exact (append_nil _).symm

variable {g : Gathered}

theorem Gathered.take_awaits (hawaits : g.Awaits (some (index, result) :: rest))
    (honce : EndOnce (some (index, result) :: rest)) : (g.take index result).Awaits rest := by
  intro other result' hmem
  have hne : index ≠ other := by
    rintro rfl
    exact (nodup_cons.mp honce).1 (mem_filterMap.mpr ⟨_, hmem, rfl⟩)
  have hset (v : Option Value) : ((g.branchResults.set index v)[other]?).join = none := by
    rw [getElem?_set_ne hne]
    exact hawaits other result' (.tail _ hmem)
  cases result <;> exact hset _

theorem EndOnce.tail (h : EndOnce (a :: rest)) : EndOnce rest := by
  cases a with
  | none => exact h
  | some pair => exact (nodup_cons.mp h).2

variable {arrivals : List Joined}

theorem Gathered.drain_counts (hawaits : g.Awaits arrivals)
    (honce : EndOnce arrivals) : (g.drain arrivals).okCount = g.okCount + arrivals.countP Joined.isOk ∧
      (g.drain arrivals).aggregatedEvidence = g.aggregatedEvidence ++ arrivals.flatMap Joined.evidence := by
  induction arrivals generalizing g with
  | nil => simp [drain]
  | cons a rest ih =>
    cases a with
    | none => exact ih (fun index result h => hawaits index result (.tail _ h)) honce.tail
    | some pair =>
      obtain ⟨index, result⟩ := pair
      obtain ⟨hcount, hevidence⟩ := ih (take_awaits hawaits honce) honce.tail
      rw [drain, if_pos (hawaits index result (.head _)), hcount, hevidence, take_okCount, take_evidence,
        countP_cons, append_assoc]
      exact ⟨by omega, rfl⟩

theorem gather_counts (hawaits : g.Awaits arrivals) (honce : EndOnce arrivals) :
    (gather join onFailure n g arrivals).okCount = g.okCount + arrivals.countP Joined.isOk ∧
      (gather join onFailure n g arrivals).aggregatedEvidence =
        g.aggregatedEvidence ++ arrivals.flatMap Joined.evidence := by
  induction arrivals generalizing g with
  | nil => simp [gather]
  | cons a rest ih =>
    cases a with
    | none =>
      exact ih (g := { g with failedCount := g.failedCount + 1 }) (fun index result h => hawaits index result (.tail _ h))
        honce.tail
    | some pair =>
      obtain ⟨index, result⟩ := pair
      have htaken := Gathered.take_awaits hawaits honce
      have hrest : ∀ g' : Gathered, g'.okCount = (g.take index result).okCount + rest.countP Joined.isOk ∧
          g'.aggregatedEvidence = (g.take index result).aggregatedEvidence ++ rest.flatMap Joined.evidence →
          g'.okCount = g.okCount + (some (index, result) :: rest).countP Joined.isOk ∧
            g'.aggregatedEvidence = g.aggregatedEvidence ++ (some (index, result) :: rest).flatMap Joined.evidence := by
        rintro g' ⟨hcount, hevidence⟩
        rw [hcount, hevidence, Gathered.take_okCount, Gathered.take_evidence, countP_cons, append_assoc]
        exact ⟨by omega, rfl⟩
      rw [gather]
      split
      · exact hrest _ (Gathered.drain_counts htaken honce.tail)
      · exact hrest _ (ih htaken honce.tail)

theorem driveJoinset_counts (honce : EndOnce arrivals) :
    (driveJoinset join onFailure n arrivals).okCount = arrivals.countP Joined.isOk ∧
      (driveJoinset join onFailure n arrivals).aggregatedEvidence = arrivals.flatMap Joined.evidence := by
  have hfree : (Gathered.empty n).Awaits arrivals := by
    intro index result _
    simp only [Gathered.empty, getElem?_replicate]
    split <;> rfl
  obtain ⟨hcount, hevidence⟩ := gather_counts join onFailure n hfree honce
  exact ⟨by rw [driveJoinset, hcount]; exact Nat.zero_add _, by rw [driveJoinset, hevidence]; rfl⟩

theorem countP_finished_iff :
    arrivals.countP Joined.isOk = arrivals.countP Joined.isFinished ↔ ∀ a ∈ arrivals, a.isOk → a.isFinished := by
  have hle (a : Joined) : a.isFinished → a.isOk := by
    unfold Joined.isFinished Joined.isOk
    split <;> simp
  have hmono (rest : List Joined) : rest.countP Joined.isFinished ≤ rest.countP Joined.isOk :=
    countP_mono_left fun a _ => hle a
  induction arrivals with
  | nil => simp
  | cons a rest ih =>
    have hrest := hmono rest
    rw [countP_cons, countP_cons, forall_mem_cons]
    refine Iff.trans ?_ (and_congr_right fun _ => ih)
    cases hok : a.isOk with
    | false =>
      have hfinished : a.isFinished = false := by
        rw [← Bool.not_eq_true]
        exact fun h => by simp [hle a h] at hok
      simp [hfinished]
    | true =>
      cases hfinished : a.isFinished with
      | true => simp
      | false => simp; omega

theorem driveJoinset_finished_iff (honce : EndOnce arrivals) :
    ((driveJoinset join onFailure n arrivals).okCount = arrivals.countP Joined.isFinished ∧
      (driveJoinset join onFailure n arrivals).aggregatedEvidence = (arrivals.filter Joined.isFinished).flatMap Joined.evidence) ↔
    ∀ a ∈ arrivals, a.isOk → a.isFinished := by
  obtain ⟨hcount, hevidence⟩ := driveJoinset_counts join onFailure n honce
  rw [hcount, hevidence, countP_finished_iff]
  refine ⟨And.left, fun h => ⟨h, ?_⟩⟩
  clear hcount hevidence honce
  induction arrivals with
  | nil => rfl
  | cons a rest ih =>
    have hrest := ih fun b hb => h b (.tail _ hb)
    cases hfinished : a.isFinished with
    | true => rw [filter_cons_of_pos hfinished, flatMap_cons, flatMap_cons, hrest]
    | false =>
      have hnone : a.evidence = [] := by
        have hok := h a (.head _)
        unfold Joined.evidence
        unfold Joined.isOk at hok
        split
        · simp [hfinished] at hok
        · rfl
      rw [filter_cons_of_neg (by simp [hfinished]), flatMap_cons, hnone, nil_append, hrest]

end

section

variable (lib : Libraries) (parseF64 : String → Option Nat) (registered : String → Bool)
  (aggregate : ExecuteRequest → Execution) (join : JoinCondition) (n : Nat)
  (outcome : JoinOutcome) (request : ExecuteRequest)

def aggregatorInput : Value :=
  .object [("branches", .array outcome.branchResults), ("ok_count", .nat outcome.okCount),
    ("failed_count", .nat outcome.failedCount), ("cancelled_count", .nat outcome.cancelledCount), ("n", .nat n)]

def aggregatedVerdict (config : Value) : Except ExecutorError Verdict :=
  let kind := (strField config "kind").getD ""
  if kind = "expression" then
    match strField config "expr" with
    | none => .ok .failed
    | some expr =>
        .ok (if evaluateJoinExpression lib parseF64 expr (aggregatorInput n outcome) then .succeeded else .failed)
  else if registered kind then do
    let res ← aggregate { request with
      arguments := aggregatorInput n outcome
      executorConfig := config
      idempotencyKey := request.idempotencyKey.map (· ++ ":aggregator") }
    match strField res.output "verdict" with
    | some "succeeded" => return .succeeded
    | some "threshold_not_met" => return .thresholdNotMet
    | _ => return .failed
  else .ok .failed

def computeVerdict : Except ExecutorError Verdict :=
  match join with
  | .all => .ok (if outcome.failedCount = 0 ∧ outcome.cancelledCount = 0 ∧ outcome.okCount = n then .succeeded else .failed)
  | .any => .ok (if 1 ≤ outcome.okCount then .succeeded else .failed)
  | .atLeast k => .ok (if k ≤ outcome.okCount then .succeeded else .thresholdNotMet)
  | .percent p => .ok (if n = 0 ∨ JoinCondition.percentThreshold p n ≤ outcome.okCount then .succeeded else .thresholdNotMet)
  | .aggregator config => aggregatedVerdict lib parseF64 registered aggregate n outcome request config

def fanOutSummary (token : String) (verdict : Verdict) (elapsedMs maxInFlight : Nat) : Value :=
  .object [("n", .nat n), ("ok_count", .nat outcome.okCount), ("failed_count", .nat outcome.failedCount),
    ("cancelled_count", .nat outcome.cancelledCount), ("durationMs", .nat elapsedMs),
    ("first_failure_index", (outcome.firstFailureIndex.map Value.nat).getD .null),
    ("max_in_flight_observed", .nat maxInFlight), ("join", .string token), ("verdict", .string verdict.asToken)]

def concludeJoin (elapsedMs maxInFlight : Nat) : Execution := do
  let token := join.asToken
  match ← computeVerdict lib parseF64 registered aggregate join n outcome request with
  | .succeeded => return ⟨.object [("branches", .array outcome.branchResults),
      ("summary", fanOutSummary n outcome token .succeeded elapsedMs maxInFlight)], outcome.aggregatedEvidence, none, none, none⟩
  | .failed =>
      let first := (outcome.firstFailureIndex.map fun i => s!"Some({i})").getD "None"
      throw (.permanent
        s!"parallel fan-out failed: join={token}, ok={outcome.okCount}/{n}, first_failure_index={first}")
  | .thresholdNotMet => throw (.permanent
      s!"JOIN_THRESHOLD_NOT_MET: join={token} required threshold not reached (ok={outcome.okCount}/{n}, failed={outcome.failedCount}, cancelled={outcome.cancelledCount})")

/-- A parallel step whose branches end as in `arrivals`, unless its time is over before. -/
def executeParallel (depth : Nat) (arrivals : List Joined) (timedOut : Bool) (elapsedMs maxInFlight : Nat) :
    Execution := do
  let branches ← fanOut lib parseF64 depth request
  let config ← ParallelConfig.fromValue lib request.executorConfig
  if branches = [] then
    return ⟨.object [("branches", .array []),
      ("summary", fanOutSummary 0 ⟨[], [], 0, 0, 0, none⟩ config.join.asToken .succeeded 0 0)], [], none, none, none⟩
  match config.totalTimeout with
  | some ms => if timedOut then throw ⟨.timeout, s!"timeout after {ms} ms", none⟩
  | none => pure ()
  let outcome := driveJoinset config.join config.onBranchFailure branches.length arrivals
  concludeJoin lib parseF64 registered aggregate config.join branches.length outcome request elapsedMs maxInFlight

end

section

variable (lib : Libraries) (parseF64 : String → Option Nat) (request : ExecuteRequest)

def isParallel (config : Value) : Bool :=
  strField config "kind" = some "parallel"

/-- The executor configs that running a config executes in the end: the config itself, or those of the branches it fans
out to. -/
inductive Leaf : Nat → Value → Value → Prop
  | self {depth : Nat} {config : Value} (h : isParallel config = false) : Leaf depth config config
  | branch {depth : Nat} {config : Value} (h : isParallel config = true) {branches : List Value}
      (hfan : fanOut lib parseF64 depth { request with executorConfig := config } = .ok branches) {b leaf : Value}
      (hb : b ∈ branches) (hleaf : Leaf (depth + 1) b leaf) : Leaf depth config leaf

def literalBranches (config : Value) : List Value :=
  ((config.get "branches").bind Value.asArray).getD []

def ListsFile (config : Value) (file : Path) : Prop :=
  file ∈ filesOf config ∨ ∃ b ∈ literalBranches config, file ∈ filesOf b

/-- The config fans out to the leaf through a branch that it does not list, or through one that fans out again. -/
inductive Indirect (config leaf : Value) : Prop
  | intro (h : isParallel config = true) {branches : List Value}
      (hfan : fanOut lib parseF64 0 { request with executorConfig := config } = .ok branches) {b : Value}
      (hb : b ∈ branches) (hleaf : Leaf lib parseF64 request 1 b leaf)
      (hindirect : (config.get "branches").bind Value.asArray = none ∨ isParallel b = true)

variable {lib parseF64 request}

variable {config leaf : Value}

theorem mem_ownedFilesIn : file ∈ ownedFilesIn config ↔ ListsFile config file := by
  unfold ownedFilesIn ListsFile literalBranches
  cases (config.get "branches").bind Value.asArray with
  | none => simp [mem_dedup]
  | some branches => simp [mem_dedup, or_comm]

theorem filesOf_segment : filesOf (segmentBranchIdempotencyKey config index) = filesOf config := by
  unfold segmentBranchIdempotencyKey
  split
  · simp [filesOf, Value.get_insert_of_ne]
  · simp [filesOf, Value.get_insert_of_ne]
  · rfl

variable {depth : Nat}

theorem Leaf.eq_of_not_parallel (h : Leaf lib parseF64 request depth config leaf)
    (hconfig : isParallel config = false) : leaf = config := by
  cases h with
  | self _ => rfl
  | branch hparallel => cases hconfig.symm.trans hparallel

theorem fanOut_eq_ok (h : fanOut lib parseF64 depth request = .ok branches) :
    ∃ config resolved, ParallelConfig.fromValue lib request.executorConfig = .ok config ∧
    depth < config.maxRecursionDepth ∧ resolveBranches lib parseF64 config request = .ok resolved ∧
    branches = resolved.zipIdx.map fun branch => segmentBranchIdempotencyKey branch.1 branch.2 := by
  obtain ⟨config, hconfig, h⟩ := bind_ok h
  by_cases hdepth : config.maxRecursionDepth ≤ depth
  · rw [if_pos hdepth] at h
    cases h
  rw [if_neg hdepth] at h
  obtain ⟨resolved, hresolved, h⟩ := bind_ok h
  refine ⟨config, resolved, hconfig, by omega, hresolved, ?_⟩
  dsimp only at h
  split at h
  · cases h
  · exact (Except.ok.inj h).symm

theorem ParallelConfig.branchesSpec_of_fromValue (h : ParallelConfig.fromValue lib config = .ok parsed) :
    ∃ raw, config.get "branches" = some raw ∧ BranchesSpec.fromValue raw = .ok parsed.branchesSpec := by
  obtain ⟨raw, hraw, h⟩ := bind_ok h
  obtain ⟨spec, hspec, h⟩ := bind_ok h
  obtain ⟨join, -, h⟩ := bind_ok h
  dsimp only at h
  split at h
  · cases h
  obtain ⟨onBranchFailure, -, h⟩ := bind_ok h
  cases Except.ok.inj h
  refine ⟨raw, ?_, hspec⟩
  cases hget : config.get "branches" with
  | none => rw [hget] at hraw; cases hraw
  | some branches => rw [hget] at hraw; cases hraw; rfl

theorem fanOut_literal (hfan : fanOut lib parseF64 depth request = .ok branches)
    (hlisted : (request.executorConfig.get "branches").bind Value.asArray = some listed) (hb : b ∈ branches) :
    ∃ literal ∈ listed, filesOf b = filesOf literal := by
  obtain ⟨config, resolved, hconfig, -, hresolved, rfl⟩ := fanOut_eq_ok hfan
  obtain ⟨raw, hraw, hspec⟩ := config.branchesSpec_of_fromValue hconfig
  rw [hraw] at hlisted
  cases raw with
  | array xs =>
    cases hlisted
    have hliteral : config.branchesSpec = .literal listed := (Except.ok.inj hspec).symm
    rw [resolveBranches, hliteral] at hresolved
    cases hresolved
    obtain ⟨branch, hmem, rfl⟩ := mem_map.mp hb
    exact ⟨branch.1, fst_mem_of_mem_zipIdx hmem, filesOf_segment⟩
  | _ => cases hlisted

/-- The lock set of a config covers every leaf exactly when it covers those that are reached through a dynamic or a
nested fan-out. -/
theorem owned_files_cover_iff (config : Value) :
    (∀ leaf, Leaf lib parseF64 request 0 config leaf → ∀ file ∈ filesOf leaf, file ∈ ownedFilesIn config) ↔
    ∀ leaf, Indirect lib parseF64 request config leaf → ∀ file ∈ filesOf leaf, ListsFile config file := by
  constructor
  · rintro hcover leaf ⟨hparallel, hfan, hb, hleaf, -⟩ file hfile
    exact mem_ownedFilesIn.mp (hcover leaf (.branch hparallel hfan hb hleaf) file hfile)
  · intro hindirect leaf hleaf file hfile
    rw [mem_ownedFilesIn]
    cases hleaf with
    | self _ => exact .inl hfile
    | @branch _ _ hparallel branches hfan b _ hb hleaf =>
      cases hlisted : (config.get "branches").bind Value.asArray with
      | none => exact hindirect leaf ⟨hparallel, hfan, hb, hleaf, .inl hlisted⟩ file hfile
      | some listed =>
        cases hnested : isParallel b with
        | true => exact hindirect leaf ⟨hparallel, hfan, hb, hleaf, .inr hnested⟩ file hfile
        | false =>
          obtain ⟨literal, hmem, hfiles⟩ := fanOut_literal hfan hlisted hb
          cases hleaf.eq_of_not_parallel hnested
          exact .inr ⟨literal, by simpa [literalBranches, hlisted] using hmem, hfiles ▸ hfile⟩

def editRequest : ExecuteRequest :=
  ⟨⟨"wf_1", "d", "1", .emptyObject, "a", 0, .emptyObject, .object [("files", .array [.string "a.rs"])], 0,
    ⟨"/", none, none, none, []⟩, 0, none, none, none⟩, some "go", .emptyObject, .emptyObject, none, none⟩

def editBranch (file : String) : Value :=
  .object [("kind", "script"), ("owned_files", .array [.string file])]

def parallelOf (branches : Value) : Value :=
  .object [("kind", "parallel"), ("branches", branches)]

def editEach : Value :=
  parallelOf (.object [("for_each", "$.context.files"), ("do", editBranch "$.branch.value")])

/-- The lock set of a dynamic fan-out, or of a nested one, leaves out the files of its workers. -/
theorem fan_out_escapes_lock_set : (∃ leaf, Leaf .plain (fun _ => none) editRequest 0 editEach leaf ∧
      "a.rs" ∈ filesOf leaf ∧ "a.rs" ∉ ownedFilesIn editEach) ∧
    ∃ leaf, Leaf .plain (fun _ => none) editRequest 0
        (parallelOf (.array [parallelOf (.array [editBranch "b.rs"])])) leaf ∧
      "b.rs" ∈ filesOf leaf ∧ "b.rs" ∉ ownedFilesIn (parallelOf (.array [parallelOf (.array [editBranch "b.rs"])])) := by
  have heach : fanOut .plain (fun _ => none) 0 { editRequest with executorConfig := editEach } = .ok [editBranch "a.rs"] := rfl
  have hnested : fanOut .plain (fun _ => none) 0 { editRequest with
      executorConfig := parallelOf (.array [parallelOf (.array [editBranch "b.rs"])]) } =
      .ok [parallelOf (.array [editBranch "b.rs"])] := rfl
  refine ⟨⟨editBranch "a.rs", ?_, by decide +kernel, by decide +kernel⟩,
    editBranch "b.rs", ?_, by decide +kernel, by decide +kernel⟩
  · exact .branch rfl heach (.head _) (.self rfl)
  · exact .branch rfl hnested (.head _) (.branch rfl rfl (.head _) (.self rfl))

theorem listed_fan_out_locked :
    ∃ config leaf, isParallel config = true ∧ Leaf .plain (fun _ => none) editRequest 0 config leaf ∧
      "b.rs" ∈ filesOf leaf ∧ "b.rs" ∈ ownedFilesIn config := by
  have hfan : fanOut .plain (fun _ => none) 0 { editRequest with
      executorConfig := parallelOf (.array [editBranch "a.rs", editBranch "b.rs"]) } =
      .ok [editBranch "a.rs", editBranch "b.rs"] := rfl
  have hleaf : Leaf .plain (fun _ => none) editRequest 0 (parallelOf (.array [editBranch "a.rs", editBranch "b.rs"]))
      (editBranch "b.rs") := .branch rfl hfan (.tail _ (.head _)) (.self rfl)
  refine ⟨_, _, rfl, hleaf, by decide +kernel, (owned_files_cover_iff _).mpr ?_ _ hleaf _ (by decide +kernel)⟩
  rintro leaf ⟨-, hfan', hb, -, hindirect⟩
  cases hfan'.symm.trans hfan
  rcases hindirect with hnone | hparallel
  · cases hnone
  · simp only [mem_cons, not_mem_nil, or_false] at hb
    rcases hb with rfl | rfl
    · cases hparallel
    · cases hparallel

end

end Praxec
