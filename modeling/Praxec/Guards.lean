import Praxec.Expr
import Praxec.Runtime.Chain

namespace Praxec

open Json Fields Text

inductive GuardKind where
  | permission | role | expr | jsonpath | allOf | anyOf | not | guidanceAcknowledged | scriptAcknowledged | evidence
  | amplifierContract
deriving DecidableEq

namespace GuardKind

def all : List GuardKind :=
  [permission, role, expr, jsonpath, allOf, anyOf, not, guidanceAcknowledged, scriptAcknowledged, evidence,
    amplifierContract]

def asStr : GuardKind → String
  | permission => "permission"
  | role => "role"
  | expr => "expr"
  | jsonpath => "jsonpath"
  | allOf => "all_of"
  | anyOf => "any_of"
  | not => "not"
  | guidanceAcknowledged => "guidance_acknowledged"
  | scriptAcknowledged => "script_acknowledged"
  | evidence => "evidence"
  | amplifierContract => "amplifier_contract"

def fromToken (s : String) : Option GuardKind :=
  all.find? fun kind => kind.asStr = s

end GuardKind

def rawKind (guard : Value) : String :=
  (strField guard "kind").getD ""

def innerGuards (guard : Value) : Option (List Value) :=
  (guard.get "guards").bind Value.asArray

section

variable {α : Type}

mutual
/-- Recursion over nested guards: `f` is told a guard, the results for its `guards`, if that is a list, and the result
for its `guard`. -/
def foldGuard (f : Value → Option (List α) → Option α → α) : Value → α
  | .object fields => f (.object fields) (foldInner f fields) (foldBody f fields)
  | v => f v none none

def foldInner (f : Value → Option (List α) → Option α → α) : Fields → Option (List α)
  | [] => none
  | (key, v) :: rest => if key = "guards" then foldArray f v else foldInner f rest

def foldArray (f : Value → Option (List α) → Option α → α) : Value → Option (List α)
  | .array xs => some (foldList f xs)
  | _ => none

def foldList (f : Value → Option (List α) → Option α → α) : List Value → List α
  | [] => []
  | x :: xs => foldGuard f x :: foldList f xs

def foldBody (f : Value → Option (List α) → Option α → α) : Fields → Option α
  | [] => none
  | (key, v) :: rest => if key = "guard" then some (foldGuard f v) else foldBody f rest
end

variable {f : Value → Option (List α) → Option α → α}

theorem foldList_eq : foldList f xs = xs.map (foldGuard f) := by
  induction xs with
  | nil => rfl
  | cons x xs ih => rw [foldList, ih, List.map_cons]

theorem foldArray_eq : foldArray f v = v.asArray.map fun xs => xs.map (foldGuard f) := by
  cases v with
  | array xs => rw [foldArray, foldList_eq]; rfl
  | _ => rfl

theorem foldInner_eq :
    foldInner f fields = (innerGuards (.object fields)).map fun xs => xs.map (foldGuard f) := by
  unfold innerGuards
  rw [Value.get_object]
  induction fields with
  | nil => rfl
  | cons entry rest ih =>
    obtain ⟨key, v⟩ := entry
    rw [foldInner, get_cons]
    by_cases hkey : key = "guards"
    · rw [if_pos hkey, if_pos hkey.symm, foldArray_eq]
      rfl
    · rw [if_neg hkey, if_neg (Ne.symm hkey), ih]

theorem foldBody_eq : foldBody f fields = (fields.get "guard").map (foldGuard f) := by
  induction fields with
  | nil => rfl
  | cons entry rest ih =>
    obtain ⟨key, v⟩ := entry
    rw [foldBody, get_cons]
    by_cases hkey : key = "guard"
    · rw [if_pos hkey, if_pos hkey.symm]
      rfl
    · rw [if_neg hkey, if_neg (Ne.symm hkey), ih]

theorem foldGuard_eq (guard : Value) :
    foldGuard f guard = f guard ((innerGuards guard).map fun xs => xs.map (foldGuard f))
      ((guard.get "guard").map (foldGuard f)) := by
  cases guard with
  | object fields => rw [foldGuard, foldInner_eq, foldBody_eq]; rfl
  | _ => rfl

theorem sizeOf_get {v w : Value} {key : String} (h : v.get key = some w) : sizeOf w < sizeOf v := by
  obtain ⟨fields, hfields, hget⟩ := Option.bind_eq_some_iff.mp h
  cases Value.asObject_eq_some hfields
  have hmem := List.sizeOf_lt_of_mem (mem_of_get hget)
  have hpair : sizeOf w < sizeOf (key, w) := by simp only [Prod.mk.sizeOf_spec]; omega
  have hobject : sizeOf fields < sizeOf (Value.object fields) := by simp
  omega

theorem sizeOf_innerGuards {guard g : Value} {inner : List Value} (h : innerGuards guard = some inner) (hg : g ∈ inner) :
    sizeOf g < sizeOf guard := by
  obtain ⟨v, hget, harray⟩ := Option.bind_eq_some_iff.mp h
  have hv := sizeOf_get hget
  cases v with
  | array xs =>
    cases harray
    have hmem := List.sizeOf_lt_of_mem hg
    have harray : sizeOf inner < sizeOf (Value.array inner) := by simp
    omega
  | _ => cases harray

theorem guard_induction {P : Value → Prop}
    (h : ∀ guard, (∀ inner, innerGuards guard = some inner → ∀ g ∈ inner, P g) →
      (∀ g, guard.get "guard" = some g → P g) → P guard) (guard : Value) : P guard :=
  h guard (fun _ hinner g hg => have _ := sizeOf_innerGuards hinner hg; guard_induction h g)
    fun g hget => have _ := sizeOf_get hget; guard_induction h g
termination_by sizeOf guard

end

inductive GuardFault where
  | unsetSlot (path : String)
  | invalidKind (raw : String)
  | invalidExpr (expr : String)
  | unresolvableScope (operand : String)
  | missingGuard
  | missingSubject (kind : GuardKind)
  | unknownGuidance (subject : String)
  | unknownScript (subject : String)
  | amplifier (message : Err)
  | store (message : Err)
deriving DecidableEq

namespace GuardFault

def shown (text : String) : String :=
  if isBlank text then "<missing>" else text

def message : GuardFault → String
  | unsetSlot path => s!"GUARD_UNSET_SLOT: guard reads `{path}` which is not set on the workflow context"
  | invalidKind raw =>
      let shown := if raw = "" then "<missing>" else raw
      let valid := ", ".intercalate (GuardKind.all.map GuardKind.asStr)
      s!"INVALID_GUARD_KIND: '{shown}' is not a valid guard kind (valid: {valid})"
  | invalidExpr expr =>
      let shown := shown expr
      s!"INVALID_GUARD_EXPR: '{shown}' is not a parseable binary comparison (expected `<operand> <op> <operand>`)"
  | unresolvableScope operand =>
      s!"UNRESOLVABLE_GUARD_SCOPE: guard operand `{operand}` names no resolvable scope — use `$.context.*`, `$.arguments.*`, `$.workflow.input.*`, `$.run.repo_root`, or `$.workflow.\x7bid,state,version\x7d`"
  | missingGuard => "`not` guard needs a `guard:` body"
  | missingSubject kind =>
      let kind := kind.asStr
      s!"{kind} guard needs `subject`"
  | unknownGuidance subject =>
      s!"GUIDANCE_SUBJECT_UNKNOWN: subject '{subject}' not present in workflow snapshot"
  | unknownScript subject =>
      s!"SCRIPT_SUBJECT_UNKNOWN: subject '{subject}' not present in this workflow's _scriptsLibrary snapshot"
  | amplifier message | store message => message

def toError (fault : GuardFault) : GuardError :=
  match fault with
  | unsetSlot _ => .unsetSlot fault.message
  | _ => .other fault.message

def isConfiguration : GuardFault → Bool
  | invalidKind _ | invalidExpr _ | unresolvableScope _ | missingGuard => true
  | _ => false

end GuardFault

/-- What the evaluator is wired with: number conversions, and the answers of its stores, where it has them. -/
structure GuardEnv where
  parseF64 : String → Option Nat
  toF32 : Nat → F32
  evidence : Option (String → Except Err (List Evidence))
  ackStore : Option (String → String → Except Err (Option String))
  scriptAckStore : Option (String → String → Except Err (Option String))

section

def isRootedOperand (s : String) : Bool :=
  startsWith (trim s) "$."

def isResolvableGuardScope (s : String) : Bool :=
  let s := trim s
  s = "$.workflow.id" || s = "$.workflow.state" || s = "$.workflow.version" || s = "$.run.repo_root" ||
    startsWith s "$.context." || startsWith s "$.arguments." || startsWith s "$.workflow.input."

variable (lib : Libraries) (env : GuardEnv) (inst : WorkflowInstance) (arguments : Value)

/-- A missing argument or input reads as `null`; a missing slot of the context is a fault. -/
def resolveOperand (s : String) : Except GuardFault Value :=
  let s := trim s
  let under (root : String) : Option String := (stripStart root.toList s.toList).map String.ofList
  match literalOperand lib env.parseF64 s with
  | some v => .ok v
  | none =>
      if s = "$.workflow.id" then .ok (.string inst.id)
      else if s = "$.workflow.state" then .ok (.string inst.state)
      else if s = "$.workflow.version" then .ok (.string inst.definitionVersion)
      else if s = "$.run.repo_root" then .ok (.string inst.runEnv.repoRoot)
      else match under "$.context." with
        | some path => match inst.context.pointer (pathToPointer path) with
          | some v => .ok v
          | none => .error (.unsetSlot ("$.context." ++ path))
        | none => match under "$.arguments." with
          | some path => .ok ((arguments.pointer (pathToPointer path)).getD .null)
          | none => match under "$.workflow.input." with
            | some path => .ok ((inst.input.pointer (pathToPointer path)).getD .null)
            | none => if isRootedOperand s then .error (.unresolvableScope s) else .ok .null

def evalExpr (expr : String) : Except GuardFault Bool :=
  match parseBinaryExpr expr with
  | none => .error (.invalidExpr expr)
  | some e => do
    let l ← resolveOperand lib env inst arguments e.left
    let r ← resolveOperand lib env inst arguments e.right
    return compareValues lib l e.op r

end

section

structure EvidenceRequirement where
  kind : String
  count : Nat
  minConfidence : Option F32
  requireDigest : Bool
deriving DecidableEq

variable (lib : Libraries) (env : GuardEnv)

def asF64 : Value → Option Nat
  | .number n => some (lib.asF64 n)
  | _ => none

def parseEvidenceRequirement : Value → Option EvidenceRequirement
  | .string kind => some ⟨kind, 1, none, false⟩
  | .object fields => do
      let kind ← strField (.object fields) "kind"
      return ⟨kind, (u64Field (.object fields) "count").getD 1,
        ((Fields.get fields "min_confidence").bind (asF64 lib)).map env.toF32, boolField (.object fields) "require_digest" false⟩
  | _ => none

namespace EvidenceRequirement

variable (req : EvidenceRequirement)

def lacksDigest (e : Evidence) : Bool :=
  req.requireDigest && e.digest.isNone

def confident (e : Evidence) : Bool :=
  match req.minConfidence, e.confidence with
  | none, _ => true
  | some threshold, some c => F32.le threshold c
  | some _, none => false

def unmet (recorded : List Evidence) : Option (Option String) :=
  let relevant := recorded.filter fun e => e.kind = req.kind
  let droppedDigest := relevant.countP req.lacksDigest
  let kept := relevant.filter fun e => !req.lacksDigest e
  let matching := kept.countP req.confident
  let droppedConfidence := kept.countP fun e => !req.confident e
  if req.count ≤ matching then none
  else if req.requireDigest ∧ req.count ≤ matching + droppedDigest then some (some "EVIDENCE_DIGEST_REQUIRED")
  else if req.minConfidence.isSome ∧ req.count ≤ matching + droppedConfidence then
    some (some "EVIDENCE_CONFIDENCE_BELOW_THRESHOLD")
  else some none

end EvidenceRequirement

def evaluateEvidence (guard : Value) (inst : WorkflowInstance) : Except GuardFault (Bool × Option String) :=
  let requirements :=
    (((guard.get "requires").bind Value.asArray).getD []).filterMap (parseEvidenceRequirement lib env)
  match env.evidence with
  | none => .ok (false, none)
  | some list => match list inst.id with
    | .error e => .error (.store e)
    | .ok recorded => match requirements.findSome? fun req => req.unmet recorded with
      | some diagnostic => .ok (false, diagnostic)
      | none => .ok (true, none)

end

section

variable (cfg : RuntimeConfig) (env : GuardEnv) (inst : WorkflowInstance) (arguments : Value) (principal : Principal)

def evaluateAcknowledged (guard : Value) (kind : GuardKind) (library : String) (unknown : String → GuardFault)
    (store : Option (String → String → Except Err (Option String))) : Except GuardFault Bool :=
  match strField guard "subject" with
  | none => .error (.missingSubject kind)
  | some subject =>
      match (((inst.definition.get library).bind fun lib => lib.get subject).bind fun entry => strField entry "hash") with
      | none => .error (unknown subject)
      | some expected => match store with
        | none => .ok false
        | some last => match last inst.id subject with
          | .error e => .error (.store e)
          | .ok recorded => .ok (recorded = some expected)

def allPass : List (Except GuardFault Bool) → Except GuardFault Bool
  | [] => .ok true
  | .ok true :: rest => allPass rest
  | .ok false :: _ => .ok false
  | .error e :: _ => .error e

def anyPass (firstErr : Option GuardFault) : List (Except GuardFault Bool) → Except GuardFault Bool
  | [] => match firstErr with
    | some e => .error e
    | none => .ok false
  | .ok true :: _ => .ok true
  | .ok false :: rest => anyPass firstErr rest
  | .error e :: rest => anyPass (firstErr.or (some e)) rest

def evaluateStep (guard : Value) (inner : Option (List (Except GuardFault Bool))) (body : Option (Except GuardFault Bool)) :
    Except GuardFault Bool :=
  match GuardKind.fromToken (rawKind guard) with
  | none => .error (.invalidKind (rawKind guard))
  | some .amplifierContract =>
      if (inst.definition.get "amplifier").isNone then
        .error (.amplifier "AMPLIFIER_INVALID: amplifier_contract guard requires the workflow profile")
      else match validateInput cfg inst.definition inst.input with
        | .error e => .error (.amplifier e)
        | .ok _ => .ok true
  | some .permission => .ok (principal.permissions.contains ((strField guard "permission").getD ""))
  | some .role => .ok (principal.roles.contains ((strField guard "role").getD ""))
  | some .expr | some .jsonpath => evalExpr cfg.lib env inst arguments ((strField guard "expr").getD "")
  | some .allOf => allPass (inner.getD [])
  | some .anyOf => anyPass none (inner.getD [])
  | some .not => match body with
    | none => .error .missingGuard
    | some verdict => verdict.map fun pass => !pass
  | some .guidanceAcknowledged =>
      evaluateAcknowledged inst guard .guidanceAcknowledged "_skillsLibrary" .unknownGuidance env.ackStore
  | some .scriptAcknowledged =>
      evaluateAcknowledged inst guard .scriptAcknowledged "_scriptsLibrary" .unknownScript env.scriptAckStore
  | some .evidence => (evaluateEvidence cfg.lib env guard inst).map Prod.fst

def evaluate (guard : Value) : Except GuardFault Bool :=
  foldGuard (evaluateStep cfg env inst arguments principal) guard

def evaluateWithDiagnostic (guard : Value) : Except GuardFault (Bool × Option String) :=
  match GuardKind.fromToken (rawKind guard) with
  | some .evidence => evaluateEvidence cfg.lib env guard inst
  | _ => (evaluate cfg env inst arguments principal guard).map fun pass => (pass, none)

theorem evaluate_eq (guard : Value) :
    evaluate cfg env inst arguments principal guard = evaluateStep cfg env inst arguments principal guard
      ((innerGuards guard).map fun inner => inner.map (evaluate cfg env inst arguments principal))
      ((guard.get "guard").map (evaluate cfg env inst arguments principal)) :=
  foldGuard_eq guard

end

end Praxec
