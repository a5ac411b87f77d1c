import Praxec.Guards
import Praxec.World

namespace Praxec

open Json List Option Text

section

theorem startsWith_empty (s : String) : startsWith s "" := by
  simp [startsWith]

theorem empty_startsWith : startsWith "" s ↔ s = "" := by
  simp [startsWith]

theorem contains_empty : Text.contains s "" := by
  unfold Text.contains
  cases s.toList <;> rfl

theorem empty_contains : contains "" s ↔ s = "" := by
  simp [Text.contains, Text.containsText]

def CompareOp.relates : CompareOp → String → String → Bool
  | .startsWith, a, b => Text.startsWith a b
  | .contains, a, b => Text.contains a b
  | _, _, _ => false

/-- Operands that a string operator does not read as the empty string in a way that makes it hold: two
numbers, or a string on the right that is not empty unless the left is a string too. -/
def StringSafe : Value → Value → Prop
  | .number _, .number _ => True
  | .string _, .string _ => True
  | _, .string b => b ≠ ""
  | _, _ => False

variable (lib : Libraries)

variable {op : CompareOp}

theorem compareValues_string (hop : op = .startsWith ∨ op = .contains) (h : ¬ ∃ x y, l = .number x ∧ r = .number y) :
    compareValues lib l op r = op.relates (l.asStr.getD "") (r.asStr.getD "") := by
  unfold compareValues
  split
  · exact absurd ⟨_, _, rfl, rfl⟩ h
  · rcases hop with rfl | rfl <;> rfl

theorem relates_empty (hop : op = .startsWith ∨ op = .contains) (a : String) : op.relates a "" := by
  rcases hop with rfl | rfl
  · exact startsWith_empty a
  · exact contains_empty

theorem empty_relates (hop : op = .startsWith ∨ op = .contains) : op.relates "" b ↔ b = "" := by
  rcases hop with rfl | rfl
  · exact empty_startsWith
  · exact empty_contains

theorem compareValues_closed_iff (hop : op = .startsWith ∨ op = .contains) (l r : Value) :
    (compareValues lib l op r → ∃ a b, l = .string a ∧ r = .string b ∧ op.relates a b) ↔ StringSafe l r := by
  by_cases hnumbers : ∃ x y, l = .number x ∧ r = .number y
  · obtain ⟨x, y, rfl, rfl⟩ := hnumbers
    have hfalse : compareValues lib (.number x) op (.number y) = false := by
      rcases hop with rfl | rfl <;> rfl
    exact ⟨fun _ => trivial, fun _ h => by rw [hfalse] at h; cases h⟩
  rw [compareValues_string lib hop hnumbers]
  cases r with
  | string b =>
    cases l with
    | string a => exact ⟨fun _ => trivial, fun _ h => ⟨a, b, rfl, rfl, h⟩⟩
    | _ =>
      constructor
      · intro h hb
        obtain ⟨_, _, hl, -⟩ := h ((empty_relates hop).mpr hb)
        cases hl
      · intro hsafe h
        exact absurd ((empty_relates hop).mp h) hsafe
  | _ =>
    constructor
    · intro h
      obtain ⟨_, _, -, hr, -⟩ := h (relates_empty hop _)
      cases hr
    · intro hsafe
      cases l with
      | number x => first | exact absurd ⟨x, _, rfl, rfl⟩ hnumbers | exact hsafe.elim
      | _ => exact hsafe.elim

variable (env : GuardEnv) (inst : WorkflowInstance) (arguments : Value)

theorem evalExpr_eq_true_iff (hparse : parseBinaryExpr expr = some e) :
    evalExpr lib env inst arguments expr = .ok true ↔ ∃ l r, resolveOperand lib env inst arguments e.left = .ok l ∧
    resolveOperand lib env inst arguments e.right = .ok r ∧ compareValues lib l e.op r := by
  unfold evalExpr
  rw [hparse]
  constructor
  · intro h
    obtain ⟨l, hl, h⟩ := bind_ok h
    obtain ⟨r, hr, h⟩ := bind_ok h
    exact ⟨l, r, hl, hr, Except.ok.inj h⟩
  · rintro ⟨l, r, hl, hr, h⟩
    dsimp only
    rw [hl, hr]
    exact congrArg Except.ok h

/-- A guard with a string operator passes on strings in its relation only, exactly when the operands
are safe wherever both resolve. -/
theorem string_guard_closed_iff (expr : String) (e : BinaryExpr) (hparse : parseBinaryExpr expr = some e)
    (hop : e.op = .startsWith ∨ e.op = .contains) :
    (evalExpr lib env inst arguments expr = .ok true →
      ∃ a b, resolveOperand lib env inst arguments e.left = .ok (.string a) ∧
        resolveOperand lib env inst arguments e.right = .ok (.string b) ∧ e.op.relates a b = true) ↔
    ∀ l r, resolveOperand lib env inst arguments e.left = .ok l → resolveOperand lib env inst arguments e.right = .ok r →
      StringSafe l r := by
  rw [evalExpr_eq_true_iff lib env inst arguments hparse]
  constructor
  · intro h l r hl hr
    refine (compareValues_closed_iff lib hop l r).mp fun htrue => ?_
    obtain ⟨a, b, ha, hb, hrel⟩ := h ⟨l, r, hl, hr, htrue⟩
    exact ⟨a, b, Except.ok.inj (hl.symm.trans ha), Except.ok.inj (hr.symm.trans hb), hrel⟩
  · rintro hsafe ⟨l, r, hl, hr, htrue⟩
    obtain ⟨a, b, rfl, rfl, hrel⟩ := (compareValues_closed_iff lib hop l r).mpr (hsafe l r hl hr) htrue
    exact ⟨a, b, hl, hr, hrel⟩

end

def GuardEnv.bare : GuardEnv where
  parseF64 _ := none
  toF32 _ := F32.zero
  evidence := none
  ackStore := none
  scriptAckStore := none

def guardedInstance (input context : Value) : WorkflowInstance where
  id := "wf_1"
  definitionId := "d"
  definitionVersion := "1"
  definition := .object []
  state := "a"
  version := 0
  input
  context
  startedAt := 0
  runEnv := ⟨"/repo", none, none, none, []⟩
  depth := 0
  cancelledAt := none
  cancelledReason := none
  parent := none

/-- Without the argument that holds the allowed start of a branch name, every branch passes. -/
theorem missing_argument_passes : ∃ (lib : Libraries) (env : GuardEnv) (inst : WorkflowInstance) (arguments : Value)
    (expr : String) (e : BinaryExpr), parseBinaryExpr expr = some e ∧ e.op = .startsWith ∧
    evalExpr lib env inst arguments expr = .ok true ∧
    ¬ ∃ b, resolveOperand lib env inst arguments e.right = .ok (.string b) := by
  refine ⟨.plain, .bare, guardedInstance (.object []) (.object []), .object [("branch", "main")],
    "$.arguments.branch starts_with $.arguments.allowed", ⟨"$.arguments.branch", .startsWith, "$.arguments.allowed"⟩,
    by decide +kernel, rfl, by decide +kernel, ?_⟩
  have hnull : resolveOperand .plain .bare (guardedInstance (.object []) (.object [])) (.object [("branch", "main")])
      "$.arguments.allowed" = .ok .null := by decide +kernel
  rintro ⟨b, hb⟩
  cases hb

def featureArguments : Value :=
  .object [("branch", "feat/x")]

theorem literal_start_closed : ∃ a b,
    resolveOperand .plain .bare (guardedInstance (.object []) (.object [])) featureArguments "$.arguments.branch" =
      .ok (.string a) ∧
    resolveOperand .plain .bare (guardedInstance (.object []) (.object [])) featureArguments "'feat/'" = .ok (.string b) ∧
    Text.startsWith a b = true := by
  refine (string_guard_closed_iff .plain .bare (guardedInstance (.object []) (.object [])) featureArguments
    "$.arguments.branch starts_with 'feat/'" ⟨"$.arguments.branch", .startsWith, "'feat/'"⟩ (by decide +kernel)
    (.inl rfl)).mpr (fun l r hl hr => ?_) (by decide +kernel)
  have hleft : resolveOperand .plain .bare (guardedInstance (.object []) (.object [])) featureArguments
      "$.arguments.branch" = .ok (.string "feat/x") := by decide +kernel
  have hright : resolveOperand .plain .bare (guardedInstance (.object []) (.object [])) featureArguments "'feat/'" =
      .ok (.string "feat/") := by decide +kernel
  cases hleft.symm.trans hl
  cases hright.symm.trans hr
  exact trivial

section

variable (cfg : RuntimeConfig) (env : GuardEnv) (inst : WorkflowInstance) (arguments : Value) (principal : Principal)

def leafValue (verdict : Except GuardFault Bool) (choice : Bool) : Bool :=
  match verdict with
  | .ok pass => pass
  | .error _ => choice

/-- The classical value of a guard when `assign` decides the leaves without a verdict, each by its
position, given as the way to it from the leaf up. -/
def classicalValue (assign : List Nat → Bool) (guard : Value) : List Nat → Bool :=
  foldGuard (fun guard inner body position =>
    match GuardKind.fromToken (rawKind guard), body with
    | some .allOf, _ => (inner.getD []).zipIdx.all fun g => g.1 (g.2 :: position)
    | some .anyOf, _ => (inner.getD []).zipIdx.any fun g => g.1 (g.2 :: position)
    | some .not, some value => !value (0 :: position)
    | _, _ => leafValue (evaluate cfg env inst arguments principal guard) (assign position)) guard

theorem classicalValue_eq {assign : List Nat → Bool} {guard : Value} {position : List Nat} :
    classicalValue cfg env inst arguments principal assign guard position =
      match GuardKind.fromToken (rawKind guard),
        (guard.get "guard").map (classicalValue cfg env inst arguments principal assign) with
      | some .allOf, _ => (((innerGuards guard).map fun inner =>
          inner.map (classicalValue cfg env inst arguments principal assign)).getD []).zipIdx.all fun g => g.1 (g.2 :: position)
      | some .anyOf, _ => (((innerGuards guard).map fun inner =>
          inner.map (classicalValue cfg env inst arguments principal assign)).getD []).zipIdx.any fun g => g.1 (g.2 :: position)
      | some .not, some value => !value (0 :: position)
      | _, _ => leafValue (evaluate cfg env inst arguments principal guard) (assign position) :=
  congrFun (foldGuard_eq guard) position

/-- A verdict of `allPass` is the conjunction of any values that the verdicts in the list force. -/
theorem allPass_forced {verdicts : List (Except GuardFault Bool)} {pass : Bool} (h : allPass verdicts = .ok pass)
    {values : List Bool} (hv : List.Forall₂ (fun verdict value => ∀ b, verdict = .ok b → value = b) verdicts values) :
    values.all id = pass := by
  induction hv with
  | nil => exact Except.ok.inj h
  | @cons verdict value rest values hvalue _ ih =>
    rcases verdict with fault | (_ | _)
    · cases h
    · cases h
      rw [hvalue false rfl]
      rfl
    · rw [hvalue true rfl]
      exact ih h

theorem anyPass_forced {verdicts : List (Except GuardFault Bool)} {first : Option GuardFault} {pass : Bool}
    (h : anyPass first verdicts = .ok pass) {values : List Bool}
    (hv : List.Forall₂ (fun verdict value => ∀ b, verdict = .ok b → value = b) verdicts values) :
    values.any id = pass ∧ (pass = false → first = none) := by
  induction hv generalizing first with
  | nil =>
    cases first with
    | none => exact ⟨Except.ok.inj h, fun _ => rfl⟩
    | some fault => cases h
  | @cons verdict value rest values hvalue _ ih =>
    rcases verdict with fault | (_ | _)
    · -- once a fault is remembered the disjunction can only be true
      obtain ⟨hvalues, hfirst⟩ := ih h
      cases pass with
      | false =>
        have hremembered := hfirst rfl
        cases first <;> cases hremembered
      | true => exact ⟨by simp [hvalues], nofun⟩
    · rw [hvalue false rfl]
      exact ih h
    · cases h
      rw [hvalue true rfl]
      exact ⟨rfl, nofun⟩

theorem forall₂_zipIdx {α β γ : Type} {R : γ → β → Prop} {f : α → γ} {g : α → Nat → β} {xs : List α}
    (h : ∀ x ∈ xs, ∀ i, R (f x) (g x i)) (start : Nat) :
    List.Forall₂ R (xs.map f) ((xs.zipIdx start).map fun x => g x.1 x.2) := by
  induction xs generalizing start with
  | nil => exact .nil
  | cons x rest ih =>
    exact .cons (h x (.head _) start) (ih (fun y hy => h y (.tail _ hy)) (start + 1))

/-- A verdict on a guard, at any depth, is its classical value whatever the leaves without a verdict
are taken for. -/
theorem evaluate_kleene_sound (guard : Value) (pass : Bool) (h : evaluate cfg env inst arguments principal guard = .ok pass)
    (assign : List Nat → Bool) (position : List Nat) :
    classicalValue cfg env inst arguments principal assign guard position = pass := by
  induction guard using guard_induction generalizing pass position with
  | h guard ihinner ihbody =>
    have hleaf : leafValue (evaluate cfg env inst arguments principal guard) (assign position) = pass := by
      rw [h]
      rfl
    have hforced : List.Forall₂ (fun verdict value => ∀ b, verdict = .ok b → value = b)
        (((innerGuards guard).map fun inner => inner.map (evaluate cfg env inst arguments principal)).getD [])
        ((((innerGuards guard).map fun inner =>
          inner.map (classicalValue cfg env inst arguments principal assign)).getD []).zipIdx.map
            fun g => g.1 (g.2 :: position)) := by
      cases hguards : innerGuards guard with
      | none => exact .nil
      | some inner =>
        simp only [Option.map_some, Option.getD_some, List.zipIdx_map, List.map_map]
        exact forall₂_zipIdx (R := fun verdict value => ∀ b, verdict = .ok b → value = b)
          (f := evaluate cfg env inst arguments principal)
          (g := fun g i => classicalValue cfg env inst arguments principal assign g (i :: position))
          (fun g hg i b hb => ihinner inner hguards g hg b hb (i :: position)) 0
    rw [classicalValue_eq]
    rw [evaluate_eq] at h
    unfold evaluateStep at h
    cases hkind : GuardKind.fromToken (rawKind guard) with
    | none => exact hleaf
    | some kind =>
      rw [hkind] at h
      cases kind with
      | allOf =>
        have hvalue := allPass_forced h hforced
        rwa [List.all_map] at hvalue
      | anyOf =>
        have hvalue := (anyPass_forced h hforced).1
        rwa [List.any_map] at hvalue
      | not =>
        cases hget : guard.get "guard" with
        | none => exact hleaf
        | some g =>
          rw [hget, Option.map_some] at h
          cases hverdict : evaluate cfg env inst arguments principal g with
          | error fault =>
            rw [hverdict] at h
            cases h
          | ok inner =>
            rw [hverdict] at h
            rw [Option.map_some]
            dsimp only
            rw [ihbody g hget inner hverdict]
            exact Except.ok.inj h
      | _ => exact hleaf

end

def halfUnset : Value :=
  .object [("kind", "not"), ("guard", .object [("kind", "any_of"), ("guards", .array
    [.object [("kind", "expr"), ("expr", "$.context.flag == true")],
     .object [("kind", "role"), ("role", "lead")]])])]

def leadPrincipal : Principal :=
  { Principal.anonymous with roles := ["lead"] }

theorem halfUnset_kleene : evaluate .plain .bare (guardedInstance (.object []) (.object [])) (.object []) leadPrincipal
      halfUnset = .ok false ∧
    classicalValue .plain .bare (guardedInstance (.object []) (.object [])) (.object []) leadPrincipal (fun _ => false)
      halfUnset [] = false := by
  have hverdict : evaluate .plain .bare (guardedInstance (.object []) (.object [])) (.object []) leadPrincipal halfUnset =
      .ok false := by decide +kernel
  exact ⟨hverdict, evaluate_kleene_sound .plain .bare (guardedInstance (.object []) (.object [])) (.object []) leadPrincipal
    halfUnset false hverdict (fun _ => false) []⟩

section

variable (lib : Libraries) (env : GuardEnv)

namespace EvidenceRequirement

variable (req : EvidenceRequirement) (recorded : List Evidence)

def counts (e : Evidence) : Bool :=
  e.kind = req.kind && (!req.lacksDigest e && req.confident e)

def Met : Prop :=
  req.count ≤ recorded.countP req.counts

theorem countP_counts : recorded.countP req.counts =
    ((recorded.filter fun e => e.kind = req.kind).filter fun e => !req.lacksDigest e).countP req.confident := by
  rw [countP_filter, countP_filter]
  refine countP_congr fun e _ => ?_
  unfold counts
  cases req.lacksDigest e <;> cases req.confident e <;> simp

def digestless : Nat :=
  recorded.countP fun e => e.kind = req.kind && req.lacksDigest e

def digestlessConfident : Nat :=
  recorded.countP fun e => (e.kind = req.kind && req.lacksDigest e) && req.confident e

def doubtful : Nat :=
  recorded.countP fun e => (e.kind = req.kind && !req.lacksDigest e) && !req.confident e

theorem unmet_eq : req.unmet recorded =
    if req.count ≤ recorded.countP req.counts then none
    else if req.requireDigest ∧ req.count ≤ recorded.countP req.counts + req.digestless recorded then
      some (some "EVIDENCE_DIGEST_REQUIRED")
    else if req.minConfidence.isSome ∧ req.count ≤ recorded.countP req.counts + req.doubtful recorded then
      some (some "EVIDENCE_CONFIDENCE_BELOW_THRESHOLD")
    else some none := by
  have hdigestless : (recorded.filter fun e => e.kind = req.kind).countP req.lacksDigest = req.digestless recorded := by
    rw [countP_filter]
    exact countP_congr fun e _ => by rw [Bool.and_comm]
  have hdoubtful : ((recorded.filter fun e => e.kind = req.kind).filter fun e => !req.lacksDigest e).countP
      (fun e => !req.confident e) = req.doubtful recorded := by
    rw [countP_filter, countP_filter]
    exact countP_congr fun e _ => by
      cases req.lacksDigest e <;> cases req.confident e <;> simp
  unfold unmet
  rw [req.countP_counts recorded, ← hdigestless, ← hdoubtful]

theorem countP_split (p q : Evidence → Bool) : recorded.countP p =
    recorded.countP (fun e => p e && q e) + recorded.countP fun e => p e && !q e := by
  rw [countP_eq_countP_filter_add recorded p q, countP_filter, countP_filter]

theorem met_without_digest_iff : ({ req with requireDigest := false } : EvidenceRequirement).Met recorded ↔
    req.count ≤ recorded.countP req.counts + req.digestlessConfident recorded := by
  have hcounts : recorded.countP ({ req with requireDigest := false } : EvidenceRequirement).counts =
      recorded.countP req.counts + req.digestlessConfident recorded := by
    rw [countP_split recorded _ fun e => !req.lacksDigest e]
    refine congrArg₂ _ (countP_congr fun e _ => ?_) (countP_congr fun e _ => ?_)
    · show ((_ && (!false && req.confident e)) && !req.lacksDigest e) ↔ _
      unfold counts
      cases req.lacksDigest e <;> cases req.confident e <;> simp
    · show ((_ && (!false && req.confident e)) && !!req.lacksDigest e) ↔ _
      cases req.lacksDigest e <;> cases req.confident e <;> simp
  unfold Met
  rw [hcounts]

theorem met_without_confidence_iff : ({ req with minConfidence := none } : EvidenceRequirement).Met recorded ↔
    req.count ≤ recorded.countP req.counts + req.doubtful recorded := by
  have hcounts : recorded.countP ({ req with minConfidence := none } : EvidenceRequirement).counts =
      recorded.countP req.counts + req.doubtful recorded := by
    rw [countP_split recorded _ req.confident]
    refine congrArg₂ _ (countP_congr fun e _ => ?_) (countP_congr fun e _ => ?_)
    · show ((_ && (!req.lacksDigest e && true)) && req.confident e) ↔ _
      unfold counts
      cases req.lacksDigest e <;> cases req.confident e <;> simp
    · show ((_ && (!req.lacksDigest e && true)) && !req.confident e) ↔ _
      cases req.lacksDigest e <;> cases req.confident e <;> simp
  unfold Met
  rw [hcounts]

theorem unmet_eq_none_iff : req.unmet recorded = none ↔ req.Met recorded := by
  rw [req.unmet_eq recorded]
  split
  · rename_i h
    exact iff_of_true rfl h
  · rename_i h
    refine iff_of_false (fun hnone => ?_) h
    split_ifs at hnone

end EvidenceRequirement

def requiredEvidence (guard : Value) : Option (List Value) :=
  (guard.get "requires").bind Value.asArray

def evidenceRequirements (guard : Value) : List EvidenceRequirement :=
  ((requiredEvidence guard).getD []).filterMap (parseEvidenceRequirement lib env)

variable {guard : Value} {inst : WorkflowInstance}

theorem evaluateEvidence_recorded (hstore : env.evidence = some list) (hlist : list inst.id = .ok recorded) :
    evaluateEvidence lib env guard inst =
    match (evidenceRequirements lib env guard).findSome? fun req => req.unmet recorded with
      | some diagnostic => .ok (false, diagnostic)
      | none => .ok (true, none) := by
  unfold evaluateEvidence
  rw [hstore]
  dsimp only
  rw [hlist]
  rfl

theorem evaluateEvidence_eq_true_iff : (∃ diagnostic, evaluateEvidence lib env guard inst = .ok (true, diagnostic)) ↔
    ∃ list recorded, env.evidence = some list ∧ list inst.id = .ok recorded ∧
      ∀ entry ∈ (requiredEvidence guard).getD [], ∀ req, parseEvidenceRequirement lib env entry = some req →
        req.Met recorded := by
  cases hstore : env.evidence with
  | none => simp [evaluateEvidence, hstore]
  | some list =>
    cases hlist : list inst.id with
    | error e => simp [evaluateEvidence, hstore, hlist]
    | ok recorded =>
      have hfound : (evidenceRequirements lib env guard).findSome? (fun req => req.unmet recorded) = none ↔
          ∀ entry ∈ (requiredEvidence guard).getD [], ∀ req, parseEvidenceRequirement lib env entry = some req →
            req.Met recorded := by
        rw [findSome?_eq_none_iff]
        constructor
        · intro h entry hentry req hreq
          exact (req.unmet_eq_none_iff recorded).mp (h req (mem_filterMap.mpr ⟨entry, hentry, hreq⟩))
        · intro h req hreq
          obtain ⟨entry, hentry, hparse⟩ := mem_filterMap.mp hreq
          exact (req.unmet_eq_none_iff recorded).mpr (h entry hentry req hparse)
      rw [evaluateEvidence_recorded lib env hstore hlist]
      constructor
      · rintro ⟨diagnostic, h⟩
        split at h
        · cases h
        · rename_i hnone
          exact ⟨list, recorded, rfl, hlist, hfound.mp hnone⟩
      · rintro ⟨_, _, ⟨⟩, hrecorded, h⟩
        cases hlist.symm.trans hrecorded
        rw [hfound.mpr h]
        exact ⟨none, rfl⟩

/-- The evidence guard passes on a list of requirements that are all well formed and met only,
exactly when its list is well formed, or it cannot pass anyway: no store answers, or an entry that
does parse is not met. -/
theorem evidence_guard_closed_iff (guard : Value) (inst : WorkflowInstance) :
    ((∃ diagnostic, evaluateEvidence lib env guard inst = .ok (true, diagnostic)) →
      ∃ list recorded entries, env.evidence = some list ∧ list inst.id = .ok recorded ∧ requiredEvidence guard = some entries ∧
        ∀ entry ∈ entries, ∃ req, parseEvidenceRequirement lib env entry = some req ∧ req.Met recorded) ↔
    (∃ entries, requiredEvidence guard = some entries ∧
      ∀ entry ∈ entries, (parseEvidenceRequirement lib env entry).isSome = true) ∨
    env.evidence = none ∨ (∃ list e, env.evidence = some list ∧ list inst.id = .error e) ∨
    ∃ list recorded, env.evidence = some list ∧ list inst.id = .ok recorded ∧
      ∃ entry ∈ (requiredEvidence guard).getD [], ∃ req, parseEvidenceRequirement lib env entry = some req ∧
        ¬ req.Met recorded := by
  rw [evaluateEvidence_eq_true_iff]
  constructor
  · intro h
    cases hstore : env.evidence with
    | none => exact .inr (.inl rfl)
    | some list =>
      cases hlist : list inst.id with
      | error e => exact .inr (.inr (.inl ⟨list, e, rfl, hlist⟩))
      | ok recorded =>
        by_cases hmet : ∀ entry ∈ (requiredEvidence guard).getD [], ∀ req, parseEvidenceRequirement lib env entry = some req →
            req.Met recorded
        · obtain ⟨_, _, entries, -, -, hentries, hall⟩ := h ⟨list, recorded, hstore, hlist, hmet⟩
          refine .inl ⟨entries, hentries, fun entry hentry => ?_⟩
          obtain ⟨req, hparse, -⟩ := hall entry hentry
          rw [hparse]
          rfl
        · push Not at hmet
          obtain ⟨entry, hentry, req, hparse, hunmet⟩ := hmet
          exact .inr (.inr (.inr ⟨list, recorded, rfl, hlist, entry, hentry, req, hparse, hunmet⟩))
  · rintro hcond ⟨list, recorded, hstore, hlist, hmet⟩
    rcases hcond with ⟨entries, hentries, hparse⟩ | hnone | ⟨list', e, hstore', herror⟩ |
      ⟨list', recorded', hstore', hlist', entry, hentry, req, hreq, hunmet⟩
    · refine ⟨list, recorded, entries, hstore, hlist, hentries, fun entry hentry => ?_⟩
      obtain ⟨req, hreq⟩ := isSome_iff_exists.mp (hparse entry hentry)
      rw [hentries] at hmet
      exact ⟨req, hreq, hmet entry hentry req hreq⟩
    · cases hstore.symm.trans hnone
    · cases hstore.symm.trans hstore'
      cases hlist.symm.trans herror
    · cases hstore.symm.trans hstore'
      cases hlist.symm.trans hlist'
      exact absurd (hmet entry hentry req hreq) hunmet

theorem findSome?_eq_bind (f : α → Option β) (xs : List α) :
    xs.findSome? f = (xs.find? fun x => (f x).isSome).bind f := by
  induction xs with
  | nil => rfl
  | cons x rest ih =>
    cases hx : f x with
    | none => simp [hx, ih]
    | some y => simp [hx]

def failingRequirement (guard : Value) (recorded : List Evidence) : Option EvidenceRequirement :=
  (evidenceRequirements lib env guard).find? fun req => (req.unmet recorded).isSome

theorem evaluateEvidence_failing (hstore : env.evidence = some list) (hlist : list inst.id = .ok recorded)
    (hreq : failingRequirement lib env guard recorded = some req) :
    evaluateEvidence lib env guard inst = .ok (false, code) ↔ req.unmet recorded = some code := by
  have hsome : (req.unmet recorded).isSome :=
    find?_some (p := fun req : EvidenceRequirement => (req.unmet recorded).isSome) hreq
  obtain ⟨diagnostic, hdiagnostic⟩ := isSome_iff_exists.mp hsome
  have hfound : (evidenceRequirements lib env guard).findSome? (fun req => req.unmet recorded) = some diagnostic := by
    rw [findSome?_eq_bind]
    exact (congrArg (Option.bind · _) hreq).trans hdiagnostic
  rw [evaluateEvidence_recorded lib env hstore hlist, hfound, hdiagnostic]
  simp

/-- A diagnostic names a filter without which the failing requirement is met, exactly when among the
records of its kind that want a digest enough are confident too. -/
theorem evidence_diagnostic_iff (guard : Value) (inst : WorkflowInstance) (list : String → Except Err (List Evidence))
    (recorded : List Evidence) (hstore : env.evidence = some list) (hlist : list inst.id = .ok recorded) :
    (∀ req, failingRequirement lib env guard recorded = some req →
      (evaluateEvidence lib env guard inst = .ok (false, some "EVIDENCE_DIGEST_REQUIRED") →
        ({ req with requireDigest := false } : EvidenceRequirement).Met recorded) ∧
      (evaluateEvidence lib env guard inst = .ok (false, some "EVIDENCE_CONFIDENCE_BELOW_THRESHOLD") →
        ({ req with minConfidence := none } : EvidenceRequirement).Met recorded)) ↔
    ∀ req, failingRequirement lib env guard recorded = some req → req.requireDigest = true →
      req.count ≤ recorded.countP req.counts + req.digestless recorded →
      req.count ≤ recorded.countP req.counts + req.digestlessConfident recorded := by
  refine forall_congr' fun req => forall_congr' fun hreq => ?_
  have hunmet : ¬ req.count ≤ recorded.countP req.counts := by
    have hsome : (req.unmet recorded).isSome = true :=
      find?_some (p := fun req : EvidenceRequirement => (req.unmet recorded).isSome) hreq
    intro hmet
    rw [(req.unmet_eq_none_iff recorded).mpr hmet] at hsome
    cases hsome
  rw [evaluateEvidence_failing lib env hstore hlist hreq, evaluateEvidence_failing lib env hstore hlist hreq,
    req.met_without_digest_iff, req.met_without_confidence_iff, req.unmet_eq, if_neg hunmet]
  constructor
  · rintro ⟨hdigest, -⟩ hrequired hcount
    exact hdigest (if_pos ⟨hrequired, hcount⟩)
  · intro h
    constructor
    · intro hcode
      split at hcode
      · rename_i hcause
        exact h hcause.1 hcause.2
      · split at hcode <;> exact absurd hcode (by decide)
    · intro hcode
      split at hcode
      · exact absurd hcode (by decide)
      · split at hcode
        · rename_i hcause
          exact hcause.2
        · exact absurd hcode (by decide)

end

def GuardEnv.recording (recorded : List Evidence) : GuardEnv :=
  { GuardEnv.bare with evidence := some fun _ => .ok recorded }

def evidenceGuard (requires : Value) : Value :=
  .object [("kind", "evidence"), ("requires", requires)]

/-- An entry without its kind is dropped, and nothing is left to require. -/
theorem malformed_requirement_passes : ∃ (lib : Libraries) (env : GuardEnv) (guard : Value) (inst : WorkflowInstance)
    (entry : Value), requiredEvidence guard = some [entry] ∧ parseEvidenceRequirement lib env entry = none ∧
    evaluateEvidence lib env guard inst = .ok (true, none) :=
  ⟨.plain, .recording [], evidenceGuard (.array [.object [("count", .nat 3)]]), guardedInstance (.object []) (.object []),
    .object [("count", .nat 3)], by decide +kernel, by decide +kernel, by decide +kernel⟩

def doubtfulRecord : Evidence :=
  ⟨"review", "e1", none, none, none, some F32.zero⟩

def strictRequirement : Value :=
  .object [("kind", "review"), ("min_confidence", .nat 1), ("require_digest", .bool true)]

def GuardEnv.confident (recorded : List Evidence) : GuardEnv :=
  { GuardEnv.recording recorded with toF32 := fun _ => F32.one }

theorem digest_blamed_for_confidence : ∃ (lib : Libraries) (env : GuardEnv) (guard : Value) (inst : WorkflowInstance)
    (list : String → Except Err (List Evidence)) (recorded : List Evidence) (req : EvidenceRequirement),
    env.evidence = some list ∧ list inst.id = .ok recorded ∧ failingRequirement lib env guard recorded = some req ∧
    evaluateEvidence lib env guard inst = .ok (false, some "EVIDENCE_DIGEST_REQUIRED") ∧
    ¬ ({ req with requireDigest := false } : EvidenceRequirement).Met recorded := by
  refine ⟨.plain, .confident [doubtfulRecord], evidenceGuard (.array [strictRequirement]),
    guardedInstance (.object []) (.object []), fun _ => .ok [doubtfulRecord], [doubtfulRecord], ⟨"review", 1, some F32.one, true⟩,
    rfl, rfl, by decide +kernel, by decide +kernel, ?_⟩
  unfold EvidenceRequirement.Met
  decide +kernel

def confidentRecord : Evidence :=
  { doubtfulRecord with confidence := some F32.one }

theorem digest_blamed_rightly :
    failingRequirement .plain (.confident [confidentRecord]) (evidenceGuard (.array [strictRequirement])) [confidentRecord] =
      some ⟨"review", 1, some F32.one, true⟩ ∧
    (⟨"review", 1, some F32.one, false⟩ : EvidenceRequirement).Met [confidentRecord] := by
  have hfailing : failingRequirement .plain (.confident [confidentRecord]) (evidenceGuard (.array [strictRequirement]))
      [confidentRecord] = some ⟨"review", 1, some F32.one, true⟩ := by decide +kernel
  refine ⟨hfailing, ((evidence_diagnostic_iff .plain (.confident [confidentRecord])
    (evidenceGuard (.array [strictRequirement])) (guardedInstance (.object []) (.object [])) (fun _ => .ok [confidentRecord])
    [confidentRecord] rfl rfl).mpr ?_ _ hfailing).1 (by decide +kernel)⟩
  intro req hreq
  cases hfailing.symm.trans hreq
  decide +kernel

end Praxec
