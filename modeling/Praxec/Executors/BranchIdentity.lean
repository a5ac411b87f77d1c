import Praxec.Executors.Joins

namespace Praxec

open Json List String Text

section

variable (request : ExecuteRequest)

/-- The events of the task of a branch: `index` is the one that the spawn loop counts. -/
def branchStarted (index : Nat) (branch : Value) : AuditEvent :=
  (request.workflow.auditEvent "parallel.branch.started"
    [("transition", (request.transition.map Value.string).getD .null), ("branch_index", .nat index),
      ("branch_executor_kind", ((strField branch "kind").map Value.string).getD .null)]).withCorrelation
    (request.correlationId.getD "unset-corr")

def branchEnded (index durationMs : Nat) (result : Execution) : AuditEvent :=
  let (eventType, error) := match result with
    | .ok _ => ("parallel.branch.completed", Value.null)
    | .error e => ("parallel.branch.failed", .string e.message)
  (request.workflow.auditEvent eventType
    [("transition", (request.transition.map Value.string).getD .null), ("branch_index", .nat index),
      ("durationMs", .nat durationMs), ("error", error)]).withCorrelation (request.correlationId.getD "unset-corr")

def keyTemplate (config : Value) : Option String :=
  match config.get "idempotencyKey" with
  | some (.bool true) => some "\x7bworkflowId\x7d.\x7btransition\x7d.\x7bcorrelationId\x7d"
  | some (.string template) => some template
  | _ => none

theorem segment_key (h : keyTemplate config = some template) (index : Nat) :
    (segmentBranchIdempotencyKey config index).get "idempotencyKey" = some (.string (template ++ s!":branch:{index}")) := by
  have hobject : config.isObject := by
    cases config with
    | object _ => rfl
    | _ => cases h
  have hinsert (key : String) : (config.insert "idempotencyKey" (.string key)).get "idempotencyKey" = some (.string key) := by
    rw [Value.get_insert hobject, if_pos rfl]
  unfold keyTemplate at h
  split at h
  · rename_i hget
    cases h
    have hsegment : segmentBranchIdempotencyKey config index = config.insert "idempotencyKey"
        (.string s!"\x7bworkflowId\x7d.\x7btransition\x7d.\x7bcorrelationId\x7d:branch:{index}") := by
      simp only [segmentBranchIdempotencyKey, hget]
    rw [hsegment, hinsert]
    rfl
  · rename_i hget
    cases h
    have hsegment : segmentBranchIdempotencyKey config index =
        config.insert "idempotencyKey" (.string s!"{template}:branch:{index}") := by
      simp only [segmentBranchIdempotencyKey, hget]
    rw [hsegment, hinsert]
    exact congrArg (fun key => some (Value.string key)) (append_assoc ..)
  · cases h

/-- Everything that is reported of the branch at place `k` names the position `i`. -/
structure ReportedAt (k : Nat) (branch : Value) (i : Nat) : Prop where
  started : (branchStarted request k branch).payload.get "branch_index" = some (.nat i)
  ended : ∀ durationMs result, (branchEnded request k durationMs result).payload.get "branch_index" = some (.nat i)
  slot : ∀ result, (branchSlot k result).get "index" = some (.nat i)
  key : ∀ template, keyTemplate branch = some template →
    (segmentBranchIdempotencyKey branch k).get "idempotencyKey" = some (.string (template ++ s!":branch:{i}"))

theorem reportedAt_iff : ReportedAt request k branch i ↔ k = i := by
  constructor
  · intro h
    have hindex : some (Value.nat k) = some (Value.nat i) := h.started
    cases hindex
    rfl
  · rintro rfl
    refine ⟨rfl, fun durationMs result => ?_, fun result => ?_, fun template h => segment_key h k⟩
    · cases result <;> rfl
    · cases result <;> rfl

theorem getElem?_filter_countP {α : Type} {keep : α → Bool} {l : List α} {j : Nat} {x : α} (hj : l[j]? = some x)
    (hx : keep x) : (l.filter keep)[(l.take j).countP keep]? = some x := by
  induction l generalizing j with
  | nil => cases hj
  | cons y l ih =>
    cases j with
    | zero =>
      cases hj
      rw [filter_cons_of_pos hx]
      rfl
    | succ j =>
      have hrest := ih hj
      rw [take_succ_cons]
      cases hy : keep y with
      | true => rwa [filter_cons_of_pos hy, countP_cons_of_pos hy]
      | false => rwa [filter_cons_of_neg (by simp [hy]), countP_cons_of_neg (by simp [hy])]

theorem exists_of_getElem?_filter {α : Type} {keep : α → Bool} {l : List α} {k : Nat} {x : α} (hk : (l.filter keep)[k]? = some x) :
    ∃ j, l[j]? = some x ∧ keep x ∧ (l.take j).countP keep = k := by
  induction l generalizing k with
  | nil => cases hk
  | cons y l ih =>
    cases hy : keep y with
    | true =>
      rw [filter_cons_of_pos hy] at hk
      cases k with
      | zero =>
        cases hk
        exact ⟨0, rfl, hy, rfl⟩
      | succ k =>
        obtain ⟨j, hj, hx, hcount⟩ := ih hk
        exact ⟨j + 1, hj, hx, by rw [take_succ_cons, countP_cons_of_pos hy, hcount]⟩
    | false =>
      rw [filter_cons_of_neg (by simp [hy])] at hk
      obtain ⟨j, hj, hx, hcount⟩ := ih hk
      exact ⟨j + 1, hj, hx, by rw [take_succ_cons, countP_cons_of_neg (by simp [hy]), hcount]⟩

theorem filter_zipIdx_in_place_iff {α : Type} (keep : α × Nat → Bool) (xs : List α) :
    (∀ (k : Nat) (item : α × Nat), (xs.zipIdx.filter keep)[k]? = some item → k = item.2) ↔
    ∀ (i j : Nat) (a b : α), i < j → xs[i]? = some a → xs[j]? = some b → keep (b, j) → keep (a, i) := by
  have hzip {j : Nat} {x : α} (hx : xs[j]? = some x) : xs.zipIdx[j]? = some (x, j) := by
    simp [getElem?_zipIdx, hx]
  have hindex {j : Nat} {item : α × Nat} (hj : xs.zipIdx[j]? = some item) : xs[j]? = some item.1 ∧ item.2 = j := by
    rw [getElem?_zipIdx] at hj
    obtain ⟨x, hx, rfl⟩ := Option.map_eq_some_iff.mp hj
    exact ⟨hx, Nat.zero_add j⟩
  constructor
  · intro h i j a b hij ha hb hkeep
    have hcount : (xs.zipIdx.take j).countP keep = j := h _ _ (getElem?_filter_countP (hzip hb) hkeep)
    have hlength : (xs.zipIdx.take j).length = j := by
      obtain ⟨hlt, -⟩ := List.getElem?_eq_some_iff.mp hb
      rw [length_take, length_zipIdx]
      omega
    have hmem : (xs.zipIdx.take j)[i]? = some (a, i) := by
      rw [getElem?_take_of_lt hij]
      exact hzip ha
    exact countP_eq_length.mp (hcount.trans hlength.symm) (a, i) (mem_of_getElem? hmem)
  · intro h k item hk
    obtain ⟨j, hj, hkeep, hcount⟩ := exists_of_getElem?_filter hk
    obtain ⟨hb, rfl⟩ := hindex hj
    have hall : (xs.zipIdx.take item.2).countP keep = (xs.zipIdx.take item.2).length := by
      refine countP_eq_length.mpr fun other hother => ?_
      obtain ⟨i, hi⟩ := mem_iff_getElem?.mp hother
      have hlt : i < item.2 := by
        have := (List.getElem?_eq_some_iff.mp hi).1
        rw [length_take] at this
        omega
      rw [getElem?_take_of_lt hlt] at hi
      obtain ⟨ha, hposition⟩ := hindex hi
      subst hposition
      exact h other.2 item.2 other.1 item.1 hlt ha hb hkeep
    obtain ⟨hlt, -⟩ := List.getElem?_eq_some_iff.mp hb
    rw [← hcount, hall, length_take, length_zipIdx]
    omega

variable (lib : Libraries) (parseF64 : String → Option Nat)

def forEachSource (config : ParallelConfig) : Option (List Value × Option String) :=
  match config.branchesSpec with
  | .literal _ => none
  | .forEach path _ whereClause _ => match readInScopes request.scopes path with
    | some (.array xs) => some (xs, whereClause)
    | _ => none

variable {request lib parseF64} {config : ParallelConfig} {xs branches : List Value} {whereClause : Option String}

theorem resolveBranches_forEach (hsource : forEachSource request config = some (xs, whereClause))
    (hbranches : resolveBranches lib parseF64 config request = .ok branches) :
    ∃ template, branches = (xs.zipIdx.filter (keepsItem lib parseF64 whereClause)).map fun item =>
      substituteBranchTemplate item.2 item.1 template := by
  unfold forEachSource at hsource
  unfold resolveBranches at hbranches
  split at hsource
  · cases hsource
  rename_i path template clause schema hspec
  rw [hspec] at hbranches
  dsimp only at hbranches
  split at hsource
  · rename_i hread
    cases hsource
    rw [hread] at hbranches
    cases schema with
    | none => exact ⟨template, (Except.ok.inj hbranches).symm⟩
    | some schema =>
      obtain ⟨_, -, hbranches⟩ := bind_ok hbranches
      exact ⟨template, (Except.ok.inj hbranches).symm⟩
  · cases hsource

theorem reported_in_place_iff (hsource : forEachSource request config = some (xs, whereClause))
    (hbranches : resolveBranches lib parseF64 config request = .ok branches) :
    (∀ (k : Nat) (item : Value × Nat) (branch : Value), (xs.zipIdx.filter (keepsItem lib parseF64 whereClause))[k]? = some item →
      branches[k]? = some branch → ReportedAt request k branch item.2) ↔
    ∀ (i j : Nat) (a b : Value), i < j → xs[i]? = some a → xs[j]? = some b →
      keepsItem lib parseF64 whereClause (b, j) → keepsItem lib parseF64 whereClause (a, i) := by
  obtain ⟨template, rfl⟩ := resolveBranches_forEach hsource hbranches
  rw [← filter_zipIdx_in_place_iff]
  constructor
  · intro h k item hk
    refine (reportedAt_iff request).mp (h k item (substituteBranchTemplate item.2 item.1 template) hk ?_)
    rw [getElem?_map, hk]
    rfl
  · intro h k item branch hk _
    exact (reportedAt_iff request).mpr (h k item hk)

end

section

variable (lib : Libraries) (parseF64 : String → Option Nat) (request : ExecuteRequest)

/-- The branches that a config runs in the end: a path gives the place of a branch in each of the fan-outs around it,
and the config is that of the branch before its key is segmented. -/
inductive LeafAt : Nat → Value → List Nat → Value → Prop
  | leaf {depth : Nat} {step : Value} {config : ParallelConfig} {branches resolved : List Value} {i : Nat} {branch : Value}
      (hstep : isParallel step = true) (hconfig : ParallelConfig.fromValue lib step = .ok config)
      (hfan : fanOut lib parseF64 depth { request with executorConfig := step } = .ok branches)
      (hresolved : resolveBranches lib parseF64 config { request with executorConfig := step } = .ok resolved)
      (hbranch : resolved[i]? = some branch) (hleaf : isParallel branch = false) : LeafAt depth step [i] branch
  | nested {depth : Nat} {step : Value} {config : ParallelConfig} {branches resolved : List Value} {i : Nat} {branch : Value}
      {path : List Nat} {leaf : Value}
      (hstep : isParallel step = true) (hconfig : ParallelConfig.fromValue lib step = .ok config)
      (hfan : fanOut lib parseF64 depth { request with executorConfig := step } = .ok branches)
      (hresolved : resolveBranches lib parseF64 config { request with executorConfig := step } = .ok resolved)
      (hbranch : resolved[i]? = some branch) (hnested : isParallel branch = true)
      (hleaf : LeafAt (depth + 1) (segmentBranchIdempotencyKey branch i) path leaf) : LeafAt depth step (i :: path) leaf

def renderKey (template : String) : String :=
  let key := replaceAll template "{workflowId}" request.workflow.id
  let key := replaceAll key "{transition}" (request.transition.getD "on_enter")
  replaceAll key "{correlationId}" (request.correlationId.getD "unset-corr")

def leafKey (path : List Nat) (leaf : Value) : Option String :=
  computeIdempotencyKey (segmentBranchIdempotencyKey leaf (path.getLast?.getD 0)) request.workflow request.transition
    (request.correlationId.getD "unset-corr")

theorem toList_toString (i : Nat) : (toString i).toList = Nat.toDigits 10 i := by
  change (Nat.repr i).toList = _
  simp [Nat.repr]

theorem not_mem_digits (i : Nat) (hc : c.isDigit = false) : c ∉ (toString i).toList := by
  rw [toList_toString]
  intro hmem
  have hdigit : c.isDigit := Nat.isDigit_of_mem_toDigits (by decide) (by decide) hmem
  cases hc.symm.trans hdigit

theorem digits_inj {i j : Nat} (h : (toString i).toList = (toString j).toList) : i = j := by
  rw [toList_toString, toList_toString] at h
  have hvalue := congrArg (Nat.ofDigitChars 10 · 0) h
  simpa only [Nat.ofDigitChars_toDigits (by decide : 1 < 10) (by decide)] using hvalue

theorem toList_branch (i : Nat) : (s!":branch:{i}").toList = ':' :: ("branch:".toList ++ (toString i).toList) := by
  have hsplit : s!":branch:{i}" = ":branch:" ++ toString i := rfl
  rw [toList_append]
  rfl

theorem renderKey_append (template : String) (i : Nat) :
    renderKey request (template ++ s!":branch:{i}") = renderKey request template ++ s!":branch:{i}" := by
  have hbrace : '\x7b' ∉ ':' :: ("branch:".toList ++ (toString i).toList) := by
    rw [← cons_append, mem_append, not_or]
    exact ⟨by decide, not_mem_digits i (by decide)⟩
  have hreplace {s needle new : String} (hneedle : needle.toList.head? = some '\x7b') (hcolon : ':' ∉ needle.toList) :
      replaceAll (s ++ s!":branch:{i}") needle new = replaceAll s needle new ++ s!":branch:{i}" :=
    replaceAll_append hneedle (toList_branch i) hcolon hbrace
  unfold renderKey
  dsimp only
  rw [hreplace rfl (by decide), hreplace rfl (by decide), hreplace rfl (by decide)]

theorem leafKey_eq {path : List Nat} {leaf : Value} : leafKey request path leaf =
    (keyTemplate leaf).map fun template => renderKey request template ++ s!":branch:{path.getLast?.getD 0}" := by
  unfold leafKey
  cases htemplate : keyTemplate leaf with
  | some template =>
    rw [Option.map_some, ← renderKey_append, computeIdempotencyKey, segment_key htemplate]
    rfl
  | none =>
    obtain ⟨hbool, hstring⟩ : leaf.get "idempotencyKey" ≠ some (.bool true) ∧
        ∀ template, leaf.get "idempotencyKey" ≠ some (.string template) := by
      unfold keyTemplate at htemplate
      split at htemplate
      · cases htemplate
      · cases htemplate
      · rename_i hbool hstring
        exact ⟨hbool, hstring⟩
    have hsame : segmentBranchIdempotencyKey leaf (path.getLast?.getD 0) = leaf := by
      unfold segmentBranchIdempotencyKey
      split
      · rename_i hget
        exact absurd hget hbool
      · rename_i hget
        exact absurd hget (hstring _)
      · rfl
    rw [hsame, computeIdempotencyKey]
    split
    · rename_i hget
      exact absurd hget hbool
    · rename_i hget
      exact absurd hget (hstring _)
    · rfl

theorem branch_key_inj {a b : String} {i j : Nat} : a ++ s!":branch:{i}" = b ++ s!":branch:{j}" ↔ a = b ∧ i = j := by
  constructor
  · intro h
    have hlist := congrArg String.toList h
    have hcut (c : String) (k : Nat) : (c ++ s!":branch:{k}").toList = (c.toList ++ ":branch".toList) ++ ':' :: (toString k).toList := by
      rw [toList_append, toList_branch]
      simp
    rw [hcut, hcut] at hlist
    obtain ⟨hfront, hdigits⟩ := append_sep_inj (not_mem_digits i (by decide)) (not_mem_digits j (by decide)) hlist
    exact ⟨toList_injective (append_cancel_right hfront), digits_inj hdigits⟩
  · rintro ⟨rfl, rfl⟩
    rfl

variable {lib parseF64 request}

theorem LeafAt.path_ne_nil {depth : Nat} {step leaf : Value} {path : List Nat} (h : LeafAt lib parseF64 request depth step path leaf) :
    path ≠ [] := by
  cases h <;> exact cons_ne_nil _ _

theorem keys_apart_iff :
    (∀ p q leaf leaf', LeafAt lib parseF64 request 0 step p leaf → LeafAt lib parseF64 request 0 step q leaf' → p ≠ q →
      ∀ key, leafKey request p leaf = some key → leafKey request q leaf' ≠ some key) ↔
    ∀ p q leaf leaf', LeafAt lib parseF64 request 0 step p leaf → LeafAt lib parseF64 request 0 step q leaf' → p ≠ q →
      p.getLast? = q.getLast? → ∀ t t', keyTemplate leaf = some t → keyTemplate leaf' = some t' →
      renderKey request t ≠ renderKey request t' := by
  constructor
  · intro h p q leaf leaf' hleaf hleaf' hne hlast t t' ht ht' hrender
    refine h p q leaf leaf' hleaf hleaf' hne (renderKey request t ++ s!":branch:{p.getLast?.getD 0}") ?_ ?_
    · rw [leafKey_eq, ht]
      rfl
    · rw [leafKey_eq, ht', hrender, hlast]
      rfl
  · intro h p q leaf leaf' hleaf hleaf' hne key hkey hkey'
    rw [leafKey_eq] at hkey hkey'
    obtain ⟨t, ht, rfl⟩ := Option.map_eq_some_iff.mp hkey
    obtain ⟨t', ht', heq⟩ := Option.map_eq_some_iff.mp hkey'
    obtain ⟨hrender, hlast⟩ := branch_key_inj.mp heq
    refine h p q leaf leaf' hleaf hleaf' hne ?_ t t' ht ht' hrender.symm
    rw [getLast?_eq_some_getLast hleaf.path_ne_nil, getLast?_eq_some_getLast hleaf'.path_ne_nil] at hlast ⊢
    exact congrArg some hlast.symm

end

/-- A branch of a mapped array is reported under the position of its element exactly if the `where` keeps no element behind
one that it drops, and the branches of a nest of fan-outs have keys of their own exactly if no two at the same place of
theirs ask for keys that render alike. -/
theorem branch_identity_iff {lib : Libraries} {parseF64 : String → Option Nat} {request : ExecuteRequest}
    {config : ParallelConfig} {xs branches : List Value} {whereClause : Option String}
    (hsource : forEachSource request config = some (xs, whereClause))
    (hbranches : resolveBranches lib parseF64 config request = .ok branches) (step : Value) :
    ((∀ (k : Nat) (item : Value × Nat) (branch : Value),
        (xs.zipIdx.filter (keepsItem lib parseF64 whereClause))[k]? = some item → branches[k]? = some branch →
        ReportedAt request k branch item.2) ↔
      ∀ (i j : Nat) (a b : Value), i < j → xs[i]? = some a → xs[j]? = some b →
        keepsItem lib parseF64 whereClause (b, j) = true → keepsItem lib parseF64 whereClause (a, i) = true) ∧
    ((∀ p q leaf leaf', LeafAt lib parseF64 request 0 step p leaf → LeafAt lib parseF64 request 0 step q leaf' → p ≠ q →
        ∀ key, leafKey request p leaf = some key → leafKey request q leaf' ≠ some key) ↔
      ∀ p q leaf leaf', LeafAt lib parseF64 request 0 step p leaf → LeafAt lib parseF64 request 0 step q leaf' → p ≠ q →
        p.getLast? = q.getLast? → ∀ t t', keyTemplate leaf = some t → keyTemplate leaf' = some t' →
        renderKey request t ≠ renderKey request t') :=
  ⟨reported_in_place_iff hsource hbranches, keys_apart_iff⟩

def keyedBranch : Value :=
  .object [("kind", "noop"), ("idempotencyKey", .bool true)]

def mapRequest (fields : Fields) : ExecuteRequest :=
  { editRequest with
    workflow := { editRequest.workflow with context := .object [("files", .array [.string "a", .string "b"])] }
    executorConfig := parallelOf (.object ([("for_each", .string "$.context.files"), ("do", keyedBranch)] ++ fields)) }

def secondOnly : ExecuteRequest :=
  mapRequest [("where", "$.value == \"b\"")]

def nestOfTwo : Value :=
  parallelOf (.array [parallelOf (.array [keyedBranch]), parallelOf (.array [keyedBranch])])

theorem branches_confused : (∃ config xs whereClause branches branch,
      ParallelConfig.fromValue .plain secondOnly.executorConfig = .ok config ∧
      forEachSource secondOnly config = some (xs, whereClause) ∧
      resolveBranches .plain (fun _ => none) config secondOnly = .ok branches ∧
      (xs.zipIdx.filter (keepsItem .plain (fun _ => none) whereClause))[0]? = some (.string "b", 1) ∧
      branches[0]? = some branch ∧ ¬ ReportedAt secondOnly 0 branch 1) ∧
    ∃ key : String, LeafAt .plain (fun _ => none) editRequest 0 nestOfTwo [0, 0] keyedBranch ∧
      LeafAt .plain (fun _ => none) editRequest 0 nestOfTwo [1, 0] keyedBranch ∧
      leafKey editRequest [0, 0] keyedBranch = some key ∧ leafKey editRequest [1, 0] keyedBranch = some key := by
  constructor
  · have hkept : ([Value.string "a", .string "b"].zipIdx.filter
        (keepsItem .plain (fun _ => none) (some "$.value == \"b\""))) = [(.string "b", 1)] := by decide +kernel
    have hbranches : resolveBranches .plain (fun _ => none)
        ⟨.all, none, .bail, none, 3, .forEach "$.context.files" keyedBranch (some "$.value == \"b\"") none⟩ secondOnly =
        .ok [keyedBranch] := by
      decide +kernel
    refine ⟨_, _, _, _, keyedBranch, rfl, rfl, hbranches, ?_, rfl, ?_⟩
    · rw [hkept]
      rfl
    · rw [reportedAt_iff]
      decide
  · refine ⟨(leafKey editRequest [0, 0] keyedBranch).getD "", ?_, ?_, rfl, rfl⟩
    · exact .nested rfl rfl rfl rfl rfl rfl (.leaf rfl rfl rfl rfl rfl rfl)
    · exact .nested rfl rfl rfl rfl rfl rfl (.leaf rfl rfl rfl rfl rfl rfl)

def flatPair : Value :=
  parallelOf (.array [keyedBranch, keyedBranch])

theorem LeafAt.flat {request : ExecuteRequest} {path : List Nat} {leaf : Value}
    (h : LeafAt .plain (fun _ => none) request 0 flatPair path leaf) : ∃ i, path = [i] := by
  cases h with
  | @leaf _ _ _ _ _ i _ _ _ _ _ _ _ => exact ⟨i, rfl⟩
  | nested _ hconfig _ hresolved hbranch hnested =>
    cases hconfig
    cases hresolved
    have hkeyed := List.mem_of_getElem? hbranch
    simp only [List.mem_cons, List.not_mem_nil, or_false, or_self] at hkeyed
    subst hkeyed
    cases hnested

theorem branches_told_apart :
    (∃ config xs branches, ParallelConfig.fromValue .plain (mapRequest []).executorConfig = .ok config ∧
      forEachSource (mapRequest []) config = some (xs, none) ∧ xs.length = 2 ∧
      resolveBranches .plain (fun _ => none) config (mapRequest []) = .ok branches ∧
      ∀ (k : Nat) (item : Value × Nat) (branch : Value),
        (xs.zipIdx.filter (keepsItem .plain (fun _ => none) none))[k]? = some item → branches[k]? = some branch →
        ReportedAt (mapRequest []) k branch item.2) ∧
    ∀ key, leafKey (mapRequest []) [0] keyedBranch = some key → leafKey (mapRequest []) [1] keyedBranch ≠ some key := by
  have hsource : forEachSource (mapRequest []) ⟨.all, none, .bail, none, 3, .forEach "$.context.files" keyedBranch none none⟩ =
      some ([.string "a", .string "b"], none) := rfl
  have hbranches : resolveBranches .plain (fun _ => none)
      ⟨.all, none, .bail, none, 3, .forEach "$.context.files" keyedBranch none none⟩ (mapRequest []) =
      .ok [keyedBranch, keyedBranch] := rfl
  refine ⟨⟨_, _, _, rfl, hsource, rfl, hbranches, ?_⟩, ?_⟩
  · exact (branch_identity_iff hsource hbranches flatPair).1.mpr fun _ _ _ _ _ _ _ _ => rfl
  · have hfirst : LeafAt .plain (fun _ => none) (mapRequest []) 0 flatPair [0] keyedBranch := .leaf rfl rfl rfl rfl rfl rfl
    have hsecond : LeafAt .plain (fun _ => none) (mapRequest []) 0 flatPair [1] keyedBranch := .leaf rfl rfl rfl rfl rfl rfl
    refine (branch_identity_iff hsource hbranches flatPair).2.mpr (fun p q leaf leaf' hp hq hne hlast => ?_)
      [0] [1] _ _ hfirst hsecond (by decide)
    obtain ⟨i, rfl⟩ := hp.flat
    obtain ⟨j, rfl⟩ := hq.flat
    cases hlast
    exact absurd rfl hne

end Praxec
