import Praxec.Mapping

namespace Praxec

open Json List Option Text Text

def wholeScopes : List String :=
  ["$", "$.output", "$.arguments", "$.context", "$.workflow.input", "$.run.repo_root"]

def pathScopes : List String :=
  ["$.output.", "$.context.", "$.arguments.", "$.workflow.input."]

def isResolvableWriteScope (s : String) : Bool :=
  let s := trim s
  wholeScopes.contains s || pathScopes.any fun root => startsWith s root

theorem exists_walk_eq (tokens : List String) (v : Value) : ∃ root : Value, root.walk tokens = some v := by
  induction tokens with
  | nil => exact ⟨v, rfl⟩
  | cons token rest ih =>
    obtain ⟨inner, hinner⟩ := ih
    refine ⟨.object [(token, inner)], ?_⟩
    simp [Fields.get, hinner]

theorem exists_dotPointer_eq (path : List Char) (v : Value) : ∃ root : Value, root.pointer (dotPointer path) = some v := by
  obtain ⟨root, hroot⟩ := exists_walk_eq
    ((splitSlash (replaceChar '.' '/' path)).map fun t => String.ofList (restoreTilde (restoreSlash t))) v
  refine ⟨root, ?_⟩
  unfold Value.pointer pointerTokens dotPointer
  rw [String.toList_ofList]
  exact hroot

theorem exists_resolvePath_isSome (path : List Char) : ∃ root : Value, (resolvePath root path).isSome := by
  unfold resolvePath resolvePathWithProjection
  cases splitOnce "[*]".toList path with
  | none =>
    obtain ⟨root, hroot⟩ := exists_dotPointer_eq path .null
    exact ⟨root, by simp [hroot]⟩
  | some parts =>
    by_cases hclean : (trimEnd '.' parts.1).isEmpty
    · exact ⟨.array [], by simp [hclean, Value.asArray]⟩
    · obtain ⟨root, hroot⟩ := exists_dotPointer_eq (trimEnd '.' parts.1) (.array [])
      exact ⟨root, by simp [hclean, hroot, Value.asArray]⟩

def Readable (s : String) : Prop :=
  ∃ sc : Scopes, (readInScopes sc s).isSome = true

def namedReads : List String :=
  "$.run.artifacts_dir" :: wholeScopes

def readBelow (sc : Scopes) (text : List Char) : Option Value :=
  match stripStart "$.run.leased.".toList text with
  | some pool => (sc.runEnv.bind fun e => e.leased.lookup (String.ofList pool)).map .string
  | none => match stripStart "$.arguments.".toList text with
    | some path => resolvePath sc.arguments path
    | none => match stripStart "$.context.".toList text with
      | some path => resolvePath sc.context path
      | none => match stripStart "$.workflow.input.".toList text with
        | some path => resolvePath sc.workflowInput path
        | none => sc.executorOutput.bind fun out =>
            (stripStart "$.output.".toList text).bind (resolvePath out)

variable {s : String}

theorem readInScopes_of_not_named (h : s ∉ namedReads) : readInScopes sc s = readBelow sc s.toList := by
  simp only [namedReads, wholeScopes, List.mem_cons, List.not_mem_nil, or_false, not_or] at h
  obtain ⟨hdir, hall, hout, harg, hctx, hin, hroot⟩ := h
  unfold readInScopes readBelow
  simp only [hdir, hall, hout, harg, hctx, hin, hroot, if_false, decide_false, Bool.or_self]
  rfl

section

variable (sc : Scopes) {s : String} {root path : List Char}

/-- No name starts with `root`, so that what starts with it is read below a scope. -/
theorem readInScopes_of_append (hs : s.toList = root ++ path)
    (hroot : ∀ name ∈ namedReads, root.isPrefixOf name.toList = false) :
    readInScopes sc s = readBelow sc (root ++ path) := by
  rw [← hs]
  refine readInScopes_of_not_named fun hmem => ?_
  have hstart : root.isPrefixOf s.toList := isPrefixOf_iff_prefix.mpr ⟨path, hs.symm⟩
  rw [hroot s hmem] at hstart
  cases hstart

theorem readInScopes_arguments (hs : s.toList = "$.arguments.".toList ++ path) :
    readInScopes sc s = resolvePath sc.arguments path :=
  readInScopes_of_append sc hs (by decide)

theorem readInScopes_context (hs : s.toList = "$.context.".toList ++ path) :
    readInScopes sc s = resolvePath sc.context path :=
  readInScopes_of_append sc hs (by decide)

theorem readInScopes_workflowInput (hs : s.toList = "$.workflow.input.".toList ++ path) :
    readInScopes sc s = resolvePath sc.workflowInput path :=
  readInScopes_of_append sc hs (by decide)

theorem readInScopes_output (hs : s.toList = "$.output.".toList ++ path) :
    readInScopes sc s = sc.executorOutput.bind fun out => resolvePath out path :=
  readInScopes_of_append sc hs (by decide)

theorem readInScopes_leased (hs : s.toList = "$.run.leased.".toList ++ path) :
    readInScopes sc s = (sc.runEnv.bind fun e => e.leased.lookup (String.ofList path)).map .string :=
  readInScopes_of_append sc hs (by decide)

end

theorem readable_cases (h : Readable s) : s ∈ namedReads ∨ startsWith s "$.run.leased." ∨
      ∃ root ∈ pathScopes, startsWith s root := by
  by_cases hnamed : s ∈ namedReads
  · exact .inl hnamed
  obtain ⟨sc, hread⟩ := h
  rw [readInScopes_of_not_named hnamed] at hread
  unfold readBelow at hread
  split at hread
  case h_1 hstrip => exact .inr (.inl (startsWith_of_stripStart hstrip))
  split at hread
  case h_1 hstrip => exact .inr (.inr ⟨_, by decide, startsWith_of_stripStart hstrip⟩)
  split at hread
  case h_1 hstrip => exact .inr (.inr ⟨_, by decide, startsWith_of_stripStart hstrip⟩)
  split at hread
  case h_1 hstrip => exact .inr (.inr ⟨_, by decide, startsWith_of_stripStart hstrip⟩)
  obtain ⟨v, hv⟩ := isSome_iff_exists.mp hread
  obtain ⟨out, -, hout⟩ := bind_eq_some_iff.mp hv
  obtain ⟨path, hpath, -⟩ := bind_eq_some_iff.mp hout
  exact .inr (.inr ⟨_, by decide, startsWith_of_stripStart hpath⟩)

theorem readable_of_named (h : s ∈ namedReads) : Readable s := by
  refine ⟨⟨.null, .null, .null, some .null, some ⟨"", none, none, some "", []⟩⟩, ?_⟩
  revert s
  decide

theorem readable_of_leased (h : startsWith s "$.run.leased.") : Readable s := by
  obtain ⟨pool, hpool⟩ := isPrefixOf_iff_prefix.mp h
  refine ⟨⟨.null, .null, .null, none, some ⟨"", none, none, none, [(String.ofList pool, "")]⟩⟩, ?_⟩
  rw [readInScopes_leased _ hpool.symm]
  simp

variable {root : String}

theorem readable_of_path (hroot : root ∈ pathScopes) (h : startsWith s root) : Readable s := by
  obtain ⟨path, hpath⟩ := List.isPrefixOf_iff_prefix.mp h
  obtain ⟨doc, hdoc⟩ := exists_resolvePath_isSome path
  refine ⟨⟨doc, doc, doc, some doc, none⟩, ?_⟩
  simp only [pathScopes, List.mem_cons, List.not_mem_nil, or_false] at hroot
  rcases hroot with rfl | rfl | rfl | rfl
  · rw [readInScopes_output _ hpath.symm]
    exact hdoc
  · rw [readInScopes_context _ hpath.symm]
    exact hdoc
  · rw [readInScopes_arguments _ hpath.symm]
    exact hdoc
  · rw [readInScopes_workflowInput _ hpath.symm]
    exact hdoc

theorem readable_iff : Readable s ↔ s ∈ namedReads ∨ startsWith s "$.run.leased." ∨
      ∃ root ∈ pathScopes, startsWith s root := by
  constructor
  · exact readable_cases
  · rintro (hnamed | hleased | ⟨root, hroot, hstart⟩)
    · exact readable_of_named hnamed
    · exact readable_of_leased hleased
    · exact readable_of_path hroot hstart

section

open Text

theorem startsWith_trim_iff (hs : startsWith s "$") (hroot : startsWith root "$")
    (hback : root.toList.reverse.dropWhile isWhiteSpace = root.toList.reverse) :
    startsWith (trim s) root ↔ startsWith s root := by
  obtain ⟨more, hmore⟩ := isPrefixOf_iff_prefix.mp hroot
  obtain ⟨tail, htail⟩ := isPrefixOf_iff_prefix.mp hs
  unfold startsWith trim
  rw [String.toList_ofList, isPrefixOf_iff_prefix, isPrefixOf_iff_prefix]
  constructor
  · intro h
    refine h.trans ?_
    rw [← htail]
    exact trimText_prefix tail (by decide)
  · rintro ⟨rest, hrest⟩
    have hfront (more : List Char) : (root.toList ++ more).dropWhile isWhiteSpace = root.toList ++ more := by
      rw [← hmore]
      exact dropWhile_isWhiteSpace_cons (by decide)
    rw [← hrest, trimText_append rest hfront hback]
    exact ⟨_, rfl⟩

end

theorem isResolvableWriteScope_iff (hs : startsWith s "$") : isResolvableWriteScope s ↔
      trim s ∈ wholeScopes ∨ ∃ root ∈ pathScopes, startsWith s root := by
  have htrim : ∀ root ∈ pathScopes, (startsWith (trim s) root ↔ startsWith s root) := by
    have hshape : ∀ root ∈ pathScopes, startsWith root "$" ∧
        root.toList.reverse.dropWhile isWhiteSpace = root.toList.reverse := by decide
    intro root hroot
    exact startsWith_trim_iff hs (hshape root hroot).1 (hshape root hroot).2
  unfold isResolvableWriteScope
  simp only [Bool.or_eq_true, List.contains_iff_mem, List.any_eq_true]
  refine or_congr_right ⟨?_, ?_⟩
  · rintro ⟨root, hroot, h⟩
    exact ⟨root, hroot, (htrim root hroot).mp h⟩
  · rintro ⟨root, hroot, h⟩
    exact ⟨root, hroot, (htrim root hroot).mpr h⟩

theorem trim_of_mem_namedReads (h : s ∈ namedReads) : trim s = s := by
  revert s
  decide

theorem not_startsWith_of_mem_wholeScopes (h : trim s ∈ wholeScopes)
    (hs : startsWith s "$") (hroot : root = "$.run.leased." ∨ root ∈ pathScopes) :
    startsWith s root = false := by
  have hapart : ∀ root ∈ "$.run.leased." :: pathScopes, startsWith root "$" ∧
      root.toList.reverse.dropWhile isWhiteSpace = root.toList.reverse ∧
      ∀ whole ∈ wholeScopes, startsWith whole root = false := by decide
  obtain ⟨hdollar, hback, hwhole⟩ := hapart root (mem_cons.mpr hroot)
  rw [Bool.eq_false_iff]
  intro hstart
  have htrim := (startsWith_trim_iff hs hdollar hback).mpr hstart
  rw [hwhole _ h] at htrim
  cases htrim

theorem not_leased_of_path (hroot : root ∈ pathScopes) (hstart : startsWith s root) :
    ¬ startsWith s "$.run.leased." := by
  have hapart : ∀ root ∈ pathScopes, ¬ (root.toList <+: "$.run.leased.".toList ∨ "$.run.leased.".toList <+: root.toList) := by
    decide
  intro hleased
  exact hapart root hroot ( prefix_or_prefix_of_prefix ( isPrefixOf_iff_prefix.mp hstart)
    ( isPrefixOf_iff_prefix.mp hleased))

/-- The predicate knows neither of the run's own two scopes, and it trims what the reader does not. -/
theorem write_scope_exact_iff (s : String) (hs : startsWith s "$" = true) :
    (isResolvableWriteScope s = true ↔ Readable s) ↔
      s ≠ "$.run.artifacts_dir" ∧ startsWith s "$.run.leased." = false ∧
        (trim s ∈ wholeScopes → trim s = s) := by
  rw [isResolvableWriteScope_iff hs, readable_iff]
  constructor
  · intro hexact
    refine ⟨?_, ?_, ?_⟩
    · rintro rfl
      revert hexact
      decide
    · rw [Bool.eq_false_iff]
      intro hleased
      rcases hexact.mpr (.inr (.inl hleased)) with hwhole | ⟨root, hroot, hstart⟩
      · rw [not_startsWith_of_mem_wholeScopes hwhole hs (.inl rfl)] at hleased
        cases hleased
      · exact not_leased_of_path hroot hstart hleased
    · intro hwhole
      rcases hexact.mp (.inl hwhole) with hnamed | hleased | ⟨root, hroot, hstart⟩
      · exact trim_of_mem_namedReads hnamed
      · rw [not_startsWith_of_mem_wholeScopes hwhole hs (.inl rfl)] at hleased
        cases hleased
      · rw [not_startsWith_of_mem_wholeScopes hwhole hs (.inr hroot)] at hstart
        cases hstart
  · rintro ⟨hdir, hleased, htrim⟩
    rw [hleased]
    constructor
    · rintro (hwhole | hpath)
      · have hmem := htrim hwhole ▸ hwhole
        exact .inl (mem_cons_of_mem _ hmem)
      · exact .inr (.inr hpath)
    · rintro (hnamed | hfalse | hpath)
      · rcases mem_cons.mp hnamed with rfl | hwhole
        · exact absurd rfl hdir
        · rw [trim_of_mem_namedReads hnamed]
          exact .inl hwhole
      · cases hfalse
      · exact .inr hpath

theorem context_write_scope_exact : startsWith "$.context.plan[*].id" "$" = true ∧
      (isResolvableWriteScope "$.context.plan[*].id" = true ↔ Readable "$.context.plan[*].id") :=
  ⟨by decide, (write_scope_exact_iff _ (by decide)).mpr ⟨by decide, by decide, by decide⟩⟩

theorem leased_scope_refused :
    ¬ ∀ s : String, startsWith s "$" = true → (isResolvableWriteScope s = true ↔ Readable s) := by
  intro hexact
  have hread : Readable "$.run.leased.browser" := readable_of_leased (by decide)
  have haccepted := (hexact "$.run.leased.browser" (by decide)).mpr hread
  revert haccepted
  decide

end Praxec
