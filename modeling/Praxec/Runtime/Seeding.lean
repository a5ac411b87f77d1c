import Praxec.Runtime.Lineage

namespace Praxec

open Json Effect List Option Fields Gateway

variable {cfg : RuntimeConfig}

def EngineSlot (key : String) : Prop :=
  key ∈ ["_subworkflow_wait", "_lock_wait", "_agent_await", chainHopsTotalKey, chainWallMsTotalKey] ∨
    "_while_iter.".toList <+: key.toList ∨ "_fire_count.".toList <+: key.toList

instance (key : String) : Decidable (EngineSlot key) :=
  inferInstanceAs (Decidable (_ ∨ _ ∨ _))

def declaredContext (definition : Value) : Value :=
  (definition.get "initialContext").getD .emptyObject

theorem EngineSlot.underscore (h : EngineSlot key) : ['_'] <+: key.toList := by
  rcases h with hfixed | hwhile | hfire
  · simp only [mem_cons, not_mem_nil, or_false] at hfixed
    rcases hfixed with rfl | rfl | rfl | rfl | rfl <;> decide
  · exact List.IsPrefix.trans (by decide) hwhile
  · exact List.IsPrefix.trans (by decide) hfire

theorem get_seed {fields ctx : Fields} {key : String} : Fields.get (fields.foldl (fun acc entry =>
      if Fields.contains acc entry.1 then acc else Fields.insert acc entry.1 entry.2) ctx) key =
      (ctx.get key).or (fields.get key) := by
  induction fields generalizing ctx with
  | nil => simp
  | cons entry rest ih =>
    obtain ⟨name, value⟩ := entry
    rw [foldl_cons, ih, get_cons]
    by_cases hcontained : ctx.contains name
    · rw [if_pos hcontained]
      by_cases hkey : key = name
      · obtain ⟨found, hfound⟩ := isSome_iff_exists.mp hcontained
        rw [hkey, hfound]
        rfl
      · rw [if_neg hkey]
    · rw [if_neg hcontained, get_insert]
      by_cases hkey : key = name
      · have hnone : ctx.get name = none := not_isSome_iff_eq_none.mp hcontained
        rw [if_pos hkey, if_pos hkey, hkey, hnone]
        rfl
      · rw [if_neg hkey, if_neg hkey]

theorem get_initialContext (hobject : (declaredContext definition).isObject)
     : (initialContext definition input).get key =
    ((declaredContext definition).get key).or (input.get key) := by
  obtain ⟨ctx, hctx⟩ := (Value.isObject_iff _).mp hobject
  unfold initialContext
  rw [show (definition.get "initialContext").getD .emptyObject = .object ctx from hctx, hctx]
  cases input with
  | object fields => exact get_seed
  | _ => exact (or_none).symm

theorem initialContext_of_not_object (hobject : ¬ (declaredContext definition).isObject)
     : initialContext definition input = declaredContext definition := by
  unfold initialContext declaredContext at *
  generalize (definition.get "initialContext").getD .emptyObject = declared at *
  cases declared with
  | object ctx => exact absurd rfl hobject
  | _ => rfl

variable {inst : WorkflowInstance}

/-- Every instance in the journal was created as `start` creates it. -/
theorem Chained.fresh (hj : Chained cfg Φ journal) (hinst : .created inst ∈ journal) : inst.Fresh cfg := by
  induction hj with
  | nil => cases hinst
  | created _ _ hfresh ih =>
    rcases mem_append.mp hinst with hold | hnew
    · exact ih hold
    · cases mem_singleton.mp hnew
      exact hfresh
  | saved _ _ _ _ _ ih =>
    rcases mem_append.mp hinst with hold | hnew
    · exact ih hold
    · cases mem_singleton.mp hnew

theorem Gateway.Reachable.fresh (hm : Reachable cfg definitions m)
    (hinst : .created inst ∈ m.world.journal) : inst.Fresh cfg := by
  have hlineage := lineage_of_reaches hm
  exact hlineage.chained.fresh hinst

def forgedScript : List GatewayAction :=
  launch 0 "d" "1" ++ .spawn (.start { startOf "d" with input := .object [("_fire_count.a.go", .nat 7)] }) ::
    answers 1 1 ++ [.answer 1 (.fresh "2")] ++ answers 1 1 ++ [.answer 1 (.fresh "2")] ++ answers 1 2

def createdBy (journal : List StoreWrite) : List WorkflowInstance :=
  journal.filterMap fun
    | .created inst => some inst
    | .saved .. => none

def plainDefinition : Value :=
  definitionOf "a" [("a", stateOf [("go", transitionOf "b" "caller" [])]), ("b", terminalState)]

theorem mem_createdBy : inst ∈ createdBy journal ↔ .created inst ∈ journal := by
  unfold createdBy
  rw [mem_filterMap]
  constructor
  · rintro ⟨write, hw, heq⟩
    cases write with
    | created created => cases heq; exact hw
    | saved _ _ => cases heq
  · exact fun hw => ⟨_, hw, rfl⟩

end Praxec
