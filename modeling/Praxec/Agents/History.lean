import Mathlib.Logic.Function.Basic

namespace Praxec.Agents

open List

inductive AssistantContent where
  | text (text : String)
  | toolCall (name arguments : String)

inductive Message where
  | user (content : String)
  | assistant (content : List AssistantContent)

/-- What serde makes of a message and of a pair of them, and the slot of a payload, which is its hash. -/
structure Serde where
  text : Message → String
  pairText : Message × Message → String
  slotOf : String → String

/-- What one pass over the budget leaves. -/
structure Elided where
  history : List Message
  slots : String → Option String
  ledger : List String

variable (j : Serde)

def historyBytes (history : List Message) : Nat :=
  history.foldr (fun m bytes => (j.text m).utf8ByteSize + bytes) 0

def truncate : Nat → List Char → List Char
  | n, c :: cs => if c.utf8Size ≤ n then c :: truncate (n - c.utf8Size) cs else []
  | _, [] => []

def toolText : AssistantContent → Option String
  | .text _ => none
  | .toolCall name args =>
      let args := if 48 < args.utf8ByteSize then String.ofList (truncate 48 args.toList) ++ "…" else args
      some (name ++ "(" ++ args ++ ")")

def elidedDescriptor (assistant user : Message) : String :=
  let tools := match assistant with
    | .assistant content => content.filterMap toolText
    | .user _ => []
  "tools: " ++ (if tools.isEmpty then "(no tool calls)" else ", ".intercalate tools) ++ " → " ++
    toString (j.text user).utf8ByteSize ++ " B"

def ledgerLine (index : Nat) (p : Message × Message) : String :=
  "elided #" ++ toString index ++ " · " ++ elidedDescriptor j p.1 p.2 ++ " · recall: spill_read slot=" ++
    j.slotOf (j.pairText p)

def put (slots : String → Option String) (payload : String) : String → Option String :=
  fun slot => if slot = j.slotOf payload then some payload else slots slot

/-- The loop of `enforce_history_budget` over what follows the goal. -/
def elide (lowWater : Nat) (goal : Message) : List Message → (String → Option String) → List String → Elided
  | assistant :: user :: rest, slots, ledger =>
      if lowWater < historyBytes j (goal :: assistant :: user :: rest) ∧ 4 + 1 < rest.length + 3 then
        elide lowWater goal rest (put j slots (j.pairText (assistant, user)))
          (ledger ++ [ledgerLine j (ledger.length + 1) (assistant, user)])
      else ⟨goal :: assistant :: user :: rest, slots, ledger⟩
  | rest, slots, ledger => ⟨goal :: rest, slots, ledger⟩

def enforceHistoryBudget (budget : Nat) (history : List Message) (slots : String → Option String)
    (ledger : List String) : Elided :=
  match history with
  | [] => ⟨[], slots, ledger⟩
  | goal :: rest =>
      if historyBytes j history ≤ budget then ⟨history, slots, ledger⟩
      else elide j (min (budget * 2) (UInt64.size - 1) / 3) goal rest slots ledger

def ledgerLines : Nat → List (Message × Message) → List String
  | _, [] => []
  | n, p :: pairs => ledgerLine j (n + 1) p :: ledgerLines (n + 1) pairs

variable {j} {rest kept : List Message} {slots : String → Option String} {pairs : List (Message × Message)}

/-- The oldest pairs go, each into a slot and a line of its own, until the history is small or short enough. -/
theorem elide_spec (j : Serde) (lowWater : Nat) (goal : Message) (rest : List Message)
    (slots : String → Option String) (ledger : List String) :
    let out := elide j lowWater goal rest slots ledger
    ∃ pairs kept, rest = pairs.flatMap (fun p => [p.1, p.2]) ++ kept ∧ out.history = goal :: kept ∧
      out.ledger = ledger ++ ledgerLines j ledger.length pairs ∧
      out.slots = pairs.foldl (fun slots p => put j slots (j.pairText p)) slots ∧
      (historyBytes j out.history ≤ lowWater ∨ out.history.length ≤ 5) := by
  intro out
  fun_induction elide with
  | case1 assistant user rest slots ledger _ ih =>
    obtain ⟨pairs, kept, rfl, hhistory, hledger, hslots, hbound⟩ := ih
    refine ⟨(assistant, user) :: pairs, kept, rfl, hhistory, ?_, hslots, hbound⟩
    rw [hledger, ledgerLines, append_assoc, length_append]
    rfl
  | case2 assistant user rest slots ledger hstop =>
    refine ⟨[], _, rfl, rfl, (append_nil _).symm, rfl, ?_⟩
    change historyBytes j (goal :: assistant :: user :: rest) ≤ lowWater ∨ rest.length + 3 ≤ 5
    omega
  | case3 rest slots ledger hshort =>
    refine ⟨[], rest, rfl, rfl, (append_nil _).symm, rfl, .inr ?_⟩
    change rest.length + 1 ≤ 5
    rcases rest with _ | ⟨a, _ | ⟨u, rest⟩⟩
    · simp
    · simp
    · exact absurd rfl (hshort a u rest)

/-- A payload that is stored already or that is put is found under its slot, where no other payload has that slot. -/
theorem foldl_put (hslot : ∀ p ∈ pairs, j.slotOf (j.pairText p) = j.slotOf text → j.pairText p = text)
    (h : slots (j.slotOf text) = some text ∨ ∃ p ∈ pairs, j.pairText p = text) :
    pairs.foldl (fun slots p => put j slots (j.pairText p)) slots (j.slotOf text) = some text := by
  induction pairs generalizing slots with
  | nil => simpa using h
  | cons p pairs ih =>
    obtain ⟨hp, hslot⟩ := forall_mem_cons.mp hslot
    apply ih hslot
    by_cases htext : j.pairText p = text
    · exact .inl (htext ▸ if_pos rfl)
    · rcases h with h | ⟨q, hq, heq⟩
      · exact .inl ((if_neg fun heq => htext (hp heq.symm)).trans h)
      · rcases mem_cons.mp hq with rfl | hq
        · exact absurd heq htext
        · exact .inr ⟨q, hq, heq⟩

/-- Turns of the assistant, each answered by the user. -/
inductive Alternates : List Message → Prop
  | nil : Alternates []
  | last : Alternates [.assistant content]
  | turn (h : Alternates more) : Alternates (.assistant content :: .user results :: more)

theorem Alternates.turns (h : Alternates (pairs.flatMap (fun p => [p.1, p.2]) ++ kept)) :
    ∀ p ∈ pairs, ∃ content results, p = (.assistant content, .user results) := by
  induction pairs with
  | nil => exact fun _ hp => by cases hp
  | cons p pairs ih =>
    obtain ⟨assistant, user⟩ := p
    cases h with
    | turn h => exact forall_mem_cons.mpr ⟨⟨_, _, rfl⟩, ih h⟩

/-- Eliding keeps the goal and a suffix. Each turn that goes is in the slot that its line of the ledger names, unless
another one hashes to it. Nothing goes within the budget. -/
theorem enforceHistoryBudget_lossless (hrest : Alternates rest) (budget : Nat) (goal : Message)
    (slots : String → Option String) (ledger : List String) :
    let out := enforceHistoryBudget j budget (goal :: rest) slots ledger
    ∃ pairs kept, rest = pairs.flatMap (fun p => [p.1, p.2]) ++ kept ∧ out.history = goal :: kept ∧
      (∀ p ∈ pairs, ∃ content results, p = (.assistant content, .user results)) ∧
      out.ledger = ledger ++ ledgerLines j ledger.length pairs ∧
      (∀ text, (∀ p ∈ pairs, j.slotOf (j.pairText p) = j.slotOf text → j.pairText p = text) →
        slots (j.slotOf text) = some text ∨ (∃ p ∈ pairs, j.pairText p = text) →
        out.slots (j.slotOf text) = some text) ∧
      if historyBytes j (goal :: rest) ≤ budget then pairs = []
      else historyBytes j out.history * 3 ≤ budget * 2 ∨ out.history.length ≤ 5 := by
  intro out
  by_cases hfits : historyBytes j (goal :: rest) ≤ budget
  · have hout : out = ⟨goal :: rest, slots, ledger⟩ := if_pos hfits
    rw [hout]
    refine ⟨[], rest, rfl, rfl, nofun, (append_nil _).symm, fun _ _ htext => by simpa using htext, ?_⟩
    rw [if_pos hfits]
  · have hout : out = elide j (min (budget * 2) (UInt64.size - 1) / 3) goal rest slots ledger := if_neg hfits
    obtain ⟨pairs, kept, rfl, hhistory, hledger, hslots, hbound⟩ :=
      elide_spec j (min (budget * 2) (UInt64.size - 1) / 3) goal rest slots ledger
    rw [hout]
    refine ⟨pairs, kept, rfl, hhistory, hrest.turns, hledger, fun text hslot htext => ?_, ?_⟩
    · rw [hslots]
      exact foldl_put hslot htext
    · rw [if_neg hfits]
      omega

theorem oldest_turns_elided : ∃ kept, (enforceHistoryBudget ⟨fun _ => "message", fun _ => "turn", id⟩ 30 (.user "goal" ::
    [.assistant [], .user "1", .assistant [], .user "2", .assistant [], .user "3"]) (fun _ => none) []).history =
      .user "goal" :: kept := by
  obtain ⟨_, kept, _, hhistory, _⟩ := enforceHistoryBudget_lossless (j := ⟨fun _ => "message", fun _ => "turn", id⟩)
    (.turn (.turn (.turn .nil))) 30 (.user "goal") (fun _ => none) []
  exact ⟨kept, hhistory⟩

end Praxec.Agents
