import Praxec.Model

namespace Praxec.Agents

open Json

structure ToolCallRequest where
  id : String
  name : String
  arguments : String

structure TurnResult where
  finalAnswer : Option Value
  text : String
  toolCalls : List ToolCallRequest

/-- What the loop asks of the session and its runner: the output contract, and the real name of a tool
that has a connection. -/
structure LoopEnv where
  awaitEnabled : Bool
  requiresFileWrite : Bool
  conforms : Value → Bool
  salvageResult : String → Option Value
  toolHost : Bool
  toolConn : String → Option String

/-- What one turn is answered: by the model after its retries, by the tools and by the parked-session store. -/
structure TurnInput where
  result : Except ExecutorError TurnResult
  call : ToolCallRequest → Except String String
  park : Except ExecutorError Unit

inductive LoopEnd where
  | answer (output : Value)
  | suspended (turnsUsed : Nat)
  | exhausted
  | noFileWrites

structure LoopState where
  writesSeen : Nat := 0
  writeNudges : Nat := 0

variable (env : LoopEnv)

/-- A conforming answer, which counts as one only where the files it is to have written are written. -/
def accept (s : LoopState) (output : Value) : LoopState ⊕ LoopEnd :=
  if env.requiresFileWrite && s.writesSeen == 0 then
    if s.writeNudges < 2 then .inl { s with writeNudges := s.writeNudges + 1 } else .inr .noFileWrites
  else .inr (.answer output)

def isWrite (input : TurnInput) (c : ToolCallRequest) : Bool :=
  c.name != "spill_read" && (env.toolConn c.name).any (fun real => real == "write_file" || real == "edit_file")
    && (input.call c).isOk

def takeTurn (turn : Nat) (s : LoopState) (input : TurnInput) : Except ExecutorError (LoopState ⊕ LoopEnd) := do
  let result ← input.result
  match result.finalAnswer with
  | some output => return if env.conforms output then accept env s output else .inl s
  | none =>
    if result.toolCalls.isEmpty then
      match env.salvageResult result.text with
      | some output => return accept env s output
      | none => return .inl s
    else if env.awaitEnabled && result.toolCalls.any (·.name == "await_human") then
      input.park
      return .inr (.suspended (turn + 1))
    else if !env.toolHost then
      throw (.permanent "RIG_TOOLS_UNSUPPORTED: model called a tool but no ToolHost is wired")
    else return .inl { s with writesSeen := s.writesSeen + result.toolCalls.countP (isWrite env input) }

/-- The answers that one run of the loop meets, turn by turn and in the sign-off ceremony. -/
structure Segment where
  turns : Nat → TurnInput
  signOff : Option Value

/-- The loop with `left` turns of `maxTurns` to go, and how many it takes. -/
def driveLoop (maxTurns : Nat) (segment : Segment) : Nat → LoopState → Nat × Except ExecutorError LoopEnd
  | 0, s => (0, .ok (match segment.signOff with
      | some output => if env.requiresFileWrite && s.writesSeen == 0 then .noFileWrites else .answer output
      | none => .exhausted))
  | left + 1, s =>
    match takeTurn env (maxTurns - (left + 1)) s (segment.turns (maxTurns - (left + 1))) with
    | .error e => (1, .error e)
    | .ok (.inr e) => (1, .ok e)
    | .ok (.inl s) => ((driveLoop maxTurns segment left s).1 + 1, (driveLoop maxTurns segment left s).2)

/-- The run of a frame that was parked after `turnsUsed` turns; a fresh run has used none. -/
def resume (maxTurns turnsUsed : Nat) (segment : Segment) : Nat × Except ExecutorError LoopEnd :=
  driveLoop env maxTurns segment (maxTurns - min turnsUsed (maxTurns - 1)) {}

def parkedTurns : Except ExecutorError LoopEnd → Option Nat
  | .ok (.suspended turnsUsed) => some turnsUsed
  | _ => none

/-- The turns of a run and of the resumes of the frames that it parks, one for each frame. -/
def totalTurns (maxTurns : Nat) : Nat → List Segment → Nat
  | _, [] => 0
  | turnsUsed, segment :: later =>
    (resume env maxTurns turnsUsed segment).1 + match parkedTurns (resume env maxTurns turnsUsed segment).2 with
      | some used => totalTurns maxTurns used later
      | none => 0

/-- No frame is resumed that was parked on the turn granted to a frame of the final turn. -/
def Sparing (maxTurns : Nat) : Nat → List Segment → Prop
  | _, [] => True
  | turnsUsed, segment :: later => match parkedTurns (resume env maxTurns turnsUsed segment).2 with
      | some used => (turnsUsed = maxTurns → later = []) ∧ Sparing maxTurns used later
      | none => True

variable {env}

theorem accept_ne_suspended {s : LoopState} : accept env s output ≠ .inr (.suspended used) := by
  unfold accept
  split
  · split <;> simp
  · simp

theorem takeTurn_suspended {s : LoopState} (h : takeTurn env turn s input = .ok (.inr (.suspended used))) :
    used = turn + 1 := by
  unfold takeTurn at h
  cases hresult : input.result with
  | error e => simp [hresult, bind, Except.bind] at h
  | ok result =>
    simp only [hresult, bind, Except.bind, pure, Except.pure, throw, throwThe, MonadExceptOf.throw] at h
    split at h
    · split at h
      · exact absurd (Except.ok.inj h) accept_ne_suspended
      · simp at h
    · split at h
      · split at h
        · exact absurd (Except.ok.inj h) accept_ne_suspended
        · simp at h
      · split at h
        · cases hpark : input.park with
          | error e => simp [hpark] at h
          | ok _ =>
            simp only [hpark] at h
            cases h
            rfl
        · split at h <;> simp at h

theorem driveLoop_turns (env : LoopEnv) (maxTurns : Nat) (segment : Segment) (left : Nat) (s : LoopState)
    (hleft : left ≤ maxTurns) : (driveLoop env maxTurns segment left s).1 ≤ left ∧
      (0 < left → 0 < (driveLoop env maxTurns segment left s).1) ∧
      ∀ used, parkedTurns (driveLoop env maxTurns segment left s).2 = some used →
        used + left = maxTurns + (driveLoop env maxTurns segment left s).1 := by
  induction left generalizing s with
  | zero =>
    refine ⟨Nat.le_refl 0, nofun, fun used h => ?_⟩
    rw [driveLoop] at h
    split at h
    · split at h <;> cases h
    · cases h
  | succ left ih =>
    rw [driveLoop]
    split
    · simp [parkedTurns]
    · rename_i e hturn
      refine ⟨by omega, by omega, fun used h => ?_⟩
      cases e with
      | suspended turnsUsed =>
        cases h
        have hused := takeTurn_suspended hturn
        omega
      | _ => cases h
    · rename_i s' _
      obtain ⟨hle, -, hused⟩ := ih s' (by omega)
      refine ⟨by omega, by omega, fun used h => ?_⟩
      have hsum := hused used h
      omega

theorem resume_turns (env : LoopEnv) (n turnsUsed : Nat) (segment : Segment) :
    (resume env (n + 1) turnsUsed segment).1 + min turnsUsed n ≤ n + 1 ∧ 0 < (resume env (n + 1) turnsUsed segment).1 ∧
      ∀ used, parkedTurns (resume env (n + 1) turnsUsed segment).2 = some used →
        used = min turnsUsed n + (resume env (n + 1) turnsUsed segment).1 := by
  rw [resume, Nat.add_sub_cancel]
  obtain ⟨hle, hpos, hused⟩ := driveLoop_turns env (n + 1) segment (n + 1 - min turnsUsed n) {} (by omega)
  refine ⟨by omega, hpos (by omega), fun used hend => ?_⟩
  have hsum := hused used hend
  omega

theorem totalTurns_add_le_iff {env : LoopEnv} {n : Nat} {segments : List Segment} {turnsUsed : Nat}
    (hused : turnsUsed ≤ n + 1) :
    totalTurns env (n + 1) turnsUsed segments + turnsUsed ≤ n + 2 ↔ Sparing env (n + 1) turnsUsed segments := by
  induction segments generalizing turnsUsed with
  | nil => simp [totalTurns, Sparing, Nat.le_succ_of_le hused]
  | cons segment later ih =>
    obtain ⟨hle, hpos, hparked⟩ := resume_turns env n turnsUsed segment
    rw [totalTurns, Sparing]
    cases hend : parkedTurns (resume env (n + 1) turnsUsed segment).2 with
    | none =>
      simp only [iff_true]
      omega
    | some used =>
      have hsum := hparked used hend
      have hlater : totalTurns env (n + 1) used later + used ≤ n + 2 ↔ _ := ih (by omega)
      simp only [← hlater]
      cases later with
      | nil =>
        simp only [totalTurns, implies_true, true_and]
        omega
      | cons next later =>
        have hnext : 0 < totalTurns env (n + 1) used (next :: later) :=
          Nat.add_pos_left (resume_turns env n used next).2.1 _
        simp only [reduceCtorEq, imp_false]
        omega

/-- Suspending buys a session no turn beyond the one that is granted at its end, just if a frame parked on that turn is
not resumed. -/
theorem totalTurns_le_iff (env : LoopEnv) (n : Nat) (segments : List Segment) :
    totalTurns env (n + 1) 0 segments ≤ (n + 1) + 1 ↔ Sparing env (n + 1) 0 segments :=
  totalTurns_add_le_iff (Nat.zero_le _)

def awaiting : Segment where
  turns _ := ⟨.ok ⟨none, "", [⟨"1", "await_human", ""⟩]⟩, fun _ => .error "", .ok ()⟩
  signOff := none

/-- A model that asks for the human on the only turn asks again on each turn that is granted after a reply. -/
theorem suspending_outruns_budget :
    ¬ ∀ env n segments, totalTurns env (n + 1) 0 segments ≤ (n + 1) + 1 := by
  intro h
  have hthree := h ⟨true, false, fun _ => true, fun _ => none, true, fun _ => none⟩ 0 [awaiting, awaiting, awaiting]
  revert hthree
  decide

end Praxec.Agents
