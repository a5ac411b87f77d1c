import Praxec.Runtime.Basic

namespace Praxec

open Json

structure AgentAwaitMarker where
  correlationId : String
  prompt : String
  transition : String
deriving DecidableEq

def AgentAwaitMarker.fromContext (context : Value) : Option AgentAwaitMarker :=
  match context.get "_agent_await" with
  | some (.object fields) =>
      match strField (.object fields) "correlation_id", strField (.object fields) "prompt",
        strField (.object fields) "transition" with
      | some c, some p, some t => some ⟨c, p, t⟩
      | _, _, _ => none
  | some (.array [.string c, .string p, .string t]) => some ⟨c, p, t⟩
  | _ => none

inductive HitlSource where
  | humanGate | agentAwait
deriving DecidableEq

structure PendingHumanGate where
  workflowId : String
  definitionId : String
  state : String
  expectedVersion : Nat
  transition : String
  inputSchema : Option Value
  source : HitlSource
  since : Nat
deriving DecidableEq

def isHumanGate (transition : Value) : Bool :=
  strField transition "actor" = some "human" && strField transition "purpose" ≠ some "ask"

def humanTransition (definition : Value) (state : String) : Option (String × Value) :=
  ((definition.walk ["states", state, "transitions"]).bind Value.asObject).bind fun transitions =>
    transitions.find? fun entry => isHumanGate entry.2

def transitionInputSchema (definition : Value) (state transition : String) : Option Value :=
  definition.walk ["states", state, "transitions", transition, "inputSchema"]

def pendingGate (inst : WorkflowInstance) : Option PendingHumanGate :=
  match AgentAwaitMarker.fromContext inst.context with
  | some marker => some ⟨inst.id, inst.definitionId, inst.state, inst.version, marker.transition,
      transitionInputSchema inst.definition inst.state marker.transition, .agentAwait, inst.startedAt⟩
  | none =>
      if isTerminal inst.definition inst.state then none
      else (humanTransition inst.definition inst.state).map fun entry =>
        ⟨inst.id, inst.definitionId, inst.state, inst.version, entry.1, entry.2.get "inputSchema", .humanGate,
          inst.startedAt⟩

theorem hasKey_of_fromContext
    (h : AgentAwaitMarker.fromContext context = some marker) : context.hasKey "_agent_await" := by
  unfold AgentAwaitMarker.fromContext at h
  cases hget : context.get "_agent_await" with
  | none =>
    rw [hget] at h
    cases h
  | some wait =>
    rw [Value.hasKey, hget]
    rfl

theorem pendingGate_source (h : pendingGate inst = some gate) :
    gate.source = .agentAwait ∧ inst.context.hasKey "_agent_await" ∨
    gate.source = .humanGate ∧ isTerminal inst.definition inst.state = false ∧
    (humanTransition inst.definition inst.state).isSome := by
  unfold pendingGate at h
  split at h
  · rename_i hmarker
    cases h
    exact .inl ⟨rfl, hasKey_of_fromContext hmarker⟩
  · split at h
    · cases h
    · rename_i hopen
      obtain ⟨entry, hentry, rfl⟩ := Option.map_eq_some_iff.mp h
      exact .inr ⟨rfl, by simpa using hopen, by rw [hentry]; rfl⟩

end Praxec
