import Praxec.Runtime.Locks

namespace Praxec

open Json Effect

variable (cfg : RuntimeConfig)

def declaredExclusivePools (definition : Value) : List String :=
  ((definition.get "exclusive_pools").bind Value.asArray).elim [] fun xs => xs.filterMap Value.asStr

def runLeaseHolder (env : RunEnv) : Option String :=
  env.runRef.map fun r => "run:" ++ r

def RuntimeConfig.poolMembers (pool : String) : List Path :=
  (cfg.exclusivePools.lookup pool).getD []

def releaseMembers (members : List Path) (holder : String) : Run Unit := do
  onlyIf (members ≠ []) (lockRelease members holder)

/-- Lease one member of every declared pool that the run does not hold yet; a failure gives back what
this call has taken. -/
def acquirePools (holder : String) : List String → RunEnv → List Path → Fallible RunEnv
  | [], env, _ => return env
  | pool :: rest, env, acquired =>
      if (env.leased.lookup pool).isSome then
        acquirePools holder rest env acquired
      else do
        let members := cfg.poolMembers pool
        onlyIf (members = []) do
          liftM (releaseMembers acquired holder)
          throw s!"POOL_UNDECLARED: definition needs exclusive pool '{pool}' but no connection declares it"
        let result : Except LockConflict Path ←
          liftM (Prog.perform (S := Sig) (.lockAcquireAny members holder poolLeaseTtl) : Run _)
        match result with
        | .ok member =>
            liftM (recordIgnored ⟨"lock.acquired", some (env.runRef.getD ""), none, none, .object
              [("kind", "exclusive_pool"), ("pool", .string pool), ("member", .string member)]⟩)
            acquirePools holder rest { env with leased := env.leased ++ [(pool, member)] } (acquired ++ [member])
        | .error _ =>
            liftM (releaseMembers acquired holder)
            throw s!"POOL_EXHAUSTED: every member of exclusive pool '{pool}' is busy"

def acquireRunLeases (definition : Value) (env : RunEnv) (isRoot : Bool) : Fallible RunEnv := do
  if !isRoot then
    return env
  let pools := declaredExclusivePools definition
  if pools.isEmpty then
    return env
  match cfg.repoLocks, runLeaseHolder env with
  | true, some holder => acquirePools cfg holder pools env []
  | _, _ => throw "POOL_LEASE_UNAVAILABLE: definition declares exclusive_pools but no lock space is wired"

def releaseRunLeases (inst : WorkflowInstance) : Run Unit := do
  if inst.parent.isSome || inst.runEnv.leased.isEmpty then
    return ()
  match cfg.repoLocks, runLeaseHolder inst.runEnv with
  | true, some holder =>
      let members := inst.runEnv.leased.map Prod.snd
      releaseMembers members holder
      recordIgnored (inst.auditEvent "lock.released" [("kind", "exclusive_pool"),
        ("members", .array (members.map Value.string))])
      Prog.invoke (S := Sig) .resumeReadyLocks
  | _, _ => return ()

def refreshRunLeases (inst : WorkflowInstance) : Run Unit := do
  if inst.runEnv.leased.isEmpty then
    return ()
  match cfg.repoLocks, runLeaseHolder inst.runEnv with
  | true, some holder =>
      Prog.perform (S := Sig) (.lockHeartbeat (inst.runEnv.leased.map Prod.snd) holder)
  | _, _ => return ()

def cancel (workflowId reason : String) : Fallible Unit := do
  let inst ← load workflowId
  if inst.cancelledAt.isSome then
    return ()
  let time ← liftM now
  let updated := { inst with
    cancelledAt := some time, cancelledReason := some reason, version := inst.version + 1 }
  let saved ← saveIfVersion (.cancel inst) updated inst.version
  liftM (recordOrSelfEvent (saved.auditEvent "workflow.cancelled" [("reason", .string reason),
    ("state_at_cancel", .string saved.state), ("version_at_cancel", .nat saved.version)]))
  liftM (releaseRunLeases cfg saved)
  liftM (resumeParentIfAny saved)

def cancelIgnored (workflowId reason : String) : Run Unit := do
  let _ ← (cancel cfg workflowId reason).run
  return ()

def missionDeadlineSecsFor (definition : Value) : Nat :=
  (u64Field definition "missionDeadlineSecs").getD cfg.missionDeadlineSecs

def livelockBudgetOf (definition : Value) : Nat :=
  (u64Field definition "livelockHopBudget").getD defaultLivelockHopBudget

def awaitingHuman (definition : Value) (state : String) : Bool :=
  ((stateDefinition definition state).bind fun s => strField s "actor") = some "human"

def engineWait (context : Value) : Bool :=
  context.hasKey "_lock_wait" || context.hasKey "_subworkflow_wait" || context.hasKey "_agent_await"

def reapReason (inst : WorkflowInstance) : Option String :=
  let deadlineSecs := missionDeadlineSecsFor cfg inst.definition
  if inst.cancelledAt.isSome then none
  else if isTerminal inst.definition inst.state then none
  else if livelockBudgetOf inst.definition ≤ (u64Field inst.context chainHopsTotalKey).getD 0 then
    some "livelock_quarantine: exceeded cumulative chain-hop budget without terminating (reaped at startup)"
  else if 0 < deadlineSecs ∧
      saturate (deadlineSecs * 1000) ≤ (u64Field inst.context chainWallMsTotalKey).getD 0 then
    some "mission_deadline_exceeded: exceeded cumulative active-drive wall-clock budget without terminating (reaped at startup)"
  else if awaitingHuman inst.definition inst.state || engineWait inst.context then none
  else some "orphaned run reaped at startup (no live driver)"

def reapRuns : List WorkflowInstance → Nat → Fallible Nat
  | [], reaped => return reaped
  | inst :: rest, reaped =>
      match reapReason cfg inst with
      | none => reapRuns rest reaped
      | some reason => do
          cancel cfg inst.id reason
          reapRuns rest (reaped + 1)

def reapOrphanedRuns : Fallible Nat := do
  let all ← (ExceptT.mk (Prog.perform (S := Sig) .storeListAll) : Fallible (List WorkflowInstance))
  reapRuns cfg all 0

end Praxec
