import Praxec.Runtime.Records

namespace Praxec

open Json Effect

structure LockLease where
  files : List Path
  holder : String
deriving DecidableEq

def lockHolder (workflowId : String) : String :=
  "wf:" ++ workflowId

def filesPayload (files : List Path) : Fields :=
  [("files", .array (files.map Value.string))]

def recordIgnored (event : AuditEvent) : Run Unit := do
  let _ ← Prog.perform (S := Sig) (.auditRecord event)
  return ()

variable (cfg : RuntimeConfig)

/-- Acquire an executor's declared files, if any. `ok none` holds nothing; an error names the files
and the conflict. -/
def acquireOwnedFiles (executorConfig : Value) (inst : WorkflowInstance) :
    Run (Except (List Path × LockConflict) (Option LockLease)) := do
  let files := ownedFilesIn executorConfig
  if files.isEmpty then
    return .ok none
  if !cfg.repoLocks then
    return .ok none
  let holder := lockHolder inst.id
  let acquired : Except LockConflict Unit ← Prog.perform (S := Sig) (.lockAcquire files holder lockTtl)
  match acquired with
  | .error conflict => return .error (files, conflict)
  | .ok _ =>
      recordIgnored (inst.auditEvent "lock.acquired" (filesPayload files))
      return .ok (some ⟨files, holder⟩)

def releaseLease (lease : Option LockLease) (inst : WorkflowInstance) : Run Unit := do
  match lease with
  | none => return ()
  | some lease =>
      if !cfg.repoLocks then
        return ()
      lockRelease lease.files lease.holder
      recordIgnored (inst.auditEvent "lock.released" (filesPayload lease.files))
      Prog.invoke (S := Sig) .resumeReadyLocks

def executeLeased (lease : Option LockLease) (site : ExecSite) (inst : WorkflowInstance)
    (transition : Option String) (arguments primary : Value) (policy : ReliabilityPolicy)
    (correlationId : String) : Run Execution := do
  let outcome ← executeWithReliability cfg.registered site inst transition arguments primary policy correlationId
  releaseLease cfg lease inst
  return outcome

def lockWaitRecord (files : List Path) (conflict : LockConflict) (transition : String) : Value :=
  .object [("files", .array (files.map Value.string)),
    ("blockedBy", .array (conflict.conflicts.map fun c =>
      .object [("file", .string c.1), ("holder", .string c.2)])),
    ("transition", .string transition)]

def parkedInstance (inst : WorkflowInstance) (key : String) (wait : Value) : WorkflowInstance :=
  { inst with context := writeMarker inst.context key wait, version := inst.version + 1 }

/-- Durably park a run that could not acquire its files; the marker is committed before the run is
queued. -/
def parkOnLock (definition : Value) (inst : WorkflowInstance) (transition : String) (expectedVersion : Nat)
    (principal : Principal) (files : List Path) (conflict : LockConflict) : Fallible Response := do
  let next := parkedInstance inst "_lock_wait" (lockWaitRecord files conflict transition)
  let saved ← saveIfVersion (.lockWait inst files transition) next expectedVersion
  onlyIf cfg.lockScheduler
    (liftM (enqueue saved.id transition files principal))
  liftM (recordIgnored (inst.auditEvent "lock.wait.suspended" (filesPayload files)))
  liftM (response definition saved principal cfg .waitingOnLock none)

def suspendOnSubworkflow (definition : Value) (inst : WorkflowInstance) (transition : String)
    (expectedVersion : Nat) (principal : Principal) (childWorkflowId : String) : Fallible Response := do
  let wait : Value := .object [("child_workflow_id", .string childWorkflowId), ("transition", .string transition)]
  let saved ← saveIfVersion (.subworkflowWait inst) (parkedInstance inst "_subworkflow_wait" wait)
    expectedVersion
  liftM (recordIgnored (inst.auditEvent "sub_workflow.wait.suspended"
    [("child_workflow_id", .string childWorkflowId)]))
  liftM (response definition saved principal cfg .waitingOnSubworkflow none)

def suspendOnAgentAwait (definition : Value) (inst : WorkflowInstance) (transition : String)
    (expectedVersion : Nat) (principal : Principal) (correlationId prompt : String) : Fallible Response := do
  let wait : Value := .object [("correlation_id", .string correlationId), ("prompt", .string prompt),
    ("transition", .string transition)]
  let saved ← saveIfVersion (.agentAwait inst) (parkedInstance inst "_agent_await" wait) expectedVersion
  liftM (recordIgnored (inst.auditEvent "agent.await.suspended" [("correlation_id", .string correlationId),
    ("prompt", .string prompt), ("transition", .string transition)]))
  liftM (response definition saved principal cfg .waitingOnAgentAwait none)

def suspendStep (definition : Value) (inst : WorkflowInstance) (transition : String) (expectedVersion : Nat)
    (principal : Principal) : StepSuspend → Fallible Response
  | .subworkflow child =>
      suspendOnSubworkflow cfg definition inst transition expectedVersion principal child
  | .agentAwait correlationId prompt =>
      suspendOnAgentAwait cfg definition inst transition expectedVersion principal correlationId prompt

def consumeDeadSubworkflowWait (inst : WorkflowInstance) (transition : String) : Run WorkflowInstance := do
  match inst.context.get "_subworkflow_wait" with
  | none => return inst
  | some wait =>
      if strField wait "transition" ≠ some transition then
        return inst
      match strField wait "child_workflow_id" with
      | none => return inst
      | some childId =>
          let loaded ← (load childId).run
          match loaded with
          | .error _ => return inst
          | .ok child =>
              if child.cancelledAt.isNone && !isTerminal child.definition child.state then
                return inst
              let next := { inst with
                context := inst.context.remove "_subworkflow_wait", version := inst.version + 1 }
              let saved ← (saveIfVersion (.deadWait inst) next inst.version).run
              match saved with
              | .error _ => return inst
              | .ok saved =>
                  recordOrSelfEvent (saved.auditEvent "sub_workflow.wait.cleared"
                    [("transition", .string transition), ("child_workflow_id", .string childId),
                      ("child_cancelled", .bool child.cancelledAt.isSome)])
                  return saved

def redriveRequest (workflowId transition : String) (version : Nat) (principal : Principal) : SubmitTransition :=
  ⟨workflowId, version, transition, .emptyObject, principal, none, none, none⟩

def redrive (w : Waiter) : Run Unit := do
  let loaded ← (load w.workflowId).run
  match loaded with
  | .error _ => return ()
  | .ok inst =>
      recordIgnored (inst.auditEvent "lock.resumed" [("transition", .string w.transition)])
      let _ ← Prog.invoke (S := Sig) (.submit (redriveRequest w.workflowId w.transition inst.version w.principal))
      return ()

def resumeReadyLocks : Run Unit := do
  if !(cfg.repoLocks && cfg.lockScheduler) then
    return ()
  let held : List HeldLock ← Prog.perform (S := Sig) .lockHeld
  let ready : Option Waiter ← Prog.perform (S := Sig) (.takeReady (held.map HeldLock.file))
  match ready with
  | none => return ()
  | some w =>
      redrive w
      Prog.invoke (S := Sig) .resumeReadyLocks

def resumeParentIfAny (terminal : WorkflowInstance) : Run Unit := do
  match terminal.parent with
  | none => return ()
  | some parent =>
      if parent.transition.isEmpty then
        return ()
      let loaded ← (load parent.workflowId).run
      match loaded with
      | .error _ => return ()
      | .ok parentInst =>
          recordOrSelfEvent (parentInst.auditEvent "sub_workflow.parent.resumed"
            [("child_workflow_id", .string terminal.id), ("transition", .string parent.transition)])
          let _ ← Prog.invoke (S := Sig) (.submit
            (redriveRequest parent.workflowId parent.transition parentInst.version .anonymous))
          return ()

def lockWaitFiles (wait : Value) : List Path :=
  ((wait.get "files").bind Value.asArray).elim [] fun xs => xs.filterMap Value.asStr

def lockWaitTransition (wait : Value) : String :=
  (strField wait "transition").getD ""

def recoverOneLock (inst : WorkflowInstance) : Run Unit := do
  match inst.context.get "_lock_wait" with
  | none => return ()
  | some wait =>
      let files := lockWaitFiles wait
      let transition := lockWaitTransition wait
      if transition.isEmpty || files.isEmpty then
        recordOrSelfEvent (inst.auditEvent "lock.recover.corrupt" ([("transition", .string transition)] ++
          filesPayload files ++ [("reason", .string "empty transition or files in _lock_wait record")]))
      else
        enqueue inst.id transition files .anonymous

def recoverLocks : List WorkflowInstance → Run Unit
  | [] => return ()
  | inst :: rest => do
    recoverOneLock inst
    recoverLocks rest

def recoverSuspendedLocks : Run Unit := do
  if !cfg.lockScheduler then
    return ()
  let listed : Except Err (List WorkflowInstance) ← Prog.perform (S := Sig) .storeListWaitingOnLock
  recoverLocks (match listed with
    | .ok suspended => suspended
    | .error _ => [])

def recoverOneSubworkflow (inst : WorkflowInstance) : Run Unit := do
  match inst.context.get "_subworkflow_wait" with
  | none => return ()
  | some wait =>
      let transition := (strField wait "transition").getD ""
      let child := (strField wait "child_workflow_id").getD ""
      if transition.isEmpty then
        recordOrSelfEvent (inst.auditEvent "sub_workflow.recover.corrupt" [("child_workflow_id", .string child),
          ("reason", "missing or empty transition in _subworkflow_wait record")])
      else
        recordOrSelfEvent (inst.auditEvent "sub_workflow.parent.resumed"
          [("child_workflow_id", .string child), ("transition", .string transition)])
        let _ ← Prog.invoke (S := Sig) (.submit (redriveRequest inst.id transition inst.version .anonymous))
        return ()

def recoverSubworkflows : List WorkflowInstance → Run Unit
  | [] => return ()
  | inst :: rest => do
    recoverOneSubworkflow inst
    recoverSubworkflows rest

def recoverSuspendedSubworkflows : Run Unit := do
  let listed : Except Err (List WorkflowInstance) ← Prog.perform (S := Sig) .storeListWaitingOnSubworkflow
  recoverSubworkflows (match listed with
    | .ok suspended => suspended
    | .error _ => [])

end Praxec
