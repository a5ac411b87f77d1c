import Praxec.Effect.Verified
import Praxec.Runtime.Entry

namespace Praxec

open Json Effect

inductive StoreWrite where
  | created (inst : WorkflowInstance)
  | saved (kind : SaveKind) (inst : WorkflowInstance)
deriving DecidableEq

def StoreWrite.inst : StoreWrite → WorkflowInstance
  | .created inst | .saved _ inst => inst

/-- Everything the ports of one gateway process share. The journal, oldest write first, is a history of
the store that no port reads. -/
structure World where
  instances : List (String × WorkflowInstance)
  definitions : Fields
  audit : List AuditEvent
  records : List TransitionRecord
  evidence : List (String × Evidence)
  locks : RepoLockSpace
  scheduler : LockScheduler
  now : Nat
  journal : List StoreWrite

/-- What the ports do not determine: a failing back end, a guard's verdict, an executor's result, a
fresh identifier, a cancelled call, the passage of time. -/
inductive Input where
  | auto
  | fail (e : Err)
  | verdict (r : Except GuardError (Bool × Option String))
  | executed (r : Execution)
  | fresh (id : String)
  | aborted
  | tick (ms : Nat)

namespace World

def find (w : World) (id : String) : Option WorkflowInstance :=
  w.instances.lookup id

def put (w : World) (write : StoreWrite) : World :=
  { w with
    instances := (write.inst.id, write.inst) :: w.instances.filter fun entry => entry.1 ≠ write.inst.id
    journal := w.journal ++ [write] }

def loadInstance (w : World) (id : String) : Except Err WorkflowInstance :=
  match w.find id with
  | some inst => .ok inst
  | none => .error s!"workflow {id} not found"

def saveIfVersion (w : World) (kind : SaveKind) (inst : WorkflowInstance) (expectedVersion : Nat) :
    Except Err WorkflowInstance × World :=
  match w.find inst.id with
  | none => (.error s!"workflow {inst.id} not found", w)
  | some stored =>
      if stored.version ≠ expectedVersion then
        (.error s!"stale workflow version: stored={stored.version}, expected={expectedVersion}", w)
      else (.ok inst, w.put (.saved kind inst))

def findByRunId (w : World) (runId : String) : Option String :=
  (w.instances.find? fun entry => entry.2.runEnv.runId = some runId ∧ entry.2.parent.isNone).map Prod.fst

def create (w : World) (inst : WorkflowInstance) : Except Err WorkflowInstance × World :=
  if (w.find inst.id).isSome then (.error s!"workflow id collision: {inst.id}", w)
  else if inst.parent.isNone && (inst.runEnv.runId.bind w.findByRunId).isSome then
    (.error "RUN_ID_ALREADY_RUNNING: run_id already has an in-flight instance", w)
  else (.ok inst, w.put (.created inst))

def waitingOn (w : World) (key : String) : List WorkflowInstance :=
  (w.instances.map Prod.snd).filter fun inst => inst.context.hasKey key

def handle (w : World) : (o : Op) → Input → Option (o.Res × World)
  | .storeLoad id, .auto => some (w.loadInstance id, w)
  | .storeSave kind inst expected, .auto => some (w.saveIfVersion kind inst expected)
  | .storeCreate inst, .auto => some (w.create inst)
  | .storeListWaitingOnLock, .auto => some (.ok (w.waitingOn "_lock_wait"), w)
  | .storeListWaitingOnSubworkflow, .auto => some (.ok (w.waitingOn "_subworkflow_wait"), w)
  | .storeListAll, .auto => some (.ok (w.instances.map Prod.snd), w)
  | .storeFindByRunId runId, .auto => some (.ok (w.findByRunId runId), w)
  | .definitionGet id, .auto => some ((match w.definitions.lookup id with
      | some d => .ok d
      | none => .error s!"unknown workflow definition: {id}"), w)
  | .auditRecord event, .auto => some (.ok (), { w with audit := w.audit ++ [event] })
  | .auditTransition _ record, .auto => some (.ok (), { w with records := w.records ++ [record] })
  | .auditListEvents, .auto => some (.ok (some w.audit), w)
  | .evidenceRecord id ev, .auto => some (.ok (), { w with evidence := w.evidence ++ [(id, ev)] })
  | .storeLoad _, .fail e | .storeSave .., .fail e | .storeCreate _, .fail e => some (.error e, w)
  | .storeListWaitingOnLock, .fail e | .storeListWaitingOnSubworkflow, .fail e | .storeListAll, .fail e =>
      some (.error e, w)
  | .storeFindByRunId _, .fail e => some (.error e, w)
  | .definitionGet _, .fail e => some (.error e, w)
  | .auditRecord _, .fail e | .auditTransition .., .fail e | .evidenceRecord .., .fail e => some (.error e, w)
  | .auditListEvents, .fail e => some (.error e, w)
  | .guardEvaluate .., .verdict r => some (r, w)
  | .executeBegin .., .auto => some ((), w)
  | .executeEnd .., .executed r => some (r, w)
  | .lockAcquire files holder ttl, .auto =>
      let (r, locks) := w.locks.acquire files holder w.now ttl
      some (r, { w with locks := locks })
  | .lockAcquireAny candidates holder ttl, .auto =>
      let (r, locks) := w.locks.acquireAny holder w.now ttl candidates
      some (r, { w with locks := locks })
  | .lockRelease files holder, .auto => some ((), { w with locks := w.locks.release files holder })
  | .lockHeartbeat files holder, .auto => some ((), { w with locks := w.locks.heartbeat files holder w.now })
  | .lockHeld, .auto => some ((w.locks.held w.now).1, { w with locks := (w.locks.held w.now).2 })
  | .enqueue id transition files principal, .auto =>
      some ((), { w with scheduler := w.scheduler.enqueue id transition files principal })
  | .takeReady held, .auto =>
      let (r, scheduler) := w.scheduler.takeReady held
      some (r, { w with scheduler := scheduler })
  | .now, .auto => some (w.now, w)
  | .freshId, .fresh id => some (id, w)
  | .cancelRequested, .auto => some (false, w)
  | .cancelRequested, .aborted => some (true, w)
  | _, _ => none

def outside (w : World) : Input → Option World
  | .tick ms => some { w with now := w.now + ms }
  | _ => none

def restart (w : World) : World :=
  { w with locks := [], scheduler := .new }

section

variable {w : World}

theorem saveIfVersion_cases (w : World) (kind : SaveKind) (inst : WorkflowInstance) (v : Nat) :
    (∃ e, w.saveIfVersion kind inst v = (.error e, w)) ∨
    ∃ stored, w.find inst.id = some stored ∧ stored.version = v ∧
      w.saveIfVersion kind inst v = (.ok inst, w.put (.saved kind inst)) := by
  unfold saveIfVersion
  split
  · exact .inl ⟨_, rfl⟩
  · split
    · exact .inl ⟨_, rfl⟩
    · rename_i stored hfind hversion
      exact .inr ⟨stored, hfind, not_not.mp hversion, rfl⟩

theorem create_cases (w : World) (inst : WorkflowInstance) : (∃ e, w.create inst = (.error e, w)) ∨
    w.find inst.id = none ∧ w.create inst = (.ok inst, w.put (.created inst)) := by
  unfold create
  split
  · exact .inl ⟨_, rfl⟩
  · rename_i hfind
    split
    · exact .inl ⟨_, rfl⟩
    · exact .inr ⟨by simpa using hfind, rfl⟩

/-- What an operation can do to the parts of the world that no store operation writes. -/
structure Logs (w : World) (o : Op) (r : o.Res) (w' : World) : Prop where
  definitions : w'.definitions = w.definitions := by rfl
  records : w'.records = w.records ∨ ∃ f record,
    Event.op (S := Sig) o r = .op (.auditTransition f record) (.ok ()) ∧ w'.records = w.records ++ [record] := by exact .inl rfl
  evidence : w'.evidence = w.evidence ∨ ∃ id ev, o = .evidenceRecord id ev ∧
    w'.evidence = w.evidence ++ [(id, ev)] := by exact .inl rfl

theorem handle_logs (h : w.handle o input = some (r, w')) : Logs w o r w' := by
  cases o with
  | evidenceRecord id ev =>
    cases input with
    | auto => cases h; exact { evidence := .inr ⟨id, ev, rfl, rfl⟩ }
    | fail e => cases h; exact {}
    | _ => cases h
  | auditTransition f record =>
    cases input with
    | auto => cases h; exact { records := .inr ⟨f, record, rfl, rfl⟩ }
    | fail e => cases h; exact {}
    | _ => cases h
  | storeSave kind inst v =>
    cases input with
    | auto =>
      have hsave : w.saveIfVersion kind inst v = (r, w') := Option.some.inj h
      obtain ⟨e, he⟩ | ⟨_, _, _, he⟩ := w.saveIfVersion_cases kind inst v <;>
      · cases hsave.symm.trans he
        exact {}
    | fail e => cases h; exact {}
    | _ => cases h
  | storeCreate inst =>
    cases input with
    | auto =>
      have hcreate : w.create inst = (r, w') := Option.some.inj h
      obtain ⟨e, he⟩ | ⟨_, he⟩ := w.create_cases inst <;>
      · cases hcreate.symm.trans he
        exact {}
    | fail e => cases h; exact {}
    | _ => cases h
  | _ => cases input <;> cases h <;> exact {}

theorem outside_eq (h : w.outside input = some w') : ∃ ms, w' = { w with now := w.now + ms } := by
  cases input with
  | tick ms => cases h; exact ⟨ms, rfl⟩
  | _ => cases h

end

end World

def Proc.isEntry : Proc → Bool
  | .runDeterministicChain _ => false
  | _ => true

abbrev gateway : Host Sig :=
  ⟨World, Input, Proc.isEntry, World.handle, World.outside, World.restart⟩

abbrev Gateway := Machine gateway

abbrev GatewayAction := Action gateway

def Gateway.boot (definitions : Fields) : Gateway :=
  ⟨⟨[], definitions, [], [], [], [], .new, 0, []⟩, []⟩

abbrev Gateway.Reachable (cfg : RuntimeConfig) (definitions : Fields) (m : Gateway) : Prop :=
  Machine.Reaches (body cfg) (fun _ _ _ => True) (Gateway.boot definitions) m

/-- States of the gateway that steps satisfying `ok` lead to. -/
abbrev Gateway.ReachableWith (cfg : RuntimeConfig) (ok : Gateway → GatewayAction → Gateway → Prop)
    (definitions : Fields) (m : Gateway) : Prop :=
  Machine.Reaches (body cfg) ok (Gateway.boot definitions) m

section

variable (cfg : RuntimeConfig) (definitions : Fields) (script : List GatewayAction)

theorem Gateway.reachableWith_of_script (P : Gateway → Prop) [DecidablePred P]
    (check : Gateway → GatewayAction → Bool) (hcheck : ∀ m a m', check m a → ok m a m')
    (h : ((Gateway.boot definitions).runs (body cfg) check script).any (fun m => P m) := by decide +kernel) :
    ∃ m, Gateway.ReachableWith cfg ok definitions m ∧ P m := by
  obtain ⟨m, hm, h⟩ := Machine.reaches_of_script (fun {m a m'} hc _ => hcheck m a m' hc) h
  exact ⟨m, hm, of_decide_eq_true h⟩

theorem Gateway.reachable_of_script (P : Gateway → Prop) [DecidablePred P]
    (h : ((Gateway.boot definitions).runs (body cfg) (fun _ _ => true) script).any (fun m => P m) := by
      decide +kernel) :
    ∃ m, Gateway.Reachable cfg definitions m ∧ P m :=
  Gateway.reachableWith_of_script cfg definitions script P _ (fun _ _ _ _ => trivial) h

theorem Gateway.reaches_of_scripts {ok : Gateway → GatewayAction → Gateway → Prop} {script' : List GatewayAction}
    {Q : Gateway → Gateway → Bool} (check : Gateway → GatewayAction → Bool)
    (hcheck : ∀ m a m', check m a → ok m a m')
    (h : ((Gateway.boot definitions).runs (body cfg) (fun _ _ => true) script).any
      (fun m => (m.runs (body cfg) check script').any (Q m))) :
    ∃ m m', Gateway.Reachable cfg definitions m ∧ Machine.Reaches (body cfg) ok m m' ∧ Q m m' := by
  refine Machine.reaches_of_scripts (fun _ _ => trivial) ?_ h
  exact fun hc _ => hcheck _ _ _ hc

end

theorem executed_of_appends {m : Gateway} {a : GatewayAction} {p : Proc} {hist : History}
    {site : ExecSite} {request : ExecuteRequest} {r : Execution}
    (h : m.Appends a p hist (.op (.executeEnd site request) r)) : ∃ i, a = .answer i (.executed r) := by
  cases h with
  | answer ht hr =>
    rename_i i input _ _ _
    cases input with
    | executed r' => cases hr; exact ⟨i, rfl⟩
    | _ => cases hr
  | leave ht hl => cases hl

def Libraries.plain : Libraries where
  compileSchema _ := .ok fun _ => []
  asF64 _ := 0
  addF64 _ _ := 0
  subF64 _ _ := 0
  mulF64 _ _ := 0
  divF64 _ _ := 0
  isZeroF64 _ := true
  jsonNumber _ := .null
  toText _ := ""
  debugText _ := ""
  formatF32 _ := ""
  glob _ := .ok ()
  globSet patterns := .ok fun path => path ∈ patterns

def Checks.plain : Checks where
  amplifierValidate _ := .ok ()
  humanAcceptanceEvent _ _ _ _ _ _ := .error "MODEL_ACCEPTANCE_INVALID"
  choiceMismatch _ _ _ := none
  agentConfig _ _ _ := .ok (.object [("kind", "agent")])

def RuntimeConfig.plain : RuntimeConfig where
  lib := .plain
  checks := .plain
  repoLocks := true
  lockScheduler := true
  evidence := true
  draining := false
  inTokioRuntime := true
  maxChainedLlmTurns := 8
  missionDeadlineSecs := 0
  autoDriveAgents := true
  exclusivePools := []
  registered _ := true
  pendingSubjects := none

def missingProperties (schema value : Value) : List String :=
  ((((schema.get "required").bind Value.asArray).getD []).filterMap Value.asStr).filter fun key =>
    (value.get key).isNone

def Libraries.requiring : Libraries :=
  { Libraries.plain with compileSchema := fun schema => .ok (missingProperties schema) }

def RuntimeConfig.requiring : RuntimeConfig :=
  { RuntimeConfig.plain with lib := .requiring }

def startOf (definitionId : String) : StartWorkflow :=
  ⟨definitionId, .emptyObject, .anonymous, ⟨"/", none, none, none, []⟩, 0, none⟩

def definitionOf (initial : String) (states : Fields) : Value :=
  .object [("version", "1"), ("initialState", .string initial), ("states", .object states)]

def stateOf (transitions : Fields) : Value :=
  .object [("transitions", .object transitions)]

def terminalState : Value :=
  .object [("terminal", .bool true)]

def transitionOf (target actor : String) (fields : Fields) : Value :=
  .object ([("target", .string target), ("actor", .string actor)] ++ fields)

def goSubmit (id : String) (version : Nat) : SubmitTransition :=
  ⟨id, version, "go", .emptyObject, .anonymous, none, none, none⟩

def answers (i n : Nat) : List GatewayAction :=
  List.replicate n (.answer i .auto)

def executed (i : Nat) (r : ExecuteResult) : GatewayAction :=
  .answer i (.executed (.ok r))

def launch (i : Nat) (definitionId id : String) : List GatewayAction :=
  .spawn (.start (startOf definitionId)) :: answers i 1 ++ [.answer i (.fresh id)] ++ answers i 1 ++
    [.answer i (.fresh id)] ++ answers i 2 ++ [.enter i]

def hopScript : List GatewayAction :=
  launch 0 "d" "1" ++ answers 0 7

end Praxec
