import Mathlib.Data.List.AList
import Praxec.Effect.Transducer
import Praxec.Ports

namespace Praxec

open Json Effect

inductive StoreCall where
  | create (inst : WorkflowInstance)
  | load (workflowId : String)
  | saveIfVersion (inst : WorkflowInstance) (expectedVersion : Nat)
  | findByRunId (runId : String)
  | listWaitingOnLock
  | listWaitingOnSubworkflow
  | listAll

inductive StoreReply where
  | stored (inst : WorkflowInstance)
  | found (id : Option String)
  | listed (insts : List WorkflowInstance)
  | rejected (error : Err)
deriving DecidableEq

structure Order where
  of : List (String × WorkflowInstance) → List (String × WorkflowInstance)
  perm : ∀ entries, (of entries).Perm entries

/-- What the backends take from the platform: letters and digits, what is read back from a serialised instance, and
the orders of maps, rows and directories. -/
structure Platform where
  alphanumeric : Char → Bool
  reparse : WorkflowInstance → Except Err WorkflowInstance
  mapOrder : Order
  rowOrder : Order
  dirOrder : Order

def WorkflowInstance.rootRunId (inst : WorkflowInstance) : Option String :=
  if inst.parent.isNone then inst.runEnv.runId else none

def StoreReply.ofInstance : Except Err WorkflowInstance → StoreReply
  | .ok inst => .stored inst
  | .error e => .rejected e

def StoreReply.ofList : Except Err (List WorkflowInstance) → StoreReply
  | .ok insts => .listed insts
  | .error e => .rejected e

variable (p : Platform)

structure MemoryStore where
  inner : AList fun _ : String => WorkflowInstance
  byRunId : AList fun _ : String => String

namespace MemoryStore

def create (s : MemoryStore) (inst : WorkflowInstance) : Except Err WorkflowInstance × MemoryStore :=
  if (s.inner.lookup inst.id).isSome then (.error s!"workflow id collision: {inst.id}", s)
  else match inst.runEnv.runId, inst.parent with
    | some runId, none =>
        if (s.byRunId.lookup runId).isSome then
          (.error "RUN_ID_ALREADY_RUNNING: run_id already has an in-flight instance", s)
        else (.ok inst, ⟨s.inner.insert inst.id inst, s.byRunId.insert runId inst.id⟩)
    | _, _ => (.ok inst, { s with inner := s.inner.insert inst.id inst })

def load (s : MemoryStore) (workflowId : String) : Except Err WorkflowInstance :=
  match s.inner.lookup workflowId with
  | some inst => .ok inst
  | none => .error s!"workflow {workflowId} not found"

def saveIfVersion (s : MemoryStore) (inst : WorkflowInstance) (expectedVersion : Nat) :
    Except Err WorkflowInstance × MemoryStore :=
  match s.inner.lookup inst.id with
  | none => (.error s!"workflow {inst.id} not found", s)
  | some existing =>
      if existing.version ≠ expectedVersion then
        (.error s!"stale workflow version: stored={existing.version}, expected={expectedVersion}", s)
      else (.ok inst, { s with inner := s.inner.insert inst.id inst })

def values (s : MemoryStore) : List WorkflowInstance :=
  (p.mapOrder.of (s.inner.entries.map fun entry => (entry.1, entry.2))).map Prod.snd

def listWaiting (s : MemoryStore) (marker : String) : List WorkflowInstance :=
  (s.values p).filter fun inst => (inst.context.get marker).isSome

def backend : Transducer StoreCall StoreReply where
  State := MemoryStore
  init := ⟨∅, ∅⟩
  step s
    | .create inst => (s.create inst).map StoreReply.ofInstance id
    | .load workflowId => (.ofInstance (s.load workflowId), s)
    | .saveIfVersion inst expectedVersion => (s.saveIfVersion inst expectedVersion).map StoreReply.ofInstance id
    | .findByRunId runId => (.found (s.byRunId.lookup runId), s)
    | .listWaitingOnLock => (.listed (s.listWaiting p "_lock_wait"), s)
    | .listWaitingOnSubworkflow => (.listed (s.listWaiting p "_subworkflow_wait"), s)
    | .listAll => (.listed (s.values p), s)

end MemoryStore

structure Row where
  version : Nat
  inst : WorkflowInstance

structure SqliteStore where
  rows : AList fun _ : String => Row

namespace SqliteStore

def violatesRunId (s : SqliteStore) (inst : WorkflowInstance) : Bool :=
  inst.rootRunId.isSome && s.rows.entries.any fun row => row.1 ≠ inst.id ∧ row.2.inst.rootRunId = inst.rootRunId

def create (s : SqliteStore) (inst : WorkflowInstance) : Except Err WorkflowInstance × SqliteStore :=
  if (s.rows.lookup inst.id).isSome then (.error s!"workflow id collision: {inst.id}", s)
  else if s.violatesRunId inst then
    (.error "RUN_ID_ALREADY_RUNNING: run_id already has an in-flight instance", s)
  else (.ok inst, ⟨s.rows.insert inst.id ⟨inst.version, inst⟩⟩)

def load (s : SqliteStore) (workflowId : String) : Except Err WorkflowInstance := do
  match s.rows.lookup workflowId with
  | none => .error s!"workflow {workflowId} not found"
  | some row =>
      let inst ← p.reparse row.inst
      if inst.id ≠ workflowId then
        .error s!"CORRUPT_INSTANCE: row id '{workflowId}' does not match embedded instance.id '{inst.id}'"
      else .ok inst

def saveIfVersion (s : SqliteStore) (inst : WorkflowInstance) (expectedVersion : Nat) :
    Except Err WorkflowInstance × SqliteStore :=
  match s.rows.lookup inst.id with
  | none => (.error s!"workflow {inst.id} not found", s)
  | some row =>
      if row.version ≠ expectedVersion then
        (.error s!"stale workflow version (expected {expectedVersion} for {inst.id})", s)
      else if s.violatesRunId inst then (.error "UNIQUE constraint failed: index 'idx_workflows_run_id'", s)
      else (.ok inst, ⟨s.rows.insert inst.id ⟨inst.version, inst⟩⟩)

def select (s : SqliteStore) : List (String × WorkflowInstance) :=
  p.rowOrder.of (s.rows.entries.map fun row => (row.1, row.2.inst))

def findByRunId (s : SqliteStore) (runId : String) : Option String :=
  ((s.select p).find? fun row => row.2.runEnv.runId = some runId).map Prod.fst

def jsonExtract (context : Value) (key : String) : Option Value :=
  (context.get key).filter (· ≠ .null)

def listWaiting (s : SqliteStore) (marker : String) : Except Err (List WorkflowInstance) :=
  ((s.select p).filter fun row => (jsonExtract row.2.context marker).isSome).mapM fun row => p.reparse row.2

def listAll (s : SqliteStore) : Except Err (List WorkflowInstance) :=
  (s.select p).mapM fun row => p.reparse row.2

def backend : Transducer StoreCall StoreReply where
  State := SqliteStore
  init := ⟨∅⟩
  step s
    | .create inst => (s.create inst).map StoreReply.ofInstance id
    | .load workflowId => (.ofInstance (s.load p workflowId), s)
    | .saveIfVersion inst expectedVersion => (s.saveIfVersion inst expectedVersion).map StoreReply.ofInstance id
    | .findByRunId runId => (.found (s.findByRunId p runId), s)
    | .listWaitingOnLock => (.ofList (s.listWaiting p "_lock_wait"), s)
    | .listWaitingOnSubworkflow => (.ofList (s.listWaiting p "_subworkflow_wait"), s)
    | .listAll => (.ofList (s.listAll p), s)

end SqliteStore

/-- The files of the root directory, each by its name without the `.json` that all of them end in. -/
structure FileStore where
  files : AList fun _ : String => WorkflowInstance

namespace FileStore

def pathFor (id : String) : String :=
  .ofList (id.toList.map fun c => if p.alphanumeric c || c == '_' || c == '-' then c else '_')

def readFile (s : FileStore) (id : String) : Except Err (Option WorkflowInstance) :=
  match s.files.lookup (pathFor p id) with
  | none => .ok none
  | some text => match p.reparse text with
    | .ok inst => .ok (some inst)
    | .error _ => .error s!"parsing {pathFor p id}.json"

def writeAtomic (s : FileStore) (inst : WorkflowInstance) : FileStore :=
  ⟨s.files.insert (pathFor p inst.id) inst⟩

def create (s : FileStore) (inst : WorkflowInstance) : Except Err WorkflowInstance × FileStore :=
  match s.readFile p inst.id with
  | .error e => (.error e, s)
  | .ok (some _) => (.error s!"workflow id collision: {inst.id}", s)
  | .ok none => (.ok inst, s.writeAtomic p inst)

def load (s : FileStore) (workflowId : String) : Except Err WorkflowInstance :=
  match s.readFile p workflowId with
  | .error e => .error e
  | .ok (some inst) => .ok inst
  | .ok none => .error s!"workflow {workflowId} not found"

def saveIfVersion (s : FileStore) (inst : WorkflowInstance) (expectedVersion : Nat) :
    Except Err WorkflowInstance × FileStore :=
  match s.readFile p inst.id with
  | .error e => (.error e, s)
  | .ok none => (.error s!"workflow {inst.id} not found", s)
  | .ok (some existing) =>
      if existing.version ≠ expectedVersion then
        (.error s!"stale workflow version: stored={existing.version}, expected={expectedVersion}", s)
      else (.ok inst, s.writeAtomic p inst)

def extension (name : String) : Option String :=
  if name = "" then none else some "json"

def scan (s : FileStore) : List WorkflowInstance :=
  ((p.dirOrder.of (s.files.entries.map fun file => (file.1, file.2))).filter
    fun file => extension file.1 = some "json").filterMap fun file => (p.reparse file.2).toOption

def findByRunId (s : FileStore) (runId : String) : Option String :=
  ((s.scan p).find? fun inst => inst.runEnv.runId = some runId).map WorkflowInstance.id

def listWaiting (s : FileStore) (marker : String) : List WorkflowInstance :=
  (s.scan p).filter fun inst => (inst.context.get marker).isSome

def backend : Transducer StoreCall StoreReply where
  State := FileStore
  init := ⟨∅⟩
  step s
    | .create inst => (s.create p inst).map StoreReply.ofInstance id
    | .load workflowId => (.ofInstance (s.load p workflowId), s)
    | .saveIfVersion inst expectedVersion => (s.saveIfVersion p inst expectedVersion).map StoreReply.ofInstance id
    | .findByRunId runId => (.found (s.findByRunId p runId), s)
    | .listWaitingOnLock => (.listed (s.listWaiting p "_lock_wait"), s)
    | .listWaitingOnSubworkflow => (.listed (s.listWaiting p "_subworkflow_wait"), s)
    | .listAll => (.listed (s.scan p), s)

end FileStore

end Praxec
