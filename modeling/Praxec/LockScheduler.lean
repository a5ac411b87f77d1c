import Praxec.RepoLocks

namespace Praxec

structure Principal where
  subject : String
  roles : List String
  permissions : List String
deriving DecidableEq

namespace Principal

def anonymous : Principal :=
  ⟨"anonymous", [], []⟩

def isHuman (p : Principal) : Bool :=
  p.roles.any fun r => r = "human"

end Principal

inductive AcquireMode where
  | all
  | any
deriving DecidableEq

structure Waiter where
  seq : Nat
  workflowId : String
  transition : String
  files : List Path
  principal : Principal
  mode : AcquireMode
deriving DecidableEq

namespace Waiter

def ready (w : Waiter) (held : List Path) : Bool :=
  match w.mode with
  | .all => w.files.all fun f => f ∉ held
  | .any => w.files.any fun f => f ∉ held

end Waiter

structure LockScheduler where
  queue : List Waiter
  seq : Nat
deriving DecidableEq

namespace LockScheduler

def new : LockScheduler :=
  ⟨[], 0⟩

def enqueueWithMode (s : LockScheduler) (workflowId transition : String) (files : List Path)
    (principal : Principal) (mode : AcquireMode) : LockScheduler :=
  ⟨(s.queue.filter fun w => w.workflowId ≠ workflowId) ++
    [⟨s.seq, workflowId, transition, files, principal, mode⟩], s.seq + 1⟩

def enqueue (s : LockScheduler) (workflowId transition : String) (files : List Path)
    (principal : Principal) : LockScheduler :=
  s.enqueueWithMode workflowId transition files principal .all

def takeReady (s : LockScheduler) (held : List Path) : Option Waiter × LockScheduler :=
  match s.queue.find? fun w => w.ready held with
  | some w => (some w, { s with queue := s.queue.eraseP fun w => w.ready held })
  | none => (none, s)

end LockScheduler

end Praxec
