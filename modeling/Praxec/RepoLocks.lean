import Praxec.Json.Value

namespace Praxec

open Json

abbrev Path := String

structure HeldLock where
  file : Path
  holder : String
  expiresAt : Nat
  ttl : Nat
deriving DecidableEq

structure LockConflict where
  conflicts : List (Path × String)
deriving DecidableEq

abbrev RepoLockSpace := List HeldLock

namespace RepoLockSpace

variable (space : RepoLockSpace) (files : List Path) (holder : String) (now ttl : Nat)

def lookup (file : Path) : Option HeldLock :=
  space.find? fun e => e.file = file

def reap : RepoLockSpace :=
  space.filter fun e => now ≤ e.expiresAt

def put (file : Path) : RepoLockSpace :=
  ⟨file, holder, now + ttl, ttl⟩ :: space.filter fun e => e.file ≠ file

def conflictsOf : List (Path × String) :=
  files.filterMap fun f => match space.lookup f with
    | some e => if e.holder ≠ holder then some (f, e.holder) else none
    | none => none

/-- All-or-nothing: either every file is taken for `holder`, or the conflicting files are named and
only expired entries are gone. -/
def acquire : Except LockConflict Unit × RepoLockSpace :=
  let map := space.reap now
  match map.conflictsOf files holder with
  | [] => (.ok (), files.foldl (fun m f => put m holder now ttl f) map)
  | conflicts => (.error ⟨conflicts⟩, map)

def release : RepoLockSpace :=
  space.filter fun e => !(e.file ∈ files && e.holder = holder)

def heartbeat : RepoLockSpace :=
  (space.reap now).map fun e =>
    if e.file ∈ files && e.holder = holder then { e with expiresAt := now + e.ttl } else e

def held : List HeldLock × RepoLockSpace :=
  (space.reap now, space.reap now)

def isHeldBy (file : Path) : Bool :=
  match space.lookup file with
  | some e => e.holder = holder
  | none => false

def isFree (file : Path) : Bool :=
  (space.lookup file).isNone

def acquireAny (space : RepoLockSpace) (holder : String) (now ttl : Nat) :
    List Path → Except LockConflict Path × RepoLockSpace
  | [] => (.error ⟨[]⟩, space)
  | candidate :: rest =>
      match space.acquire [candidate] holder now ttl with
      | (.ok _, map) => (.ok candidate, map)
      | (.error c, map) =>
          match acquireAny map holder now ttl rest with
          | (.ok member, map') => (.ok member, map')
          | (.error c', map') => (.error ⟨c.conflicts ++ c'.conflicts⟩, map')

end RepoLockSpace

def filesOf (v : Value) : List Path :=
  match (v.get "owned_files").bind Value.asArray with
  | some xs => xs.filterMap Value.asStr
  | none => []

/-- The file set an executor declares: its own `owned_files` and those of its branches, without
repetitions. -/
def ownedFilesIn (executorConfig : Value) : List Path :=
  let own := filesOf executorConfig
  let branches := match (executorConfig.get "branches").bind Value.asArray with
    | some bs => bs.flatMap filesOf
    | none => []
  (own ++ branches).reverse.dedup.reverse

end Praxec
