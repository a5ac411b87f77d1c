import Praxec.RepoLocks.Leases

namespace Praxec

open LeaseTable List Option

namespace LockSpaces

inductive LockOp (P : Type) where
  | acquire (files : List P) (holder : String) (ttl : Nat)
  | release (files : List P) (holder : String)
  | heartbeat (files : List P) (holder : String)
  | held

inductive LockReply (P : Type) where
  | granted
  | refused (conflicts : List (P × String))
  | done
  | holding (locks : List (P × String × Nat))

structure PathCoding (P : Type) where
  File : Type
  Key : Type
  decEq : DecidableEq Key
  file : P → File
  keyOf : File → Key
  path : File → P
  ttlMs : Nat → Nat

instance {P : Type} (κ : PathCoding P) : DecidableEq κ.Key :=
  κ.decEq

def wholeMs (ttl : Nat) : Nat :=
  if ttl < 2 ^ 63 then ttl else 300000

namespace PathCoding

section

variable {P : Type} (κ : PathCoding P) (afterRefusal : LeaseTable κ.File → Nat → LeaseTable κ.File)
  (t : LeaseTable κ.File) (now : Nat)

def key (p : P) : κ.Key :=
  κ.keyOf (κ.file p)

def conflictsOf (files : List P) (holder : String) : List (P × String) :=
  files.filterMap fun f => match find κ.keyOf t (κ.key f) with
    | some l => if l.holder ≠ holder then some (f, l.holder) else none
    | none => none

def acquire (files : List P) (holder : String) (ttl : Nat) : LockReply P × LeaseTable κ.File :=
  match κ.conflictsOf (t.reap now) files holder with
  | [] => (.granted, grant κ.keyOf κ.file ⟨holder, now + κ.ttlMs ttl, κ.ttlMs ttl⟩ files (t.reap now))
  | conflicts => (.refused conflicts, afterRefusal t now)

def release (files : List P) (holder : String) : LeaseTable κ.File :=
  removeAll κ.keyOf κ.file holder files t

def heartbeat (files : List P) (holder : String) : LeaseTable κ.File :=
  renewAll κ.keyOf κ.file holder now files (t.reap now)

def held : List (P × String × Nat) :=
  (t.reap now).map fun row => (κ.path row.1, row.2.holder, row.2.expiresAt)

def step : LockOp P → LockReply P × LeaseTable κ.File
  | .acquire files holder ttl => κ.acquire afterRefusal t now files holder ttl
  | .release files holder => (.done, κ.release t files holder)
  | .heartbeat files holder => (.done, κ.heartbeat t now files holder)
  | .held => (.holding (κ.held t now), t.reap now)

end

end PathCoding

structure LockSpace (P : Type) where
  State : Type
  start : State
  step : State → Nat → LockOp P → LockReply P × State

abbrev PathCoding.space {P : Type} (κ : PathCoding P) (afterRefusal : LeaseTable κ.File → Nat → LeaseTable κ.File) :
    LockSpace P :=
  ⟨LeaseTable κ.File, [], κ.step afterRefusal⟩

section

variable {P : Type} [DecidableEq C] (components : P → C) (toText : P → String) (ofText : String → P)

abbrev inProcessCoding : PathCoding P :=
  ⟨P, C, inferInstance, id, components, id, wholeMs⟩

abbrev repoLockSpace : LockSpace P :=
  (inProcessCoding components).space LeaseTable.reap

abbrev sqliteCoding : PathCoding P :=
  ⟨String, String, inferInstance, toText, id, ofText, fun ttl => max 1 (wholeMs ttl)⟩

abbrev sqliteRepoLockSpace : LockSpace P :=
  (sqliteCoding toText ofText).space fun t _ => t

end

namespace LockSpace

variable {P : Type} (S : LockSpace P)

def run : S.State → List (Nat × LockOp P) → List (LockReply P) × S.State
  | t, [] => ([], t)
  | t, (now, op) :: rest =>
      let next := S.step t now op
      let more := run next.2 rest
      (next.1 :: more.1, more.2)

theorem run_pair :
    (S.run t [a, b]).1 = [(S.step t a.1 a.2).1, (S.step (S.step t a.1 a.2).2 b.1 b.2).1] :=
  rfl

end LockSpace

section

variable {P : Type} [DecidableEq C] (components : P → C) (leases : P → Option Lease) (now : Nat)

def blockers (files : List P) (holder : String) : List (P × String) :=
  files.filterMap fun f => match leases f with
    | some l => if l.holder ≠ holder then some (f, l.holder) else none
    | none => none

def names (files : List P) (p : P) : Prop :=
  ∃ f ∈ files, components f = components p

instance (files : List P) (p : P) : Decidable (names components files p) :=
  inferInstanceAs (Decidable (∃ f ∈ files, components f = components p))

/-- What the lock space is for: each path has at most one lease, which an operation at `now` changes so. -/
def nextLeases : LockOp P → P → Option Lease
  | .acquire files holder ttl, p =>
      if blockers leases files holder = [] ∧ names components files p then some ⟨holder, now + ttl, ttl⟩ else leases p
  | .release files holder, p =>
      if names components files p then (leases p).filter fun l => l.holder ≠ holder else leases p
  | .heartbeat files holder, p =>
      (leases p).map fun l => if names components files p ∧ l.holder = holder then l.renew now else l
  | .held, p => leases p

end

section

variable {P : Type} [DecidableEq C] {components : P → C} {U : P → Prop} {κ : PathCoding P}
  {afterRefusal : LeaseTable κ.File → Nat → LeaseTable κ.File} {t : LeaseTable κ.File} {now now' : Nat}

def dayMs : Nat := 86400000

/-- An operation on the paths `U`, with a lease of one millisecond to one day. -/
def Admissible (U : P → Prop) : LockOp P → Prop
  | .acquire files _ ttl => (∀ f ∈ files, U f) ∧ 1 ≤ ttl ∧ ttl ≤ dayMs
  | .release files _ | .heartbeat files _ => ∀ f ∈ files, U f
  | .held => True

/-- The coding tells the paths `U` apart as their components do, and gives them back. -/
structure PathCoding.Faithful (κ : PathCoding P) (components : P → C) (U : P → Prop) : Prop where
  key_iff : ∀ p q, U p → U q → (κ.key p = κ.key q ↔ components p = components q)
  path_file : ∀ p, U p → components (κ.path (κ.file p)) = components p
  ttl : ∀ ttl, 1 ≤ ttl → ttl ≤ dayMs → κ.ttlMs ttl = ttl

/-- One row for each key, all for paths in `U`. -/
structure PathCoding.Inv (κ : PathCoding P) (U : P → Prop) (t : LeaseTable κ.File) : Prop where
  keyed : Keyed κ.keyOf t
  stored : ∀ row ∈ t, ∃ q, U q ∧ row.1 = κ.file q

def PathCoding.Keeps (κ : PathCoding P) (afterRefusal : LeaseTable κ.File → Nat → LeaseTable κ.File) : Prop :=
  ∀ t now, (afterRefusal t now).Sublist t ∧ ∀ now' k, Keyed κ.keyOf t → now ≤ now' →
    view κ.keyOf (afterRefusal t now) now' k = view κ.keyOf t now' k

def PathCoding.leases (κ : PathCoding P) (t : LeaseTable κ.File) (now : Nat) (p : P) : Option Lease :=
  view κ.keyOf t now (κ.key p)

theorem conflictsOf_reap (h : Keyed κ.keyOf t) (files : List P) (holder : String) :
    κ.conflictsOf (t.reap now) files holder = blockers (κ.leases t now) files holder := by
  unfold PathCoding.conflictsOf blockers PathCoding.leases
  simp only [find_reap h]

theorem mem_keys_iff (hfaithful : κ.Faithful components U) (hfiles : ∀ f ∈ files, U f) (hp : U p) :
    κ.key p ∈ files.map (fun f => κ.keyOf (κ.file f)) ↔ names components files p := by
  rw [List.mem_map]
  constructor
  · rintro ⟨f, hf, heq⟩
    exact ⟨f, hf, (hfaithful.key_iff f p (hfiles f hf) hp).mp heq⟩
  · rintro ⟨f, hf, heq⟩
    exact ⟨f, hf, (hfaithful.key_iff f p (hfiles f hf) hp).mpr heq⟩

theorem stored_upsert (stored : κ.File → Prop) (hf : stored f) (h : ∀ row ∈ t, stored row.1) :
    ∀ row ∈ upsert κ.keyOf t f l, stored row.1 := by
  induction t with
  | nil => simpa [upsert] using hf
  | cons row t ih =>
    obtain ⟨hg, hrest⟩ := forall_mem_cons.mp h
    unfold upsert
    split
    · exact forall_mem_cons.mpr ⟨hg, hrest⟩
    · exact forall_mem_cons.mpr ⟨hg, ih hrest⟩

namespace PathCoding.Inv

theorem sublist (h : κ.Inv U t) (hsub : t'.Sublist t) : κ.Inv U t' :=
  ⟨h.keyed.sublist (hsub.map _), fun row hrow => h.stored row (hsub.subset hrow)⟩

theorem reap (h : κ.Inv U t) : κ.Inv U (t.reap now) :=
  h.sublist filter_sublist

theorem grant (h : κ.Inv U t) (hfiles : ∀ f ∈ files, U f) (l : Lease) : κ.Inv U (grant κ.keyOf κ.file l files t) := by
  refine ⟨h.keyed.grant, ?_⟩
  have hstored := h.stored
  clear h
  induction files generalizing t with
  | nil => exact hstored
  | cons f files ih =>
    obtain ⟨hf, hrest⟩ := forall_mem_cons.mp hfiles
    exact ih hrest (stored_upsert (fun g => ∃ q, U q ∧ g = κ.file q) ⟨f, hf, rfl⟩ hstored)

theorem removeAll (h : κ.Inv U t) (files : List P) (holder : String) :
    κ.Inv U (removeAll κ.keyOf κ.file holder files t) := by
  induction files generalizing t with
  | nil => exact h
  | cons f files ih => exact ih (h.sublist filter_sublist)

theorem renewAll (h : κ.Inv U t) (files : List P) (holder : String) :
    κ.Inv U (renewAll κ.keyOf κ.file holder now files t) := by
  refine ⟨h.keyed.renewAll, ?_⟩
  have hstored := h.stored
  clear h
  induction files generalizing t with
  | nil => exact hstored
  | cons f files ih =>
    refine ih fun row hrow => ?_
    obtain ⟨old, hold, rfl⟩ := mem_map.mp hrow
    split <;> exact hstored old hold

theorem step (h : κ.Inv U t) (hkeeps : κ.Keeps afterRefusal) (hop : Admissible U op) :
    κ.Inv U (κ.step afterRefusal t now op).2 := by
  cases op with
  | acquire files holder ttl =>
    unfold PathCoding.step PathCoding.acquire
    dsimp only
    split
    · exact h.reap.grant hop.1 _
    · exact h.sublist (hkeeps t now).1
  | release files holder => exact h.removeAll files holder
  | heartbeat files holder => exact h.reap.renewAll files holder
  | held => exact h.reap

end PathCoding.Inv

theorem leases_step (hfaithful : κ.Faithful components U) (hkeeps : κ.Keeps afterRefusal) (h : κ.Inv U t)
    (hop : Admissible U op) (hp : U p) (hle : now ≤ now') : κ.leases (κ.step afterRefusal t now op).2 now' p =
    (nextLeases components (κ.leases t now) now op p).filter (Lease.isLive now') := by
  have hsame : κ.leases t now' p = (κ.leases t now p).filter (Lease.isLive now') := (filter_view hle).symm
  cases op with
  | acquire files holder ttl =>
    unfold PathCoding.step PathCoding.acquire nextLeases
    dsimp only
    rw [conflictsOf_reap h.keyed]
    split
    case h_1 hfree =>
      rw [hfree, hfaithful.ttl ttl hop.2.1 hop.2.2]
      unfold PathCoding.leases
      rw [view, find_grant, find_reap h.keyed]
      simp only [true_and, mem_keys_iff hfaithful hop.1 hp]
    case h_2 hblocked =>
      rw [if_neg (fun hfree => hblocked hfree.1), ← hsame]
      exact (hkeeps t now).2 now' _ h.keyed hle
  | release files holder =>
    unfold PathCoding.step PathCoding.release nextLeases
    dsimp only
    have hremoved : κ.leases (removeAll κ.keyOf κ.file holder files t) now' p =
        if names components files p then (κ.leases t now' p).filter (fun l => l.holder ≠ holder) else κ.leases t now' p := by
      unfold PathCoding.leases view
      rw [find_removeAll h.keyed]
      simp only [mem_keys_iff hfaithful hop hp]
      split
      · rw [Option.filter_filter, Option.filter_filter]
        simp only [Bool.and_comm]
      · rfl
    rw [hremoved, hsame]
    split
    · rw [Option.filter_filter, Option.filter_filter]
      simp only [Bool.and_comm]
    · rfl
  | heartbeat files holder =>
    unfold PathCoding.step PathCoding.heartbeat nextLeases PathCoding.leases
    rw [view, find_renewAll, find_reap h.keyed]
    simp only [mem_keys_iff hfaithful hop hp]
  | held => exact (view_reap h.keyed hle).trans hsame

end

section

variable {P : Type} [DecidableEq C] (components : P → C) (U : P → Prop)

def holderIn (locks : List (P × String × Nat)) (p : P) : Option (String × Nat) :=
  (locks.find? fun lock => components lock.1 = components p).map Prod.snd

inductive SameReply : LockReply P → LockReply P → Prop
  | granted : SameReply .granted .granted
  | refused (conflicts : List (P × String)) : SameReply (.refused conflicts) (.refused conflicts)
  | done : SameReply .done .done
  | holding {locks locks' : List (P × String × Nat)} (h : ∀ p, U p → holderIn components locks p = holderIn components locks' p) :
      SameReply (.holding locks) (.holding locks')

def LockSpace.holderAt (S : LockSpace P) (t : S.State) (now : Nat) (p : P) : Option (String × Nat) :=
  match (S.step t now .held).1 with
  | .holding locks => holderIn components locks p
  | _ => none

/-- An acquire takes all files or none, no path is reported with two holders, and a heartbeat does nothing for paths that
its holder does not hold. -/
structure Exclusive (S : LockSpace P) (t : S.State) (since : Nat) : Prop where
  acquire : ∀ now files holder ttl, since ≤ now → Admissible U (.acquire files holder ttl) →
    ((S.step t now (.acquire files holder ttl)).1 = .granted ∧ ∀ f ∈ files, ∀ now', now ≤ now' → now' ≤ now + ttl →
      S.holderAt components (S.step t now (.acquire files holder ttl)).2 now' f = some (holder, now + ttl)) ∨
    ∃ conflicts, conflicts ≠ [] ∧ (S.step t now (.acquire files holder ttl)).1 = .refused conflicts ∧
      ∀ p, U p → ∀ now', now ≤ now' → S.holderAt components (S.step t now (.acquire files holder ttl)).2 now' p =
        S.holderAt components t now' p
  held : ∀ now, since ≤ now → ∃ locks, (S.step t now .held).1 = .holding locks ∧
    locks.Pairwise fun a b => components a.1 ≠ components b.1
  heartbeat : ∀ now files holder, since ≤ now → (∀ f ∈ files, U f) → ∀ p, U p →
    (∀ expires, S.holderAt components t now p ≠ some (holder, expires)) → ∀ now', now ≤ now' →
    S.holderAt components (S.step t now (.heartbeat files holder)).2 now' p = S.holderAt components t now' p

/-- Operations on the paths `U` at times that do not go back. -/
def Timely : Nat → List (Nat × LockOp P) → Prop
  | _, [] => True
  | since, (now, op) :: rest => since ≤ now ∧ Admissible U op ∧ Timely now rest

def endTime (since : Nat) (ops : List (Nat × LockOp P)) : Nat :=
  ops.foldl (fun _ entry => entry.1) since

end

section

variable {P : Type} [DecidableEq C] {components : P → C} {U : P → Prop} {κ : PathCoding P}
  {afterRefusal : LeaseTable κ.File → Nat → LeaseTable κ.File} {t : LeaseTable κ.File} {now now' since ttl : Nat}

theorem find?_congr_mem {α : Type} {l : List α} {p q : α → Bool} (h : ∀ x ∈ l, p x = q x) : l.find? p = l.find? q := by
  induction l with
  | nil => rfl
  | cons x l ih =>
    obtain ⟨hx, hl⟩ := forall_mem_cons.mp h
    rw [find?_cons, find?_cons, hx, ih hl]

theorem holderIn_held (hfaithful : κ.Faithful components U) (h : κ.Inv U t) {p : P} (hp : U p) :
    holderIn components (κ.held t now) p = (κ.leases t now p).map fun l => (l.holder, l.expiresAt) := by
  have hrows : ∀ row ∈ t.reap now, (decide (components (κ.path row.1) = components p)) = decide (κ.keyOf row.1 = κ.key p) := by
    intro row hrow
    obtain ⟨q, hq, hfile⟩ := h.reap.stored row hrow
    rw [hfile, hfaithful.path_file q hq]
    exact decide_eq_decide.mpr (hfaithful.key_iff q p hq hp).symm
  unfold holderIn PathCoding.held PathCoding.leases
  rw [← find_reap h.keyed, List.find?_map, find, Option.map_map, Option.map_map]
  exact congrArg (Option.map _) (find?_congr_mem hrows)

theorem holderAt_eq (hfaithful : κ.Faithful components U) (h : κ.Inv U t) (hp : U p) :
    (κ.space afterRefusal).holderAt components t now p = (κ.leases t now p).map fun l => (l.holder, l.expiresAt) :=
  holderIn_held hfaithful h hp

theorem acquire_reply (h : κ.Inv U t) (files : List P) (holder : String) (ttl : Nat) :
    (κ.step afterRefusal t now (.acquire files holder ttl)).1 = match blockers (κ.leases t now) files holder with
      | [] => .granted
      | conflicts => .refused conflicts := by
  unfold PathCoding.step PathCoding.acquire
  dsimp only
  rw [conflictsOf_reap h.keyed]
  split <;> rfl

section

variable (hfaithful : κ.Faithful components U) (hkeeps : κ.Keeps afterRefusal) (h : κ.Inv U t)
include hfaithful hkeeps h

theorem holderAt_step_of_eq (hop : Admissible U op) (hp : U p) (hle : now ≤ now')
    (hsame : nextLeases components (κ.leases t now) now op p = κ.leases t now p) :
    (κ.space afterRefusal).holderAt components ((κ.space afterRefusal).step t now op).2 now' p =
    (κ.space afterRefusal).holderAt components t now' p := by
  have hstep : (κ.space afterRefusal).holderAt components (κ.step afterRefusal t now op).2 now' p =
      (κ.leases (κ.step afterRefusal t now op).2 now' p).map fun l => (l.holder, l.expiresAt) :=
    holderAt_eq hfaithful (h.step hkeeps hop) hp
  refine hstep.trans ?_
  rw [holderAt_eq hfaithful h hp, leases_step hfaithful hkeeps h hop hp hle, hsame]
  exact congrArg (Option.map _) (filter_view hle)

theorem acquire_all_or_nothing (hop : Admissible U (.acquire files holder ttl)) :
    (((κ.space afterRefusal).step t now (.acquire files holder ttl)).1 = .granted ∧
    ∀ f ∈ files, ∀ now', now ≤ now' → now' ≤ now + ttl → (κ.space afterRefusal).holderAt components
    ((κ.space afterRefusal).step t now (.acquire files holder ttl)).2 now' f = some (holder, now + ttl)) ∨
    ∃ conflicts, conflicts ≠ [] ∧ ((κ.space afterRefusal).step t now (.acquire files holder ttl)).1 = .refused conflicts ∧
    ∀ p, U p → ∀ now', now ≤ now' → (κ.space afterRefusal).holderAt components
    ((κ.space afterRefusal).step t now (.acquire files holder ttl)).2 now' p =
    (κ.space afterRefusal).holderAt components t now' p := by
  have hreply : ((κ.space afterRefusal).step t now (.acquire files holder ttl)).1 = _ := acquire_reply h files holder ttl
  cases hblockers : blockers (κ.leases t now) files holder with
  | nil =>
    rw [hblockers] at hreply
    refine .inl ⟨hreply, fun f hf now' hle hend => ?_⟩
    have hlease : nextLeases components (κ.leases t now) now (.acquire files holder ttl) f = some ⟨holder, now + ttl, ttl⟩ :=
      if_pos ⟨hblockers, f, hf, rfl⟩
    have hstep : (κ.space afterRefusal).holderAt components (κ.step afterRefusal t now (.acquire files holder ttl)).2 now' f = _ :=
      holderAt_eq hfaithful (h.step hkeeps hop) (hop.1 f hf)
    refine hstep.trans ?_
    rw [leases_step hfaithful hkeeps h hop (hop.1 f hf) hle, hlease]
    simp [filter_some, Lease.isLive, hend]
  | cons blocker more =>
    rw [hblockers] at hreply
    refine .inr ⟨blocker :: more, cons_ne_nil _ _, hreply, fun p hp now' hle => ?_⟩
    exact holderAt_step_of_eq hfaithful hkeeps h hop hp hle (if_neg fun hfree => by rw [hblockers] at hfree; cases hfree.1)

theorem heartbeat_no_revival (hfiles : ∀ f ∈ files, U f) (hp : U p)
    (hother : ∀ expires, (κ.space afterRefusal).holderAt components t now p ≠ some (holder, expires)) (hle : now ≤ now') :
    (κ.space afterRefusal).holderAt components ((κ.space afterRefusal).step t now (.heartbeat files holder)).2 now' p =
    (κ.space afterRefusal).holderAt components t now' p := by
  have hop : Admissible U (.heartbeat files holder) := hfiles
  refine holderAt_step_of_eq hfaithful hkeeps h hop hp hle ?_
  simp only [holderAt_eq hfaithful h hp] at hother
  unfold nextLeases
  dsimp only
  cases hlease : κ.leases t now p with
  | none => rfl
  | some l =>
    rw [hlease] at hother
    have hne : l.holder ≠ holder := fun heq => hother l.expiresAt (by simp [heq])
    rw [map_some, if_neg fun hboth => hne hboth.2]

omit hkeeps in
theorem held_pairwise : (κ.held t now).Pairwise fun a b => components a.1 ≠ components b.1 := by
  unfold PathCoding.held
  have hkeys : (t.reap now).Pairwise fun a b => κ.keyOf a.1 ≠ κ.keyOf b.1 := pairwise_map.mp h.reap.keyed
  refine pairwise_map.mpr (hkeys.imp_of_mem ?_)
  intro a b ha hb hne heq
  obtain ⟨p, hp, hafile⟩ := h.reap.stored a ha
  obtain ⟨q, hq, hbfile⟩ := h.reap.stored b hb
  dsimp only at heq
  rw [hafile, hbfile] at hne
  rw [hafile, hbfile, hfaithful.path_file p hp, hfaithful.path_file q hq] at heq
  exact hne ((hfaithful.key_iff p q hp hq).mpr heq)

theorem exclusive (since : Nat) : Exclusive components U (κ.space afterRefusal) t since where
  acquire _ _ _ _ _ hop := acquire_all_or_nothing hfaithful hkeeps h hop
  held now _ := ⟨κ.held t now, rfl, held_pairwise hfaithful h⟩
  heartbeat _ _ _ _ hfiles _ hp hother _ hle := heartbeat_no_revival hfaithful hkeeps h hfiles hp hother hle

end

end

section

variable {P : Type} [DecidableEq C] {components : P → C} {U : P → Prop} {κ κ' : PathCoding P}
  {afterRefusal : LeaseTable κ.File → Nat → LeaseTable κ.File}
  {afterRefusal' : LeaseTable κ'.File → Nat → LeaseTable κ'.File}

theorem blockers_congr (h : ∀ f ∈ files, leases f = leases' f)
    (holder : String) : blockers leases files holder = blockers leases' files holder :=
  filterMap_congr fun f hf => by rw [h f hf]

theorem nextLeases_congr (h : ∀ p, U p → leases p = leases' p) (hop : Admissible U op) (hp : U p) (now : Nat) :
    nextLeases components leases now op p = nextLeases components leases' now op p := by
  cases op with
  | acquire files holder ttl =>
    unfold nextLeases
    dsimp only
    rw [h p hp, blockers_congr fun f hf => h f (hop.1 f hf)]
  | release files holder | heartbeat files holder | held =>
    unfold nextLeases
    dsimp only
    rw [h p hp]

structure Same (U : P → Prop) (t : LeaseTable κ.File) (t' : LeaseTable κ'.File) (since : Nat) : Prop where
  left : κ.Inv U t
  right : κ'.Inv U t'
  leases : ∀ p, U p → ∀ now, since ≤ now → κ.leases t now p = κ'.leases t' now p

variable (hfaithful : κ.Faithful components U) (hfaithful' : κ'.Faithful components U) (hkeeps : κ.Keeps afterRefusal)
  (hkeeps' : κ'.Keeps afterRefusal') {t : LeaseTable κ.File} {t' : LeaseTable κ'.File} {since now : Nat}
include hfaithful hfaithful' hkeeps hkeeps'

theorem Same.step (h : Same U t t' since) (hop : Admissible U op) (hle : since ≤ now) :
    SameReply components U (κ.step afterRefusal t now op).1 (κ'.step afterRefusal' t' now op).1 ∧
    Same U (κ.step afterRefusal t now op).2 (κ'.step afterRefusal' t' now op).2 now := by
  have hnow (p : P) (hp : U p) : κ.leases t now p = κ'.leases t' now p := h.leases p hp now hle
  refine ⟨?_, h.left.step hkeeps hop, h.right.step hkeeps' hop, fun p hp now' hnow' => ?_⟩
  · cases op with
    | acquire files holder ttl =>
      rw [acquire_reply h.left, acquire_reply h.right, blockers_congr fun f hf => hnow f (hop.1 f hf)]
      split
      · exact .granted
      · exact .refused _
    | release files holder | heartbeat files holder => exact .done
    | held =>
      refine .holding fun p hp => ?_
      rw [holderIn_held hfaithful h.left hp, holderIn_held hfaithful' h.right hp, hnow p hp]
  · rw [leases_step hfaithful hkeeps h.left hop hp hnow', leases_step hfaithful' hkeeps' h.right hop hp hnow',
      nextLeases_congr hnow hop hp]

theorem Same.run (h : Same U t t' since) (hops : Timely U since ops) :
    List.Forall₂ (SameReply components U) ((κ.space afterRefusal).run t ops).1 ((κ'.space afterRefusal').run t' ops).1 ∧
    Same U ((κ.space afterRefusal).run t ops).2 ((κ'.space afterRefusal').run t' ops).2 (endTime since ops) := by
  induction ops generalizing t t' since with
  | nil => exact ⟨.nil, h⟩
  | cons entry ops ih =>
    obtain ⟨hle, hop, hrest⟩ := hops
    obtain ⟨hreply, hnext⟩ := h.step hfaithful hfaithful' hkeeps hkeeps' hop hle
    obtain ⟨hreplies, hend⟩ := ih hnext hrest
    exact ⟨.cons hreply hreplies, hend⟩

end

section

variable {P : Type} [DecidableEq C] (components : P → C) (toText : P → String) (ofText : String → P) (U : P → Prop)

/-- Both lock spaces reply alike to all operations on the paths `U`, and keep each path to one holder. -/
def LockSpacesAgree : Prop :=
  ∀ ops, Timely U 0 ops →
    List.Forall₂ (SameReply components U) ((repoLockSpace components).run [] ops).1
      ((sqliteRepoLockSpace toText ofText).run [] ops).1 ∧
    Exclusive components U (repoLockSpace components) ((repoLockSpace components).run [] ops).2 (endTime 0 ops) ∧
    Exclusive components U (sqliteRepoLockSpace toText ofText) ((sqliteRepoLockSpace toText ofText).run [] ops).2 (endTime 0 ops)

structure PlainPaths : Prop where
  spelled : ∀ p q, U p → U q → components p = components q → toText p = toText q
  readBack : ∀ p, U p → components (ofText (toText p)) = components p

variable {components toText ofText U}

theorem inProcess_faithful : (inProcessCoding components).Faithful components U where
  key_iff _ _ _ _ := Iff.rfl
  path_file _ _ := rfl
  ttl ttl _ hday := if_pos (Nat.lt_of_le_of_lt hday (by decide))

theorem sqlite_faithful (h : PlainPaths components toText ofText U) : (sqliteCoding toText ofText).Faithful components U where
  key_iff p q hp hq := by
    refine ⟨fun htext => ?_, h.spelled p q hp hq⟩
    have htext : toText p = toText q := htext
    rw [← h.readBack p hp, ← h.readBack q hq, htext]
  path_file := h.readBack
  ttl ttl hone hday := by
    have hwhole : wholeMs ttl = ttl := if_pos (Nat.lt_of_le_of_lt hday (by decide))
    change max 1 (wholeMs ttl) = ttl
    omega

theorem inProcess_keeps : (inProcessCoding components).Keeps LeaseTable.reap :=
  fun _ _ => ⟨filter_sublist, fun _ _ hkeyed hle => view_reap hkeyed hle⟩

theorem sqlite_keeps : (sqliteCoding toText ofText).Keeps fun t _ => t :=
  fun t _ => ⟨List.Sublist.refl t, fun _ _ _ _ => rfl⟩

theorem same_start : @Same P (inProcessCoding components) (sqliteCoding toText ofText) U [] [] 0 where
  left := ⟨nodup_nil, nofun⟩
  right := ⟨nodup_nil, nofun⟩
  leases _ _ _ _ := rfl

theorem agree_of_plainPaths (h : PlainPaths components toText ofText U) : LockSpacesAgree components toText ofText U := by
  intro ops hops
  obtain ⟨hreplies, hend⟩ := (same_start).run inProcess_faithful (sqlite_faithful h) inProcess_keeps sqlite_keeps hops
  exact ⟨hreplies, exclusive inProcess_faithful inProcess_keeps hend.left _,
    exclusive (sqlite_faithful h) sqlite_keeps hend.right _⟩

section

variable (κ : PathCoding P) (afterRefusal : LeaseTable κ.File → Nat → LeaseTable κ.File) (httl : κ.ttlMs 1 = 1) (p q : P)
include httl

theorem step_first_acquire :
    κ.step afterRefusal [] 0 (.acquire [p] "a" 1) = (.granted, [(κ.file p, ⟨"a", 1, 1⟩)]) := by
  simp [PathCoding.step, PathCoding.acquire, PathCoding.conflictsOf, LeaseTable.reap, LeaseTable.find, LeaseTable.grant,
    LeaseTable.upsert, httl]

theorem replies_acquires : ((κ.space afterRefusal).run [] [(0, .acquire [p] "a" 1), (0, .acquire [q] "b" 1)]).1 =
      [.granted, if κ.key p = κ.key q then .refused [(q, "a")] else .granted] := by
  have hfirst : (κ.space afterRefusal).step [] 0 (.acquire [p] "a" 1) = _ := step_first_acquire κ afterRefusal httl p
  have hconflicts : κ.conflictsOf (LeaseTable.reap [(κ.file p, ⟨"a", 1, 1⟩)] 0) [q] "b" =
      if κ.key p = κ.key q then [(q, "a")] else [] := by
    by_cases hkey : κ.keyOf (κ.file p) = κ.keyOf (κ.file q) <;>
      simp [PathCoding.conflictsOf, LeaseTable.reap, Lease.isLive, LeaseTable.find, PathCoding.key, hkey]
  have hsecond : ((κ.space afterRefusal).step [(κ.file p, ⟨"a", 1, 1⟩)] 0 (.acquire [q] "b" 1)).1 =
      if κ.key p = κ.key q then .refused [(q, "a")] else .granted := by
    change (κ.acquire afterRefusal _ 0 [q] "b" 1).1 = _
    unfold PathCoding.acquire
    rw [hconflicts]
    by_cases hkey : κ.key p = κ.key q <;> simp [hkey]
  rw [LockSpace.run_pair, hfirst, hsecond]

theorem replies_held : ((κ.space afterRefusal).run [] [(0, .acquire [p] "a" 1), (0, .held)]).1 =
      [.granted, .holding [(κ.path (κ.file p), "a", 1)]] := by
  have hfirst : (κ.space afterRefusal).step [] 0 (.acquire [p] "a" 1) = _ := step_first_acquire κ afterRefusal httl p
  rw [LockSpace.run_pair, hfirst]
  rfl

end

theorem text_eq_of_agree (h : LockSpacesAgree components toText ofText U) (hp : U p) (hq : U q)
    (hsame : components p = components q) : toText p = toText q := by
  have hops : Timely U 0 [(0, .acquire [p] "a" 1), (0, .acquire [q] "b" 1)] := by
    simp [Timely, Admissible, hp, hq, dayMs]
  have hreplies : List.Forall₂ _ (((inProcessCoding components).space LeaseTable.reap).run [] _).1
    (((sqliteCoding toText ofText).space fun t _ => t).run [] _).1 := (h _ hops).1
  rw [replies_acquires _ _ rfl, replies_acquires _ _ rfl] at hreplies
  cases hreplies with
  | cons _ hreplies =>
    cases hreplies with
    | cons hreply _ =>
      have hmemory : (inProcessCoding components).key p = (inProcessCoding components).key q := hsame
      by_contra hne
      have hsqlite : (sqliteCoding toText ofText).key p ≠ (sqliteCoding toText ofText).key q := hne
      rw [if_pos hmemory, if_neg hsqlite] at hreply
      cases hreply

theorem readBack_of_agree (h : LockSpacesAgree components toText ofText U) (hp : U p) :
    components (ofText (toText p)) = components p := by
  have hops : Timely U 0 [(0, .acquire [p] "a" 1), (0, .held)] := by
    simp [Timely, Admissible, hp, dayMs]
  have hreplies : List.Forall₂ _ (((inProcessCoding components).space LeaseTable.reap).run [] _).1
    (((sqliteCoding toText ofText).space fun t _ => t).run [] _).1 := (h _ hops).1
  rw [replies_held _ _ rfl, replies_held _ _ rfl] at hreplies
  cases hreplies with
  | cons _ hreplies =>
    cases hreplies with
    | cons hreply _ =>
      cases hreply with
      | holding hholders =>
        have hholder := hholders p hp
        by_contra hne
        have hpath : components ((sqliteCoding toText ofText).path ((sqliteCoding toText ofText).file p)) ≠ components p := hne
        have hown : components ((inProcessCoding components).path ((inProcessCoding components).file p)) = components p := rfl
        simp [holderIn, hpath, hown] at hholder

/-- The lock spaces agree on the paths that are spelled in one way each and that their text gives back, and on no others. -/
theorem lock_spaces_agree_iff (components : P → C) (toText : P → String) (ofText : String → P) (U : P → Prop) :
    LockSpacesAgree components toText ofText U ↔ PlainPaths components toText ofText U := by
  refine ⟨fun h => ⟨fun p q hp hq hsame => ?_, fun p hp => ?_⟩, agree_of_plainPaths⟩
  · exact text_eq_of_agree h hp hq hsame
  · exact readBack_of_agree h hp

end

/-- The components of a path on Unix: empty parts and dots do not count, a dot in front of a relative path apart. -/
def unixComponents (path : String) : Bool × List (List Char) :=
  let parts := (path.toList.splitOn '/').filter (· ≠ [])
  if path.toList.head? = some '/' then (true, parts.filter (· ≠ ['.']))
  else (false, parts.take 1 ++ (parts.drop 1).filter (· ≠ ['.']))

/-- The in-process space takes `"a//b"` for the locked file `"a/b"`; the database grants it to a second holder. -/
theorem respelled_file_granted_twice :
    ((repoLockSpace unixComponents).run [] [(0, .acquire ["a/b"] "a" 1), (0, .acquire ["a//b"] "b" 1)]).1 =
      [.granted, .refused [("a//b", "a")]] ∧
    ((sqliteRepoLockSpace id id).run [] [(0, .acquire ["a/b"] "a" 1), (0, .acquire ["a//b"] "b" 1)]).1 =
      [.granted, .granted] ∧
    ¬ LockSpacesAgree unixComponents id id fun _ => True := by
  have hsame : unixComponents "a/b" = unixComponents "a//b" := by decide
  have hne : ("a/b" : String) ≠ "a//b" := by decide
  refine ⟨?_, ?_, fun h => hne (text_eq_of_agree h trivial trivial hsame)⟩
  · refine (replies_acquires (inProcessCoding unixComponents) LeaseTable.reap rfl "a/b" "a//b").trans ?_
    exact congrArg (fun reply => [LockReply.granted, reply]) (if_pos hsame)
  · refine (replies_acquires (sqliteCoding id id) (fun t _ => t) rfl "a/b" "a//b").trans ?_
    exact congrArg (fun reply => [LockReply.granted, reply]) (if_neg hne)

end LockSpaces

end Praxec
