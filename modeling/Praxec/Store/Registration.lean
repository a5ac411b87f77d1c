import Praxec.Ports

namespace Praxec

open Json Effect List Bool Machine

namespace Registration

structure Request where
  definitionId : String
  definition : Value
  expectedPriorHash : Option String

inductive StoreOp where
  | lookup (definitionId : String)
  | record (event : AuditEvent)
  | insert (definitionId : String) (definition : Value)

abbrev StoreOp.Res : StoreOp → Type
  | .lookup _ => Option Value
  | .record _ => Except Err Unit
  | .insert _ _ => Unit

abbrev StoreSig : Signature :=
  ⟨StoreOp, StoreOp.Res, Request, fun _ => Except Err Unit⟩

abbrev Call := Prog StoreSig (Except Err Unit)

def definitionEvent (eventType definitionId : String) (extra : Fields) : AuditEvent :=
  ⟨eventType, none, none, none, .object (("definitionId", .string definitionId) :: extra)⟩

def published (definitionId : String) : AuditEvent :=
  definitionEvent "definition.published" definitionId [("outcome", "pending_commit")]

def loadable (definitionId : String) : AuditEvent :=
  definitionEvent "definition.loadable" definitionId [("outcome", "loadable")]

def writeFailed (definitionId : String) (e : Err) : AuditEvent :=
  definitionEvent "audit.write_failed" definitionId
    [("originalEvent", "definition.loadable"), ("error", .string e)]

def announce (definitionId : String) : Call := do
  match ← Prog.perform (S := StoreSig) (.record (loadable definitionId)) with
  | .ok _ => return .ok ()
  | .error e =>
      let _ ← Prog.perform (S := StoreSig) (.record (writeFailed definitionId e))
      return .ok ()

def write (r : Request) : Call := do
  let _ ← Prog.perform (S := StoreSig) (.insert r.definitionId r.definition)
  announce r.definitionId

def commit (r : Request) : Call := do
  match ← Prog.perform (S := StoreSig) (.record (published r.definitionId)) with
  | .ok _ => write r
  | .error e =>
      return .error s!"RECORD_WRITE_FAILED: audit of definition.published for '{r.definitionId}' failed: {e}"

variable (hash : Value → String)

def staleMessage (definitionId expected : String) (current : Option String) : Err :=
  let found := current.getD "<absent>"
  s!"CONFLICT_STALE: '{definitionId}' has changed since you read it (expected {expected}, found {found}). Re-read and re-apply your edit."

def register (r : Request) : Call :=
  match r.expectedPriorHash with
  | none => commit r
  | some expected => do
      let current ← Prog.perform (S := StoreSig) (.lookup r.definitionId)
      if current.map hash = some expected then commit r
      else return .error (staleMessage r.definitionId expected (current.map hash))

/-- The table of definitions, which answers one request at a time; the audit sink answers as it likes. -/
abbrev store : Host StoreSig where
  World := Fields
  Input := Except Err Unit
  entry _ := true
  handle table
    | .lookup definitionId, _ => some (table.get definitionId, table)
    | .record _, result => some (result, table)
    | .insert definitionId definition, _ => some ((), table.insert definitionId definition)
  outside _ _ := none
  restart _ := []

inductive Stage where
  | idle | pending | written | refused
deriving DecidableEq

def stageOf : Call → Stage
  | .op (.lookup _) _ => .idle
  | .op (.record event) _ => if event.eventType = "definition.published" then .pending else .written
  | .op (.insert _ _) _ => .pending
  | .pure (.ok _) => .written
  | .pure (.error _) => .refused
  | .call _ _ | .timeout _ _ => .idle

inductive Rest (r : Request) : Call → Stage → Prop
  | comparing {expected : String} (hexpected : r.expectedPriorHash = some expected) : Rest r (register hash r) .idle
  | publishing : Rest r (commit r) .pending
  | writing : Rest r (write r) .pending
  | announcing : Rest r (announce r.definitionId) .written
  | complaining (e : Err) : Rest r (.op (.record (writeFailed r.definitionId e)) fun _ => .pure (.ok ())) .written
  | done : Rest r (.pure (.ok ())) .written
  | failed (e : Err) : Rest r (.pure (.error e)) .refused

inductive Moves (table : Fields) (r : Request) : StoreOp → Stage → Stage → Fields → Prop
  | current {o : StoreOp} {expected : String} (hexpected : r.expectedPriorHash = some expected)
      (hcurrent : (table.get r.definitionId).map hash = some expected) : Moves table r o .idle .pending table
  | stale {o : StoreOp} : Moves table r o .idle .refused table
  | published {o : StoreOp} : Moves table r o .pending .pending table
  | unrecorded {o : StoreOp} : Moves table r o .pending .refused table
  | wrote : Moves table r (.insert r.definitionId r.definition) .pending .written
      (table.insert r.definitionId r.definition)
  | announced {o : StoreOp} : Moves table r o .written .written table

variable {hash}

variable {r : Request}

theorem register_none (h : r.expectedPriorHash = none) : register hash r = commit r := by
  unfold register
  rw [h]

theorem register_some (h : r.expectedPriorHash = some expected) :
    register hash r = .op (.lookup r.definitionId) fun current => if current.map hash = some expected then commit r
    else .pure (.error (staleMessage r.definitionId expected (current.map hash))) := by
  unfold register
  rw [h]
  rfl

theorem Rest.start (hash : Value → String) (r : Request) : ∃ stage, Rest hash r (register hash r) stage ∧
    (stage = .idle ∨ stage = .pending ∧ r.expectedPriorHash = none) := by
  cases hexpected : r.expectedPriorHash with
  | none => exact ⟨.pending, register_none hexpected ▸ .publishing, .inr ⟨rfl, rfl⟩⟩
  | some expected => exact ⟨.idle, .comparing hexpected, .inl rfl⟩

variable {code : Call} {stage : Stage}

theorem Rest.stageOf_eq (h : Rest hash r code stage) : stageOf code = stage := by
  cases h with
  | comparing hexpected =>
    rw [register_some hexpected]
    rfl
  | publishing | writing | announcing | complaining | done | failed => rfl

variable {o : StoreOp} {table : Fields}

theorem Rest.step (h : Rest hash r (.op o k) stage) (hhandle : store.handle table o input = some (result, table')) :
    ∃ stage', Rest hash r (k result) stage' ∧ Moves hash table r o stage stage' table' := by
  generalize hcode : Prog.op (S := StoreSig) o k = code at h
  cases h with
  | comparing hexpected =>
    rw [register_some hexpected] at hcode
    cases hcode
    cases hhandle
    dsimp only
    split
    case isTrue hcurrent => exact ⟨.pending, .publishing, .current hexpected hcurrent⟩
    case isFalse => exact ⟨.refused, .failed _, .stale⟩
  | publishing =>
    cases hcode
    cases hhandle
    cases input with
    | ok _ => exact ⟨.pending, .writing, .published⟩
    | error e => exact ⟨.refused, .failed _, .unrecorded⟩
  | writing =>
    cases hcode
    cases hhandle
    exact ⟨.written, .announcing, .wrote⟩
  | announcing =>
    cases hcode
    cases hhandle
    cases input with
    | ok _ => exact ⟨.written, .done, .announced⟩
    | error e => exact ⟨.written, .complaining e, .announced⟩
  | complaining e =>
    cases hcode
    cases hhandle
    exact ⟨.written, .done, .announced⟩
  | done => cases hcode
  | failed => cases hcode

section

variable (hash) (id expected : String)

def sameBasis : Action store → Bool
  | .spawn r => r.definitionId ≠ id || r.expectedPriorHash = some expected
  | _ => true

def isPending (t : Thread StoreSig) : Bool :=
  t.proc.definitionId = id && stageOf t.code = .pending

/-- A call on the definition writes only while no other call is between its compare and its write, and a definition
of another hash. -/
def writesInTurn (m : Machine store) : Action store → Bool
  | .answer i _ => match m.threads[i]? with
      | some ⟨_, _, .op (.insert definitionId definition) _, _⟩ =>
          definitionId ≠ id || (hash definition ≠ expected && (m.threads.eraseIdx i).all fun t => !isPending id t)
      | _ => true
  | _ => true

def RunsWith (ok : Machine store → Action store → Bool) (table : Fields) (m : Machine store) : Prop :=
  Reaches (register hash) (fun m a _ => sameBasis id expected a = true ∧ ok m a = true) ⟨table, []⟩ m

def CallAt (m : Machine store) (i : Nat) (r : Request) (code : Call) : Prop :=
  ∃ hist, m.threads[i]? = some ⟨r, hist, code, Stack.root (S := StoreSig) r⟩

/-- At most one call on the definition has succeeded, and each that is about to write finds the definition it named. -/
structure NoLostUpdate (m : Machine store) : Prop where
  once : ∀ i j r r', CallAt m i r (.pure (.ok ())) → CallAt m j r' (.pure (.ok ())) → r.definitionId = id →
    r'.definitionId = id → i = j
  replaced : ∀ i r definition k, CallAt m i r (.op (.insert id definition) k) → (m.world.get id).map hash = some expected

structure At (m : Machine store) (i : Nat) (r : Request) (code : Call) (stage : Stage) : Prop where
  call : CallAt m i r code
  names : r.definitionId = id
  stage : stageOf code = stage

/-- Calls on the definition are between compare and write only while it has the hash that they name, and after one has
written it has another. -/
structure Serial (m : Machine store) : Prop where
  calls : ∀ i t, m.threads[i]? = some t → ∃ r code, CallAt m i r code ∧ Rest hash r code (stageOf code) ∧
    (r.definitionId = id → r.expectedPriorHash = some expected)
  pending : ∀ i r code, At id m i r code .pending → (m.world.get id).map hash = some expected
  written : ∀ i r code, At id m i r code .written → (m.world.get id).map hash ≠ some expected
  once : ∀ i j r r' code code', At id m i r code .written → At id m j r' code' .written → i = j

variable {hash id expected} {m : Machine store}

theorem Rest.insert_eq (h : Rest hash r (.op (.insert definitionId definition) k) stage) :
    stage = .pending ∧ r.definitionId = definitionId ∧ r.definition = definition := by
  generalize hcode : Prog.op (S := StoreSig) (.insert definitionId definition) k = code at h
  cases h with
  | comparing hexpected =>
    rw [register_some hexpected] at hcode
    cases hcode
  | writing =>
    cases hcode
    exact ⟨rfl, rfl, rfl⟩
  | publishing | announcing | complaining | done | failed => cases hcode

variable {i : Nat}

theorem CallAt.inj (h : CallAt m i r code) (h' : CallAt m i r' code') : r = r' ∧ code = code' := by
  obtain ⟨hist, h⟩ := h
  obtain ⟨hist', h'⟩ := h'
  rw [h] at h'
  cases h'
  exact ⟨rfl, rfl⟩

theorem Serial.rest (h : Serial hash id expected m) (hcall : CallAt m i r code) :
    Rest hash r code (stageOf code) ∧ (r.definitionId = id → r.expectedPriorHash = some expected) := by
  obtain ⟨hist, hthread⟩ := hcall
  obtain ⟨r', code', hcall', hrest⟩ := h.calls i _ hthread
  obtain ⟨rfl, rfl⟩ := CallAt.inj ⟨hist, hthread⟩ hcall'
  exact hrest

theorem Serial.noLostUpdate (h : Serial hash id expected m) : NoLostUpdate hash id expected m := by
  refine ⟨fun i j r r' hr hr' hid hid' => ?_, fun i r definition k hcall => ?_⟩
  · exact h.once i j r r' _ _ ⟨hr, hid, rfl⟩ ⟨hr', hid', rfl⟩
  · exact h.pending i r _ ⟨hcall, (h.rest hcall).1.insert_eq.2.1, rfl⟩

theorem serial_start : Serial hash id expected ⟨table, []⟩ where
  calls := nofun
  pending := fun _ _ _ h => nomatch h.call.choose_spec
  written := fun _ _ _ h => nomatch h.call.choose_spec
  once := fun _ _ _ _ _ _ h => nomatch h.call.choose_spec

theorem Serial.change (h : Serial hash id expected m) (i₀ : Nat) (hcalls : ∀ i t, m'.threads[i]? = some t →
    (i ≠ i₀ ∧ m.threads[i]? = some t) ∨ (i = i₀ ∧ ∃ hist, t = ⟨r₀, hist, code₀, Stack.root (S := StoreSig) r₀⟩))
    (hrest : Rest hash r₀ code₀ (stageOf code₀)) (hbasis : r₀.definitionId = id → r₀.expectedPriorHash = some expected)
    (hothers : ∀ i r code, i ≠ i₀ → At id m i r code .pending → (m'.world.get id).map hash = some expected)
    (hpast : ∀ i r code, i ≠ i₀ → At id m i r code .written → (m'.world.get id).map hash ≠ some expected)
    (hpending : r₀.definitionId = id → stageOf code₀ = .pending → (m'.world.get id).map hash = some expected)
    (hwritten : r₀.definitionId = id → stageOf code₀ = .written → (m'.world.get id).map hash ≠ some expected ∧
      ∀ i r code, i ≠ i₀ → ¬ At id m i r code .written) :
    Serial hash id expected m' := by
  have hat {i : Nat} {r : Request} {code : Call} {stage : Stage} (hi : At id m' i r code stage) :
      (i ≠ i₀ ∧ At id m i r code stage) ∨ (i = i₀ ∧ r = r₀ ∧ code = code₀) := by
    obtain ⟨⟨hist, hthread⟩, hid, hstage⟩ := hi
    rcases hcalls i _ hthread with ⟨hne, hold⟩ | ⟨heq, hist', hnew⟩
    · exact .inl ⟨hne, ⟨hist, hold⟩, hid, hstage⟩
    · cases hnew
      exact .inr ⟨heq, rfl, rfl⟩
  refine ⟨fun i t ht => ?_, fun i r code hi => ?_, fun i r code hi => ?_, fun i j r r' code code' hi hj => ?_⟩
  · rcases hcalls i t ht with ⟨-, hold⟩ | ⟨rfl, hist, rfl⟩
    · obtain ⟨r, code, ⟨hist, hthread⟩, hcall⟩ := h.calls i t hold
      rw [hold] at hthread
      cases hthread
      exact ⟨r, code, ⟨hist, ht⟩, hcall⟩
    · exact ⟨r₀, code₀, ⟨hist, ht⟩, hrest, hbasis⟩
  · rcases hat hi with ⟨hne, hold⟩ | ⟨-, rfl, rfl⟩
    · exact hothers i r code hne hold
    · exact hpending hi.names hi.stage
  · rcases hat hi with ⟨hne, hold⟩ | ⟨-, rfl, rfl⟩
    · exact hpast i r code hne hold
    · exact (hwritten hi.names hi.stage).1
  · rcases hat hi, hat hj with ⟨⟨hne, hold⟩ | ⟨rfl, rfl, rfl⟩, ⟨hne', hold'⟩ | ⟨rfl, rfl, rfl⟩⟩
    · exact h.once i j r r' code code' hold hold'
    · exact absurd hold ((hwritten hj.names hj.stage).2 i r code hne)
    · exact absurd hold' ((hwritten hi.names hi.stage).2 j r' code' hne')
    · rfl

theorem Serial.spawn (h : Serial hash id expected m) (hbasis : sameBasis id expected (.spawn r)) :
    Serial hash id expected { m with threads := m.threads ++ [Thread.start (register hash) r] } := by
  obtain ⟨stage, hrest, hstage⟩ := Rest.start hash r
  obtain rfl : stageOf (register hash r) = stage := hrest.stageOf_eq
  have hbasis : r.definitionId = id → r.expectedPriorHash = some expected := by
    simpa [sameBasis, or_iff_not_imp_left] using hbasis
  have hidle (hid : r.definitionId = id) : stageOf (register hash r) = .idle := by
    rcases hstage with hidle | ⟨-, hnone⟩
    · exact hidle
    · rw [hbasis hid] at hnone
      cases hnone
  refine h.change m.threads.length (fun i t ht => ?_) hrest hbasis (fun i r code _ => h.pending i r code)
    (fun i r code _ => h.written i r code) (fun hid hpending => ?_) fun hid hwritten => ?_
  · rcases Nat.lt_or_ge i m.threads.length with hlt | hge
    · rw [getElem?_append_left hlt] at ht
      exact .inl ⟨by omega, ht⟩
    · rw [getElem?_append_right hge] at ht
      obtain ⟨hlt, ht⟩ := List.getElem?_eq_some_iff.mp ht
      rw [length_singleton] at hlt
      rw [getElem_singleton] at ht
      exact .inr ⟨by omega, [], ht.symm⟩
  · rw [hidle hid] at hpending
    cases hpending
  · rw [hidle hid] at hwritten
    cases hwritten

theorem Moves.world (id : String) (h : Moves hash table r o stage stage' table') :
    (table'.get id = table.get id ∧ (stage' = .written → stage = .written ∨ r.definitionId ≠ id)) ∨
      (o = .insert id r.definition ∧ stage = .pending ∧ stage' = .written ∧ table'.get id = some r.definition) := by
  cases h with
  | wrote =>
    by_cases hid : r.definitionId = id
    · subst hid
      exact .inr ⟨rfl, rfl, rfl, Fields.get_insert_self ..⟩
    · exact .inl ⟨Fields.get_insert_of_ne _ _ (Ne.symm hid), fun _ => .inr hid⟩
  | current | stale | published | unrecorded | announced => simp

theorem Moves.pending (h : Moves hash table r o stage .pending table') (hid : r.definitionId = id)
    (hexpected : r.expectedPriorHash = some expected) :
    stage = .pending ∨ (table.get id).map hash = some expected := by
  cases h with
  | current hexpected' hcurrent =>
    rw [hexpected] at hexpected'
    cases hexpected'
    exact .inr (hid ▸ hcurrent)
  | published => exact .inl rfl

theorem not_pending_of_writesInTurn (hthread : m.threads[i]? = some ⟨r, hist, .op (.insert id definition) k, stack⟩)
    (hturn : writesInTurn hash id expected m (.answer i input)) : hash definition ≠ expected ∧
    ∀ j r' code, j ≠ i → ¬ At id m j r' code .pending := by
  simp only [writesInTurn, hthread, ne_eq, not_true_eq_false, decide_false, Bool.false_or, Bool.and_eq_true,
    decide_eq_true_eq, List.all_eq_true, Bool.not_eq_true'] at hturn
  refine ⟨hturn.1, ?_⟩
  rintro j r' code hne ⟨⟨hist', hj⟩, hid, hstage⟩
  have hmem : (⟨r', hist', code, Stack.root (S := StoreSig) r'⟩ : Thread StoreSig) ∈ m.threads.eraseIdx i :=
    List.mem_eraseIdx_iff_getElem?.mpr ⟨j, hne, hj⟩
  have hnot := hturn.2 _ hmem
  rw [isPending, hid, hstage] at hnot
  simp at hnot

theorem Serial.answer (h : Serial hash id expected m)
    (hthread : m.threads[i]? = some ⟨r, hist, .op o k, Stack.root (S := StoreSig) r⟩)
    (hhandle : store.handle m.world o input = some (result, table))
    (hturn : writesInTurn hash id expected m (.answer i input)) :
    Serial hash id expected
      ⟨table, m.threads.set i ⟨r, hist ++ [.op o result], k result, Stack.root (S := StoreSig) r⟩⟩ := by
  have hcall : CallAt m i r (.op o k) := ⟨hist, hthread⟩
  obtain ⟨hrest, hbasis⟩ := h.rest hcall
  obtain ⟨stage', hrest', hmoves⟩ := hrest.step hhandle
  obtain rfl : stageOf (k result) = stage' := hrest'.stageOf_eq
  have hcalls (j : Nat) (t : Thread StoreSig)
      (ht : (m.threads.set i ⟨r, hist ++ [.op o result], k result, Stack.root (S := StoreSig) r⟩)[j]? = some t) :
      (j ≠ i ∧ m.threads[j]? = some t) ∨
        (j = i ∧ ∃ hist, t = ⟨r, hist, k result, Stack.root (S := StoreSig) r⟩) := by
    by_cases hj : j = i
    · subst hj
      rw [List.getElem?_set_self (List.getElem?_eq_some_iff.mp hthread).1] at ht
      exact .inr ⟨rfl, _, (Option.some.inj ht).symm⟩
    · rw [getElem?_set_ne (Ne.symm hj)] at ht
      exact .inl ⟨hj, ht⟩
  rcases hmoves.world id with ⟨hsame, hkept⟩ | ⟨rfl, hpending, hwritten, hput⟩
  · have hworld : (table.get id).map hash = (m.world.get id).map hash := congrArg (Option.map hash) hsame
    refine h.change i hcalls hrest' hbasis (fun j r' code _ hat => hworld ▸ h.pending j r' code hat)
      (fun j r' code _ hat => hworld ▸ h.written j r' code hat) (fun hid hstage => ?_) fun hid hstage => ?_
    · rw [hstage] at hmoves
      rcases hmoves.pending hid (hbasis hid) with hold | hcurrent
      · exact hworld.trans (h.pending i r _ ⟨hcall, hid, hold⟩)
      · exact hworld.trans hcurrent
    · have hold : At id m i r (.op o k) .written := ⟨hcall, hid, (hkept hstage).resolve_right (not_not_intro hid)⟩
      exact ⟨hworld ▸ h.written i r _ hold, fun j r' code hne hat => hne (h.once j i r' r _ _ hat hold)⟩
  · obtain ⟨hnew, halone⟩ := not_pending_of_writesInTurn hthread hturn
    have hid : r.definitionId = id := hrest.insert_eq.2.1
    have hcurrent := h.pending i r _ ⟨hcall, hid, hpending⟩
    have hworld : (table.get id).map hash ≠ some expected := by
      rw [hput]
      exact fun heq => hnew (Option.some.inj heq)
    refine h.change i hcalls hrest' hbasis (fun j r' code hne hat => absurd hat (halone j r' code hne))
      (fun _ _ _ _ _ => hworld) (fun _ hstage => ?_)
      fun _ _ => ⟨hworld, fun j r' code _ hat => h.written j r' code hat hcurrent⟩
    rw [hwritten] at hstage
    cases hstage

theorem Rest.enter_eq (h : Rest hash r code stage)
    (hist : List (Event StoreSig)) (stack : Stack StoreSig r) : Thread.enter (register hash) ⟨r, hist, code, stack⟩ = none := by
  cases h with
  | comparing hexpected =>
    rw [register_some hexpected]
    rfl
  | publishing | writing | announcing | complaining | done | failed => rfl

theorem Serial.step (h : Serial hash id expected m)
    (hact : m.act (register hash) a = some m') (hbasis : sameBasis id expected a)
    (hturn : writesInTurn hash id expected m a) : Serial hash id expected m' := by
  cases act_cases hact with
  | spawn => exact h.spawn hbasis
  | answer ht hr =>
    obtain ⟨r, code, ⟨hist, hthread⟩, -⟩ := h.calls _ _ ht
    rw [ht] at hthread
    cases hthread
    exact h.answer ht hr hturn
  | enter ht he =>
    obtain ⟨r, code, ⟨hist, hthread⟩, hrest, -⟩ := h.calls _ _ ht
    rw [ht] at hthread
    cases hthread
    rw [hrest.enter_eq] at he
    cases he
  | leave ht hl =>
    obtain ⟨r, code, ⟨hist, hthread⟩, -⟩ := h.calls _ _ ht
    rw [ht] at hthread
    cases hthread
    cases code <;> cases hl
  | expire ht he =>
    obtain ⟨r, code, ⟨hist, hthread⟩, -⟩ := h.calls _ _ ht
    rw [ht] at hthread
    cases hthread
    cases he
  | outside hw => cases hw
  | restart => exact serial_start

/-- Where calls write in turn, at most one of those that name one hash succeeds, and it replaces the definition it named. -/
theorem register_no_lost_update {table : Fields} (h : RunsWith hash id expected (writesInTurn hash id expected) table m) :
    NoLostUpdate hash id expected m := by
  refine (Reaches.invariant (I := Serial hash id expected) h (serial_start) ?_).noLostUpdate
  intro m m' a hserial hact hok
  exact hserial.step hact hok.1 hok.2

end

def textHash (v : Value) : String :=
  v.asStr.getD ""

def update (text : String) : Request :=
  ⟨"d", .string text, some "h"⟩

def answeredInTurn (tasks : List Nat) : List (Action store) :=
  tasks.map fun i => .answer i (.ok ())

theorem runsWith_of_script (ok : Machine store → Action store → Bool) (script : List (Action store))
    (h : runs (register textHash) (fun m a => sameBasis "d" "h" a && ok m a) ⟨[("d", "h")], []⟩ script = some m) :
    RunsWith textHash "d" "h" ok [("d", "h")] m :=
  .of_runs (fun hcheck _ => and_eq_true_iff.mp hcheck) .refl h

/-- Two calls compare before either writes: the second is about to replace what the first has written, and both succeed. -/
theorem second_update_lost : ∃ m m' k, RunsWith textHash "d" "h" (fun _ _ => true) [("d", "h")] m ∧
    CallAt m 0 (update "x") (.pure (.ok ())) ∧ CallAt m 1 (update "y") (.op (.insert "d" (.string "y")) k) ∧
    m.world.get "d" = some (.string "x") ∧ ¬ NoLostUpdate textHash "d" "h" m ∧
    RunsWith textHash "d" "h" (fun _ _ => true) [("d", "h")] m' ∧ CallAt m' 0 (update "x") (.pure (.ok ())) ∧
    CallAt m' 1 (update "y") (.pure (.ok ())) ∧ ¬ NoLostUpdate textHash "d" "h" m' := by
  refine ⟨_, _, _,
    runsWith_of_script _ ([.spawn (update "x"), .spawn (update "y")] ++ answeredInTurn [0, 1, 0, 1, 0, 0]) rfl,
    ⟨_, rfl⟩, ⟨_, rfl⟩, rfl, fun h => ?_,
    runsWith_of_script _ ([.spawn (update "x"), .spawn (update "y")] ++ answeredInTurn [0, 1, 0, 1, 0, 0, 1, 1]) rfl,
    ⟨_, rfl⟩, ⟨_, rfl⟩, fun h => ?_⟩
  · exact absurd (h.replaced 1 _ _ _ ⟨_, rfl⟩) (by decide)
  · exact absurd (h.once 0 1 _ _ ⟨_, rfl⟩ ⟨_, rfl⟩ rfl rfl) (by decide)

theorem second_update_refused : ∃ m, RunsWith textHash "d" "h" (writesInTurn textHash "d" "h") [("d", "h")] m ∧
    CallAt m 0 (update "x") (.pure (.ok ())) ∧
    CallAt m 1 (update "y") (.pure (.error (staleMessage "d" "h" (some "x")))) ∧ NoLostUpdate textHash "d" "h" m := by
  have hrun := runsWith_of_script (writesInTurn textHash "d" "h")
    ([.spawn (update "x"), .spawn (update "y")] ++ answeredInTurn [0, 0, 0, 1, 0]) rfl
  exact ⟨_, hrun, ⟨_, rfl⟩, ⟨_, rfl⟩, register_no_lost_update hrun⟩

end Registration

end Praxec
