import Praxec.Runtime.Lineage

namespace Praxec

open Json Effect Prog Monitor List Gateway

variable {cfg : RuntimeConfig}

variable {h : History}

structure SettledAs (a b : WorkflowInstance) : Prop where
  state : a.state = b.state
  version : a.version = b.version
  cancelledAt : a.cancelledAt = b.cancelledAt
  cancelledReason : a.cancelledReason = b.cancelledReason

theorem SettledAs.trans (hab : SettledAs a b) (hbc : SettledAs b c) : SettledAs a c :=
  ⟨hab.state.trans hbc.state, hab.version.trans hbc.version, hab.cancelledAt.trans hbc.cancelledAt,
    hab.cancelledReason.trans hbc.cancelledReason⟩

theorem Rebound.settledAs (h : Rebound a b) : SettledAs a b := by
  rw [← h.rest]
  exact ⟨rfl, rfl, rfl, rfl⟩

theorem Saves.settledAs {kind : SaveKind} {next : WorkflowInstance}
    (hs : Saves cfg Φ h kind next) (hlive : kind.Live) (hcancelled : kind.base.cancelledAt.isSome) :
    SettledAs next kind.base := by
  cases hs with
  | spawnBinding => exact ⟨rfl, rfl, rfl, rfl⟩
  | _ =>
    have hnone : Option.isSome none := (show _ = none from hlive) ▸ hcancelled
    cases hnone

theorem Chained.cancelled {journal : List StoreWrite} (hj : Chained cfg Φ journal) {base cancelled : WorkflowInstance}
    (hw : StoreWrite.saved (.cancel base) cancelled ∈ journal) :
    cancelled.cancelledAt.isSome ∧ ∃ stored, current cancelled.id journal = some stored ∧ SettledAs stored cancelled := by
  induction hj with
  | nil => cases hw
  | @created journal inst hj hnew hfresh ih =>
    rw [current_snoc]
    rcases mem_append.mp hw with hold | hlast
    · obtain ⟨hsome, stored, hstored, hsettled⟩ := ih hold
      have hne : inst.id ≠ cancelled.id := fun hid => by rw [hid, hstored] at hnew; cases hnew
      exact ⟨hsome, stored, (if_neg hne).trans hstored, hsettled⟩
    · cases mem_singleton.mp hlast
  | @saved journal kind next replaced h hj hcurrent hbase hlive hsaves ih =>
    rw [current_snoc]
    rcases mem_append.mp hw with hold | hlast
    · obtain ⟨hsome, stored, hstored, hsettled⟩ := ih hold
      refine ⟨hsome, ?_⟩
      split
      · rename_i hid
        cases hcurrent.symm.trans (hid ▸ hstored)
        have hbaseSettled : SettledAs kind.base cancelled := hbase.settledAs.trans hsettled
        have hnext := hsaves.settledAs hlive (by rw [hbaseSettled.cancelledAt]; exact hsome)
        exact ⟨next, rfl, hnext.trans hbaseSettled⟩
      · exact ⟨stored, hstored, hsettled⟩
    · cases mem_singleton.mp hlast
      refine ⟨?_, cancelled, if_pos rfl, rfl, rfl, rfl, rfl⟩
      cases hsaves
      rfl

theorem Chained.valid (hj : Chained cfg Φ journal) :
    ∀ write ∈ journal, validateInput cfg write.inst.definition write.inst.input = .ok () := by
  refine hj.snapshots (fun _ hfresh => hfresh.valid) fun kind next stored h hstored hbase _ hsaves => ?_
  rwa [hsaves.sameRun.definition, hsaves.sameRun.input, hbase.sameRun.definition, hbase.sameRun.input]

def Doomed (p : Proc) (h : History) (inst : WorkflowInstance) : Prop :=
  inst.cancelledAt.isSome ∧ ∃ request rest, p = .submit request ∧ request.transition ≠ haltTransition ∧
    h = .op (.storeLoad request.workflowId) (.ok inst) :: rest

def StartsNothing : Event Sig → Prop
  | .op (.executeBegin ..) _ => False
  | _ => True

variable {inst : WorkflowInstance} {p : Proc}

namespace Cancellation

def mon (cfg : RuntimeConfig) : Monitor Sig (Proc × History) where
  next g e := (g.1, g.2 ++ [e])
  allows _ e := match e with
    | .op (.storeLoad _) (.ok inst) => validateInput cfg inst.definition inst.input = .ok ()
    | _ => True
  demands g e := ∀ inst, Doomed g.1 g.2 inst → StartsNothing e

def fin : (p : Proc) → p.Ret → Proc × History → Prop
  | .submit _, r, g => ∀ inst, Doomed g.1 g.2 inst → r = .error (cancelledError inst)
  | _, _, _ => True

def Spared (g : Proc × History) : Prop :=
  ∀ inst t, ¬ Doomed g.1 (g.2 ++ t) inst

theorem Spared.not_doomed (hg : Spared g) : ¬ Doomed g.1 g.2 inst := by
  simpa using hg inst []

theorem Spared.keeps (e : Event Sig) : (mon cfg).Keeps Spared e := by
  intro g hg _
  refine ⟨fun inst hdoomed => (hg.not_doomed hdoomed).elim, fun inst t => ?_⟩
  have hlater := hg inst ([e] ++ t)
  rwa [← append_assoc] at hlater

theorem Spared.returns : (mon cfg).Returns Spared x fun _ => Spared :=
  .of_uses (.all Spared.keeps x)

theorem Spared.triple
    (hB : ∀ e g, Spared g → B e g) : (mon cfg).Triple Spared x (fun _ => Spared) B :=
  .of_uses (.all Spared.keeps x.run) hB

section

variable {request : SubmitTransition}

def Loaded (request : SubmitTransition) (inst : WorkflowInstance) (g : Proc × History) : Prop :=
  ∃ rest, g = (.submit request, .op (.storeLoad request.workflowId) (.ok inst) :: rest)

theorem Loaded.keeps_quiet (e : Event Sig) (he : Quiet e) : (mon cfg).Keeps (Loaded request inst) e := by
  rintro g ⟨rest, rfl⟩ _
  refine ⟨fun _ _ => ?_, rest ++ [e], rfl⟩
  cases e with
  | op o r => cases o <;> trivial
  | call p r | timeout p r => trivial

theorem spared_cons
    (he : ∀ id inst, e = .op (.storeLoad id) (.ok inst) → inst.cancelledAt = none) : Spared (p, e :: h) := by
  rintro inst t ⟨hcancelled, _, _, _, _, hist⟩
  rw [he _ _ (List.cons.inj hist).1] at hcancelled
  cases hcancelled

theorem load_watched : (mon cfg).Triple (fun g => g = (.submit request, [])) (load request.workflowId)
      (fun inst g => if inst.cancelledAt.isSome then
        validateInput cfg inst.definition inst.input = .ok () ∧ Loaded request inst g else Spared g)
      fun _ => Spared := by
  refine Returns.perform fun g r hg ha => ?_
  subst hg
  refine ⟨fun inst hdoomed => ?_, ?_⟩
  · obtain ⟨_, _, _, _, _, hist⟩ := hdoomed
    cases hist
  cases r with
  | error e => exact spared_cons fun _ _ h => by cases h
  | ok inst =>
    dsimp only
    split
    · exact ⟨ha, [], rfl⟩
    · rename_i hlive
      exact spared_cons fun _ _ h => by cases h; simpa using hlive

theorem admitSubmit_watched (hhalt : request.transition ≠ haltTransition) :
    (mon cfg).Triple (fun g => g = (.submit request, [])) (admitSubmit cfg request) (fun _ => Spared)
      fun e g => Spared g ∨ ∃ inst, e = .fail (cancelledError inst) ∧ Loaded request inst g := by
  refine (Triple.attempt (load_watched.failing fun _ _ => .inl)).bind fun inst => ?_
  cases hcancelled : inst.cancelledAt.isSome with
  | false =>
    refine Triple.pre (P := Spared) (Spared.triple fun _ _ => .inl) fun g hg => ?_
    simpa [hcancelled] using hg
  | true =>
    refine .assume fun hvalid => (Triple.lift (quiet_returns Loaded.keeps_quiet freshId_uses)).bind fun c => ?_
    simp only [onlyIf, if_neg hhalt, pure_bind, hvalid]
    exact .throw fun g hg => .inr ⟨inst, rfl, hg⟩

theorem submit_watched (hhalt : request.transition ≠ haltTransition) :
    (mon cfg).Triple (fun g => g = (.submit request, [])) (submit cfg request) (fun _ => Spared)
      fun e g => Spared g ∨ ∃ inst, e = cancelledError inst ∧ Loaded request inst g := by
  have hdispatch : (mon cfg).Triple (fun g => g = (.submit request, [])) (dispatchOnce cfg request) (fun _ => Spared)
      fun e g => Spared g ∨ ∃ inst, e = cancelledError inst ∧ Loaded request inst g := by
    refine (Triple.finish ((admitSubmit_watched hhalt).bind fun a => Spared.triple fun _ _ => .inl)).conseq
      (fun _ => id) (fun out g hg => ?_) fun e g hg => ?_
    · rcases hg with hg | ⟨r, -, hg | ⟨inst, he, -⟩⟩
      · exact hg
      · exact hg
      · cases he
    · rcases hg with hg | ⟨inst, he, hloaded⟩
      · exact .inl hg
      · exact .inr ⟨inst, by cases he; rfl, hloaded⟩
  unfold submit submitLoop
  exact hdispatch.bind fun out => Spared.triple fun _ _ => .inl

end

theorem verifies : (mon cfg).Verifies (fun p => (p, [])) fin (fun _ => True) (body cfg) where
  body p _ := by
    have hspared (hp : ∀ request, p = .submit request → request.transition = haltTransition) {α : Type}
        (x : Run α) : (mon cfg).wp x (fun _ => Spared) (p, []) := by
      refine Spared.returns _ ?_
      rintro inst t ⟨_, request, _, rfl, hhalt, _⟩
      exact hhalt (hp request rfl)
    cases p with
    | submit request =>
      by_cases hhalt : request.transition = haltTransition
      · exact wp_mono (fun r g hg inst hdoomed => (hg.not_doomed hdoomed).elim)
          (hspared (fun _ h => by cases h; exact hhalt) _)
      · refine wp_mono (fun r g hg inst hdoomed => ?_) (submit_watched hhalt _ rfl)
        cases r with
        | ok response => exact (Spared.not_doomed hg hdoomed).elim
        | error e =>
          rcases hg with hg | ⟨loaded, rfl, rest, rfl⟩
          · exact (Spared.not_doomed hg hdoomed).elim
          · obtain ⟨_, _, _, hp, _, hist⟩ := hdoomed
            cases hp
            cases hist
            rfl
    | _ => exact wp_mono (fun _ _ _ => trivial) (hspared (fun _ h => by cases h) _)
  call _ _ _ := trivial
  timeout _ _ _ := trivial
  called _ _ _ _ _ := trivial
  timed _ _ _ _ _ := trivial
  cut _ _ := trivial

theorem after_mon : (mon cfg).after (p, h) t = (p, h ++ t) := by
  induction t generalizing h with
  | nil => simp
  | cons e t ih => rw [after_cons, show (mon cfg).next (p, h) e = (p, h ++ [e]) from rfl, ih, append_assoc]; rfl

theorem met_doomed (hmet : (mon cfg).Met (p, h) t) (hdoomed : Doomed p h inst) : ∀ e ∈ t, StartsNothing e := by
  induction t generalizing h with
  | nil => exact fun _ he => by cases he
  | cons e t ih =>
    refine forall_mem_cons.mpr ⟨hmet.1 inst hdoomed, ih (h := h ++ [e]) hmet.2 ?_⟩
    obtain ⟨hcancelled, request, rest, hp, hhalt, rfl⟩ := hdoomed
    exact ⟨hcancelled, request, rest ++ [e], hp, hhalt, rfl⟩

end Cancellation

section

variable {definitions : Fields} {m : Gateway}

theorem Gateway.Reachable.lineage (hm : Reachable cfg definitions m) : m.Lineage cfg fun _ _ => True :=
  lineage_of_reaches hm

theorem Gateway.Reachable.watched (hm : Reachable cfg definitions m) :
    m.Verified (Cancellation.mon cfg) (fun p => (p, [])) Cancellation.fin := by
  refine hm.from_reached.verified Cancellation.verifies (fun _ _ => trivial) ?_ rfl
  rintro m a m' ⟨hm, hact, -⟩ p hist o r happ
  have hlineage := Reachable.lineage hm
  have hout := hlineage.handsOut hact happ
  cases o with
  | storeLoad id =>
    cases r with
    | ok inst =>
      obtain ⟨write, hw, rfl⟩ := hout.2
      exact (hlineage.chained_step hact).valid write hw
    | error e => trivial
  | _ => trivial

theorem find_of_load {id : String}
    (happ : m.Appends a p hist (.op (.storeLoad id) (.ok inst))) : m.world.find id = some inst := by
  cases happ with
  | answer ht hr =>
    cases World.handle_store hr with
    | same _ _ hreply => exact hreply
  | leave ht hl => cases hl

/-- Once a cancellation has been saved, the stored instance stays as it was settled, everyone who loads it
finds it cancelled, and a submit that has loaded a cancelled instance starts no executor and fails. -/
theorem cancellation_absorbing (hm : Reachable cfg definitions m) {base cancelled : WorkflowInstance}
    (hcancel : .saved (.cancel base) cancelled ∈ m.world.journal) :
    (∃ stored, m.world.find cancelled.id = some stored ∧ SettledAs stored cancelled) ∧
    (∀ a p hist inst, m.Appends a p hist (.op (.storeLoad cancelled.id) (.ok inst)) → inst.cancelledAt.isSome) ∧
    ∀ t ∈ m.threads, ∀ request inst rest, request.transition ≠ haltTransition → inst.cancelledAt.isSome →
      ((.submit request, .op (.storeLoad request.workflowId) (.ok inst) :: rest) ∈ t.activations →
        ∀ e ∈ rest, StartsNothing e) ∧
      ∀ r stack, t = ⟨.submit request, .op (.storeLoad request.workflowId) (.ok inst) :: rest, .pure r, stack⟩ →
        r = .error (cancelledError inst) := by
  have hlineage := Reachable.lineage hm
  obtain ⟨hsome, stored, hstored, hsettled⟩ := hlineage.chained.cancelled hcancel
  rw [← hlineage.agrees.find] at hstored
  refine ⟨⟨stored, hstored, hsettled⟩, fun a p hist inst happ => ?_, fun t ht request inst rest hhalt hcancelled => ?_⟩
  · cases hstored.symm.trans (find_of_load happ)
    rw [hsettled.cancelledAt]
    exact hsome
  have hwatched := Reachable.watched hm t ht
  have hdoomed : Doomed (.submit request) [.op (.storeLoad request.workflowId) (.ok inst)] inst :=
    ⟨hcancelled, request, [], rfl, hhalt, rfl⟩
  constructor
  · intro hx
    exact Cancellation.met_doomed (hwatched.activations_met hx).2 hdoomed
  · rintro r stack rfl
    have hreturned := hwatched.returned
    rw [Cancellation.after_mon] at hreturned
    exact hreturned inst ⟨hcancelled, request, rest, rfl, hhalt, rfl⟩

end

def waitingDefinition : Value :=
  definitionOf "a" [("a", stateOf [("go", transitionOf "b" "human" [])]), ("b", terminalState)]

def waitingInstance : WorkflowInstance :=
  ⟨"wf_1", "d", "1", waitingDefinition, "a", 0, .emptyObject, .emptyObject, 0,
    ⟨"/", none, none, some "wf_1", []⟩, 0, none, none, none⟩

def cancellingScript : List GatewayAction :=
  launch 0 "d" "1" ++ .spawn (.cancel "wf_1" "stop") :: answers 1 3 ++
    .spawn (.submit ⟨"wf_1", 1, "go", .emptyObject, .anonymous, none, none, none⟩) :: answers 2 1 ++
    [.answer 2 (.fresh "2")]

theorem waiting_run_stays_cancelled :
    ∃ m, Reachable .plain [("d", waitingDefinition)] m ∧ m.threads.length = 3 ∧
      ∃ stored, m.world.find "wf_1" = some stored ∧ stored.state = "a" ∧ stored.version = 1 ∧
        stored.cancelledReason = some "stop" := by
  obtain ⟨m, hm, h⟩ := reachable_of_script .plain [("d", waitingDefinition)] cancellingScript
    (fun m => m.threads.length = 3 ∧ StoreWrite.saved (.cancel waitingInstance) { waitingInstance with
      version := 1, cancelledAt := some 0, cancelledReason := some "stop" } ∈ m.world.journal)
  obtain ⟨hlength, hcancel⟩ := h
  obtain ⟨⟨stored, hstored, hsettled⟩, -, -⟩ := cancellation_absorbing hm hcancel
  exact ⟨m, hm, hlength, stored, hstored, hsettled.state, hsettled.version, hsettled.cancelledReason⟩

end Praxec
