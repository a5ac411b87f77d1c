import Praxec.Runtime.Amplifier
import Praxec.Runtime.Governed
import Praxec.Runtime.Tally
import Praxec.Runtime.Writes

namespace Praxec

open Json Effect List Option Fields Gateway

variable {cfg : RuntimeConfig}

/-- A model made the step of its own accord: an agent was called for the submission, or the chain fired an agent's
transition as it stands. -/
def Firing.autoDriven (f : Firing) : Bool :=
  match f.site with
  | .agent => true
  | .selected _ => actorOf f.definition = some "agent"
  | .submit | .timeout => false

def addFired (fired : List Firing) : StoreWrite → List Firing
  | .created _ => []
  | .saved (.transition f) _ => fired ++ [f]
  | .saved .. => fired

def firedBy (id : String) (journal : List StoreWrite) : List Firing :=
  tally addFired [] id journal

def lastDriven (state : String) (fired : List Firing) : Option Firing :=
  (fired.filter fun f => f.autoDriven && f.before.state = state).getLast?

def declaredContinuation (inst : WorkflowInstance) : Option Value :=
  ((inst.definition.get "states").bind fun s => s.get inst.state).bind fun s => s.get "continuation"

def continuationRead (inst : WorkflowInstance) (path : String) : Option Value :=
  readInScopes ⟨.emptyObject, inst.context, inst.input, none, some inst.runEnv⟩ path

def SameReads (a b : WorkflowInstance) (reads : List String) : Prop :=
  ∀ path ∈ reads, ∃ v ∈ continuationRead a path, ∃ w ∈ continuationRead b path, v.same w = true

instance (a b : WorkflowInstance) (reads : List String) : Decidable (SameReads a b reads) :=
  inferInstanceAs (Decidable (∀ path ∈ reads, _))

def ledgerAt (inst : WorkflowInstance) (state : String) : Option Value :=
  (inst.context.get continuationReadsKey).bind fun ledger => ledger.get state

def Firing.captured (f : Firing) : Option Value :=
  match captureContinuation f.before.definition f.before with
  | .ok snapshot => snapshot
  | .error _ => none

/-- The request leaves the ledger to the chain: no failed submit maps its slot updates onto it, and no state that a
submit leaves declares it as its own slot. A submit in a profile finds its transition by name, not by its place in a
list. -/
def Op.keepsLedger : Op → Bool
  | .storeSave (.slotUpdates _ mapping) _ _ => continuationReadsKey ∉ writtenSlots mapping
  | .storeSave (.transition f) _ _ => f.site = .submit →
      continuationReadsKey ∉ stateLocalSlots f.before.definition f.before.state ∧
      ((f.before.definition.get "amplifier").isSome →
        (f.before.definition.walk ["states", f.before.state, "transitions"]).any Value.isObject)
  | _ => true

def KeepsLedger (m : Gateway) (a : GatewayAction) (_ : Gateway) : Prop :=
  ∀ o, m.pending a = some o → o.keepsLedger = true

variable {snapshot : Option Value}

section

variable {a b : WorkflowInstance} {path : String} {reads : List String} {fields others : Fields}

theorem captureReads_cons (hread : captureReads a (first :: reads) = .ok fields) :
    ∃ v tail, continuationRead a first = some v ∧ captureReads a reads = .ok tail ∧ fields = (first, v) :: tail := by
  unfold captureReads at hread
  split at hread
  · cases hread
  · rename_i v hv
    cases hrest : captureReads a reads with
    | error e =>
      rw [hrest] at hread
      cases hread
    | ok tail =>
      rw [hrest] at hread
      cases hread
      exact ⟨v, tail, hv, rfl, rfl⟩

theorem get_captureReads (hread : captureReads a reads = .ok fields) (hpath : path ∈ reads) :
    fields.get path = continuationRead a path := by
  induction reads generalizing fields with
  | nil => cases hpath
  | cons first rest ih =>
    obtain ⟨v, tail, hv, hrest, rfl⟩ := captureReads_cons hread
    rw [get_cons]
    split
    · rename_i heq
      rw [heq, hv]
    · rename_i hne
      exact ih hrest ((mem_cons.mp hpath).resolve_left hne)

theorem length_captureReads (hread : captureReads a reads = .ok fields) : fields.length = reads.length := by
  induction reads generalizing fields with
  | nil =>
    cases hread
    rfl
  | cons first rest ih =>
    obtain ⟨v, tail, -, hrest, rfl⟩ := captureReads_cons hread
    simp [ih hrest]

theorem sameFields_of_reads (hread : captureReads a reads = .ok fields)
    (hsame : ∀ path ∈ reads, ∃ v w, continuationRead a path = some v ∧ others.get path = some w ∧ v.same w) :
    Value.sameFields fields others := by
  induction reads generalizing fields with
  | nil =>
    cases hread
    simp [Value.sameFields]
  | cons first rest ih =>
    obtain ⟨v, tail, hv, hrest, rfl⟩ := captureReads_cons hread
    obtain ⟨v', w, hv', hw, heq⟩ := hsame first (.head _)
    cases hv.symm.trans hv'
    have htail := ih hrest fun path hpath => hsame path (.tail _ hpath)
    simp [Value.sameFields, hw, heq, htail]

theorem SameReads.same (hsame : SameReads a b reads) (ha : captureReads a reads = .ok fields)
    (hb : captureReads b reads = .ok others) : (Value.object fields).same (.object others) := by
  have hlength : fields.length = others.length := (length_captureReads ha).trans (length_captureReads hb).symm
  have hfields := sameFields_of_reads ha fun path hpath => by
    obtain ⟨v, hv, w, hw, heq⟩ := hsame path hpath
    exact ⟨v, w, hv, (get_captureReads hb hpath).trans hw, heq⟩
  simp [Value.same, hlength, hfields]

theorem captured_of_declared (hdeclared : declaredContinuation a = some config)
    (hcaptured : captureContinuation a.definition a = .ok snapshot) : ∃ reads fields,
    continuationReads config = .ok reads ∧ captureReads a reads = .ok fields ∧ snapshot = some (.object fields) := by
  unfold declaredContinuation at hdeclared
  unfold captureContinuation at hcaptured
  rw [hdeclared] at hcaptured
  obtain ⟨reads, hreads, hcaptured⟩ := bind_ok hcaptured
  obtain ⟨fields, hfields, hcaptured⟩ := bind_ok hcaptured
  cases hcaptured
  exact ⟨reads, fields, hreads, hfields, rfl⟩

end

section

variable {f : Firing} {next : WorkflowInstance}

theorem get_commitContinuation
    (hledger : commitContinuation context previous state snapshot = .ok restored) :
    ((restored.get continuationReadsKey).bind fun ledger => ledger.get other) =
    if snapshot.isSome ∧ other = state then snapshot else previous.bind fun ledger => ledger.get other := by
  unfold commitContinuation at hledger
  split at hledger
  · cases hledger
    simp [Value.get_remove]
  · split at hledger
    · rename_i states hprevious
      cases context with
      | object fields =>
        cases hledger
        have hold : (previous.bind fun ledger => ledger.get other) = Fields.get states other := by
          cases previous with
          | none =>
            cases hprevious
            rfl
          | some ledger =>
            cases hprevious
            rfl
        rw [hold]
        cases snapshot with
        | none => simp
        | some s => simp [Fields.get_insert]
      | null | bool _ | number _ | string _ | array _ => simp at hledger
    · cases hledger

theorem Firing.captured_eq
    (hcaptured : captureContinuation f.before.definition f.before = .ok snapshot) : f.captured = snapshot := by
  rw [Firing.captured, hcaptured]

theorem ledgerAt_congr (hcontext : next.context.get continuationReadsKey = base.context.get continuationReadsKey)
    (state : String) : ledgerAt next state = ledgerAt base state := by
  rw [ledgerAt, hcontext, ledgerAt]

theorem not_runtimeKey_ledger (a : Admitted) (arguments : Value) :
    ¬ RuntimeKey (a.firing arguments) continuationReadsKey := by
  rintro (hkey | hkey | hkey)
  · revert hkey
    decide
  · simpa [whileIterKey, continuationReadsKey] using congrArg String.toList hkey
  · obtain ⟨t, hkey⟩ := (Text.startsWith_iff _ _).mp hkey
    simpa [fireCountStem, continuationReadsKey] using congrArg String.toList hkey

theorem unwritten_of_valid (hvalid : validateBlackboardWrites lib definition mapping context = .ok ()) :
    continuationReadsKey ∉ writtenSlots mapping := by
  intro hmem
  unfold validateBlackboardWrites at hvalid
  rw [if_pos hmem] at hvalid
  cases hvalid

theorem Maps.keeps_ledger (hm : Maps cfg.lib base mapping applied)
    (hunwritten : continuationReadsKey ∉ writtenSlots mapping) :
    applied.get continuationReadsKey = base.context.get continuationReadsKey :=
  (hm.get_of_not_written hunwritten).resolve_right fun hmarker => absurd hmarker.1 (by decide)

theorem Commit.ledger (hc : Commit cfg Φ h f next) (hslots : f.site = .submit →
      continuationReadsKey ∉ stateLocalSlots f.before.definition f.before.state) (state : String) :
    ledgerAt next state =
      if f.site = .agent ∧ f.captured.isSome ∧ state = f.before.state then f.captured else ledgerAt f.before state := by
  cases hc with
  | timeout hout => rfl
  | @submit a arguments work _ hgated hwork hnext =>
    refine ledgerAt_congr ?_ state
    rcases hnext.kept (not_runtimeKey_ledger a arguments) with hkept | ⟨⟨-, hslot⟩, -⟩
    · refine hkept.trans (hwork.maps.keeps_ledger ?_)
      cases hwork with
      | plain _ _ hvalid => exact unwritten_of_valid hvalid
      | executed _ _ _ hvalid _ _ => exact unwritten_of_valid hvalid
    · exact absurd hslot (hslots rfl)
  | @hop args d hop work _ hdefined hhop hwork hnext hbelow =>
    cases hnext with
    | @intro target restored hopMs _ hledger =>
      have hkept : (chargedContext restored hopMs).get continuationReadsKey = restored.get continuationReadsKey := by
        unfold chargedContext
        rw [Value.get_insert_of_ne _ _ (by decide), Value.get_insert_of_ne _ _ (by decide)]
      rw [ledgerAt, hkept, get_commitContinuation hledger]
      cases hhop with
      | selected hplan hmem hguards => simp [Hop.firing, ledgerAt]
      | @driven name transition arguments snapshot hplan hagent hopen =>
        rw [Firing.captured_eq (f := Hop.firing ⟨name, transition, arguments, "agent", .agent, snapshot⟩ d)
          (hdefined ▸ hopen.captured)]
        simp [Hop.firing, ledgerAt]

theorem Saves.ledger (hs : Saves cfg Φ h kind next)
    (hkept : Op.keepsLedger (.storeSave kind next v)) (hkind : ∀ f, kind ≠ .transition f) (state : String) :
    ledgerAt next state = ledgerAt kind.base state := by
  refine ledgerAt_congr ?_ state
  cases hs with
  | transition _ _ => exact absurd rfl (hkind _)
  | lockWait _ _ | subworkflowWait _ | agentAwait _ | spawnBinding => exact get_writeMarker_of_ne _ _ (by decide)
  | slotUpdates _ _ _ hmerge => exact mergeOutput_get_of_not_written _ _ hmerge (of_decide_eq_true hkept)
  | onEnter _ hmerge hvalid => exact mergeOutput_get_of_not_written _ _ hmerge (unwritten_of_valid hvalid)
  | deadWait _ => exact (Value.get_remove _ _ _).trans (if_neg (by decide))
  | cancel => rfl

end

section

open Amplifier

variable {f : Firing} {next : WorkflowInstance}

theorem BranchTarget.mem
    (hb : BranchTarget v dflt branches target) : target = dflt ∨ target ∈ branches.map targetOf := by
  induction branches with
  | nil => exact .inl hb
  | cons branch rest ih =>
    have hrest (hb : BranchTarget v dflt rest target) : target = dflt ∨ target ∈ (branch :: rest).map targetOf :=
      (ih hb).imp id fun hmem => .tail _ hmem
    unfold BranchTarget at hb
    split at hb
    · rename_i htarget
      rcases hb with ⟨-, rfl⟩ | ⟨-, hb⟩
      · simp [targetOf, htarget]
      · exact hrest hb
    · exact hrest hb

theorem TargetOf.mem (ht : TargetOf v transition target) : target ∈ targets transition := by
  obtain ⟨dflt, hdflt, hb⟩ := ht
  have hnamed : targetOf transition = dflt := by
    unfold requiredStr at hdflt
    split at hdflt
    · rename_i hfield
      cases hdflt
      simp [targetOf, hfield]
    · cases hdflt
  rcases hb.mem with rfl | hmem
  · exact mem_cons.mpr (.inl hnamed.symm)
  · exact .tail _ hmem

theorem Commit.leads (hc : Commit cfg Φ h f next) (hclassified : Classified f.before.definition states graph)
    (hlisted : f.site = .submit → (f.before.definition.walk ["states", f.before.state, "transitions"]).any Value.isObject) :
    Leads f.before.definition f.before.state next.state ∨
      f.site = .timeout ∧ isTerminal f.before.definition next.state := by
  cases hc with
  | timeout hout => exact .inr ⟨rfl, hclassified.timeout_terminal hout.target⟩
  | @submit a arguments work _ hgated hwork hnext =>
    obtain ⟨listed, hwalk, hobject⟩ := (any_eq_true _ _).mp (hlisted rfl)
    obtain ⟨fields, rfl⟩ := (Value.isObject_iff _).mp hobject
    have hwalk : a.inst.definition.walk ["states", a.inst.state, "transitions"] = some (.object fields) := hwalk
    have htransition := hgated.cleared.transition
    rw [transitionDefinition, show ["states", a.inst.state, "transitions", a.request.transition] =
      ["states", a.inst.state, "transitions"] ++ [a.request.transition] from rfl, Value.walk_append, hwalk] at htransition
    have hmem : (a.request.transition, a.transition) ∈ fields := mem_of_get (by simpa using htransition)
    cases hnext with
    | intro _ htarget hloop =>
      refine .inl ⟨fields, _, congrArg (·.bind Value.asObject) hwalk, hmem, hgated.cleared.named, ?_⟩
      cases hloop with
      | undeclared _ | unlooped _ _ | leave _ _ _ => exact htarget.mem
      | again hstate hwhile _ _ _ _ =>
        rw [hclassified.unlooped hstate] at hwhile
        cases hwhile
  | @hop args d hop work _ hdefined hhop hwork hnext hbelow =>
    have hcandidate : (hop.name, hop.definition) ∈ (hopPlan cfg d.inst.definition d.inst.state).candidates := by
      cases hhop with
      | selected hplan hmem _ => rw [hdefined, hplan]; exact hmem
      | driven hplan _ _ => rw [hdefined, hplan]; exact .head _
    obtain ⟨fields, hfields, hmem, hhalt⟩ := hopPlan_listed hcandidate
    cases hnext with
    | intro htarget _ => exact .inl ⟨fields, _, hfields, hmem, hhalt, htarget.mem⟩

/-- Agents are called for submissions where no profile is declared; a profile has agents' transitions fired as they
stand. -/
def HopPlan.Routed (definition : Value) : HopPlan → Prop
  | .stop => True
  | .autoDrive _ => definition.get "amplifier" = none
  | .select candidates _ => ∀ t ∈ candidates, actorOf t.2 = some "agent" → (definition.get "amplifier").isSome = true

theorem hopPlan_routed : (hopPlan cfg definition state).Routed definition := by
  unfold hopPlan
  cases (definition.walk ["states", state, "transitions"]).bind Value.asObject with
  | none => trivial
  | some transitions =>
    dsimp only
    generalize (if cfg.autoDriveAgents && !boolField definition "proxySurface" false then
      transitions.filter fun t => actorOf t.2 = some "agent" ∧ t.1 ≠ "escalate" ∧ t.1 ≠ haltTransition else []) = agents
    split
    · trivial
    split
    · trivial
    · by_cases hprofile : (definition.get "amplifier").isSome
      · rw [if_pos hprofile]
        exact fun _ _ _ => hprofile
      · rw [if_neg hprofile]
        exact not_isSome_iff_eq_none.mp hprofile
    · intro t ht hagent
      obtain ⟨-, hkind⟩ := mem_filter.mp ht
      rw [(of_decide_eq_true hkind).2] at hagent
      exact absurd hagent (by decide)

theorem Commit.route (hc : Commit cfg Φ h f next) (hdriven : f.autoDriven) :
    f.site = .agent ∧ f.before.definition.get "amplifier" = none ∨
      f.site ≠ .agent ∧ (f.before.definition.get "amplifier").isSome := by
  cases hc with
  | timeout _ | submit _ _ _ => cases hdriven
  | @hop args d hop work _ hdefined hhop hwork hnext hbelow =>
    have hroute : (hopPlan cfg d.inst.definition d.inst.state).Routed _ := hopPlan_routed
    cases hhop with
    | selected hplan hmem _ =>
      rw [hdefined, hplan] at hroute
      refine .inr ⟨nofun, ?_⟩
      exact hdefined ▸ hroute _ hmem (of_decide_eq_true hdriven)
    | driven hplan _ _ =>
      rw [hdefined, hplan] at hroute
      exact .inl ⟨rfl, hdefined ▸ hroute⟩

end

section

variable {m : Gateway} {f g : Firing} {fired : List Firing} {inst next : WorkflowInstance}

theorem lastDriven_snoc : lastDriven state (fired ++ [f]) =
    if f.autoDriven ∧ f.before.state = state then some f else lastDriven state fired := by
  unfold lastDriven
  by_cases hf : f.autoDriven ∧ f.before.state = state <;> simp [hf]

theorem lastDriven_mem (hlast : lastDriven state fired = some g) :
    g ∈ fired ∧ g.autoDriven ∧ g.before.state = state := by
  simpa using mem_filter.mp (mem_of_getLast? hlast)

structure Ledgered (cfg : RuntimeConfig) (inst : WorkflowInstance) (fired : List Firing) : Prop where
  valid : validateInput cfg inst.definition inst.input = .ok ()
  definition : ∀ g ∈ fired, g.before.definition = inst.definition
  captured : ∀ g ∈ fired, g.site = .agent → ∃ snapshot, captureContinuation g.before.definition g.before = .ok snapshot
  route : ∀ g ∈ fired, g.autoDriven = true → g.site = .agent ∨ (inst.definition.get "amplifier").isSome = true
  ledger : ∀ state g s, lastDriven state fired = some g → g.site = .agent → g.captured = some s →
    ledgerAt inst state = some s
  forward : (inst.definition.get "amplifier").isSome → isTerminal inst.definition inst.state = true ∨
    ∀ g ∈ fired, Relation.TransGen (Amplifier.Leads inst.definition) g.before.state inst.state

theorem Ledgered.congr (hb : Ledgered cfg inst fired) (hrun : SameRun next inst) (hstate : next.state = inst.state)
    (hledger : ∀ state, ledgerAt next state = ledgerAt inst state) : Ledgered cfg next fired where
  valid := by rw [hrun.definition, hrun.input]; exact hb.valid
  definition := by rw [hrun.definition]; exact hb.definition
  captured := hb.captured
  route := by rw [hrun.definition]; exact hb.route
  ledger state g s := by rw [hledger]; exact hb.ledger state g s
  forward := by rw [hrun.definition, hstate]; exact hb.forward

theorem Ledgered.rebound (hb : Ledgered cfg inst fired) (hr : Rebound next inst) : Ledgered cfg next fired := by
  refine hb.congr hr.sameRun ?_ (ledgerAt_congr (hr.context _ (by decide)))
  rw [← hr.rest]

def Fresher (fired : List Firing) (f : Firing) : Prop :=
  f.autoDriven = true → ∀ g config, lastDriven f.before.state fired = some g → declaredContinuation f.before = some config →
    ∃ reads, continuationReads config = .ok reads ∧ ¬ SameReads g.before f.before reads

theorem Ledgered.classified (hb : Ledgered cfg inst fired) (hchecks : cfg.checks.amplifierValidate = Amplifier.validate)
    (hprofile : (inst.definition.get "amplifier").isSome) :
    ∃ states graph, Amplifier.Classified inst.definition states graph := by
  refine Amplifier.validate_classified ?_ hprofile
  have hvalid := hb.valid
  unfold validateInput at hvalid
  rw [if_neg (by simp [isSome_iff_ne_none.mp hprofile]), hchecks] at hvalid
  obtain ⟨_, hchecked, -⟩ := bind_ok hvalid
  exact hchecked

theorem Commit.gateOpen (hc : Commit cfg Φ h f next) (hsite : f.site = .agent) :
    ∃ snapshot, GateOpen f.before.definition f.before snapshot := by
  cases hc with
  | timeout _ | submit _ _ _ => cases hsite
  | hop hdefined hhop _ _ _ =>
    cases hhop with
    | selected _ _ _ => cases hsite
    | driven _ _ hopen => exact ⟨_, hdefined ▸ hopen⟩

theorem GateOpen.not_same (hopen : GateOpen inst.definition inst snapshot)
    (hledger : ledgerAt inst inst.state = some s) (hsnapshot : snapshot = some t) : s.same t = false := by
  have hchanged := hopen.changed t hsnapshot
  obtain ⟨ledger, hread, hget⟩ := bind_eq_some_iff.mp hledger
  unfold continuationUnchanged at hchanged
  rw [hread] at hchanged
  cases ledger with
  | object states =>
    have hget : Fields.get states inst.state = some s := hget
    simpa [hget] using hchanged
  | null | bool _ | number _ | string _ | array _ => cases hget

theorem Ledgered.fresher (hb : Ledgered cfg f.before fired) (hc : Commit cfg Φ h f next)
    (hchecks : cfg.checks.amplifierValidate = Amplifier.validate) : Fresher fired f := by
  intro hdriven g config hlast hdeclared
  obtain ⟨hmem, hgdriven, hstate⟩ := lastDriven_mem hlast
  have hdefinition := hb.definition g hmem
  rcases hc.route hdriven with ⟨hsite, hnone⟩ | ⟨hsite, hprofile⟩
  · have hagent : g.site = .agent := (hb.route g hmem hgdriven).resolve_right (by simp [hnone])
    obtain ⟨snapshot, hcaptured⟩ := hb.captured g hmem hagent
    have hsame : declaredContinuation g.before = some config := by
      rw [declaredContinuation, hdefinition, hstate]
      exact hdeclared
    obtain ⟨reads, fields, hreads, hfields, rfl⟩ := captured_of_declared hsame hcaptured
    obtain ⟨snapshot', hopen⟩ := hc.gateOpen hsite
    obtain ⟨reads', fields', hreads', hfields', hsnapshot⟩ := captured_of_declared hdeclared hopen.captured
    cases hreads.symm.trans hreads'
    refine ⟨reads, hreads, fun hreads => ?_⟩
    have hledger := hb.ledger _ g _ hlast hagent (Firing.captured_eq hcaptured)
    have hchanged := hopen.not_same hledger hsnapshot
    rw [hreads.same hfields hfields'] at hchanged
    cases hchanged
  · -- a profile never comes back to a state it has left
    obtain ⟨states, graph, hclassified⟩ := hb.classified hchecks hprofile
    have hleads := hc.leads hclassified fun hsubmit => by simp [Firing.autoDriven, hsubmit] at hdriven
    have hleads := hleads.resolve_right fun htimeout => by simp [Firing.autoDriven, htimeout.1] at hdriven
    rcases hb.forward hprofile with hend | hforward
    · exact absurd hleads (hclassified.final hend)
    · exact absurd (hstate ▸ hforward g hmem) (hclassified.no_cycle _)

theorem Ledgered.commit (hb : Ledgered cfg f.before fired) (hc : Commit cfg Φ h f next)
    (hkept : Op.keepsLedger (.storeSave (.transition f) next v))
    (hchecks : cfg.checks.amplifierValidate = Amplifier.validate) : Ledgered cfg next (fired ++ [f]) := by
  have hrun : SameRun next f.before := by
    rw [hc.frame]
    exact ⟨rfl, rfl, rfl⟩
  have hkept := of_decide_eq_true hkept
  have hall {P : Firing → Prop} (hold : ∀ g ∈ fired, P g) (hnew : P f) : ∀ g ∈ fired ++ [f], P g :=
    forall_mem_append.mpr ⟨hold, forall_mem_singleton.mpr hnew⟩
  refine ⟨?_, ?_, ?_, ?_, fun state g s hlast hsite hcaptured => ?_, fun hprofile => ?_⟩
  · rw [hrun.definition, hrun.input]
    exact hb.valid
  · rw [hrun.definition]
    exact hall hb.definition rfl
  · exact hall hb.captured fun hsite => (hc.gateOpen hsite).imp fun _ hopen => hopen.captured
  · rw [hrun.definition]
    exact hall hb.route fun hdriven => (hc.route hdriven).imp And.left And.right
  · rw [hc.ledger (fun hsubmit => (hkept hsubmit).1)]
    rw [lastDriven_snoc] at hlast
    split at hlast
    · rename_i hf
      cases hlast
      rw [if_pos ⟨hsite, by simp [hcaptured], hf.2.symm⟩, hcaptured]
    · rename_i hf
      have hother : ¬ (f.site = .agent ∧ f.captured.isSome ∧ state = f.before.state) := fun hset =>
        hf ⟨by simp [Firing.autoDriven, hset.1], hset.2.2.symm⟩
      rw [if_neg hother]
      exact hb.ledger state g s hlast hsite hcaptured
  · rw [hrun.definition] at hprofile ⊢
    obtain ⟨states, graph, hclassified⟩ := hb.classified hchecks hprofile
    rcases hc.leads hclassified fun hsubmit => (hkept hsubmit).2 hprofile with hleads | htimeout
    · have hforward := (hb.forward hprofile).resolve_left fun hend => hclassified.final hend hleads
      exact .inr (hall (fun g hg => (hforward g hg).tail hleads) (.single hleads))
    · exact .inl htimeout.2

theorem Ledgered.fresh (hfresh : inst.Fresh cfg) : Ledgered cfg inst [] where
  valid := hfresh.valid
  definition _ hg := by cases hg
  captured _ hg := by cases hg
  route _ hg := by cases hg
  ledger _ _ _ hlast := by cases hlast
  forward _ := .inr fun _ hg => by cases hg

theorem Tallied.ledger (hchecks : cfg.checks.amplifierValidate = Amplifier.validate)
    (hm : Tallied cfg addFired [] (Ledgered cfg)
    (fun fired write => ∀ f next, write = .saved (.transition f) next → Fresher fired f) m)
    (hok : KeepsLedger m a m') (hadded : Added cfg (fun _ _ => True) m a write) :
    Ledgered cfg write.inst (addFired (firedBy write.inst.id m.world.journal) write) ∧
    ∀ f next, write = .saved (.transition f) next → Fresher (firedBy write.inst.id m.world.journal) f := by
  cases hadded with
  | created happ _ hfresh => exact ⟨.fresh hfresh, fun _ _ heq => by cases heq⟩
  | @saved t kind next stored v ht happ hfind _ hrebound _ hsaves =>
    have hb : Ledgered cfg kind.base (firedBy next.id m.world.journal) := (hm.stored _ _ hfind).rebound hrebound
    have hkept := hok _ happ.pending
    cases kind with
    | transition f =>
      refine ⟨hb.commit hsaves.commit hkept hchecks, ?_⟩
      rintro _ _ ⟨⟩
      exact hb.fresher hsaves.commit hchecks
    | _ =>
      refine ⟨hb.congr hsaves.sameRun ?_ (hsaves.ledger hkept fun _ heq => by cases heq), fun _ _ heq => by cases heq⟩
      cases hsaves
      rfl

/-- Of two steps that a model makes at a state with a continuation, and that the run commits, the later acts on other
reads than the last one before it: in every run whose steps leave the ledger to the chain. -/
theorem continuation_reads_change (hchecks : cfg.checks.amplifierValidate = Amplifier.validate)
    (hm : ReachableWith cfg KeepsLedger definitions m) {before after : List StoreWrite} {config : Value}
    (hsplit : m.world.journal = before ++ .saved (.transition f) next :: after) (hdriven : f.autoDriven = true)
    (hlast : lastDriven f.before.state (firedBy next.id before) = some g)
    (hdeclared : declaredContinuation f.before = some config) :
    ∃ reads, continuationReads config = .ok reads ∧ ¬ SameReads g.before f.before reads := by
  have htallied := ReachableWith.tallied hm fun hm hok => Tallied.ledger hchecks hm hok
  exact htallied.written before _ after hsplit f next rfl hdriven g config hlast hdeclared

end

def RuntimeConfig.checked : RuntimeConfig :=
  { RuntimeConfig.plain with checks := { Checks.plain with amplifierValidate := Amplifier.validate } }

/-- An agent works on the digest at `s`; at `t` a caller asks a model or goes back. -/
def digestDefinition (asked back : Fields) : Value :=
  .object [("version", "1"), ("initialState", "s"),
    ("initialContext", .object [("digest", "d")]),
    ("states", .object [
      ("s", .object [("continuation", .object [("reads", .array [.string "$.context.digest"])]),
        ("transitions", .object [("work", transitionOf "t" "agent" [])])]),
      ("t", stateOf [
        ("ask", transitionOf "t" "caller" [("executor", .object [("kind", "llm")]), ("output", .object asked)]),
        ("go", transitionOf "s" "caller" [("output", .object back)])])])]

def silentResult : ExecuteResult :=
  ⟨.emptyObject, [], none, none, none⟩

def digestScript : List GatewayAction :=
  launch 0 "d" "1" ++ answers 0 6 ++ [executed 0 silentResult] ++ answers 0 6

def backScript (i version : Nat) (id : String) : List GatewayAction :=
  .spawn (.submit (goSubmit "wf_1" version)) :: answers i 1 ++ [.answer i (.fresh id)] ++ answers i 4 ++ [.enter i] ++
    answers i 6 ++ [executed i silentResult] ++ answers i 6

def askScript : List GatewayAction :=
  .spawn (.submit { goSubmit "wf_1" 1 with transition := "ask" }) :: answers 1 1 ++ [.answer 1 (.fresh "2")] ++
    answers 1 3 ++ [.answer 1 (.executed (.error ⟨.permanent, "LLM_NO_TOOL_CALL", some .emptyObject⟩))] ++ answers 1 2

def lastRepeats (journal : List StoreWrite) : Option Bool :=
  match journal.getLast? with
  | some (.saved (.transition f) next) =>
      match f.autoDriven, lastDriven f.before.state (firedBy next.id journal.dropLast), declaredContinuation f.before with
      | true, some g, some config => match continuationReads config with
          | .ok reads => some (decide (SameReads g.before f.before reads))
          | .error _ => none
      | _, _, _ => none
  | _ => none

theorem lastRepeats_spec (hlast : lastRepeats journal = some same) :
    ∃ before f next g config reads, journal = before ++ [.saved (.transition f) next] ∧ f.autoDriven ∧
    lastDriven f.before.state (firedBy next.id before) = some g ∧ declaredContinuation f.before = some config ∧
    continuationReads config = .ok reads ∧ (SameReads g.before f.before reads ↔ same) := by
  unfold lastRepeats at hlast
  split at hlast
  · rename_i f next hsaved
    obtain ⟨before, rfl⟩ := List.getLast?_eq_some_iff.mp hsaved
    split at hlast
    · rename_i g config hdriven hg hconfig
      rw [List.dropLast_concat] at hg
      split at hlast
      · rename_i reads hreads
        cases hlast
        exact ⟨before, f, next, g, config, reads, rfl, hdriven, hg, hconfig, hreads, decide_eq_true_iff.symm⟩
      · cases hlast
    · cases hlast
  · cases hlast

/-- What a failed model leaves behind wipes the ledger, and the agent is called again for the same digest. -/
theorem wiped_ledger_repeats : ∃ m, Reachable .checked
      [("d", digestDefinition [(continuationReadsKey, .object [("set", .object [])])] [])] m ∧
    ∃ before f next g config reads, m.world.journal = before ++ [.saved (.transition f) next] ∧ f.autoDriven = true ∧
      lastDriven f.before.state (firedBy next.id before) = some g ∧ declaredContinuation f.before = some config ∧
      continuationReads config = .ok reads ∧ SameReads g.before f.before reads := by
  obtain ⟨m, hm, hlast⟩ := reachable_of_script .checked
    [("d", digestDefinition [(continuationReadsKey, .object [("set", .object [])])] [])]
    (digestScript ++ askScript ++ backScript 2 2 "3") (fun m => lastRepeats m.world.journal = some true)
  obtain ⟨before, f, next, g, config, reads, hjournal, hdriven, hg, hconfig, hreads, hsame⟩ :=
    lastRepeats_spec hlast
  exact ⟨m, hm, before, f, next, g, config, reads, hjournal, hdriven, hg, hconfig, hreads, hsame.mpr rfl⟩

theorem keepsLedger_of_pending (m : Gateway) (a : GatewayAction) (m' : Gateway)
    (hkept : (m.pending a).all Op.keepsLedger) : KeepsLedger m a m' :=
  fun o ho => by simpa [ho] using hkept

theorem changed_digest_continues : ∃ m, ReachableWith .checked KeepsLedger
      [("d", digestDefinition [] [("digest", "e")])] m ∧
    ∃ before f next g config, m.world.journal = before ++ [.saved (.transition f) next] ∧ f.autoDriven = true ∧
      lastDriven f.before.state (firedBy next.id before) = some g ∧ declaredContinuation f.before = some config ∧
      ∃ reads, continuationReads config = .ok reads ∧ ¬ SameReads g.before f.before reads := by
  obtain ⟨m, hm, hlast⟩ := reachableWith_of_script .checked
    [("d", digestDefinition [] [("digest", "e")])] (digestScript ++ backScript 1 1 "2")
    (fun m => lastRepeats m.world.journal = some false) (fun m a => (m.pending a).all Op.keepsLedger)
    keepsLedger_of_pending
  obtain ⟨before, f, next, g, config, reads, hjournal, hdriven, hg, hconfig, -, -⟩ :=
    lastRepeats_spec hlast
  exact ⟨m, hm, before, f, next, g, config, hjournal, hdriven, hg, hconfig,
    continuation_reads_change rfl hm hjournal hdriven hg hconfig⟩

end Praxec
