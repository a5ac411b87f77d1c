import Praxec.Effect.Calls
import Praxec.Runtime.Governed

namespace Praxec

open Json Effect Prog Monitor List

/-- What an instance takes over from the request that creates it; a child also takes over its environment. -/
structure WorkflowInstance.StartedBy (inst : WorkflowInstance) (request : StartWorkflow) : Prop where
  parent : inst.parent = request.parent
  runEnv : ∀ link, request.parent = some link → inst.runEnv = request.runEnv

inductive Seen (g : Proc × History) (definition : Value) : Prop where
  | driven {args : ChainArgs} (hp : g.1 = .runDeterministicChain args) (h : args.definition = definition) :
      Seen g definition
  | loaded {id : String} {inst : WorkflowInstance} (hmem : Event.op (S := Sig) (.storeLoad id) (.ok inst) ∈ g.2)
      (h : inst.definition = definition) : Seen g definition
  | fetched {id : String} (hmem : Event.op (S := Sig) (.definitionGet id) (.ok definition) ∈ g.2) : Seen g definition

variable {p : Proc}

theorem Seen.snoc (h : Seen (p, hist) D) (e : Event Sig) : Seen (p, hist ++ [e]) D := by
  cases h with
  | driven hp h => exact .driven hp h
  | loaded hmem h => exact .loaded (mem_append_left _ hmem) h
  | fetched hmem => exact .fetched (mem_append_left _ hmem)

/-- The footprint of an activation: guards and drives are those of definitions it has in hand, and only a start creates
a run, from the definition it has fetched. -/
def Follows (g : Proc × History) : Event Sig → Prop
  | .op (.storeCreate inst) _ => (∃ request, g.1 = .start request ∧ inst.StartedBy request) ∧
      ∃ id, Event.op (S := Sig) (.definitionGet id) (.ok inst.definition) ∈ g.2
  | .op (.guardEvaluate guard ..) _ => ∃ definition, Seen g definition ∧ Guards definition guard
  | .call (.runDeterministicChain args) _ | .timeout (.runDeterministicChain args) _ => Seen g args.definition
  | e => Ungoverned e

variable {g : Proc × History}

namespace Creation

abbrev mon : Monitor Sig (Proc × History) :=
  .footprint Follows

theorem follows_of_ungoverned (h : Ungoverned e) : Follows g e := by
  cases e with
  | op o r => cases o <;> first | exact h | cases h
  | call p v => cases p <;> first | exact h | exact h.elim
  | timeout p v => exact h.elim

theorem follows_of_governed (hg : Seen g D) (h : Governed D e) : Follows g e := by
  cases e with
  | op o r =>
    cases o with
    | guardEvaluate guard _ _ _ => exact ⟨D, hg, h⟩
    | storeCreate _ => cases h
    | _ => exact h
  | call p v =>
    cases p with
    | runDeterministicChain args =>
      cases (show args.definition = D from h)
      exact hg
    | _ => exact h
  | timeout p v =>
    cases p with
    | runDeterministicChain args =>
      cases (show args.definition = D from h)
      exact hg
    | _ => exact h.elim

theorem keeps_governed (e : Event Sig) (h : Governed D e) : mon.Keeps (fun g => Seen g D) e :=
  fun _ hg _ => ⟨follows_of_governed hg h, hg.snoc e⟩

theorem keeps_ungoverned (e : Event Sig) (h : Ungoverned e) : mon.Keeps (fun _ => True) e :=
  fun _ _ _ => ⟨follows_of_ungoverned h, trivial⟩

theorem governed_kept (hx : UsesE (Governed D) x) :
    mon.Triple (fun g => Seen g D) x (fun _ g => Seen g D) fun _ g => Seen g D :=
  .of_uses (hx.mono keeps_governed) fun _ _ => id

theorem governed_triple (hx : UsesE (Governed D) x) :
    mon.Triple (fun g => Seen g D) x (fun _ g => Seen g D) fun _ _ => True :=
  .of_uses (hx.mono keeps_governed) fun _ _ _ => trivial

theorem ungoverned_triple (hx : UsesE Ungoverned x) : mon.Triple (fun _ => True) x (fun _ _ => True) fun _ _ => True :=
  .of_uses (hx.mono keeps_ungoverned) fun _ _ _ => trivial

theorem load_triple {id : String} :
    mon.Triple (fun _ => True) (load id) (fun inst g => Seen g inst.definition) fun _ _ => True := by
  refine Returns.perform fun g r _ _ => ⟨rfl, ?_⟩
  cases r with
  | ok inst => exact .loaded (mem_append_right _ (.head _)) rfl
  | error e => trivial

section

variable {request : SubmitTransition}

theorem admitSubmit_triple : mon.Triple (fun _ => True) (admitSubmit cfg request)
      (fun a g => HasTransition a.inst.definition a.transition ∧ Seen g a.inst.definition) fun _ _ => True := by
  refine (Triple.attempt load_triple).bind fun inst => ?_
  refine (governed_triple (.lift freshId_uses)).bind fun c =>
    (governed_triple (.onlyIf fun _ => haltRun_governed)).bind fun _ =>
    .computeStage (fun _ _ _ _ => trivial) fun _ _ => (Triple.onlyIf fun _ => .throw fun _ _ => trivial).bind fun _ =>
    (governed_triple (.attempt checkAndApplyTimeout_works)).bind fun timedOut =>
    (governed_triple (.forSome fun _ => replyWith_governed response_governed)).bind fun _ =>
    (governed_triple (.attempt auditRecord_uses)).bind fun _ =>
    (governed_triple (.onlyIf fun _ => reject_governed)).bind fun _ => ?_
  split
  · exact .bind (.lift (.of_uses (recordRejected_governed.mono keeps_governed))) fun _ => .reply fun _ _ => trivial
  · rename_i transition hfound
    exact .pure fun g hg => ⟨.found hfound, hg⟩

theorem dispatchOnce_triple :
    mon.Triple (fun _ => True) (dispatchOnce cfg request) (fun _ _ => True) fun _ _ => True := by
  refine (Triple.finish (Q := fun _ _ => True) (admitSubmit_triple.bind fun a => .assume fun ht => ?_)).mono
    fun _ _ _ => trivial
  refine (governed_triple ?_).mono fun _ _ _ => trivial
  exact .bind modelAcceptanceEvent_governed fun _ => .bind checkActor_governed fun _ => .bind checkFireCap_governed fun _ =>
    .bind checkArguments_governed fun _ => .bind (checkGuards_governed ht) fun _ => .bind runSubmitExecutor_governed fun _ =>
    .bind (commitSubmit_governed ht) fun _ => .bind (.attempt (driveAndSettle_governed rfl)) fun _ => trivial

theorem submitLoop_triple :
    mon.Triple (fun _ => True) (submitLoop cfg fuel request) (fun _ _ => True) fun _ _ => True := by
  induction fuel generalizing request with
  | zero =>
    unfold submitLoop
    refine dispatchOnce_triple.bind fun outcome => ?_
    split
    · exact .pure fun _ _ => trivial
    · exact ungoverned_triple (.bind (.lift recordOrSelfEvent_uses) fun _ => trivial)
  | succ fuel ih =>
    unfold submitLoop
    refine dispatchOnce_triple.bind fun outcome => ?_
    split
    · exact .pure fun _ _ => trivial
    · exact ih

end

section

variable {args : ChainArgs}

theorem viableCandidates_triple {i : WorkflowInstance} {p : Principal} {candidates : List Candidate}
    (h : ∀ t ∈ candidates, HasTransition D t.2) : mon.Triple (fun g => Seen g D) (viableCandidates i p c candidates)
      (fun found g => (∀ t ∈ found.1 ++ found.2, HasTransition D t.2) ∧ Seen g D) fun _ g => Seen g D := by
  induction candidates with
  | nil => exact .pure fun g hg => ⟨nofun, hg⟩
  | cons candidate rest ih =>
    have hfirst := h candidate (.head _)
    have hrest := ih fun t ht => h t (.tail _ ht)
    unfold viableCandidates
    split
    · refine hrest.bind fun found => .pure fun g hg => ⟨fun t ht => ?_, hg.2⟩
      rcases mem_append.mp ht with hviable | hdefault
      · exact hg.1 t (mem_append_left _ hviable)
      · rcases mem_cons.mp hdefault with rfl | hdefault
        · exact hfirst
        · exact hg.1 t (mem_append_right _ hdefault)
    · refine (governed_kept (selectionGuardsPass_governed fun _ => .transition hfirst)).bind fun pass =>
        hrest.bind fun found => .pure fun g hg => ⟨fun t ht => ?_, hg.2⟩
      rcases mem_append.mp ht with hviable | hdefault
      · cases pass with
        | false => exact hg.1 t (mem_append_left _ hviable)
        | true =>
          rcases mem_cons.mp hviable with rfl | hviable
          · exact hfirst
          · exact hg.1 t (mem_append_left _ hviable)
      · exact hg.1 t (mem_append_right _ hdefault)

theorem selectDeterministicTransition_triple {i : WorkflowInstance} {p : Principal}
    {candidates : List Candidate} (h : ∀ t ∈ candidates, HasTransition D t.2) :
    mon.Triple (fun g => Seen g D) (selectDeterministicTransition candidates i p c)
      (fun selected g => HasTransition D selected.2 ∧ Seen g D) fun _ g => Seen g D := by
  unfold selectDeterministicTransition
  split
  · exact .pure fun g hg => ⟨h _ (.head _), hg⟩
  refine (viableCandidates_triple h).bind fun ⟨viable, defaults⟩ => ?_
  dsimp only
  split
  · exact .pure fun g hg => ⟨hg.1 _ (.head _), hg.2⟩
  · exact .pure fun g hg => ⟨hg.1 _ (.head _), hg.2⟩
  all_goals exact .throw fun _ hg => hg.2

theorem autoDriveHop_triple (h : HasTransition D candidate.2) :
    mon.Triple (fun g => Seen g D) (autoDriveHop cfg args d candidate)
    (fun hop g => HasTransition D hop.definition ∧ Seen g D) fun _ _ => True := by
  have hgoverned {α : Type} {x : Run α} (hx : x.Uses (Governed D)) :
      mon.Triple (fun g => Seen g D) (liftM x : ChainStage α) (fun _ g => Seen g D) fun _ _ => True :=
    governed_triple (.lift hx)
  refine .computeStage (fun _ _ _ _ => trivial) fun snapshot _ =>
    (Triple.forSome fun _ _ => .computeStage (fun _ _ _ _ => trivial) fun _ _ => .onlyIf fun _ =>
      (hgoverned recordOrSelfEvent_uses).bind fun _ => .reply fun _ _ => trivial).bind fun _ =>
    .computeStage (fun _ _ _ _ => trivial) fun agentConfig _ => (hgoverned acquireOwnedFiles_works).bind fun acquired => ?_
  cases acquired with
  | error conflict => exact .reply fun _ _ => trivial
  | ok lease =>
    refine (hgoverned recordOrSelfEvent_uses).bind fun _ => .computeStage (fun _ _ _ _ => trivial) fun policy _ =>
      (hgoverned executeLeased_works).bind fun outcome => ?_
    cases outcome with
    | ok result => exact (hgoverned recordOrSelfEvent_uses).bind fun _ => .pure fun g hg => ⟨h, hg⟩
    | error e => exact (hgoverned recordOrSelfEvent_uses).bind fun _ => .reply fun _ _ => trivial

theorem selectHop_triple : mon.Triple (fun g => Seen g args.definition) (selectHop cfg args d)
    (fun hop g => (∀ h, hop = some h → HasTransition args.definition h.definition) ∧ Seen g args.definition)
      fun _ _ => True := by
  unfold selectHop
  split
  · exact .pure fun g hg => ⟨nofun, hg⟩
  · rename_i candidate hplan
    have hcandidate : HasTransition args.definition candidate.2 :=
      hopPlan_hasTransition (by rw [hplan]; exact .head _)
    exact (autoDriveHop_triple hcandidate).bind fun hop => .pure fun g hg => ⟨fun _ ho => by cases ho; exact hg.1, hg.2⟩
  · rename_i candidates direct hplan
    have hcandidates (t : Candidate) (ht : t ∈ candidates) : HasTransition args.definition t.2 :=
      hopPlan_hasTransition (by rw [hplan]; exact ht)
    refine (Triple.lift (selectDeterministicTransition_triple hcandidates)).bind fun selected => ?_
    cases selected with
    | ok c => exact .pure fun g hg => ⟨fun _ ho => by cases ho; exact hg.1, hg.2⟩
    | error e =>
      exact .bind (.lift (.of_uses (recordOrSelfEvent_uses.mono keeps_governed))) fun _ => .reply fun _ _ => trivial

theorem chainLoop_triple : mon.Triple (fun g => Seen g args.definition) (chainLoop cfg args fuel d)
    (fun _ g => Seen g args.definition) fun _ _ => True := by
  have hgoverned {ε α : Type} {x : ExceptT ε Run α} (hx : UsesE (Governed args.definition) x) :
      mon.Triple (fun g => Seen g args.definition) x (fun _ g => Seen g args.definition) fun _ _ => True :=
    governed_triple hx
  induction fuel generalizing d with
  | zero =>
    refine (hgoverned (.lift now_uses)).bind fun _ => (hgoverned hopChecks_uses).bind fun proceed => ?_
    split <;> exact .pure fun _ => id
  | succ fuel ih =>
    refine (hgoverned (.lift now_uses)).bind fun _ => (hgoverned hopChecks_uses).bind fun proceed => ?_
    split
    · exact .pure fun _ => id
    refine selectHop_triple.bind fun hop => .assume fun hselected => ?_
    cases hop with
    | none => exact .pure fun _ => id
    | some hop =>
      refine (hgoverned (.lift recordOrSelfEvent_uses)).bind fun _ =>
        (hgoverned runHopExecutor_works).bind fun work =>
        (governed_triple (commitHop_governed (hselected hop rfl))).bind fun d' =>
        (hgoverned (.lift pastTimeout_uses)).bind fun late => ?_
      split
      · exact .pure fun _ => id
      · exact ih

theorem runDeterministicChain_triple : mon.Triple (fun g => Seen g args.definition) (runDeterministicChain cfg args)
    (fun _ _ => True) fun _ _ => True :=
  (Triple.finish (Q := fun _ _ => True) (.computeStage (fun _ _ _ _ => trivial) fun _ _ => chainLoop_triple.bind fun _ =>
    (governed_triple finishChain_uses).mono fun _ _ _ => trivial)).mono fun _ _ _ => trivial

end

section

variable {request : StartWorkflow}

def Fetched (request : StartWorkflow) (definition : Value) (g : Proc × History) : Prop :=
  g.1 = .start request ∧ ∃ id, Event.op (S := Sig) (.definitionGet id) (.ok definition) ∈ g.2

theorem Fetched.seen (h : Fetched request D g) : Seen g D :=
  have ⟨_, _, hmem⟩ := h
  .fetched hmem

theorem keeps_fetched (e : Event Sig) (h : Governed D e) : mon.Keeps (Fetched request D) e := by
  rintro g hg -
  have hfollows := follows_of_governed hg.seen h
  obtain ⟨hp, id, hmem⟩ := hg
  exact ⟨hfollows, hp, id, mem_append_left _ hmem⟩

theorem fetched_triple (hx : UsesE (Governed D) x) :
    mon.Triple (Fetched request D) x (fun _ => Fetched request D) fun _ _ => True :=
  .of_uses (hx.mono keeps_fetched) fun _ _ _ => trivial

theorem create_triple (hinst : inst.StartedBy request) : mon.Triple (Fetched request inst.definition)
    (ExceptT.mk (Prog.perform (S := Sig) (.storeCreate inst)) : Fallible WorkflowInstance)
      (fun _ => Fetched request inst.definition) fun _ _ => True := by
  refine Returns.perform fun g r hg _ => ?_
  obtain ⟨hp, id, hmem⟩ := hg
  refine ⟨⟨⟨request, hp, hinst⟩, id, hmem⟩, ?_⟩
  cases r with
  | ok _ => exact ⟨hp, id, mem_append_left _ hmem⟩
  | error _ => trivial

theorem created_triple {inst : WorkflowInstance} (hD : inst.definition = D) (hinst : inst.StartedBy request) :
    mon.Triple (Fetched request D) (do
      let created ← (ExceptT.mk (Prog.perform (S := Sig) (.storeCreate inst)) : Fallible WorkflowInstance)
      forSome created.parent fun link => onlyIf (link.transition ≠ "") (liftM (bindSpawnIgnored link created.id))
      auditRecord (((created.auditEvent "workflow.started" [("definitionId", .string created.definitionId),
        ("state", .string created.state), ("version", .nat created.version)]).withCorrelation c).withActor
          request.principal.subject)
      let entered ← runOnEnter cfg D created c
      let (response, _) ← driveAndSettle cfg ⟨D, request.principal, c, .started, [], false⟩ entered
      return response) (fun _ _ => True) fun _ _ => True := by
  subst hD
  refine (create_triple hinst).bind fun created => (fetched_triple ?_).mono fun _ _ _ => trivial
  exact .bind (.forSome fun _ => .onlyIf fun _ => .lift bindSpawnIgnored_uses) fun _ =>
    .bind auditRecord_uses fun _ => .bind runOnEnter_works fun _ =>
    .bind (driveAndSettle_governed rfl) fun _ => trivial

theorem start_triple : mon.Triple (fun g => g.1 = .start request) (start cfg request) (fun _ _ => True) fun _ _ => True := by
  have hstarted {α : Type} {x : Fallible α} (hx : UsesE Ungoverned x) :
      mon.Triple (fun g => g.1 = .start request) x (fun _ g => g.1 = .start request) fun _ _ => True :=
    .of_uses (hx.mono fun _ h _ hg _ => ⟨follows_of_ungoverned h, hg⟩) fun _ _ _ => trivial
  have hdefinition : mon.Triple (fun g => g.1 = .start request)
      (ExceptT.mk (Prog.perform (S := Sig) (.definitionGet request.definitionId)) : Fallible Value)
      (fun definition => Fetched request definition) fun _ _ => True := by
    refine Returns.perform fun g r hg _ => ⟨rfl, ?_⟩
    cases r with
    | ok definition => exact ⟨hg, _, mem_append_right _ (.head _)⟩
    | error _ => trivial
  refine (Triple.onlyIf fun _ => .throw fun _ _ => trivial).bind fun _ => (Triple.onlyIf fun _ => .forSome fun _ _ =>
    (hstarted (.perform fun _ => rfl)).bind fun _ => .forSome fun _ _ => .throw fun _ _ => trivial).bind fun _ =>
    hdefinition.bind fun definition => ?_
  have hgoverned {α : Type} {x : Run α} (hx : x.Uses (Governed definition)) :
      mon.Triple (Fetched request definition) (liftM x : Fallible α) (fun _ => Fetched request definition) fun _ _ => True :=
    fetched_triple (.lift hx)
  refine .compute (fun _ _ _ _ => trivial) fun _ _ => (Triple.forSome fun _ _ => .throw fun _ _ => trivial).bind fun _ =>
    .compute (fun _ _ _ _ => trivial) fun _ _ => .compute (fun _ _ _ _ => trivial) fun state _ =>
    .compute (fun _ _ _ _ => trivial) fun version _ => (hgoverned freshId_uses).bind fun id => ?_
  cases hparent : request.parent with
  | none =>
    refine (fetched_triple acquireRunLeases_uses).bind fun env =>
      (hgoverned now_uses).bind fun time => (hgoverned freshId_uses).bind fun c => ?_
    refine created_triple rfl ?_
    exact ⟨hparent.symm, fun _ hlink => by cases hparent.symm.trans hlink⟩
  | some link =>
    -- a child leases nothing, so its environment is the one it was asked for with
    have henv {f : RunEnv → Fallible Response}
        (hf : mon.Triple (Fetched request definition) (f request.runEnv) (fun _ _ => True) fun _ _ => True) :
        mon.Triple (Fetched request definition) (acquireRunLeases cfg definition request.runEnv false >>= f)
          (fun _ _ => True) fun _ _ => True := hf
    refine henv ((hgoverned now_uses).bind fun time => (hgoverned freshId_uses).bind fun c => ?_)
    refine created_triple rfl ?_
    exact ⟨hparent.symm, fun _ _ => rfl⟩

end

theorem get_triple : mon.Triple (fun _ => True) (get cfg workflowId principal) (fun _ _ => True) fun _ _ => True := by
  refine load_triple.bind fun inst => (governed_triple ?_).mono fun _ _ _ => trivial
  split
  · exact .lift response_governed
  refine .bind checkAndApplyTimeout_works fun timedOut => ?_
  cases timedOut <;> exact .lift response_governed

theorem ungoverned_wp (hx : x.Uses Ungoverned) : mon.wp x (fun _ _ => True) (p, []) :=
  (Returns.of_uses (P := fun _ => True) (hx.mono keeps_ungoverned)) (p, []) trivial

theorem triple_wp
    (hx : mon.Triple P x (fun _ _ => True) fun _ _ => True) (hP : P (p, [])) : mon.wp x.run (fun _ _ => True) (p, []) :=
  wp_mono (fun _ _ _ => trivial) (hx (p, []) hP)

theorem body_wp (p : Proc) : mon.wp (body cfg p) (fun _ _ => True) (p, []) := by
  cases p with
  | start request => exact triple_wp start_triple rfl
  | submit request => exact triple_wp submitLoop_triple trivial
  | get workflowId principal => exact triple_wp get_triple trivial
  | runDeterministicChain args => exact triple_wp runDeterministicChain_triple (.driven rfl rfl)
  | cancel workflowId reason => exact ungoverned_wp cancel_uses
  | resumeReadyLocks => exact ungoverned_wp resumeReadyLocks_uses
  | recoverSuspendedLocks => exact ungoverned_wp recoverSuspendedLocks_uses
  | recoverSuspendedSubworkflows => exact ungoverned_wp recoverSuspendedSubworkflows_uses
  | reapOrphanedRuns => exact ungoverned_wp reapOrphanedRuns_works

end Creation

instance (p : Sig.Proc) : Nonempty (Sig.Ret p) := by
  cases p with
  | start _ | submit _ | get _ _ | cancel _ _ | runDeterministicChain _ | reapOrphanedRuns => exact ⟨.error ""⟩
  | resumeReadyLocks | recoverSuspendedLocks | recoverSuspendedSubworkflows => exact ⟨()⟩

theorem callable_of_follows (h : Callable (S := Sig) Follows g q) :
    q.outermost = false ∧ ∀ args, q = .runDeterministicChain args → Seen g args.definition := by
  rcases h with ⟨v, h⟩ | ⟨v, h⟩
  · cases q with
    | runDeterministicChain args =>
      refine ⟨rfl, fun _ hq => ?_⟩
      cases hq
      exact h
    | submit _ | resumeReadyLocks => exact ⟨rfl, nofun⟩
    | _ => exact h.elim
  · cases q with
    | runDeterministicChain args =>
      refine ⟨rfl, fun _ hq => ?_⟩
      cases hq
      exact h
    | _ => exact h.elim

end Praxec
