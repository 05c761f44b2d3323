/- module: NanoVllm/Speculation/Cycle
   layer: refinement
   source: nanovllm/engine/llm_engine.py, _execute_speculative_verified and
     _execute_speculative_shadow
   digest: A speculative cycle fails at a recoverable point, is bypassed, staged or committed. -/

import NanoVllm.Engine.TargetCall
import NanoVllm.Speculation.Protocol
import NanoVllm.Speculation.Recovery

set_option autoImplicit false
set_option relaxedAutoImplicit false

namespace NanoVllm

open Library

variable {cfg : Config} {s t u v w base : State} {rows leased : List (Nat × List Nat)}
  {batch ids : List Nat} {tr : ActiveSpecTransaction}

private theorem Holding.lent_free (h : Holding u ids base leased tr t) :
    ∀ b ∈ lentBlocks leased, b ∈ u.freeBlockIds := by
  intro b hb
  have hmem : b ∈ base.freeBlockIds := by
    rw [h.lease.front] at hb
    exact List.mem_of_mem_take hb
  rw [h.pool.free] at hmem
  exact hmem

/-- Preparing the target writes replaces the lease record and keeps the step recoverable. -/
private theorem Holding.prepare (h : Holding u ids base leased tr t)
    (hnot : tr.targetWritesPrepared = false) :
    prepareSpeculativeTargetWrites tr.plan t = .error .injected (t.withFault none) ∨
    ∃ base' r t', prepareSpeculativeTargetWrites tr.plan t = .ok ⟨⟩ t' ∧
      t'.pendingDraftCoveragePlan = t.pendingDraftCoveragePlan ∧
      Holding u (ids ++ lentBlocks leased) base' leased
        { tr with reservation := r, targetWritesPrepared := true } t' := by
  have hstart : prepareSpeculativeTargetWrites tr.plan t = (do
      let r ← prepareTemporaryTargetWrites tr.reservation
      modify fun t => t.replaceLease tr r : Call Unit) t := by
    unfold prepareSpeculativeTargetWrites
    rw [Call.bind_of_ok (Call.get_apply t), h.transaction]
    dsimp only
    rw [if_neg (by simp), if_neg (by simp [hnot])]
  rw [hstart]
  rcases h.lease.prepare h.ok with hres | ⟨f, hres, hnew⟩
  · left
    exact Call.bind_of_error hres
  · right
    obtain ⟨r, hr⟩ : ∃ r, r = writableRecord tr.reservation := ⟨_, rfl⟩
    rw [← hr] at hres hnew
    obtain ⟨q, hq⟩ : ∃ q : State, q = { t with activeReservation := some r }.withFault f := ⟨_, rfl⟩
    rw [← hq] at hres hnew
    have hopen := hnew.withControl (c := (q.replaceLease tr r).control) (by rw [hq]; rfl)
    refine ⟨((base.wipe (lentBlocks leased)).withFault f).withControl
      { (q.replaceLease tr r).control with activeReservation := none }, r, q.replaceLease tr r,
      (Call.bind_of_ok hres).trans (Call.modify_apply _ _), by rw [hq]; rfl, ?_⟩
    refine ⟨⟨rfl, ?_, ?_⟩, hopen, ?_, rfl, ?_, ?_⟩
    · rw [hq]
      exact h.pending
    · change { q.control with
        activeDraftDiscard := some (tr.plan, r)
        activeSpecTransaction := some { tr with
          reservation := r
          targetWritesPrepared := true } } = _
      rw [hq]
      change { t.control with
        activeReservation := some r
        fault := f
        activeDraftDiscard := some (tr.plan, r)
        activeSpecTransaction := some { tr with
          reservation := r
          targetWritesPrepared := true } } = _
      rw [h.control]
      rfl
    · have hok := h.ok.wipe (lentBlocks leased)
      exact ⟨hok.nodup, hok.zero, hok.indexed⟩
    · have hpool := h.pool.wipe (lentBlocks leased)
      rw [State.wipe_append] at hpool
      exact ⟨hpool.seqs, hpool.blocks, hpool.index, hpool.free, hpool.used⟩
    · intro b hb
      rcases List.mem_append.mp hb with hb | hb
      · exact h.free b hb
      · exact h.lent_free b hb

private theorem Holding.handoff (h : Holding u ids base leased tr t)
    {rollback : List DecodeScheduleRollbackRow} (hr : tr.baselineDecodeRollback = rollback) :
    (∃ e q, handoffDraftDiscard tr.plan t = .error e q ∧ InStep u rollback ids q) ∨
    ∃ q, handoffDraftDiscard tr.plan t = .ok ⟨⟩ q ∧ HandedOff u ids tr q := by
  rcases tick_cases t with ⟨f, htick⟩ | htick
  swap
  · left
    exact ⟨_, _, Call.bind_of_error htick, .holding hr (h.withFault none)⟩
  have h' := h.withFault f
  obtain ⟨q, hq⟩ : ∃ q, q = t.withFault f := ⟨_, rfl⟩
  rw [← hq] at htick h'
  have hstart : handoffDraftDiscard tr.plan t = _ := (Call.bind_of_ok htick).trans
    (Call.bind_of_ok (Call.get_apply q))
  rw [hstart]
  cases hchecks : handoffChecks q tr.plan with
  | error e =>
    left
    exact ⟨e, q, Call.bind_of_error (liftExcept_error e q), .holding hr h'⟩
  | ok a =>
    have hand := h'.handed
    rw [Call.bind_of_ok (liftExcept_ok a q),
      Call.bind_of_ok (h'.lease.rollbackDiscard h'.ok h'.discard), if_pos rfl]
    obtain ⟨p, hp⟩ : ∃ p, p = (base.withFault f).withoutDiscard := ⟨_, rfl⟩
    rw [← hp] at hand ⊢
    rcases tick_cases p with ⟨g, hlast⟩ | hlast
    swap
    · left
      exact ⟨_, _, Call.bind_of_error hlast, .handedOff hr (hand.withFault none)⟩
    right
    have hand' := hand.withFault g
    refine ⟨{ p.withFault g with
      pendingDraftCoveragePlan := some tr.plan
      pendingDraftCoverage := none }, (Call.bind_of_ok hlast).trans (Call.modify_apply _ _), ?_⟩
    refine ⟨⟨hand'.transaction, Or.inr rfl, ?_⟩, hand'.reservation, hand'.discard,
      ⟨hand'.pool.seqs, hand'.pool.blocks, hand'.pool.index, hand'.pool.free, hand'.pool.used⟩,
      hand'.free⟩
    change { (p.withFault g).control with
      pendingDraftCoveragePlan := some tr.plan
      pendingDraftCoverage := none } = _
    rw [hand'.control]

private theorem stageRow_ok {plan : SpecStepPlan} {coverage : List (Nat × Nat)} {x : Nat}
    (h : stageRow t plan coverage x = .ok ⟨⟩) : coverageOf coverage x = (t.seqs x).numTokens := by
  unfold stageRow at h
  split at h
  · rename_i row _ supplied _ hfound
    obtain ⟨hsupplied, h⟩ := Call.except_guard h
    obtain ⟨-, h⟩ := Call.except_guard h
    obtain ⟨hlength, -⟩ := Call.except_guard h
    have hcov : coverageOf coverage x = supplied := by
      unfold coverageOf
      rw [hfound]
      rfl
    rw [hcov, not_not.mp hsupplied, not_not.mp hlength]
  · exact absurd h (by simp [throw, throwThe, MonadExceptOf.throw])

private theorem stageChecks_ok {plan : SpecStepPlan} {coverage : List (Nat × Nat)}
    (h : stageChecks t plan batch coverage = .ok ⟨⟩) :
    t.pendingDraftCoveragePlan = some plan ∧ batch = plan.rows.map SpecPlanRow.seqId ∧
      ∀ x ∈ batch, coverageOf coverage x = (t.seqs x).numTokens := by
  unfold stageChecks at h
  obtain ⟨-, h⟩ := Call.except_guard h
  obtain ⟨-, h⟩ := Call.except_guard h
  obtain ⟨hpend, h⟩ := Call.except_guard h
  obtain ⟨-, h⟩ := Call.except_guard h
  obtain ⟨hbatch, h⟩ := Call.except_guard h
  obtain ⟨-, h⟩ := Call.except_guard h
  exact ⟨not_not.mp hpend, not_not.mp hbatch,
    fun x hx => stageRow_ok (Call.except_forM_ok h x hx)⟩

private theorem HandedOff.numTokens (h : HandedOff u ids tr t) (x : Nat) :
    (t.seqs x).numTokens = (u.seqs x).numTokens :=
  congrArg Sequence.numTokens (congrFun h.pool.seqs x)

private theorem HandedOff.stage (h : HandedOff u ids tr t) {rollback : List DecodeScheduleRollbackRow}
    (hr : tr.baselineDecodeRollback = rollback) (batch : List Nat) (coverage : List (Nat × Nat)) :
    (∃ e q, stageDraftCoverage tr.plan batch coverage t = .error e q ∧ InStep u rollback ids q) ∨
    ∃ q, stageDraftCoverage tr.plan batch coverage t = .ok ⟨⟩ q ∧ HandedOff u ids tr q ∧
      q.pendingDraftCoveragePlan = some tr.plan ∧
      q.pendingDraftCoverage = some (batch.map fun x => (x, (u.seqs x).numTokens)) := by
  rcases tick_cases t with ⟨f, htick⟩ | htick
  swap
  · left
    exact ⟨_, _, Call.bind_of_error htick, .handedOff hr (h.withFault none)⟩
  have h' := h.withFault f
  obtain ⟨q, hq⟩ : ∃ q, q = t.withFault f := ⟨_, rfl⟩
  rw [← hq] at htick h'
  have hstart : stageDraftCoverage tr.plan batch coverage t = _ := (Call.bind_of_ok htick).trans
    (Call.bind_of_ok (Call.get_apply q))
  rw [hstart]
  cases hchecks : stageChecks q tr.plan batch coverage with
  | error e =>
    left
    exact ⟨e, q, Call.bind_of_error (liftExcept_error e q), .handedOff hr h'⟩
  | ok a =>
    right
    obtain ⟨hpend, hbatch, hcover⟩ := stageChecks_ok hchecks
    have hstaged : (tr.plan.rows.map SpecPlanRow.seqId).map
        (fun x => (x, coverageOf coverage x)) = batch.map fun x => (x, (u.seqs x).numTokens) := by
      rw [← hbatch]
      refine List.map_congr_left fun x hx => ?_
      rw [hcover x hx, h'.numTokens]
    rw [hstaged, Call.bind_of_ok (liftExcept_ok a q)]
    refine ⟨_, rfl, ⟨⟨h'.transaction, h'.pending, ?_⟩, h'.reservation, h'.discard,
      ⟨h'.pool.seqs, h'.pool.blocks, h'.pool.index, h'.pool.free, h'.pool.used⟩, h'.free⟩,
      hpend, rfl⟩
    change { q.control with
      pendingDraftCoverage := some (batch.map fun x => (x, (u.seqs x).numTokens)) } = _
    rw [h'.control]

def Leases (cfg : Config) (u : State) (tr : ActiveSpecTransaction)
    (leased : List (Nat × List Nat)) : Prop :=
  ∃ base r t, Opened cfg u u.running tr.plan tr.baselineDecodeRollback base leased r t

/-- The transaction `tr` on the batch of `u` is prepared for its verification in `q`. -/
structure Verifying (cfg : Config) (u : State) (rollback : List DecodeScheduleRollbackRow)
    (ids : List Nat) (base : State) (leased : List (Nat × List Nat)) (tr : ActiveSpecTransaction)
    (q : State) : Prop where
  record : tr.baselineDecodeRollback = rollback
  opened : Leases cfg u tr leased
  holding : Holding u ids base leased tr q
  prepared : ∀ b ∈ lentBlocks leased, b ∈ ids
  pending : q.pendingDraftCoveragePlan = none
  protocol : Protocol cfg u → Protocol cfg q

/-- How the speculative part of a step on the batch of `u` ends, with the plan it verified and
the state it did so in. -/
inductive CycleEnd (cfg : Config) (u : State) (rollback : List DecodeScheduleRollbackRow)
    (answers : StepAnswers) : Option (SpecStepPlan × State) →
    EStateM.Result Raised State (Option (List StreamOutput) × Option SpecStepPlan) → Prop
  | failed {ids : List Nat} {e : Raised} {t : State} (h : InStep u rollback ids t) :
      CycleEnd cfg u rollback answers none (.error e t)
  | rejected {ids : List Nat} {base : State} {leased : List (Nat × List Nat)}
      {tr : ActiveSpecTransaction} {q t : State} {e : Raised}
      (h : Verifying cfg u rollback ids base leased tr q) (hin : InStep u rollback ids t) :
      CycleEnd cfg u rollback answers (some (tr.plan, q)) (.error e t)
  | bypassed {t : State} (h : Untouched u t) :
      CycleEnd cfg u rollback answers none (.ok (none, none) t)
  | staged {ids : List Nat} {tr : ActiveSpecTransaction} {leased : List (Nat × List Nat)}
      {t : State} (hr : tr.baselineDecodeRollback = rollback) (hopen : Leases cfg u tr leased)
      (h : HandedOff u ids tr t) (hpend : t.pendingDraftCoveragePlan = some tr.plan)
      (hcover : t.pendingDraftCoverage =
        some (u.running.map fun x => (x, (u.seqs x).numTokens))) :
      CycleEnd cfg u rollback answers none (.ok (none, some tr.plan) t)
  | committed {ids : List Nat} {base : State} {leased : List (Nat × List Nat)}
      {tr : ActiveSpecTransaction} {q t : State} {result : SpecExecutionResult}
      {events : List StreamOutput} (h : Verifying cfg u rollback ids base leased tr q)
      (hrun : answers.runSpeculative tr.plan = .ok result)
      (hcommit : commitSpeculative cfg tr.plan result q = .ok events t)
      (hobs : answers.observe = .ok ⟨⟩) :
      CycleEnd cfg u rollback answers (some (tr.plan, q)) (.ok (some events, none) t)
  | unobserved {ids : List Nat} {base : State} {leased : List (Nat × List Nat)}
      {tr : ActiveSpecTransaction} {q t : State} {result : SpecExecutionResult}
      {events : List StreamOutput} {e : Raised} (h : Verifying cfg u rollback ids base leased tr q)
      (hrun : answers.runSpeculative tr.plan = .ok result)
      (hcommit : commitSpeculative cfg tr.plan result q = .ok events t)
      (hobs : answers.observe = .error e) :
      CycleEnd cfg u rollback answers (some (tr.plan, q)) (.error e t)

variable {q : State} {rollback : List DecodeScheduleRollbackRow}

theorem executeSpeculativeVerified_eq (cfg : Config) (answers : StepAnswers) (batch : List Nat)
    (rollback : Option (List DecodeScheduleRollbackRow)) :
    executeSpeculativeVerified cfg answers batch rollback = (do
      match ← verifiedStart cfg answers batch rollback with
      | none => pure none
      | some plan => some <$> verifiedFinish cfg answers plan) := by
  unfold executeSpeculativeVerified verifiedStart verifiedFinish
  rw [bind_assoc]
  congr 1
  funext decision
  cases decision with
  | none => simp
  | some admission =>
    simp only [bind_assoc, map_bind, map_pure]
    congr 1
    funext plan
    split
    · simp only [bind_assoc, pure_bind]
    · simp only [pure_bind]

/-- The start of a verified cycle fails, is bypassed, or prepares its transaction. -/
private theorem verifiedStart_cases (hg : Grown cfg v rows batch u) (hun : u.Unheld)
    (hcore : Core cfg [] u) (hne : batch ≠ []) (answers : StepAnswers) :
    (∃ e t ids, verifiedStart cfg answers batch (captureDecodeScheduleRollback cfg u batch false) u =
      .error e t ∧ InStep u (batch.map (undoRow cfg v)) ids t) ∨
    (∃ t, verifiedStart cfg answers batch (captureDecodeScheduleRollback cfg u batch false) u =
      .ok none t ∧ Untouched u t) ∨
    ∃ ids base leased tr q,
      verifiedStart cfg answers batch (captureDecodeScheduleRollback cfg u batch false) u =
        .ok (some tr.plan) q ∧
      Verifying cfg u (batch.map (undoRow cfg v)) ids base leased tr q := by
  unfold verifiedStart
  cases hadm : verifiedAdmission answers with
  | error e =>
    exact Or.inl ⟨e, u, [], Call.bind_of_error (liftExcept_error e u), .untouched (.refl u)⟩
  | ok decision =>
    rw [Call.bind_of_ok (liftExcept_ok decision u)]
    cases decision with
    | none => exact Or.inr (Or.inl ⟨u, rfl, .refl u⟩)
    | some admission =>
      dsimp only
      have hleaves := fun hu : Protocol cfg u => (hu.leaves_plan answers.workspace batch admission
        (captureDecodeScheduleRollback cfg u batch false)).1
      rcases planSpeculativeStep_cases cfg hun.reservation hun.progress hun.internal
          hcore.own.poolOk answers.workspace batch admission
          (captureDecodeScheduleRollback cfg u batch false) with
        ⟨e, t, hplan, ht⟩ | ⟨plan, t, hplan, hzero, ht⟩ |
        ⟨plan, rollback, base, leased, r, t, hplan, hopen⟩
      · exact Or.inl ⟨e, t, [], Call.bind_of_error hplan, .untouched ht⟩
      · refine Or.inr (Or.inl ⟨t, ?_, ht⟩)
        rw [Call.bind_of_ok hplan, if_neg (by simp [SpecStepPlan.usesSpeculation, hzero])]
        rfl
      · have huses : plan.usesSpeculation = true := by
          simpa [SpecStepPlan.usesSpeculation] using hopen.positive
        have hroll : rollback = batch.map (undoRow cfg v) := by
          have hcap := hopen.capture
          rw [hg.capture hne] at hcap
          exact (Option.some.inj hcap).symm
        have hold := hopen.holding hun hcore
        rw [hplan] at hleaves
        rw [Call.bind_of_ok hplan, if_pos huses]
        rcases hold.prepare rfl with hres | ⟨base', r', q, hres, hqpend, hq⟩
        · refine Or.inl ⟨_, _, _, Call.bind_of_error hres, .holding hroll (hold.withFault none)⟩
        obtain ⟨tr, htr⟩ : ∃ tr : ActiveSpecTransaction, tr = ⟨plan, r', rollback, true⟩ := ⟨_, rfl⟩
        have hplan' : plan = tr.plan := by rw [htr]
        have hverify : Verifying cfg u (batch.map (undoRow cfg v)) ([] ++ lentBlocks leased) base'
            leased tr q := by
          refine ⟨by rw [htr, hroll], ?_, htr ▸ hq, fun b hb => by simpa using hb,
            hqpend.trans (hopen.pending hun), fun hu => ?_⟩
          · refine ⟨base, r, t, ?_⟩
            rw [hopen.running, htr]
            exact hopen
          · have hprepare := (hleaves hu).leaves_prepare plan
            have hafter : Protocol cfg (Call.after (prepareSpeculativeTargetWrites plan t)) :=
              hprepare.1
            rwa [show prepareSpeculativeTargetWrites plan t = .ok ⟨⟩ q from hres] at hafter
        rw [Call.bind_of_ok hres]
        cases hrng : answers.snapshotRng with
        | error e =>
          exact Or.inl ⟨e, q, _, Call.bind_of_error (liftExcept_error e q),
            .holding hverify.record hverify.holding⟩
        | ok a =>
          refine Or.inr (Or.inr ⟨_, base', leased, tr, q, ?_, hverify⟩)
          rw [Call.bind_of_ok (liftExcept_ok a q), hplan']
          rfl

private theorem Verifying.finish (h : Verifying cfg u rollback ids base leased tr q) (hun : u.Unheld)
    (hcore : Core cfg [] u) (answers : StepAnswers) :
    CycleEnd cfg u rollback answers (some (tr.plan, q)) ((do
      let events ← some <$> verifiedFinish cfg answers tr.plan
      pure (events, none) : Call (Option (List StreamOutput) × Option SpecStepPlan)) q) := by
  have hprog : q.reservationInProgress = false :=
    (congrArg Control.reservationInProgress h.holding.control).trans hun.progress
  have hint : q.internalAllocation = false :=
    (congrArg Control.internalAllocation h.holding.control).trans hun.internal
  have hmap : ∀ {e : Raised} {t : State}, verifiedFinish cfg answers tr.plan q = .error e t →
      (some <$> verifiedFinish cfg answers tr.plan : Call (Option (List StreamOutput))) q =
        .error e t := by
    intro e t hres
    rw [map_eq_pure_bind]
    exact Call.bind_of_error hres
  have hfail : ∀ {e : Raised} {t : State}, verifiedFinish cfg answers tr.plan q = .error e t →
      InStep u rollback ids t → CycleEnd cfg u rollback answers (some (tr.plan, q)) ((do
        let events ← some <$> verifiedFinish cfg answers tr.plan
        pure (events, none) : Call (Option (List StreamOutput) × Option SpecStepPlan)) q) := by
    intro e t hres hin
    rw [Call.bind_of_error (hmap hres)]
    exact .rejected h hin
  cases hspec : answers.runSpeculative tr.plan with
  | error e =>
    refine hfail (e := e) ?_ (.holding h.record h.holding)
    unfold verifiedFinish
    rw [hspec]
    exact Call.bind_of_error (liftExcept_error e q)
  | ok result =>
    have hstart : verifiedFinish cfg answers tr.plan q = (do
        let events ← commitSpeculative cfg tr.plan result
        liftExcept answers.observe
        pure events : Call (List StreamOutput)) q := by
      unfold verifiedFinish
      rw [hspec]
      exact Call.bind_of_ok (liftExcept_ok result q)
    rcases commitSpeculative_cases tr.plan result h.holding.lease (h.holding.core hcore)
        h.holding.transaction hprog hint with ⟨e, f, hcommit⟩ | ⟨events, p, hcommit, -⟩
    · exact hfail (hstart.trans (Call.bind_of_error hcommit))
        (.holding h.record (h.holding.withFault f))
    · rw [Call.bind_of_ok hcommit] at hstart
      cases hobs : answers.observe with
      | error e =>
        rw [hobs] at hstart
        rw [Call.bind_of_error (hmap (hstart.trans (Call.bind_of_error (liftExcept_error e p))))]
        exact .unobserved h hspec hcommit hobs
      | ok b =>
        rw [hobs, Call.bind_of_ok (liftExcept_ok b p)] at hstart
        have hdone : (some <$> verifiedFinish cfg answers tr.plan :
            Call (Option (List StreamOutput))) q = .ok (some events) p := by
          rw [map_eq_pure_bind]
          exact Call.bind_of_ok hstart
        rw [Call.bind_of_ok hdone]
        exact .committed h hspec hcommit hobs

def verifiedCall (cfg : Config) (answers : StepAnswers) (batch : List Nat)
    (rollback : Option (List DecodeScheduleRollbackRow)) (u : State) :
    Option (SpecStepPlan × State) :=
  match verifiedStart cfg answers batch rollback u with
  | .ok (some plan) q => some (plan, q)
  | _ => none

private theorem verified_end (hg : Grown cfg v rows batch u) (hun : u.Unheld) (hcore : Core cfg [] u)
    (hne : batch ≠ []) (answers : StepAnswers) :
    CycleEnd cfg u (batch.map (undoRow cfg v)) answers
      (verifiedCall cfg answers batch (captureDecodeScheduleRollback cfg u batch false) u) ((do
        let events ← executeSpeculativeVerified cfg answers batch
          (captureDecodeScheduleRollback cfg u batch false)
        pure (events, none) : Call (Option (List StreamOutput) × Option SpecStepPlan)) u) := by
  obtain ⟨start, hstart⟩ : ∃ start, start = verifiedStart cfg answers batch
    (captureDecodeScheduleRollback cfg u batch false) := ⟨_, rfl⟩
  have hcases := verifiedStart_cases hg hun hcore hne answers
  rw [executeSpeculativeVerified_eq, bind_assoc]
  unfold verifiedCall
  rw [← hstart] at hcases ⊢
  rcases hcases with ⟨e, t, ids, hres, hin⟩ | ⟨t, hres, ht⟩ |
    ⟨ids, base, leased, tr, q, hres, hverify⟩
  · rw [hres, Call.bind_of_error hres]
    exact .failed hin
  · rw [hres, Call.bind_of_ok hres]
    exact .bypassed ht
  · rw [hres, Call.bind_of_ok hres]
    exact hverify.finish hun hcore answers

/-- From the open transaction a shadow cycle fails at a recoverable point or is staged. -/
private theorem Holding.shadow (h : Holding u ids base leased tr t) (hopen : Leases cfg u tr leased)
    (hr : tr.baselineDecodeRollback = rollback) (answers : StepAnswers) :
    CycleEnd cfg u rollback answers none ((do
      let draftCycle ← (do
        let coverage ← liftExcept (answers.runDiscard tr.plan)
        handoffDraftDiscard tr.plan
        stageDraftCoverage tr.plan u.running coverage
        pure (some tr.plan) : Call (Option SpecStepPlan))
      pure (none, draftCycle) : Call (Option (List StreamOutput) × Option SpecStepPlan)) t) := by
  obtain ⟨body, hbody⟩ : ∃ body : Call (Option SpecStepPlan), body = (do
      let coverage ← liftExcept (answers.runDiscard tr.plan)
      handoffDraftDiscard tr.plan
      stageDraftCoverage tr.plan u.running coverage
      pure (some tr.plan)) := ⟨_, rfl⟩
  rw [← hbody]
  have hfail : ∀ {e : Raised} {q : State}, body t = .error e q → InStep u rollback ids q →
      CycleEnd cfg u rollback answers none ((do
        let draftCycle ← body
        pure (none, draftCycle) : Call (Option (List StreamOutput) × Option SpecStepPlan)) t) := by
    intro e q hres hin
    rw [Call.bind_of_error hres]
    exact .failed hin
  cases hdiscard : answers.runDiscard tr.plan with
  | error e =>
    rw [hdiscard] at hbody
    exact hfail (hbody ▸ Call.bind_of_error (liftExcept_error e t)) (.holding hr h)
  | ok coverage =>
    rw [hdiscard] at hbody
    have hstart : body t = _ := hbody ▸ Call.bind_of_ok (liftExcept_ok coverage t)
    rcases h.handoff hr with ⟨e, q, hres, hin⟩ | ⟨q, hres, hq⟩
    · exact hfail (hstart.trans (Call.bind_of_error hres)) hin
    rw [Call.bind_of_ok hres] at hstart
    rcases hq.stage hr u.running coverage with ⟨e, p, hres, hin⟩ | ⟨p, hres, hp, hpend, hcover⟩
    · exact hfail (hstart.trans (Call.bind_of_error hres)) hin
    rw [Call.bind_of_ok hres] at hstart
    rw [Call.bind_of_ok (hstart.trans (Call.pure_apply _ p))]
    exact .staged hr hopen hp hpend hcover

private theorem shadow_end (hg : Grown cfg v rows batch u) (hun : u.Unheld) (hcore : Core cfg [] u)
    (hne : batch ≠ []) (answers : StepAnswers) :
    CycleEnd cfg u (batch.map (undoRow cfg v)) answers none ((do
      let draftCycle ← executeSpeculativeShadow cfg answers batch
        (captureDecodeScheduleRollback cfg u batch false)
      pure (none, draftCycle) : Call (Option (List StreamOutput) × Option SpecStepPlan)) u) := by
  obtain ⟨call, hcall⟩ : ∃ call, call = executeSpeculativeShadow cfg answers batch
    (captureDecodeScheduleRollback cfg u batch false) := ⟨_, rfl⟩
  rw [← hcall]
  have hfail : ∀ {e : Raised} {t : State} {ids : List Nat}, call u = .error e t →
      InStep u (batch.map (undoRow cfg v)) ids t → CycleEnd cfg u (batch.map (undoRow cfg v))
        answers none ((do
          let draftCycle ← call
          pure (none, draftCycle) :
            Call (Option (List StreamOutput) × Option SpecStepPlan)) u) := by
    intro e t ids hres hin
    rw [Call.bind_of_error hres]
    exact .failed hin
  cases hadm : answers.resolveRoutes with
  | error e =>
    refine hfail (e := e) (t := u) ?_ (.untouched (.refl u))
    rw [hcall]
    unfold executeSpeculativeShadow
    rw [hadm]
    exact Call.bind_of_error (liftExcept_error e u)
  | ok admission =>
    have hstart : call u = (do
        let plan ← planSpeculativeStep cfg answers.workspace batch admission
          (captureDecodeScheduleRollback cfg u batch false)
        if plan.usesSpeculation then
          let coverage ← liftExcept (answers.runDiscard plan)
          handoffDraftDiscard plan
          stageDraftCoverage plan batch coverage
          pure (some plan)
        else pure none : Call (Option SpecStepPlan)) u := by
      rw [hcall]
      unfold executeSpeculativeShadow
      rw [hadm, Call.bind_of_ok (liftExcept_ok _ u)]
    rcases planSpeculativeStep_cases cfg hun.reservation hun.progress hun.internal
        hcore.own.poolOk answers.workspace batch admission
        (captureDecodeScheduleRollback cfg u batch false) with
      ⟨e, t, hplan, ht⟩ | ⟨plan, t, hplan, hzero, ht⟩ |
      ⟨plan, rollback, base, leased, r, t, hplan, hopen⟩
    · refine hfail (e := e) ?_ (.untouched ht)
      rw [hstart]
      exact Call.bind_of_error hplan
    · have hskip : call u = .ok none t := by
        rw [hstart, Call.bind_of_ok hplan]
        simp [SpecStepPlan.usesSpeculation, hzero]
      rw [Call.bind_of_ok hskip]
      exact .bypassed ht
    · have huses : plan.usesSpeculation = true := by
        simpa [SpecStepPlan.usesSpeculation] using hopen.positive
      have hroll : rollback = batch.map (undoRow cfg v) := by
        have hcap := hopen.capture
        rw [hg.capture hne] at hcap
        exact (Option.some.inj hcap).symm
      have hopened : call u = (do
          let coverage ← liftExcept (answers.runDiscard plan)
          handoffDraftDiscard plan
          stageDraftCoverage plan u.running coverage
          pure (some plan) : Call (Option SpecStepPlan)) t := by
        rw [hstart, Call.bind_of_ok hplan, if_pos huses, hopen.running]
      have hleases : Leases cfg u ⟨plan, r, rollback, false⟩ leased := by
        refine ⟨base, r, t, ?_⟩
        rw [hopen.running]
        exact hopen
      have hend := (hopen.holding hun hcore).shadow hleases rfl answers
      rw [hroll] at hend
      rw [Call.bind_apply, hopened]
      exact hend

theorem speculation_end (hg : Grown cfg v rows batch u) (hun : u.Unheld) (hcore : Core cfg [] u)
    (hne : batch ≠ []) (hspec : cfg.speculationEnabled = true) (answers : StepAnswers) :
    CycleEnd cfg u (batch.map (undoRow cfg v)) answers
      (if answers.verifierReady then verifiedCall cfg answers batch
        (captureDecodeScheduleRollback cfg u batch false) u else none)
      (executeSpeculation cfg answers batch false
        (captureDecodeScheduleRollback cfg u batch false) u) := by
  unfold executeSpeculation
  simp only [hspec, Bool.not_true, Bool.or_self, Bool.false_eq_true, ↓reduceIte]
  split
  · exact verified_end hg hun hcore hne answers
  · exact shadow_end hg hun hcore hne answers

end NanoVllm
