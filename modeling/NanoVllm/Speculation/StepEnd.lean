/- module: NanoVllm/Speculation/StepEnd
   layer: refinement
   source: nanovllm/engine/llm_engine.py, _step_unlocked after its schedule
   digest: A step on a decode batch is undone, or commits and leaves the queues at rest. -/

import NanoVllm.Scheduling.Rest
import NanoVllm.Speculation.Cycle
import NanoVllm.Runs.Turns

set_option autoImplicit false
set_option relaxedAutoImplicit false

namespace NanoVllm

open Library

variable {cfg : Config} {s t u v q base : State} {rows leased : List (Nat × List Nat)}
  {batch ids tokenIds : List Nat} {tr : ActiveSpecTransaction} {answers : StepAnswers} {x : Nat}

private theorem Staged.recast (h : Staged cfg [] batch s) (hseqs : ∀ x, (t.seqs x) = s.seqs x)
    (hrun : t.running = s.running) (hwait : t.waiting = s.waiting) : Staged cfg [] batch t := by
  have hfun : t.seqs = s.seqs := funext hseqs
  refine ⟨?_, ?_, ?_, ?_, ?_, h.distinct⟩
  · rw [hrun, hfun]
    exact h.running
  · rw [hwait, hfun]
    exact h.waiting
  · rw [hrun, hwait]
    exact h.room
  · rw [hrun, hwait, hfun]
    exact h.busy
  · rw [hrun, hwait, hfun]
    exact h.idle

def State.Covers (s : State) (batch : List Nat) : Prop :=
  s.pendingDraftCoveragePlan ≠ none → ∀ x ∈ batch, (s.seqs x).Complete ∧
    coverageOf (s.pendingDraftCoverage.getD []) x = (s.seqs x).numTokens

private theorem coverageOf_map (f : Nat → Nat) (hx : x ∈ batch) :
    coverageOf ((some (batch.map fun x => (x, f x))).getD []) x = f x := by
  have hfind : (batch.map fun x => (x, f x)).find? (fun e => e.1 = x) = some (x, f x) := by
    rw [List.find?_map]
    have hfirst : batch.find? ((fun e : Nat × Nat => decide (e.1 = x)) ∘ fun x => (x, f x)) =
        some x := by
      obtain ⟨y, hy⟩ : ∃ y, batch.find? (fun y => decide (y = x)) = some y := by
        rw [← Option.isSome_iff_exists, List.find?_isSome]
        exact ⟨x, hx, by simp⟩
      have hyx : y = x := by simpa using List.find?_some hy
      rw [hyx] at hy
      exact hy
    rw [hfirst]
    rfl
  unfold coverageOf
  rw [Option.getD_some, hfind]
  rfl

/-- `postprocess` refuses the tokens and changes nothing, or commits every row and brings
the queues to rest. -/
theorem Staged.postprocess_cases (h : Staged cfg [] batch s) (hp : Protocol cfg s)
    (hdis : s.activeDraftDiscard = none) (hcover : s.Covers batch) (tokenIds : List Nat) :
    (∃ e, postprocess cfg batch tokenIds s = .error e s) ∨
    (tokenIds.length = batch.length ∧ (∀ tokenId ∈ tokenIds, inVocabulary cfg tokenId = true) ∧
      postprocess cfg batch tokenIds s =
        .ok (State.rowsEvents cfg s (batch.zip tokenIds))
          ((State.postRows cfg s (batch.zip tokenIds)).closeHandoff s batch) ∧
      ((State.postRows cfg s (batch.zip tokenIds)).closeHandoff s batch).Settled cfg) := by
  have hq := hp.quiet hdis
  obtain ⟨-, hcore⟩ := hp.idle hdis
  unfold postprocess
  rw [Call.bind_of_ok (Call.get_apply s)]
  cases hchecks : postprocessChecks cfg s batch tokenIds with
  | error e => exact Or.inl ⟨e, Call.bind_of_error (liftExcept_error e s)⟩
  | ok a =>
    right
    have hready := postprocessChecks_ok hchecks
    have hlen := hready.length
    have hfst : (batch.zip tokenIds).map Prod.fst = batch := List.map_fst_zip hlen.ge
    have hnd : ((batch.zip tokenIds).map Prod.fst).Nodup := by
      rw [hfst]
      exact h.distinct
    have hout : ∀ row ∈ batch.zip tokenIds, s.Out cfg row.1 := fun row hrow =>
      h.out (List.of_mem_zip hrow).1
    obtain ⟨hrows, hcore', hctl⟩ := hcore.postprocessRows_served hnd hq
      fun row hrow => (hout row hrow).served
    obtain ⟨p, hpost⟩ : ∃ p, p = State.postRows cfg s (batch.zip tokenIds) := ⟨_, rfl⟩
    have hrest : Awaiting cfg [] p := by
      rw [hpost]
      exact Awaiting.postRows hnd (by rw [hfst]; exact h.awaiting) hcore hq hout
    rw [← hpost] at hrows hcore' hctl ⊢
    have hquiet := hctl.quiet hq
    have hclose := p.closeHandoff_control s batch
    have hrest' : Awaiting cfg [] (p.closeHandoff s batch) := by
      refine hrest.closeHandoff fun hpend x hx hrun => ?_
      obtain ⟨hfull, hlength⟩ := hcover hpend x hx
      rw [hlength]
      have hx' : x ∈ (batch.zip tokenIds).map Prod.fst := by rwa [hfst]
      have hcached := State.postRows_cached cfg hnd hx' hfull
      rw [← hpost] at hcached
      rcases hcached with hfin | hcached
      · rw [hfin] at hrun
        exact absurd hrun (by simp)
      · exact hcached.ge
    refine ⟨hlen, hready.vocabulary, ?_, ⟨⟨?_, ?_, ?_, ?_⟩, hcore'.closeHandoff s batch⟩,
      hrest'.staged⟩
    · rw [Call.bind_of_ok (liftExcept_ok a s), Call.bind_of_ok hrows,
        Call.bind_of_ok (Call.modify_apply _ _)]
      rfl
    · exact ⟨(congrArg Control.activeReservation hclose).trans hquiet.reservation,
        (congrArg Control.reservationInProgress hclose).trans hquiet.progress,
        (congrArg Control.internalAllocation hclose).trans hquiet.internal,
        (congrArg Control.fault hclose).trans hquiet.fault⟩
    · refine (congrArg Control.activeSpecTransaction hclose).trans ?_
      change (if s.activeSpecTransaction.isSome then none else p.activeSpecTransaction) = none
      split
      · rfl
      · rename_i hnone
        rw [show p.activeSpecTransaction = s.activeSpecTransaction from
          congrArg Control.activeSpecTransaction hctl]
        simpa using hnone
    · exact (congrArg Control.activeDraftDiscard hclose).trans
        ((congrArg Control.activeDraftDiscard hctl).trans hdis)
    · refine (congrArg Control.pendingDraftCoveragePlan hclose).trans ?_
      change (if s.pendingDraftCoveragePlan.isSome then none else p.pendingDraftCoveragePlan) = none
      split
      · rfl
      · rename_i hnone
        rw [show p.pendingDraftCoveragePlan = s.pendingDraftCoveragePlan from
          congrArg Control.pendingDraftCoveragePlan hctl]
        simpa using hnone

structure Committed (cfg : Config) (base : State) (leased : List (Nat × List Nat))
    (tr : ActiveSpecTransaction) (q : State) (result : SpecExecutionResult)
    (prepared : List PreparedRow) (desired : List (TemporaryReservationRow × Nat)) (t : State) :
    Prop where
  committable : Committable cfg q tr tr.plan result prepared
  desired_ok : desiredRetention tr.reservation
    (List.zipWith (keepCount cfg) prepared tr.reservation.rows) = .ok desired
  after : t = ((base.lend (keptRows desired)).commitAll cfg prepared).closeTransaction

private theorem Holding.commit_settled (h : Holding u ids base leased tr q)
    (hst : Staged cfg [] u.running u) (hcore : Core cfg [] u) (hp : Protocol cfg q)
    (hpend : q.pendingDraftCoveragePlan = none) {result : SpecExecutionResult}
    {events : List StreamOutput} (hcommit : commitSpeculative cfg tr.plan result q = .ok events t) :
    ∃ prepared desired, Committed cfg base leased tr q result prepared desired t ∧
      events = State.commitEvents cfg (base.lend (keptRows desired)) prepared ∧
      prepared.map PreparedRow.sequence = u.running ∧ t.Settled cfg := by
  have hbase := h.core hcore
  have hctl : ∀ {α : Type} (f : Control → α),
      f base.control = f { q.control with activeReservation := none } :=
    fun f => congrArg f h.lease.control
  have hleaves := (hp.leaves_commit tr.plan result).1
  rw [hcommit] at hleaves
  have hpt : Protocol cfg t := hleaves
  rcases commitSpeculative_cases tr.plan result h.lease hbase h.transaction hp.progress hp.internal
    with ⟨e, f, hres⟩ | ⟨events', t', hres, hquiet⟩
  · rw [hcommit] at hres
    exact absurd hres (by simp)
  rw [hcommit] at hres
  obtain ⟨rfl, rfl⟩ := EStateM.Result.ok.inj hres
  obtain ⟨prepared, desired, hc, hdes, hev, hafter⟩ := hquiet hp.fault
  have hqrun : q.running = u.running := congrArg Control.running h.control
  have hseq : prepared.map PreparedRow.sequence = u.running := by
    rw [hc.distinct h.lease, ← h.lease.sequences, hc.lease, hqrun]
  obtain ⟨w, hw⟩ : ∃ w, w = base.lend (keptRows desired) := ⟨_, rfl⟩
  have hbrun : base.running = u.running := (hctl Control.running).trans hqrun
  have hbwait : base.waiting = u.waiting :=
    (hctl Control.waiting).trans (congrArg Control.waiting h.control)
  have hrow : ∀ x, w.seqs x = { u.seqs x with
      blockTable := (u.seqs x).blockTable ++ lentTo (keptRows desired) x } := by
    intro x
    have hpool : base.seqs x = u.seqs x := congrFun h.pool.seqs x
    rw [hw]
    change { base.seqs x with
      blockTable := (base.seqs x).blockTable ++ lentTo (keptRows desired) x } = _
    rw [hpool]
  have hwrun : w.running = u.running := by
    rw [hw]
    exact hbrun
  have hwwait : w.waiting = u.waiting := by
    rw [hw]
    exact hbwait
  have hwcore : Core cfg [] w := by
    rw [hw]
    apply h.lease.kept_core hbase (desiredRetention_ok hdes).1
    intro e he
    rw [hbrun, ← hseq, hc.distinct h.lease]
    exact List.mem_map_of_mem he
  have hbursts : Bursts cfg w prepared := by
    rw [hw]
    exact hc.bursts h.lease hbase hdes
  -- Rows outside the batch wait, and no block was lent to them.
  have hawait : Awaiting cfg (prepared.map PreparedRow.sequence) w := by
    have hplain : ∀ x ∈ w.running ++ w.waiting, x ∉ prepared.map PreparedRow.sequence →
        w.seqs x = u.seqs x := by
      intro x _ hout
      have hnil : lentTo (keptRows desired) x = [] := by
        apply lentTo_eq_nil
        rw [keptRows_fst, (desiredRetention_ok hdes).1, hc.lease, hqrun, ← hseq]
        exact hout
      rw [hrow x, hnil, List.append_nil]
    rw [hwrun, hwwait, hseq] at hplain
    rw [hseq]
    have hold := hst.awaiting
    refine ⟨?_, ?_, ?_, ?_⟩
    · intro x hx hout
      rw [hwrun] at hx
      exact absurd hx hout
    · intro x hx hout
      rw [hwwait] at hx
      rw [hplain x (List.mem_append_right _ hx) hout]
      exact hold.waiting x hx hout
    · intro x hx hout
      rw [hwrun, hwwait] at hx
      rw [hplain x hx hout]
      exact hold.idle x hx hout
    · rw [hwrun, hwwait]
      exact hold.room
  have htrim : ∀ row ∈ prepared, Trimmed cfg (w.seqs row.sequence) row := by
    intro row hmem
    have hlive : row.sequence ∈ u.running := by
      rw [← hwrun]
      exact hbursts.running row hmem
    refine ⟨hbursts.fits row hmem, ?_, ?_, ?_⟩
    · rw [hrow]
      exact (hst.running row.sequence hlive).status
    · have hlen := h.lease.kept_length (hc.distinct h.lease) hdes hmem
      rw [← hw] at hlen
      exact hlen
    · rw [hc.prepared_eq] at hmem
      obtain ⟨accepted, -, rfl⟩ := List.mem_map.mp hmem
      exact Nat.min_le_left _ _
  have hrest := hawait.commitAll hwcore hbursts.distinct hbursts.running htrim
  have hall := State.commitAll_control cfg prepared w
  refine ⟨prepared, desired, ⟨hc, hdes, hafter⟩, hev, hseq, ?_⟩
  rw [← hw] at hafter
  have hdone : Awaiting cfg [] t := by
    rw [hafter]
    exact hrest.withControl rfl rfl rfl
  have hdis : t.activeDraftDiscard = none := by rw [hafter]; rfl
  refine ⟨⟨⟨hpt.quiet hdis, by rw [hafter]; rfl, hdis, ?_⟩, hpt.core⟩, hdone.staged⟩
  have hlast : t.pendingDraftCoveragePlan = (w.commitAll cfg prepared).pendingDraftCoveragePlan := by
    rw [hafter]
    rfl
  rw [hlast, show (w.commitAll cfg prepared).pendingDraftCoveragePlan = w.pendingDraftCoveragePlan
    from congrArg Control.pendingDraftCoveragePlan hall, hw]
  exact (hctl Control.pendingDraftCoveragePlan).trans hpend

/-- A call whose writes an undone step on `u` leaves in free blocks without metadata: those
among `ids`, or behind the coverage of their row. -/
inductive CallInside (cfg : Config) (u : State) (batch ids : List Nat) :
    Option TargetCall → Prop
  | none : CallInside cfg u batch ids none
  | run {q : State} (hseqs : q.seqs = u.seqs) : CallInside cfg u batch ids (some (.run batch false q))
  | verify {ids' : List Nat} {base : State} {leased : List (Nat × List Nat)}
      {tr : ActiveSpecTransaction} {q : State} {rollback : List DecodeScheduleRollbackRow}
      (h : Verifying cfg u rollback ids' base leased tr q) (hsub : ∀ b ∈ ids', b ∈ ids) :
      CallInside cfg u batch ids (some (.verify tr.plan batch q))

/-- How a step on the decode batch of `u` ends when speculation is enabled, with its target call;
`v` is the schedule of `u` without the appends `rows`. -/
inductive StepEnd (cfg : Config) (v : State) (rows : List (Nat × List Nat)) (batch : List Nat)
    (u : State) (answers : StepAnswers) : Option TargetCall →
    EStateM.Result Raised State (List StreamOutput) → Prop
  | undone {ids : List Nat} {call : Option TargetCall} {e : Raised} {w : State}
      (h : Recovered v batch u ids w) (happ : ∀ b ∈ lentBlocks rows, b ∈ ids)
      (hcall : CallInside cfg u batch ids call) :
      StepEnd cfg v rows batch u answers call (.error e w)
  | ordinary {q : State} {tokenIds : List Nat} (h : Untouched u q) (hp : Protocol cfg q)
      (hrun : answers.run batch false = .ok tokenIds) (hlen : tokenIds.length = batch.length)
      (hvocab : ∀ tokenId ∈ tokenIds, inVocabulary cfg tokenId = true)
      (hdone : ((State.postRows cfg q (batch.zip tokenIds)).closeHandoff q batch).Settled cfg) :
      StepEnd cfg v rows batch u answers (some (.run batch false q))
        (.ok (State.rowsEvents cfg q (batch.zip tokenIds))
          ((State.postRows cfg q (batch.zip tokenIds)).closeHandoff q batch))
  | shadowed {ids : List Nat} {tr : ActiveSpecTransaction} {leased : List (Nat × List Nat)}
      {q : State} {tokenIds : List Nat} (hopen : Leases cfg u tr leased) (h : HandedOff u ids tr q)
      (hp : Protocol cfg q) (hcover : q.pendingDraftCoverage =
        some (u.running.map fun x => (x, (u.seqs x).numTokens)))
      (hrun : answers.run batch false = .ok tokenIds) (hlen : tokenIds.length = batch.length)
      (hvocab : ∀ tokenId ∈ tokenIds, inVocabulary cfg tokenId = true)
      (hdone : ((State.postRows cfg q (batch.zip tokenIds)).closeHandoff q batch).Settled cfg) :
      StepEnd cfg v rows batch u answers (some (.run batch false q))
        (.ok (State.rowsEvents cfg q (batch.zip tokenIds))
          ((State.postRows cfg q (batch.zip tokenIds)).closeHandoff q batch))
  | committed {ids : List Nat} {base : State} {leased : List (Nat × List Nat)}
      {tr : ActiveSpecTransaction} {q t : State} {result : SpecExecutionResult}
      {prepared : List PreparedRow} {desired : List (TemporaryReservationRow × Nat)}
      {rollback : List DecodeScheduleRollbackRow}
      (h : Verifying cfg u rollback ids base leased tr q) (hp : Protocol cfg q)
      (hrun : answers.runSpeculative tr.plan = .ok result)
      (hc : Committed cfg base leased tr q result prepared desired t)
      (hdone : t.Settled cfg) (hobs : answers.observe = .ok ⟨⟩) :
      StepEnd cfg v rows batch u answers (some (.verify tr.plan batch q))
        (.ok (State.commitEvents cfg (base.lend (keptRows desired)) prepared) t)
  | unobserved {ids : List Nat} {base : State} {leased : List (Nat × List Nat)}
      {tr : ActiveSpecTransaction} {q t : State} {result : SpecExecutionResult}
      {prepared : List PreparedRow} {desired : List (TemporaryReservationRow × Nat)} {e : Raised}
      {rollback : List DecodeScheduleRollbackRow}
      (h : Verifying cfg u rollback ids base leased tr q) (hp : Protocol cfg q)
      (hrun : answers.runSpeculative tr.plan = .ok result)
      (hc : Committed cfg base leased tr q result prepared desired t)
      (hdone : t.Settled cfg) (hobs : answers.observe = .error e) :
      StepEnd cfg v rows batch u answers (some (.verify tr.plan batch q)) (.error e t)

def targetOf (batch : List Nat) (verified : Option (SpecStepPlan × State))
    (result : EStateM.Result Raised State (Option (List StreamOutput) × Option SpecStepPlan)) :
    Option TargetCall :=
  match verified, result with
  | some (plan, q), _ => some (.verify plan batch q)
  | none, .ok (none, _) t => some (.run batch false t)
  | none, _ => none

theorem executeTarget_eq (cfg : Config) (answers : StepAnswers) (batch : List Nat) (u : State)
    (hspec : cfg.speculationEnabled = true) :
    executeTarget cfg answers batch false u = targetOf batch
      (if answers.verifierReady then verifiedCall cfg answers batch
        (captureDecodeScheduleRollback cfg u batch false) u else none)
      (executeSpeculation cfg answers batch false
        (captureDecodeScheduleRollback cfg u batch false) u) := by
  unfold executeTarget executeSpeculation
  simp only [hspec, Bool.not_true, Bool.or_self, Bool.false_eq_true, ↓reduceIte]
  split
  · rw [executeSpeculativeVerified_eq, bind_assoc]
    unfold verifiedCall
    cases hres : verifiedStart cfg answers batch
        (captureDecodeScheduleRollback cfg u batch false) u with
    | error e t =>
      rw [Call.bind_of_error hres]
      rfl
    | ok plan t =>
      cases plan with
      | none =>
        rw [Call.bind_of_ok hres]
        rfl
      | some plan => rfl
  · cases hres : executeSpeculativeShadow cfg answers batch
        (captureDecodeScheduleRollback cfg u batch false) u with
    | error e t =>
      rw [Call.bind_of_error hres]
      rfl
    | ok draftCycle t =>
      rw [Call.bind_of_ok hres]
      rfl

theorem recover_throw {draftCycle : Option SpecStepPlan}
    {rollback : Option (List DecodeScheduleRollbackRow)} {α : Type} {c : Call α} {e : Raised}
    (hc : c s = .error e t) (hrec : recoverStep cfg draftCycle rollback t = .ok ⟨⟩ u) :
    tryCatch c (fun e => do
      recoverStep cfg draftCycle rollback
      throw e) s = .error e u := by
  rw [Call.tryCatch_of_error hc, Call.bind_of_ok hrec]
  rfl

def decodeTarget (cfg : Config) (answers : StepAnswers) (batch : List Nat)
    (undo : List DecodeScheduleRollbackRow) (draftCycle : Option SpecStepPlan) :
    Call (List StreamOutput) :=
  tryCatch
    (do
      let tokenIds ← liftExcept (answers.run batch false)
      postprocess cfg batch tokenIds)
    fun e => do
      recoverStep cfg draftCycle (some undo)
      throw e

theorem executeStep_decode {undo : List DecodeScheduleRollbackRow}
    (hspec : cfg.speculationEnabled = true)
    (hcapture : captureDecodeScheduleRollback cfg u batch false = some undo) :
    executeStep cfg answers batch false u = (do
      let (events, draftCycle) ← tryCatch (executeSpeculation cfg answers batch false (some undo))
        fun e => do
          recoverStep cfg none (some undo)
          throw e
      match events with
      | some events => pure events
      | none => decodeTarget cfg answers batch undo draftCycle : Call (List StreamOutput)) u := by
  unfold executeStep decodeTarget
  rw [Call.bind_of_ok (Call.get_apply u), hspec]
  dsimp only
  rw [hcapture]
  rfl

section Decode

variable (hg : Grown cfg v rows batch u) (hun : u.Unheld)
include hg hun

/-- The target call after the speculative part was bypassed or staged: it is undone, or its
tokens are committed. -/
private theorem Grown.targetCall (hin : InStep u (batch.map (undoRow cfg v)) ids q)
    (hst : Staged cfg [] batch q) (hp : Protocol cfg q) (hdis : q.activeDraftDiscard = none)
    (hcover : q.Covers batch) (answers : StepAnswers) (draftCycle : Option SpecStepPlan)
    (hdraft : draftCycle ≠ none → q.activeSpecTransaction ≠ none) :
    (∃ e w, decodeTarget cfg answers batch (batch.map (undoRow cfg v)) draftCycle q = .error e w ∧
      Recovered v batch u (ids ++ lentBlocks rows) w) ∨
    ∃ tokenIds, answers.run batch false = .ok tokenIds ∧ tokenIds.length = batch.length ∧
      (∀ tokenId ∈ tokenIds, inVocabulary cfg tokenId = true) ∧
      decodeTarget cfg answers batch (batch.map (undoRow cfg v)) draftCycle q =
        .ok (State.rowsEvents cfg q (batch.zip tokenIds))
          ((State.postRows cfg q (batch.zip tokenIds)).closeHandoff q batch) ∧
      ((State.postRows cfg q (batch.zip tokenIds)).closeHandoff q batch).Settled cfg := by
  obtain ⟨w, hrec, hw⟩ := hg.recoverStep hun hin draftCycle hdraft
  unfold decodeTarget
  cases hrun : answers.run batch false with
  | error e =>
    left
    exact ⟨e, w, recover_throw (Call.bind_of_error (liftExcept_error e q)) hrec, hw⟩
  | ok tokenIds =>
    rcases hst.postprocess_cases hp hdis hcover tokenIds with ⟨e, hres⟩ |
      ⟨hlen, hvocab, hres, hdone⟩
    · left
      exact ⟨e, w, recover_throw ((Call.bind_of_ok (liftExcept_ok tokenIds q)).trans hres) hrec, hw⟩
    · right
      refine ⟨tokenIds, rfl, hlen, hvocab, Call.tryCatch_of_ok ?_, hdone⟩
      rw [Call.bind_of_ok (liftExcept_ok tokenIds q)]
      exact hres

/-- From the end of the speculative part on, the step ends in one of the five ways. -/
theorem Grown.step_end (hst : Staged cfg [] batch u) (hrunning : u.running = batch)
    (hcalm : u.Calm) (hp : Protocol cfg u) (hne : batch ≠ [])
    (hspec : cfg.speculationEnabled = true) (answers : StepAnswers) :
    StepEnd cfg v rows batch u answers (executeTarget cfg answers batch false u)
      (executeStep cfg answers batch false u) := by
  obtain ⟨undo, hundo⟩ : ∃ undo, undo = batch.map (undoRow cfg v) := ⟨_, rfl⟩
  have hcapture := hg.capture hne
  rw [← hundo] at hcapture
  have hend := speculation_end hg hun hp.core hne hspec answers
  have hserves : Protocol cfg (Call.after (executeSpeculation cfg answers batch false
      (captureDecodeScheduleRollback cfg u batch false) u)) :=
    (serves_executeSpeculation answers batch false _ u hp).1
  rw [executeStep_decode hspec hcapture, executeTarget_eq cfg answers batch u hspec]
  rw [hcapture] at hend hserves ⊢
  rw [← hundo] at hend
  have hplain : u.pendingDraftCoveragePlan = none := hcalm.pending
  have happ : ∀ ids, ∀ b ∈ lentBlocks rows, b ∈ ids ++ lentBlocks rows :=
    fun ids b hb => List.mem_append_right ids hb
  obtain ⟨verified, hverified⟩ : ∃ verified, verified = (if answers.verifierReady then
    verifiedCall cfg answers batch (some undo) u else none) := ⟨_, rfl⟩
  rw [← hverified] at hend ⊢
  cases hres : executeSpeculation cfg answers batch false (some undo) u with
  | error e t =>
    rw [hres] at hend hserves
    cases hend with
    | failed hin =>
      rw [hundo] at hin
      obtain ⟨w, hrec, hw⟩ := hg.recoverStep hun hin none (fun h => absurd rfl h)
      rw [← hundo] at hrec
      rw [Call.bind_of_error (recover_throw hres hrec)]
      exact .undone hw (happ _) .none
    | rejected h hin =>
      rw [hundo] at hin
      obtain ⟨w, hrec, hw⟩ := hg.recoverStep hun hin none (fun h => absurd rfl h)
      rw [← hundo] at hrec
      rw [Call.bind_of_error (recover_throw hres hrec)]
      exact .undone hw (happ _) (.verify h fun b hb => List.mem_append_left _ hb)
    | unobserved h hrun hcommit hobs =>
      rw [← hrunning] at hst
      obtain ⟨prepared, desired, hc, -, hseq, hsettled⟩ :=
        h.holding.commit_settled hst hp.core (h.protocol hp) h.pending hcommit
      -- Every row of the undo record has been committed, so the handler refuses it.
      have hrefuse : NanoVllm.recoverStep cfg none (some undo) t = .ok ⟨⟩ t := by
        unfold NanoVllm.recoverStep
        rw [Call.bind_of_ok (Call.get_apply t), hsettled.1.1.transaction]
        obtain ⟨x, hx⟩ := List.exists_mem_of_ne_nil batch hne
        have hidle : (t.seqs x).numScheduledTokens = 0 := by
          rw [hc.after]
          exact State.commitAll_idle cfg _ (by rw [hseq, hrunning]; exact hx)
        have hchanged : rollbackRowUnchanged t (undoRow cfg v x) = false := by
          unfold rollbackRowUnchanged
          simp [undoRow, hidle]
        have hsome : (undo.find? fun row => !rollbackRowUnchanged t row).isSome := by
          rw [List.find?_isSome]
          refine ⟨undoRow cfg v x, ?_, by simp [hchanged]⟩
          rw [hundo]
          exact List.mem_map_of_mem hx
        obtain ⟨row, hrow⟩ := Option.isSome_iff_exists.mp hsome
        refine quietly_of_error (e := .runtimeError
          s!"sequence {row.sequence} changed before schedule rollback") ?_
        unfold rollbackFailedDecodeSchedule
        rw [Call.bind_of_ok (Call.get_apply t)]
        simp [hsettled.1.1.discard, hsettled.1.1.pending, hrow]
      rw [Call.bind_of_error (recover_throw hres hrefuse)]
      exact .unobserved h (h.protocol hp) hrun hc hsettled hobs
  | ok outcome t =>
    rw [hres] at hend hserves
    have hpt : Protocol cfg t := hserves
    rw [Call.bind_of_ok (Call.tryCatch_of_ok hres)]
    cases hend with
    | bypassed h =>
      have hdis : t.activeDraftDiscard = none := by
        obtain ⟨f, n, c, rfl⟩ := h
        exact hcalm.discard
      have hpend : t.pendingDraftCoveragePlan = none := by
        obtain ⟨f, n, c, rfl⟩ := h
        exact hplain
      have hst' : Staged cfg [] batch t := by
        obtain ⟨f, n, c, rfl⟩ := h
        exact hst.recast (fun _ => rfl) rfl rfl
      rw [hundo]
      rcases hg.targetCall hun (.untouched h) hst' hpt hdis (fun hne => absurd hpend hne) answers
          none (fun hne => absurd rfl hne) with
        ⟨e, w, hfail, hw⟩ | ⟨tokenIds, hrun, hlen, hvocab, hok, hdone⟩
      · exact (congrArg (StepEnd cfg v rows batch u answers _) hfail).mpr
          (.undone hw (happ _) (.run h.pool.seqs))
      · exact (congrArg (StepEnd cfg v rows batch u answers _) hok).mpr
          (.ordinary h hpt hrun hlen hvocab hdone)
    | @staged ids tr leased _ hr hopen h hpend hcover =>
      have hst' : Staged cfg [] batch t :=
        hst.recast (fun x => congrFun h.pool.seqs x)
          (congrArg Control.running h.control) (congrArg Control.waiting h.control)
      have hcovers : t.Covers batch := by
        intro _ x hx
        have hrow : t.seqs x = u.seqs x := congrFun h.pool.seqs x
        rw [hrow, hcover]
        refine ⟨(hst.running x (by simpa [hrunning] using hx)).full (hst.busy x hx).2, ?_⟩
        exact coverageOf_map _ (by rwa [hrunning])
      rw [hundo]
      rcases hg.targetCall hun (.handedOff (hr.trans hundo) h) hst' hpt h.discard hcovers answers
          (some tr.plan) (fun _ => by rw [h.transaction]; simp) with
        ⟨e, w, hfail, hw⟩ | ⟨tokenIds, hrun, hlen, hvocab, hok, hdone⟩
      · exact (congrArg (StepEnd cfg v rows batch u answers _) hfail).mpr
          (.undone hw (happ _) (.run h.pool.seqs))
      · exact (congrArg (StepEnd cfg v rows batch u answers _) hok).mpr
          (.shadowed hopen h hpt hcover hrun hlen hvocab hdone)
    | committed h hrun hcommit hobs =>
      rw [← hrunning] at hst
      obtain ⟨prepared, desired, hc, hev, -, hdone⟩ :=
        h.holding.commit_settled hst hp.core (h.protocol hp) h.pending hcommit
      rw [hev]
      exact .committed h (h.protocol hp) hrun hc hdone hobs

end Decode

end NanoVllm
