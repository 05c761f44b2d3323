/- module: NanoVllm/Speculation/Recovery
   layer: refinement
   source: nanovllm/engine/llm_engine.py, the error handler of _step_unlocked;
     nanovllm/engine/scheduler.py, abort_speculative_step
   digest: From every point inside a speculative step the handler undoes the decode schedule. -/

import NanoVllm.Speculation.UndoSchedule
import NanoVllm.Engine.LlmEngine

set_option autoImplicit false
set_option relaxedAutoImplicit false

namespace NanoVllm

open Library

variable {cfg : Config} {s t u v w base : State} {rows leased : List (Nat × List Nat)}
  {batch ids : List Nat} {tr : ActiveSpecTransaction}

structure State.Unheld (s : State) : Prop where
  transaction : s.activeSpecTransaction = none
  reservation : s.activeReservation = none
  progress : s.reservationInProgress = false
  internal : s.internalAllocation = false
  discard : s.activeDraftDiscard = none
  pending : s.pendingDraftCoveragePlan = none

theorem State.Calm.unheld (h : s.Calm) : s.Unheld :=
  ⟨h.transaction, h.reservation, h.progress, h.internal, h.discard, h.pending⟩

structure Midway (u : State) (tr : ActiveSpecTransaction) (t : State) : Prop where
  transaction : t.activeSpecTransaction = some tr
  pending : t.pendingDraftCoveragePlan = none ∨ t.pendingDraftCoveragePlan = some tr.plan
  control : t.control = { u.control with
    activeReservation := t.activeReservation
    nextReservationId := t.nextReservationId
    activeSpecTransaction := t.activeSpecTransaction
    activeDraftDiscard := t.activeDraftDiscard
    pendingDraftCoveragePlan := t.pendingDraftCoveragePlan
    pendingDraftCoverage := t.pendingDraftCoverage
    nextCycleId := t.nextCycleId
    fault := t.fault }

/-- The lease of the transaction is live. The blocks `ids` were prepared for writing. -/
structure Holding (u : State) (ids : List Nat) (base : State) (leased : List (Nat × List Nat))
    (tr : ActiveSpecTransaction) (t : State) : Prop extends Midway u tr t where
  lease : Leased base leased t tr.reservation
  ok : PoolOk base
  discard : t.activeDraftDiscard = some (tr.plan, tr.reservation)
  pool : SamePool base (u.wipe ids)
  free : ∀ b ∈ ids, b ∈ u.freeBlockIds

structure HandedOff (u : State) (ids : List Nat) (tr : ActiveSpecTransaction) (t : State) : Prop
    extends Midway u tr t where
  reservation : t.activeReservation = none
  discard : t.activeDraftDiscard = none
  pool : SamePool t (u.wipe ids)
  free : ∀ b ∈ ids, b ∈ u.freeBlockIds

/-- A point inside the step on the batch of `u`, with the blocks prepared for writing. -/
inductive InStep (u : State) (rollback : List DecodeScheduleRollbackRow) :
    List Nat → State → Prop
  | untouched {t : State} (h : Untouched u t) : InStep u rollback [] t
  | holding {ids : List Nat} {base : State} {leased : List (Nat × List Nat)}
      {tr : ActiveSpecTransaction} {t : State} (hr : tr.baselineDecodeRollback = rollback)
      (h : Holding u ids base leased tr t) : InStep u rollback ids t
  | handedOff {ids : List Nat} {tr : ActiveSpecTransaction} {t : State}
      (hr : tr.baselineDecodeRollback = rollback) (h : HandedOff u ids tr t) :
      InStep u rollback ids t

/-- The step is undone: `v` saw its preemptions, and only the recycled free blocks `ids` lost
their prefix metadata. -/
structure Recovered (v : State) (batch : List Nat) (u : State) (ids : List Nat) (w : State) :
    Prop where
  free : ∀ b ∈ ids, b ∈ v.freeBlockIds
  pool : SamePool w ((v.wipe ids).decoded batch)
  control : w.control = { u.control with
    nextReservationId := w.nextReservationId
    nextCycleId := w.nextCycleId
    pendingDraftCoverage := w.pendingDraftCoverage
    fault := w.fault }

theorem State.wipe_append (s : State) (ids more : List Nat) :
    (s.wipe ids).wipe more = s.wipe (ids ++ more) := by
  apply State.ext_control <;> try rfl
  · funext b
    by_cases hm : b ∈ more <;> by_cases hi : b ∈ ids <;> simp [State.wipe, hm, hi]
  · apply Finmap.ext_lookup
    intro k
    simp only [State.wipe, lookup_restrict, Option.filter_filter]
    congr 1
    funext b
    by_cases hm : b ∈ more <;> by_cases hi : b ∈ ids <;> simp [hm, hi]

private theorem State.wipe_nil (s : State) : SamePool (s.wipe []) s := by
  refine ⟨rfl, ?_, ?_, rfl, rfl⟩
  · funext b
    simp [State.wipe]
  · exact restrict_true _

theorem Untouched.pool (h : Untouched u t) : SamePool t u := by
  obtain ⟨f, n, c, rfl⟩ := h
  exact ⟨rfl, rfl, rfl, rfl, rfl⟩

private theorem quietly_of_ok {α : Type} {cleanup : Call α} {a : α} (h : cleanup s = .ok a t) :
    quietly cleanup s = .ok ⟨⟩ t :=
  Call.tryCatch_of_ok ((Call.bind_of_ok h).trans (Call.pure_apply _ _))

theorem quietly_of_error {α : Type} {cleanup : Call α} {e : Raised} (h : cleanup s = .error e t) :
    quietly cleanup s = .ok ⟨⟩ t :=
  (Call.tryCatch_of_error (Call.bind_of_error h)).trans (Call.pure_apply _ _)

theorem Holding.handed (h : Holding u ids base leased tr t) :
    HandedOff u ids tr base.withoutDiscard := by
  have hctl := h.lease.control
  have hbase : ∀ {α : Type} (f : Control → α),
      f base.control = f { t.control with activeReservation := none } :=
    fun f => congrArg f hctl
  refine ⟨⟨(hbase Control.activeSpecTransaction).trans h.transaction, ?_, ?_⟩,
    hbase Control.activeReservation, rfl,
    ⟨h.pool.seqs, h.pool.blocks, h.pool.index, h.pool.free, h.pool.used⟩, h.free⟩
  · rw [show base.withoutDiscard.pendingDraftCoveragePlan = t.pendingDraftCoveragePlan from
      hbase Control.pendingDraftCoveragePlan]
    exact h.pending
  · change { base.control with activeDraftDiscard := none } = _
    rw [hctl, h.control]
    have h1 : base.withoutDiscard.activeReservation = none := hbase Control.activeReservation
    have h2 : base.withoutDiscard.nextReservationId = t.nextReservationId :=
      hbase Control.nextReservationId
    have h3 : base.withoutDiscard.activeSpecTransaction = t.activeSpecTransaction :=
      hbase Control.activeSpecTransaction
    have h4 : base.withoutDiscard.pendingDraftCoveragePlan = t.pendingDraftCoveragePlan :=
      hbase Control.pendingDraftCoveragePlan
    have h5 : base.withoutDiscard.pendingDraftCoverage = t.pendingDraftCoverage :=
      hbase Control.pendingDraftCoverage
    have h6 : base.withoutDiscard.nextCycleId = t.nextCycleId := hbase Control.nextCycleId
    have h7 : base.withoutDiscard.fault = t.fault := hbase Control.fault
    rw [h1, h2, h3, h4, h5, h6, h7]
    rfl

section Recover

variable (hg : Grown cfg v rows batch u) (hun : u.Unheld)
include hg hun

private theorem Grown.recover_handedOff (h : HandedOff u ids tr t)
    (hr : tr.baselineDecodeRollback = batch.map (undoRow cfg v)) :
    ∃ w, abortSpeculativeStep cfg t = .ok true w ∧
      Recovered v batch u (ids ++ lentBlocks rows) w := by
  obtain ⟨q, hq⟩ : ∃ q, q = { t with
      pendingDraftCoveragePlan := none
      pendingDraftCoverage := if t.pendingDraftCoveragePlan.isSome then none
        else t.pendingDraftCoverage } := ⟨_, rfl⟩
  have hcover : ∃ aborted, abortDraftCoverage tr.plan t = .ok aborted q := by
    rcases h.pending with hpend | hpend
    · refine ⟨false, ?_⟩
      have hsame : q = t := by
        rw [hq, hpend]
        apply State.ext_control <;> try rfl
        unfold State.control
        rw [hpend]
        rfl
      unfold abortDraftCoverage
      rw [Call.bind_of_ok (Call.get_apply t), hpend, hsame]
      rfl
    · refine ⟨true, ?_⟩
      unfold abortDraftCoverage
      rw [Call.bind_of_ok (Call.get_apply t), hpend, hq, hpend]
      simp
  obtain ⟨aborted, hcover⟩ := hcover
  have hgrown : Grown cfg (v.wipe ids) rows batch q := by
    apply (hg.wipe h.free).of_pool
    rw [hq]
    exact ⟨h.pool.seqs, h.pool.blocks, h.pool.index, h.pool.free, h.pool.used⟩
  have hprog : q.reservationInProgress = false := by
    rw [hq]
    exact (congrArg Control.reservationInProgress h.control).trans hun.progress
  have hback := hgrown.rollback (by rw [hq]; exact h.reservation) hprog
    (by rw [hq]; exact h.discard) (by rw [hq])
  have hrows : (batch.map (undoRow cfg (v.wipe ids))) = batch.map (undoRow cfg v) := rfl
  rw [hrows, ← hr] at hback
  refine ⟨State.withoutTransaction
    ((((v.wipe ids).wipe (lentBlocks rows)).decoded batch).withControl q.control), ?_, ?_⟩
  · unfold abortSpeculativeStep
    rw [Call.bind_of_ok (Call.get_apply t), h.transaction]
    dsimp only
    rw [Call.bind_of_ok (rollbackDraftDiscard_idle _ h.discard), Call.bind_of_ok hcover,
      Call.bind_of_ok hback, Call.bind_of_ok (Call.modify_apply _ _)]
    rfl
  · refine ⟨?_, ?_, ?_⟩
    · intro b hb
      rcases List.mem_append.mp hb with hb | hb
      · rw [hg.free]
        exact List.mem_append_right _ (h.free b hb)
      · exact hg.lent_free hb
    · rw [← State.wipe_append]
      exact ⟨rfl, rfl, rfl, rfl, rfl⟩
    · change { q.control with activeSpecTransaction := none } = _
      rw [hq]
      change { t.control with
        activeSpecTransaction := none
        pendingDraftCoveragePlan := none
        pendingDraftCoverage := if t.pendingDraftCoveragePlan.isSome then none
          else t.pendingDraftCoverage } = _
      rw [h.control]
      rw [h.reservation, h.discard]
      unfold State.control
      rw [hun.transaction, hun.reservation, hun.discard, hun.pending]
      rfl

private theorem Grown.recover_holding (h : Holding u ids base leased tr t)
    (hr : tr.baselineDecodeRollback = batch.map (undoRow cfg v)) :
    ∃ w, abortSpeculativeStep cfg t = .ok true w ∧
      Recovered v batch u (ids ++ lentBlocks rows) w := by
  have hback := h.lease.rollbackDiscard h.ok h.discard
  have hand := h.handed
  obtain ⟨w, habort, hw⟩ := hg.recover_handedOff hun hand hr
  refine ⟨w, ?_, hw⟩
  rw [← habort]
  unfold abortSpeculativeStep
  rw [Call.bind_of_ok (Call.get_apply t), Call.bind_of_ok (Call.get_apply base.withoutDiscard),
    h.transaction, hand.transaction]
  dsimp only
  rw [Call.bind_of_ok hback, Call.bind_of_ok (rollbackDraftDiscard_idle _ hand.discard)]

theorem Grown.recoverStep (h : InStep u (batch.map (undoRow cfg v)) ids t)
    (draftCycle : Option SpecStepPlan) (hdraft : draftCycle ≠ none → t.activeSpecTransaction ≠ none) :
    ∃ w, NanoVllm.recoverStep cfg draftCycle (some (batch.map (undoRow cfg v))) t = .ok ⟨⟩ w ∧
      Recovered v batch u (ids ++ lentBlocks rows) w := by
  have habort : ∀ {tr w}, t.activeSpecTransaction = some tr →
      abortSpeculativeStep cfg t = .ok true w →
      NanoVllm.recoverStep cfg draftCycle (some (batch.map (undoRow cfg v))) t = .ok ⟨⟩ w := by
    intro tr w htr hcall
    unfold NanoVllm.recoverStep
    rw [Call.bind_of_ok (Call.get_apply t), htr]
    exact quietly_of_ok hcall
  cases h with
  | untouched h =>
    have hpool : SamePool t u := h.pool
    obtain ⟨f, n, c, ht⟩ := h
    have htr' : t.activeSpecTransaction = none := by rw [ht]; exact hun.transaction
    have hnone : draftCycle = none := by
      by_contra hne
      exact hdraft hne htr'
    have hback := (hg.of_pool hpool).rollback (by rw [ht]; exact hun.reservation)
      (by rw [ht]; exact hun.progress) (by rw [ht]; exact hun.discard)
      (by rw [ht]; exact hun.pending)
    refine ⟨((v.wipe (lentBlocks rows)).decoded batch).withControl t.control, ?_,
      fun b hb => hg.lent_free (by simpa using hb), .withControl _ _, ?_⟩
    · unfold NanoVllm.recoverStep
      rw [Call.bind_of_ok (Call.get_apply t), htr', hnone]
      exact quietly_of_ok hback
    · rw [ht]
      rfl
  | holding hr h =>
    obtain ⟨w, hcall, hw⟩ := hg.recover_holding hun h hr
    exact ⟨w, habort h.transaction hcall, hw⟩
  | handedOff hr h =>
    obtain ⟨w, hcall, hw⟩ := hg.recover_handedOff hun h hr
    exact ⟨w, habort h.transaction hcall, hw⟩

end Recover

theorem SamePool.wipe (h : SamePool s t) (ids : List Nat) : SamePool (s.wipe ids) (t.wipe ids) where
  seqs := h.seqs
  blocks := by simp only [State.wipe, h.blocks]
  index := by simp only [State.wipe, h.index]
  free := h.free
  used := h.used

private theorem Midway.withFault (h : Midway u tr t) (f : Option Nat) :
    Midway u tr (t.withFault f) where
  transaction := h.transaction
  pending := h.pending
  control := by
    change { t.control with fault := f } = _
    rw [h.control]
    rfl

theorem Holding.withFault (h : Holding u ids base leased tr t) (f : Option Nat) :
    Holding u ids (base.withFault f) leased tr (t.withFault f) where
  toMidway := h.toMidway.withFault f
  lease := h.lease.withFault f
  ok := h.ok.withFault f
  discard := h.discard
  pool := ⟨h.pool.seqs, h.pool.blocks, h.pool.index, h.pool.free, h.pool.used⟩
  free := h.free

theorem HandedOff.withFault (h : HandedOff u ids tr t) (f : Option Nat) :
    HandedOff u ids tr (t.withFault f) where
  toMidway := h.toMidway.withFault f
  reservation := h.reservation
  discard := h.discard
  pool := ⟨h.pool.seqs, h.pool.blocks, h.pool.index, h.pool.free, h.pool.used⟩
  free := h.free

theorem Holding.core (h : Holding u ids base leased tr t) (hcore : Core cfg [] u) :
    Core cfg [] base := by
  have hctl : ∀ {α : Type} (f : Control → α),
      f base.control = f { t.control with activeReservation := none } :=
    fun f => congrArg f h.lease.control
  apply (Core.wipe hcore ids).recast (fun y => congrFun h.pool.seqs y ▸ .refl _) h.pool.blocks
    h.pool.index h.pool.free h.pool.used
  · exact (hctl Control.running).trans (congrArg Control.running h.control)
  · exact (hctl Control.waiting).trans (congrArg Control.waiting h.control)
  · exact (hctl Control.midChunkSeq).trans (congrArg Control.midChunkSeq h.control)
  · exact (hctl Control.nextSeqId).trans (congrArg Control.nextSeqId h.control)

theorem Opened.pending {plan : SpecStepPlan} {rollback : List DecodeScheduleRollbackRow}
    {r : TemporaryBlockReservation} (hun : u.Unheld)
    (h : Opened cfg u batch plan rollback base leased r t) :
    t.pendingDraftCoveragePlan = none := by
  obtain ⟨q, ⟨f, n, c, rfl⟩, hbase⟩ := h.base_eq
  have hctl := congrArg Control.pendingDraftCoveragePlan h.leased.control
  exact hctl.symm.trans (by rw [hbase]; exact hun.pending)

theorem Opened.holding {plan : SpecStepPlan} {rollback : List DecodeScheduleRollbackRow}
    {r : TemporaryBlockReservation} (hun : u.Unheld) (hcore : Core cfg [] u)
    (h : Opened cfg u batch plan rollback base leased r t) :
    Holding u [] base leased ⟨plan, r, rollback, false⟩ t := by
  obtain ⟨q, ⟨f, n, c, rfl⟩, hbase⟩ := h.base_eq
  have hctl : ∀ {α : Type} (f : Control → α),
      f base.control = f { t.control with activeReservation := none } :=
    fun f => congrArg f h.leased.control
  have htr : t.activeSpecTransaction = some ⟨plan, r, rollback, false⟩ :=
    (hctl Control.activeSpecTransaction).symm.trans (by rw [hbase]; rfl)
  have hdis : t.activeDraftDiscard = some (plan, r) :=
    (hctl Control.activeDraftDiscard).symm.trans (by rw [hbase]; rfl)
  have hpend : t.pendingDraftCoveragePlan = none := h.pending hun
  have hpool : SamePool base u := by
    rw [hbase]
    exact ⟨rfl, rfl, rfl, rfl, rfl⟩
  have hok : PoolOk base := by
    have hold := hcore.own.poolOk
    rw [hbase]
    exact ⟨hold.nodup, hold.zero, hold.indexed⟩
  refine ⟨⟨htr, Or.inl hpend, ?_⟩, h.leased, hok, hdis, hpool.trans u.wipe_nil.symm, by simp⟩
  have hall : t.control = { base.control with activeReservation := t.activeReservation } := by
    rw [h.leased.control]
    rfl
  have hcover : t.pendingDraftCoverage = u.pendingDraftCoverage :=
    (hctl Control.pendingDraftCoverage).symm.trans (by rw [hbase]; rfl)
  have hid : t.nextReservationId = n :=
    (hctl Control.nextReservationId).symm.trans (by rw [hbase]; rfl)
  have hcycle : t.nextCycleId = c := (hctl Control.nextCycleId).symm.trans (by rw [hbase]; rfl)
  have hfault : t.fault = f := (hctl Control.fault).symm.trans (by rw [hbase]; rfl)
  rw [hall, hbase, htr, hdis, hpend, hcover, hid, hcycle, hfault]
  unfold State.control
  rw [← hun.pending]
  rfl

end NanoVllm
