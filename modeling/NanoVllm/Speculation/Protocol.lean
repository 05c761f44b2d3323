/- module: NanoVllm/Speculation/Protocol
   layer: invariant
   source: nanovllm/engine/scheduler.py, the public operations of Scheduler
   digest: Block ownership holds between any two scheduler calls, in any order. -/

import NanoVllm.Scheduling.Cancel
import NanoVllm.Scheduling.Schedule
import NanoVllm.Speculation.Transaction

set_option autoImplicit false
set_option relaxedAutoImplicit false

namespace NanoVllm

open Library

variable {cfg : Config} {s t base : State} {rows : List (Nat × List Nat)}
  {r : TemporaryBlockReservation} {x : Nat}

theorem Core.wipe {held : List Nat} (h : Core cfg held s) (ids : List Nat) :
    Core cfg held (s.wipe ids) :=
  { own := h.own.wipe ids
    mid_owner := h.mid_owner
    mid_head := h.mid_head
    started := h.started
    chunked := h.chunked
    nonempty := h.nonempty
    known := h.known
    dead := h.dead }

private theorem Core.untouched {held : List Nat} (h : Core cfg held s) (ht : Untouched s t) :
    Core cfg held t := by
  obtain ⟨f, n, c, rfl⟩ := ht
  exact h.recast (fun _ => .refl _) rfl rfl rfl rfl rfl rfl rfl rfl

private theorem Core.commitCoverage {held : List Nat} (coverage : List (Nat × Nat)) :
    ∀ {batch : List Nat} {s : State}, Core cfg held s →
      Core cfg held (s.commitCoverage coverage batch) := by
  intro batch
  induction batch with
  | nil => exact fun h => h
  | cons x batch ih =>
    intro s h
    apply ih
    dsimp only
    split
    · refine h.recast (fun y => ?_) rfl rfl rfl rfl rfl rfl rfl rfl
      by_cases hyx : y = x
      · subst hyx
        rw [State.setSeq_seqs, Function.update_self]
        exact ⟨rfl, rfl, rfl, rfl⟩
      · rw [State.setSeq_seqs, Function.update_of_ne hyx]
        exact .refl _
    · exact h

theorem State.commitCoverage_control (coverage : List (Nat × Nat)) : ∀ (batch : List Nat)
    (s : State), (s.commitCoverage coverage batch).control = s.control := by
  intro batch
  induction batch with
  | nil => exact fun _ => rfl
  | cons x batch ih =>
    intro s
    change (State.commitCoverage _ coverage batch).control = _
    rw [ih]
    dsimp only
    split <;> rfl

theorem captureRow_pages {row : DecodeScheduleRollbackRow} (h : captureRow cfg s x = some row) :
    row.sequence = x ∧ row.expectedBlockCount =
      pagesFor cfg.kvcacheBlockSize row.targetCachedTokens := by
  unfold captureRow at h
  dsimp only at h
  split at h
  · exact absurd h (by simp)
  · rw [← Option.some.inj h]
    exact ⟨rfl, rfl⟩

theorem capture_pages {batch : List Nat} {isPrefill : Bool}
    {rollback : List DecodeScheduleRollbackRow}
    (h : captureDecodeScheduleRollback cfg s batch isPrefill = some rollback) :
    CountsPages cfg rollback := by
  unfold captureDecodeScheduleRollback at h
  split at h
  · exact absurd h (by simp)
  · intro row hrow
    obtain ⟨x, -, hx⟩ := Call.forall₂_exists_left (Call.forall₂_of_mapM_some h) hrow
    exact (captureRow_pages hx).2

namespace Protocol

/-! ### Adding and scheduling -/

theorem leased_created (hleased : Leased base rows s r) (hcore : Core cfg [] base)
    (hrows : ∀ e ∈ rows, e.1 ∈ base.running) (tokenIds : List Nat) (maxTokens : Nat)
    (ignoreEos : Bool) :
    Leased (base.created tokenIds maxTokens ignoreEos) rows
      (s.created tokenIds maxTokens ignoreEos) r := by
  have hnext : base.nextSeqId = s.nextSeqId := congrArg Control.nextSeqId hleased.control
  have hnot : s.nextSeqId ∉ rows.map Prod.fst := by
    intro hmem
    obtain ⟨e, he, heq⟩ := List.mem_map.mp hmem
    have hlt := hcore.known e.1 (by simp [hrows e he])
    omega
  have hset := hleased.setSeq hnot (Sequence.new tokenIds maxTokens ignoreEos)
  have hcreated := hset.withControl
    (c := (s.created tokenIds maxTokens ignoreEos).control) hset.active
  have hbase : (base.setSeq s.nextSeqId (Sequence.new tokenIds maxTokens ignoreEos)).withControl
      { (s.created tokenIds maxTokens ignoreEos).control with activeReservation := none } =
        base.created tokenIds maxTokens ignoreEos := by
    apply State.ext_control <;> try rfl
    · change Function.update base.seqs s.nextSeqId _ = Function.update base.seqs base.nextSeqId _
      rw [hnext]
    · have hctl : (base.created tokenIds maxTokens ignoreEos).control =
          { base.control with nextSeqId := base.nextSeqId + 1 } := rfl
      rw [hctl, hleased.control, hnext]
      rfl
  rw [hbase] at hcreated
  exact hcreated

private theorem created (h : Protocol cfg s) (tokenIds : List Nat) (maxTokens : Nat)
    (ignoreEos : Bool) :
    Protocol cfg (s.created tokenIds maxTokens ignoreEos) where
  progress := h.progress
  internal := h.internal
  fault := h.fault
  lease := by
    rcases h.lease with ⟨hd, hnone, hcore⟩ | ⟨base, rows, plan, r, hd, hleased, hcore, hrows⟩
    · exact Or.inl ⟨hd, hnone, hcore.created⟩
    · exact Or.inr ⟨_, rows, plan, r, hd,
        leased_created hleased hcore hrows tokenIds maxTokens ignoreEos, hcore.created, hrows⟩
  linked := h.linked
  closed := h.closed

theorem leased_enqueue (hleased : Leased base rows s r) (hcore : Core cfg [] base)
    (hrows : ∀ e ∈ rows, e.1 ∈ base.running) (tokenIds : List Nat) (maxTokens : Nat)
    (ignoreEos : Bool) :
    Leased (base.enqueue tokenIds maxTokens ignoreEos) rows
      (s.enqueue tokenIds maxTokens ignoreEos) r := by
  have hcreated := leased_created hleased hcore hrows tokenIds maxTokens ignoreEos
  have hqueued := hcreated.withControl
    (c := (s.enqueue tokenIds maxTokens ignoreEos).control) hcreated.active
  have hbase : (base.created tokenIds maxTokens ignoreEos).withControl
      { (s.enqueue tokenIds maxTokens ignoreEos).control with activeReservation := none } =
        base.enqueue tokenIds maxTokens ignoreEos := by
    apply State.ext_control <;> try rfl
    have hctl : (base.enqueue tokenIds maxTokens ignoreEos).control = { base.control with
        nextSeqId := base.nextSeqId + 1
        waiting := base.waiting ++ [base.nextSeqId]
        history := base.history ++ [.admitted base.nextSeqId] } := rfl
    rw [hctl, hleased.control,
      show base.nextSeqId = s.nextSeqId from congrArg Control.nextSeqId hleased.control,
      show base.waiting = s.waiting from congrArg Control.waiting hleased.control,
      show base.history = s.history from congrArg Control.history hleased.control]
    rfl
  rwa [hbase] at hqueued

private theorem enqueue (h : Protocol cfg s) {tokenIds : List Nat} (hne : tokenIds ≠ [])
    (maxTokens : Nat) (ignoreEos : Bool) :
    Protocol cfg (s.enqueue tokenIds maxTokens ignoreEos) where
  progress := h.progress
  internal := h.internal
  fault := h.fault
  lease := by
    rcases h.lease with ⟨hd, hnone, hcore⟩ | ⟨base, rows, plan, r, hd, hleased, hcore, hrows⟩
    · exact Or.inl ⟨hd, hnone, hcore.enqueue hne⟩
    · exact Or.inr ⟨_, rows, plan, r, hd,
        leased_enqueue hleased hcore hrows tokenIds maxTokens ignoreEos, hcore.enqueue hne, hrows⟩
  linked := h.linked
  closed := h.closed

theorem leaves_add (h : Protocol cfg s) (tokenIds : List Nat) (maxTokens : Nat)
    (ignoreEos : Bool) :
    Call.Leaves (add cfg tokenIds maxTokens ignoreEos) s (Protocol cfg) := by
  unfold Call.Leaves
  rcases add_cases cfg s tokenIds maxTokens ignoreEos with
    ⟨-, e, hres⟩ | ⟨-, -, e, hres⟩ | ⟨hne, -, hres⟩
  · rw [hres]
    exact h
  · rw [hres]
    exact h.created tokenIds maxTokens ignoreEos
  · rw [hres]
    exact h.enqueue hne maxTokens ignoreEos

theorem of_ready (h : s.Ready cfg) : Protocol cfg s :=
  .of_core h.1.toQuiet h.2 h.1.discard fun tr htr => by
    rw [h.1.transaction] at htr
    exact absurd htr (by simp)

/-- `schedule` refuses to run beside a transaction and changes nothing then; otherwise it
starts from a ready state. -/
theorem schedule_start (h : Protocol cfg s) :
    (∃ e, schedule cfg s = .error e s) ∨ s.Ready cfg := by
  by_cases htr : s.activeSpecTransaction.isSome
  · exact Or.inl ⟨.runtimeError "cannot schedule before speculative transaction completes",
      by simp [schedule, htr]⟩
  have htr' : s.activeSpecTransaction = none := by simpa using htr
  have hd := h.closed htr'
  by_cases hp : s.pendingDraftCoveragePlan.isSome
  · exact Or.inl ⟨.runtimeError "cannot schedule before committing draft-cache coverage",
      by simp [schedule, htr', hd, hp]⟩
  have hp' : s.pendingDraftCoveragePlan = none := by simpa using hp
  exact Or.inr ⟨⟨h.quiet hd, htr', hd, hp'⟩, (h.idle hd).2⟩

theorem leaves_schedule (h : Protocol cfg s) :
    Call.Leaves (schedule cfg) s (Protocol cfg) := by
  unfold Call.Leaves
  rcases h.schedule_start with ⟨e, hres⟩ | hready
  · rw [hres]
    exact h
  · obtain ⟨done, u, batch, v, -, hv, hok, herr⟩ := schedule_trace hready
    by_cases hbatch : batch = []
    · obtain ⟨message, hres⟩ := herr hbatch
      rw [hres]
      exact of_ready hv
    · rw [hok hbatch]
      exact of_ready hv

end Protocol

/-! ### Postprocess -/

structure Postable (cfg : Config) (s : State) (batch tokenIds : List Nat) : Prop where
  handed : ∀ tr, s.activeSpecTransaction = some tr → s.pendingDraftCoveragePlan = some tr.plan
  discard : s.activeDraftDiscard = none
  length : tokenIds.length = batch.length
  vocabulary : ∀ t ∈ tokenIds, inVocabulary cfg t = true
  pending : ∀ plan, s.pendingDraftCoveragePlan = some plan →
    checkPendingCoverage s batch plan = .ok ⟨⟩

theorem postprocessChecks_ok {batch tokenIds : List Nat}
    (h : postprocessChecks cfg s batch tokenIds = .ok ⟨⟩) : Postable cfg s batch tokenIds := by
  unfold postprocessChecks at h
  obtain ⟨hhand, h⟩ := Call.except_guard h
  obtain ⟨hd, h⟩ := Call.except_guard h
  obtain ⟨hlen, h⟩ := Call.except_guard h
  obtain ⟨hvoc, h⟩ := Call.except_guard h
  refine ⟨?_, by simpa using hd, not_not.mp hlen, by simpa using hvoc, ?_⟩
  · intro tr htr
    simpa [htr] using hhand
  · intro plan hplan
    rw [hplan] at h
    exact h

theorem State.closeHandoff_control (t s : State) (batch : List Nat) :
    (t.closeHandoff s batch).control = { t.control with
      pendingDraftCoveragePlan :=
        if s.pendingDraftCoveragePlan.isSome then none else t.pendingDraftCoveragePlan
      pendingDraftCoverage :=
        if s.pendingDraftCoveragePlan.isSome then none else t.pendingDraftCoverage
      activeSpecTransaction :=
        if s.activeSpecTransaction.isSome then none else t.activeSpecTransaction } := by
  have hcov := State.commitCoverage_control (s.pendingDraftCoverage.getD []) batch t
  obtain ⟨u, hu⟩ : ∃ u, u = t.commitCoverage (s.pendingDraftCoverage.getD []) batch := ⟨_, rfl⟩
  unfold State.closeHandoff
  rw [← hu] at hcov ⊢
  have hpend : ({ u with
      pendingDraftCoveragePlan := none
      pendingDraftCoverage := none } : State).control = { t.control with
        pendingDraftCoveragePlan := none
        pendingDraftCoverage := none } := by
    rw [← hcov]
    rfl
  by_cases hp : s.pendingDraftCoveragePlan.isSome <;>
    by_cases htr : s.activeSpecTransaction.isSome <;> simp only [hp, htr, ↓reduceIte,
      Bool.false_eq_true]
  · have hdrop := congrArg (fun c : Control => { c with activeSpecTransaction := none }) hpend
    exact hdrop
  · exact hpend
  · rfl
  · rfl

theorem Core.closeHandoff (h : Core cfg [] t) (s : State) (batch : List Nat) :
    Core cfg [] (t.closeHandoff s batch) := by
  have hcov : Core cfg [] (t.commitCoverage (s.pendingDraftCoverage.getD []) batch) :=
    h.commitCoverage _
  unfold State.closeHandoff
  by_cases hp : s.pendingDraftCoveragePlan.isSome <;>
    by_cases htr : s.activeSpecTransaction.isSome <;> simp only [hp, htr, ↓reduceIte,
      Bool.false_eq_true]
  · exact hcov.recast (fun _ => .refl _) rfl rfl rfl rfl rfl rfl rfl rfl
  · exact hcov.recast (fun _ => .refl _) rfl rfl rfl rfl rfl rfl rfl rfl
  · exact h.recast (fun _ => .refl _) rfl rfl rfl rfl rfl rfl rfl rfl
  · exact h

private theorem Opened.sameQueues {batch : List Nat} {plan : SpecStepPlan}
    {rollback : List DecodeScheduleRollbackRow} (h : Opened cfg s batch plan rollback base rows r t) :
    SameQueues s t := by
  obtain ⟨u, hu, hbase⟩ := h.base_eq
  obtain ⟨f, n, c, rfl⟩ := hu
  have hctl := h.leased.control
  rw [hbase] at hctl
  exact ⟨(congrArg Control.running hctl).symm, (congrArg Control.waiting hctl).symm,
    (congrArg Control.midChunkSeq hctl).symm, (congrArg Control.nextSeqId hctl).symm,
    (congrArg Control.history hctl).symm⟩

theorem prepareTemporaryTargetWrites_unleased (hfault : s.fault = none)
    (hnone : s.activeReservation = none) (r : TemporaryBlockReservation) :
    ∃ e, prepareTemporaryTargetWrites r s = .error e s := by
  refine ⟨.runtimeError "temporary reservation publication drifted", ?_⟩
  unfold prepareTemporaryTargetWrites
  rw [Call.bind_of_ok (tick_quiet hfault), Call.bind_of_ok (Call.get_apply s)]
  have hval : validateLiveReservation s r =
      .error (.runtimeError "temporary reservation publication drifted") := by
    unfold validateLiveReservation
    rw [hnone]
    rfl
  rw [hval]
  exact Call.bind_of_error (liftExcept_error _ s)

namespace Protocol

private theorem of_sameControl (h : Protocol cfg s) (hd : s.activeDraftDiscard = none)
    (hctl : SameControl s t) (hcore : Core cfg [] t) : Protocol cfg t :=
  .of_core (hctl.quiet (h.quiet hd)) hcore ((congrArg Control.activeDraftDiscard hctl).trans hd)
    fun tr htr => (h.linked tr ((congrArg Control.activeSpecTransaction hctl).symm.trans htr)).1

theorem leaves_postprocess (h : Protocol cfg s) (batch tokenIds : List Nat) :
    Call.Leaves (postprocess cfg batch tokenIds) s
      fun t => Protocol cfg t ∧ FewerRunning s t := by
  unfold Call.Leaves postprocess
  rw [Call.bind_of_ok (Call.get_apply s)]
  cases hchecks : postprocessChecks cfg s batch tokenIds with
  | error e =>
    rw [Call.bind_of_error (liftExcept_error e s)]
    exact ⟨h, (SameQueues.refl s).fewerRunning⟩
  | ok u =>
    rw [Call.bind_of_ok (liftExcept_ok u s)]
    have hpost := postprocessChecks_ok hchecks
    have hd := hpost.discard
    have hrows := (h.idle hd).2.leaves_postprocessRows (batch.zip tokenIds) (h.quiet hd)
    unfold Call.Leaves at hrows
    cases hres : postprocessRows cfg (batch.zip tokenIds) s with
    | error e v =>
      rw [hres] at hrows
      rw [Call.bind_of_error hres]
      exact ⟨h.of_sameControl hd hrows.1 hrows.2.2, .of_sameControl hrows.1 hrows.2.1⟩
    | ok events v =>
      rw [hres] at hrows
      rw [Call.bind_of_ok hres, Call.bind_of_ok (Call.modify_apply _ _)]
      have hv : Protocol cfg v := h.of_sameControl hd hrows.1 hrows.2.2
      have hvd : v.activeDraftDiscard = none :=
        (congrArg Control.activeDraftDiscard hrows.1).trans hd
      have hctl := v.closeHandoff_control s batch
      have hq := hv.quiet hvd
      refine ⟨.of_core ⟨?_, ?_, ?_, ?_⟩ (Core.closeHandoff hrows.2.2 s batch)
        ((congrArg Control.activeDraftDiscard hctl).trans hvd) ?_,
        .trans (.of_sameControl hrows.1 hrows.2.1)
          (SameQueues.of_control hctl rfl rfl rfl rfl rfl).fewerRunning⟩
      · exact (congrArg Control.activeReservation hctl).trans hq.reservation
      · exact (congrArg Control.reservationInProgress hctl).trans hq.progress
      · exact (congrArg Control.internalAllocation hctl).trans hq.internal
      · exact (congrArg Control.fault hctl).trans hq.fault
      · intro tr htr
        have htr' := (congrArg Control.activeSpecTransaction hctl).symm.trans htr
        change (if s.activeSpecTransaction.isSome then none else v.activeSpecTransaction) = _
          at htr'
        split at htr'
        · exact absurd htr' (by simp)
        · exact (hv.linked tr htr').1

/-! ### The speculative transaction -/

theorem untouched (h : Protocol cfg s) (ht : Untouched s t) (hfault : t.fault = none) :
    Protocol cfg t := by
  obtain ⟨f, n, c, rfl⟩ := ht
  refine ⟨h.progress, h.internal, hfault, ?_, h.linked, h.closed⟩
  rcases h.lease with ⟨hd, hnone, hcore⟩ | ⟨base, rows, plan, r, hd, hleased, hcore, hrows⟩
  · exact Or.inl ⟨hd, hnone, hcore.untouched ⟨f, n, c, rfl⟩⟩
  · have hnew := hleased.withControl (c := (s.retouch f n c).control) hleased.active
    exact Or.inr ⟨_, rows, plan, r, hd, hnew, hcore.withControl
      (congrArg Control.running hleased.control).symm
      (congrArg Control.waiting hleased.control).symm
      (congrArg Control.midChunkSeq hleased.control).symm
      (congrArg Control.nextSeqId hleased.control).symm,
      fun e he => (congrArg Control.running hleased.control) ▸ hrows e he⟩

private theorem opened {batch : List Nat} {plan : SpecStepPlan}
    {rollback : List DecodeScheduleRollbackRow} (h : Protocol cfg s)
    (hd : s.activeDraftDiscard = none) (ho : Opened cfg s batch plan rollback base rows r t)
    (hfault : t.fault = none) : Protocol cfg t := by
  obtain ⟨u, hu, hbase⟩ := ho.base_eq
  have hcore : Core cfg [] base := by
    rw [hbase]
    exact ((h.idle hd).2.untouched hu).recast (fun _ => .refl _) rfl rfl rfl rfl rfl rfl rfl rfl
  have hctl := ho.leased.control
  have hrunning : base.running = s.running := by
    obtain ⟨f, n, c, rfl⟩ := hu
    rw [hbase]
    rfl
  have hprog : base.reservationInProgress = false := by
    obtain ⟨f, n, c, rfl⟩ := hu
    rw [hbase]
    exact h.progress
  have hint : base.internalAllocation = false := by
    obtain ⟨f, n, c, rfl⟩ := hu
    rw [hbase]
    exact h.internal
  have hdis : t.activeDraftDiscard = some (plan, r) := by
    have hb : base.activeDraftDiscard = t.activeDraftDiscard :=
      congrArg Control.activeDraftDiscard hctl
    rw [← hb, hbase]
    rfl
  have htr : t.activeSpecTransaction = some
      { plan := plan
        reservation := r
        baselineDecodeRollback := rollback
        targetWritesPrepared := false } := by
    have hb : base.activeSpecTransaction = t.activeSpecTransaction :=
      congrArg Control.activeSpecTransaction hctl
    rw [← hb, hbase]
    rfl
  refine ⟨(congrArg Control.reservationInProgress hctl).symm.trans hprog,
    (congrArg Control.internalAllocation hctl).symm.trans hint, hfault,
    Or.inr ⟨base, rows, plan, r, hdis, ho.leased, hcore, ?_⟩, ?_, ?_⟩
  · intro e he
    rw [hrunning, ho.running]
    have hmem : e.1 ∈ rows.map Prod.fst := List.mem_map_of_mem he
    rw [ho.rows_eq, leaseSlices_fst, List.map_map] at hmem
    simpa using hmem
  · intro tr htr'
    rw [htr] at htr'
    rw [← Option.some.inj htr']
    refine ⟨capture_pages ho.capture, ?_⟩
    intro d hd'
    rw [hdis] at hd'
    exact (Option.some.inj hd').symm
  · intro hnone
    rw [htr] at hnone
    exact absurd hnone (by simp)

theorem leaves_plan (h : Protocol cfg s) (workspace : SpeculativeWorkspace) (batch : List Nat)
    (admission : Option DraftRouteAdmission)
    (baseline : Option (List DecodeScheduleRollbackRow)) :
    Call.Leaves (planSpeculativeStep cfg workspace batch admission baseline) s
      fun t => Protocol cfg t ∧ SameQueues s t := by
  have hunarmed : Call.Leaves (planSpeculativeStep cfg workspace batch admission baseline) s
      State.Unarmed := unarmed.planSpeculativeStep workspace batch admission baseline s h.fault
  unfold Call.Leaves at hunarmed ⊢
  cases htr : s.activeSpecTransaction with
  | some tr =>
    have hres : planSpeculativeStep cfg workspace batch admission baseline s =
        .error (.runtimeError "a speculative transaction is already active") s := by
      unfold planSpeculativeStep
      rw [Call.bind_of_ok (tick_quiet h.fault), Call.bind_of_ok (Call.get_apply s)]
      simp [htr]
    rw [hres]
    exact ⟨h, .refl s⟩
  | none =>
    have hd := h.closed htr
    obtain ⟨hnone, hcore⟩ := h.idle hd
    rcases planSpeculativeStep_cases cfg hnone h.progress h.internal hcore.own.poolOk
      workspace batch admission baseline with
      ⟨e, t, hres, ht⟩ | ⟨plan, t, hres, -, ht⟩ | ⟨plan, rollback, base, rows, r, t, hres, ho⟩
    · rw [hres] at hunarmed ⊢
      exact ⟨h.untouched ht hunarmed, .of_untouched ht⟩
    · rw [hres] at hunarmed ⊢
      exact ⟨h.untouched ht hunarmed, .of_untouched ht⟩
    · rw [hres] at hunarmed ⊢
      exact ⟨h.opened hd ho hunarmed, ho.sameQueues⟩

theorem leaves_prepare (h : Protocol cfg s) (plan : SpecStepPlan) :
    Call.Leaves (prepareSpeculativeTargetWrites plan) s
      fun t => Protocol cfg t ∧ SameQueues s t := by
  unfold Call.Leaves prepareSpeculativeTargetWrites
  rw [Call.bind_of_ok (Call.get_apply s)]
  cases htr : s.activeSpecTransaction with
  | none => exact ⟨h, .refl s⟩
  | some tr =>
    dsimp only
    split
    · exact ⟨h, .refl s⟩
    split
    · exact ⟨h, .refl s⟩
    obtain ⟨hpages, hlink⟩ := h.linked tr htr
    rcases h.lease with ⟨hd, hnone, hcore⟩ | ⟨base, rows, plan', r, hd, hleased, hcore, hrows⟩
    · obtain ⟨e, hres⟩ := prepareTemporaryTargetWrites_unleased h.fault hnone tr.reservation
      rw [Call.bind_of_error hres]
      exact ⟨h, .refl s⟩
    · obtain ⟨rfl, rfl⟩ := Prod.mk.inj (hlink _ hd)
      have hunarmed := unarmed.prepareTemporaryTargetWrites tr.reservation s h.fault
      unfold Call.Leaves at hunarmed
      rcases hleased.prepare hcore.own.poolOk with hres | ⟨f, hres, hnew⟩
      · rw [Call.bind_of_error hres]
        exact ⟨h.untouched (.withFault s none) rfl, .of_untouched (.withFault s none)⟩
      · rw [hres] at hunarmed
        have hf : f = none := hunarmed
        subst hf
        rw [Call.bind_of_ok hres, Call.modify_apply, Call.after_ok]
        obtain ⟨w, hw⟩ : ∃ w, w = writableRecord tr.reservation := ⟨_, rfl⟩
        rw [← hw] at hnew ⊢
        obtain ⟨u, hu⟩ : ∃ u : State, u = { s with activeReservation := some w }.withFault none :=
          ⟨_, rfl⟩
        rw [← hu] at hnew ⊢
        have hopen := hnew.withControl (c := (u.replaceLease tr w).control)
          (by rw [hu]; rfl)
        have hrunning : base.running = s.running := congrArg Control.running hleased.control
        refine ⟨⟨by rw [hu]; exact h.progress, by rw [hu]; exact h.internal, by rw [hu]; rfl,
          Or.inr ⟨_, rows, tr.plan, w, rfl, hopen, ?_, ?_⟩, ?_, ?_⟩,
          by rw [hu]; exact ⟨rfl, rfl, rfl, rfl, rfl⟩⟩
        · refine (hcore.wipe (lentBlocks rows)).recast (fun _ => .refl _) rfl rfl rfl rfl ?_ ?_ ?_ ?_
          · rw [hu]
            exact hrunning.symm
          · rw [hu]
            exact (congrArg Control.waiting hleased.control).symm
          · rw [hu]
            exact (congrArg Control.midChunkSeq hleased.control).symm
          · rw [hu]
            exact (congrArg Control.nextSeqId hleased.control).symm
        · intro e he
          change e.1 ∈ u.running
          rw [hu]
          change e.1 ∈ s.running
          rw [← hrunning]
          exact hrows e he
        · intro tr' htr'
          rw [← Option.some.inj htr']
          refine ⟨hpages, ?_⟩
          intro d hd'
          exact (Option.some.inj hd').symm
        · intro hnone
          exact absurd hnone (by simp [State.replaceLease])

variable (cfg) in
theorem commit_unleased {plan : SpecStepPlan} {result : SpecExecutionResult}
    (hfault : s.fault = none) (hnone : s.activeReservation = none) :
    ∃ e, commitSpeculative cfg plan result s = .error e s := by
  unfold commitSpeculative
  rw [Call.bind_of_ok (tick_quiet hfault), Call.bind_of_ok (Call.get_apply s)]
  cases htr : s.activeSpecTransaction with
  | none => exact ⟨_, rfl⟩
  | some tr =>
    dsimp only
    cases hchecks : commitChecks cfg s tr plan result with
    | error e => exact ⟨e, Call.bind_of_error (liftExcept_error e s)⟩
    | ok prepared =>
      refine ⟨.runtimeError "speculative commit did not finalize its lease", ?_⟩
      rw [Call.bind_of_ok (liftExcept_ok _ _)]
      apply Call.bind_of_error
      have hfin : finalizeTemporaryAppend tr.reservation
          (List.zipWith (keepCount cfg) prepared tr.reservation.rows) s = .ok false s := by
        unfold finalizeTemporaryAppend
        rw [Call.bind_of_ok (Call.get_apply s), hnone]
        rfl
      have hback : s.restoreCommit s
          (tr.reservation.rows.map TemporaryReservationRow.sequence) = s := by
        have hsame : s.restoreCommit s (tr.reservation.rows.map TemporaryReservationRow.sequence) =
            s.withFault s.fault := State.restoreCommit_eq (fun _ _ => rfl) rfl
        rwa [State.withFault_self] at hsame
      unfold applyCommit
      rw [Call.tryCatch_of_error (t := s)
        (e := .runtimeError "speculative commit did not finalize its lease")]
      · rw [Call.bind_of_ok (Call.modify_apply _ _), hback]
        rfl
      · rw [Call.bind_of_ok hfin]
        rfl

theorem leaves_commit (h : Protocol cfg s) (plan : SpecStepPlan) (result : SpecExecutionResult) :
    Call.Leaves (commitSpeculative cfg plan result) s
      fun t => Protocol cfg t ∧ FewerRunning s t := by
  unfold Call.Leaves
  rcases h.lease with ⟨hd, hnone, hcore⟩ | ⟨base, rows, plan', r, hd, hleased, hcore, hrows⟩
  · obtain ⟨e, hres⟩ := commit_unleased cfg h.fault hnone
    rw [hres]
    exact ⟨h, (SameQueues.refl s).fewerRunning⟩
  · cases htr : s.activeSpecTransaction with
    | none =>
      rw [h.closed htr] at hd
      exact absurd hd (by simp)
    | some tr =>
      obtain ⟨-, hlink⟩ := h.linked tr htr
      obtain ⟨rfl, rfl⟩ := Prod.mk.inj (hlink _ hd)
      rcases commitSpeculative_cases plan result hleased hcore htr h.progress
        h.internal with ⟨e, f, hres⟩ | ⟨events, u, hres, hquiet⟩
      · have hunarmed : Call.Leaves (commitSpeculative cfg plan result) s State.Unarmed :=
          unarmed.commitSpeculative plan result s h.fault
        unfold Call.Leaves at hunarmed
        rw [hres] at hunarmed ⊢
        exact ⟨h.untouched (.withFault s f) hunarmed,
          (SameQueues.of_untouched (.withFault s f)).fewerRunning⟩
      · rw [hres]
        obtain ⟨prepared, desired, hc, hdes, -, hu⟩ := hquiet h.fault
        have hkept := hleased.kept_core hcore (desiredRetention_ok hdes).1 hrows
        have hall := hkept.commitAll (hc.bursts hleased hcore hdes)
        have hctl := (base.lend (keptRows desired)).commitAll_control cfg prepared
        have hrun := State.commitAll_running_sublist cfg prepared (base.lend (keptRows desired))
        obtain ⟨v, hv⟩ : ∃ v, v = (base.lend (keptRows desired)).commitAll cfg prepared := ⟨_, rfl⟩
        rw [← hv] at hall hctl hrun hu
        subst hu
        have hbase : SameQueues s (base.lend (keptRows desired)) :=
          .of_control (c := base.control) rfl (congrArg Control.running hleased.control)
            (congrArg Control.waiting hleased.control)
            (congrArg Control.midChunkSeq hleased.control)
            (congrArg Control.nextSeqId hleased.control) (congrArg Control.history hleased.control)
        refine ⟨.of_core ⟨?_, ?_, ?_, ?_⟩
          (hall.recast (fun _ => .refl _) rfl rfl rfl rfl rfl rfl rfl rfl) rfl ?_,
          hbase.fewerRunning.trans (.trans (.of_sameControl hctl hrun)
            (SameQueues.fewerRunning ⟨rfl, rfl, rfl, rfl, rfl⟩))⟩
        · exact (congrArg Control.activeReservation hctl).trans
            (congrArg Control.activeReservation hleased.control)
        · exact (congrArg Control.reservationInProgress hctl).trans
            ((congrArg Control.reservationInProgress hleased.control).trans h.progress)
        · exact (congrArg Control.internalAllocation hctl).trans
            ((congrArg Control.internalAllocation hleased.control).trans h.internal)
        · exact (congrArg Control.fault hctl).trans
            ((congrArg Control.fault hleased.control).trans h.fault)
        · intro tr' htr'
          exact absurd htr' (by simp [State.closeTransaction])

theorem leaves_handoff (h : Protocol cfg s) (plan : SpecStepPlan) :
    Call.Leaves (handoffDraftDiscard plan) s fun t => Protocol cfg t ∧ SameQueues s t := by
  unfold Call.Leaves handoffDraftDiscard
  rw [Call.bind_of_ok (tick_quiet h.fault), Call.bind_of_ok (Call.get_apply s)]
  cases hchecks : handoffChecks s plan with
  | error e =>
    rw [Call.bind_of_error (liftExcept_error e s)]
    exact ⟨h, .refl s⟩
  | ok u =>
    rw [Call.bind_of_ok (liftExcept_ok u s)]
    unfold handoffChecks at hchecks
    obtain ⟨-, hchecks⟩ := Call.except_guard hchecks
    obtain ⟨-, hchecks⟩ := Call.except_guard hchecks
    have hactive : s.activeDraftDiscard.map Prod.fst = some plan := by
      by_contra hne
      rw [if_pos hne] at hchecks
      exact absurd hchecks (by simp [throw, throwThe, MonadExceptOf.throw])
    obtain ⟨d, hd, rfl⟩ := Option.map_eq_some_iff.mp hactive
    cases htr : s.activeSpecTransaction with
    | none =>
      rw [h.closed htr] at hd
      exact absurd hd (by simp)
    | some tr =>
      have hdeq := (h.linked tr htr).2 d hd
      rw [hdeq]
      obtain ⟨released, v, hrel, hv, hvd, hvtr, -, hqueues⟩ := h.releaseDiscard htr
      rw [Call.bind_of_ok hrel]
      split
      · rw [Call.bind_of_ok (tick_quiet hv.fault), Call.modify_apply, Call.after_ok]
        have hq := hv.quiet hvd
        exact ⟨.of_core ⟨hq.reservation, hq.progress, hq.internal, hq.fault⟩
          ((hv.idle hvd).2.recast (fun _ => .refl _) rfl rfl rfl rfl rfl rfl rfl rfl) hvd
          fun tr' htr' => (hv.linked tr' htr').1,
          hqueues.trans ⟨rfl, rfl, rfl, rfl, rfl⟩⟩
      · exact ⟨hv, hqueues⟩

theorem leaves_stage (h : Protocol cfg s) (plan : SpecStepPlan) (batch : List Nat)
    (coverage : List (Nat × Nat)) :
    Call.Leaves (stageDraftCoverage plan batch coverage) s
      fun t => Protocol cfg t ∧ SameQueues s t := by
  unfold Call.Leaves stageDraftCoverage
  rw [Call.bind_of_ok (tick_quiet h.fault), Call.bind_of_ok (Call.get_apply s)]
  cases hchecks : stageChecks s plan batch coverage with
  | error e =>
    rw [Call.bind_of_error (liftExcept_error e s)]
    exact ⟨h, .refl s⟩
  | ok u =>
    rw [Call.bind_of_ok (liftExcept_ok u s), Call.set_apply, Call.after_ok]
    unfold stageChecks at hchecks
    obtain ⟨-, hchecks⟩ := Call.except_guard hchecks
    obtain ⟨hd, -⟩ := Call.except_guard hchecks
    have hd' : s.activeDraftDiscard = none := by simpa using hd
    have hq := h.quiet hd'
    exact ⟨.of_core ⟨hq.reservation, hq.progress, hq.internal, hq.fault⟩
      ((h.idle hd').2.recast (fun _ => .refl _) rfl rfl rfl rfl rfl rfl rfl rfl) hd'
      fun tr htr => (h.linked tr htr).1, ⟨rfl, rfl, rfl, rfl, rfl⟩⟩

/-! ### Cancellation -/

theorem dropPendingCoverage (h : Protocol cfg s) (hd : s.activeDraftDiscard = none)
    (targets : List Nat) : Protocol cfg (s.dropPendingCoverage targets) ∧
      SameQueues s (s.dropPendingCoverage targets) ∧
      (s.dropPendingCoverage targets).activeDraftDiscard = none ∧
      (s.dropPendingCoverage targets).activeSpecTransaction = s.activeSpecTransaction := by
  unfold State.dropPendingCoverage
  split
  · exact ⟨h, .refl s, hd, rfl⟩
  · split
    · exact ⟨h.withoutPending hd, ⟨rfl, rfl, rfl, rfl, rfl⟩, hd, rfl⟩
    · exact ⟨h, .refl s, hd, rfl⟩

private theorem cancel_targets (h : Protocol cfg s) (htr : s.activeSpecTransaction = none)
    (targets : List Nat) :
    (do
      cancelWaiting (s.waiting.filter (· ∈ targets))
      cancelRunning (s.running.filter (· ∈ targets))
      checkMidChunkInvariant : Call Unit) s = .ok ⟨⟩ (s.drop targets) ∧
      Protocol cfg (s.drop targets) := by
  have hd := h.closed htr
  obtain ⟨-, hcore⟩ := h.idle hd
  have hq := h.quiet hd
  have hlive := hcore.own.live_nodup
  rw [List.nil_append, List.nodup_append] at hlive
  have hwn : (s.waiting.filter (· ∈ targets)).Nodup := hlive.2.1.filter _
  have hrn : (s.running.filter (· ∈ targets)).Nodup := hlive.1.filter _
  have hwait := cancelWaiting_quiet hwn (fun x hx => (List.mem_filter.mp hx).1) hcore hq
  obtain ⟨hcore', hq'⟩ := forgetAll_mem hwn
    (fun x hx => List.mem_append_right _ (List.mem_filter.mp hx).1) hcore hq
  obtain ⟨u, hu⟩ : ∃ u, u = s.forgetAll (s.waiting.filter (· ∈ targets)) := ⟨_, rfl⟩
  rw [← hu] at hwait hcore' hq'
  have hctl : u.control = { s.control with
      running := u.running
      waiting := u.waiting
      midChunkSeq := u.midChunkSeq
      history := u.history } := by
    rw [hu]
    exact State.forgetAll_control s _
  have hrunning : ∀ x ∈ s.running.filter (· ∈ targets), x ∈ u.running := by
    intro x hx
    rw [hu, State.forgetAll_running]
    · exact (List.mem_filter.mp hx).1
    · intro y hy hyr
      exact hlive.2.2 y hyr y (List.mem_filter.mp hy).1 rfl
  have hrun := cancelRunning_quiet hrn hrunning hcore' hq'
  obtain ⟨hcore'', hq''⟩ := forgetAll_mem hrn
    (fun x hx => List.mem_append_left _ (hrunning x hx)) hcore' hq'
  obtain ⟨v, hv⟩ : ∃ v, v = u.forgetAll (s.running.filter (· ∈ targets)) := ⟨_, rfl⟩
  rw [← hv] at hrun hcore'' hq''
  have hctl' : v.control = { u.control with
      running := v.running
      waiting := v.waiting
      midChunkSeq := v.midChunkSeq
      history := v.history } := by
    rw [hv]
    exact State.forgetAll_control u _
  have hdrop : s.drop targets = v := by rw [State.drop, ← hu, ← hv]
  rw [hdrop]
  refine ⟨?_, ?_⟩
  · rw [Call.bind_of_ok hwait, Call.bind_of_ok hrun]
    exact checkMidChunkInvariant_core hcore''
  · refine .of_core hq'' hcore'' ?_ ?_
    · exact (congrArg Control.activeDraftDiscard hctl').trans
        ((congrArg Control.activeDraftDiscard hctl).trans hd)
    · intro tr htr'
      have hsame : v.activeSpecTransaction = s.activeSpecTransaction :=
        (congrArg Control.activeSpecTransaction hctl').trans
          (congrArg Control.activeSpecTransaction hctl)
      rw [hsame, htr] at htr'
      exact absurd htr' (by simp)

/-- A cancellation finds no target, fails to abort the transaction, or forgets every queued
target of the state that the abort leaves. -/
theorem cancel_steps (h : Protocol cfg s) (targets : List Nat) :
    (s.queued targets = [] ∧ cancel cfg targets s = .ok [] s) ∨
    s.queued targets ≠ [] ∧
      ((∃ e u, abortSpeculativeStep cfg s = .error e u ∧ cancel cfg targets s = .error e u) ∨
      ∃ aborted u, abortSpeculativeStep cfg s = .ok aborted u ∧
        Protocol cfg ((u.dropPendingCoverage targets).drop targets) ∧
        cancel cfg targets s = .ok (s.queued targets)
          ((u.dropPendingCoverage targets).drop targets)) := by
  unfold cancel State.queued
  rw [Call.bind_of_ok (Call.get_apply s)]
  split
  · rename_i hnone
    exact Or.inl ⟨hnone, rfl⟩
  rename_i hsome
  refine Or.inr ⟨hsome, ?_⟩
  obtain ⟨habort, hclosed⟩ := h.leaves_abort
  unfold Call.Leaves at habort
  cases hres : abortSpeculativeStep cfg s with
  | error e u => exact Or.inl ⟨e, u, rfl, Call.bind_of_error hres⟩
  | ok aborted u =>
    right
    rw [hres] at habort
    have hutr := hclosed aborted u hres
    obtain ⟨hu, hqueues⟩ := habort
    have hu' : Protocol cfg u := hu
    have hud := hu'.closed hutr
    obtain ⟨hp, hpq, -, hptr⟩ := hu'.dropPendingCoverage hud targets
    have hwait := (hqueues.trans hpq).waiting
    have hrun := (hqueues.trans hpq).running
    obtain ⟨hw, hpw⟩ := hp.cancel_targets (hptr.trans hutr) targets
    rw [hwait, hrun] at hw
    refine ⟨aborted, u, rfl, hpw, ?_⟩
    rw [Call.bind_of_ok hres, Call.bind_of_ok (rollbackActiveDraftDiscard_idle hud),
      Call.bind_of_ok (Call.modify_apply _ _)]
    obtain ⟨⟨⟩, w₁, h₁, hw⟩ := Call.bind_ok hw
    obtain ⟨⟨⟩, w₂, h₂, hw⟩ := Call.bind_ok hw
    rw [Call.bind_of_ok h₁, Call.bind_of_ok h₂, Call.bind_of_ok hw]
    rfl

theorem cancel_cases (h : Protocol cfg s) (targets : List Nat) :
    cancel cfg targets s = .ok [] s ∨
    (∃ e u, cancel cfg targets s = .error e u ∧ Protocol cfg u ∧ SameQueues s u) ∨
    ∃ u, Protocol cfg u ∧ SameQueues s u ∧ Protocol cfg (u.drop targets) ∧
      cancel cfg targets s = .ok (s.queued targets) (u.drop targets) := by
  obtain ⟨habort, hclosed⟩ := h.leaves_abort
  unfold Call.Leaves at habort
  rcases h.cancel_steps targets with
    ⟨-, hres⟩ | ⟨-, ⟨e, u, hu, hres⟩ | ⟨aborted, u, hu, hdrop, hres⟩⟩
  · exact Or.inl hres
  · rw [hu] at habort
    exact Or.inr (Or.inl ⟨e, u, hres, habort.1, habort.2⟩)
  · have hutr := hclosed aborted u hu
    rw [hu] at habort
    obtain ⟨hp, hqueues⟩ := habort
    have hp' : Protocol cfg u := hp
    obtain ⟨hpend, hpq, -, -⟩ := hp'.dropPendingCoverage (hp'.closed hutr) targets
    exact Or.inr (Or.inr ⟨_, hpend, hqueues.trans hpq, hdrop, hres⟩)

theorem leaves_cancel (h : Protocol cfg s) (targets : List Nat) :
    Call.Leaves (cancel cfg targets) s (Protocol cfg) := by
  unfold Call.Leaves
  rcases h.cancel_cases targets with hres | ⟨e, u, hres, hu, -⟩ | ⟨u, -, -, hdrop, hres⟩
  · rw [hres]
    exact h
  · rw [hres]
    exact hu
  · rw [hres]
    exact hdrop

end Protocol

/-! ### Runs -/

/-- A public call on the scheduler, with any arguments. -/
inductive Op
  | add (tokenIds : List Nat) (maxTokens : Nat) (ignoreEos : Bool)
  | schedule
  | postprocess (batch tokenIds : List Nat)
  | plan (workspace : SpeculativeWorkspace) (batch : List Nat)
      (admission : Option DraftRouteAdmission)
      (baseline : Option (List DecodeScheduleRollbackRow))
  | prepare (plan : SpecStepPlan)
  | commit (plan : SpecStepPlan) (result : SpecExecutionResult)
  | abort
  | handoff (plan : SpecStepPlan)
  | stage (plan : SpecStepPlan) (batch : List Nat) (coverage : List (Nat × Nat))
  | cancel (targets : List Nat)

def Op.apply (cfg : Config) (s : State) : Op → State
  | .add tokenIds maxTokens ignoreEos => Call.after (NanoVllm.add cfg tokenIds maxTokens ignoreEos s)
  | .schedule => Call.after (NanoVllm.schedule cfg s)
  | .postprocess batch tokenIds => Call.after (NanoVllm.postprocess cfg batch tokenIds s)
  | .plan workspace batch admission baseline =>
    Call.after (planSpeculativeStep cfg workspace batch admission baseline s)
  | .prepare p => Call.after (prepareSpeculativeTargetWrites p s)
  | .commit p result => Call.after (commitSpeculative cfg p result s)
  | .abort => Call.after (abortSpeculativeStep cfg s)
  | .handoff p => Call.after (handoffDraftDiscard p s)
  | .stage p batch coverage => Call.after (stageDraftCoverage p batch coverage s)
  | .cancel targets => Call.after (NanoVllm.cancel cfg targets s)

theorem Protocol.apply (h : Protocol cfg s) (op : Op) :
    Protocol cfg (op.apply cfg s) := by
  cases op with
  | add tokenIds maxTokens ignoreEos => exact h.leaves_add tokenIds maxTokens ignoreEos
  | schedule => exact leaves_schedule h
  | postprocess batch tokenIds => exact (h.leaves_postprocess batch tokenIds).1
  | plan workspace batch admission baseline =>
    exact (h.leaves_plan workspace batch admission baseline).1
  | prepare plan => exact (h.leaves_prepare plan).1
  | commit plan result => exact (h.leaves_commit plan result).1
  | abort => exact h.leaves_abort.1.1
  | handoff plan => exact (h.leaves_handoff plan).1
  | stage plan batch coverage => exact (h.leaves_stage plan batch coverage).1
  | cancel targets => exact h.leaves_cancel targets

/-- `_assert_ownership`, with the sharing rule and the index rule: live block tables own the
used blocks, shared ones below the coverage only. -/
structure Owned (cfg : Config) (s : State) : Prop where
  free_nodup : s.freeBlockIds.Nodup
  disjoint : ∀ b, ¬ (b ∈ s.freeBlockIds ∧ b ∈ s.usedBlockIds)
  cover : ∀ b, b ∈ s.freeBlockIds ∨ b ∈ s.usedBlockIds ↔ b < cfg.numKvcacheBlocks
  ref_count : ∀ b, (s.blocks b).refCount =
    ((s.running ++ s.waiting).map fun x => (s.seqs x).blockTable.count b).sum
  ref_zero : ∀ b, b < cfg.numKvcacheBlocks →
    ((s.blocks b).refCount = 0 ↔ b ∈ s.freeBlockIds)
  shared : ∀ x ∈ s.running ++ s.waiting, ∀ i b, (s.seqs x).blockTable[i]? = some b →
    1 < (s.blocks b).refCount → i < (s.seqs x).numCachedTokens / cfg.kvcacheBlockSize
  exclusive : ∀ x ∈ s.running ++ s.waiting, ∀ i b, (s.seqs x).blockTable[i]? = some b →
    (s.seqs x).numCachedTokens / cfg.kvcacheBlockSize ≤ i →
      (s.blocks b).refCount = 1 ∧ (s.blocks b).hash = none
  index : ∀ h b, s.hashToBlockId.lookup h = some b →
    (s.blocks b).hash = some h ∧ (s.blocks b).tokenIds.length = cfg.kvcacheBlockSize

theorem Core.owned (h : Core cfg [] s) : Owned cfg s := by
  have hown := h.own
  rw [List.nil_append] at hown
  refine ⟨hown.free_nodup, ?_, ?_, ?_, ?_, ?_, hown.high, ?_⟩
  · intro b hb
    exact ((hown.mem_free b).mp hb.1).2 hb.2
  · intro b
    constructor
    · rintro (hb | hb)
      · exact ((hown.mem_free b).mp hb).1
      · exact hown.used_lt b hb
    · intro hb
      by_cases hused : b ∈ s.usedBlockIds
      · exact Or.inr hused
      · exact Or.inl ((hown.mem_free b).mpr ⟨hb, hused⟩)
  · exact hown.ref_eq
  · intro b hb
    constructor
    · intro hzero
      refine (hown.mem_free b).mpr ⟨hb, ?_⟩
      rw [hown.mem_used]
      omega
    · exact hown.ref_eq_zero_of_mem_free
  · exact fun x hx i b hi href => hown.lt_cov_of_shared hx hi href
  · exact fun k b hk => (hown.index k b hk).2

theorem Owned.drained (h : Owned cfg s) (hrun : s.running = []) (hwait : s.waiting = [])
    {b : Nat} (hb : b < cfg.numKvcacheBlocks) :
    b ∈ s.freeBlockIds ∧ (s.blocks b).refCount = 0 := by
  have hzero : (s.blocks b).refCount = 0 := by
    rw [h.ref_count, hrun, hwait]
    rfl
  exact ⟨(h.ref_zero b hb).mp hzero, hzero⟩

end NanoVllm
