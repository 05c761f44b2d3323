/- module: NanoVllm/Speculation/Planning
   layer: refinement
   source: nanovllm/engine/scheduler.py, plan_speculative_step and
     prepare_speculative_target_writes; nanovllm/engine/speculative_plan.py
   digest: A plan opens one transaction over one lease, or bypasses and leaves no trace. -/

import NanoVllm.Ownership.LeaseAlgebra
import NanoVllm.Speculation.Undo
import NanoVllm.Engine.SpeculativeStep

set_option autoImplicit false
set_option relaxedAutoImplicit false

namespace NanoVllm

open Library

variable {cfg : Config} {s t base : State} {rows : List (Nat × List Nat)}
  {r : TemporaryBlockReservation} {x : Nat}

private theorem buildFallbackPlan_ok {workspace : SpeculativeWorkspace} {cycleId : Nat}
    {planRows : List SpecPlanRow} {configuredK cap : Nat} {key : Option DraftRouteKey}
    {reason : Option String} {plan : SpecStepPlan}
    (h : buildFallbackPlan workspace cycleId planRows configuredK cap key reason = .ok plan) :
    plan.effectiveK = 0 := by
  obtain ⟨-, h⟩ := Call.except_guard h
  obtain ⟨⟨⟩, -, h⟩ := Call.except_bind_ok h
  obtain rfl := Except.ok.inj h
  rfl

private theorem headroomCheck_ok {k : Nat} {row : SpecPlanRow} (h : row.headroomCheck k = .ok ⟨⟩) :
    k + 1 ≤ row.remainingCompletionTokens ∧ k ≤ row.modelPositionHeadroom := by
  obtain ⟨hrem, h⟩ := Call.except_guard h
  refine ⟨Nat.le_of_not_lt hrem, ?_⟩
  by_contra hlt
  rw [if_pos (Nat.lt_of_not_le hlt)] at h
  exact absurd h (by simp [throw, throwThe, MonadExceptOf.throw])

structure Promises (planRows : List SpecPlanRow) (k : Nat) (plan : SpecStepPlan) : Prop where
  effectiveK : plan.effectiveK = k
  rows : plan.rows = planRows.map (SpecPlanRow.withWrites k)
  headroom : ∀ row ∈ planRows, k + 1 ≤ row.remainingCompletionTokens ∧ k ≤ row.modelPositionHeadroom

private theorem buildPositivePlan_ok {workspace : SpeculativeWorkspace} {cycleId : Nat}
    {planRows : List SpecPlanRow} {configuredK cap k budget : Nat} {key : Option DraftRouteKey}
    {reason : Option String} {plan : SpecStepPlan}
    (h : buildPositivePlan workspace cycleId planRows configuredK cap k budget key reason =
      .ok plan) : Promises planRows k plan := by
  obtain ⟨-, h⟩ := Call.except_guard h
  cases key with
  | none => exact absurd h (by simp [throw, throwThe, MonadExceptOf.throw])
  | some key =>
    obtain ⟨⟨⟩, -, h⟩ := Call.except_bind_ok h
    obtain ⟨-, h⟩ := Call.except_guard h
    obtain ⟨-, h⟩ := Call.except_guard h
    obtain ⟨-, h⟩ := Call.except_guard h
    obtain ⟨-, h⟩ := Call.except_guard h
    obtain ⟨-, h⟩ := Call.except_guard h
    obtain ⟨⟨⟩, hhead, h⟩ := Call.except_bind_ok h
    obtain ⟨certificate, -, h⟩ := Call.except_bind_ok h
    obtain ⟨⟨⟩, -, h⟩ := Call.except_bind_ok h
    obtain rfl := Except.ok.inj h
    exact ⟨rfl, rfl, fun row hrow => headroomCheck_ok (Call.except_forM_ok hhead row hrow)⟩

theorem buildSpeculativeStepPlan_ok {workspace : SpeculativeWorkspace} {cycleId : Nat}
    {planRows : List SpecPlanRow} {configuredK cap k budget : Nat} {key : Option DraftRouteKey}
    {reason : Option String} {plan : SpecStepPlan}
    (h : buildSpeculativeStepPlan workspace cycleId planRows configuredK cap k budget key reason =
      .ok plan) : (k = 0 ∧ plan.effectiveK = 0) ∨ (0 < k ∧ Promises planRows k plan) := by
  obtain ⟨-, h⟩ := Call.except_guard h
  obtain ⟨-, h⟩ := Call.except_guard h
  obtain ⟨-, h⟩ := Call.except_guard h
  by_cases hk : k = 0
  · rw [if_pos hk] at h
    exact Or.inl ⟨hk, buildFallbackPlan_ok h⟩
  · rw [if_neg hk] at h
    exact Or.inr ⟨Nat.pos_of_ne_zero hk, buildPositivePlan_ok h⟩

private theorem Leased.openTransaction (h : Leased base rows t r) (plan : SpecStepPlan)
    (rollback : List DecodeScheduleRollbackRow) :
    Leased (base.openTransaction plan r rollback) rows (t.openTransaction plan r rollback) r where
  pool := by
    apply State.ext_control
    · exact h.seqs_eq
    · exact h.blocks_eq
    · exact h.index_eq
    · exact h.free_eq
    · exact h.used_eq
    · rfl
  record := h.record
  active := h.active
  control := by
    change { base.control with
      activeDraftDiscard := some (plan, r)
      activeSpecTransaction := some ⟨plan, r, rollback, false⟩ } = _
    rw [h.control]
    rfl
  distinct := h.distinct
  front := h.front

private theorem publishTransaction_cases (h : Leased base rows t r) (hok : PoolOk base)
    (hdis : t.activeDraftDiscard = none) (htr : t.activeSpecTransaction = none)
    (rollback : List DecodeScheduleRollbackRow) (plan : SpecStepPlan) :
    (∃ e f, publishTransaction rollback plan r t = .error e (base.withFault f)) ∨
    (∃ f, publishTransaction rollback plan r t =
      .ok { plan with rows := attachTables t plan.rows }
        ((t.openTransaction { plan with rows := attachTables t plan.rows } r rollback).withFault
          f)) := by
  have hclose : ∀ f, (t.withFault f).closeTransaction = t.withFault f := by
    intro f
    unfold State.closeTransaction State.withFault
    rw [← hdis, ← htr]
  have hundo : ∀ e f, (do
      modify State.closeTransaction
      let _ ← rollbackTemporaryAppend r
      throw e : Call SpecStepPlan) (t.withFault f) = .error e (base.withFault f) := by
    intro e f
    rw [Call.bind_of_ok (Call.modify_apply _ _), hclose,
      Call.bind_of_ok ((h.withFault f).rollback (hok.withFault f))]
    rfl
  unfold publishTransaction
  rcases tick_cases t with ⟨f, htick⟩ | htick
  swap
  · left
    refine ⟨.injected, none, ?_⟩
    rw [Call.tryCatch_of_error (Call.bind_of_error htick)]
    exact hundo _ _
  have htables : attachTables (t.withFault f) plan.rows = attachTables t plan.rows := rfl
  cases hpost : ({ plan with rows := attachTables t plan.rows } : SpecStepPlan).postInit with
  | error e =>
    left
    refine ⟨e, f, ?_⟩
    rw [Call.tryCatch_of_error (e := e) (t := t.withFault f)]
    · exact hundo _ _
    · rw [Call.bind_of_ok htick, Call.bind_of_ok (Call.get_apply _)]
      simp only [htables, hpost]
      exact Call.bind_of_error (liftExcept_error e _)
  | ok u =>
    right
    refine ⟨f, Call.tryCatch_of_ok ?_⟩
    rw [Call.bind_of_ok htick, Call.bind_of_ok (Call.get_apply _)]
    simp only [htables, hpost]
    rw [Call.bind_of_ok (liftExcept_ok _ _)]
    rfl

structure Opened (cfg : Config) (s : State) (batch : List Nat) (plan : SpecStepPlan)
    (rollback : List DecodeScheduleRollbackRow) (base : State) (rows : List (Nat × List Nat))
    (r : TemporaryBlockReservation) (t : State) : Prop where
  leased : Leased base rows t r
  base_eq : ∃ u, Untouched s u ∧ base = u.openTransaction plan r rollback
  capture : captureDecodeScheduleRollback cfg s batch false = some rollback
  running : s.running = batch
  positive : 0 < plan.effectiveK
  rows_eq : rows = leaseSlices s.freeBlockIds (batch.map fun x =>
    ⟨x, leaseNeed cfg s x ((s.seqs x).numTokens + plan.effectiveK - 1)⟩)
  room : (batch.map fun x =>
    leaseNeed cfg s x ((s.seqs x).numTokens + plan.effectiveK - 1)).sum ≤ s.freeBlockIds.length
  planRows : plan.rows = batch.map fun x =>
    { (planRow cfg s x).withWrites plan.effectiveK with blockTable := t.table x }
  headroom : ∀ x ∈ batch, plan.effectiveK + 1 ≤ (s.seqs x).maxTokens - (s.seqs x).numCompletionTokens
    ∧ plan.effectiveK ≤ cfg.maxModelLen - (s.seqs x).numTokens

/-- The lease reaches the last position that the plan writes for a row. -/
theorem Opened.reach {plan : SpecStepPlan} {rollback : List DecodeScheduleRollbackRow}
    {batch : List Nat} {x : Nat} (h : Opened cfg s batch plan rollback base rows r t)
    (hx : x ∈ batch) : (s.seqs x).numTokens + plan.effectiveK ≤
      ((s.table x).length + (lentTo rows x).length) * cfg.kvcacheBlockSize := by
  have hpositive := h.positive
  have hdistinct := h.leased.distinct
  rw [h.rows_eq] at hdistinct
  have hlent := length_lentTo_leaseSlices hdistinct h.room hx
  rw [← h.rows_eq, leaseNeed_eq] at hlent
  have hpages : ((s.seqs x).numTokens + plan.effectiveK - 1) / cfg.kvcacheBlockSize + 1 ≤
      (s.table x).length + (lentTo rows x).length := by
    rw [hlent]
    omega
  have hlast := (Nat.div_lt_iff_lt_mul cfg.blockSize_pos).mp hpages
  omega

private theorem wanted_eq (cfg : Config) (s : State) (batch : List Nat) (k : Nat) :
    batch.zip (((batch.map (planRow cfg s)).map (SpecPlanRow.withWrites k)).map
      fun row => row.highestTargetWritePosition.getD 0) =
      batch.map fun x => (x, (s.seqs x).numTokens + k - 1) := by
  induction batch with
  | nil => rfl
  | cons x batch ih =>
    simp only [List.map_cons, List.zip_cons_cons, ih]
    rfl

private theorem attachTables_eq (cfg : Config) (s t : State) (batch : List Nat) (k : Nat) :
    attachTables t ((batch.map (planRow cfg s)).map (SpecPlanRow.withWrites k)) =
      batch.map fun x => { (planRow cfg s x).withWrites k with blockTable := t.table x } := by
  unfold attachTables
  rw [List.map_map, List.map_map]
  rfl

section Plan

variable {build : Nat → Option String → Option DraftRouteKey → Except Raised SpecStepPlan}
  {planRows : List SpecPlanRow} {batch : List Nat}

def Builds (build : Nat → Option String → Option DraftRouteKey → Except Raised SpecStepPlan)
    (planRows : List SpecPlanRow) : Prop :=
  ∀ k reason key plan, build k reason key = .ok plan →
    (k = 0 ∧ plan.effectiveK = 0) ∨ (0 < k ∧ Promises planRows k plan)

private theorem Builds.zero (h : Builds build planRows) {reason : Option String}
    {key : Option DraftRouteKey} {plan : SpecStepPlan} (hb : build 0 reason key = .ok plan) :
    plan.effectiveK = 0 := by
  rcases h 0 reason key plan hb with ⟨-, hk⟩ | ⟨hk, -⟩
  · exact hk
  · exact absurd hk (by omega)

private theorem proposePlan_ok (h : Builds build planRows) {cap : Nat}
    {admission : Option DraftRouteAdmission} {plan : SpecStepPlan}
    (hp : proposePlan cfg build planRows cap admission = .ok plan) :
    plan.effectiveK = 0 ∨ Promises planRows plan.effectiveK plan := by
  unfold proposePlan at hp
  simp only at hp
  split at hp
  · obtain ⟨reason, -, hp⟩ := Call.except_bind_ok hp
    exact Or.inl (h.zero hp)
  · split at hp
    · exact Or.inl (h.zero hp)
    · split at hp
      · exact Or.inl (h.zero hp)
      · exact absurd hp (by simp)
      · rename_i hbuild
        obtain rfl := Except.ok.inj hp
        rcases h _ _ _ _ hbuild with ⟨-, hk⟩ | ⟨-, hpr⟩
        · exact Or.inl hk
        · rw [hpr.effectiveK]
          exact Or.inr hpr

/-- The outcomes of planning: it raises or bypasses without a trace, or opens a transaction. -/
def PlanOutcome (cfg : Config) (s : State) (batch : List Nat)
    (result : EStateM.Result Raised State SpecStepPlan) : Prop :=
  (∃ e t, result = .error e t ∧ Untouched s t) ∨
  (∃ plan t, result = .ok plan t ∧ plan.effectiveK = 0 ∧ Untouched s t) ∨
  (∃ plan rollback base rows r t, result = .ok plan t ∧
    Opened cfg s batch plan rollback base rows r t)

private theorem leasePlan_cases (h : Builds build (batch.map (planRow cfg s)))
    (hst : Untouched s t) (hnone : s.activeReservation = none)
    (hprog : s.reservationInProgress = false) (hint : s.internalAllocation = false)
    (hok : PoolOk s) (hdis : s.activeDraftDiscard = none) (htr : s.activeSpecTransaction = none)
    {rollback : List DecodeScheduleRollbackRow}
    (hcap : captureDecodeScheduleRollback cfg s batch false = some rollback)
    (hrun : s.running = batch) {plan : SpecStepPlan} (hk : 0 < plan.effectiveK)
    (hplan : Promises (batch.map (planRow cfg s)) plan.effectiveK plan) :
    PlanOutcome cfg s batch (leasePlan cfg build rollback batch plan t) := by
  obtain ⟨k, hkk⟩ : ∃ k, k = plan.effectiveK := ⟨_, rfl⟩
  have hwanted := wanted_eq cfg s batch k
  rw [← hkk] at hk hplan
  have hrows := hplan.rows
  have htok : PoolOk t := hok.untouched hst
  have hneed : ∀ x p, leaseNeed cfg t x p = leaseNeed cfg s x p := by
    intro x p
    obtain ⟨f, n, c, rfl⟩ := hst
    rfl
  have hfree : t.freeBlockIds = s.freeBlockIds := by
    obtain ⟨f, n, c, rfl⟩ := hst
    rfl
  have htnone : t.activeReservation = none := by
    obtain ⟨f, n, c, rfl⟩ := hst
    exact hnone
  have htprog : t.reservationInProgress = false := by
    obtain ⟨f, n, c, rfl⟩ := hst
    exact hprog
  have htint : t.internalAllocation = false := by
    obtain ⟨f, n, c, rfl⟩ := hst
    exact hint
  have htdis : t.activeDraftDiscard = none := by
    obtain ⟨f, n, c, rfl⟩ := hst
    exact hdis
  have httr : t.activeSpecTransaction = none := by
    obtain ⟨f, n, c, rfl⟩ := hst
    exact htr
  unfold leasePlan
  rw [hrows, hwanted]
  rcases reserveTemporaryAppend_cases cfg htnone htprog htint htok
    (batch.map fun x => (x, (s.seqs x).numTokens + k - 1)) with
    ⟨e, f, n, hres, -⟩ | ⟨f, hres, -⟩ | ⟨f, lent, u, hres, hu, hlent, hnd, -, hroom⟩
  · left
    exact ⟨e, _, Call.bind_of_error hres, hst.trans ⟨f, n, t.nextCycleId, rfl⟩⟩
  · rw [Call.bind_of_ok hres]
    cases hb : build 0 (some "insufficient_kv_blocks") none with
    | error e =>
      left
      exact ⟨e, _, rfl, hst.trans (.withFault t f)⟩
    | ok bypass =>
      right; left
      exact ⟨bypass, _, rfl, h.zero hb, hst.trans (.withFault t f)⟩
  · rw [List.map_map] at hroom hlent
    have hsum : (batch.map fun x => leaseNeed cfg s x ((s.seqs x).numTokens + k - 1)).sum
        ≤ s.freeBlockIds.length := by
      rw [hfree] at hroom
      simpa only [Function.comp_def, hneed] using hroom
    have hlent' : lent = leaseSlices s.freeBlockIds (batch.map fun x =>
        ⟨x, leaseNeed cfg s x ((s.seqs x).numTokens + k - 1)⟩) := by
      rw [hlent, hfree]
      simp only [Function.comp_def, hneed]
    have hblocks : lentBlocks lent = s.freeBlockIds.take
        (batch.map fun x => leaseNeed cfg s x ((s.seqs x).numTokens + k - 1)).sum := by
      rw [hlent', lentBlocks_leaseSlices, List.map_map]
      rfl
    have hfront : lentBlocks lent = t.freeBlockIds.take (lentBlocks lent).length := by
      rw [hblocks, hfree, List.length_take, Nat.min_eq_left hsum]
    have hleased := (State.lease_leased htnone hnd hfront t.nextReservationId 0).withFault f
    rw [← hu] at hleased
    have hbase : Untouched s
        (({ t with nextReservationId := t.nextReservationId + 1 } : State).withFault f) :=
      hst.trans ⟨f, t.nextReservationId + 1, t.nextCycleId, rfl⟩
    have hudis : u.activeDraftDiscard = none := by
      rw [hu]
      exact htdis
    have hutr : u.activeSpecTransaction = none := by
      rw [hu]
      exact httr
    rw [Call.bind_of_ok hres]
    change PlanOutcome cfg s batch (publishTransaction rollback plan _ u)
    rcases publishTransaction_cases hleased (hok.untouched hbase) hudis hutr rollback plan with
      ⟨e, g, hpub⟩ | ⟨g, hpub⟩
    · left
      exact ⟨e, _, hpub, hbase.trans (.withFault _ g)⟩
    · right; right
      obtain ⟨granted, hgranted⟩ : ∃ granted : SpecStepPlan,
          granted = { plan with rows := attachTables u plan.rows } := ⟨_, rfl⟩
      rw [← hgranted] at hpub
      have hgk : granted.effectiveK = k := by
        rw [hgranted]
        exact hkk.symm
      refine ⟨granted, rollback, _, lent, _, _, hpub,
        ⟨(hleased.openTransaction granted rollback).withFault g, ?_, hcap, hrun, ?_, ?_, ?_, ?_, ?_⟩⟩
      · exact ⟨_, hbase.trans (.withFault _ g), rfl⟩
      · rw [hgk]
        exact hk
      · rw [hgk]
        exact hlent'
      · rw [hgk]
        exact hsum
      · rw [hgk, hgranted, hrows]
        exact attachTables_eq cfg s u batch k
      · intro x hx
        rw [hgk]
        exact hplan.headroom (planRow cfg s x) (List.mem_map_of_mem hx)

private theorem planningChecks_ok {admission : Option DraftRouteAdmission}
    {rollback : List DecodeScheduleRollbackRow}
    {baseline : Option (List DecodeScheduleRollbackRow)}
    (h : planningChecks s batch planRows admission rollback baseline = .ok ⟨⟩) :
    s.running = batch := by
  obtain ⟨-, h⟩ := Call.except_guard h
  obtain ⟨hrun, h⟩ := Call.except_guard h
  exact not_not.mp hrun

variable (cfg) in
theorem planSpeculativeStep_cases (hnone : s.activeReservation = none)
    (hprog : s.reservationInProgress = false) (hint : s.internalAllocation = false)
    (hok : PoolOk s) (workspace : SpeculativeWorkspace) (batch : List Nat)
    (admission : Option DraftRouteAdmission)
    (baseline : Option (List DecodeScheduleRollbackRow)) :
    PlanOutcome cfg s batch (planSpeculativeStep cfg workspace batch admission baseline s) := by
  rcases tick_cases s with ⟨f, htick⟩ | htick
  swap
  · left
    exact ⟨.injected, _, Call.bind_of_error htick, .withFault s none⟩
  have hstart : planSpeculativeStep cfg workspace batch admission baseline s = _ :=
    (Call.bind_of_ok htick).trans (Call.bind_of_ok (Call.get_apply _))
  rw [hstart]
  by_cases hbusy : ((s.withFault f).activeSpecTransaction.isSome
      || (s.withFault f).activeDraftDiscard.isSome
      || (s.withFault f).pendingDraftCoveragePlan.isSome) = true
  · left
    rw [if_pos hbusy]
    exact ⟨_, _, rfl, .withFault s f⟩
  rw [if_neg hbusy]
  simp only [Bool.or_eq_true, not_or, Bool.not_eq_true, Option.isSome_eq_false_iff,
    Option.isNone_iff_eq_none] at hbusy
  have hplanRow : batch.map (planRow cfg (s.withFault f)) = batch.map (planRow cfg s) := rfl
  simp only [hplanRow]
  cases hpost : (batch.map (planRow cfg s)).forM SpecPlanRow.postInit with
  | error e =>
    left
    exact ⟨e, _, Call.bind_of_error (liftExcept_error e _), .withFault s f⟩
  | ok u =>
    rw [Call.bind_of_ok (liftExcept_ok _ _)]
    cases hcapk : admissionCap workspace (batch.map (planRow cfg s)).length admission with
    | error e =>
      left
      exact ⟨e, _, Call.bind_of_error (liftExcept_error e _), .withFault s f⟩
    | ok cap =>
      rw [Call.bind_of_ok (liftExcept_ok _ _), Call.bind_of_ok (Call.set_apply _ _)]
      have hbuilds : Builds (fun k reason key => buildSpeculativeStepPlan workspace
          (s.withFault f).nextCycleId (batch.map (planRow cfg s)) cfg.configuredK cap k
          cfg.maxNumBatchedTokens key reason) (batch.map (planRow cfg s)) :=
        fun k reason key plan hb => buildSpeculativeStepPlan_ok hb
      obtain ⟨build, hbuild⟩ : ∃ build : Nat → Option String → Option DraftRouteKey →
          Except Raised SpecStepPlan, build = fun k reason key => buildSpeculativeStepPlan workspace
          (s.withFault f).nextCycleId (batch.map (planRow cfg s)) cfg.configuredK cap k
          cfg.maxNumBatchedTokens key reason := ⟨_, rfl⟩
      rw [← hbuild] at hbuilds ⊢
      obtain ⟨t, ht⟩ : ∃ t : State, t = { s.withFault f with
          nextCycleId := (s.withFault f).nextCycleId + 1 } := ⟨_, rfl⟩
      have hst : Untouched s t := ⟨f, s.nextReservationId, s.nextCycleId + 1, ht⟩
      rw [← ht]
      unfold planBatch
      have hfallback : ∀ reason key, PlanOutcome cfg s batch
          (liftExcept (build 0 reason key) t) := by
        intro reason key
        cases hb : build 0 reason key with
        | error e => exact Or.inl ⟨e, t, rfl, hst⟩
        | ok plan => exact Or.inr (Or.inl ⟨plan, t, rfl, hbuilds.zero hb, hst⟩)
      by_cases hempty : batch = []
      · rw [if_pos hempty]
        exact hfallback _ _
      rw [if_neg hempty]
      have hcaps : captureDecodeScheduleRollback cfg (s.withFault f) batch false =
          captureDecodeScheduleRollback cfg s batch false := rfl
      rw [hcaps]
      cases hcap : captureDecodeScheduleRollback cfg s batch false with
      | none => exact hfallback _ _
      | some rollback =>
        simp only
        cases hchecks : planningChecks (s.withFault f) batch (batch.map (planRow cfg s)) admission
            rollback baseline with
        | error e =>
          left
          exact ⟨e, t, Call.bind_of_error (liftExcept_error e _), hst⟩
        | ok u =>
          rw [Call.bind_of_ok (liftExcept_ok _ _)]
          have hrun : s.running = batch := planningChecks_ok (s := s.withFault f) hchecks
          cases hprop : proposePlan cfg build (batch.map (planRow cfg s)) cap admission with
          | error e =>
            left
            exact ⟨e, t, Call.bind_of_error (liftExcept_error e _), hst⟩
          | ok plan =>
            rw [Call.bind_of_ok (liftExcept_ok _ _)]
            by_cases huses : plan.usesSpeculation = true
            · rw [if_pos huses]
              have hk : 0 < plan.effectiveK := by simpa [SpecStepPlan.usesSpeculation] using huses
              rcases proposePlan_ok hbuilds hprop with hzero | hpr
              · omega
              · exact leasePlan_cases hbuilds hst hnone hprog hint hok hbusy.1.2 hbusy.1.1 hcap hrun
                  hk hpr
            · rw [if_neg huses]
              have hk : plan.effectiveK = 0 := by
                simpa [SpecStepPlan.usesSpeculation] using huses
              exact Or.inr (Or.inl ⟨plan, t, rfl, hk, hst⟩)

end Plan

end NanoVllm
