/- module: NanoVllm/Cancellation/Attached
   layer: invariant
   source: nanovllm/engine/scheduler.py, plan_speculative_step to abort_speculative_step
   digest: An open transaction names all running rows, and they are as its plan found them. -/

import NanoVllm.Content.Lasting

set_option autoImplicit false
set_option relaxedAutoImplicit false

namespace NanoVllm

open Library

variable {cfg : Config} {s t u base : State} {rows : List (Nat × List Nat)}
  {r : TemporaryBlockReservation} {x : Nat}

def SameButTable (s t : State) (x : Nat) : Prop :=
  ∃ table, t.seqs x = { s.seqs x with blockTable := table }

private theorem SameButTable.of_eq (h : t.seqs x = s.seqs x) : SameButTable s t x :=
  ⟨s.table x, by rw [h]; rfl⟩

private theorem SameButTable.trans (h : SameButTable s t x) (h' : SameButTable t u x) :
    SameButTable s u x := by
  obtain ⟨table, ht⟩ := h
  obtain ⟨table', hu⟩ := h'
  exact ⟨table', by rw [hu, ht]⟩

private theorem SameButTable.symm (h : SameButTable s t x) : SameButTable t s x := by
  obtain ⟨table, ht⟩ := h
  exact ⟨s.table x, by rw [ht]; rfl⟩

private theorem Leased.sameButTable (h : Leased base rows s r) (x : Nat) : SameButTable base s x :=
  ⟨base.table x ++ lentTo rows x, by rw [h.seqs_eq]; rfl⟩

private theorem SameButTable.unchanged {row : DecodeScheduleRollbackRow}
    (h : SameButTable s t row.sequence) :
    rollbackRowUnchanged t row = rollbackRowUnchanged s row := by
  obtain ⟨table, ht⟩ := h
  unfold rollbackRowUnchanged
  rw [ht]
  rfl

/-- The plan speculates within what its rows may still complete and the blocks leased for them,
and prepared writes left nothing published in the leased blocks. -/
structure ActiveSpecTransaction.Supported (tr : ActiveSpecTransaction) (cfg : Config) : Prop where
  positive : 0 < tr.plan.effectiveK
  rows : ∀ row ∈ tr.plan.rows, tr.plan.effectiveK < row.remainingCompletionTokens ∧
    row.committedTokens + tr.plan.effectiveK ≤ row.blockTable.length * cfg.kvcacheBlockSize
  blank : tr.targetWritesPrepared = true → ∀ e ∈ tr.reservation.blockStatesBefore,
    e.1 ∈ tr.reservation.allocationOrder → e.2.hash = none ∧ e.2.tokenIds = [] ∧ e.2.updates = 0

/-- The open transaction is about the whole running queue, whose rows are as its undo record
says, and a pending handoff is its own and has released the lease. -/
structure Attached (cfg : Config) (s : State) : Prop where
  rows : ∀ tr, s.activeSpecTransaction = some tr →
    tr.baselineDecodeRollback.map DecodeScheduleRollbackRow.sequence = s.running ∧
      tr.plan.rows.map SpecPlanRow.seqId = s.running ∧
      ∀ row ∈ tr.baselineDecodeRollback, rollbackRowUnchanged s row = true
  supported : ∀ tr, s.activeSpecTransaction = some tr → tr.Supported cfg
  pending : ∀ plan, s.pendingDraftCoveragePlan = some plan → s.activeDraftDiscard = none ∧
    ∃ tr, s.activeSpecTransaction = some tr ∧ tr.plan = plan

theorem Attached.pending_none (h : Attached cfg s) (htr : s.activeSpecTransaction = none) :
    s.pendingDraftCoveragePlan = none := by
  cases hp : s.pendingDraftCoveragePlan with
  | none => rfl
  | some plan =>
    obtain ⟨-, tr, hsome, -⟩ := h.pending plan hp
    rw [htr] at hsome
    exact absurd hsome (by simp)

private theorem Attached.of_closed (htr : s.activeSpecTransaction = none)
    (hp : s.pendingDraftCoveragePlan = none) : Attached cfg s := by
  refine ⟨fun tr hsome => ?_, fun tr hsome => ?_, fun plan hsome => ?_⟩
  · rw [htr] at hsome
    exact absurd hsome (by simp)
  · rw [htr] at hsome
    exact absurd hsome (by simp)
  · rw [hp] at hsome
    exact absurd hsome (by simp)

/-- The running rows keep all but their tables, and the transaction its plan and record. -/
private theorem Attached.transfer (h : Attached cfg s) (hrun : t.running = s.running)
    (htr : ∀ tr, t.activeSpecTransaction = some tr → ∃ old, s.activeSpecTransaction = some old ∧
      old.plan = tr.plan ∧ old.baselineDecodeRollback = tr.baselineDecodeRollback ∧
      (old.Supported cfg → tr.Supported cfg))
    (hrow : ∀ y ∈ s.running, SameButTable s t y)
    (hp : ∀ plan, t.pendingDraftCoveragePlan = some plan → t.activeDraftDiscard = none ∧
      ∃ tr, t.activeSpecTransaction = some tr ∧ tr.plan = plan) : Attached cfg t := by
  refine ⟨fun tr hsome => ?_, fun tr hsome => ?_, hp⟩
  swap
  · obtain ⟨old, hold, -, -, hkeep⟩ := htr tr hsome
    exact hkeep (h.supported old hold)
  obtain ⟨old, hold, hplan, hbase, -⟩ := htr tr hsome
  obtain ⟨hseq, hids, hrows⟩ := h.rows old hold
  rw [← hplan, ← hbase, hrun]
  refine ⟨hseq, hids, fun row hmem => ?_⟩
  have hin : row.sequence ∈ s.running := by
    rw [← hseq]
    exact List.mem_map_of_mem hmem
  rw [(hrow row.sequence hin).unchanged]
  exact hrows row hmem

private theorem Attached.congr (h : Attached cfg s) (hrun : t.running = s.running)
    (htr : t.activeSpecTransaction = s.activeSpecTransaction)
    (hd : t.activeDraftDiscard = s.activeDraftDiscard)
    (hp : t.pendingDraftCoveragePlan = s.pendingDraftCoveragePlan)
    (hrow : ∀ y ∈ s.running, SameButTable s t y) : Attached cfg t := by
  refine h.transfer hrun (fun tr hsome => ⟨tr, htr ▸ hsome, rfl, rfl, id⟩) hrow fun plan hsome => ?_
  rw [htr, hd]
  exact h.pending plan (hp ▸ hsome)

private theorem Attached.leaves_add (h : Protocol cfg s) (ha : Attached cfg s) (tokenIds : List Nat)
    (maxTokens : Nat) (ignoreEos : Bool) :
    Call.Leaves (add cfg tokenIds maxTokens ignoreEos) s (Attached cfg) := by
  have hrow : ∀ y ∈ s.running,
      (s.created tokenIds maxTokens ignoreEos).seqs y = s.seqs y := by
    intro y hy
    refine Function.update_of_ne ?_ _ _
    rintro rfl
    exact absurd (h.core.known _ (by simp [hy])) (lt_irrefl _)
  unfold Call.Leaves
  rcases add_cases cfg s tokenIds maxTokens ignoreEos with
    ⟨-, e, hres⟩ | ⟨-, -, e, hres⟩ | ⟨-, -, hres⟩ <;> rw [hres]
  · exact ha
  · exact ha.congr rfl rfl rfl rfl fun y hy => .of_eq (hrow y hy)
  · exact ha.congr rfl rfl rfl rfl fun y hy => .of_eq (hrow y hy)

private theorem Attached.leaves_schedule (h : Protocol cfg s) (ha : Attached cfg s) :
    Call.Leaves (schedule cfg) s (Attached cfg) := by
  unfold Call.Leaves
  rcases h.schedule_start with ⟨e, hres⟩ | hready
  · rw [hres]
    exact ha
  · obtain ⟨done, u, batch, v, -, hv, hok, herr⟩ := schedule_trace hready
    have hv' : Attached cfg v := .of_closed hv.1.transaction hv.1.pending
    by_cases hbatch : batch = []
    · obtain ⟨message, hres⟩ := herr hbatch
      rw [hres]
      exact hv'
    · rw [hok hbatch]
      exact hv'

private theorem State.postRow_keeps_running (cfg : Config) (s : State) (x tokenId : Nat) {y : Nat}
    (hy : y ∈ s.running) (hyx : y ≠ x) : y ∈ (s.postRow cfg x tokenId).running := by
  have hadv : (s.advance cfg x).running = s.running :=
    congrArg Control.running (s.advance_control cfg x)
  have happ : (s.appended cfg x tokenId).running = s.running := hadv
  unfold State.postRow
  split
  · rwa [hadv]
  split
  · have hret : ((s.appended cfg x tokenId).retire x).running = s.running.erase x := by
      rw [← happ]
      exact congrArg Control.running ((s.appended cfg x tokenId).retire_control x)
    rw [hret]
    exact (List.mem_erase_of_ne hyx).mpr hy
  · rwa [happ]

private theorem postprocessRows_running : ∀ (rows : List (Nat × Nat)) {s : State}, Core cfg [] s →
    s.Quiet → (rows.map Prod.fst).Nodup → (∀ e ∈ rows, e.1 ∈ s.running) →
      ∃ events t, postprocessRows cfg rows s = .ok events t := by
  intro rows
  induction rows with
  | nil => exact fun {s} _ _ _ _ => ⟨[], s, rfl⟩
  | cons row rows ih =>
    intro s h hq hnd hmem
    obtain ⟨x, tokenId⟩ := row
    rw [List.map_cons, List.nodup_cons] at hnd
    have hx := hmem (x, tokenId) (by simp)
    have hnot : x ∉ rows.map Prod.fst := hnd.1
    obtain ⟨events, t, hrest⟩ := ih (h.postRow hx tokenId)
      ((s.postRow_control cfg x tokenId).quiet hq) hnd.2 fun e he => by
        refine s.postRow_keeps_running cfg x tokenId (hmem e (List.mem_cons_of_mem _ he)) ?_
        rintro heq
        refine hnot ?_
        rw [← heq]
        exact List.mem_map_of_mem he
    unfold postprocessRows
    rw [Call.bind_of_ok (postprocessRow_running hq h hx tokenId), Call.bind_of_ok hrest]
    exact ⟨_, t, rfl⟩

private theorem Attached.leaves_postprocess (h : Protocol cfg s) (ha : Attached cfg s)
    (batch tokenIds : List Nat) : Call.Leaves (postprocess cfg batch tokenIds) s (Attached cfg) := by
  unfold Call.Leaves postprocess
  rw [Call.bind_of_ok (Call.get_apply s)]
  cases hchecks : postprocessChecks cfg s batch tokenIds with
  | error e =>
    rw [Call.bind_of_error (liftExcept_error e s)]
    exact ha
  | ok u =>
    rw [Call.bind_of_ok (liftExcept_ok u s)]
    have hpost := postprocessChecks_ok hchecks
    have hcore := (h.idle hpost.discard).2
    have hq := h.quiet hpost.discard
    have hkeep := hcore.leaves_postprocessRows (batch.zip tokenIds) hq
    unfold Call.Leaves at hkeep
    cases hres : postprocessRows cfg (batch.zip tokenIds) s with
    | error e v =>
      rw [hres] at hkeep
      rw [Call.bind_of_error hres]
      have hctl : SameControl s v := hkeep.1
      cases htr : s.activeSpecTransaction with
      | none =>
        exact .of_closed ((congrArg Control.activeSpecTransaction hctl).trans htr)
          ((congrArg Control.pendingDraftCoveragePlan hctl).trans (ha.pending_none htr))
      | some tr =>
        -- the handoff names the running queue, so no row can have failed
        obtain ⟨-, hids, -⟩ := ha.rows tr htr
        have hpend := hpost.pending _ (hpost.handed tr htr)
        unfold checkPendingCoverage at hpend
        obtain ⟨hbatch, -⟩ := Call.except_guard hpend
        have hrun : batch = s.running := (not_not.mp hbatch).trans hids
        have hfst : (batch.zip tokenIds).map Prod.fst = s.running := by
          rw [List.map_fst_zip (by rw [hpost.length]), hrun]
        have hnd : s.running.Nodup := by
          have hlive := hcore.own.live_nodup
          rw [List.nil_append] at hlive
          exact (List.nodup_append.mp hlive).1
        obtain ⟨events, w, hok⟩ := postprocessRows_running (batch.zip tokenIds) hcore hq
          (by rwa [hfst]) fun e he => by
            rw [← hfst]
            exact List.mem_map_of_mem he
        rw [hok] at hres
        exact absurd hres (by simp)
    | ok events v =>
      rw [hres] at hkeep
      rw [Call.bind_of_ok hres, Call.bind_of_ok (Call.modify_apply _ _)]
      have hctl : SameControl s v := hkeep.1
      have hclose := v.closeHandoff_control s batch
      refine .of_closed ((congrArg Control.activeSpecTransaction hclose).trans ?_)
        ((congrArg Control.pendingDraftCoveragePlan hclose).trans ?_)
      · dsimp only
        split
        · rfl
        · rename_i hsome
          have hnone : s.activeSpecTransaction = none := by simpa using hsome
          exact (congrArg Control.activeSpecTransaction hctl).trans hnone
      · dsimp only
        split
        · rfl
        · rename_i hsome
          have hnone : s.pendingDraftCoveragePlan = none := by simpa using hsome
          exact (congrArg Control.pendingDraftCoveragePlan hctl).trans hnone

private theorem captureRow_unchanged {row : DecodeScheduleRollbackRow}
    (h : captureRow cfg s x = some row) : rollbackRowUnchanged s row = true := by
  unfold captureRow at h
  dsimp only at h
  split at h
  · exact absurd h (by simp)
  · rename_i hrow
    rw [← Option.some.inj h, rollbackRowUnchanged_iff]
    simpa [not_or] using hrow

private theorem captureRow_sequences {batch : List Nat} {rollback : List DecodeScheduleRollbackRow}
    (h : List.Forall₂ (fun x row => captureRow cfg s x = some row) batch rollback) :
    rollback.map DecodeScheduleRollbackRow.sequence = batch := by
  induction h with
  | nil => rfl
  | cons hhead _ ih => rw [List.map_cons, (captureRow_pages hhead).1, ih]

private theorem capture_rows {batch : List Nat} {rollback : List DecodeScheduleRollbackRow}
    (h : captureDecodeScheduleRollback cfg s batch false = some rollback) :
    rollback.map DecodeScheduleRollbackRow.sequence = batch ∧
      ∀ row ∈ rollback, rollbackRowUnchanged s row = true := by
  unfold captureDecodeScheduleRollback at h
  split at h
  · exact absurd h (by simp)
  · have hrel := Call.forall₂_of_mapM_some h
    refine ⟨captureRow_sequences hrel, fun row hrow => ?_⟩
    obtain ⟨y, -, hy⟩ := Call.forall₂_exists_left hrel hrow
    exact captureRow_unchanged hy

private theorem Attached.leaves_plan (h : Protocol cfg s) (ha : Attached cfg s)
    (workspace : SpeculativeWorkspace) (batch : List Nat) (admission : Option DraftRouteAdmission)
    (baseline : Option (List DecodeScheduleRollbackRow)) :
    Call.Leaves (planSpeculativeStep cfg workspace batch admission baseline) s (Attached cfg) := by
  unfold Call.Leaves
  cases htr : s.activeSpecTransaction with
  | some tr =>
    have hres : planSpeculativeStep cfg workspace batch admission baseline s =
        .error (.runtimeError "a speculative transaction is already active") s := by
      unfold planSpeculativeStep
      rw [Call.bind_of_ok (tick_quiet h.fault), Call.bind_of_ok (Call.get_apply s)]
      simp [htr]
    rw [hres]
    exact ha
  | none =>
    have hp := ha.pending_none htr
    obtain ⟨hnone, hcore⟩ := h.idle (h.closed htr)
    have huntouched : ∀ t, Untouched s t → Attached cfg t := by
      rintro t ⟨f, n, c, rfl⟩
      exact .of_closed htr hp
    rcases planSpeculativeStep_cases cfg hnone h.progress h.internal hcore.own.poolOk
      workspace batch admission baseline with
      ⟨e, t, hres, ht⟩ | ⟨plan, t, hres, -, ht⟩ | ⟨plan, rollback, base, rows, r, t, hres, ho⟩
    · rw [hres]
      exact huntouched t ht
    · rw [hres]
      exact huntouched t ht
    · rw [hres]
      change Attached cfg t
      obtain ⟨u, hu, hbase⟩ := ho.base_eq
      have hctl := ho.leased.control
      have hopen : base.control = (u.openTransaction plan r rollback).control := by rw [hbase]
      obtain ⟨hseq, hunchanged⟩ := capture_rows ho.capture
      have hrunning : t.running = batch := by
        rw [← ho.running]
        refine (congrArg Control.running hctl).symm.trans ((congrArg Control.running hopen).trans ?_)
        obtain ⟨f, n, c, rfl⟩ := hu
        rfl
      have hsome : t.activeSpecTransaction = some
          { plan := plan
            reservation := r
            baselineDecodeRollback := rollback
            targetWritesPrepared := false } :=
        (congrArg Control.activeSpecTransaction hctl).symm.trans
          (congrArg Control.activeSpecTransaction hopen)
      have hpend : t.pendingDraftCoveragePlan = none := by
        refine (congrArg Control.pendingDraftCoveragePlan hctl).symm.trans
          ((congrArg Control.pendingDraftCoveragePlan hopen).trans ?_)
        obtain ⟨f, n, c, rfl⟩ := hu
        exact hp
      have hrow : ∀ y, SameButTable s t y := by
        intro y
        refine .trans ?_ (ho.leased.sameButTable y)
        refine .of_eq ?_
        obtain ⟨f, n, c, rfl⟩ := hu
        rw [hbase]
        rfl
      refine ⟨fun tr htr' => ?_, fun tr htr' => ?_, fun pending hsome' => ?_⟩
      swap
      · rw [hsome] at htr'
        rw [← Option.some.inj htr']
        refine ⟨ho.positive, fun row hmem => ?_, fun hfalse => absurd hfalse (by simp)⟩
        rw [ho.planRows] at hmem
        obtain ⟨x, hx, rfl⟩ := List.mem_map.mp hmem
        have htable : t.table x = s.table x ++ lentTo rows x := by
          unfold State.table
          rw [ho.leased.seqs_eq]
          obtain ⟨f, n, c, rfl⟩ := hu
          rw [hbase]
          rfl
        refine ⟨(ho.headroom x hx).1, ?_⟩
        change (s.seqs x).numTokens + plan.effectiveK ≤ (t.table x).length * _
        rw [htable, List.length_append]
        exact ho.reach hx
      · rw [hsome] at htr'
        rw [← Option.some.inj htr', hrunning]
        refine ⟨hseq, ?_, fun row hmem => ?_⟩
        · rw [ho.planRows, List.map_map]
          conv_rhs => rw [← List.map_id batch]
          rfl
        · rw [(hrow row.sequence).unchanged]
          exact hunchanged row hmem
      · rw [hpend] at hsome'
        exact absurd hsome' (by simp)

private theorem writableRecord_blank (r : TemporaryBlockReservation) :
    ∀ e ∈ (writableRecord r).blockStatesBefore, e.1 ∈ (writableRecord r).allocationOrder →
      e.2.hash = none ∧ e.2.tokenIds = [] ∧ e.2.updates = 0 := by
  intro e he hin
  obtain ⟨old, -, rfl⟩ := List.mem_map.mp he
  by_cases hold : old.1 ∈ r.allocationOrder
  · rw [if_pos hold]
    exact ⟨rfl, rfl, rfl⟩
  · rw [if_neg hold] at hin
    exact absurd hin hold

private theorem Attached.leaves_prepare (h : Protocol cfg s) (ha : Attached cfg s) (plan : SpecStepPlan) :
    Call.Leaves (prepareSpeculativeTargetWrites plan) s (Attached cfg) := by
  unfold Call.Leaves prepareSpeculativeTargetWrites
  rw [Call.bind_of_ok (Call.get_apply s)]
  cases htr : s.activeSpecTransaction with
  | none => exact ha
  | some tr =>
    dsimp only
    split
    · exact ha
    split
    · exact ha
    obtain ⟨-, hlink⟩ := h.linked tr htr
    rcases h.lease with ⟨hd, hnone, hcore⟩ | ⟨base, rows, plan', r, hd, hleased, hcore, hrows⟩
    · obtain ⟨e, hres⟩ := prepareTemporaryTargetWrites_unleased h.fault hnone tr.reservation
      rw [Call.bind_of_error hres]
      exact ha
    · obtain ⟨rfl, rfl⟩ := Prod.mk.inj (hlink _ hd)
      have hpend : s.pendingDraftCoveragePlan = none := by
        cases hp : s.pendingDraftCoveragePlan with
        | none => rfl
        | some pending =>
          rw [(ha.pending pending hp).1] at hd
          exact absurd hd (by simp)
      rcases hleased.prepare hcore.own.poolOk with hres | ⟨f, hres, -⟩
      · rw [Call.bind_of_error hres]
        exact ha.congr rfl rfl rfl rfl fun y _ => .of_eq rfl
      · rw [Call.bind_of_ok hres, Call.modify_apply, Call.after_ok]
        refine ha.transfer rfl (fun tr' htr' => ⟨tr, htr, ?_, ?_, fun hsup => ?_⟩)
          (fun y _ => .of_eq rfl) ?_
        · rw [← Option.some.inj htr']
        · rw [← Option.some.inj htr']
        · rw [← Option.some.inj htr']
          exact ⟨hsup.positive, hsup.rows, fun _ => writableRecord_blank tr.reservation⟩
        · intro pending hp
          change s.pendingDraftCoveragePlan = some pending at hp
          rw [hpend] at hp
          exact absurd hp (by simp)

private theorem Attached.leaves_commit (h : Protocol cfg s) (ha : Attached cfg s) (plan : SpecStepPlan)
    (result : SpecExecutionResult) : Call.Leaves (commitSpeculative cfg plan result) s (Attached cfg) := by
  unfold Call.Leaves
  rcases h.lease with ⟨hd, hnone, hcore⟩ | ⟨base, rows, plan', r, hd, hleased, hcore, hrows⟩
  · obtain ⟨e, hres⟩ := Protocol.commit_unleased cfg h.fault hnone
    rw [hres]
    exact ha
  · cases htr : s.activeSpecTransaction with
    | none =>
      rw [h.closed htr] at hd
      exact absurd hd (by simp)
    | some tr =>
      obtain ⟨-, hlink⟩ := h.linked tr htr
      obtain ⟨rfl, rfl⟩ := Prod.mk.inj (hlink _ hd)
      rcases commitSpeculative_cases plan result hleased hcore htr h.progress h.internal with
        ⟨e, f, hres⟩ | ⟨events, u, hres, hquiet⟩
      · rw [hres]
        exact ha.congr rfl rfl rfl rfl fun y _ => .of_eq rfl
      · rw [hres]
        obtain ⟨prepared, desired, -, -, -, rfl⟩ := hquiet h.fault
        refine .of_closed rfl ?_
        have hctl := (base.lend (keptRows desired)).commitAll_control cfg prepared
        refine (congrArg Control.pendingDraftCoveragePlan hctl).trans
          ((congrArg Control.pendingDraftCoveragePlan hleased.control).trans ?_)
        cases hp : s.pendingDraftCoveragePlan with
        | none => exact hp
        | some pending =>
          rw [(ha.pending pending hp).1] at hd
          exact absurd hd (by simp)

theorem Protocol.releaseDiscard_eq (h : Protocol cfg s) {tr : ActiveSpecTransaction}
    (htr : s.activeSpecTransaction = some tr) : ∃ released,
      rollbackDraftDiscard tr.plan s = .ok released s.unleased.withoutDiscard := by
  rcases h.lease with ⟨hd, -, -⟩ | ⟨base, rows, plan, r, hd, hleased, hcore, -⟩
  · refine ⟨false, (rollbackDraftDiscard_idle tr.plan hd).trans ?_⟩
    have hself : s.withoutDiscard = s := by
      unfold State.withoutDiscard
      rw [← hd]
    rw [State.unleased_idle hd, hself]
  · have hplan : plan = tr.plan := congrArg Prod.fst ((h.linked tr htr).2 _ hd)
    rw [hleased.unleased hd, ← hplan]
    exact ⟨true, hleased.rollbackDiscard hcore.own.poolOk hd⟩

theorem Protocol.unleased_control (h : Protocol cfg s) :
    s.unleased.control = { s.control with activeReservation := none } := by
  rcases h.lease with ⟨hd, hnone, -⟩ | ⟨base, rows, plan, r, hd, hleased, -, -⟩
  · have hres : s.control.activeReservation = none := hnone
    rw [State.unleased_idle hd, ← hres]
  · rw [hleased.unleased hd]
    exact hleased.control

theorem Protocol.unleased_row (h : Protocol cfg s) (x : Nat) : SameButTable s s.unleased x := by
  rcases h.lease with ⟨hd, -, -⟩ | ⟨base, rows, plan, r, hd, hleased, -, -⟩
  · rw [State.unleased_idle hd]
    exact .of_eq rfl
  · rw [hleased.unleased hd]
    exact (hleased.sameButTable x).symm

private theorem Attached.unleased (h : Protocol cfg s) (ha : Attached cfg s) :
    Attached cfg s.unleased.withoutDiscard := by
  have hctl := h.unleased_control
  refine ha.transfer (congrArg Control.running hctl) (fun tr htr => ⟨tr, ?_, rfl, rfl, id⟩)
    (fun y _ => h.unleased_row y) fun plan hp => ⟨rfl, ?_⟩
  · exact (congrArg Control.activeSpecTransaction hctl).symm.trans htr
  · obtain ⟨-, tr, htr, hplan⟩ :=
      ha.pending plan ((congrArg Control.pendingDraftCoveragePlan hctl).symm.trans hp)
    exact ⟨tr, (congrArg Control.activeSpecTransaction hctl).trans htr, hplan⟩

private theorem Attached.withoutPending (h : Attached cfg s) : Attached cfg s.withoutPending :=
  h.transfer rfl (fun tr htr => ⟨tr, htr, rfl, rfl, id⟩) (fun _ _ => .of_eq rfl)
    fun _ hp => absurd hp (by simp [State.withoutPending])

def State.letGo (s : State) : State :=
  match s.pendingDraftCoveragePlan with
  | none => s.unleased.withoutDiscard
  | some _ => s.unleased.withoutDiscard.withoutPending

private theorem State.letGo_cases (s : State) : s.letGo = s.unleased.withoutDiscard ∨
    s.letGo = s.unleased.withoutDiscard.withoutPending := by
  unfold State.letGo
  split
  · exact Or.inl rfl
  · exact Or.inr rfl

theorem State.letGo_seqs (s : State) : s.letGo.seqs = s.unleased.seqs := by
  rcases s.letGo_cases with hgo | hgo <;> rw [hgo] <;> rfl

theorem State.letGo_blocks (s : State) : s.letGo.blocks = s.unleased.blocks := by
  rcases s.letGo_cases with hgo | hgo <;> rw [hgo] <;> rfl

theorem State.letGo_discard (s : State) : s.letGo.activeDraftDiscard = none := by
  rcases s.letGo_cases with hgo | hgo <;> rw [hgo] <;> rfl

section LetGo

variable (h : Protocol cfg s) (ha : Attached cfg s) {tr : ActiveSpecTransaction}
  (htr : s.activeSpecTransaction = some tr)

include h

theorem State.letGo_queues : SameQueues s s.letGo := by
  have hctl := h.unleased_control
  have hsame : SameQueues s s.unleased.withoutDiscard := .of_control
    (c := { s.control with activeReservation := none, activeDraftDiscard := none })
    (congrArg (fun c : Control => { c with activeDraftDiscard := none }) hctl) rfl rfl rfl rfl rfl
  rcases s.letGo_cases with hgo | hgo <;> rw [hgo]
  · exact hsame
  · exact hsame.trans ⟨rfl, rfl, rfl, rfl, rfl⟩

theorem State.letGo_pending : s.letGo.pendingDraftCoveragePlan = none := by
  have hpend : s.unleased.pendingDraftCoveragePlan = s.pendingDraftCoveragePlan :=
    congrArg Control.pendingDraftCoveragePlan h.unleased_control
  unfold State.letGo
  split <;> rename_i hp
  · exact hpend.trans hp
  · rfl

include ha in
theorem Attached.letGo : Attached cfg s.letGo := by
  rcases s.letGo_cases with hgo | hgo <;> rw [hgo]
  · exact ha.unleased h
  · exact (ha.unleased h).withoutPending

include htr

theorem State.letGo_transaction : s.letGo.activeSpecTransaction = some tr := by
  have hsome : s.unleased.activeSpecTransaction = some tr :=
    (congrArg Control.activeSpecTransaction h.unleased_control).trans htr
  rcases s.letGo_cases with hgo | hgo <;> rw [hgo] <;> exact hsome

theorem Protocol.letGo : Protocol cfg s.letGo := by
  obtain ⟨released, hrel⟩ := h.releaseDiscard_eq htr
  obtain ⟨released', u, hrel', hu, hud, -⟩ := h.releaseDiscard htr
  rw [hrel] at hrel'
  obtain rfl : s.unleased.withoutDiscard = u := (EStateM.Result.ok.inj hrel').2
  rcases s.letGo_cases with hgo | hgo <;> rw [hgo]
  · exact hu
  · exact hu.withoutPending hud

include ha

theorem abort_eq : abortSpeculativeStep cfg s = (do
    let _ ← rollbackFailedDecodeSchedule cfg tr.baselineDecodeRollback
    modify State.withoutTransaction
    pure true : Call Bool) s.letGo := by
  obtain ⟨released, hrel⟩ := h.releaseDiscard_eq htr
  have hpend : s.unleased.withoutDiscard.pendingDraftCoveragePlan = s.pendingDraftCoveragePlan :=
    congrArg Control.pendingDraftCoveragePlan h.unleased_control
  unfold abortSpeculativeStep
  rw [Call.bind_of_ok (Call.get_apply s), htr]
  dsimp only
  rw [Call.bind_of_ok hrel]
  unfold State.letGo
  rcases abortDraftCoverage_cases tr.plan s.unleased.withoutDiscard with
    ⟨hp, hres⟩ | ⟨hp, hres⟩ | ⟨e, hsome, hne, -⟩
  · rw [Call.bind_of_ok hres]
    rw [hpend] at hp
    rw [hp]
    rfl
  · rw [Call.bind_of_ok hres]
    rw [hpend] at hp
    rw [hp]
    rfl
  · exfalso
    rw [hpend] at hsome hne
    obtain ⟨plan, hplan⟩ := Option.ne_none_iff_exists'.mp hsome
    obtain ⟨-, old, hold, heq⟩ := ha.pending plan hplan
    rw [htr] at hold
    rw [hplan, ← heq, ← Option.some.inj hold] at hne
    exact hne rfl

theorem abort_cases :
    (∃ e, abortSpeculativeStep cfg s = .error e s.letGo) ∨
    ∃ validated, abortSpeculativeStep cfg s =
        .ok true (s.letGo.undone tr.baselineDecodeRollback validated).withoutTransaction ∧
      Undone cfg s.letGo tr.baselineDecodeRollback validated := by
  rw [abort_eq h ha htr]
  rcases rollbackFailedDecodeSchedule_cases tr.baselineDecodeRollback with
    ⟨e, hres⟩ | ⟨changed, validated, hres, hundone⟩
  · exact Or.inl ⟨e, Call.bind_of_error hres⟩
  · refine Or.inr ⟨validated, ?_, hundone⟩
    rw [Call.bind_of_ok hres, Call.bind_of_ok (Call.modify_apply _ _)]
    rfl

end LetGo

namespace Attached

theorem leaves_abort (h : Protocol cfg s) (ha : Attached cfg s) :
    Call.Leaves (abortSpeculativeStep cfg) s (Attached cfg) := by
  unfold Call.Leaves
  cases htr : s.activeSpecTransaction with
  | none =>
    rw [abortSpeculativeStep_idle cfg htr]
    exact ha
  | some tr =>
    rcases abort_cases h ha htr with ⟨e, hres⟩ | ⟨validated, hres, -⟩
    · rw [hres]
      exact ha.letGo h
    · rw [hres]
      have hctl := s.letGo.undone_control tr.baselineDecodeRollback validated
      exact .of_closed rfl ((congrArg Control.pendingDraftCoveragePlan hctl).trans
        (State.letGo_pending h))

private theorem leaves_handoff (h : Protocol cfg s) (ha : Attached cfg s) (plan : SpecStepPlan) :
    Call.Leaves (handoffDraftDiscard plan) s (Attached cfg) := by
  unfold Call.Leaves handoffDraftDiscard
  rw [Call.bind_of_ok (tick_quiet h.fault), Call.bind_of_ok (Call.get_apply s)]
  cases hchecks : handoffChecks s plan with
  | error e =>
    rw [Call.bind_of_error (liftExcept_error e s)]
    exact ha
  | ok u =>
    rw [Call.bind_of_ok (liftExcept_ok u s)]
    unfold handoffChecks at hchecks
    obtain ⟨-, hchecks⟩ := Call.except_guard hchecks
    obtain ⟨-, hchecks⟩ := Call.except_guard hchecks
    have hactive : s.activeDraftDiscard.map Prod.fst = some plan := by
      by_contra hne
      rw [if_pos hne] at hchecks
      exact absurd hchecks (by simp [throw, throwThe, MonadExceptOf.throw])
    obtain ⟨d, hd, rfl⟩ := Option.map_eq_some_iff.mp hactive
    cases htr : s.activeSpecTransaction with
    | none =>
      rw [h.closed htr] at hd
      exact absurd hd (by simp)
    | some tr =>
      have hdeq := (h.linked tr htr).2 d hd
      rw [hdeq]
      obtain ⟨released, hrel⟩ := h.releaseDiscard_eq htr
      have hsome : s.unleased.activeSpecTransaction = some tr :=
        (congrArg Control.activeSpecTransaction h.unleased_control).trans htr
      rw [Call.bind_of_ok hrel]
      split
      · have hfault : s.unleased.withoutDiscard.fault = none :=
          (congrArg Control.fault h.unleased_control).trans h.fault
        rw [Call.bind_of_ok (tick_quiet hfault), Call.modify_apply, Call.after_ok]
        refine (ha.unleased h).transfer rfl (fun tr' htr' => ⟨tr', htr', rfl, rfl, id⟩)
          (fun _ _ => .of_eq rfl) fun pending hp => ⟨rfl, tr, hsome, ?_⟩
        exact Option.some.inj hp
      · exact ha.unleased h

private theorem leaves_stage (h : Protocol cfg s) (ha : Attached cfg s) (plan : SpecStepPlan)
    (batch : List Nat) (coverage : List (Nat × Nat)) :
    Call.Leaves (stageDraftCoverage plan batch coverage) s (Attached cfg) := by
  unfold Call.Leaves stageDraftCoverage
  rw [Call.bind_of_ok (tick_quiet h.fault), Call.bind_of_ok (Call.get_apply s)]
  cases hchecks : stageChecks s plan batch coverage with
  | error e =>
    rw [Call.bind_of_error (liftExcept_error e s)]
    exact ha
  | ok u =>
    rw [Call.bind_of_ok (liftExcept_ok u s), Call.set_apply, Call.after_ok]
    exact ha.congr rfl rfl rfl rfl fun _ _ => .of_eq rfl

/-- A cancellation that returns with a target has closed the transaction and its handoff. -/
theorem leaves_cancel (h : Protocol cfg s) (ha : Attached cfg s) (targets : List Nat) :
    Call.Leaves (cancel cfg targets) s (Attached cfg) := by
  have habort := ha.leaves_abort h
  unfold Call.Leaves at habort ⊢
  rcases h.cancel_steps targets with ⟨-, hres⟩ | ⟨-, ⟨e, u, hu, hres⟩ | ⟨aborted, u, hu, -, hres⟩⟩
  · rw [hres]
    exact ha
  · rw [hu] at habort
    rw [hres]
    exact habort
  · have hutr := h.leaves_abort.2 aborted u hu
    rw [hu] at habort
    have hau : Attached cfg u := habort
    have hup := hau.pending_none hutr
    have hdrop : u.dropPendingCoverage targets = u := by
      unfold State.dropPendingCoverage
      rw [hup]
    rw [hres, hdrop]
    have hfirst := u.forgetAll_control (u.waiting.filter (· ∈ targets))
    have hsecond := (u.forgetAll (u.waiting.filter (· ∈ targets))).forgetAll_control
      (u.running.filter (· ∈ targets))
    exact .of_closed
      ((congrArg Control.activeSpecTransaction hsecond).trans
        ((congrArg Control.activeSpecTransaction hfirst).trans hutr))
      ((congrArg Control.pendingDraftCoveragePlan hsecond).trans
        ((congrArg Control.pendingDraftCoveragePlan hfirst).trans hup))

theorem companion (cfg : Config) : Companion cfg (Attached cfg) where
  init := .of_closed rfl rfl
  add := fun _ h ha => ha.leaves_add h
  schedule := fun _ h ha => ha.leaves_schedule h
  postprocess := fun _ h ha => ha.leaves_postprocess h
  plan := fun _ h ha => ha.leaves_plan h
  prepare := fun _ h ha => ha.leaves_prepare h
  commit := fun _ h ha => ha.leaves_commit h
  abort := fun _ h ha => ha.leaves_abort h
  handoff := fun _ h ha => ha.leaves_handoff h
  stage := fun _ h ha => ha.leaves_stage h
  cancel := fun _ h ha => ha.leaves_cancel h
  discard := fun s h htr ha plan => by
    unfold Call.Leaves
    rw [rollbackDraftDiscard_idle plan (h.closed htr)]
    exact ha
  coverage := fun s h htr ha plan => by
    unfold Call.Leaves
    rcases abortDraftCoverage_cases plan s with ⟨-, hres⟩ | ⟨-, hres⟩ | ⟨e, -, -, hres⟩ <;>
      rw [hres]
    · exact ha
    · exact ha.withoutPending
    · exact ha
  undo := fun s _ htr ha rows _ => by
    unfold Call.Leaves
    rcases rollbackFailedDecodeSchedule_cases rows with
      ⟨e, hres⟩ | ⟨changed, validated, hres, -⟩ <;> rw [hres]
    · exact ha
    · have hctl := s.undone_control rows validated
      exact .of_closed ((congrArg Control.activeSpecTransaction hctl).trans htr)
        ((congrArg Control.pendingDraftCoveragePlan hctl).trans (ha.pending_none htr))

end Attached

end NanoVllm
