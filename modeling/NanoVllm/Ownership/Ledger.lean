/- module: NanoVllm/Ownership/Ledger
   layer: refinement
   source: nanovllm/engine/block_manager.py and nanovllm/engine/scheduler.py, the lease calls
   digest: Facts about the lease fields and the failure countdown that every call keeps. -/

import NanoVllm.Engine.SpeculativeStep

set_option autoImplicit false
set_option relaxedAutoImplicit false

namespace NanoVllm

open Library

variable {cfg : Config} {α : Type} {P : State → Prop}

/-- The fields a lease is known by, the failure countdown and the prefill flags. -/
structure Ledger where
  active : Option TemporaryBlockReservation
  nextId : Nat
  fault : Option Nat
  prefill : Nat → Bool

def State.prefill (s : State) (x : Nat) : Bool := (s.seqs x).isPrefill

def State.ledger (s : State) : Ledger :=
  ⟨s.activeReservation, s.nextReservationId, s.fault, s.prefill⟩

theorem State.setSeq_prefill (s : State) {x : Nat} {seq : Sequence}
    (h : seq.isPrefill = (s.seqs x).isPrefill) : (s.setSeq x seq).prefill = s.prefill := by
  funext y
  by_cases hyx : y = x
  · subst hyx
    change (Function.update s.seqs y seq y).isPrefill = (s.seqs y).isPrefill
    rw [Function.update_self, h]
  · change (Function.update s.seqs x seq y).isPrefill = (s.seqs y).isPrefill
    rw [Function.update_of_ne hyx]

private theorem State.setSeq_ledger (s : State) {x : Nat} {seq : Sequence}
    (h : seq.isPrefill = (s.seqs x).isPrefill) : (s.setSeq x seq).ledger = s.ledger := by
  unfold State.ledger
  rw [s.setSeq_prefill h]
  rfl

/-- `P` reads the ledger only and survives each of its changes: the countdown, the release
of the lease, its publication under the next identifier, the replacement of its record and
the return to an earlier lease and to earlier rows. -/
structure Ledgered (P : State → Prop) : Prop where
  frame : ∀ {s t : State}, P s → t.ledger = s.ledger → P t
  tick : Call.Keeps P tick
  release : ∀ {s : State}, P s → P { s with activeReservation := none }
  publish : ∀ {before s : State} {r : TemporaryBlockReservation}, P before → P s →
    r.reservationId = before.nextReservationId →
      P { s with nextReservationId := s.nextReservationId + 1, activeReservation := some r }
  replace : ∀ {s : State} {r r' : TemporaryBlockReservation}, s.activeReservation = some r →
    r'.reservationId = r.reservationId → P s → P { s with activeReservation := some r' }
  restore : ∀ {live s t : State}, P live → P s →
    t.ledger = { s.ledger with active := live.activeReservation, prefill := t.prefill } →
      (∀ x, t.prefill x = s.prefill x ∨ t.prefill x = live.prefill x) → P t

namespace Ledgered

variable (h : Ledgered P)

include h

private theorem modify {f : State → State} (hf : ∀ s, (f s).ledger = s.ledger) :
    Call.Keeps P (modify f : Call PUnit) :=
  .modify fun s hs => h.frame hs (hf s)

omit h in
private theorem liftExcept (x : Except Raised α) : Call.Keeps P (liftExcept x) := by
  cases x with
  | ok a => exact .pure a
  | error e => exact .throw e

private theorem modifySeq (x : Nat) {f : Sequence → Sequence}
    (hf : ∀ q, (f q).isPrefill = q.isPrefill) :
    Call.Keeps P (modifySeq x f) :=
  h.modify fun s => s.setSeq_ledger (hf _)

omit h in
theorem assertAllowed (operation : String) (internal : Bool) :
    Call.Keeps P (assertAllocatorMutationAllowed operation internal) := by
  refine .get_bind fun s _ => ?_
  dsimp only
  split
  · exact .throw _
  · exact .pure _

private theorem allocateBlock : Call.Keeps P allocateBlock := by
  refine (assertAllowed _ _).bind fun _ => h.tick.bind fun _ => .get_bind fun s hs => ?_
  split
  · exact .throw _
  · refine .bind (.set (h.frame hs rfl)) fun _ => ?_
    dsimp only
    split
    · exact .bind (.throw _) fun _ => .bind (h.modify fun _ => rfl) fun _ => .pure _
    · exact .bind (h.modify fun _ => rfl) fun _ => .pure _

private theorem allocateBlocks (x : Nat) : ∀ n, Call.Keeps P (allocateBlocks x n) := by
  intro n
  induction n with
  | zero => exact .pure _
  | succ n ih =>
    exact h.allocateBlock.bind fun _ => .bind (h.modify fun s => s.setSeq_ledger rfl) fun _ => ih

private theorem deallocateBlock (b : Nat) : Call.Keeps P (deallocateBlock b) := by
  refine (assertAllowed _ _).bind fun _ => h.tick.bind fun _ => .get_bind fun s hs => ?_
  have hset : ∀ used free, P { s with usedBlockIds := used, freeBlockIds := free } :=
    fun _ _ => h.frame hs rfl
  dsimp only
  split
  · exact .bind (.throw _) fun _ => by
      split
      · exact .bind (.throw _) fun _ => .set (hset _ _)
      · exact .set (hset _ _)
  · split
    · exact .bind (.throw _) fun _ => .set (hset _ _)
    · exact .set (hset _ _)

omit h in
private theorem restoreBlocks_ledger (states : List (Nat × Block)) (s : State) :
    (s.restoreBlocks states).ledger = s.ledger := by
  induction states generalizing s with
  | nil => rfl
  | cons e states ih => exact ih (s.setBlock e.1 e.2)

omit h in
private theorem restoreRows_ledger (rows : List TemporaryReservationRow) (s : State) :
    (s.restoreRows rows).ledger = s.ledger := by
  induction rows generalizing s with
  | nil => rfl
  | cons row rows ih => exact (ih (s.restoreRow row)).trans (s.setSeq_ledger rfl)

omit h in
private theorem restoreSnapshot_ledger (s : State) (rows : List TemporaryReservationRow)
    (free : List Nat)
    (used : Finset Nat) (hashes : HashIndex) (states : List (Nat × Block)) :
    (s.restoreSnapshot rows free used hashes states).ledger = s.ledger :=
  (restoreBlocks_ledger states (s.restoreRows rows)).trans (restoreRows_ledger rows s)

omit h in
private theorem restoreAllocation_ledger (s : State) (x : Nat) (before : State)
    (states : List (Nat × Block)) : (s.restoreAllocation x before states).ledger = s.ledger :=
  (restoreBlocks_ledger states _).trans (s.setSeq_ledger rfl)

private theorem restoreLease {s : State} (hs : P s) (r : TemporaryBlockReservation) :
    P (s.restoreLease r) :=
  h.release (h.frame hs (restoreSnapshot_ledger s r.rows r.freeBlockIdsBefore
    r.usedBlockIdsBefore r.hashToBlockIdBefore r.blockStatesBefore))

private theorem pinBlock (x b : Nat) : Call.Keeps P (pinBlock x b) := by
  refine .get_bind fun s hs => ?_
  dsimp only
  split
  · exact .bind (.set (h.frame hs rfl)) fun _ => h.modify fun s => s.setSeq_ledger rfl
  · refine .bind (.set (h.frame hs rfl)) fun _ => ?_
    split
    · exact .bind (.throw _) fun _ => .bind (h.modify fun _ => rfl) fun _ =>
        h.modify fun s => s.setSeq_ledger rfl
    · exact .bind (h.modify fun _ => rfl) fun _ => h.modify fun s => s.setSeq_ledger rfl

private theorem pinBlocks (x : Nat) : ∀ ids, Call.Keeps P (pinBlocks x ids) := by
  intro ids
  induction ids with
  | nil => exact .pure _
  | cons b ids ih => exact (h.pinBlock x b).bind fun _ => ih

private theorem allocateCached (x : Nat) : ∀ (is : List Nat) (parent : Option Nat),
    Call.Keeps P (allocateCached cfg x is parent) := by
  intro is
  induction is with
  | nil => exact fun _ => .pure _
  | cons i is ih =>
    intro parent
    refine .get_bind fun s _ => ?_
    dsimp only
    generalize s.hashToBlockId.lookup _ = m
    cases m with
    | none =>
      split
      · exact .bind (.throw _) fun _ => .throw _
      · exact .throw _
    | some b =>
      have hrest : ∀ k, Call.Keeps P (do
          NanoVllm.pinBlock x b
          NanoVllm.allocateCached cfg x is (some k)) :=
        fun k => (h.pinBlock x b).bind fun _ => ih (some k)
      split
      · exact .bind (.throw _) fun _ => hrest _
      · exact hrest _

theorem allocate (x n : Nat) : Call.Keeps P (allocate cfg x n) := by
  refine (assertAllowed _ _).bind fun _ => .get_bind fun s _ => ?_
  have hrest : Call.Keeps P (do
      NanoVllm.allocateCached cfg x (List.range n) none
      NanoVllm.allocateBlocks x ((s.seqs x).numBlocks cfg - n)
      NanoVllm.modifySeq x fun row => { row with
        numCachedTokens := n * cfg.kvcacheBlockSize
        numDraftCachedTokens := 0 } : Call Unit) :=
    (h.allocateCached x _ _).bind fun _ => (h.allocateBlocks x _).bind fun _ =>
      h.modifySeq x fun _ => rfl
  dsimp only
  split
  · exact .bind (.throw _) fun _ => hrest
  · exact hrest

theorem allocateIncremental (x n through : Nat) :
    Call.Keeps P (allocateIncremental cfg x n through) := by
  refine (assertAllowed _ _).bind fun _ => .get_bind fun before _ => ?_
  refine .guard (.guard (.guard (.guard ?_)))
  refine (liftExcept _).bind fun ids => ?_
  dsimp only
  split
  · exact .pure _
  · refine .bind (.tryCatch ?_ fun _ => .bind (.modify fun s hs => ?_) fun _ => .throw _) fun _ =>
      .pure _
    · exact (h.pinBlocks x ids).bind fun _ => (h.allocateBlocks x _).bind fun _ =>
        h.modifySeq x fun _ => rfl
    · exact h.frame hs (restoreAllocation_ledger s x before _)

theorem extend (x through : Nat) : Call.Keeps P (extend cfg x through) := by
  refine (assertAllowed _ _).bind fun _ => .get_bind fun before _ => ?_
  refine .guard (.guard ?_)
  dsimp only
  split
  · exact .pure _
  · split
    · exact .pure _
    · refine .bind (.tryCatch (h.allocateBlocks x _) fun _ =>
        .bind (.modify fun s hs => ?_) fun _ => .throw _) fun _ => .pure _
      exact h.frame hs (restoreAllocation_ledger s x before _)

theorem mayAppend (x : Nat) : Call.Keeps P (mayAppend cfg x) := by
  refine (assertAllowed _ _).bind fun _ => .get_bind fun s _ => ?_
  split
  · exact h.allocateBlock.bind fun _ => h.modify fun s => s.setSeq_ledger rfl
  · exact .pure _

private theorem hashBlocksLoop (x : Nat) : ∀ (is : List Nat) (parent : Option Nat),
    Call.Keeps P (hashBlocksLoop cfg x is parent) := by
  intro is
  induction is with
  | nil => exact fun _ => .pure _
  | cons i is ih =>
    intro parent
    refine h.tick.bind fun _ => .get_bind fun s hs => ?_
    dsimp only
    split
    · exact .throw _
    · refine .guard ?_
      exact .bind (.set (h.frame hs rfl)) fun _ => ih _

theorem hashBlocks (x : Nat) : Call.Keeps P (hashBlocks cfg x) := by
  refine (assertAllowed _ _).bind fun _ => .get_bind fun s _ => ?_
  dsimp only
  split
  · exact .pure _
  · split
    · split
      · exact .throw _
      · exact h.hashBlocksLoop x _ _
    · exact h.hashBlocksLoop x _ _

private theorem releaseBlocks : ∀ ids : List Nat, Call.Keeps P (releaseBlocks ids) := by
  intro ids
  induction ids with
  | nil => exact .pure _
  | cons b ids ih =>
    refine .bind (h.modify fun _ => rfl) fun _ => .get_bind fun s _ => ?_
    dsimp only
    split
    · exact (h.deallocateBlock b).bind fun _ => ih
    · exact ih

omit h in
private theorem dropAllAppended_ledger (validated : List (Nat × Option Nat)) (s : State) :
    (s.dropAllAppended validated).ledger = s.ledger := by
  induction validated with
  | nil => rfl
  | cons e validated ih =>
    obtain ⟨x, found⟩ := e
    cases found with
    | none => exact ih
    | some b =>
      have hdrop : ((s.dropAllAppended validated).dropAppended x b).ledger =
          (s.dropAllAppended validated).ledger :=
        (s.dropAllAppended validated).setSeq_ledger rfl
      exact hdrop.trans ih

theorem rollbackUncommittedAppends (rows : List (Nat × Nat)) :
    Call.Keeps P (rollbackUncommittedAppends cfg rows) := by
  refine (assertAllowed _ _).bind fun _ => .get_bind fun s hs => (liftExcept _).bind fun v => ?_
  refine .guard ?_
  exact .bind (.set (h.frame hs (dropAllAppended_ledger v s))) fun _ => .pure _

theorem allocateInternal : Call.Keeps P allocateInternal :=
  .bind (h.modify fun _ => rfl) fun _ =>
    .bind (h.allocateBlock.tryCatch fun _ => .bind (h.modify fun _ => rfl) fun _ => .throw _)
      fun _ => .bind (h.modify fun _ => rfl) fun _ => .pure _

theorem leaseRow (x : Nat) : ∀ n, Call.Keeps P (leaseRow x n) := by
  intro n
  induction n with
  | zero => exact .pure _
  | succ n ih =>
    exact h.allocateInternal.bind fun _ => h.tick.bind fun _ =>
      .bind (h.modify fun s => s.setSeq_ledger rfl) fun _ => ih.bind fun _ => .pure _

private theorem leaseRows (before : State) : ∀ specs, Call.Keeps P (leaseRows before specs) := by
  intro specs
  induction specs with
  | nil => exact .pure _
  | cons spec specs ih => exact (h.leaseRow _ _).bind fun _ => ih.bind fun _ => .pure _

theorem leaseCandidates (before : State) (specs : List ReservationRowSpec) (ids : List Nat)
    (saved : List TemporaryReservationRow) (states : List (Nat × Block)) :
    Call.Keeps P (leaseCandidates before specs ids saved states) := by
  refine .tryCatch ?_ fun _ => .bind (h.modify fun s => restoreSnapshot_ledger s _ _ _ _ _)
    fun _ => .throw _
  exact (h.leaseRows _ _).bind fun _ => .guard (.pure _)

private theorem publishLease {before : State} {r : TemporaryBlockReservation} (hbefore : P before)
    (hid : r.reservationId = before.nextReservationId) : Call.Keeps P (publishLease r) := by
  refine .tryCatch ?_ fun _ => .bind (.modify fun _ hs => h.restoreLease hs r) fun _ => .throw _
  exact h.tick.bind fun _ => .bind (.modify fun _ hs => h.publish hbefore hs hid) fun _ =>
    h.tick.bind fun _ => .get_bind fun _ _ => liftExcept _

private theorem reserveBody (rows : List (Nat × Nat)) : Call.Keeps P (reserveBody cfg rows) := by
  refine h.tick.bind fun _ => .get_bind fun s hs => (liftExcept _).bind fun _ => ?_
  dsimp only
  split
  · exact .pure _
  · split
    · exact .throw _
    · split
      · exact .throw _
      · exact (h.leaseCandidates _ _ _ _ _).bind fun _ =>
          (h.publishLease hs rfl).bind fun _ => .pure _

theorem reserveTemporaryAppend (rows : List (Nat × Nat)) :
    Call.Keeps P (reserveTemporaryAppend cfg rows) := by
  refine .get_bind fun s hs => ?_
  split
  · exact .throw _
  · refine .bind (.set (h.frame hs rfl)) fun _ => .bind (.tryCatch (h.reserveBody rows) fun _ => ?_)
      fun _ => ?_
    · exact .bind (h.modify fun _ => rfl) fun _ => .throw _
    · exact .bind (h.modify fun _ => rfl) fun _ => .pure _

theorem rollbackTemporaryAppend (r : TemporaryBlockReservation) :
    Call.Keeps P (rollbackTemporaryAppend r) := by
  refine .get_bind fun s hs => ?_
  split
  · exact .pure _
  · split
    · exact .pure _
    · split
      · exact .throw _
      · exact (liftExcept _).bind fun _ => .bind (.set (h.restoreLease hs r)) fun _ => .pure _

omit h in
private theorem active_of_validate {s : State} {r : TemporaryBlockReservation} {u : Unit}
    (hvalid : validateLiveReservation s r = .ok u) : s.activeReservation = some r := by
  unfold validateLiveReservation at hvalid
  obtain ⟨hactive, -⟩ := Call.except_guard hvalid
  exact not_not.mp hactive

theorem prepareTemporaryTargetWrites (r : TemporaryBlockReservation) :
    Call.Keeps P (prepareTemporaryTargetWrites r) := by
  refine h.tick.bind fun _ => .get_bind fun s hs => ?_
  cases hvalid : validateLiveReservation s r with
  | error e => exact .throw_bind e _
  | ok u =>
    have hactive := active_of_validate hvalid
    exact .bind (.pure u) fun _ => .bind (.set (h.replace hactive rfl hs)) fun _ => .pure _

omit h in
private theorem retainTables_ledger (desired : List (TemporaryReservationRow × Nat)) (s : State) :
    (s.retainTables desired).ledger = s.ledger := by
  induction desired generalizing s with
  | nil => rfl
  | cons e desired ih =>
    exact (ih (s.setSeq e.1.sequence { s.seqs e.1.sequence with
      blockTable := e.1.blockTableBefore ++ retainRow e })).trans (s.setSeq_ledger rfl)

private theorem applyRetention {live : State} (hlive : P live) (r : TemporaryBlockReservation)
    (desired : List (TemporaryReservationRow × Nat)) :
    Call.Keeps P (applyRetention live r desired) := by
  refine .tryCatch ?_ fun _ => .bind (.modify fun s hs => ?_) fun _ => .throw _
  · refine h.tick.bind fun _ => .bind (h.modify fun s => retainTables_ledger desired s) fun _ =>
      h.tick.bind fun _ => .bind (h.modify fun s => restoreBlocks_ledger _ s) fun _ =>
      h.tick.bind fun _ => .bind (h.modify fun _ => rfl) fun _ =>
      h.tick.bind fun _ => .get_bind fun _ _ => (liftExcept _).bind fun _ =>
      h.tick.bind fun _ => .bind (.modify fun _ hs => h.release hs) fun _ => h.tick
  · have hback := restoreSnapshot_ledger s (r.rows.map fun row => snapshotRow live row.sequence)
      live.freeBlockIds live.usedBlockIds live.hashToBlockId
      (snapshotBlockStates live (r.blockStatesBefore.map Prod.fst))
    exact h.restore hlive (h.frame hs hback) rfl fun _ => Or.inl rfl

theorem finalizeTemporaryAppend (r : TemporaryBlockReservation) (keep : List (Nat × Int)) :
    Call.Keeps P (finalizeTemporaryAppend r keep) := by
  refine .get_bind fun live hs => ?_
  split
  · exact .pure _
  · split
    · exact .pure _
    · split
      · exact .throw _
      · exact (liftExcept _).bind fun _ => (liftExcept _).bind fun desired =>
          (h.applyRetention hs r desired).bind fun _ => .pure _

theorem deallocate (x : Nat) : Call.Keeps P (deallocate x) := by
  refine .get_bind fun s _ => ?_
  have htail : Call.Keeps P (do
      assertAllocatorMutationAllowed "deallocate a sequence" false
      let t ← get
      NanoVllm.releaseBlocks (t.seqs x).blockTable.reverse
      NanoVllm.modifySeq x fun row => { row with
        numCachedTokens := 0
        numDraftCachedTokens := 0
        blockTable := [] } : Call Unit) :=
    (assertAllowed _ _).bind fun _ => .get_bind fun t _ => (h.releaseBlocks _).bind fun _ =>
      h.modifySeq x fun _ => rfl
  dsimp only
  split
  · exact htail
  · exact .guard ((h.rollbackTemporaryAppend _).bind fun _ => htail)

private theorem publishTransaction (rollback : List DecodeScheduleRollbackRow) (plan : SpecStepPlan)
    (r : TemporaryBlockReservation) : Call.Keeps P (publishTransaction rollback plan r) := by
  refine .tryCatch ?_ fun _ => ?_
  · exact h.tick.bind fun _ => .get_bind fun _ hs => (liftExcept _).bind fun _ =>
      .bind (.set (h.frame hs rfl)) fun _ => .pure _
  · exact .bind (h.modify fun _ => rfl) fun _ => (h.rollbackTemporaryAppend r).bind fun _ =>
      .throw _

private theorem planBatch
    (build : Nat → Option String → Option DraftRouteKey → Except Raised SpecStepPlan) (s : State)
    (batch : List Nat) (rows : List SpecPlanRow) (cap : Nat)
    (admission : Option DraftRouteAdmission)
    (baseline : Option (List DecodeScheduleRollbackRow)) :
    Call.Keeps P (planBatch cfg build s batch rows cap admission baseline) := by
  unfold NanoVllm.planBatch
  split
  · exact liftExcept _
  · split
    · exact liftExcept _
    · refine (liftExcept _).bind fun _ => (liftExcept _).bind fun plan => ?_
      split
      · refine (h.reserveTemporaryAppend _).bind fun reserved => ?_
        split
        · exact liftExcept _
        · exact h.publishTransaction _ _ _
      · exact .pure _

theorem planSpeculativeStep (workspace : SpeculativeWorkspace) (batch : List Nat)
    (admission : Option DraftRouteAdmission)
    (baseline : Option (List DecodeScheduleRollbackRow)) :
    Call.Keeps P (planSpeculativeStep cfg workspace batch admission baseline) := by
  refine h.tick.bind fun _ => .get_bind fun s hs => ?_
  split
  · exact .throw _
  · exact (liftExcept _).bind fun _ => (liftExcept _).bind fun _ =>
      .bind (.set (h.frame hs rfl)) fun _ => h.planBatch _ _ _ _ _ _ _

private theorem commitRow (row : PreparedRow) : Call.Keeps P (commitRow cfg row) := by
  refine h.tick.bind fun _ => .bind (h.modifySeq _ fun _ => rfl) fun _ =>
    (h.hashBlocks _).bind fun _ => .bind (h.modifySeq _ fun _ => rfl) fun _ =>
    .get_bind fun s _ => ?_
  dsimp only
  split
  · refine .bind (h.modifySeq _ fun _ => rfl) fun _ => (h.deallocate _).bind fun _ =>
      .bind ?_ fun _ => .pure _
    exact .get_bind fun t ht => .guard (.set (h.frame ht rfl))
  · exact .pure _

private theorem commitRows : ∀ prepared : List PreparedRow, Call.Keeps P (commitRows cfg prepared) := by
  intro prepared
  induction prepared with
  | nil => exact .pure _
  | cons row prepared ih => exact (h.commitRow row).bind fun _ => ih.bind fun _ => .pure _

omit h in
private theorem restoreCommit_prefill (s before : State) (xs : List Nat) (x : Nat) :
    (s.restoreCommit before xs).prefill x = s.prefill x ∨
      (s.restoreCommit before xs).prefill x = before.prefill x := by
  change (if x ∈ xs then before.seqs x else s.seqs x).isPrefill = _ ∨
    (if x ∈ xs then before.seqs x else s.seqs x).isPrefill = _
  by_cases hx : x ∈ xs
  · exact Or.inr (by rw [if_pos hx]; rfl)
  · exact Or.inl (by rw [if_neg hx]; rfl)

theorem commitSpeculative (plan : SpecStepPlan) (result : SpecExecutionResult) :
    Call.Keeps P (commitSpeculative cfg plan result) := by
  refine h.tick.bind fun _ => .get_bind fun before hbefore => ?_
  split
  · exact .throw _
  · refine (liftExcept _).bind fun _ => .bind ?_ fun _ => .bind (h.modify fun _ => rfl) fun _ =>
      .pure _
    refine .tryCatch ((h.finalizeTemporaryAppend _ _).bind fun _ => ?_) fun _ =>
      .bind (.modify fun s hs => h.restore hbefore hs rfl fun x => ?_) fun _ => .throw _
    · split
      · exact h.commitRows _
      · exact .throw _
    · exact restoreCommit_prefill s before _ x

theorem prepareSpeculativeTargetWrites (plan : SpecStepPlan) :
    Call.Keeps P (prepareSpeculativeTargetWrites plan) := by
  refine .get_bind fun s _ => ?_
  split
  · exact .throw _
  · split
    · exact .throw _
    · split
      · exact .pure _
      · exact (h.prepareTemporaryTargetWrites _).bind fun _ => h.modify fun _ => rfl

private theorem rollbackDraftDiscard (plan : SpecStepPlan) :
    Call.Keeps P (rollbackDraftDiscard plan) := by
  refine .get_bind fun s _ => ?_
  split
  · exact .pure _
  · exact .guard ((h.rollbackTemporaryAppend _).bind fun _ =>
      .bind (h.modify fun _ => rfl) fun _ => .pure _)

private theorem abortDraftCoverage (plan : SpecStepPlan) : Call.Keeps P (abortDraftCoverage plan) := by
  refine .get_bind fun s hs => ?_
  split
  · exact .pure _
  · exact .guard (.bind (.set (h.frame hs rfl)) fun _ => .pure _)

omit h in
private theorem clearScheduled_ledger (xs : List Nat) (s : State) :
    (s.clearScheduled xs).ledger = s.ledger := by
  induction xs generalizing s with
  | nil => rfl
  | cons x xs ih =>
    exact (ih (s.setSeq x { s.seqs x with numScheduledTokens := 0 })).trans (s.setSeq_ledger rfl)

theorem rollbackFailedDecodeSchedule (rollback : List DecodeScheduleRollbackRow) :
    Call.Keeps P (rollbackFailedDecodeSchedule cfg rollback) := by
  have htail : Call.Keeps P (do
      let changed ← NanoVllm.rollbackUncommittedAppends cfg
        (rollback.map fun row => (row.sequence, row.expectedBlockCount))
      modifyGet fun t : State =>
        (⟨⟩, t.clearScheduled (rollback.map DecodeScheduleRollbackRow.sequence))
      pure changed : Call Bool) :=
    (h.rollbackUncommittedAppends _).bind fun _ =>
      .bind (h.modify fun s => clearScheduled_ledger _ s) fun _ => .pure _
  refine .get_bind fun s _ => .guard (.guard ?_)
  split
  · exact .bind (.throw _) fun _ => htail
  · exact htail

theorem abortSpeculativeStep : Call.Keeps P (abortSpeculativeStep cfg) := by
  refine .get_bind fun s _ => ?_
  split
  · exact .pure _
  · exact (h.rollbackDraftDiscard _).bind fun _ => (h.abortDraftCoverage _).bind fun _ =>
      (h.rollbackFailedDecodeSchedule _).bind fun _ => .bind (h.modify fun _ => rfl) fun _ =>
      .pure _

theorem handoffDraftDiscard (plan : SpecStepPlan) : Call.Keeps P (handoffDraftDiscard plan) := by
  refine h.tick.bind fun _ => .get_bind fun s _ => (liftExcept _).bind fun _ =>
    (h.rollbackDraftDiscard plan).bind fun released => ?_
  split
  · exact h.tick.bind fun _ => h.modify fun _ => rfl
  · exact .throw _

theorem stageDraftCoverage (plan : SpecStepPlan) (batch : List Nat)
    (coverage : List (Nat × Nat)) : Call.Keeps P (stageDraftCoverage plan batch coverage) :=
  h.tick.bind fun _ => .get_bind fun _ hs => (liftExcept _).bind fun _ => .set (h.frame hs rfl)

private theorem finishRow (x : Nat) : Call.Keeps P (finishRow x) := by
  refine .bind (h.modifySeq _ fun _ => rfl) fun _ => (h.deallocate x).bind fun _ =>
    .bind (h.modifySeq _ fun _ => rfl) fun _ => .get_bind fun t ht => ?_
  exact .guard (.set (h.frame ht rfl))

private theorem postprocessRow (x tokenId : Nat) : Call.Keeps P (postprocessRow cfg x tokenId) := by
  refine (h.hashBlocks x).bind fun _ => .bind (h.modifySeq _ fun _ => rfl) fun _ =>
    .get_bind fun s _ => ?_
  split
  · exact .pure _
  · refine .bind (h.modifySeq _ fun _ => rfl) fun _ => .get_bind fun t _ => ?_
    dsimp only
    split
    · exact (h.finishRow x).bind fun _ => .pure _
    · exact .pure _

private theorem postprocessRows :
    ∀ rows : List (Nat × Nat), Call.Keeps P (postprocessRows cfg rows) := by
  intro rows
  induction rows with
  | nil => exact .pure _
  | cons row rows ih => exact (h.postprocessRow row.1 row.2).bind fun _ => ih.bind fun _ => .pure _

omit h in
private theorem commitCoverage_ledger (coverage : List (Nat × Nat)) (batch : List Nat) (s : State) :
    (s.commitCoverage coverage batch).ledger = s.ledger := by
  induction batch generalizing s with
  | nil => rfl
  | cons x batch ih =>
    refine (ih _).trans ?_
    dsimp only
    split
    · exact s.setSeq_ledger rfl
    · rfl

omit h in
private theorem closeHandoff_ledger (t s : State) (batch : List Nat) :
    (t.closeHandoff s batch).ledger = t.ledger := by
  have hcovered := commitCoverage_ledger (s.pendingDraftCoverage.getD []) batch t
  unfold State.closeHandoff
  dsimp only
  split <;> split
  · exact hcovered
  · rfl
  · exact hcovered
  · rfl

theorem postprocess (batch tokenIds : List Nat) :
    Call.Keeps P (postprocess cfg batch tokenIds) :=
  .get_bind fun s _ => (liftExcept _).bind fun _ => (h.postprocessRows _).bind fun _ =>
    .bind (h.modify fun t => closeHandoff_ledger t s batch) fun _ => .pure _

end Ledgered

def State.Unarmed (s : State) : Prop := s.fault = none

theorem unarmed : Ledgered State.Unarmed where
  frame hs hl := (congrArg Ledger.fault hl).trans hs
  tick := by
    intro s hs
    have hfault : s.fault = none := hs
    change State.Unarmed (Call.after (NanoVllm.tick s))
    rw [NanoVllm.tick, Call.bind_of_ok (Call.get_apply s), hfault]
    exact hs
  release hs := hs
  publish _ hs _ := hs
  replace _ _ hs := hs
  restore _ hs hl _ := (congrArg Ledger.fault hl).trans hs

end NanoVllm
