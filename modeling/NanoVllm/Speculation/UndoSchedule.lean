/- module: NanoVllm/Speculation/UndoSchedule
   layer: refinement
   source: nanovllm/engine/block_manager.py, rollback_uncommitted_appends;
     nanovllm/engine/scheduler.py, capture_decode_schedule_rollback and
     rollback_failed_decode_schedule
   digest: Undoing a decode schedule returns to its preemptions without its appends. -/

import NanoVllm.Scheduling.Replay
import NanoVllm.Speculation.Protocol

set_option autoImplicit false
set_option relaxedAutoImplicit false

namespace NanoVllm

open Library

variable {cfg : Config} {s t u v : State} {rows : List (Nat × List Nat)} {x : Nat}
  {batch : List Nat}

/-- A row whose table ends in at most one fresh exclusive block beyond `expected`. -/
structure Takeable (cfg : Config) (t : State) (e : Nat × List Nat) (expected : Nat) : Prop where
  short : e.2.length ≤ 1
  table : ∃ front, t.table e.1 = front ++ e.2 ∧ front.length = expected ∧ ∀ b ∈ e.2, b ∉ front
  bounded : ∀ b ∈ e.2, b < cfg.numKvcacheBlocks
  used : ∀ b ∈ e.2, b ∈ t.usedBlockIds ∧ b ∉ t.freeBlockIds
  fresh : ∀ b ∈ e.2, t.blocks b = Block.fresh

private theorem Takeable.validate {e : Nat × List Nat} {expected : Nat} (h : Takeable cfg t e expected)
    {appended : List Nat} (hout : ∀ b ∈ e.2, b ∉ appended) :
    validateUncommittedRow cfg t e.1 expected appended = .ok e.2.head? := by
  obtain ⟨front, htab, hlen, hnot⟩ := h.table
  change (t.seqs e.1).blockTable = front ++ e.2 at htab
  cases hids : e.2 with
  | nil =>
    rw [hids, List.append_nil] at htab
    unfold validateUncommittedRow
    rw [htab, if_pos hlen]
    rfl
  | cons b more =>
    have hmore : more = [] := by
      have hshort := h.short
      rw [hids, List.length_cons] at hshort
      exact List.length_eq_zero_iff.mp (by omega)
    have hb : b ∈ e.2 := by simp [hids]
    obtain ⟨hused, hfree⟩ := h.used b hb
    have hlt := h.bounded b hb
    have hfresh := h.fresh b hb
    have happ := hout b hb
    have hfront := hnot b hb
    rw [hids, hmore] at htab
    unfold validateUncommittedRow
    simp [htab, hlen, hlt, hfront, happ, hused, hfree, hfresh, Block.fresh, pure, Except.pure]

def tails (rows : List (Nat × List Nat)) : List (Nat × Option Nat) :=
  rows.map fun e => (e.1, e.2.head?)

private theorem tails_fst (rows : List (Nat × List Nat)) :
    (tails rows).map Prod.fst = rows.map Prod.fst := by
  simp [tails]

theorem tails_snd (hshort : ∀ e ∈ rows, e.2.length ≤ 1) :
    (tails rows).filterMap Prod.snd = lentBlocks rows := by
  induction rows with
  | nil => rfl
  | cons e rows ih =>
    have hrest := ih fun f hf => hshort f (List.mem_cons_of_mem e hf)
    have hone := hshort e (by simp)
    obtain ⟨y, ids⟩ := e
    cases ids with
    | nil => exact hrest
    | cons b more =>
      have hmore : more = [] := List.length_eq_zero_iff.mp (by simpa using hone)
      rw [hmore]
      change b :: (tails rows).filterMap Prod.snd = b :: lentBlocks rows
      rw [hrest]

theorem validateUncommittedRows_take (expected : Nat → Nat) :
    ∀ {rows : List (Nat × List Nat)} {seen appended : List Nat},
      (∀ e ∈ rows, Takeable cfg t e (expected e.1)) → (rows.map Prod.fst).Nodup →
      (∀ e ∈ rows, e.1 ∉ seen) → (lentBlocks rows).Nodup →
      (∀ b ∈ lentBlocks rows, b ∉ appended) →
      validateUncommittedRows cfg t (rows.map fun e => (e.1, expected e.1)) seen appended =
        .ok (tails rows) := by
  intro rows
  induction rows with
  | nil => exact fun _ _ _ _ _ => rfl
  | cons e rows ih =>
    intro seen appended htake hnd hseen hlent happ
    have hhead := (htake e (by simp)).validate fun b hb => happ b (by simp [hb])
    rw [List.map_cons, List.nodup_cons] at hnd
    rw [lentBlocks_cons] at hlent
    obtain ⟨-, hrest, hdisj⟩ := List.nodup_append.mp hlent
    have hseen' : ∀ f ∈ rows, f.1 ∉ e.1 :: seen := by
      intro f hf hmem
      rcases List.mem_cons.mp hmem with heq | hmem
      · exact hnd.1 (heq ▸ List.mem_map_of_mem hf)
      · exact hseen f (List.mem_cons_of_mem e hf) hmem
    have happ' : ∀ b ∈ lentBlocks rows, b ∉ e.2.head?.toList ++ appended := by
      intro b hb hmem
      rcases List.mem_append.mp hmem with hmem | hmem
      · exact hdisj b (List.mem_of_mem_head? (by simpa using hmem)) b hb rfl
      · exact happ b (by simp [hb]) hmem
    have htail := ih (fun f hf => htake f (List.mem_cons_of_mem e hf)) hnd.2 hseen' hrest happ'
    rw [List.map_cons]
    unfold validateUncommittedRows
    rw [if_neg (hseen e (by simp))]
    simp [hhead, htail, tails, bind, Except.bind, pure, Except.pure]

private theorem State.dropAllAppended_lend (v : State) (hnd : (rows.map Prod.fst).Nodup)
    (hshort : ∀ e ∈ rows, e.2.length ≤ 1) {rest : List Nat}
    (hfree : v.freeBlockIds = lentBlocks rows ++ rest) (hok : PoolOk v)
    (hunused : ∀ b ∈ v.freeBlockIds, b ∉ v.usedBlockIds) :
    (v.lend rows).dropAllAppended (tails rows) = v.wipe (lentBlocks rows) := by
  have hin : ∀ b ∈ lentBlocks rows, b ∈ v.freeBlockIds := by
    intro b hb
    rw [hfree]
    exact List.mem_append_left rest hb
  have hkept : v.freeBlockIds.filter (· ∉ lentBlocks rows) = rest := by
    have hnodup := hok.nodup
    rw [hfree] at hnodup ⊢
    obtain ⟨-, -, hdisj⟩ := List.nodup_append.mp hnodup
    rw [List.filter_append, List.filter_eq_nil_iff.mpr (by simp), List.nil_append,
      List.filter_eq_self]
    intro b hb
    have hnot : b ∉ lentBlocks rows := fun hlent => hdisj b hlent b hb rfl
    simpa using hnot
  apply State.ext_control
  · funext y
    by_cases hy : y ∈ rows.map Prod.fst
    · obtain ⟨e, he, rfl⟩ := List.mem_map.mp hy
      have hmem : (e.1, e.2.head?) ∈ tails rows := List.mem_map_of_mem he
      rw [State.dropAllAppended_seqs_in _ (by rw [tails_fst]; exact hnd) hmem]
      have hlent : lentTo rows e.1 = e.2 := lentTo_of_mem hnd he
      have hone := hshort e he
      obtain ⟨y, ids⟩ := e
      dsimp only at hlent hone ⊢
      cases ids with
      | nil => simp [State.lend, State.wipe, State.table, hlent]
      | cons b more =>
        have hmore : more = [] := List.length_eq_zero_iff.mp (by simpa using hone)
        subst hmore
        simp [State.lend, State.wipe, State.table, hlent]
    · rw [State.dropAllAppended_seqs_out _ (by rw [tails_fst]; exact hy)]
      simp [State.lend, State.wipe, lentTo_eq_nil hy, State.table]
  · rw [State.dropAllAppended_blocks, tails_snd hshort]
    funext b
    by_cases hb : b ∈ lentBlocks rows
    · have hzero := hok.zero b (hin b hb)
      simp [State.lend, State.wipe, hb, Block.fresh, hzero]
    · simp [State.lend, State.wipe, hb]
  · rw [State.dropAllAppended_index]
    rfl
  · rw [State.dropAllAppended_free, tails_snd hshort]
    change _ ++ v.freeBlockIds.filter (· ∉ lentBlocks rows) = v.freeBlockIds
    rw [hkept, hfree]
  · rw [State.dropAllAppended_used, tails_snd hshort]
    change (v.usedBlockIds ∪ (lentBlocks rows).toFinset) \ (lentBlocks rows).toFinset =
      v.usedBlockIds
    rw [Finset.union_sdiff_right]
    apply Finset.sdiff_eq_self_of_disjoint
    rw [Finset.disjoint_left]
    intro b hb hlent
    exact hunused b (hin b (List.mem_toFinset.mp hlent)) hb
  · rw [State.dropAllAppended_control, State.lend_control]
    rfl

structure RestingRow (cfg : Config) (q : Sequence) : Prop where
  status : q.status = .running
  cached : q.numCachedTokens + 1 = q.numTokens
  pages : q.blockTable.length = pagesFor cfg.kvcacheBlockSize q.numCachedTokens

/-- `t` is `v` with the rows of `batch` scheduled for one token each and `rows` appended. -/
structure Grown (cfg : Config) (v : State) (rows : List (Nat × List Nat)) (batch : List Nat)
    (t : State) : Prop where
  pool : SamePool t ((v.markDecode batch).lend rows)
  borrowers : rows.map Prod.fst = batch
  distinct : batch.Nodup
  short : ∀ e ∈ rows, e.2.length ≤ 1
  free : v.freeBlockIds = lentBlocks rows ++ t.freeBlockIds
  ok : PoolOk v
  bounded : ∀ b ∈ v.freeBlockIds, b < cfg.numKvcacheBlocks ∧ b ∉ v.usedBlockIds
  apart : ∀ x ∈ batch, ∀ b ∈ v.table x, b ∉ v.freeBlockIds
  resting : ∀ x ∈ batch, RestingRow cfg (v.seqs x)

theorem Grown.of_pool (h : Grown cfg v rows batch t) (hu : SamePool u t) :
    Grown cfg v rows batch u where
  pool := hu.trans h.pool
  borrowers := h.borrowers
  distinct := h.distinct
  short := h.short
  free := by rw [hu.free, h.free]
  ok := h.ok
  bounded := h.bounded
  apart := h.apart
  resting := h.resting

def undoRow (cfg : Config) (s : State) (x : Nat) : DecodeScheduleRollbackRow where
  sequence := x
  committedTokens := (s.seqs x).numTokens
  targetCachedTokens := (s.seqs x).numCachedTokens
  draftCachedTokens := (s.seqs x).numDraftCachedTokens
  expectedBlockCount := pagesFor cfg.kvcacheBlockSize (s.seqs x).numCachedTokens

private theorem SamePool.dropAllAppended (h : SamePool s t) (validated : List (Nat × Option Nat)) :
    SamePool (s.dropAllAppended validated) (t.dropAllAppended validated) := by
  induction validated with
  | nil => exact h
  | cons w validated ih =>
    obtain ⟨x, found⟩ := w
    cases found with
    | none => exact ih
    | some b =>
      have hset := ih.setSeq x { (s.dropAllAppended validated).seqs x with
        blockTable := ((s.dropAllAppended validated).seqs x).blockTable.dropLast }
      refine ⟨?_, ?_, ih.index, congrArg (b :: ·) ih.free, ?_⟩
      · refine hset.seqs.trans ?_
        rw [congrFun ih.seqs x]
        rfl
      · change Function.update (s.dropAllAppended validated).blocks b _ =
          Function.update (t.dropAllAppended validated).blocks b _
        rw [ih.blocks]
      · change (s.dropAllAppended validated).usedBlockIds.erase b =
          (t.dropAllAppended validated).usedBlockIds.erase b
        rw [ih.used]

private theorem SamePool.clearScheduled (h : SamePool s t) (xs : List Nat) :
    SamePool (s.clearScheduled xs) (t.clearScheduled xs) := by
  rw [State.clearScheduled_eq, State.clearScheduled_eq]
  refine ⟨?_, h.blocks, h.index, h.free, h.used⟩
  dsimp only
  rw [h.seqs]

theorem Grown.wipe (h : Grown cfg v rows batch t) {ids : List Nat}
    (hids : ∀ b ∈ ids, b ∈ t.freeBlockIds) : Grown cfg (v.wipe ids) rows batch (t.wipe ids) where
  pool := by
    have hnodup := h.ok.nodup
    rw [h.free] at hnodup
    have hsep : ∀ b ∈ lentBlocks rows, b ∉ ids := fun b hb hin =>
      (List.nodup_append.mp hnodup).2.2 b hb b (hids b hin) rfl
    refine ⟨h.pool.seqs, ?_, ?_, h.pool.free, h.pool.used⟩
    · funext b
      have hblock := congrFun h.pool.blocks b
      by_cases hb : b ∈ lentBlocks rows
      · have hout := hsep b hb
        simp only [State.wipe, State.lend, hb, hout, ↓reduceIte, hblock]
      · by_cases hin : b ∈ ids
        · simp [State.wipe, State.lend, hb, hin, hblock, State.markDecode]
        · simp [State.wipe, State.lend, hb, hin, hblock, State.markDecode]
    · change restrict (· ∉ ids) t.hashToBlockId =
        restrict (· ∉ lentBlocks rows) (restrict (· ∉ ids) v.hashToBlockId)
      rw [h.pool.index, restrict_comm]
      rfl
  borrowers := h.borrowers
  distinct := h.distinct
  short := h.short
  free := h.free
  ok := h.ok.wipe ids
  bounded := h.bounded
  apart := h.apart
  resting := h.resting

def State.decoded (s : State) (xs : List Nat) : State :=
  { s with
    seqs := fun y => if y ∈ xs then { s.seqs y with numScheduledTokens := 0, isPrefill := false }
      else s.seqs y }

section Grown

variable (h : Grown cfg v rows batch t)
include h

private theorem Grown.seqs_in (hx : x ∈ batch) : t.seqs x = { v.seqs x with
    numScheduledTokens := 1
    isPrefill := false
    blockTable := v.table x ++ lentTo rows x } := by
  rw [congrFun h.pool.seqs x]
  simp [State.lend, State.markDecode, hx, State.table]

private theorem Grown.lent_nodup : (lentBlocks rows).Nodup := by
  have hnodup := h.ok.nodup
  rw [h.free] at hnodup
  exact (List.nodup_append.mp hnodup).1

theorem Grown.lent_free {b : Nat} (hb : b ∈ lentBlocks rows) : b ∈ v.freeBlockIds := by
  rw [h.free]
  exact List.mem_append_left _ hb

private theorem Grown.takeable {e : Nat × List Nat} (he : e ∈ rows) :
    Takeable cfg t e (pagesFor cfg.kvcacheBlockSize (v.seqs e.1).numCachedTokens) := by
  have hx : e.1 ∈ batch := by
    rw [← h.borrowers]
    exact List.mem_map_of_mem he
  have hnd : (rows.map Prod.fst).Nodup := by
    rw [h.borrowers]
    exact h.distinct
  have hlent : ∀ b ∈ e.2, b ∈ lentBlocks rows := fun b hb => List.mem_flatMap.mpr ⟨e, he, hb⟩
  refine ⟨h.short e he, ⟨v.table e.1, ?_, (h.resting e.1 hx).pages, ?_⟩, ?_, ?_, ?_⟩
  · rw [State.table, h.seqs_in hx, lentTo_of_mem hnd he]
  · exact fun b hb hin => h.apart e.1 hx b hin (h.lent_free (hlent b hb))
  · exact fun b hb => (h.bounded b (h.lent_free (hlent b hb))).1
  · intro b hb
    rw [h.pool.used, h.pool.free]
    simp [State.lend, hlent b hb]
  · intro b hb
    rw [h.pool.blocks]
    simp [State.lend, hlent b hb]

theorem Grown.capture (hne : batch ≠ []) :
    captureDecodeScheduleRollback cfg t batch false = some (batch.map (undoRow cfg v)) := by
  have hrow : ∀ y ∈ batch, captureRow cfg t y = some (undoRow cfg v y) := by
    intro y hy
    have hrest := h.resting y hy
    have hlen : (t.seqs y).numTokens = (v.seqs y).numTokens := by
      rw [h.seqs_in hy]
      rfl
    unfold captureRow
    dsimp only
    rw [hlen]
    simp [h.seqs_in hy, hrest.status, hrest.cached, undoRow, pagesFor]
  have hall : ∀ ys : List Nat, (∀ y ∈ ys, y ∈ batch) →
      ys.mapM (captureRow cfg t) = some (ys.map (undoRow cfg v)) := by
    intro ys
    induction ys with
    | nil => exact fun _ => rfl
    | cons y ys ih =>
      intro hys
      rw [List.mapM_cons, hrow y (hys y (by simp)), ih fun z hz => hys z (List.mem_cons_of_mem y hz)]
      rfl
  unfold captureDecodeScheduleRollback
  rw [if_neg (by simp [hne])]
  exact hall batch fun y hy => hy

private theorem Grown.unchanged : ∀ row ∈ batch.map (undoRow cfg v),
    rollbackRowUnchanged t row = true := by
  intro row hrow
  obtain ⟨y, hy, rfl⟩ := List.mem_map.mp hrow
  have hrest := h.resting y hy
  rw [rollbackRowUnchanged_iff]
  have hlen : (t.seqs y).numTokens = (v.seqs y).numTokens := by
    rw [h.seqs_in hy]
    rfl
  refine ⟨?_, ?_, ?_, hlen, ?_, hrest.cached, ?_⟩
  · exact (congrArg Sequence.status (h.seqs_in hy)).trans hrest.status
  · exact congrArg Sequence.isPrefill (h.seqs_in hy)
  · exact congrArg Sequence.numScheduledTokens (h.seqs_in hy)
  · exact (congrArg Sequence.numCachedTokens (h.seqs_in hy)).trans rfl
  · exact (congrArg Sequence.numDraftCachedTokens (h.seqs_in hy)).trans rfl

private theorem Grown.validates : validateUncommittedRows cfg t
    ((batch.map (undoRow cfg v)).map fun row => (row.sequence, row.expectedBlockCount)) [] [] =
      .ok (tails rows) := by
  have hwanted : (batch.map (undoRow cfg v)).map
      (fun row => (row.sequence, row.expectedBlockCount)) =
      rows.map fun e => (e.1, pagesFor cfg.kvcacheBlockSize (v.seqs e.1).numCachedTokens) := by
    rw [← h.borrowers, List.map_map, List.map_map]
    rfl
  rw [hwanted]
  apply validateUncommittedRows_take
    (fun x => pagesFor cfg.kvcacheBlockSize (v.seqs x).numCachedTokens)
  · exact fun e he => h.takeable he
  · rw [h.borrowers]
    exact h.distinct
  · simp
  · exact h.lent_nodup
  · simp

private theorem Grown.prefixes : ((tails rows).any fun e =>
    (if e.2.isSome then (t.seqs e.1).blockTable.dropLast else (t.seqs e.1).blockTable).any
      (· ∈ (tails rows).filterMap Prod.snd)) = false := by
  rw [List.any_eq_false]
  intro w hw
  obtain ⟨e, he, rfl⟩ := List.mem_map.mp hw
  have hx : e.1 ∈ batch := by
    rw [← h.borrowers]
    exact List.mem_map_of_mem he
  have hnd : (rows.map Prod.fst).Nodup := by
    rw [h.borrowers]
    exact h.distinct
  have htab : (t.seqs e.1).blockTable = v.table e.1 ++ e.2 := by
    rw [h.seqs_in hx, lentTo_of_mem hnd he]
  have hfront : (if e.2.head?.isSome then (t.seqs e.1).blockTable.dropLast
      else (t.seqs e.1).blockTable) = v.table e.1 := by
    have hone := h.short e he
    rw [htab]
    cases hids : e.2 with
    | nil => simp
    | cons b more =>
      rw [hids] at hone
      have hmore : more = [] := List.length_eq_zero_iff.mp (by simpa using hone)
      simp [hmore]
  dsimp only
  rw [hfront, tails_snd h.short]
  simp only [List.any_eq_true, decide_eq_true_eq, not_exists, not_and]
  exact fun b hb hlent => h.apart e.1 hx b hb (h.lent_free hlent)

private theorem Grown.rollbackAppends (hnone : t.activeReservation = none)
    (hprog : t.reservationInProgress = false) :
    rollbackUncommittedAppends cfg
        ((batch.map (undoRow cfg v)).map fun row => (row.sequence, row.expectedBlockCount)) t =
      .ok (!(lentBlocks rows).isEmpty) (t.dropAllAppended (tails rows)) := by
  have hfence : assertAllocatorMutationAllowed "rollback uncommitted appends" false t =
      .ok ⟨⟩ t := by
    simp [assertAllocatorMutationAllowed, hnone, hprog]
  unfold rollbackUncommittedAppends
  rw [Call.bind_of_ok hfence, Call.bind_of_ok (Call.get_apply t), h.validates,
    Call.bind_of_ok (liftExcept_ok _ t)]
  dsimp only
  have hpre := h.prefixes
  rw [if_neg (by rw [hpre]; simp), tails_snd h.short]
  rfl

/-- Undoing the schedule: no append happened, and the recycled blocks stay out of the index. -/
private theorem Grown.undone_pool : SamePool ((t.dropAllAppended (tails rows)).clearScheduled batch)
    ((v.wipe (lentBlocks rows)).decoded batch) := by
  have hnd : (rows.map Prod.fst).Nodup := by
    rw [h.borrowers]
    exact h.distinct
  have hdrop : ((v.markDecode batch).lend rows).dropAllAppended (tails rows) =
      (v.markDecode batch).wipe (lentBlocks rows) :=
    State.dropAllAppended_lend _ hnd h.short h.free ⟨h.ok.nodup, h.ok.zero, h.ok.indexed⟩
      fun b hb => (h.bounded b hb).2
  have hclear : SamePool (((v.markDecode batch).wipe (lentBlocks rows)).clearScheduled batch)
      ((v.wipe (lentBlocks rows)).decoded batch) := by
    rw [State.clearScheduled_eq]
    refine ⟨?_, rfl, rfl, rfl, rfl⟩
    funext y
    by_cases hy : y ∈ batch <;> simp [State.markDecode, State.wipe, State.decoded, hy]
  have hsame := (h.pool.dropAllAppended (tails rows)).clearScheduled batch
  rw [hdrop] at hsame
  exact hsame.trans hclear

/-- `rollback_failed_decode_schedule` on the captured record: it raises nothing and takes
exactly the appends back. -/
theorem Grown.rollback (hnone : t.activeReservation = none)
    (hprog : t.reservationInProgress = false) (hdis : t.activeDraftDiscard = none)
    (hpend : t.pendingDraftCoveragePlan = none) :
    rollbackFailedDecodeSchedule cfg (batch.map (undoRow cfg v)) t =
      .ok (!(lentBlocks rows).isEmpty)
        (((v.wipe (lentBlocks rows)).decoded batch).withControl t.control) := by
  have hfind : (batch.map (undoRow cfg v)).find? (fun row => !rollbackRowUnchanged t row) =
      none := by
    rw [List.find?_eq_none]
    intro row hrow
    simp [h.unchanged row hrow]
  have hids : (batch.map (undoRow cfg v)).map DecodeScheduleRollbackRow.sequence = batch := by
    rw [List.map_map]
    exact List.map_id batch
  have hend : (t.dropAllAppended (tails rows)).clearScheduled batch =
      ((v.wipe (lentBlocks rows)).decoded batch).withControl t.control := by
    have hctl : ((t.dropAllAppended (tails rows)).clearScheduled batch).control = t.control := by
      rw [State.clearScheduled_control, State.dropAllAppended_control]
    rw [h.undone_pool.eq_withControl, hctl]
  unfold rollbackFailedDecodeSchedule
  rw [Call.bind_of_ok (Call.get_apply t), if_neg (by simp [hdis]), if_neg (by simp [hpend]),
    hfind]
  change (rollbackUncommittedAppends cfg _ >>= _) t = _
  rw [Call.bind_of_ok (h.rollbackAppends hnone hprog), Call.bind_of_ok (Call.modify_apply _ _),
    hids, hend]
  rfl

end Grown

theorem Replay.grown {victims : List Nat} (h : Replay cfg s victims rows batch [] t)
    (hout : BatchOut cfg batch [] t) : Grown cfg (s.preemptAll victims) rows batch t := by
  obtain ⟨v, hv⟩ : ∃ v, v = s.preemptAll victims := ⟨_, rfl⟩
  have hown := h.settled.1.2.own
  have hpool := h.pool
  have hqueue := h.queue
  have hst := hout.staged
  rw [← hv] at hown hpool hqueue ⊢
  rw [hout.pure_decode, List.nil_append] at hqueue
  rw [List.append_nil] at hst
  have hnd : (rows.map Prod.fst).Nodup := by
    rw [h.borrowers]
    exact hst.distinct
  have hrow : ∀ x ∈ batch, t.seqs x = { v.seqs x with
      numScheduledTokens := 1
      isPrefill := false
      blockTable := v.table x ++ lentTo rows x } := by
    intro x hx
    rw [congrFun hpool.seqs x]
    simp [State.lend, State.markDecode, hx, State.table]
  have hlive : ∀ x ∈ batch, x ∈ [] ++ v.running ++ v.waiting := by
    intro x hx
    simp [← hqueue, hx]
  refine ⟨hpool, h.borrowers, hst.distinct, ?_, ?_, hown.poolOk, ?_, ?_, ?_⟩
  · intro e he
    rw [h.need e he]
    unfold appendNeed
    split <;> omega
  · rw [hv]
    exact h.free
  · intro b hb
    exact (hown.mem_free b).mp hb
  · intro x hx b hb hfree
    have hpos := references_pos.mpr ⟨x, hlive x hx, hb⟩
    rw [← hown.ref_eq] at hpos
    exact ((hown.mem_free b).mp hfree).2 ((hown.mem_used b).mpr hpos)
  · intro x hx
    have hrun : x ∈ [] ++ t.running := by
      rw [hout.pure_decode]
      exact hx
    have hold := hst.running x hrun
    have hone := (hout.decode x hx).2
    have hfull := hold.full (by omega)
    have hpages := hold.pages
    have hcached : (t.seqs x).numCachedTokens = (v.seqs x).numCachedTokens :=
      (congrArg Sequence.numCachedTokens (hrow x hx)).trans rfl
    have hlen : (t.seqs x).numTokens = (v.seqs x).numTokens := by
      rw [hrow x hx]
      rfl
    have hstatus : (t.seqs x).status = (v.seqs x).status :=
      (congrArg Sequence.status (hrow x hx)).trans rfl
    obtain ⟨e, he, hex⟩ := List.mem_map.mp (h.borrowers ▸ hx : x ∈ rows.map Prod.fst)
    have hneed := h.need e he
    have htab : (t.seqs x).blockTable = v.table x ++ e.2 := by
      rw [hrow x hx, ← hex, lentTo_of_mem hnd he]
    rw [hex, ← hfull, hone] at hneed
    rw [htab, List.length_append, hneed, hone, ← pagesFor_append] at hpages
    refine ⟨hstatus ▸ hold.status, ?_, ?_⟩
    · rw [← hlen, ← hcached, ← hfull, hone]
    · rw [← hcached]
      exact Nat.add_right_cancel hpages

private theorem State.decoded_seqs (s : State) (xs : List Nat) (y : Nat) :
    (s.decoded xs).seqs y =
      if y ∈ xs then { s.seqs y with numScheduledTokens := 0, isPrefill := false }
      else s.seqs y := rfl

private theorem Staged.decoded (h : Staged cfg [] [] v) (hrun : ∀ x ∈ batch, x ∈ v.running)
    (hnd : (v.running ++ v.waiting).Nodup) (ids : List Nat) :
    Staged cfg [] [] ((v.wipe ids).decoded batch) where
  running := by
    intro y hy
    rw [State.decoded_seqs]
    have hold := h.running y hy
    have hzero : ((v.wipe ids).seqs y).numScheduledTokens = 0 :=
      h.idle y (List.mem_append_left _ hy) (by simp)
    split
    · have hcached := hold.rest hzero
      have hpages := hold.pages
      refine ⟨hold.status, hold.draft_le, ?_, hold.cached_lt, fun _ => hcached, by simp⟩
      rw [show (v.seqs y).numScheduledTokens = 0 from hzero] at hpages
      exact hpages
    · exact hold
  waiting := by
    intro y hy
    have hout : y ∉ batch := fun hin =>
      (List.nodup_append.mp hnd).2.2 y (hrun y hin) y hy rfl
    change WaitingRow cfg (((v.wipe ids).decoded batch).seqs y)
    rw [State.decoded_seqs, if_neg hout]
    exact h.waiting y hy
  room := h.room
  busy := by simp
  idle := by
    intro y hy _
    rw [State.decoded_seqs]
    split
    · rfl
    · exact h.idle y hy (by simp)
  distinct := List.nodup_nil

private theorem Staged.withControl {held : List Nat} (h : Staged cfg held batch v) {c : Control}
    (hrun : c.running = v.running) (hwait : c.waiting = v.waiting) :
    Staged cfg held batch (v.withControl c) where
  running := by
    change ∀ x ∈ held ++ c.running, _
    rw [hrun]
    exact h.running
  waiting := by
    change ∀ x ∈ c.waiting, _
    rw [hwait]
    exact h.waiting
  room := by
    change held.length + c.running.length + c.waiting.length ≤ _
    rw [hrun, hwait]
    exact h.room
  busy := by
    change ∀ x ∈ batch, x ∈ held ++ c.running ++ c.waiting ∧ _
    rw [hrun, hwait]
    exact h.busy
  idle := by
    change ∀ x ∈ held ++ c.running ++ c.waiting, _
    rw [hrun, hwait]
    exact h.idle
  distinct := h.distinct

theorem State.Settled.decoded (h : v.Settled cfg) (hbatch : ∀ x ∈ batch, x ∈ v.running)
    (hcalm : t.Calm) (hrun : t.running = v.running) (hwait : t.waiting = v.waiting)
    (hmid : t.midChunkSeq = v.midChunkSeq) (hnext : t.nextSeqId = v.nextSeqId)
    (ids : List Nat) :
    (((v.wipe ids).decoded batch).withControl t.control).Settled cfg := by
  have hnd := h.1.2.own.live_nodup
  refine ⟨⟨hcalm.of_control rfl, ?_⟩, ?_⟩
  · have hwiped := Core.wipe h.1.2 ids
    have hrow : ∀ y, (((v.wipe ids).decoded batch).seqs y).SameRow ((v.wipe ids).seqs y) := by
      intro y
      rw [State.decoded_seqs]
      split
      · rename_i hy
        exact ⟨rfl, rfl, (h.2.idle y (by simp [hbatch y hy]) (by simp)).symm, rfl⟩
      · exact .refl _
    exact (hwiped.recast hrow rfl rfl rfl rfl rfl rfl rfl rfl).withControl hrun hwait hmid
      hnext
  · exact (h.2.decoded hbatch hnd ids).withControl hrun hwait

end NanoVllm
