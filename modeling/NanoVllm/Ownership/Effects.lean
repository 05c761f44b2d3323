/- module: NanoVllm/Ownership/Effects
   layer: refinement
   source: nanovllm/engine/block_manager.py
   digest: The state each allocator call leaves when no lease is open, as a function. -/

import NanoVllm.Ownership.Own
import NanoVllm.Engine.TemporaryReservation

set_option autoImplicit false
set_option relaxedAutoImplicit false

namespace NanoVllm

open Library

structure Control where
  nextSeqId : Nat
  activeReservation : Option TemporaryBlockReservation
  nextReservationId : Nat
  reservationInProgress : Bool
  internalAllocation : Bool
  waiting : List Nat
  running : List Nat
  midChunkSeq : Option Nat
  activeSpecTransaction : Option ActiveSpecTransaction
  activeDraftDiscard : Option (SpecStepPlan × TemporaryBlockReservation)
  pendingDraftCoveragePlan : Option SpecStepPlan
  pendingDraftCoverage : Option (List (Nat × Nat))
  nextCycleId : Nat
  history : List (QueueEvent Nat)
  fault : Option Nat

namespace State

def control (s : State) : Control where
  nextSeqId := s.nextSeqId
  activeReservation := s.activeReservation
  nextReservationId := s.nextReservationId
  reservationInProgress := s.reservationInProgress
  internalAllocation := s.internalAllocation
  waiting := s.waiting
  running := s.running
  midChunkSeq := s.midChunkSeq
  activeSpecTransaction := s.activeSpecTransaction
  activeDraftDiscard := s.activeDraftDiscard
  pendingDraftCoveragePlan := s.pendingDraftCoveragePlan
  pendingDraftCoverage := s.pendingDraftCoverage
  nextCycleId := s.nextCycleId
  history := s.history
  fault := s.fault

/-- No lease, no reservation under way and no armed failure point. -/
structure Quiet (s : State) : Prop where
  reservation : s.activeReservation = none
  progress : s.reservationInProgress = false
  internal : s.internalAllocation = false
  fault : s.fault = none

theorem Quiet.of_control {s t : State} (h : s.Quiet) (hc : t.control = s.control) : t.Quiet where
  reservation := (congrArg Control.activeReservation hc).trans h.reservation
  progress := (congrArg Control.reservationInProgress hc).trans h.progress
  internal := (congrArg Control.internalAllocation hc).trans h.internal
  fault := (congrArg Control.fault hc).trans h.fault

@[simp] theorem setSeq_control (s : State) (x : Nat) (seq : Sequence) :
    (s.setSeq x seq).control = s.control := rfl

@[simp] theorem setBlock_control (s : State) (b : Nat) (block : Block) :
    (s.setBlock b block).control = s.control := rfl

@[simp] theorem setSeq_seqs (s : State) (x : Nat) (seq : Sequence) :
    (s.setSeq x seq).seqs = Function.update s.seqs x seq := rfl

@[simp] theorem withRunning_running (s : State) (r : List Nat) : (s.withRunning r).running = r := rfl

@[simp] theorem withRunning_waiting (s : State) (r : List Nat) :
    (s.withRunning r).waiting = s.waiting := rfl

@[simp] theorem withRunning_mid (s : State) (r : List Nat) :
    (s.withRunning r).midChunkSeq = s.midChunkSeq := rfl

@[simp] theorem withRunning_seqs (s : State) (r : List Nat) : (s.withRunning r).seqs = s.seqs := rfl

@[simp] theorem withWaiting_waiting (s : State) (w : List Nat) : (s.withWaiting w).waiting = w := rfl

@[simp] theorem withWaiting_running (s : State) (w : List Nat) :
    (s.withWaiting w).running = s.running := rfl

@[simp] theorem withWaiting_mid (s : State) (w : List Nat) :
    (s.withWaiting w).midChunkSeq = s.midChunkSeq := rfl

@[simp] theorem withWaiting_seqs (s : State) (w : List Nat) : (s.withWaiting w).seqs = s.seqs := rfl

@[simp] theorem withMid_seqs (s : State) (m : Option Nat) : (s.withMid m).seqs = s.seqs := rfl

theorem setSeq_table (s : State) (x : Nat) (seq : Sequence) :
    (s.setSeq x seq).table = Function.update s.table x seq.blockTable := by
  funext y
  by_cases hyx : y = x
  · subst hyx
    simp [table]
  · simp [table, hyx]

def claim (s : State) (x : Nat) : State :=
  match s.freeBlockIds with
  | [] => s
  | b :: rest => ({ s with freeBlockIds := rest }.takeBlock b).appendBlock x b

def claimN (s : State) (x : Nat) : Nat → State
  | 0 => s
  | n + 1 => (s.claim x).claimN x n

@[simp] theorem claim_control (s : State) (x : Nat) : (s.claim x).control = s.control := by
  unfold claim
  split <;> rfl

@[simp] theorem claimN_control (s : State) (x n : Nat) : (s.claimN x n).control = s.control := by
  induction n generalizing s with
  | zero => rfl
  | succ n ih => rw [claimN, ih, claim_control]

theorem claim_free (s : State) (x : Nat) : (s.claim x).freeBlockIds = s.freeBlockIds.drop 1 := by
  unfold claim
  split <;> rename_i hfree
  · rw [hfree]
    rfl
  · rw [hfree]
    rfl

theorem claimN_free (s : State) (x n : Nat) :
    (s.claimN x n).freeBlockIds = s.freeBlockIds.drop n := by
  induction n generalizing s with
  | zero => rfl
  | succ n ih => rw [claimN, ih, claim_free, List.drop_drop, Nat.add_comm]

private theorem claim_seqs (s : State) (x : Nat) :
    (s.claim x).seqs = Function.update s.seqs x
      { s.seqs x with blockTable := s.table x ++ s.freeBlockIds.take 1 } := by
  unfold claim
  split <;> rename_i hfree
  · rw [hfree, List.take_nil, List.append_nil]
    exact (Function.update_eq_self x s.seqs).symm
  · rw [hfree]
    rfl

theorem claimN_seqs (s : State) (x n : Nat) :
    (s.claimN x n).seqs = Function.update s.seqs x
      { s.seqs x with blockTable := s.table x ++ s.freeBlockIds.take n } := by
  induction n generalizing s with
  | zero =>
    rw [List.take_zero, List.append_nil]
    exact (Function.update_eq_self x s.seqs).symm
  | succ n ih =>
    have htable : (s.claim x).table x = s.table x ++ s.freeBlockIds.take 1 := by
      rw [table, claim_seqs, Function.update_self]
    rw [claimN, ih, htable, claim_free, claim_seqs, Function.update_idem, Function.update_self,
      List.append_assoc]
    congr 2
    rw [Nat.add_comm, List.take_add]

theorem claimN_table (s : State) (x n : Nat) :
    (s.claimN x n).table = Function.update s.table x (s.table x ++ s.freeBlockIds.take n) := by
  funext y
  rw [table, claimN_seqs]
  by_cases hyx : y = x
  · subst hyx
    simp
  · simp [hyx, table]

/-- One turn of the pinning loop. A free block has count 0, so reviving it with
count 1 is the same increment. -/
def pin (s : State) (x b : Nat) : State :=
  { s with
    blocks := Function.update s.blocks b
      { s.blocks b with refCount := (s.blocks b).refCount + 1 }
    freeBlockIds := s.freeBlockIds.erase b
    usedBlockIds := insert b s.usedBlockIds }.appendBlock x b

def pinAll (s : State) (x : Nat) (ids : List Nat) : State := ids.foldl (fun t b => t.pin x b) s

@[simp] theorem pin_control (s : State) (x b : Nat) : (s.pin x b).control = s.control := rfl

@[simp] theorem pinAll_control (s : State) (x : Nat) (ids : List Nat) :
    (s.pinAll x ids).control = s.control := by
  induction ids generalizing s with
  | nil => rfl
  | cons b ids ih => exact ih (s.pin x b)

theorem pinAll_seqs (s : State) (x : Nat) (ids : List Nat) :
    (s.pinAll x ids).seqs = Function.update s.seqs x
      { s.seqs x with blockTable := s.table x ++ ids } := by
  induction ids generalizing s with
  | nil =>
    rw [List.append_nil]
    exact (Function.update_eq_self x s.seqs).symm
  | cons b ids ih =>
    have hseqs : (s.pin x b).seqs = Function.update s.seqs x
        { s.seqs x with blockTable := s.table x ++ [b] } := rfl
    have htable : (s.pin x b).table x = s.table x ++ [b] := by
      rw [table, hseqs, Function.update_self]
    change ((s.pin x b).pinAll x ids).seqs = _
    rw [ih, htable, hseqs, Function.update_idem, Function.update_self, List.append_assoc,
      List.singleton_append]

@[simp] theorem pinAll_index (s : State) (x : Nat) (ids : List Nat) :
    (s.pinAll x ids).hashToBlockId = s.hashToBlockId := by
  induction ids generalizing s with
  | nil => rfl
  | cons b ids ih => exact ih (s.pin x b)

/-- The state after `allocate_incremental` reused `ids` and took `n` new blocks. -/
def allotBlocks (s : State) (cfg : Config) (x : Nat) (ids : List Nat) (n : Nat) : State :=
  let t := (s.pinAll x ids).claimN x n
  t.setSeq x { t.seqs x with
    numCachedTokens := ids.length * cfg.kvcacheBlockSize
    numDraftCachedTokens := 0 }

@[simp] theorem allotBlocks_control (s : State) (cfg : Config) (x : Nat) (ids : List Nat) (n : Nat) :
    (s.allotBlocks cfg x ids n).control = s.control := by
  simp [allotBlocks]

theorem allotBlocks_seqs (s : State) (cfg : Config) (x : Nat) (ids : List Nat) (n : Nat) :
    (s.allotBlocks cfg x ids n).seqs = Function.update s.seqs x
      { s.seqs x with
        blockTable := s.table x ++ ids ++ (s.pinAll x ids).freeBlockIds.take n
        numCachedTokens := ids.length * cfg.kvcacheBlockSize
        numDraftCachedTokens := 0 } := by
  have htable : (s.pinAll x ids).table x = s.table x ++ ids := by
    rw [table, pinAll_seqs, Function.update_self]
  simp only [allotBlocks, setSeq_seqs, claimN_seqs, htable, pinAll_seqs, Function.update_idem,
    Function.update_self]

def releaseBlock (s : State) (b : Nat) : State :=
  let t := s.setBlock b { s.blocks b with refCount := (s.blocks b).refCount - 1 }
  if (t.blocks b).refCount = 0 then
    { t with
      usedBlockIds := t.usedBlockIds.erase b
      freeBlockIds := t.freeBlockIds ++ [b] }
  else t

def releaseAll (s : State) (ids : List Nat) : State := ids.foldl releaseBlock s

def release (s : State) (x : Nat) : State :=
  let t := s.releaseAll (s.table x).reverse
  t.setSeq x { t.seqs x with
    numCachedTokens := 0
    numDraftCachedTokens := 0
    blockTable := [] }

theorem releaseBlock_control (s : State) (b : Nat) : (s.releaseBlock b).control = s.control := by
  unfold releaseBlock
  simp only
  split <;> rfl

theorem releaseBlock_seqs (s : State) (b : Nat) : (s.releaseBlock b).seqs = s.seqs := by
  unfold releaseBlock
  simp only
  split <;> rfl

theorem releaseBlock_index (s : State) (b : Nat) :
    (s.releaseBlock b).hashToBlockId = s.hashToBlockId := by
  unfold releaseBlock
  simp only
  split <;> rfl

theorem releaseBlock_blocks (s : State) (b : Nat) :
    (s.releaseBlock b).blocks = Function.update s.blocks b
      { s.blocks b with refCount := (s.blocks b).refCount - 1 } := by
  unfold releaseBlock
  simp only
  split <;> rfl

theorem releaseBlock_free (s : State) (b : Nat) :
    (s.releaseBlock b).freeBlockIds =
      if (s.blocks b).refCount - 1 = 0 then s.freeBlockIds ++ [b] else s.freeBlockIds := by
  unfold releaseBlock
  simp only [setBlock, Function.update_self]
  split <;> rfl

theorem releaseBlock_used (s : State) (b : Nat) :
    (s.releaseBlock b).usedBlockIds =
      if (s.blocks b).refCount - 1 = 0 then s.usedBlockIds.erase b else s.usedBlockIds := by
  unfold releaseBlock
  simp only [setBlock, Function.update_self]
  split <;> rfl

@[simp] theorem releaseAll_control (s : State) (ids : List Nat) :
    (s.releaseAll ids).control = s.control := by
  induction ids generalizing s with
  | nil => rfl
  | cons b ids ih => exact (ih (s.releaseBlock b)).trans (releaseBlock_control s b)

@[simp] theorem releaseAll_seqs (s : State) (ids : List Nat) :
    (s.releaseAll ids).seqs = s.seqs := by
  induction ids generalizing s with
  | nil => rfl
  | cons b ids ih => exact (ih (s.releaseBlock b)).trans (releaseBlock_seqs s b)

@[simp] theorem releaseAll_index (s : State) (ids : List Nat) :
    (s.releaseAll ids).hashToBlockId = s.hashToBlockId := by
  induction ids generalizing s with
  | nil => rfl
  | cons b ids ih => exact (ih (s.releaseBlock b)).trans (releaseBlock_index s b)

@[simp] theorem release_control (s : State) (x : Nat) : (s.release x).control = s.control := by
  simp [release]

theorem release_seqs (s : State) (x : Nat) :
    (s.release x).seqs = Function.update s.seqs x
      { s.seqs x with
        numCachedTokens := 0
        numDraftCachedTokens := 0
        blockTable := [] } := by
  simp [release]

@[simp] theorem release_index (s : State) (x : Nat) :
    (s.release x).hashToBlockId = s.hashToBlockId := by
  simp [release, setSeq]

end State

theorem assertAllocatorMutationAllowed_quiet {s : State} (hq : s.Quiet) (operation : String)
    (allow : Bool) : assertAllocatorMutationAllowed operation allow s = .ok ⟨⟩ s := by
  simp [assertAllocatorMutationAllowed, hq.reservation, hq.progress]

theorem tick_quiet {s : State} (hf : s.fault = none) : tick s = .ok ⟨⟩ s := by
  simp [tick, hf]

end NanoVllm
