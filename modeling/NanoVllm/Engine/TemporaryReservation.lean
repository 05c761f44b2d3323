/- module: NanoVllm/Engine/TemporaryReservation
   layer: source
   source: nanovllm/engine/block_manager.py, the temporary lease and BlockManager.deallocate
   digest: One snapshot lease for cycle-local blocks: reserve, validate, roll back, finalize. -/

import Mathlib.Data.Finset.Range
import NanoVllm.Engine.BlockManager

set_option autoImplicit false
set_option relaxedAutoImplicit false

namespace NanoVllm

namespace State

def restoreRow (s : State) (row : TemporaryReservationRow) : State :=
  s.setSeq row.sequence { s.seqs row.sequence with
    blockTable := row.blockTableBefore
    numCachedTokens := row.numCachedTokensBefore
    numDraftCachedTokens := row.numDraftCachedTokensBefore }

def restoreRows (s : State) (rows : List TemporaryReservationRow) : State :=
  rows.foldl restoreRow s

def restoreSnapshot (s : State) (rows : List TemporaryReservationRow) (free : List Nat)
    (used : Finset Nat) (hashes : HashIndex) (states : List (Nat × Block)) : State :=
  { (s.restoreRows rows).restoreBlocks states with
    freeBlockIds := free
    usedBlockIds := used
    hashToBlockId := hashes }

def restoreLease (s : State) (r : TemporaryBlockReservation) : State :=
  { s.restoreSnapshot r.rows r.freeBlockIdsBefore r.usedBlockIdsBefore r.hashToBlockIdBefore
      r.blockStatesBefore with activeReservation := none }

end State

def snapshotRow (s : State) (x : Nat) : TemporaryReservationRow where
  sequence := x
  blockTableBefore := (s.seqs x).blockTable
  appendedBlockIds := []
  numCachedTokensBefore := (s.seqs x).numCachedTokens
  numDraftCachedTokensBefore := (s.seqs x).numDraftCachedTokens

def lookupState (states : List (Nat × Block)) (b : Nat) : Option Block :=
  (states.find? fun e => e.1 = b).map Prod.snd

namespace TemporaryBlockReservation

/-- `expected_hashes`: the snapshot index without the entries of the leased blocks. -/
def expectedHashes (r : TemporaryBlockReservation) : HashIndex :=
  r.allocationOrder.foldl (fun m b =>
    match (lookupState r.blockStatesBefore b).bind Block.hash with
    | none => m
    | some h => if m.lookup h = some b then m.erase h else m) r.hashToBlockIdBefore

def flattenedAppends (r : TemporaryBlockReservation) : List Nat :=
  r.rows.flatMap TemporaryReservationRow.appendedBlockIds

def stateIds (r : TemporaryBlockReservation) : List Nat :=
  sortedSet (r.allocationOrder ++ r.rows.flatMap TemporaryReservationRow.blockTableBefore)

end TemporaryBlockReservation

def validateLeaseMetadata (s : State) (r : TemporaryBlockReservation) (e : Nat × Block) :
    Except Raised Unit := do
  let block := s.blocks e.1
  if e.1 ∈ r.allocationOrder then
    if block.refCount ≠ 1 ∨ block.hash ≠ none ∨ block.tokenIds ≠ [] then
      throw (.runtimeError "temporary block metadata drifted")
  else
    if block.shown ≠ e.2.shown then
      throw (.runtimeError "non-temporary block metadata drifted during reservation")

def validateLeaseRow (s : State) (row : TemporaryReservationRow) : Except Raised Unit := do
  let seq := s.seqs row.sequence
  if seq.blockTable ≠ row.blockTableBefore ++ row.appendedBlockIds then
    let id := row.sequence
    throw (.runtimeError s!"sequence {id} temporary block table drifted")
  if seq.numCachedTokens ≠ row.numCachedTokensBefore then
    throw (.runtimeError "target cache coverage changed during reservation")
  if seq.numDraftCachedTokens ≠ row.numDraftCachedTokensBefore then
    throw (.runtimeError "draft cache coverage changed during reservation")

/-- `_validate_live_temporary_reservation`. -/
def validateLiveReservation (s : State) (r : TemporaryBlockReservation) : Except Raised Unit := do
  if s.activeReservation ≠ some r then
    throw (.runtimeError "temporary reservation publication drifted")
  if r.blockStatesBefore.map Prod.fst ≠ r.stateIds then
    throw (.runtimeError "temporary reservation block snapshot is invalid")
  if ¬ r.allocationOrder.Nodup then
    throw (.runtimeError "temporary reservation repeats an allocated block")
  if s.freeBlockIds ≠ r.freeBlockIdsBefore.drop r.allocationOrder.length then
    throw (.runtimeError "temporary reservation free-block snapshot drifted")
  if s.usedBlockIds ≠ r.usedBlockIdsBefore ∪ r.allocationOrder.toFinset then
    throw (.runtimeError "temporary reservation used-block snapshot drifted")
  if s.hashToBlockId ≠ r.expectedHashes then
    throw (.runtimeError "temporary reservation prefix-hash snapshot drifted")
  r.blockStatesBefore.forM (validateLeaseMetadata s r)
  if r.flattenedAppends ≠ r.allocationOrder then
    throw (.runtimeError "temporary reservation row ownership drifted")
  r.rows.forM (validateLeaseRow s)

section Reserve

variable (cfg : Config)

structure ReservationRowSpec where
  sequence : Nat
  newBlocks : Nat

/-- The validation loop of `reserve_temporary_append`. -/
def reservationRowSpecs (s : State) :
    List (Nat × Nat) → List Nat → Except Raised (List ReservationRowSpec)
  | [], _ => pure []
  | (x, highest) :: rest, seen => do
    if x ∈ seen then throw (.valueError "temporary reservation rows must be unique")
    let table := (s.seqs x).blockTable
    if table.any fun b => ¬ (b < cfg.numKvcacheBlocks ∧ b ∈ s.usedBlockIds
        ∧ 0 < (s.blocks b).refCount) then
      throw (.runtimeError s!"sequence {x} block table contains an unowned block")
    let requiredBlocks := max (highest / cfg.kvcacheBlockSize + 1) table.length
    let more ← reservationRowSpecs s rest (x :: seen)
    pure (⟨x, requiredBlocks - table.length⟩ :: more)

/-- The internal-allocation escape around one `_allocate_block`. -/
def allocateInternal : Call Nat := do
  modify fun s => { s with internalAllocation := true }
  let b ← tryCatch allocateBlock
    (fun e => do
      modify fun s => { s with internalAllocation := false }
      throw e)
  modify fun s => { s with internalAllocation := false }
  pure b

def leaseRow (x : Nat) : Nat → Call (List Nat)
  | 0 => pure []
  | n + 1 => do
    let b ← allocateInternal
    tick
    modify fun s => s.appendBlock x b
    let more ← leaseRow x n
    pure (b :: more)

def leaseRows (before : State) : List ReservationRowSpec → Call (List TemporaryReservationRow)
  | [] => pure []
  | spec :: rest => do
    let appended ← leaseRow spec.sequence spec.newBlocks
    let more ← leaseRows before rest
    pure ({ snapshotRow before spec.sequence with appendedBlockIds := appended } :: more)

def leaseCandidates (before : State) (specs : List ReservationRowSpec) (candidateIds : List Nat)
    (saved : List TemporaryReservationRow) (states : List (Nat × Block)) :
    Call (List TemporaryReservationRow) :=
  tryCatch
    (do
      let leased ← leaseRows before specs
      if leased.flatMap TemporaryReservationRow.appendedBlockIds ≠ candidateIds then
        throw (.runtimeError "temporary allocation order differs from free-list order")
      pure leased)
    (fun e => do
      modify fun s => s.restoreSnapshot saved before.freeBlockIds before.usedBlockIds
        before.hashToBlockId states
      throw e)

def publishLease (r : TemporaryBlockReservation) : Call Unit :=
  tryCatch
    (do
      tick
      modify fun s => { s with
        nextReservationId := s.nextReservationId + 1
        activeReservation := some r }
      tick
      let s ← get
      liftExcept (validateLiveReservation s r))
    (fun e => do
      modify fun s => s.restoreLease r
      throw e)

def reserveBody (rows : List (Nat × Nat)) : Call (Option TemporaryBlockReservation) := do
  tick
  let before ← get
  let specs ← liftExcept (reservationRowSpecs cfg before rows [])
  let total := (specs.map ReservationRowSpec.newBlocks).sum
  if before.freeBlockIds.length < total then
    pure none
  else if ¬ (before.freeBlockIds.Nodup
      ∧ before.freeBlockIds.toFinset ∩ before.usedBlockIds = ∅
      ∧ before.freeBlockIds.toFinset ∪ before.usedBlockIds = Finset.range cfg.numKvcacheBlocks)
  then throw (.runtimeError "allocator membership snapshot is invalid")
  else
    let candidateIds := before.freeBlockIds.take total
    let saved := specs.map fun spec => snapshotRow before spec.sequence
    let states := snapshotBlockStates before
      (candidateIds ++ saved.flatMap TemporaryReservationRow.blockTableBefore)
    if candidateIds.any fun b => (before.blocks b).refCount ≠ 0 then
      throw (.runtimeError "candidate free block has a nonzero reference count")
    else
      let leased ← leaseCandidates before specs candidateIds saved states
      -- no failure point between the undo region above and the one of `publishLease`
      let r : TemporaryBlockReservation :=
        { reservationId := before.nextReservationId
          generation := 0
          rows := leased
          allocationOrder := leased.flatMap TemporaryReservationRow.appendedBlockIds
          freeBlockIdsBefore := before.freeBlockIds
          usedBlockIdsBefore := before.usedBlockIds
          hashToBlockIdBefore := before.hashToBlockId
          blockStatesBefore := states }
      publishLease r
      pure (some r)

/-- The `finally` clause of `reserve_temporary_append`. -/
def State.endReservation (s : State) : State :=
  { s with internalAllocation := false, reservationInProgress := false }

def reserveTemporaryAppend (rows : List (Nat × Nat)) :
    Call (Option TemporaryBlockReservation) := do
  let s ← get
  if s.activeReservation.isSome || s.reservationInProgress then
    throw (.runtimeError "a temporary reservation is already active")
  else
    set { s with reservationInProgress := true }
    let result ← tryCatch (reserveBody cfg rows)
      (fun e => do
        modify State.endReservation
        throw e)
    modify State.endReservation
    pure result

end Reserve

def rollbackTemporaryAppend (r : TemporaryBlockReservation) : Call Bool := do
  let s ← get
  match s.activeReservation with
  | none => pure false
  | some active =>
    if active.reservationId ≠ r.reservationId then pure false
    else if active ≠ r then throw (.runtimeError "temporary reservation identity mismatch")
    else
      liftExcept (validateLiveReservation s r)
      set (s.restoreLease r)
      pure true

/-- The replacement record of `prepare_temporary_target_writes`: the leased blocks
lose their prefix metadata in the state a rollback returns to. -/
def writableRecord (r : TemporaryBlockReservation) : TemporaryBlockReservation :=
  { r with
    generation := r.generation + 1
    hashToBlockIdBefore := Library.restrict (· ∉ r.allocationOrder) r.hashToBlockIdBefore
    blockStatesBefore := r.blockStatesBefore.map fun e =>
      if e.1 ∈ r.allocationOrder then (e.1, { e.2 with hash := none, tokenIds := [], updates := 0 }) else e }

def prepareTemporaryTargetWrites (r : TemporaryBlockReservation) :
    Call TemporaryBlockReservation := do
  tick
  let s ← get
  liftExcept (validateLiveReservation s r)
  set { s with activeReservation := some (writableRecord r) }
  pure (writableRecord r)

def retainedCount (row : TemporaryReservationRow) (keep : List (Nat × Int)) :
    Except Raised Nat :=
  match keep.find? fun e => e.1 = row.sequence with
  | none => throw .keyError
  | some (_, count) =>
    if count < 0 ∨ (row.appendedBlockIds.length : Int) < count then
      let id := row.sequence
      throw (.valueError
        s!"sequence {id} retained-block count is outside its appended suffix")
    else pure count.toNat

/-- The desired rows: each lease row with the number of appended blocks it keeps. -/
def retainedRows (keep : List (Nat × Int)) :
    List TemporaryReservationRow → Except Raised (List (TemporaryReservationRow × Nat))
  | [] => pure []
  | row :: rest => do
    let count ← retainedCount row keep
    let more ← retainedRows keep rest
    pure ((row, count) :: more)

def retainRow (e : TemporaryReservationRow × Nat) : List Nat :=
  e.1.appendedBlockIds.take e.2

def releaseRow (e : TemporaryReservationRow × Nat) : List Nat :=
  e.1.appendedBlockIds.drop e.2

namespace State

def retainTables (s : State) (desired : List (TemporaryReservationRow × Nat)) : State :=
  desired.foldl (fun t e => t.setSeq e.1.sequence { t.seqs e.1.sequence with
    blockTable := e.1.blockTableBefore ++ retainRow e }) s

def retainMetadata (s : State) (r : TemporaryBlockReservation)
    (desired : List (TemporaryReservationRow × Nat)) : State :=
  s.restoreBlocks (r.blockStatesBefore.filter fun e => e.1 ∈ desired.flatMap releaseRow)

def retainMembership (s : State) (r : TemporaryBlockReservation)
    (desired : List (TemporaryReservationRow × Nat)) : State :=
  let kept := desired.flatMap retainRow
  { s with
    freeBlockIds := r.freeBlockIdsBefore.filter (· ∉ kept)
    usedBlockIds := r.usedBlockIdsBefore ∪ kept.toFinset
    hashToBlockId := Library.restrict (· ∉ kept) r.hashToBlockIdBefore }

/-- The mutations of `finalize_temporary_append` on tables, metadata and membership. -/
def retain (s : State) (r : TemporaryBlockReservation)
    (desired : List (TemporaryReservationRow × Nat)) : State :=
  ((s.retainTables desired).retainMetadata r desired).retainMembership r desired

end State

def validateRetained (s : State) (r : TemporaryBlockReservation)
    (desired : List (TemporaryReservationRow × Nat)) : Except Raised Unit := do
  let kept := desired.flatMap retainRow
  let released := desired.flatMap releaseRow
  if desired.any fun e => (s.seqs e.1.sequence).blockTable ≠ e.1.blockTableBefore ++ retainRow e then
    throw (.runtimeError "temporary reservation final block table drifted")
  if desired.any fun e =>
      (s.seqs e.1.sequence).numCachedTokens ≠ e.1.numCachedTokensBefore
      ∨ (s.seqs e.1.sequence).numDraftCachedTokens ≠ e.1.numDraftCachedTokensBefore then
    throw (.runtimeError "temporary reservation final cache coverage drifted")
  if kept.any fun b => (s.blocks b).shown ≠ Block.fresh.shown then
    throw (.runtimeError "retained temporary block metadata drifted")
  if r.blockStatesBefore.any fun e => e.1 ∈ released ∧ (s.blocks e.1).shown ≠ e.2.shown then
    throw (.runtimeError "released temporary block metadata was not restored")

def desiredRetention (r : TemporaryBlockReservation) (keep : List (Nat × Int)) :
    Except Raised (List (TemporaryReservationRow × Nat)) := do
  if keep.length ≠ r.rows.length then
    throw (.valueError "retained-block counts must name every reservation row")
  if ¬ (keep.map Prod.fst).Nodup then
    throw (.valueError "retained-block sequence IDs must be unique")
  if (keep.map Prod.fst).toFinset ≠ (r.rows.map TemporaryReservationRow.sequence).toFinset then
    throw (.valueError "retained-block counts must name every reservation row")
  let desired ← retainedRows keep r.rows
  let kept := desired.flatMap retainRow
  let released := desired.flatMap releaseRow
  if (kept.any fun b => b ∈ released) ∨
      (kept ++ released).toFinset ≠ r.allocationOrder.toFinset then
    throw (.runtimeError "temporary reservation retention partition is invalid")
  pure desired

/-- Apply the retention and release the record; a failure restores the live lease. -/
def applyRetention (live : State) (r : TemporaryBlockReservation)
    (desired : List (TemporaryReservationRow × Nat)) : Call Unit :=
  tryCatch
    (do
      tick
      modify fun s => s.retainTables desired
      tick
      modify fun s => s.retainMetadata r desired
      tick
      modify fun s => s.retainMembership r desired
      tick
      let s ← get
      liftExcept (validateRetained s r desired)
      tick
      modify fun t => { t with activeReservation := none }
      tick)
    (fun e => do
      modify fun t => { t.restoreSnapshot (r.rows.map fun row => snapshotRow live row.sequence)
          live.freeBlockIds live.usedBlockIds live.hashToBlockId
          (snapshotBlockStates live (r.blockStatesBefore.map Prod.fst)) with
        activeReservation := live.activeReservation }
      throw e)

def finalizeTemporaryAppend (r : TemporaryBlockReservation) (keep : List (Nat × Int)) :
    Call Bool := do
  let live ← get
  match live.activeReservation with
  | none => pure false
  | some active =>
    if active.reservationId ≠ r.reservationId then pure false
    else if active ≠ r then throw (.runtimeError "temporary reservation identity mismatch")
    else
      liftExcept (validateLiveReservation live r)
      let desired ← liftExcept (desiredRetention r keep)
      applyRetention live r desired
      pure true

/-- The loop of `deallocate`, over the reversed table. -/
def releaseBlocks : List Nat → Call Unit
  | [] => pure ()
  | b :: rest => do
    modify fun s => s.setBlock b { s.blocks b with refCount := (s.blocks b).refCount - 1 }
    let s ← get
    if (s.blocks b).refCount = 0 then deallocateBlock b
    releaseBlocks rest

/-- `deallocate`: a participating request first rolls the whole lease back. -/
def deallocate (x : Nat) : Call Unit := do
  let s ← get
  match s.activeReservation with
  | none => pure ()
  | some active =>
    if x ∉ active.rows.map TemporaryReservationRow.sequence then
      throw (.runtimeError
        "cannot deallocate an unrelated sequence while a temporary reservation is active")
    let _ ← rollbackTemporaryAppend active
  assertAllocatorMutationAllowed "deallocate a sequence" false
  let t ← get
  releaseBlocks (t.seqs x).blockTable.reverse
  modifySeq x fun row => { row with
    numCachedTokens := 0
    numDraftCachedTokens := 0
    blockTable := [] }

end NanoVllm
