/- module: NanoVllm/Engine/BlockManager
   layer: source
   source: nanovllm/engine/block_manager.py, allocation, extension, release, append and hashing
   digest: Paged block ownership, prefix sharing by chained digest and group append rollback. -/

import Mathlib.Data.List.Sort
import NanoVllm.Engine.State

set_option autoImplicit false
set_option relaxedAutoImplicit false

namespace NanoVllm

def liftExcept {α : Type} : Except Raised α → Call α
  | .ok a => pure a
  | .error e => throw e

theorem liftExcept_ok {α : Type} (a : α) (s : State) :
    (liftExcept (.ok a) : Call α) s = .ok a s := rfl

theorem liftExcept_error {α : Type} (e : Raised) (s : State) :
    (liftExcept (.error e) : Call α) s = .error e s := rfl

def assertAllocatorMutationAllowed (operation : String) (allowInternalAllocation : Bool) :
    Call Unit := do
  let s ← get
  let internal := allowInternalAllocation && s.reservationInProgress && s.internalAllocation
    && s.activeReservation.isNone
  if (s.activeReservation.isSome || s.reservationInProgress) && !internal then
    throw (.runtimeError s!"cannot {operation} while a temporary reservation is active")

namespace State

/-- The hash index after the entry of a recycled block is dropped, if it is the
block's own. -/
def evictHash (s : State) (b : Nat) : HashIndex :=
  match (s.blocks b).hash with
  | none => s.hashToBlockId
  | some h =>
    if s.hashToBlockId.lookup h = some b then s.hashToBlockId.erase h else s.hashToBlockId

/-- The body of `_allocate_block` once its block has left the free list. -/
def takeBlock (s : State) (b : Nat) : State :=
  { s with
    hashToBlockId := s.evictHash b
    blocks := Function.update s.blocks b Block.fresh
    usedBlockIds := insert b s.usedBlockIds }

def appendBlock (s : State) (x b : Nat) : State :=
  s.setSeq x { s.seqs x with blockTable := (s.seqs x).blockTable ++ [b] }

end State

def allocateBlock : Call Nat := do
  assertAllocatorMutationAllowed "allocate a block" true
  tick
  let s ← get
  match s.freeBlockIds with
  | [] => throw .indexError
  | b :: rest =>
    set { s with freeBlockIds := rest }
    if (s.blocks b).refCount ≠ 0 then throw .assertionError
    modify fun t => t.takeBlock b
    pure b

def deallocateBlock (b : Nat) : Call Unit := do
  assertAllocatorMutationAllowed "deallocate a block" false
  tick
  let s ← get
  if (s.blocks b).refCount ≠ 0 then throw .assertionError
  if b ∉ s.usedBlockIds then throw .keyError
  set { s with
    usedBlockIds := s.usedBlockIds.erase b
    freeBlockIds := s.freeBlockIds ++ [b] }

/-- `for _ in range(n): seq.block_table.append(self._allocate_block())`. -/
def allocateBlocks (x : Nat) : Nat → Call Unit
  | 0 => pure ()
  | n + 1 => do
    let b ← allocateBlock
    modify fun s => s.appendBlock x b
    allocateBlocks x n

def sortedSet (ids : List Nat) : List Nat := ids.dedup.insertionSort (· ≤ ·)

def snapshotBlockStates (s : State) (ids : List Nat) : List (Nat × Block) :=
  (sortedSet ids).map fun b => (b, s.blocks b)

def State.restoreBlocks (s : State) (states : List (Nat × Block)) : State :=
  states.foldl (fun t e => t.setBlock e.1 e.2) s

/-- The except clause shared by `allocate_incremental` and `extend`. -/
def State.restoreAllocation (s : State) (x : Nat) (before : State) (states : List (Nat × Block)) :
    State :=
  let row := { s.seqs x with
    blockTable := (before.seqs x).blockTable
    numCachedTokens := (before.seqs x).numCachedTokens
    numDraftCachedTokens := (before.seqs x).numDraftCachedTokens }
  { (s.setSeq x row).restoreBlocks states with
    freeBlockIds := before.freeBlockIds
    usedBlockIds := before.usedBlockIds
    hashToBlockId := before.hashToBlockId }

section Allocation

variable (cfg : Config)

/-- The loop of `can_allocate`, over the remaining block indices: cached blocks
found so far and new blocks still needed. -/
def matchCachedBlocks (s : State) (seq : Sequence) :
    List Nat → Option Nat → Nat → Nat → Nat × Nat
  | [], _, cached, needed => (cached, needed)
  | i :: rest, parent, cached, needed =>
    let tokenIds := seq.block cfg i
    let h := cfg.computeHash tokenIds parent
    match s.hashToBlockId.lookup h with
    | none => (cached, needed)
    | some b =>
      if (s.blocks b).tokenIds ≠ tokenIds then (cached, needed)
      else matchCachedBlocks s seq rest (some h) (cached + 1)
        (if b ∈ s.usedBlockIds then needed - 1 else needed)

/-- `can_allocate`; `none` is the source's -1. -/
def canAllocate (s : State) (x : Nat) : Option Nat :=
  let seq := s.seqs x
  let found := matchCachedBlocks cfg s seq (List.range (seq.numBlocks cfg - 1)) none 0
    (seq.numBlocks cfg)
  if s.freeBlockIds.length < found.2 then none else some found.1

/-- The reusable chain `allocate_incremental` looks up again. -/
def cachedChain (s : State) (seq : Sequence) :
    List Nat → Option Nat → Except Raised (List Nat)
  | [], _ => pure []
  | i :: rest, parent => do
    let tokenIds := seq.block cfg i
    let h := cfg.computeHash tokenIds parent
    match s.hashToBlockId.lookup h with
    | none => throw (.runtimeError "reusable prefix changed after admission")
    | some b =>
      if (s.blocks b).tokenIds ≠ tokenIds then
        throw (.runtimeError "reusable prefix changed after admission")
      let more ← cachedChain s seq rest (some h)
      pure (b :: more)

/-- Pin one reusable block: a live one gains an owner, a free one is revived. -/
def pinBlock (x b : Nat) : Call Unit := do
  let s ← get
  let block := s.blocks b
  if b ∈ s.usedBlockIds then
    set (s.setBlock b { block with refCount := block.refCount + 1 })
  else
    set (s.setBlock b { block with refCount := 1 })
    if b ∉ s.freeBlockIds then throw (.valueError "deque.remove(x): x not in deque")
    modify fun t => { t with
      freeBlockIds := t.freeBlockIds.erase b
      usedBlockIds := insert b t.usedBlockIds }
  modify fun t => t.appendBlock x b

def pinBlocks (x : Nat) : List Nat → Call Unit
  | [] => pure ()
  | b :: rest => do
    pinBlock x b
    pinBlocks x rest

/-- The prefix loop of `allocate`, over the remaining block indices. -/
def allocateCached (x : Nat) : List Nat → Option Nat → Call Unit
  | [], _ => pure ()
  | i :: rest, parent => do
    let s ← get
    let seq := s.seqs x
    if ¬ i < seq.numBlocks cfg then throw .assertionError
    let h := cfg.computeHash (seq.block cfg i) parent
    match s.hashToBlockId.lookup h with
    | none => throw .keyError
    | some b =>
      pinBlock x b
      allocateCached x rest (some h)

/-- `allocate`, the whole-request allocation that scheduling no longer calls. -/
def allocate (x numCachedBlocks : Nat) : Call Unit := do
  assertAllocatorMutationAllowed "allocate a sequence" false
  let s ← get
  if (s.seqs x).blockTable ≠ [] then throw .assertionError
  allocateCached cfg x (List.range numCachedBlocks) none
  allocateBlocks x ((s.seqs x).numBlocks cfg - numCachedBlocks)
  modifySeq x fun row => { row with
    numCachedTokens := numCachedBlocks * cfg.kvcacheBlockSize
    numDraftCachedTokens := 0 }

def allocateIncremental (x numCachedBlocks throughTokens : Nat) : Call Bool := do
  assertAllocatorMutationAllowed "allocate a sequence incrementally" false
  let before ← get
  let seq := before.seqs x
  if seq.blockTable ≠ [] then
    throw (.valueError "incremental allocation requires an empty block table")
  if ¬ numCachedBlocks < seq.numBlocks cfg then
    throw (.valueError "num_cached_blocks is outside the reusable prefix")
  if ¬ (1 ≤ throughTokens ∧ throughTokens ≤ seq.numTokens) then
    throw (.valueError "through_tokens must be within the sequence")
  let requiredBlocks := (throughTokens + cfg.kvcacheBlockSize - 1) / cfg.kvcacheBlockSize
  if requiredBlocks ≤ numCachedBlocks then
    throw (.valueError "scheduled coverage must extend beyond the cached prefix")
  let cachedIds ← liftExcept (cachedChain cfg before seq (List.range numCachedBlocks) none)
  let cachedFree := cachedIds.filter (· ∉ before.usedBlockIds)
  let newBlockCount := requiredBlocks - numCachedBlocks
  if before.freeBlockIds.length < newBlockCount + cachedFree.length then
    pure false
  else
    let candidateIds := (before.freeBlockIds.filter (· ∉ cachedFree)).take newBlockCount
    let blockStates := snapshotBlockStates before (cachedIds ++ candidateIds)
    tryCatch
      (do
        pinBlocks x cachedIds
        allocateBlocks x newBlockCount
        modifySeq x fun row => { row with
          numCachedTokens := numCachedBlocks * cfg.kvcacheBlockSize
          numDraftCachedTokens := 0 })
      (fun e => do
        modify fun s => s.restoreAllocation x before blockStates
        throw e)
    pure true

def extend (x throughTokens : Nat) : Call Bool := do
  assertAllocatorMutationAllowed "extend a sequence" false
  let before ← get
  let seq := before.seqs x
  if seq.blockTable = [] then throw (.valueError "cannot extend an unallocated sequence")
  if ¬ (1 ≤ throughTokens ∧ throughTokens ≤ seq.numTokens) then
    throw (.valueError "through_tokens must be within the sequence")
  let requiredBlocks := (throughTokens + cfg.kvcacheBlockSize - 1) / cfg.kvcacheBlockSize
  let currentBlocks := seq.blockTable.length
  if requiredBlocks ≤ currentBlocks then
    pure true
  else
    let newBlocks := requiredBlocks - currentBlocks
    if before.freeBlockIds.length < newBlocks then
      pure false
    else
      let blockStates := snapshotBlockStates before (before.freeBlockIds.take newBlocks)
      tryCatch (allocateBlocks x newBlocks)
        (fun e => do
          modify fun s => s.restoreAllocation x before blockStates
          throw e)
      pure true

/-- `can_append`: a new block is needed exactly when the length is one past a block. -/
def canAppend (s : State) (x : Nat) : Bool :=
  decide ((if (s.seqs x).numTokens % cfg.kvcacheBlockSize = 1 then 1 else 0)
    ≤ s.freeBlockIds.length)

def mayAppend (x : Nat) : Call Unit := do
  assertAllocatorMutationAllowed "append a sequence block" false
  let s ← get
  if (s.seqs x).numTokens % cfg.kvcacheBlockSize = 1 then
    let b ← allocateBlock
    modify fun t => t.appendBlock x b

/-- `block.update(h, token_ids)` followed by `hash_to_block_id[h] = block_id`. -/
def State.publish (s : State) (b h : Nat) (tokenIds : List Nat) : State :=
  { s with
    blocks := Function.update s.blocks b
      { s.blocks b with
        hash := some h
        tokenIds := tokenIds
        updates := (s.blocks b).updates + 1 }
    hashToBlockId := s.hashToBlockId.insert h b }

def hashBlocksLoop (x : Nat) : List Nat → Option Nat → Call Unit
  | [], _ => pure ()
  | i :: rest, parent => do
    tick
    let s ← get
    let seq := s.seqs x
    match seq.blockTable[i]? with
    | none => throw .indexError
    | some b =>
      if ¬ i < seq.numBlocks cfg then throw .assertionError
      let tokenIds := seq.block cfg i
      let h := cfg.computeHash tokenIds parent
      set (s.publish b h tokenIds)
      hashBlocksLoop x rest (some h)

def hashBlocks (x : Nat) : Call Unit := do
  assertAllocatorMutationAllowed "hash sequence blocks" false
  let s ← get
  let seq := s.seqs x
  let start := seq.numCachedTokens / cfg.kvcacheBlockSize
  let stop := (seq.numCachedTokens + seq.numScheduledTokens) / cfg.kvcacheBlockSize
  if start = stop then pure ()
  else if 0 < start then
    match seq.blockTable[start - 1]? with
    | none => throw .indexError
    | some b => hashBlocksLoop cfg x (List.range' start (stop - start)) (s.blocks b).hash
  else hashBlocksLoop cfg x (List.range' start (stop - start)) none

end Allocation

/-- One row of the validation loop of `rollback_uncommitted_appends`: the suffix
block to remove, or `none` when the table has its expected length. -/
def validateUncommittedRow (cfg : Config) (s : State) (x expected : Nat) (appended : List Nat) :
    Except Raised (Option Nat) := do
  let table := (s.seqs x).blockTable
  if table.length = expected then
    pure none
  else
    if table.length ≠ expected + 1 then
      throw (.runtimeError
        "uncommitted append rollback requires exactly one suffix block per changed row")
    let b := table.getLastD 0
    if ¬ b < cfg.numKvcacheBlocks then
      throw (.runtimeError "uncommitted suffix has an invalid block ID")
    if b ∈ table.dropLast ∨ b ∈ appended then
      throw (.runtimeError "uncommitted suffix aliases another block")
    if b ∉ s.usedBlockIds ∨ b ∈ s.freeBlockIds then
      throw (.runtimeError "uncommitted suffix is not exclusively allocated")
    if (s.blocks b).refCount ≠ 1 ∨ (s.blocks b).hash ≠ none ∨ (s.blocks b).tokenIds ≠ [] then
      throw (.runtimeError "uncommitted suffix is not a fresh, unshared block")
    pure (some b)

def validateUncommittedRows (cfg : Config) (s : State) :
    List (Nat × Nat) → List Nat → List Nat → Except Raised (List (Nat × Option Nat))
  | [], _, _ => pure []
  | (x, expected) :: rest, seen, appended => do
    if x ∈ seen then
      throw (.valueError "uncommitted append rollback rows must be unique")
    let found ← validateUncommittedRow cfg s x expected appended
    let more ← validateUncommittedRows cfg s rest (x :: seen) (found.toList ++ appended)
    pure ((x, found) :: more)

/-- Remove one validated suffix block: pop the table, clear the count, and put the
block back at the front of the free list. -/
def State.dropAppended (s : State) (x b : Nat) : State :=
  let row := s.seqs x
  { s.setSeq x { row with blockTable := row.blockTable.dropLast } with
    blocks := Function.update s.blocks b { s.blocks b with refCount := 0 }
    usedBlockIds := s.usedBlockIds.erase b
    freeBlockIds := b :: s.freeBlockIds }

def State.dropAllAppended (s : State) : List (Nat × Option Nat) → State
  | [] => s
  | (x, found) :: rest =>
    match found with
    | none => s.dropAllAppended rest
    | some b => (s.dropAllAppended rest).dropAppended x b

def rollbackUncommittedAppends (cfg : Config) (rows : List (Nat × Nat)) : Call Bool := do
  assertAllocatorMutationAllowed "rollback uncommitted appends" false
  let s ← get
  let validated ← liftExcept (validateUncommittedRows cfg s rows [] [])
  let appended := validated.filterMap Prod.snd
  -- The complete group is checked before any mutation.
  if validated.any fun e =>
      let table := (s.seqs e.1).blockTable
      (if e.2.isSome then table.dropLast else table).any (· ∈ appended) then
    throw (.runtimeError "uncommitted suffix aliases a participating row prefix")
  set (s.dropAllAppended validated)
  pure (!appended.isEmpty)

end NanoVllm
