/- module: NanoVllm/Engine/State
   layer: source
   source: the records of nanovllm/engine/block_manager.py and nanovllm/engine/scheduler.py
   digest: One flat record for the allocator, the scheduler and the request objects. -/

import Mathlib.Data.Finset.Basic
import NanoVllm.Library.Call
import NanoVllm.Library.FairQueue
import NanoVllm.Library.FiniteMap
import NanoVllm.Engine.SpeculativePlan

set_option autoImplicit false
set_option relaxedAutoImplicit false

namespace NanoVllm

/-- `none` is the source's hash -1. -/
structure Block where
  refCount : Nat
  hash : Option Nat
  tokenIds : List Nat
  /-- History: the calls of `update` since the last `reset`. -/
  updates : Nat
  deriving DecidableEq, Repr

def Block.fresh : Block := ⟨1, none, [], 0⟩

def Block.shown (block : Block) : Nat × Option Nat × List Nat :=
  (block.refCount, block.hash, block.tokenIds)

abbrev HashIndex := Finmap (fun _ : Nat => Nat)

structure TemporaryReservationRow where
  sequence : Nat
  blockTableBefore : List Nat
  appendedBlockIds : List Nat
  numCachedTokensBefore : Nat
  numDraftCachedTokensBefore : Nat
  deriving DecidableEq

/-- The lease record. `generation` tells the record `prepare_temporary_target_writes`
publishes from the one it replaces: together with `reservationId` it is the
object identity the source compares. -/
structure TemporaryBlockReservation where
  reservationId : Nat
  generation : Nat
  rows : List TemporaryReservationRow
  allocationOrder : List Nat
  freeBlockIdsBefore : List Nat
  usedBlockIdsBefore : Finset Nat
  hashToBlockIdBefore : HashIndex
  blockStatesBefore : List (Nat × Block)
  deriving DecidableEq

structure DecodeScheduleRollbackRow where
  sequence : Nat
  committedTokens : Nat
  targetCachedTokens : Nat
  draftCachedTokens : Nat
  expectedBlockCount : Nat
  deriving DecidableEq

structure ActiveSpecTransaction where
  plan : SpecStepPlan
  reservation : TemporaryBlockReservation
  baselineDecodeRollback : List DecodeScheduleRollbackRow
  targetWritesPrepared : Bool

/-- Request objects are reached by `seq_id`: the queues, the lease rows and the
batches hold identifiers, so that all of them see one mutable object. The index
`_temporary_reservation_by_seq_id` is the row list of the active lease. -/
structure State where
  seqs : Nat → Sequence
  nextSeqId : Nat
  blocks : Nat → Block
  hashToBlockId : HashIndex
  freeBlockIds : List Nat
  usedBlockIds : Finset Nat
  activeReservation : Option TemporaryBlockReservation
  nextReservationId : Nat
  reservationInProgress : Bool
  internalAllocation : Bool
  waiting : List Nat
  running : List Nat
  midChunkSeq : Option Nat
  activeSpecTransaction : Option ActiveSpecTransaction
  activeDraftDiscard : Option (SpecStepPlan × TemporaryBlockReservation)
  pendingDraftCoveragePlan : Option SpecStepPlan
  pendingDraftCoverage : Option (List (Nat × Nat))
  nextCycleId : Nat
  /-- History: admissions, scheduled rows, preemptions and cancellations, in order. -/
  history : List (Library.QueueEvent Nat)
  /-- History: calls left until the armed failure point raises. -/
  fault : Option Nat

abbrev Call := EStateM Raised State

def Sequence.blank : Sequence := Sequence.new [] 0 false

/-- `Scheduler.__init__` over `BlockManager.__init__`. -/
def State.init (cfg : Config) : State where
  seqs := fun _ => Sequence.blank
  nextSeqId := 0
  blocks := fun _ => ⟨0, none, [], 0⟩
  hashToBlockId := ∅
  freeBlockIds := List.range cfg.numKvcacheBlocks
  usedBlockIds := ∅
  activeReservation := none
  nextReservationId := 0
  reservationInProgress := false
  internalAllocation := false
  waiting := []
  running := []
  midChunkSeq := none
  activeSpecTransaction := none
  activeDraftDiscard := none
  pendingDraftCoveragePlan := none
  pendingDraftCoverage := none
  nextCycleId := 0
  history := []
  fault := none

namespace State

def setSeq (s : State) (x : Nat) (seq : Sequence) : State :=
  { s with seqs := Function.update s.seqs x seq }

def setBlock (s : State) (b : Nat) (block : Block) : State :=
  { s with blocks := Function.update s.blocks b block }

def withRunning (s : State) (running : List Nat) : State := { s with running := running }

def withWaiting (s : State) (waiting : List Nat) : State := { s with waiting := waiting }

def withMid (s : State) (mid : Option Nat) : State := { s with midChunkSeq := mid }

def record (s : State) (e : Library.QueueEvent Nat) : State := { s with history := s.history ++ [e] }

end State

def modifySeq (x : Nat) (f : Sequence → Sequence) : Call Unit :=
  modify fun s => s.setSeq x (f (s.seqs x))

/-- A point at which the source calls out and may see an exception. None stands between the two undo
regions of `reserve_temporary_append`, where only two built-in dicts are copied. -/
def tick : Call Unit := do
  let s ← get
  match s.fault with
  | none => pure ()
  | some 0 =>
    set { s with fault := none }
    throw .injected
  | some (n + 1) => set { s with fault := some n }

end NanoVllm
