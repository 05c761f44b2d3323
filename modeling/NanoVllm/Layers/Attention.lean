/- module: NanoVllm/Layers/Attention
   layer: source
   source: nanovllm/layers/attention.py, store_kvcache and the keys of _invariant_paged_attention
   digest: Which cache slots each query of prepared inputs reads and fills. -/

import NanoVllm.Engine.ModelInputs
import NanoVllm.Library.CausalCache

set_option autoImplicit false
set_option relaxedAutoImplicit false

namespace NanoVllm

open Library

/-- `block_tables[sequence_index]` flattened to slots: the slot that holds position `p`. -/
def ModelContext.keySlot (blockSize : Nat) (context : ModelContext) (sequenceIndex p : Nat) :
    Int :=
  let table := (context.blockTables.elim [] BlockTables.rows).getD sequenceIndex []
  table.getD (p / blockSize) (-1) * blockSize + (p % blockSize : Nat)

/-- The keys of one query: the slots of the first `context_length` positions of its row. -/
def ModelContext.keySlots (blockSize : Nat) (context : ModelContext) (sequenceIndex : Nat)
    (contextLength : Int) : List Int :=
  (List.range contextLength.toNat).map (context.keySlot blockSize sequenceIndex)

/-- Each token with its owner, its context length and its slot, in the order of the batch. -/
def ModelInputs.entries (inputs : ModelInputs) : List (((Nat × Nat) × Int) × Int) :=
  ((inputs.inputIds.zip inputs.context.querySequenceIds).zip
    inputs.context.queryContextLengths).zip inputs.context.slotMapping

/-- The queries that `store_kvcache` and the attention make. The key at the last position of the
context is the one the query stores itself. -/
def ModelInputs.queries (blockSize : Nat) (inputs : ModelInputs) : List (Query Int Nat) :=
  (inputs.entries.filter fun e => e.2 ≠ -1).map fun e =>
    { word := e.1.1.1
      reads := (inputs.context.keySlots blockSize e.1.1.2 e.1.2).dropLast
      slot := e.2 }

end NanoVllm
