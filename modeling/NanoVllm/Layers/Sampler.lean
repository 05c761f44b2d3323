/- module: NanoVllm/Layers/Sampler
   layer: source
   source: nanovllm/layers/sampler.py, nanovllm/engine/model_runner.py _prepare_sample_metadata,
     _expand_top_ps and prepare_sample
   digest: Filters, exact probability rows and modified rejection over exact arithmetic. -/

import Mathlib.Algebra.Order.Ring.WithTop
import NanoVllm.Engine.SpeculativeMemory
import NanoVllm.Library.Nucleus

set_option autoImplicit false
set_option relaxedAutoImplicit false

open NanoVllm.Library

namespace NanoVllm

/-- A row of logits; `⊥` is a masked entry, negative infinity. -/
abbrev LogitRow (V : Nat) (F : Type) := Fin V → WithBot F

section Tensors

variable {α : Type}

def indexSelect (t : List α) (rows : List Nat) : Except Raised (List α) :=
  rows.mapM fun row =>
    match t[row]? with
    | some value => .ok value
    | none => .error .indexError

/-- `tensor.index_copy_(0, rows, values)`. -/
def indexCopy (t : List α) (rows : List Nat) (values : List α) : List α :=
  (rows.zip values).foldl (fun t copied => t.set copied.1 copied.2) t

/-- `row.argmax()`: the first of the largest entries. -/
def argmax {V : Nat} [NeZero V] [LinearOrder α] (row : Fin V → α) : Fin V :=
  (List.finRange V).foldl (fun best i => if row best < row i then i else best) 0

end Tensors

section Filters

variable {V : Nat} {F : Type} [Field F] [LinearOrder F] [IsStrictOrderedRing F]

/-- `torch.sort(row, descending=False)`: some permutation that brings a row in ascending order. -/
structure AscendingSort (V : Nat) (F : Type) [LinearOrder F] where
  order : LogitRow V F → Equiv.Perm (Fin V)
  ascending : ∀ row, Monotone (row ∘ order row)

/-- `clamp_min(1e-10)` and the division of a row by it. -/
def scaleRow (temperature : F) (row : LogitRow V F) : LogitRow V F :=
  fun i => (row i).map (· / max temperature (1 / 10 ^ 10))

def clampMin (value : F) : F := max value (1 / 10 ^ 10)

def topKValues (row : LogitRow V F) (topK : Nat) : List (WithBot F) :=
  (descendingList (List.ofFn row)).take topK

def filterTopKRow (topK : Nat) (row : LogitRow V F) : LogitRow V F :=
  let threshold := (topKValues row topK).min?.getD ⊥
  fun i => if row i < threshold then ⊥ else row i

def filterTopK (logits : List (LogitRow V F)) (rowIndices : Option (List Nat)) (topK : Nat) :
    Except Raised (List (LogitRow V F)) :=
  if topK < 1 ∨ V < topK then .error (.runtimeError "selected index k out of range")
  else
    match rowIndices with
    | none => .ok (logits.map (filterTopKRow topK))
    | some rows => do
      let active ← indexSelect logits rows
      pure (indexCopy logits rows (active.map (filterTopKRow topK)))

variable (sort : AscendingSort V F) (softmax : LogitRow V F → Fin V → F)

/-- One row of a chunk of `filter_top_p`; the removals are scattered back through the sort. -/
def filterTopPRow (temperature cutoff : F) (row : LogitRow V F) : LogitRow V F :=
  let scaled := scaleRow temperature row
  let sortedIndices := sort.order scaled
  let probabilities := softmax (scaled ∘ sortedIndices)
  let remove : Fin V → Bool := fun j =>
    ∑ i ∈ Finset.Iic j, probabilities i ≤ cutoff ∧ ¬ j.val + 1 = V
  fun i => if remove (sortedIndices.symm i) then ⊥ else row i

/-- `active_logits[start:end]` after one pass of the loop. -/
def filterTopPChunk (temperatures cutoffs : List F) (active : List (LogitRow V F)) (start : Nat) :
    List (LogitRow V F) :=
  let stop := min (start + topPChunkSize) active.length
  let chunk := (active.take stop).drop start
  let filtered := List.zipWith (fun row (own : F × F) => filterTopPRow sort softmax own.1 own.2 row)
    chunk (((temperatures.zip cutoffs).take stop).drop start)
  active.take start ++ filtered ++ active.drop stop

/-- The loop `for start in range(0, active_logits.size(0), TOP_P_CHUNK_SIZE)`. -/
def filterTopPChunks (temperatures cutoffs : List F) (active : List (LogitRow V F)) :
    List (LogitRow V F) :=
  (List.range ((active.length + topPChunkSize - 1) / topPChunkSize)).foldl
    (fun rows i => filterTopPChunk sort softmax temperatures cutoffs rows (i * topPChunkSize))
    active

/-- `filter_top_p`; cutoffs of another count than the active rows do not broadcast here. -/
def filterTopP (logits : List (LogitRow V F)) (temperatures : List F)
    (rowIndices : Option (List Nat)) (cutoffs : List F) :
    Except Raised (List (LogitRow V F)) := do
  let active ← match rowIndices with
    | none => pure logits
    | some rows => indexSelect logits rows
  let activeTemperatures ← match rowIndices with
    | none => pure temperatures
    | some rows => indexSelect temperatures rows
  if activeTemperatures.length ≠ active.length ∨ cutoffs.length ≠ active.length then
    throw (.runtimeError "size of tensor a must match the size of tensor b")
  let filtered := filterTopPChunks sort softmax activeTemperatures cutoffs active
  match rowIndices with
  | none => pure filtered
  | some rows => pure (indexCopy logits rows filtered)

end Filters

section Metadata

variable {F : Type}

/-- The sampling fields of `SamplingParams` a sequence carries. -/
structure RowSampling (F : Type) where
  temperature : F
  topK : Int
  topP : F
  deriving DecidableEq

/-- `rows_by_top_k.setdefault(effective_top_k, []).append(row)`. -/
def setdefaultAppend (rowsByTopK : List (Int × List Nat)) (topK : Int) (row : Nat) :
    List (Int × List Nat) :=
  match rowsByTopK with
  | [] => [(topK, [row])]
  | entry :: rest =>
    if entry.1 = topK then (topK, entry.2 ++ [row]) :: rest
    else entry :: setdefaultAppend rest topK row

/-- What `_prepare_sample_metadata` returns. -/
structure SampleMetadata (F : Type) where
  temperatures : List F
  topKBuckets : List (Int × Option (List Nat))
  topPPlan : Option (Option (List Nat) × List F)
  allGreedy : Bool

variable [Field F] [LinearOrder F]

/-- The bucket of a row, when it is sampled with a top-k below the vocabulary. -/
def effectiveTopK (vocabSize : Nat) (own : RowSampling F) : Option Int :=
  if own.temperature = 0 ∨ own.topK = -1 then none
  else
    let effective := min own.topK vocabSize
    if effective = vocabSize then none else some effective

def rowsByTopK (vocabSize : Nat) (params : List (RowSampling F)) : List (Int × List Nat) :=
  params.zipIdx.foldl
    (fun rows entry =>
      match effectiveTopK vocabSize entry.1 with
      | none => rows
      | some topK => setdefaultAppend rows topK entry.2)
    []

/-- A row list that covers the batch is written as `None`. -/
def rowsOrNone (batch : Nat) (rows : List Nat) : Option (List Nat) :=
  if rows.length = batch then none else some rows

def prepareSampleMetadata (vocabSize : Nat) (params : List (RowSampling F)) :
    SampleMetadata F :=
  let temperatures := params.map RowSampling.temperature
  if ∀ temperature ∈ temperatures, temperature = 0 then
    { temperatures := temperatures, topKBuckets := [], topPPlan := none, allGreedy := true }
  else
    let rows := rowsByTopK vocabSize params
    let keys := (rows.map Prod.fst).mergeSort
    let buckets := keys.map fun topK =>
      (topK, rowsOrNone params.length ((rows.find? fun entry => entry.1 = topK).elim [] Prod.snd))
    let topPRows := (params.zipIdx.filter fun entry =>
      entry.1.temperature ≠ 0 ∧ entry.1.topP ≠ 1).map Prod.snd
    let topPs := (params.filter fun own => own.temperature ≠ 0 ∧ own.topP ≠ 1).map
      RowSampling.topP
    { temperatures := temperatures
      topKBuckets := buckets
      topPPlan :=
        if topPRows.isEmpty then none else some (rowsOrNone params.length topPRows, topPs)
      allGreedy := false }

def expandTopPs (batchSize : Nat) (plan : Option (List Nat) × List F) :
    Except Raised (List F) :=
  match plan with
  | (none, active) =>
    if active.length ≠ batchSize then
      .error (.valueError "homogeneous top-p metadata must cover the batch")
    else .ok active
  | (some rows, active) =>
    if rows.length ≠ active.length then
      .error (.valueError "top-p rows and values must have the same length")
    else
      (rows.zip active).foldlM
        (fun topPs entry =>
          if entry.1 < topPs.length then .ok (topPs.set entry.1 entry.2) else .error .indexError)
        (List.replicate batchSize 1)

variable {V : Nat} [IsStrictOrderedRing F]

/-- The filters `run` applies to the logits of a batch: the buckets in turn, then the plan with
the cutoffs of `prepare_sample`. -/
def applyFilters (sort : AscendingSort V F) (softmax : LogitRow V F → Fin V → F)
    (metadata : SampleMetadata F) (logits : List (LogitRow V F)) :
    Except Raised (List (LogitRow V F)) := do
  if metadata.allGreedy then
    pure logits
  else
    let logits ← metadata.topKBuckets.foldlM
      (fun logits bucket => filterTopK logits bucket.2 bucket.1.toNat) logits
    match metadata.topPPlan with
    | none => pure logits
    | some (rowIndices, topPs) =>
      filterTopP sort softmax logits metadata.temperatures rowIndices
        (topPs.map fun topP => 1 - topP)

end Metadata

end NanoVllm
