/- module: NanoVllm/Layers/EmbedHead
   layer: source
   source: nanovllm/layers/embed_head.py
   digest: The vocabulary-parallel embedding and the output head. -/

import NanoVllm.Layers.Linear

set_option autoImplicit false
set_option relaxedAutoImplicit false

open NanoVllm.Library

namespace NanoVllm

/-- `VocabParallelEmbedding` on one rank. -/
structure VocabParallelEmbedding (F : Type) where
  tpRank : Nat
  tpSize : Nat
  numEmbeddings : Nat
  numEmbeddingsPerPartition : Nat
  vocabStartIdx : Nat
  vocabEndIdx : Nat
  weight : Storage F

namespace VocabParallelEmbedding

variable {F : Type}

def init (numEmbeddings embeddingDim tpRank tpSize : Nat) :
    Except Raised (VocabParallelEmbedding F) :=
  if numEmbeddings % tpSize = 0 then
    let perPartition := numEmbeddings / tpSize
    let start := perPartition * tpRank
    .ok
      { tpRank := tpRank
        tpSize := tpSize
        numEmbeddings := numEmbeddings
        numEmbeddingsPerPartition := perPartition
        vocabStartIdx := start
        vocabEndIdx := start + perPartition
        weight := .empty [perPartition, embeddingDim] }
  else .error .assertionError

def weightLoader (layer : VocabParallelEmbedding F) (param : Storage F)
    (loadedWeight : Tensor F) : Except Raised (Storage F) :=
  LinearBase.loadNarrowed 0 layer.tpRank layer.tpSize param loadedWeight

/-- `F.embedding(x, weight)` on a vector of ids. -/
def lookup (ids : List Int) (weight : Tensor F) : Except Raised (Tensor F) :=
  match weight.shape with
  | [n, k] =>
    if ∀ id ∈ ids, 0 ≤ id ∧ id < n then
      .ok
        { shape := [ids.length, k]
          entry := fun idx =>
            weight.entry ((ids.getD (coordinate 0 idx) 0).toNat :: idx.drop 1) }
    else .error .indexError
  | _ => .error (.runtimeError "'weight' must be 2-D")

/-- `(x >= vocab_start_idx) & (x < vocab_end_idx)`. -/
def mask (layer : VocabParallelEmbedding F) (id : Int) : Bool :=
  (layer.vocabStartIdx : Int) ≤ id ∧ id < layer.vocabEndIdx

/-- `forward` up to the reduction over ranks. -/
def partialOutput [Semiring F] (leftover : List Nat → F) (layer : VocabParallelEmbedding F)
    (x : List Int) : Except Raised (Tensor F) :=
  if layer.tpSize > 1 then do
    let local_ := x.map fun id => (layer.mask id).toInt * (id - layer.vocabStartIdx)
    let y ← lookup local_ (layer.weight.value leftover)
    pure
      { y with
        entry := fun idx =>
          (layer.mask (x.getD (coordinate 0 idx) 0)).toNat * y.entry idx }
  else lookup x (layer.weight.value leftover)

end VocabParallelEmbedding

def reduced {F : Type} [Semiring F] (tpSize : Nat) (partials : List (Tensor F)) :
    List (Tensor F) :=
  if tpSize > 1 then
    match allReduce partials with
    | some y => partials.map fun _ => y
    | none => partials
  else partials

namespace ParallelLMHead

variable {F : Type}

def init (numEmbeddings embeddingDim : Nat) (bias : Bool) (tpRank tpSize : Nat) :
    Except Raised (VocabParallelEmbedding F) :=
  if bias then .error .assertionError
  else VocabParallelEmbedding.init numEmbeddings embeddingDim tpRank tpSize

/-- `x[indices]`; negative indices count from the end. -/
def indexRows (x : Tensor F) (indices : List Int) : Except Raised (Tensor F) :=
  let n : Int := x.shape.headD 0
  if ∀ i ∈ indices, -n ≤ i ∧ i < n then
    .ok
      { shape := indices.length :: x.shape.drop 1
        entry := fun idx =>
          let i := indices.getD (coordinate 0 idx) 0
          x.entry ((if i < 0 then i + n else i).toNat :: idx.drop 1) }
  else .error .indexError

def selected (numericalMode : String) (context : ModelContext) (allPositions : Bool)
    (x : Tensor F) : Except Raised (Tensor F) :=
  if context.isPrefill ∧ ¬ allPositions then
    let lastIndices :=
      if numericalMode = "invariant" then
        match context.emissionQueryIndices with
        | some indices => indices
        | none => (context.cuSeqlensQ.drop 1).map fun stop : Nat => (stop : Int) - 1
      else (context.cuSeqlensQ.drop 1).map fun stop : Nat => (stop : Int) - 1
    indexRows x lastIndices
  else .ok x

/-- `forward` up to the gather on rank zero. -/
def localLogits [Semiring F] (numericalMode : String) (context : ModelContext)
    (allPositions : Bool) (leftover : List Nat → F) (layer : VocabParallelEmbedding F)
    (x : Tensor F) : Except Raised (Tensor F) := do
  let x ← selected numericalMode context allPositions x
  if numericalMode = "invariant" then invariantLinear x (layer.weight.value leftover) none
  else linear x (layer.weight.value leftover) none

/-- What each rank returns: rank zero the logits of all ranks in rank order, the others
nothing. -/
def gathered (tpSize : Nat) (logits : List (Tensor F)) :
    Except Raised (List (Option (Tensor F))) :=
  if tpSize > 1 then do
    let dim := (logits.head?.map fun t => t.shape.length - 1).getD 0
    let all ← torchCat dim logits
    pure (some all :: (logits.drop 1).map fun _ => none)
  else .ok (logits.map some)

end ParallelLMHead

end NanoVllm
