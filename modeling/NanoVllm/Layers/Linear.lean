/- module: NanoVllm/Layers/Linear
   layer: source
   source: nanovllm/layers/linear.py, nanovllm/layers/invariant_ops.py invariant_linear,
     nanovllm/utils/loader.py require_exact_weight_shape and require_exact_global_weight_shape
   digest: Tensor-parallel linear layers: construction, weight loaders and forward passes. -/

import NanoVllm.Engine.ModelInputs
import NanoVllm.Library.Tensor

set_option autoImplicit false
set_option relaxedAutoImplicit false

open NanoVllm.Library

namespace NanoVllm

/-! A parameter's cells keep every value ever written to them, the latest last:
an empty cell still holds what `torch.empty` found in memory. -/

abbrev Storage (F : Type) := Tensor (List F)

section Views

variable {F : Type}

def Storage.empty (shape : List Nat) : Storage F where
  shape := shape
  entry _ := []

/-- What a read sees when `leftover` is the memory the parameter was allocated in. -/
def Storage.value (leftover : List Nat → F) (p : Storage F) : Tensor F where
  shape := p.shape
  entry idx := (p.entry idx).getLast?.getD (leftover idx)

structure View (F : Type) where
  base : Storage F
  shape : List Nat
  locate : List Nat → Option (List Nat)

def View.whole (p : Storage F) : View F where
  base := p
  shape := p.shape
  locate idx := if InRange p.shape idx then some idx else none

def narrowOutOfRange : Raised := .runtimeError "start + length exceeds dimension size"

def View.narrow (v : View F) (dim start length : Nat) : Except Raised (View F) :=
  if start + length ≤ v.shape.getD dim 0 then
    .ok
      { base := v.base
        shape := v.shape.set dim length
        locate := fun idx =>
          (v.locate idx).bind fun at_ =>
            if start ≤ coordinate dim at_ ∧ coordinate dim at_ < start + length then
              some (at_.modify dim (· - start))
            else none }
  else .error narrowOutOfRange

/-- `copy_` accepts sources of lower rank and repeats dimensions of size one. -/
def broadcastable (source target : List Nat) : Bool :=
  source.length ≤ target.length &&
    (List.zip source (target.drop (target.length - source.length))).all
      fun sizes => sizes.1 = sizes.2 || sizes.1 = 1

def broadcastIndex (source idx : List Nat) : List Nat :=
  List.zipWith (fun size i => if size = 1 then 0 else i) source
    (idx.drop (idx.length - source.length))

def View.copy (v : View F) (source : Tensor F) : Except Raised (Storage F) :=
  if broadcastable source.shape v.shape then
    .ok
      { shape := v.base.shape
        entry := fun idx =>
          match v.locate idx with
          | some at_ => v.base.entry idx ++ [source.entry (broadcastIndex source.shape at_)]
          | none => v.base.entry idx }
  else .error (.runtimeError "output with shape doesn't match the broadcast shape")

def narrow (t : Tensor F) (dim start length : Nat) : Except Raised (Tensor F) :=
  if start + length ≤ t.shape.getD dim 0 then .ok (t.slice dim start length)
  else .error narrowOutOfRange

/-- `tensor.chunk(chunks, dim)`; an empty dimension splits into `chunks` empty pieces. -/
def chunk (t : Tensor F) (chunks dim : Nat) : List (Tensor F) :=
  let size := t.shape.getD dim 0
  let split := (size + chunks - 1) / chunks
  if size = 0 then List.replicate chunks (t.slice dim 0 0)
  else
    (List.range ((size + split - 1) / split)).map fun i =>
      t.slice dim (i * split) (min split (size - i * split))

def torchCat (dim : Nat) : List (Tensor F) → Except Raised (Tensor F)
  | [] => .error (.runtimeError "expected a non-empty list of Tensors")
  | t :: us => .ok (Tensor.cat dim t us)

end Views

section Shapes

def showShape (shape : List Nat) : String :=
  match shape with
  | [n] => "(" ++ toString n ++ ",)"
  | _ => "(" ++ ", ".intercalate (shape.map toString) ++ ")"

def requireExactWeightShape (destination loaded : List Nat) : Except Raised Unit :=
  if loaded ≠ destination then
    .error (.valueError
      ("checkpoint tensor shape does not match its local destination: loaded="
        ++ showShape loaded ++ ", destination=" ++ showShape destination))
  else .ok ()

def requireExactGlobalWeightShape (localDestination loaded : List Nat)
    (shardDim numShards : Int) : Except Raised Unit :=
  let ndim : Int := localDestination.length
  if numShards < 1 then .error (.valueError "num_shards must be a positive integer")
  else if ¬ (-ndim ≤ shardDim ∧ shardDim < ndim) then
    .error (.valueError "shard_dim is outside the destination rank")
  else
    let dim := (shardDim % ndim).toNat
    let expected := localDestination.modify dim (· * numShards.toNat)
    if loaded ≠ expected then
      .error (.valueError
        ("checkpoint tensor shape does not match its expected global source geometry: loaded="
          ++ showShape loaded ++ ", expected_global=" ++ showShape expected
          ++ ", local_destination=" ++ showShape localDestination
          ++ ", shard_dim=" ++ toString dim ++ ", num_shards=" ++ toString numShards))
    else .ok ()

def divide (numerator denominator : Nat) : Except Raised Nat :=
  if numerator % denominator = 0 then .ok (numerator / denominator)
  else .error .assertionError

end Shapes

section Forward

variable {F : Type} [Semiring F]

/-- `F.linear(x, weight, bias)` over exact arithmetic. -/
def linear (x weight : Tensor F) (bias : Option (Tensor F)) : Except Raised (Tensor F) :=
  match weight.shape with
  | [n, k] =>
    if x.shape.getLast? ≠ some k then
      .error (.runtimeError "mat1 and mat2 shapes cannot be multiplied")
    else if ∃ b ∈ bias, b.shape ≠ [n] then
      .error (.runtimeError "the bias does not match the output size")
    else
      .ok
        { shape := x.shape.dropLast ++ [n]
          entry := fun idx =>
            let col := idx.getLastD 0
            (∑ i ∈ Finset.range k, x.entry (idx.dropLast ++ [i]) * weight.entry [col, i])
              + (bias.map fun b => b.entry [col]).getD 0 }
  | _ => .error (.runtimeError "linear expects a two-dimensional weight")

def blockK : Nat := 32

/-- The accumulator of `_linear_kernel` for one output element: blocks of the
reduction in order, lanes at `k` or later masked to zero. -/
def linearKernel (x weight : Nat → F) (k : Nat) : F :=
  (List.range ((k + blockK - 1) / blockK)).foldl
    (fun accumulator block =>
      accumulator + ∑ lane ∈ Finset.range blockK,
        (if block * blockK + lane < k then x (block * blockK + lane) else 0)
          * (if block * blockK + lane < k then weight (block * blockK + lane) else 0))
    0

/-- `invariant_linear` on the GPU; elsewhere it is `F.linear`. -/
def invariantLinear (x weight : Tensor F) (bias : Option (Tensor F)) :
    Except Raised (Tensor F) :=
  match weight.shape with
  | [n, k] =>
    if x.shape.getLast? ≠ some k then
      .error (.valueError "invariant linear received incompatible matrix shapes")
    else
      .ok
        { shape := x.shape.dropLast ++ [n]
          entry := fun idx =>
            let col := idx.getLastD 0
            linearKernel (fun i => x.entry (idx.dropLast ++ [i])) (fun i => weight.entry [col, i]) k
              + (bias.map fun b => b.entry [col]).getD 0 }
  | _ => .error (.valueError "not enough values to unpack")

/-- `dist.all_reduce`: every rank ends with the sum of all ranks' tensors. -/
def allReduce : List (Tensor F) → Option (Tensor F)
  | [] => none
  | t :: us =>
    some
      { shape := t.shape
        entry := fun idx => ((t :: us).map fun u => u.entry idx).sum }

end Forward

/-- `LinearBase` on one rank. -/
structure LinearBase (F : Type) where
  tpDim : Nat
  tpRank : Nat
  tpSize : Nat
  weight : Storage F
  bias : Option (Storage F)

namespace LinearBase

variable {F : Type}

def init (inputSize outputSize : Nat) (bias : Bool) (tpDim tpRank tpSize : Nat) :
    LinearBase F where
  tpDim := tpDim
  tpRank := tpRank
  tpSize := tpSize
  weight := .empty [outputSize, inputSize]
  bias := if bias then some (.empty [outputSize]) else none

/-- `_linear` on the values the parameters hold; `leftover` is the memory under the weight
and the bias. -/
def linear [Semiring F] (numericalMode : String) (leftover : List Nat → F) (layer : LinearBase F)
    (x : Tensor F) (bias : Option (Storage F)) : Except Raised (Tensor F) :=
  if numericalMode = "invariant" then
    invariantLinear x (layer.weight.value leftover) (bias.map (Storage.value leftover))
  else NanoVllm.linear x (layer.weight.value leftover) (bias.map (Storage.value leftover))

def loadNarrowed (tpDim tpRank tpSize : Nat) (param : Storage F) (loadedWeight : Tensor F) :
    Except Raised (Storage F) := do
  requireExactGlobalWeightShape param.shape loadedWeight.shape tpDim tpSize
  let shardSize := param.shape.getD tpDim 0
  let startIdx := tpRank * shardSize
  let loadedWeight ← narrow loadedWeight tpDim startIdx shardSize
  requireExactWeightShape param.shape loadedWeight.shape
  (View.whole param).copy loadedWeight

/-- The loader body of the layers that fill one part of a parameter with a chunk of the
checkpoint tensor. -/
def loadChunked (tpDim tpRank tpSize : Nat) (param : Storage F) (loadedWeight : Tensor F)
    (shardOffset shardSize : Nat) : Except Raised (Storage F) := do
  let paramData ← (View.whole param).narrow tpDim shardOffset shardSize
  requireExactGlobalWeightShape paramData.shape loadedWeight.shape tpDim tpSize
  match (chunk loadedWeight tpSize tpDim)[tpRank]? with
  | none => throw .indexError
  | some loadedWeight =>
    requireExactWeightShape paramData.shape loadedWeight.shape
    paramData.copy loadedWeight

end LinearBase

namespace ColumnParallelLinear

variable {F : Type}

def init (inputSize outputSize : Nat) (bias : Bool) (tpRank tpSize : Nat) :
    Except Raised (LinearBase F) := do
  let rows ← divide outputSize tpSize
  pure (.init inputSize rows bias 0 tpRank tpSize)

def weightLoader (layer : LinearBase F) (param : Storage F) (loadedWeight : Tensor F) :
    Except Raised (Storage F) :=
  LinearBase.loadNarrowed layer.tpDim layer.tpRank layer.tpSize param loadedWeight

def forward [Semiring F] (numericalMode : String) (leftover : List Nat → F)
    (layer : LinearBase F) (x : Tensor F) : Except Raised (Tensor F) :=
  layer.linear numericalMode leftover x layer.bias

end ColumnParallelLinear

/-- `MergedColumnParallelLinear` on one rank. -/
structure MergedColumnParallelLinear (F : Type) extends LinearBase F where
  outputSizes : List Nat

namespace MergedColumnParallelLinear

variable {F : Type}

def init (inputSize : Nat) (outputSizes : List Nat) (bias : Bool) (tpRank tpSize : Nat) :
    Except Raised (MergedColumnParallelLinear F) := do
  let base ← ColumnParallelLinear.init inputSize outputSizes.sum bias tpRank tpSize
  pure { base with outputSizes := outputSizes }

def weightLoader (layer : MergedColumnParallelLinear F) (param : Storage F)
    (loadedWeight : Tensor F) (loadedShardId : Nat) : Except Raised (Storage F) :=
  match layer.outputSizes[loadedShardId]? with
  | none => .error .indexError
  | some outputSize =>
    let shardOffset := (layer.outputSizes.take loadedShardId).sum / layer.tpSize
    let shardSize := outputSize / layer.tpSize
    LinearBase.loadChunked layer.tpDim layer.tpRank layer.tpSize param loadedWeight
      shardOffset shardSize

end MergedColumnParallelLinear

/-- The shard ids `"q"`, `"k"` and `"v"`. -/
inductive QkvShard
  | q
  | k
  | v
  deriving DecidableEq, Repr

/-- `QKVParallelLinear` on one rank. -/
structure QKVParallelLinear (F : Type) extends LinearBase F where
  headSize : Nat
  numHeads : Nat
  numKvHeads : Nat

namespace QKVParallelLinear

variable {F : Type}

/-- `total_num_kv_heads or total_num_heads`. -/
def kvHeads (totalNumHeads : Nat) (totalNumKvHeads : Option Nat) : Nat :=
  match totalNumKvHeads with
  | none => totalNumHeads
  | some 0 => totalNumHeads
  | some n => n

def init (hiddenSize headSize totalNumHeads : Nat) (totalNumKvHeads : Option Nat) (bias : Bool)
    (tpRank tpSize : Nat) : Except Raised (QKVParallelLinear F) := do
  let totalNumKvHeads := kvHeads totalNumHeads totalNumKvHeads
  let numHeads ← divide totalNumHeads tpSize
  let numKvHeads ← divide totalNumKvHeads tpSize
  let outputSize := (totalNumHeads + 2 * totalNumKvHeads) * headSize
  let base ← ColumnParallelLinear.init hiddenSize outputSize bias tpRank tpSize
  pure { base with headSize := headSize, numHeads := numHeads, numKvHeads := numKvHeads }

def weightLoader (layer : QKVParallelLinear F) (param : Storage F) (loadedWeight : Tensor F)
    (loadedShardId : QkvShard) : Except Raised (Storage F) :=
  let (shardSize, shardOffset) := match loadedShardId with
    | .q => (layer.numHeads * layer.headSize, 0)
    | .k => (layer.numKvHeads * layer.headSize, layer.numHeads * layer.headSize)
    | .v => (layer.numKvHeads * layer.headSize,
        layer.numHeads * layer.headSize + layer.numKvHeads * layer.headSize)
  LinearBase.loadChunked layer.tpDim layer.tpRank layer.tpSize param loadedWeight
    shardOffset shardSize

end QKVParallelLinear

namespace RowParallelLinear

variable {F : Type}

def init (inputSize outputSize : Nat) (bias : Bool) (tpRank tpSize : Nat) :
    Except Raised (LinearBase F) := do
  let columns ← divide inputSize tpSize
  pure (.init columns outputSize bias 1 tpRank tpSize)

def weightLoader (layer : LinearBase F) (param : Storage F) (loadedWeight : Tensor F) :
    Except Raised (Storage F) := do
  if param.shape.length = 1 then
    requireExactWeightShape param.shape loadedWeight.shape
    (View.whole param).copy loadedWeight
  else
    LinearBase.loadNarrowed layer.tpDim layer.tpRank layer.tpSize param loadedWeight

/-- `forward` up to the reduction over ranks. -/
def partialOutput [Semiring F] (numericalMode : String) (leftover : List Nat → F)
    (layer : LinearBase F) (x : Tensor F) : Except Raised (Tensor F) :=
  layer.linear numericalMode leftover x (if layer.tpRank = 0 then layer.bias else none)

end RowParallelLinear

end NanoVllm
