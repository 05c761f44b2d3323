/- module: NanoVllm/Engine/ModelRunner
   layer: source
   source: run, compute_logits and prepare_sample of nanovllm/engine/model_runner.py, the final
     kernels of Sampler in nanovllm/layers/sampler.py
   digest: One model step on rank zero, from the scheduled rows to their tokens. -/

import NanoVllm.Engine.GraphReplay
import NanoVllm.Layers.EmbedHead
import NanoVllm.Layers.Sampler

set_option autoImplicit false
set_option relaxedAutoImplicit false

namespace NanoVllm

open Library

inductive TopPBackend
  | exact
  | flashinfer
  deriving DecidableEq

variable {V : Nat} {F : Type} [Field F] [LinearOrder F]

/-- The tensor code a step calls. `model` are the passes up to the final norm, eager and replayed,
`head` the LM head on one hidden row, gathered over the ranks; the FlashInfer kernels work row by
row. -/
structure StepKernels (V : Nat) (F : Type) [LinearOrder F] where
  model : TargetModel (List Nat → F)
  hiddenSize : Nat
  head : (List Nat → F) → LogitRow V F
  sort : AscendingSort V F
  softmax : LogitRow V F → Fin V → F
  flashSoftmax : F → LogitRow V F → Fin V → F
  topPSampling : F → (Fin V → F) → (Fin V → F) → Fin V

/-- `prepare_sample`: the cutoffs of the exact backend, the full vector of FlashInfer. -/
def prepareSample (backend : TopPBackend) (vocabSize : Nat) (params : List (RowSampling F)) :
    Except Raised (SampleMetadata F) :=
  let metadata := prepareSampleMetadata vocabSize params
  match metadata.topPPlan, backend with
  | none, _ => .ok metadata
  | some (rows, topPs), .exact =>
    .ok { metadata with topPPlan := some (rows, topPs.map fun topP => 1 - topP) }
  | some plan, .flashinfer => do
    let topPs ← expandTopPs metadata.temperatures.length plan
    pure { metadata with topPPlan := some (none, topPs) }

section Kernels

variable [NeZero V] (kernels : StepKernels V F)

/-- One row of `Sampler.forward`, with its exponential draws. -/
def forwardRow (temperature : F) (noise : Fin V → F) (row : LogitRow V F) : Fin V :=
  if temperature = 0 then argmax row
  else argmax fun i => kernels.softmax (scaleRow temperature row) i / clampMin (noise i)

/-- One row of `sample_top_p_flashinfer`, with its draws. -/
def flashinferRow (temperature topP : F) (noise : Fin V → F) (row : LogitRow V F) : Fin V :=
  if temperature = 0 then argmax row
  else kernels.topPSampling topP noise
    (kernels.flashSoftmax (clampMin temperature) row)

def sizeMismatch : Raised := .runtimeError "size of tensor a must match the size of tensor b"

/-- `Sampler.forward`; a single temperature for several rows does not broadcast here. -/
def samplerForward (logits : List (LogitRow V F)) (temperatures : List F)
    (noise : Nat → Fin V → F) : Except Raised (List (Fin V)) :=
  if temperatures.length ≠ logits.length then .error sizeMismatch
  else .ok ((temperatures.zip logits).zipIdx.map fun e =>
    forwardRow kernels e.1.1 (noise e.2) e.1.2)

def sampleTopPFlashinfer (logits : List (LogitRow V F)) (temperatures topPs : List F)
    (noise : Nat → Fin V → F) : Except Raised (List (Fin V)) :=
  if temperatures.length ≠ logits.length ∨ topPs.length ≠ logits.length then .error sizeMismatch
  else .ok (((temperatures.zip topPs).zip logits).zipIdx.map fun e =>
    flashinferRow kernels e.1.1.1 e.1.1.2 (noise e.2) e.1.2)

/-- The sampling branch of `run` for a batch that emits. -/
def sampleTokens (backend : TopPBackend) (prepared : SampleMetadata F) (noise : Nat → Fin V → F)
    (logits : List (LogitRow V F)) : Except Raised (List (Fin V)) := do
  if prepared.allGreedy then pure (logits.map argmax)
  else
    let logits ← prepared.topKBuckets.foldlM
      (fun logits bucket => filterTopK logits bucket.2 bucket.1.toNat) logits
    match prepared.topPPlan, backend with
    | none, _ => samplerForward kernels logits prepared.temperatures noise
    | some (_, topPs), .flashinfer =>
      sampleTopPFlashinfer kernels logits prepared.temperatures topPs noise
    | some (rowIndices, cutoffs), .exact =>
      let logits ← filterTopP kernels.sort kernels.softmax logits prepared.temperatures rowIndices
        cutoffs
      samplerForward kernels logits prepared.temperatures noise

end Kernels

/-- The rows whose tokens `run` keeps. -/
def emittingIndices (numericalMode : String) (isPrefill : Bool) (seqs : List RunnerRow) :
    List Nat :=
  if numericalMode = "invariant" ∧ isPrefill then
    (seqs.zipIdx.filter fun e =>
      e.1.numCachedTokens + e.1.numScheduledTokens = e.1.numTokens).map Prod.snd
  else List.range seqs.length

def hiddenStates (hiddenSize : Nat) (hidden : List (List Nat → F)) : Tensor F where
  shape := [hidden.length, hiddenSize]
  entry idx := hidden.getD (coordinate 0 idx) (fun _ => 0) (idx.drop 1)

/-- The logits of the hidden rows that the LM head selects, of `compute_logits_all` when
`allPositions` is set. -/
def computeLogits (kernels : StepKernels V F) (numericalMode : String) (context : ModelContext)
    (allPositions : Bool) (hidden : List (List Nat → F)) : Except Raised (List (LogitRow V F)) := do
  let x ← ParallelLMHead.selected numericalMode context allPositions
    (hiddenStates kernels.hiddenSize hidden)
  pure ((List.range (x.shape.headD 0)).map fun j => kernels.head fun idx => x.entry (j :: idx))

/-- The loop over `zip(emitting_indices, sampled_token_ids, strict=True)`. -/
def storeTokens (size : Nat) (emitting tokens : List Nat) : Except Raised (List Nat) :=
  if tokens.length < emitting.length then
    .error (.valueError "zip() argument 2 is shorter than argument 1")
  else if emitting.length < tokens.length then
    .error (.valueError "zip() argument 2 is longer than argument 1")
  else .ok ((emitting.zip tokens).foldl (fun tokenIds e => tokenIds.set e.1 e.2)
    (List.replicate size 0))

variable [NeZero V] {capacity tokens slots width : Nat}

/-- `run` on rank zero; a row comes with the sampling fields of its request. `noise` are the
draws of the sampler for each row of its logits. -/
def run (kernels : StepKernels V F) (runner : TargetGraphs capacity tokens slots width)
    (blockSize : Nat) (numericalMode : String) (backend : TopPBackend) (noise : Nat → Fin V → F)
    (seqs : List (RunnerRow × RowSampling F)) (isPrefill : Bool) : Except Raised (List Nat) := do
  let rows := seqs.map Prod.fst
  let inputs ← (if isPrefill then prepareRagged blockSize rows else prepareDecode blockSize rows)
  let emitting := emittingIndices numericalMode isPrefill rows
  let sampleSeqs ← emitting.mapM fun index : Nat => pyGet seqs (index : Int)
  let prepared ← prepareSample backend V (sampleSeqs.map Prod.snd)
  let hidden ← runModel kernels.model runner inputs isPrefill
  let logits ← computeLogits kernels numericalMode inputs.context false hidden
  let tokens ← (if sampleSeqs.isEmpty then pure []
    else sampleTokens kernels backend prepared noise logits)
  storeTokens seqs.length emitting (tokens.map Fin.val)

end NanoVllm
