/- module: NanoVllm/Layers/RejectionSampler
   layer: source
   source: nanovllm/layers/sampler.py, prepare_exact_probabilities and ModifiedRejectionSampler
   digest: The validated oracles of speculative sampling and their trusted device paths. -/

import Mathlib.Algebra.BigOperators.Group.Finset.Basic
import NanoVllm.Layers.Sampler

set_option autoImplicit false
set_option relaxedAutoImplicit false

open NanoVllm.Library

namespace NanoVllm

/-- `SpeculativeSamplingInvariantError`, a `RuntimeError`. -/
def samplingInvariantError (message : String) : Raised := .runtimeError message

section Probabilities

variable {V : Nat} {F : Type} [Field F] [LinearOrder F]

/-- `_validate_row_indices`; the number of active rows. -/
def validateRowIndices (rowIndices : Option (List Nat)) (batchSize : Nat) (name : String) :
    Except Raised Nat :=
  match rowIndices with
  | none => .ok batchSize
  | some rows =>
    if rows.isEmpty then .error (.valueError (name ++ " must not be empty"))
    else if ∃ row ∈ rows, batchSize ≤ row then
      .error (.valueError (name ++ " contains an out-of-range row"))
    else if ¬ rows.Nodup then .error (.valueError (name ++ " contains duplicate rows"))
    else .ok rows.length

def validateTopKBucket (vocabSize batchSize : Nat) (seen : List Nat)
    (entry : (Int × Option (List Nat)) × Nat) : Except Raised (List Nat) := do
  let (topK, rowIndices) := entry.1
  if ¬ (1 ≤ topK ∧ topK ≤ vocabSize) then
    throw (.valueError "top_k must be in [1, vocab_size]")
  let _ ← validateRowIndices rowIndices batchSize
    ("top_k_buckets[" ++ toString entry.2 ++ "].row_indices")
  let activeRows := rowIndices.getD (List.range batchSize)
  if ∃ row ∈ activeRows, row ∈ seen then
    throw (.valueError "top-k buckets must not overlap")
  pure (seen ++ activeRows)

def validateTopPPlan (batchSize : Nat) (plan : Option (Option (List Nat) × List F)) :
    Except Raised Unit :=
  match plan with
  | none => .ok ⟨⟩
  | some (rowIndices, cutoffs) => do
    let activeCount ← validateRowIndices rowIndices batchSize "top_p_plan.row_indices"
    if cutoffs.length ≠ activeCount then
      throw (.valueError "probability_cutoffs must have one value per active row")
    if ∃ cutoff ∈ cutoffs, cutoff < 0 ∨ 1 ≤ cutoff then
      throw (.valueError "probability_cutoffs must be finite and in [0, 1)")

/-- The checks of `prepare_exact_probabilities` before anything is computed. -/
def validateExactInputs (logits : List (LogitRow V F)) (temperatures : List F)
    (topKBuckets : List (Int × Option (List Nat)))
    (topPPlan : Option (Option (List Nat) × List F)) : Except Raised Unit := do
  if logits.isEmpty ∨ V = 0 then
    throw (.valueError "logits must have non-empty batch and vocabulary dimensions")
  if temperatures.length ≠ logits.length then
    throw (.valueError "temperatures must have shape [batch_size]")
  if ∃ temperature ∈ temperatures, temperature < 0 then
    throw (.valueError "temperatures must be finite and non-negative")
  let _ ← topKBuckets.zipIdx.foldlM (validateTopKBucket V logits.length) []
  validateTopPPlan logits.length topPPlan

def filterExact (sort : AscendingSort V F) (softmax : LogitRow V F → Fin V → F)
    (logits : List (LogitRow V F)) (temperatures : List F)
    (topKBuckets : List (Int × Option (List Nat)))
    (topPPlan : Option (Option (List Nat) × List F)) : Except Raised (List (LogitRow V F)) := do
  let filteredLogits ← topKBuckets.foldlM
    (fun logits bucket => filterTopK logits bucket.2 bucket.1.toNat) logits
  match topPPlan with
  | none => pure filteredLogits
  | some (rowIndices, cutoffs) =>
    filterTopP sort softmax filteredLogits temperatures rowIndices cutoffs

def oneHot (token : Fin V) : Fin V → F := fun i => if i = token then 1 else 0

/-- `index_fill_` with zero and the write of one at the greedy token, on the greedy rows. -/
def overrideGreedy (temperatures : List F) (greedyTokens : List (Fin V))
    (probabilities : List (Fin V → F)) : List (Fin V → F) :=
  List.zipWith (fun (own : F × Fin V) row => if own.1 = 0 then oneHot own.2 else row)
    (temperatures.zip greedyTokens) probabilities

variable [NeZero V] (sort : AscendingSort V F) (softmax : LogitRow V F → Fin V → F)

def prepareExactProbabilities (logits : List (LogitRow V F)) (temperatures : List F)
    (topKBuckets : List (Int × Option (List Nat)))
    (topPPlan : Option (Option (List Nat) × List F)) : Except Raised (List (Fin V → F)) := do
  validateExactInputs logits temperatures topKBuckets topPPlan
  let filteredLogits ← filterExact sort softmax logits temperatures topKBuckets topPPlan
  let greedyTokens := logits.map argmax
  let scaledLogits := List.zipWith scaleRow temperatures filteredLogits
  let probabilities := overrideGreedy temperatures greedyTokens (scaledLogits.map softmax)
  if ¬ ∀ row ∈ probabilities, 0 < ∑ i, row i then
    throw (samplingInvariantError "canonical probability rows must be finite with positive mass")
  pure probabilities

def prepareExactProbabilitiesTrusted (logits : List (LogitRow V F)) (temperatures : List F)
    (topKBuckets : List (Int × Option (List Nat)))
    (topPPlan : Option (Option (List Nat) × List F)) (allGreedy : Bool) :
    Except Raised (List (Fin V → F)) := do
  let greedyTokens := logits.map argmax
  if allGreedy then
    pure (greedyTokens.map oneHot)
  else
    let filteredLogits ← filterExact sort softmax logits temperatures topKBuckets topPPlan
    let scaledLogits := List.zipWith scaleRow temperatures filteredLogits
    pure (overrideGreedy temperatures greedyTokens (scaledLogits.map softmax))

end Probabilities

section Rejection

variable {B P V : Nat} {F : Type} [Field F] [LinearOrder F]

def rowMass (weights : Fin V → F) : F := ∑ i, weights i

/-- `_sample_exponential_race` on one row. -/
def sampleExponentialRace [NeZero V] (weights noise : Fin V → F) : Fin V :=
  argmax fun i => weights i / noise i

/-- `_validate_canonical_weights` on rows of weights. -/
def validateCanonicalWeights (rows : List (Fin V → F)) (name : String) : Except Raised Unit :=
  if rows.isEmpty then
    .error (samplingInvariantError (name ++ " must have no empty dimensions"))
  else if ∃ row ∈ rows, ∃ i, row i < 0 then
    .error (samplingInvariantError (name ++ " contains negative weights"))
  else if ∃ row ∈ rows, ¬ 0 < rowMass row then
    .error (samplingInvariantError (name ++ " rows must have finite, strictly positive mass"))
  else .ok ⟨⟩

def validateRaceNoise (rows : List (Fin V → F)) (name : String) : Except Raised Unit :=
  if ∃ row ∈ rows, ∃ i, ¬ 0 < row i then
    .error (samplingInvariantError (name ++ " must contain finite, strictly positive values"))
  else .ok ⟨⟩

/-- `ResidualSample` of one row. -/
structure ResidualSample (V : Nat) where
  tokenId : Fin V
  usedReference : Bool
  targetFallback : Bool

/-- One row of `sample_correction` after its checks. -/
def correctionRow [NeZero V] (target draft noise : Fin V → F) : ResidualSample V :=
  let referenceTarget : Fin V → F := fun i => target i / rowMass target
  let referenceDraft : Fin V → F := fun i => draft i / rowMass draft
  let residual : Fin V → F := fun i => max (referenceTarget i - referenceDraft i) 0
  let mass := rowMass residual
  let fallback : Bool := mass = 0
  let law : Fin V → F := if fallback then referenceTarget else fun i => residual i / mass
  { tokenId := sampleExponentialRace law noise
    usedReference := true
    targetFallback := fallback }

def sampleCorrection [NeZero V] (target draft noise : List (Fin V → F)) :
    Except Raised (List (ResidualSample V)) := do
  validateCanonicalWeights target "target_weights"
  validateCanonicalWeights draft "draft_weights"
  validateRaceNoise noise "correction_noise"
  pure (List.zipWith (fun (pair : (Fin V → F) × (Fin V → F)) => correctionRow pair.1 pair.2)
    (target.zip draft) noise)

structure ModifiedRejectionResult (B : Nat) where
  acceptedCounts : Fin B → Nat
  correctiveTokenIds : Fin B → Int
  usedReference : Fin B → Bool
  targetFallback : Fin B → Bool

/-- `weights.gather(-1, token)`; callers check the range. -/
def tokenWeight (weights : Fin V → F) (token : Int) : F :=
  if h : 0 ≤ token ∧ token < V then weights ⟨token.toNat, by omega⟩ else 0

def acceptance (target draft : Fin V → F) (token : Int) : F :=
  min (tokenWeight target token / rowMass target / (tokenWeight draft token / rowMass draft)) 1

variable (targetWeights : Fin B → Fin P → Fin V → F) (draftTokens : Fin B → Fin P → Int)
  (draftWeights : Fin B → Fin P → Fin V → F) (uniforms : Fin B → Fin P → F)
  (correctionNoise : Fin B → Fin V → F)

def acceptedPrefix (b : Fin B) (p : Fin P) : Nat :=
  ∏ j ∈ Finset.Iic p,
    if uniforms b j < acceptance (targetWeights b j) (draftWeights b j) (draftTokens b j) then 1
    else 0

def acceptedCount (b : Fin B) : Nat :=
  ∑ p, acceptedPrefix targetWeights draftTokens draftWeights uniforms b p

/-- `rows.index_copy_(0, indices, values)` on a vector. -/
def copyRows {α : Type} (base : Fin B → α) (rows : List (Fin B)) (values : List α) : Fin B → α :=
  (rows.zip values).foldl (fun row copied => Function.update row copied.1 copied.2) base

def atPosition (weights : Fin P → Fin V → F) (position : Nat) : Except Raised (Fin V → F) :=
  if h : position < P then .ok (weights ⟨position, h⟩) else .error .indexError

variable [NeZero V]

def accept : Except Raised (ModifiedRejectionResult B) := do
  let rowsOf (weights : Fin B → Fin P → Fin V → F) : List (Fin V → F) :=
    (List.finRange B).flatMap fun b => (List.finRange P).map (weights b)
  validateCanonicalWeights (rowsOf targetWeights) "target_weights"
  validateCanonicalWeights (rowsOf draftWeights) "draft_weights"
  if ∃ b p, draftTokens b p < 0 ∨ (V : Int) ≤ draftTokens b p then
    throw (samplingInvariantError "draft_tokens contains an out-of-range token ID")
  if ∃ b p, uniforms b p < 0 ∨ 1 ≤ uniforms b p then
    throw (samplingInvariantError
      "uniforms must be finite and in the half-open interval [0, 1)")
  validateRaceNoise ((List.finRange B).map correctionNoise) "correction_noise"
  if ∃ b p, ¬ 0 < tokenWeight (draftWeights b p) (draftTokens b p) then
    throw (samplingInvariantError "every selected draft token must have finite q(d) > 0")
  let counts := acceptedCount targetWeights draftTokens draftWeights uniforms
  let none_ : ModifiedRejectionResult B :=
    { acceptedCounts := counts
      correctiveTokenIds := fun _ => -1
      usedReference := fun _ => false
      targetFallback := fun _ => false }
  let rejectedRows := (List.finRange B).filter fun b => counts b < P
  if rejectedRows.isEmpty then
    pure none_
  else
    let rejectedTarget ← rejectedRows.mapM fun b => atPosition (targetWeights b) (counts b)
    let rejectedDraft ← rejectedRows.mapM fun b => atPosition (draftWeights b) (counts b)
    let correction ← sampleCorrection rejectedTarget rejectedDraft
      (rejectedRows.map correctionNoise)
    pure
      { none_ with
        correctiveTokenIds := copyRows none_.correctiveTokenIds rejectedRows
          (correction.map fun sample => (sample.tokenId.val : Int))
        usedReference := copyRows none_.usedReference rejectedRows
          (correction.map ResidualSample.usedReference)
        targetFallback := copyRows none_.targetFallback rejectedRows
          (correction.map ResidualSample.targetFallback) }

variable [NeZero P]

def acceptTrusted : Except Raised (ModifiedRejectionResult B) := do
  if ∃ b p, draftTokens b p < 0 ∨ (V : Int) ≤ draftTokens b p then
    throw .indexError
  let counts := acceptedCount targetWeights draftTokens draftWeights uniforms
  let position : Fin B → Fin P := fun b =>
    ⟨min (counts b) (P - 1), by have := NeZero.pos P; omega⟩
  let targetLaw : Fin B → Fin V → F := fun b i =>
    targetWeights b (position b) i / rowMass (targetWeights b (position b))
  let draftLaw : Fin B → Fin V → F := fun b i =>
    draftWeights b (position b) i / rowMass (draftWeights b (position b))
  let residual : Fin B → Fin V → F := fun b i => max (targetLaw b i - draftLaw b i) 0
  let residualMass : Fin B → F := fun b => rowMass (residual b)
  let rejected : Fin B → Bool := fun b => counts b < P
  let fallback : Fin B → Bool := fun b => rejected b && decide (residualMass b = 0)
  let correctionLaw : Fin B → Fin V → F := fun b =>
    if fallback b then targetLaw b
    else fun i => residual b i / if residualMass b = 0 then 1 else residualMass b
  pure
    { acceptedCounts := counts
      correctiveTokenIds := fun b =>
        ((sampleExponentialRace (correctionLaw b) (correctionNoise b)).val : Int)
      usedReference := rejected
      targetFallback := fallback }

end Rejection

end NanoVllm
