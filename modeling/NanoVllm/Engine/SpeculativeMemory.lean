/- module: NanoVllm/Engine/SpeculativeMemory
   layer: source
   source: nanovllm/engine/speculative_memory.py; the exact workspace, its fingerprint and
     its certificate from nanovllm/engine/speculative_plan.py
   digest: Byte counts of the speculative workspace for one vocabulary, batch and K. -/

import NanoVllm.Engine.SpeculativePlan

set_option autoImplicit false
set_option relaxedAutoImplicit false

namespace NanoVllm

def fp32Bytes : Nat := 4
def fp64Bytes : Nat := 8
def int64Bytes : Nat := 8
def boolBytes : Nat := 1
def topPChunkSize : Nat := 64

def allocatorMarginMinBytes : Nat := 64 * 1024 ^ 2
def allocatorMarginNumerator : Nat := 1
def allocatorMarginDenominator : Nat := 10
def allocatorMarginAlignmentBytes : Nat := 2 * 1024 ^ 2

/-- The floating-point `torch.dtype`s; the type is the check of `_floating_itemsize`. -/
inductive FloatingDtype
  | float8 | float16 | bfloat16 | float32 | float64
  deriving DecidableEq, Repr

def FloatingDtype.itemsize : FloatingDtype → Nat
  | .float8 => 1
  | .float16 => 2
  | .bfloat16 => 2
  | .float32 => 4
  | .float64 => 8

/-- The arithmetic of `SpeculativeMemoryPlan`; its two `None` fields and its texts carry no
number. -/
structure SpeculativeMemoryPlan where
  batchSize : Nat
  configuredK : Nat
  maxEffectiveK : Nat
  vocabSize : Nat
  maxNumSeqs : Nat
  maxNumBatchedTokens : Nat
  maxModelLen : Nat
  draftRows : Nat
  verifierRows : Nat
  targetLogitsItemsize : Nat
  draftLogitsItemsize : Nat
  draftProbabilityBytes : Nat
  targetProbabilityBytes : Nat
  probabilityFloorBytes : Nat
  draftLogitsBytes : Nat
  verifierLogitsBytes : Nat
  draftTransformBytes : Nat
  verifierTransformBytes : Nat
  draftTopKWorkspaceBytes : Nat
  verifierTopKWorkspaceBytes : Nat
  draftTopPWorkspaceBytes : Nat
  verifierTopPWorkspaceBytes : Nat
  draftSamplingWorkspaceBytes : Nat
  bonusSamplingWorkspaceBytes : Nat
  rejectionCorrectionWorkspaceBytes : Nat
  metadataBytes : Nat
  draftFilterPhaseBytes : Nat
  draftSoftmaxPhaseBytes : Nat
  draftRacePhaseBytes : Nat
  verifierFilterPhaseBytes : Nat
  verifierSoftmaxPhaseBytes : Nat
  draftPhaseBytes : Nat
  verifierPhaseBytes : Nat
  rejectionPhaseBytes : Nat
  bonusPhaseBytes : Nat
  modeledLivePeakBytes : Nat
  allocatorMarginBytes : Nat
  reservationBytes : Nat
  deriving DecidableEq, Repr

/-- `_positive_int`; the type check is the type. -/
def positiveInt (name : String) (value : Nat) : Except Raised Unit :=
  if value = 0 then throw (.speculativeMemoryPlanningError (name ++ " must be positive"))
  else pure ()

def ceilDiv (numerator denominator : Nat) : Nat := (numerator + denominator - 1) / denominator

def roundUp (value alignment : Nat) : Nat := ceilDiv value alignment * alignment

def topPWorkspaceBytes (rows vocabSize logitsItemsize : Nat) : Nat :=
  let denseElements := rows * vocabSize
  let chunkElements := min rows topPChunkSize * vocabSize
  let activeLogitsCopy := denseElements * logitsItemsize
  let explicitChunkPayload := chunkElements * (4 * fp32Bytes + int64Bytes + 2 * boolBytes)
  let sortLibraryScratch := 2 * chunkElements * (fp32Bytes + int64Bytes)
  activeLogitsCopy + explicitChunkPayload + sortLibraryScratch

def topKWorkspaceBytes (rows vocabSize logitsItemsize : Nat) : Nat :=
  let denseElements := rows * vocabSize
  let activeLogitsCopy := denseElements * logitsItemsize
  let values := denseElements * logitsItemsize
  let indices := denseElements * int64Bytes
  let thresholds := rows * logitsItemsize
  activeLogitsCopy + values + indices + thresholds

def categoricalRaceWorkspaceBytes (rows vocabSize : Nat) : Nat :=
  rows * vocabSize * (fp32Bytes + 3 * fp64Bytes)

def rejectionCorrectionWorkspaceBytes (batchSize vocabSize : Nat) : Nat :=
  batchSize * vocabSize * (3 * fp32Bytes + 7 * fp64Bytes)

def metadataBytes (batchSize configuredK verifierRows : Nat) : Nat :=
  let proposalElements := batchSize * configuredK
  let proposalMetadata := proposalElements *
    (int64Bytes + 2 * fp64Bytes + 2 * fp32Bytes + 2 * fp64Bytes + fp64Bytes + fp32Bytes
      + 2 * boolBytes + 2 * int64Bytes)
  let samplerRows := batchSize + verifierRows
  let samplerMetadata := samplerRows * (2 * fp32Bytes + 2 * int64Bytes)
  let perSequence := batchSize * (4 * int64Bytes + 3 * boolBytes)
  proposalMetadata + samplerMetadata + perSequence

def allocatorMargin (livePeakBytes : Nat) : Nat :=
  let fractional := ceilDiv (livePeakBytes * allocatorMarginNumerator) allocatorMarginDenominator
  let rawMargin := max allocatorMarginMinBytes fractional
  roundUp rawMargin allocatorMarginAlignmentBytes

section Phases

variable (vocabSize targetItemsize draftItemsize batchSize k : Nat)

def draftProbabilityBytes : Nat := batchSize * k * vocabSize * fp32Bytes

def targetProbabilityBytes : Nat := batchSize * (k + 1) * vocabSize * fp32Bytes

def draftLogitsBytes : Nat := batchSize * vocabSize * draftItemsize

def verifierLogitsBytes : Nat := batchSize * (k + 1) * vocabSize * targetItemsize

def draftFilterPhaseBytes : Nat :=
  draftProbabilityBytes vocabSize batchSize k
    + draftLogitsBytes vocabSize draftItemsize batchSize
    + draftLogitsBytes vocabSize draftItemsize batchSize
    + max (topKWorkspaceBytes batchSize vocabSize draftItemsize)
        (topPWorkspaceBytes batchSize vocabSize draftItemsize)
    + metadataBytes batchSize k (batchSize * (k + 1))

def draftSoftmaxPhaseBytes : Nat :=
  draftProbabilityBytes vocabSize batchSize k
    + draftLogitsBytes vocabSize draftItemsize batchSize
    + draftLogitsBytes vocabSize draftItemsize batchSize
    + batchSize * vocabSize * fp32Bytes
    + metadataBytes batchSize k (batchSize * (k + 1))

def draftRacePhaseBytes : Nat :=
  draftProbabilityBytes vocabSize batchSize k
    + draftLogitsBytes vocabSize draftItemsize batchSize
    + categoricalRaceWorkspaceBytes batchSize vocabSize
    + metadataBytes batchSize k (batchSize * (k + 1))

def draftPhaseBytes : Nat :=
  max (draftFilterPhaseBytes vocabSize draftItemsize batchSize k)
    (max (draftSoftmaxPhaseBytes vocabSize draftItemsize batchSize k)
      (draftRacePhaseBytes vocabSize draftItemsize batchSize k))

def verifierFilterPhaseBytes : Nat :=
  draftProbabilityBytes vocabSize batchSize k
    + verifierLogitsBytes vocabSize targetItemsize batchSize k
    + verifierLogitsBytes vocabSize targetItemsize batchSize k
    + max (topKWorkspaceBytes (batchSize * (k + 1)) vocabSize targetItemsize)
        (topPWorkspaceBytes (batchSize * (k + 1)) vocabSize targetItemsize)
    + metadataBytes batchSize k (batchSize * (k + 1))

def verifierSoftmaxPhaseBytes : Nat :=
  draftProbabilityBytes vocabSize batchSize k
    + verifierLogitsBytes vocabSize targetItemsize batchSize k
    + verifierLogitsBytes vocabSize targetItemsize batchSize k
    + targetProbabilityBytes vocabSize batchSize k
    + targetProbabilityBytes vocabSize batchSize k
    + metadataBytes batchSize k (batchSize * (k + 1))

def verifierPhaseBytes : Nat :=
  max (verifierFilterPhaseBytes vocabSize targetItemsize batchSize k)
    (verifierSoftmaxPhaseBytes vocabSize targetItemsize batchSize k)

def probabilityFloorBytes : Nat :=
  draftProbabilityBytes vocabSize batchSize k + targetProbabilityBytes vocabSize batchSize k

def rejectionPhaseBytes : Nat :=
  probabilityFloorBytes vocabSize batchSize k
    + rejectionCorrectionWorkspaceBytes batchSize vocabSize
    + metadataBytes batchSize k (batchSize * (k + 1))

def bonusPhaseBytes : Nat :=
  probabilityFloorBytes vocabSize batchSize k
    + categoricalRaceWorkspaceBytes batchSize vocabSize
    + metadataBytes batchSize k (batchSize * (k + 1))

def modeledLivePeakBytes : Nat :=
  max (draftPhaseBytes vocabSize draftItemsize batchSize k)
    (max (verifierPhaseBytes vocabSize targetItemsize batchSize k)
      (max (rejectionPhaseBytes vocabSize batchSize k) (bonusPhaseBytes vocabSize batchSize k)))

end Phases

section Plan

variable (vocabSize configuredK maxNumSeqs maxNumBatchedTokens maxModelLen : Nat)
variable (targetDtype draftDtype : FloatingDtype)

def emptyWorkspacePlan : SpeculativeMemoryPlan where
  batchSize := 0
  configuredK := configuredK
  maxEffectiveK := 0
  vocabSize := vocabSize
  maxNumSeqs := maxNumSeqs
  maxNumBatchedTokens := maxNumBatchedTokens
  maxModelLen := maxModelLen
  draftRows := 0
  verifierRows := 0
  targetLogitsItemsize := targetDtype.itemsize
  draftLogitsItemsize := draftDtype.itemsize
  draftProbabilityBytes := 0
  targetProbabilityBytes := 0
  probabilityFloorBytes := 0
  draftLogitsBytes := 0
  verifierLogitsBytes := 0
  draftTransformBytes := 0
  verifierTransformBytes := 0
  draftTopKWorkspaceBytes := 0
  verifierTopKWorkspaceBytes := 0
  draftTopPWorkspaceBytes := 0
  verifierTopPWorkspaceBytes := 0
  draftSamplingWorkspaceBytes := 0
  bonusSamplingWorkspaceBytes := 0
  rejectionCorrectionWorkspaceBytes := 0
  metadataBytes := 0
  draftFilterPhaseBytes := 0
  draftSoftmaxPhaseBytes := 0
  draftRacePhaseBytes := 0
  verifierFilterPhaseBytes := 0
  verifierSoftmaxPhaseBytes := 0
  draftPhaseBytes := 0
  verifierPhaseBytes := 0
  rejectionPhaseBytes := 0
  bonusPhaseBytes := 0
  modeledLivePeakBytes := 0
  allocatorMarginBytes := 0
  reservationBytes := 0

/-- The plan of a positive geometry: `B = batchSize` and `K = maxEffectiveK`. -/
def positiveWorkspacePlan (batchSize maxEffectiveK : Nat) : SpeculativeMemoryPlan :=
  let target := targetDtype.itemsize
  let draft := draftDtype.itemsize
  let verifierRows := batchSize * (maxEffectiveK + 1)
  let peak := modeledLivePeakBytes vocabSize target draft batchSize maxEffectiveK
  { batchSize := batchSize
    configuredK := configuredK
    maxEffectiveK := maxEffectiveK
    vocabSize := vocabSize
    maxNumSeqs := maxNumSeqs
    maxNumBatchedTokens := maxNumBatchedTokens
    maxModelLen := maxModelLen
    draftRows := batchSize
    verifierRows := verifierRows
    targetLogitsItemsize := target
    draftLogitsItemsize := draft
    draftProbabilityBytes := draftProbabilityBytes vocabSize batchSize maxEffectiveK
    targetProbabilityBytes := targetProbabilityBytes vocabSize batchSize maxEffectiveK
    probabilityFloorBytes := probabilityFloorBytes vocabSize batchSize maxEffectiveK
    draftLogitsBytes := draftLogitsBytes vocabSize draft batchSize
    verifierLogitsBytes := verifierLogitsBytes vocabSize target batchSize maxEffectiveK
    draftTransformBytes := batchSize * vocabSize * (draft + fp32Bytes)
    verifierTransformBytes := verifierRows * vocabSize * (target + fp32Bytes)
    draftTopKWorkspaceBytes := topKWorkspaceBytes batchSize vocabSize draft
    verifierTopKWorkspaceBytes := topKWorkspaceBytes verifierRows vocabSize target
    draftTopPWorkspaceBytes := topPWorkspaceBytes batchSize vocabSize draft
    verifierTopPWorkspaceBytes := topPWorkspaceBytes verifierRows vocabSize target
    draftSamplingWorkspaceBytes := categoricalRaceWorkspaceBytes batchSize vocabSize
    bonusSamplingWorkspaceBytes := categoricalRaceWorkspaceBytes batchSize vocabSize
    rejectionCorrectionWorkspaceBytes := rejectionCorrectionWorkspaceBytes batchSize vocabSize
    metadataBytes := metadataBytes batchSize maxEffectiveK verifierRows
    draftFilterPhaseBytes := draftFilterPhaseBytes vocabSize draft batchSize maxEffectiveK
    draftSoftmaxPhaseBytes := draftSoftmaxPhaseBytes vocabSize draft batchSize maxEffectiveK
    draftRacePhaseBytes := draftRacePhaseBytes vocabSize draft batchSize maxEffectiveK
    verifierFilterPhaseBytes := verifierFilterPhaseBytes vocabSize target batchSize maxEffectiveK
    verifierSoftmaxPhaseBytes :=
      verifierSoftmaxPhaseBytes vocabSize target batchSize maxEffectiveK
    draftPhaseBytes := draftPhaseBytes vocabSize draft batchSize maxEffectiveK
    verifierPhaseBytes := verifierPhaseBytes vocabSize target batchSize maxEffectiveK
    rejectionPhaseBytes := rejectionPhaseBytes vocabSize batchSize maxEffectiveK
    bonusPhaseBytes := bonusPhaseBytes vocabSize batchSize maxEffectiveK
    modeledLivePeakBytes := peak
    allocatorMarginBytes := allocatorMargin peak
    reservationBytes := peak + allocatorMargin peak }

def planSpeculativeWorkspace : Except Raised SpeculativeMemoryPlan := do
  positiveInt "vocab_size" vocabSize
  positiveInt "configured_k" configuredK
  positiveInt "max_num_seqs" maxNumSeqs
  positiveInt "max_num_batched_tokens" maxNumBatchedTokens
  positiveInt "max_model_len" maxModelLen
  let maxEffectiveK := min configuredK (min (maxNumBatchedTokens - 1) (maxModelLen - 1))
  if maxEffectiveK = 0 then
    pure (emptyWorkspacePlan vocabSize configuredK maxNumSeqs maxNumBatchedTokens maxModelLen
      targetDtype draftDtype)
  else
    let batchSize := min maxNumSeqs (maxNumBatchedTokens / (maxEffectiveK + 1))
    pure (positiveWorkspacePlan vocabSize configuredK maxNumSeqs maxNumBatchedTokens maxModelLen
      targetDtype draftDtype batchSize maxEffectiveK)

end Plan

def speculativeRouteFitsPlan (plan : SpeculativeMemoryPlan) (batchSize effectiveK : Nat) : Bool :=
  if batchSize = 0 ∨ effectiveK = 0 then false
  else decide (batchSize ≤ plan.batchSize ∧ effectiveK ≤ plan.maxEffectiveK
    ∧ batchSize * effectiveK ≤ plan.batchSize * plan.maxEffectiveK
    ∧ batchSize * (effectiveK + 1) ≤ plan.verifierRows)

/-- `_strict_int` with `minimum=1`; the type check is the type. -/
def strictPositive (name : String) (value : Nat) : Except Raised Unit :=
  if value < 1 then throw (.valueError (name ++ " must be positive")) else pure ()

/-- `_canonical_dtype_for_itemsize`: the first candidate of that size. -/
def canonicalDtypeForItemsize (name : String) (itemsize : Nat) : Except Raised FloatingDtype := do
  strictPositive name itemsize
  let candidates : List FloatingDtype := [.float8, .float16, .float32, .float64]
  match candidates.find? fun dtype => dtype.itemsize = itemsize with
  | some dtype => pure dtype
  | none => throw (.speculativeMemoryPlanningError
      (s!"{name}={itemsize} has no supported canonical floating dtype"))

def planExactSpeculativeWorkspace (configuredPlan : SpeculativeMemoryPlan)
    (batchSize effectiveK : Nat) : Except Raised SpeculativeMemoryPlan := do
  strictPositive "batch_size" batchSize
  strictPositive "effective_k" effectiveK
  if ¬ speculativeRouteFitsPlan configuredPlan batchSize effectiveK then
    throw (.speculativeMemoryPlanningError
      "route geometry exceeds the configured speculative workspace")
  let target ← canonicalDtypeForItemsize "target_logits_itemsize"
    configuredPlan.targetLogitsItemsize
  let draft ← canonicalDtypeForItemsize "draft_logits_itemsize"
    configuredPlan.draftLogitsItemsize
  let exact ← planSpeculativeWorkspace configuredPlan.vocabSize effectiveK batchSize
    (batchSize * (effectiveK + 1)) (effectiveK + 1) target draft
  if exact.batchSize ≠ batchSize ∨ exact.maxEffectiveK ≠ effectiveK then
    throw (.runtimeError "exact workspace planner changed requested geometry")
  if configuredPlan.reservationBytes < exact.reservationBytes then
    throw (.speculativeMemoryPlanningError
      "exact route reservation exceeds the configured reservation")
  pure exact

def HexDigest : Type := { digest : String // digest.length = 64 }

theorem HexDigest.ne_empty (digest : HexDigest) : digest.val ≠ "" := by
  intro hempty
  have hlen := digest.property
  rw [hempty] at hlen
  exact absurd hlen (by decide)

/-- `sha256(repr(payload)).hexdigest()` on the payloads the planner and the routes hash. -/
structure WorkspaceDigests where
  plan : (numericalBackend : String) → SpeculativeMemoryPlan → HexDigest
  fallback : (liveBatchSize draftCatchupTokens : Nat) → HexDigest
  route : (liveBatchSize draftCatchupTokens : Nat) → DraftRouteKey → SpeculativeMemoryPlan →
    HexDigest

def speculativeWorkspaceFingerprint (digests : WorkspaceDigests)
    (exactWorkspace : Option SpeculativeMemoryPlan) (liveBatchSize draftCatchupTokens : Nat)
    (routeKey : Option DraftRouteKey) : Except Raised String := do
  match exactWorkspace with
  | none =>
    if routeKey.isSome then throw (.valueError "a fallback fingerprint cannot carry a route key")
    if draftCatchupTokens ≠ 0 then
      throw (.valueError "a fallback fingerprint cannot contain draft catch-up")
    pure (digests.fallback liveBatchSize draftCatchupTokens).val
  | some exact =>
    match routeKey with
    | none => throw (.valueError "a positive workspace fingerprint requires a route")
    | some key =>
      validateRouteKey key
      if key.effectiveK ≠ exact.maxEffectiveK then
        throw (.valueError "route K does not match exact workspace geometry")
      if key.batchBucket ≠ exact.batchSize then
        throw (.valueError "route batch bucket does not match workspace geometry")
      if ¬ (1 ≤ liveBatchSize ∧ liveBatchSize ≤ exact.batchSize) then
        throw (.valueError "live batch does not fit the workspace geometry")
      pure (digests.route liveBatchSize draftCatchupTokens key exact).val

/-- The part of `certify_speculative_workspace` that asks the memory plan, for a positive
geometry whose key was checked. -/
def exactCertificate (digests : WorkspaceDigests) (configured : SpeculativeMemoryPlan)
    (liveBatchSize draftCatchupTokens : Nat) (key : DraftRouteKey) :
    Except Raised WorkspaceCertificate := do
  let exact ← planExactSpeculativeWorkspace configured key.batchBucket key.effectiveK
  let fingerprint ← speculativeWorkspaceFingerprint digests (some exact) liveBatchSize
    draftCatchupTokens (some key)
  pure
    { modeledLivePeakBytes := exact.modeledLivePeakBytes
      reservationBytes := exact.reservationBytes
      workspaceFingerprint := fingerprint }

/-- The configured memory plan as step planning sees it. -/
def SpeculativeMemoryPlan.workspace (configured : SpeculativeMemoryPlan)
    (digests : WorkspaceDigests) (numericalBackend : String) : SpeculativeWorkspace where
  maxEffectiveK := configured.maxEffectiveK
  planFingerprint := (digests.plan numericalBackend configured).val
  exact := exactCertificate digests configured
  fallbackFingerprint := fun liveBatchSize => (digests.fallback liveBatchSize 0).val

/-- Two requests of eight tokens over sixteen token IDs, two proposals a step. -/
def SpeculativeMemoryPlan.sample : SpeculativeMemoryPlan :=
  positiveWorkspacePlan 16 2 2 8 8 .float16 .float16 2 2

def HexDigest.zeros : HexDigest :=
  ⟨"0000000000000000000000000000000000000000000000000000000000000000", by decide⟩

def WorkspaceDigests.sample : WorkspaceDigests where
  plan := fun _ _ => .zeros
  fallback := fun _ _ => .zeros
  route := fun _ _ _ _ => .zeros

end NanoVllm
