/- module: NanoVllm/Engine/SpeculativeRoutes
   layer: source
   source: nanovllm/engine/speculative_routes.py; verifier_route_ready and the shape loop of
     warm_verifier in nanovllm/engine/speculative_execution.py
   digest: The finite registry of draft routes, its lookup and the largest catch-up. -/

import NanoVllm.Engine.SpeculativeMemory
import Mathlib.Data.Finset.Dedup
import Mathlib.Data.List.Sort
import Mathlib.Data.Prod.Lex
import Mathlib.Data.String.Basic

set_option autoImplicit false
set_option relaxedAutoImplicit false

namespace NanoVllm

def maxCudaGraphBatchSize : Nat := 512

def maxDraftRouteEffectiveK : Nat := 32

def DraftExecutionMode.value : DraftExecutionMode → String
  | .eagerDynamic => "eager_dynamic"
  | .cudaGraph => "cuda_graph"

def DraftCatchupFamily.value : DraftCatchupFamily → String
  | .none => "none"
  | .pagedEagerDynamic => "paged_eager_dynamic_v1"

def DraftSamplerEnvelope.value : DraftSamplerEnvelope → String
  | .exactWorstCase => "exact_all_compositions_worst_case_v1"

/-- The tuple a `DraftRouteKey` is ordered by. -/
def DraftRouteKey.sortKey (key : DraftRouteKey) :
    String ×ₗ String ×ₗ Nat ×ₗ Nat ×ₗ String ×ₗ String :=
  toLex (key.schema, toLex (key.executionMode.value, toLex (key.batchBucket,
    toLex (key.effectiveK, toLex (key.catchupFamily.value, key.samplerEnvelope.value)))))

structure DraftWarmComponentKey where
  family : String
  batchBucket : Nat
  deriving DecidableEq, Repr

structure DraftWorkspaceCertificate where
  key : DraftRouteKey
  batchCapacity : Nat
  qBytes : Nat
  proposalIdBytes : Nat
  modeledDraftLiveBytes : Nat
  reservedPlanBytes : Nat
  planFingerprint : String
  deriving DecidableEq, Repr

structure DraftRouteEntry where
  key : DraftRouteKey
  workspace : DraftWorkspaceCertificate
  requiredWarmComponents : Finset DraftWarmComponentKey

/-- `DraftRouteAdmission(...)` with its `__post_init__`. -/
def DraftRouteAdmission.make (registrySchema planFingerprint : String)
    (batchSize catchupTokens : Nat) (routeKeys : List DraftRouteKey) :
    Except Raised DraftRouteAdmission :=
  if hschema : registrySchema = draftRouteSchema then
    if hbatch : 1 ≤ batchSize then
      if hprint : planFingerprint ≠ "" then
        if hkeys : routeKeys.map DraftRouteKey.effectiveK = List.range' 1 routeKeys.length then
          .ok
            { registrySchema := registrySchema
              planFingerprint := planFingerprint
              batchSize := batchSize
              catchupTokens := catchupTokens
              routeKeys := routeKeys
              schema_eq := hschema
              batchSize_pos := hbatch
              fingerprint_ne := hprint
              contiguous := hkeys }
        else .error (.valueError "draft admission route keys must cover contiguous K")
      else .error (.valueError "draft admission requires a plan fingerprint")
    else .error (.valueError "draft admission batch_size must be positive")
  else .error (.valueError "draft admission uses an unsupported registry schema")

structure DraftRouteRegistry where
  schema : String
  planFingerprint : String
  entries : List DraftRouteEntry
  warmedComponents : Finset DraftWarmComponentKey

namespace DraftRouteRegistry

variable (registry : DraftRouteRegistry)

def desiredWarmComponents : Finset DraftWarmComponentKey :=
  registry.entries.foldr (fun entry acc => entry.requiredWarmComponents ∪ acc) ∅

def postInit : Except Raised Unit := do
  if registry.schema ≠ draftRouteSchema then
    throw (.valueError "unsupported draft route registry schema")
  let keys := registry.entries.map DraftRouteEntry.key
  if ¬ keys.Nodup then throw (.valueError "draft route registry contains duplicate keys")
  if keys ≠ keys.insertionSort fun a b => a.sortKey ≤ b.sortKey then
    throw (.valueError "draft route registry entries must be sorted")
  if ¬ registry.warmedComponents ⊆ registry.desiredWarmComponents then
    throw (.valueError "draft registry names an unknown warmed component")

def routerAdmittedKeys : List DraftRouteKey := registry.entries.map DraftRouteEntry.key

/-- The condition of `workspace_certified_keys` on one entry. -/
def certified (entry : DraftRouteEntry) : Bool :=
  decide (entry.workspace.key = entry.key
    ∧ entry.workspace.planFingerprint = registry.planFingerprint
    ∧ entry.workspace.batchCapacity = entry.key.batchBucket
    ∧ entry.workspace.proposalIdBytes
      = entry.key.batchBucket * entry.key.effectiveK * int64Bytes
    ∧ entry.workspace.qBytes + entry.workspace.proposalIdBytes
      ≤ entry.workspace.modeledDraftLiveBytes
    ∧ entry.workspace.modeledDraftLiveBytes ≤ entry.workspace.reservedPlanBytes)

def workspaceCertifiedKeys : List DraftRouteKey :=
  (registry.entries.filter registry.certified).map DraftRouteEntry.key

def warmCaptureKeys : List DraftRouteKey :=
  (registry.entries.filter fun entry =>
    entry.requiredWarmComponents ⊆ registry.warmedComponents).map DraftRouteEntry.key

def ready (key : DraftRouteKey) : Bool :=
  decide (key ∈ registry.routerAdmittedKeys ∧ key ∈ registry.workspaceCertifiedKeys
    ∧ key ∈ registry.warmCaptureKeys)

def graphBuckets : List Nat :=
  ((registry.entries.filter fun entry => entry.key.executionMode = .cudaGraph).map
    fun entry => entry.key.batchBucket).dedup.insertionSort (· ≤ ·)

def withWarmedComponents (components : Finset DraftWarmComponentKey) :
    Except Raised DraftRouteRegistry := do
  if ¬ components ⊆ registry.desiredWarmComponents then
    throw (.valueError "cannot warm an undeclared draft route component")
  let warmed := { registry with warmedComponents := components }
  warmed.postInit
  pure warmed

def catchupFamilyOf (catchupTokens : Nat) : DraftCatchupFamily :=
  if catchupTokens = 0 then .none else .pagedEagerDynamic

def candidates (batchSize catchupTokens : Nat) : List DraftRouteKey :=
  registry.routerAdmittedKeys.filter fun key =>
    registry.ready key && decide (key.catchupFamily = catchupFamilyOf catchupTokens)
      && decide (batchSize ≤ key.batchBucket)

def resolve (batchSize catchupTokens : Nat) : Except Raised (Option DraftRouteAdmission) :=
  if batchSize < 1 then pure none
  else
    let found := registry.candidates batchSize catchupTokens
    match (found.map DraftRouteKey.batchBucket).min? with
    | none => pure none
    | some batchBucket =>
      let keys := (found.filter fun key => key.batchBucket = batchBucket).insertionSort
        fun a b => a.effectiveK ≤ b.effectiveK
      if keys.map DraftRouteKey.effectiveK ≠ List.range' 1 keys.length then
        throw (.runtimeError "ready draft routes do not cover contiguous K")
      else do
        let admission ← DraftRouteAdmission.make registry.schema registry.planFingerprint
          batchSize catchupTokens keys
        pure (some admission)

end DraftRouteRegistry

/-- `draft_graph_batch_buckets`, in increasing order. -/
def draftGraphBatchBuckets (batchCap : Nat) : List Nat :=
  if batchCap = 0 then []
  else
    (([1, 2, 4, 8].filter fun bucket => bucket ≤ batchCap)
      ++ List.range' 16 (batchCap / 16) 16 ++ [batchCap]).dedup.insertionSort (· ≤ ·)

section Build

variable (digests : WorkspaceDigests) (plan : SpeculativeMemoryPlan) (enforceEager : Bool)
variable (numericalBackend : String)

def routeKCap : Nat := min plan.maxEffectiveK maxDraftRouteEffectiveK

def routeBatchCap : Nat :=
  if enforceEager then plan.batchSize else min plan.batchSize maxCudaGraphBatchSize

def routeBatchBuckets : List Nat :=
  if enforceEager then [routeBatchCap plan enforceEager]
  else draftGraphBatchBuckets (routeBatchCap plan enforceEager)

def routeKey (batchBucket effectiveK : Nat) (family : DraftCatchupFamily) : DraftRouteKey where
  schema := draftRouteSchema
  executionMode := if enforceEager then .eagerDynamic else .cudaGraph
  batchBucket := batchBucket
  effectiveK := effectiveK
  catchupFamily := family
  samplerEnvelope := .exactWorstCase

/-- `decode_component`, `sampler_component` and, for a paged catch-up, `catchup_component`. -/
def routeComponents (batchBucket : Nat) (family : DraftCatchupFamily) :
    Finset DraftWarmComponentKey :=
  let batchCap := routeBatchCap plan enforceEager
  let decode : DraftWarmComponentKey :=
    { family := if enforceEager then "draft_decode_eager_dynamic" else "draft_decode_graph"
      batchBucket := batchBucket }
  let sampler : DraftWarmComponentKey :=
    { family := "exact_sampler_envelope"
      batchBucket := batchCap }
  let catchup : DraftWarmComponentKey :=
    { family := "draft_catchup_paged_dynamic"
      batchBucket := batchCap }
  match family with
  | .none => {decode, sampler}
  | .pagedEagerDynamic => {decode, sampler, catchup}

def routeEntry (batchBucket effectiveK : Nat) (family : DraftCatchupFamily) : DraftRouteEntry where
  key := routeKey enforceEager batchBucket effectiveK family
  workspace :=
    { key := routeKey enforceEager batchBucket effectiveK family
      batchCapacity := batchBucket
      qBytes := batchBucket * effectiveK * plan.vocabSize * fp32Bytes
      proposalIdBytes := batchBucket * effectiveK * int64Bytes
      modeledDraftLiveBytes := plan.draftPhaseBytes
      reservedPlanBytes := plan.reservationBytes
      planFingerprint := (digests.plan numericalBackend plan).val }
  requiredWarmComponents := routeComponents plan enforceEager batchBucket family

/-- The work of the smallest live batch of a bucket whose predecessor is `previousBucket`. -/
def minimumWork (previousBucket effectiveK : Nat) (family : DraftCatchupFamily) : Nat :=
  let minimumLiveBatch := previousBucket + 1
  let work := minimumLiveBatch * (effectiveK + 1)
  match family with
  | .none => work
  | .pagedEagerDynamic => work + 1

/-- The entries of one bucket: `effective_k` ascending, then the catch-up families in the
order of their definition. -/
def bucketEntries (previousBucket batchBucket : Nat) : List DraftRouteEntry :=
  (List.range' 1 (routeKCap plan)).flatMap fun effectiveK =>
    if plan.maxModelLen - 2 < effectiveK then []
    else
      ([DraftCatchupFamily.none, .pagedEagerDynamic].filter fun family =>
        minimumWork previousBucket effectiveK family ≤ plan.maxNumBatchedTokens).map
        (routeEntry digests plan enforceEager numericalBackend batchBucket effectiveK)

def registryEntries (previousBucket : Nat) : List Nat → List DraftRouteEntry
  | [] => []
  | batchBucket :: buckets =>
    bucketEntries digests plan enforceEager numericalBackend previousBucket batchBucket
      ++ registryEntries batchBucket buckets

def buildDraftRouteRegistry : Except Raised DraftRouteRegistry := do
  let registry : DraftRouteRegistry :=
    { schema := draftRouteSchema
      planFingerprint := (digests.plan numericalBackend plan).val
      entries :=
        if plan.batchSize = 0 ∨ plan.maxEffectiveK = 0 then []
        else
          (registryEntries digests plan enforceEager numericalBackend 0
            (routeBatchBuckets plan enforceEager)).insertionSort
            fun a b => a.key.sortKey ≤ b.key.sortKey
      warmedComponents := ∅ }
  registry.postInit
  pure registry

end Build

def nonNegative (name : String) (value : Int) : Except Raised Nat :=
  if value < 0 then .error (.valueError (name ++ " must be non-negative")) else .ok value.toNat

/-- The sorted candidates of `max_eligible_draft_catchup`. -/
def catchupCandidates (maxNumBatchedTokens maxModelLen batchCap : Nat) : List Nat :=
  let quotient := maxNumBatchedTokens / maxModelLen
  let remainder := maxNumBatchedTokens % maxModelLen
  [1, batchCap, min (max quotient 1) batchCap,
    min (max (quotient + if 0 < remainder then 1 else 0) 1) batchCap].dedup.insertionSort (· ≤ ·)

/-- The catch-up tokens of a batch, first component of `candidate`. -/
def catchupAggregate (maxNumBatchedTokens maxModelLen batchSize : Nat) : Nat :=
  let perRowCap := maxModelLen - 2
  let tokenBudgetCap : Int := maxNumBatchedTokens - 2 * batchSize
  (max (min tokenBudgetCap (batchSize * perRowCap)) 0).toNat

def betterCatchup (maxNumBatchedTokens maxModelLen : Nat) (best : Nat × Nat) (batchSize : Nat) :
    Nat × Nat :=
  let candidate := (catchupAggregate maxNumBatchedTokens maxModelLen batchSize, batchSize)
  if best.1 < candidate.1 then candidate else best

def maxEligibleDraftCatchup (maxNumBatchedTokens maxModelLen batchCap : Int) :
    Except Raised (Nat × Nat) := do
  let budget ← nonNegative "max_num_batched_tokens" maxNumBatchedTokens
  let modelLen ← nonNegative "max_model_len" maxModelLen
  let cap ← nonNegative "batch_cap" batchCap
  if cap = 0 ∨ modelLen = 0 then pure (0, 0)
  else pure ((catchupCandidates budget modelLen cap).foldl (betterCatchup budget modelLen) (0, 0))

def maxVerifyBatch : Nat := 4

def maxVerifyK : Nat := 4

/-- The guard of the shape loop of `warm_verifier`: the pool, the token budget and the model
length hold the shape. -/
def verifierShapeFits (blockSize numKvcacheBlocks maxNumBatchedTokens maxModelLen : Nat)
    (batch k : Nat) : Bool :=
  let blocksPerRow := (k + 1 + blockSize - 1) / blockSize
  decide (¬ (numKvcacheBlocks < batch * blocksPerRow
    ∨ maxNumBatchedTokens < batch * (2 * k + 1) ∨ maxModelLen < k + 1))

/-- `speculative_verifier_shapes` after a warm-up that raised nothing. -/
def verifierShapes (plan : SpeculativeMemoryPlan)
    (blockSize numKvcacheBlocks maxNumBatchedTokens maxModelLen : Nat) : List (Nat × Nat) :=
  let maxBatch := min maxVerifyBatch plan.batchSize
  let maxK := min maxVerifyK plan.maxEffectiveK
  (List.range' 1 maxBatch).flatMap fun batch =>
    ((List.range' 1 maxK).filter
      (verifierShapeFits blockSize numKvcacheBlocks maxNumBatchedTokens maxModelLen batch)).map
      fun k => (batch, k)

/-- `verifier_route_ready`: `matchesWarmup` is the ready flag together with the fingerprint and
workspace checks, which read no route. -/
def verifierRouteReady (matchesWarmup : Bool) (shapes : List (Nat × Nat)) (batch k : Nat) :
    Bool :=
  matchesWarmup && decide ((batch, k) ∈ shapes)

end NanoVllm
