/- module: NanoVllm/Engine/SpeculativePlan
   layer: source
   source: nanovllm/engine/speculative_plan.py, DraftRouteKey and DraftRouteAdmission of
     nanovllm/engine/speculative_routes.py
   digest: Immutable row snapshots, the effective proposal length and the step plan. -/

import Mathlib.Algebra.Order.Ring.Nat
import NanoVllm.Engine.Sequence

set_option autoImplicit false
set_option relaxedAutoImplicit false

namespace NanoVllm

inductive DraftExecutionMode
  | eagerDynamic | cudaGraph
  deriving DecidableEq, Repr

inductive DraftCatchupFamily
  | none | pagedEagerDynamic
  deriving DecidableEq, Repr

inductive DraftSamplerEnvelope
  | exactWorstCase
  deriving DecidableEq, Repr

def draftRouteSchema : String := "draft-discard-v2-lm-head"

structure DraftRouteKey where
  schema : String
  executionMode : DraftExecutionMode
  batchBucket : Nat
  effectiveK : Nat
  catchupFamily : DraftCatchupFamily
  samplerEnvelope : DraftSamplerEnvelope
  deriving DecidableEq, Repr

/-- The fields after `routeKeys` are the checks of `__post_init__`. -/
structure DraftRouteAdmission where
  registrySchema : String
  planFingerprint : String
  batchSize : Nat
  catchupTokens : Nat
  routeKeys : List DraftRouteKey
  schema_eq : registrySchema = draftRouteSchema
  batchSize_pos : 1 ≤ batchSize
  fingerprint_ne : planFingerprint ≠ ""
  contiguous : routeKeys.map DraftRouteKey.effectiveK = List.range' 1 routeKeys.length

namespace DraftRouteAdmission

def maxEffectiveK (a : DraftRouteAdmission) : Nat := a.routeKeys.length

def keyFor (a : DraftRouteAdmission) (effectiveK : Nat) : Option DraftRouteKey :=
  if 1 ≤ effectiveK ∧ effectiveK ≤ a.routeKeys.length then a.routeKeys[effectiveK - 1]? else none

end DraftRouteAdmission

structure SpecPlanRow where
  seqId : Nat
  committedTokens : Nat
  targetCachedTokens : Nat
  draftCachedTokens : Nat
  remainingCompletionTokens : Nat
  modelPositionHeadroom : Nat
  highestDraftWritePosition : Option Nat
  highestTargetWritePosition : Option Nat
  blockTable : List Nat
  deriving DecidableEq, Repr

/-- `SpecPlanRow.__post_init__`; the integer and tuple checks are the field types. -/
def SpecPlanRow.postInit (row : SpecPlanRow) : Except Raised Unit := do
  if row.committedTokens < 1 then
    throw (.valueError "committed_tokens must be positive")
  if row.committedTokens < row.targetCachedTokens then
    throw (.valueError "target cache coverage exceeds committed tokens")
  if row.targetCachedTokens < row.draftCachedTokens then
    throw (.valueError "draft cache coverage exceeds target cache coverage")

structure SpecStepPlan where
  cycleId : Nat
  rows : List SpecPlanRow
  configuredK : Nat
  workspaceRouteCap : Nat
  effectiveK : Nat
  routeKey : Option DraftRouteKey
  draftCatchupTokens : Nat
  draftQueryTokens : Nat
  targetQueryTokens : Nat
  totalModelPositions : Nat
  modeledLivePeakBytes : Nat
  reservationBytes : Nat
  workspaceFingerprint : String
  bypassReason : Option String
  deriving DecidableEq, Repr

def SpecStepPlan.usesSpeculation (plan : SpecStepPlan) : Bool := decide (0 < plan.effectiveK)

def draftCatchupTokens (rows : List SpecPlanRow) : Nat :=
  (rows.map fun row => row.targetCachedTokens - row.draftCachedTokens).sum

/-- `max(floor((M-C-B)/(2B)), 0)`, and zero for an empty batch. -/
def speculativeKBudget (maxNumBatchedTokens batchSize catchup : Nat) : Nat :=
  if batchSize = 0 then 0
  else (maxNumBatchedTokens - catchup - batchSize) / (2 * batchSize)

/-- `min(f(row) for row in rows)` of a non-empty tuple. -/
def minOver {α : Type} (f : α → Nat) : List α → Nat
  | [] => 0
  | [a] => f a
  | a :: b :: rest => min (f a) (minOver f (b :: rest))

def deriveSpeculativeEffectiveK (rows : List SpecPlanRow)
    (configuredK maxNumBatchedTokens workspaceRouteCap : Nat) : Nat :=
  if rows = [] then 0
  else
    let batchSize := rows.length
    let catchup := draftCatchupTokens rows
    let completionCap := minOver (fun row => row.remainingCompletionTokens - 1) rows
    let modelPositionCap := minOver SpecPlanRow.modelPositionHeadroom rows
    let verifierCap := maxNumBatchedTokens / batchSize - 1
    let aggregateCap := speculativeKBudget maxNumBatchedTokens batchSize catchup
    min configuredK (min completionCap (min modelPositionCap
      (min verifierCap (min aggregateCap workspaceRouteCap))))

def validateRouteKey (key : DraftRouteKey) : Except Raised Unit := do
  if key.schema ≠ draftRouteSchema then
    throw (.valueError "route_key uses an unsupported schema")
  if key.batchBucket < 1 then throw (.valueError "route_key.batch_bucket must be positive")
  if key.effectiveK < 1 then throw (.valueError "route_key.effective_k must be positive")

structure WorkspaceCertificate where
  modeledLivePeakBytes : Nat
  reservationBytes : Nat
  workspaceFingerprint : String
  deriving DecidableEq, Repr

/-- The configured `SpeculativeMemoryPlan`, seen through the functions planning
calls: `exact` is `plan_exact_speculative_workspace` with the fingerprint of the
live geometry, `fallbackFingerprint` the one of an ordinary decode. -/
structure SpeculativeWorkspace where
  maxEffectiveK : Nat
  planFingerprint : String
  exact : (liveBatchSize catchup : Nat) → DraftRouteKey → Except Raised WorkspaceCertificate
  fallbackFingerprint : Nat → String

def certifySpeculativeWorkspace (workspace : SpeculativeWorkspace)
    (liveBatchSize catchup effectiveK : Nat) (key : DraftRouteKey) :
    Except Raised WorkspaceCertificate := do
  if liveBatchSize = 0 then throw (.valueError "positive certificates require a live batch")
  validateRouteKey key
  if key.effectiveK ≠ effectiveK then throw (.valueError "route K does not match effective_k")
  if key.batchBucket < liveBatchSize then
    throw (.valueError "route batch bucket is smaller than the live batch")
  let expected := if catchup = 0 then DraftCatchupFamily.none
    else DraftCatchupFamily.pagedEagerDynamic
  if key.catchupFamily ≠ expected then
    throw (.valueError "route catch-up family does not match cycle geometry")
  workspace.exact liveBatchSize catchup key

/-- The row checks of `SpecStepPlan.__post_init__` for a positive plan. -/
def SpecPlanRow.positiveCheck (effectiveK : Nat) (row : SpecPlanRow) : Except Raised Unit := do
  row.postInit
  if row.targetCachedTokens ≠ row.committedTokens - 1 then
    throw (.valueError "positive plans require pure decode cache coverage")
  if row.remainingCompletionTokens ≤ effectiveK then
    throw (.valueError "proposal and bonus exceed request headroom")
  if row.modelPositionHeadroom < effectiveK then
    throw (.valueError "target verification exceeds model headroom")
  if row.highestDraftWritePosition ≠ some (row.committedTokens + effectiveK - 2)
      ∨ row.highestTargetWritePosition ≠ some (row.committedTokens + effectiveK - 1) then
    throw (.valueError "speculative write positions do not match plan geometry")

def SpecStepPlan.postInit (plan : SpecStepPlan) : Except Raised Unit := do
  if ¬ (plan.rows.map SpecPlanRow.seqId).Nodup then
    throw (.valueError "speculative plan rows must have unique sequence IDs")
  if min plan.configuredK plan.workspaceRouteCap < plan.effectiveK then
    throw (.valueError "effective_k exceeds configured/workspace route cap")
  let batchSize := plan.rows.length
  if plan.effectiveK = 0 then
    if plan.routeKey.isSome then throw (.valueError "fallback plans cannot carry a route key")
    if plan.bypassReason = none ∨ plan.bypassReason = some "" then
      throw (.valueError "fallback plans require a bypass reason")
    if plan.draftCatchupTokens ≠ 0 ∨ plan.draftQueryTokens ≠ 0 then
      throw (.valueError "fallback plans cannot contain draft work")
    if plan.targetQueryTokens ≠ batchSize then
      throw (.valueError "fallback target work must equal batch size")
    if plan.totalModelPositions ≠ batchSize then
      throw (.valueError "fallback total work must equal batch size")
    if plan.modeledLivePeakBytes ≠ 0 ∨ plan.reservationBytes ≠ 0 then
      throw (.valueError "fallback plans cannot reserve speculative bytes")
    if plan.rows.any fun row =>
        row.highestDraftWritePosition.isSome || row.highestTargetWritePosition.isSome then
      throw (.valueError "fallback plans cannot name speculative writes")
  else
    if plan.rows = [] then throw (.valueError "positive speculative plans require rows")
    if plan.bypassReason.isSome then
      throw (.valueError "positive speculative plans cannot have a bypass reason")
    match plan.routeKey with
    | none => throw (.valueError "positive speculative plans require a route key")
    | some key =>
      validateRouteKey key
      if key.effectiveK ≠ plan.effectiveK then
        throw (.valueError "route K does not match plan effective_k")
      if key.batchBucket < batchSize then
        throw (.valueError "route batch bucket is smaller than the live batch")
    plan.rows.forM (SpecPlanRow.positiveCheck plan.effectiveK)
    if plan.draftCatchupTokens ≠ NanoVllm.draftCatchupTokens plan.rows then
      throw (.valueError "draft catch-up count does not match row coverage")
    if plan.draftQueryTokens ≠ batchSize * plan.effectiveK then
      throw (.valueError "draft query count does not match B*K")
    if plan.targetQueryTokens ≠ batchSize * (plan.effectiveK + 1) then
      throw (.valueError "target query count does not match B*(K+1)")
    if plan.totalModelPositions ≠
        plan.draftCatchupTokens + plan.draftQueryTokens + plan.targetQueryTokens then
      throw (.valueError "total model-position count is inconsistent")
    if plan.modeledLivePeakBytes = 0 then
      throw (.valueError "positive plans require a modeled live peak")
    if plan.reservationBytes < plan.modeledLivePeakBytes then
      throw (.valueError "workspace reservation is smaller than its live peak")

def SpecPlanRow.withoutWrites (row : SpecPlanRow) : SpecPlanRow :=
  { row with highestDraftWritePosition := none, highestTargetWritePosition := none }

def SpecPlanRow.withWrites (effectiveK : Nat) (row : SpecPlanRow) : SpecPlanRow :=
  { row with
    highestDraftWritePosition := some (row.committedTokens + effectiveK - 2)
    highestTargetWritePosition := some (row.committedTokens + effectiveK - 1) }

/-- The headroom loop of `build_speculative_step_plan`. -/
def SpecPlanRow.headroomCheck (effectiveK : Nat) (row : SpecPlanRow) : Except Raised Unit := do
  if row.remainingCompletionTokens < effectiveK + 1 then
    let id := row.seqId
    throw (.speculativeMemoryPlanningError s!"sequence {id} lacks K+1 completion headroom")
  if row.modelPositionHeadroom < effectiveK then
    let id := row.seqId
    throw (.speculativeMemoryPlanningError s!"sequence {id} lacks target position headroom")

/-- `build_speculative_step_plan` for `effective_k = 0`. -/
def buildFallbackPlan (workspace : SpeculativeWorkspace) (cycleId : Nat) (rows : List SpecPlanRow)
    (configuredK workspaceRouteCap : Nat) (routeKey : Option DraftRouteKey)
    (bypassReason : Option String) : Except Raised SpecStepPlan := do
  if routeKey.isSome then throw (.valueError "fallback plans cannot carry a route key")
  let plan : SpecStepPlan :=
    { cycleId := cycleId
      rows := rows.map SpecPlanRow.withoutWrites
      configuredK := configuredK
      workspaceRouteCap := workspaceRouteCap
      effectiveK := 0
      routeKey := none
      draftCatchupTokens := 0
      draftQueryTokens := 0
      targetQueryTokens := rows.length
      totalModelPositions := rows.length
      modeledLivePeakBytes := 0
      reservationBytes := 0
      workspaceFingerprint := workspace.fallbackFingerprint rows.length
      bypassReason := bypassReason }
  plan.postInit
  pure plan

/-- `build_speculative_step_plan` for a positive `effective_k`. -/
def buildPositivePlan (workspace : SpeculativeWorkspace) (cycleId : Nat) (rows : List SpecPlanRow)
    (configuredK workspaceRouteCap effectiveK maxNumBatchedTokens : Nat)
    (routeKey : Option DraftRouteKey) (bypassReason : Option String) :
    Except Raised SpecStepPlan := do
  if rows = [] then throw (.valueError "positive speculative plans require rows")
  match routeKey with
  | none => throw (.valueError "positive speculative plans require a route key")
  | some key =>
    validateRouteKey key
    if key.effectiveK ≠ effectiveK then throw (.valueError "route K does not match effective_k")
    if key.batchBucket < rows.length then
      throw (.valueError "route batch bucket is smaller than the live batch")
    if bypassReason.isSome then
      throw (.valueError "positive speculative plans cannot have a bypass reason")
    let catchup := draftCatchupTokens rows
    let draftQueries := rows.length * effectiveK
    let targetQueries := rows.length * (effectiveK + 1)
    let totalPositions := catchup + draftQueries + targetQueries
    if maxNumBatchedTokens < targetQueries then
      throw (.speculativeMemoryPlanningError
        "target verifier rows exceed max_num_batched_tokens")
    if maxNumBatchedTokens < totalPositions then
      throw (.speculativeMemoryPlanningError
        "aggregate speculative work exceeds max_num_batched_tokens")
    rows.forM (SpecPlanRow.headroomCheck effectiveK)
    let certificate ← certifySpeculativeWorkspace workspace rows.length catchup effectiveK key
    let plan : SpecStepPlan :=
      { cycleId := cycleId
        rows := rows.map (SpecPlanRow.withWrites effectiveK)
        configuredK := configuredK
        workspaceRouteCap := workspaceRouteCap
        effectiveK := effectiveK
        routeKey := some key
        draftCatchupTokens := catchup
        draftQueryTokens := draftQueries
        targetQueryTokens := targetQueries
        totalModelPositions := totalPositions
        modeledLivePeakBytes := certificate.modeledLivePeakBytes
        reservationBytes := certificate.reservationBytes
        workspaceFingerprint := certificate.workspaceFingerprint
        bypassReason := none }
    plan.postInit
    pure plan

def buildSpeculativeStepPlan (workspace : SpeculativeWorkspace) (cycleId : Nat)
    (rows : List SpecPlanRow) (configuredK workspaceRouteCap effectiveK maxNumBatchedTokens : Nat)
    (routeKey : Option DraftRouteKey) (bypassReason : Option String) :
    Except Raised SpecStepPlan := do
  if ¬ (rows.map SpecPlanRow.seqId).Nodup then
    throw (.valueError "speculative plan rows must have unique sequence IDs")
  if workspace.maxEffectiveK < workspaceRouteCap then
    throw (.speculativeMemoryPlanningError
      "workspace route cap exceeds the configured reservation")
  if min configuredK workspaceRouteCap < effectiveK then
    throw (.speculativeMemoryPlanningError
      "effective_k exceeds configured/workspace route cap")
  if effectiveK = 0 then
    buildFallbackPlan workspace cycleId rows configuredK workspaceRouteCap routeKey bypassReason
  else
    buildPositivePlan workspace cycleId rows configuredK workspaceRouteCap effectiveK
      maxNumBatchedTokens routeKey bypassReason

end NanoVllm
