/- module: NanoVllm/Engine/SpeculativePolicy
   layer: source
   source: nanovllm/engine/speculative_policy.py
   digest: The adaptive choice of a proposal length from calibrated cells. -/

import NanoVllm.Engine.SpeculativeStep
import Mathlib.Data.List.Sort
import Mathlib.Logic.Function.Basic

set_option autoImplicit false
set_option relaxedAutoImplicit false

namespace NanoVllm

/-- `nanovllm/sampling_params.py`, without the request limits. -/
structure SamplingParams (F : Type) where
  temperature : F
  topK : Int
  topP : F

structure CalibrationKey where
  batchSize : Nat
  samplingFamily : String
  contextBucket : Nat
  catchupBucket : Nat
  k : Nat
  deriving DecidableEq, Repr

structure CalibrationCell (F : Type) where
  batchSize : Nat
  samplingFamily : String
  contextBucket : Nat
  catchupBucket : Nat
  k : Nat
  ordinaryMsPerToken : F
  cycleMs : F
  expectedCommittedTokens : F

def CalibrationCell.key {F : Type} (cell : CalibrationCell F) : CalibrationKey where
  batchSize := cell.batchSize
  samplingFamily := cell.samplingFamily
  contextBucket := cell.contextBucket
  catchupBucket := cell.catchupBucket
  k := cell.k

structure AdaptiveDecision (F : Type) where
  selectedK : Option Nat
  reason : String
  predictedSpeedup : Option F
  calibrationKey : Option CalibrationKey

/-- The dictionaries are functions to `Option`; the counter counts absent labels as zero. -/
structure AdaptiveSpeculativePolicy (F : Type) where
  cells : CalibrationKey → Option (CalibrationCell F)
  acceptedPrefixEma : CalibrationKey → Option F
  decisionCounts : String → Nat
  lastDecision : Option (AdaptiveDecision F)

def bitLength (n : Nat) : Nat := if n = 0 then 0 else Nat.log2 n + 1

def powerOfTwoBucket (value : Nat) : Nat := if value = 0 then 0 else 1 <<< bitLength (value - 1)

namespace AdaptiveSpeculativePolicy

/- The arithmetic is that of any number type with these operations: no law of them is used, so
the results hold for floating-point numbers too. -/
section Numbers

variable {F : Type} [OfScientific F] [NatCast F] [Add F] [Mul F] [Div F] [LT F] [DecidableLT F]
  [DecidableEq F]

def rowFamily (row : SamplingParams F) : String :=
  if row.topK ≠ -1 ∧ row.topP ≠ 1.0 then "top_k_top_p"
  else if row.topK ≠ -1 then "top_k"
  else if row.topP ≠ 1.0 then "top_p"
  else "temperature"

def samplingFamily (rows : List (SamplingParams F)) : String :=
  if rows.all fun row => row.temperature = 0.0 then "greedy"
  else
    match ((rows.filter fun row => row.temperature ≠ 0.0).map rowFamily).dedup with
    | [family] => family
    | _ => "mixed"

/-- The checks of `CalibrationCell.__post_init__` on numbers that are finite. -/
def cellChecks (cell : CalibrationCell F) : Except Raised Unit := do
  if cell.batchSize < 1 ∨ cell.contextBucket < 1 ∨ cell.k < 1 then
    throw (.valueError "batch_size, context_bucket, and k must be positive")
  if cell.samplingFamily = "" then
    throw (.valueError "sampling_family must be a non-empty string")
  if ¬ (0.0 : F) < cell.ordinaryMsPerToken then
    throw (.valueError "ordinary_ms_per_token must be finite and positive")
  if ¬ (0.0 : F) < cell.cycleMs then
    throw (.valueError "cycle_ms must be finite and positive")
  if ¬ (0.0 : F) < cell.expectedCommittedTokens then
    throw (.valueError "expected_committed_tokens must be finite and positive")
  if ((cell.k + 1 : Nat) : F) < cell.expectedCommittedTokens then
    throw (.valueError "expected committed tokens cannot exceed K+1")

def loadCells : List (CalibrationCell F) → (CalibrationKey → Option (CalibrationCell F)) →
    Except Raised (CalibrationKey → Option (CalibrationCell F))
  | [], loaded => pure loaded
  | cell :: cells, loaded => do
    cellChecks cell
    if (loaded cell.key).isSome then throw (.valueError "duplicate speculative calibration cell")
    loadCells cells (Function.update loaded cell.key (some cell))

def load (cells : List (CalibrationCell F)) : Except Raised (AdaptiveSpeculativePolicy F) := do
  let loaded ← loadCells cells fun _ => none
  if cells = [] then throw (.valueError "adaptive calibration must contain at least one cell")
  pure
    { cells := loaded
      acceptedPrefixEma := fun _ => none
      decisionCounts := fun _ => 0
      lastDecision := none }

variable (policy : AdaptiveSpeculativePolicy F)

def record (decision : AdaptiveDecision F) :
    AdaptiveDecision F × AdaptiveSpeculativePolicy F :=
  let label := match decision.selectedK with
    | some k => s!"chosen_k_{k}"
    | none => "bypass_" ++ decision.reason
  (decision,
    { policy with
      decisionCounts := Function.update policy.decisionCounts label
        (policy.decisionCounts label + 1)
      lastDecision := some decision })

def bypass (reason : String) (speedup : Option F) (key : Option CalibrationKey) :
    AdaptiveDecision F where
  selectedK := none
  reason := reason
  predictedSpeedup := speedup
  calibrationKey := key

/-- One calibrated candidate of `choose`: its speed-up, K and key. -/
def candidate (key : CalibrationKey) : Option (F × CalibrationKey) :=
  (policy.cells key).map fun cell =>
    let expectedCommits := match policy.acceptedPrefixEma key with
      | some observed => (if ((key.k : Nat) : F) < observed then ((key.k : Nat) : F) else observed)
          + 1.0
      | none => cell.expectedCommittedTokens
    let speculativeMsPerToken := cell.cycleMs / expectedCommits
    (cell.ordinaryMsPerToken / speculativeMsPerToken, key)

/-- `max` of the candidates: by speed-up, then by K, which tells them apart. -/
def best : List (F × CalibrationKey) → Option (F × CalibrationKey)
  | [] => none
  | first :: rest => some (rest.foldl (fun top item =>
      if top.1 < item.1 ∨ top.1 = item.1 ∧ top.2.k < item.2.k then item else top) first)

variable (rows : List (Sequence × SamplingParams F)) (candidateKs : List Nat)
variable (catchupTokens : Nat) (numericalMode : String) (maxModelLen maxNumBatchedTokens : Nat)

def legalKs : List Nat :=
  let requestCap := minOver (fun row => row.1.maxTokens - row.1.numCompletionTokens - 1) rows
  let modelCap := minOver (fun row => maxModelLen - row.1.numTokens) rows
  let budgetCap := (maxNumBatchedTokens - catchupTokens) / rows.length - 1
  let legalCap := min (candidateKs.foldr max 0) (min requestCap (min modelCap budgetCap))
  candidateKs.filter fun k => k ≤ legalCap

def keyOf (k : Nat) : CalibrationKey where
  batchSize := rows.length
  samplingFamily := samplingFamily (rows.map Prod.snd)
  contextBucket := powerOfTwoBucket ((rows.map fun row => row.1.numTokens).foldr max 0)
  catchupBucket := powerOfTwoBucket catchupTokens
  k := k

def decision : AdaptiveDecision F :=
  let candidateKs := candidateKs.dedup.insertionSort (· ≤ ·)
  if rows = [] ∨ candidateKs = [] then bypass "route_unavailable" none none
  else if samplingFamily (rows.map Prod.snd) = "greedy" ∧ numericalMode ≠ "invariant" then
    bypass "fast_greedy_sequential_verifier" none none
  else
    let legal := legalKs rows candidateKs catchupTokens maxModelLen maxNumBatchedTokens
    if legal = [] then bypass "tail_or_budget" none none
    else
      match best (legal.filterMap fun k => policy.candidate (keyOf rows catchupTokens k)) with
      | none => bypass "uncalibrated_route" none none
      | some (speedup, key) =>
        if speedup < 1.10 then bypass "below_10_percent_gate" (some speedup) (some key)
        else
          { selectedK := some key.k
            reason := "selected"
            predictedSpeedup := some speedup
            calibrationKey := some key }

def choose : AdaptiveDecision F × AdaptiveSpeculativePolicy F :=
  policy.record (policy.decision rows candidateKs catchupTokens numericalMode maxModelLen
    maxNumBatchedTokens)

def observe (decision : AdaptiveDecision F) (result : SpecExecutionResult) :
    AdaptiveSpeculativePolicy F :=
  match decision.selectedK, decision.calibrationKey with
  | some _, some key =>
    if result.rows = [] then policy
    else
      let observed := (((result.rows.map fun row => row.acceptedDraftTokens).sum : Nat) : F)
        / ((result.rows.length : Nat) : F)
      let average := match policy.acceptedPrefixEma key with
        | none => observed
        | some previous => previous * 0.9 + observed * 0.1
      { policy with
        acceptedPrefixEma := Function.update policy.acceptedPrefixEma key (some average) }
  | _, _ => policy

end Numbers

end AdaptiveSpeculativePolicy

end NanoVllm
