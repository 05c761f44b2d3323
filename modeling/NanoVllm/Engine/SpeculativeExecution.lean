/- module: NanoVllm/Engine/SpeculativeExecution
   layer: source
   source: nanovllm/engine/speculative_execution.py, target_logits, the all-greedy branch of execute
     and _host_results
   digest: The result row of an all-greedy verification, from the argmax tokens of the target. -/

import NanoVllm.Engine.ModelRunner
import NanoVllm.Engine.SpeculativeStep

set_option autoImplicit false
set_option relaxedAutoImplicit false

namespace NanoVllm

/-- `cumprod` of a row, behind the product `acc` of what is before it. -/
def cumprod : Nat → List Nat → List Nat
  | _, [] => []
  | acc, x :: xs => acc * x :: cumprod (acc * x) xs

/-- `counts` of `execute`: `(target_token_ids[:, :k] == proposals).cumprod(dim=1).sum(dim=1)`. -/
def matchedCount (targetTokenIds proposed : List Nat) : Nat :=
  (cumprod 1 (List.zipWith (fun target token => if target = token then 1 else 0) targetTokenIds
    proposed)).sum

def hostResult (seqId : Nat) (proposed : List Nat) (count terminal fallback : Nat) :
    SpecRowResult where
  seqId := seqId
  proposedTokenIds := proposed
  committedTokenIds := proposed.take count ++ [terminal]
  acceptedDraftTokens := count
  usedBonus := decide (count = proposed.length)
  residualNumericalFallbacks := fallback

/-- The row of `execute` when every request is greedy and the numerics are invariant. -/
def greedyResult (seqId : Nat) (targetTokenIds proposed : List Nat) : SpecRowResult :=
  hostResult seqId proposed (matchedCount targetTokenIds proposed)
    (targetTokenIds.getD (matchedCount targetTokenIds proposed) 0) 0

/-- The rows of `execute`, from the argmax tokens of all positions, row after row. -/
def greedyResults (k : Nat) (targetTokenIds batch : List Nat) (proposals : List (List Nat)) :
    List SpecRowResult :=
  (batch.zip proposals).zipIdx.map fun e =>
    greedyResult e.1.1 ((targetTokenIds.drop (e.2 * (k + 1))).take (k + 1)) e.1.2

section Execute

variable {V : Nat} {F : Type} [Field F] [LinearOrder F] [NeZero V]
  {capacity tokens slots width : Nat}

/-- `target_logits`: the logits of all proposed positions and of the bonus. -/
def targetLogits (kernels : StepKernels V F) (runner : TargetGraphs capacity tokens slots width)
    (blockSize k : Nat) (numericalMode : String) (rows : List DraftCycleRow)
    (proposals : List (List Nat)) : Except Raised (List (LogitRow V F)) := do
  let inputs ← prepareTargetLogits blockSize k rows proposals
  let hidden ← runModelAllPositions kernels.model runner inputs
  computeLogits kernels numericalMode inputs.context true hidden

/-- The all-greedy branch of `execute`, on the proposals of the draft. -/
def executeGreedy (kernels : StepKernels V F) (runner : TargetGraphs capacity tokens slots width)
    (blockSize k : Nat) (rows : List DraftCycleRow) (proposals : List (List Nat)) :
    Except Raised (List SpecRowResult) := do
  let logits ← targetLogits kernels runner blockSize k "invariant" rows proposals
  pure (greedyResults k (logits.map fun row => (argmax row).val) (rows.map DraftCycleRow.seqId)
    proposals)

end Execute

private theorem cumprod_zero_sum (xs : List Nat) : (cumprod 0 xs).sum = 0 := by
  induction xs with
  | nil => rfl
  | cons x xs ih =>
    unfold cumprod
    rw [List.sum_cons, Nat.zero_mul, ih]

theorem matchedCount_cons (target token : Nat) (targets proposed : List Nat) :
    matchedCount (target :: targets) (token :: proposed) =
      if target = token then matchedCount targets proposed + 1 else 0 := by
  unfold matchedCount
  rw [List.zipWith_cons_cons]
  by_cases htoken : target = token
  · rw [if_pos htoken, if_pos htoken]
    unfold cumprod
    rw [List.sum_cons, Nat.one_mul, Nat.add_comm]
    cases targets <;> cases proposed <;> rfl
  · rw [if_neg htoken, if_neg htoken]
    unfold cumprod
    rw [List.sum_cons, Nat.mul_zero, Nat.zero_add, cumprod_zero_sum]

end NanoVllm
