/- module: NanoVllm/Engine/TargetCall
   layer: source
   source: nanovllm/engine/llm_engine.py, the model calls of _step_unlocked; nanovllm/engine/
     model_runner.py, the inputs of run; nanovllm/engine/speculative_execution.py, target_logits and
     sequential_target_probabilities; nanovllm/layers/attention.py, store_kvcache
   digest: The one call of the target model that an engine step makes, and the cache behind it. -/

import NanoVllm.Engine.LlmEngine
import NanoVllm.Layers.Attention

set_option autoImplicit false
set_option relaxedAutoImplicit false

namespace NanoVllm

/-- A call of the target model, with the state it is made in: `run` on the batch, or the
verification of a plan. -/
inductive TargetCall
  | run (batch : List Nat) (isPrefill : Bool) (s : State)
  | verify (plan : SpecStepPlan) (batch : List Nat) (s : State)

section Step

variable (cfg : Config)

/-- `_execute_speculative_verified` up to its model call. -/
def verifiedStart (answers : StepAnswers) (batch : List Nat)
    (rollback : Option (List DecodeScheduleRollbackRow)) : Call (Option SpecStepPlan) := do
  match ← liftExcept (verifiedAdmission answers) with
  | none => pure none
  | some admission =>
    let plan ← planSpeculativeStep cfg answers.workspace batch admission rollback
    if plan.usesSpeculation then
      prepareSpeculativeTargetWrites plan
      liftExcept answers.snapshotRng
      pure (some plan)
    else pure none

/-- The rest of `_execute_speculative_verified`. -/
def verifiedFinish (answers : StepAnswers) (plan : SpecStepPlan) : Call (List StreamOutput) := do
  let result ← liftExcept (answers.runSpeculative plan)
  let events ← commitSpeculative cfg plan result
  liftExcept answers.observe
  pure events

/-- The call of the target model that `executeStep` makes. -/
def executeTarget (answers : StepAnswers) (batch : List Nat) (isPrefill : Bool) (s : State) :
    Option TargetCall :=
  if isPrefill || !cfg.speculationEnabled then some (.run batch isPrefill s)
  else
    let rollback := captureDecodeScheduleRollback cfg s batch isPrefill
    if answers.verifierReady then
      match verifiedStart cfg answers batch rollback s with
      | .ok (some plan) t => some (.verify plan batch t)
      | .ok none t => some (.run batch isPrefill t)
      | .error _ _ => none
    else
      match executeSpeculativeShadow cfg answers batch rollback s with
      | .ok _ t => some (.run batch isPrefill t)
      | .error _ _ => none

def stepTarget (answers : StepAnswers) (s : State) : Option TargetCall :=
  match schedule cfg s with
  | .ok (batch, isPrefill) t => executeTarget cfg answers batch isPrefill t
  | .error _ _ => none

end Step

/-- The rows of a batch as `run` reads them. -/
def State.runnerRows (u : State) (batch : List Nat) : List RunnerRow :=
  batch.map fun x => .sequence (u.seqs x)

/-- The row that `_validate_speculative_step_plan` builds. -/
def State.cycleRow (s : State) (x : Nat) : DraftCycleRow where
  seqId := x
  tokenIds := (s.seqs x).tokenIds
  committedLen := (s.seqs x).numTokens
  targetCachedTokens := (s.seqs x).numCachedTokens
  draftCachedTokens := (s.seqs x).numDraftCachedTokens
  blockTable := (s.seqs x).blockTable

/-- The inputs of `sequential_target_probabilities`, one decode step for each proposal and one
for the bonus. -/
def prepareTargetSteps (blockSize k : Nat) (rows : List DraftCycleRow)
    (proposals : List (List Nat)) : Except Raised (List ModelInputs) := do
  let tail ← rows.mapM fun row => pyGet row.tokenIds (-1)
  (List.range (k + 1)).mapM fun step : Nat =>
    prepareDraftDecode blockSize rows
      (if step = 0 then tail else proposals.map fun drafted => drafted.getD (step - 1) 0) (step : Int)

/-- The inputs of a call, forward pass by forward pass. `sequential` tells the lane of
`execute` that a verification takes, `proposals` what the draft proposed. -/
def TargetCall.inputs (blockSize : Nat) (sequential : Bool) (proposals : List (List Nat)) :
    TargetCall → Except Raised (List ModelInputs)
  | .run batch isPrefill s => do
    let inputs ← if isPrefill then prepareRagged blockSize (s.runnerRows batch)
      else prepareDecode blockSize (s.runnerRows batch)
    pure [inputs]
  | .verify plan batch s =>
    let rows := batch.map s.cycleRow
    if sequential then prepareTargetSteps blockSize plan.effectiveK rows proposals
    else do
      let inputs ← prepareTargetLogits blockSize plan.effectiveK rows proposals
      pure [inputs]

def TargetCall.proposals (answers : StepAnswers) : TargetCall → Option (List (List Nat))
  | .run batch isPrefill _ => (answers.run batch isPrefill).toOption.map fun _ => []
  | .verify plan _ _ => (answers.runSpeculative plan).toOption.map fun result =>
    result.rows.map SpecRowResult.proposedTokenIds

section Cache

variable (cfg : Config)

def TargetCall.queries (sequential : Bool) (proposals : List (List Nat)) (call : TargetCall) :
    List (Library.Query Int Nat) :=
  match call.inputs cfg.kvcacheBlockSize sequential proposals with
  | .ok inputs => inputs.flatMap (ModelInputs.queries cfg.kvcacheBlockSize)
  | .error _ => []

def TargetCall.blankProposals : TargetCall → List (List Nat)
  | .run _ _ _ => []
  | .verify plan batch _ => batch.map fun _ => List.replicate plan.effectiveK 0

variable {κ : Type} (entry : List κ → Nat → κ) (answers : StepAnswers) (sequential : Bool)
  (torn cache : Int → κ)

/-- The cache behind a call: that of its queries, or, where it raised, anything at all in the
slots it was to fill. -/
def TargetCall.cacheAfter (call : TargetCall) : Int → κ :=
  match call.proposals answers with
  | some proposals => Library.pass entry cache (call.queries cfg sequential proposals)
  | none => fun slot =>
    if slot ∈ (call.queries cfg sequential call.blankProposals).map Library.Query.slot then torn slot
    else cache slot

def callCache (call : Option TargetCall) : Int → κ :=
  match call with
  | some call => call.cacheAfter cfg entry answers sequential torn cache
  | none => cache

def stepCache (s : State) : Int → κ :=
  callCache cfg entry answers sequential torn cache (stepTarget cfg answers s)

end Cache

end NanoVllm
