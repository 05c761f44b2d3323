/- module: NanoVllm/Engine/LlmEngine
   layer: source
   source: nanovllm/engine/llm_engine.py, _admit_request and _step_unlocked
   digest: Request admission, one engine step and the handler of a failed step. -/

import NanoVllm.Engine.Scheduler
import NanoVllm.Engine.SpeculativeStep

set_option autoImplicit false
set_option relaxedAutoImplicit false

namespace NanoVllm

section Admit

variable (cfg : Config)

def tokenCheck (token : Nat) : Except Raised Unit := do
  match cfg.vocabSize with
  | none => pure ()
  | some v =>
    if v ≤ token then
      throw (.valueError s!"prompt token id {token} is outside the model vocabulary [0, {v})")

/-- The checks of `_admit_request` on a tokenized prompt. -/
def admissionChecks (promptIds : List Nat) (maxTokens : Nat) : Except Raised Unit := do
  if promptIds = [] then throw (.valueError "prompt must contain at least one token")
  promptIds.forM (tokenCheck cfg)
  let length := promptIds.length
  let limit := cfg.maxModelLen
  if limit < length then
    throw (.valueError s!"prompt length {length} exceeds max_model_len {limit}")
  let processed := length + maxTokens - 1
  if limit < processed then
    throw (.valueError (s!"prompt length {length} + max_tokens {maxTokens} - 1 = {processed} "
      ++ s!"model-processed tokens exceeds max_model_len {limit}; "
      ++ "reduce max_tokens or raise max_model_len"))
  let needed := (processed + cfg.kvcacheBlockSize - 1) / cfg.kvcacheBlockSize
  let blocks := cfg.numKvcacheBlocks
  if blocks < needed then
    throw (.valueError (s!"request needs {needed} KV-cache blocks for {processed} "
      ++ s!"model-processed tokens but the pool has only {blocks}; reduce prompt length or "
      ++ "max_tokens, or raise gpu_memory_utilization"))

/-- A request as the caller gives it. `prompt` is a list of token ids or the outcome of the
tokenizer on a text, `sampling` the outcome of the checks of `SamplingParams` on the fields
that only the sampler reads. -/
structure Request where
  prompt : Except Raised (List Nat)
  sampling : Except Raised Unit
  maxTokens : Nat
  ignoreEos : Bool

def Request.samplingChecks (request : Request) : Except Raised Unit := do
  request.sampling
  if request.maxTokens < 1 then throw (.valueError "max_tokens must be >= 1")

/-- `_admit_request`; it returns the identifier of the new sequence. -/
def admitRequest (request : Request) : Call Nat := do
  requireCapacity cfg 1
  liftExcept request.samplingChecks
  let promptIds ← liftExcept request.prompt
  liftExcept (admissionChecks cfg promptIds request.maxTokens)
  add cfg promptIds request.maxTokens request.ignoreEos

end Admit

/-- What one step is told by the code around the scheduler: the route registry, the
verifier's readiness, the adaptive policy, the random generator and the model runner. Each
of them may raise. `runDiscard` stands for the draft kernels together with the host check of
their result. -/
structure StepAnswers where
  workspace : SpeculativeWorkspace
  verifierReady : Bool
  resolveRoutes : Except Raised (Option DraftRouteAdmission)
  verifierRouteReady : Nat → Bool
  choose : Option (Except Raised (Option Nat))
  snapshotRng : Except Raised Unit
  runSpeculative : SpecStepPlan → Except Raised SpecExecutionResult
  observe : Except Raised Unit
  runDiscard : SpecStepPlan → Except Raised (List (Nat × Nat))
  run : List Nat → Bool → Except Raised (List Nat)

structure StepOutput where
  events : List StreamOutput
  finished : List Nat
  numPrefillTokens : Nat
  numDecodeTokens : Nat
  deriving Repr

/-- `dataclasses.replace(admission, route_keys=keys)`, which runs `__post_init__` again. -/
def DraftRouteAdmission.replaceKeys (a : DraftRouteAdmission) (keys : List DraftRouteKey) :
    Except Raised DraftRouteAdmission :=
  if h : keys.map DraftRouteKey.effectiveK = List.range' 1 keys.length then
    .ok { a with
      routeKeys := keys
      contiguous := h }
  else .error (.valueError "draft admission route keys must cover contiguous K")

section Step

variable (cfg : Config)

/-- The admission `_execute_speculative_verified` plans with; `none` when the policy chose
an ordinary step. -/
def verifiedAdmission (answers : StepAnswers) :
    Except Raised (Option (Option DraftRouteAdmission)) := do
  let resolved ← answers.resolveRoutes
  let ready ← resolved.mapM fun a =>
    a.replaceKeys (a.routeKeys.filter fun key => answers.verifierRouteReady key.effectiveK)
  match answers.choose with
  | none => pure (some ready)
  | some decision =>
    match ← decision, ready with
    | none, _ => pure none
    | some _, none => throw (.external "replace() should be called on dataclass instances")
    | some k, some a =>
      let truncated ← a.replaceKeys (a.routeKeys.take k)
      pure (some (some truncated))

/-- `_execute_speculative_verified`; `none` asks for an ordinary step. The restore of the
random generator after a failure is outside the scheduler's state. -/
def executeSpeculativeVerified (answers : StepAnswers) (batch : List Nat)
    (rollback : Option (List DecodeScheduleRollbackRow)) : Call (Option (List StreamOutput)) := do
  match ← liftExcept (verifiedAdmission answers) with
  | none => pure none
  | some admission =>
    let plan ← planSpeculativeStep cfg answers.workspace batch admission rollback
    if plan.usesSpeculation then
      prepareSpeculativeTargetWrites plan
      liftExcept answers.snapshotRng
      let result ← liftExcept (answers.runSpeculative plan)
      let events ← commitSpeculative cfg plan result
      liftExcept answers.observe
      pure (some events)
    else pure none

/-- `_execute_speculative_shadow`; it returns the plan whose coverage it staged. -/
def executeSpeculativeShadow (answers : StepAnswers) (batch : List Nat)
    (rollback : Option (List DecodeScheduleRollbackRow)) : Call (Option SpecStepPlan) := do
  let admission ← liftExcept answers.resolveRoutes
  let plan ← planSpeculativeStep cfg answers.workspace batch admission rollback
  if plan.usesSpeculation then
    let coverage ← liftExcept (answers.runDiscard plan)
    handoffDraftDiscard plan
    stageDraftCoverage plan batch coverage
    pure (some plan)
  else pure none

/-- The speculative part of a step: the events of a verified cycle, or the plan of a
shadow cycle. A prefill step, or one without speculation, has neither. -/
def executeSpeculation (answers : StepAnswers) (batch : List Nat) (isPrefill : Bool)
    (rollback : Option (List DecodeScheduleRollbackRow)) :
    Call (Option (List StreamOutput) × Option SpecStepPlan) :=
  if isPrefill || !cfg.speculationEnabled then pure (none, none)
  else if answers.verifierReady then do
    let events ← executeSpeculativeVerified cfg answers batch rollback
    pure (events, none)
  else do
    let draftCycle ← executeSpeculativeShadow cfg answers batch rollback
    pure (none, draftCycle)

def quietly {α : Type} (cleanup : Call α) : Call Unit :=
  tryCatch (do let _ ← cleanup) fun _ => pure ()

def recoverStep (draftCycle : Option SpecStepPlan)
    (rollback : Option (List DecodeScheduleRollbackRow)) : Call Unit := do
  let s ← get
  if s.activeSpecTransaction.isSome then quietly (abortSpeculativeStep cfg)
  else
    match draftCycle with
    | none => pure ()
    | some plan =>
      quietly (rollbackDraftDiscard plan)
      quietly (abortDraftCoverage plan)
    match rollback with
    | none => pure ()
    | some rows => quietly (rollbackFailedDecodeSchedule cfg rows)

/-- The step after `schedule` returned `batch`. -/
def executeStep (answers : StepAnswers) (batch : List Nat) (isPrefill : Bool) :
    Call (List StreamOutput) := do
  let s ← get
  let rollback := if isPrefill || !cfg.speculationEnabled then none
    else captureDecodeScheduleRollback cfg s batch isPrefill
  let (events, draftCycle) ← tryCatch (executeSpeculation cfg answers batch isPrefill rollback)
    fun e => do
      recoverStep cfg none rollback
      throw e
  match events with
  | some events => pure events
  | none =>
    tryCatch
      (do
        let tokenIds ← liftExcept (answers.run batch isPrefill)
        postprocess cfg batch tokenIds)
      fun e => do
        recoverStep cfg draftCycle rollback
        throw e

def stepUnlocked (answers : StepAnswers) : Call StepOutput := do
  let (batch, isPrefill) ← schedule cfg
  let s ← get
  let events ← executeStep cfg answers batch isPrefill
  let t ← get
  pure
    { events := events
      finished := batch.filter fun x => (t.seqs x).status = .finished
      numPrefillTokens := ((batch.filter fun x => (s.seqs x).isPrefill).map
        fun x => (s.seqs x).numScheduledTokens).sum
      numDecodeTokens := (batch.filter fun x => !(s.seqs x).isPrefill).length }

end Step

end NanoVllm
