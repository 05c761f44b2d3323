/- module: NanoVllm/Engine/SpeculativeStep
   layer: source
   source: nanovllm/engine/scheduler.py, plan_speculative_step to commit_speculative and the draft
     coverage handoff; nanovllm/engine/speculative_result.py
   digest: The two-layer speculative transaction: plan, prepare, commit, hand off, stage. -/

import NanoVllm.Engine.Scheduler

set_option autoImplicit false
set_option relaxedAutoImplicit false

namespace NanoVllm

structure SpecRowResult where
  seqId : Nat
  proposedTokenIds : List Nat
  committedTokenIds : List Nat
  acceptedDraftTokens : Nat
  usedBonus : Bool
  residualNumericalFallbacks : Nat
  deriving DecidableEq, Repr

structure SpecExecutionResult where
  cycleId : Nat
  workspaceFingerprint : String
  rows : List SpecRowResult
  targetVerificationPositions : Nat
  draftPositions : Nat
  deriving DecidableEq, Repr

section Plan

variable (cfg : Config)

/-- The row snapshot of `plan_speculative_step`, before its write positions are known. -/
def planRow (s : State) (x : Nat) : SpecPlanRow :=
  let seq := s.seqs x
  { seqId := x
    committedTokens := seq.numTokens
    targetCachedTokens := seq.numCachedTokens
    draftCachedTokens := seq.numDraftCachedTokens
    remainingCompletionTokens := seq.maxTokens - seq.numCompletionTokens
    modelPositionHeadroom := cfg.maxModelLen - seq.numTokens
    highestDraftWritePosition := none
    highestTargetWritePosition := none
    blockTable := seq.blockTable }

/-- `next(name for name, bound in bounds if bound == 0)`. -/
def bypassReasonFor (rows : List SpecPlanRow) (cap : Nat) : Except Raised String :=
  let batch := rows.length
  let budget := cfg.maxNumBatchedTokens
  let catchup := draftCatchupTokens rows
  let bounds : List (String × Nat) :=
    [("speculation_disabled", cfg.configuredK),
      ("request_tail", minOver (fun row => row.remainingCompletionTokens - 1) rows),
      ("model_position_limit", minOver SpecPlanRow.modelPositionHeadroom rows),
      ("verifier_token_budget", budget / batch - 1),
      (if 3 * batch ≤ budget ∧ budget < catchup + 3 * batch then "draft_catchup_token_budget"
        else "aggregate_token_budget", speculativeKBudget budget batch catchup),
      ("workspace_route_cap", cap)]
  match bounds.find? fun e => e.2 = 0 with
  | some (name, _) => pure name
  | none => throw (.runtimeError "StopIteration")

def admissionCap (workspace : SpeculativeWorkspace) (batchSize : Nat)
    (admission : Option DraftRouteAdmission) : Except Raised Nat := do
  match admission with
  | none => pure 0
  | some a =>
    if a.batchSize ≠ batchSize then
      throw (.valueError "route admission batch size does not match decode rows")
    if a.planFingerprint ≠ workspace.planFingerprint then
      throw (.valueError "route admission workspace fingerprint is stale")
    pure a.maxEffectiveK

def attachTables (s : State) (rows : List SpecPlanRow) : List SpecPlanRow :=
  rows.map fun row => { row with blockTable := (s.seqs row.seqId).blockTable }

def planningChecks (s : State) (batch : List Nat) (rows : List SpecPlanRow)
    (admission : Option DraftRouteAdmission) (rollback : List DecodeScheduleRollbackRow)
    (baseline : Option (List DecodeScheduleRollbackRow)) : Except Raised Unit := do
  if baseline ≠ none ∧ baseline ≠ some rollback then
    throw (.valueError "baseline decode rollback does not match selected rows")
  if s.running ≠ batch then
    throw (.valueError "speculative plan must cover the whole scheduled decode batch")
  if admission.any fun a => a.catchupTokens ≠ draftCatchupTokens rows then
    throw (.valueError "draft-cache coverage changed after route admission")

/-- The plan before any block is leased: positive, or a fallback with its reason. -/
def proposePlan (build : Nat → Option String → Option DraftRouteKey → Except Raised SpecStepPlan)
    (rows : List SpecPlanRow) (cap : Nat) (admission : Option DraftRouteAdmission) :
    Except Raised SpecStepPlan :=
  let k := deriveSpeculativeEffectiveK rows cfg.configuredK cfg.maxNumBatchedTokens cap
  if k = 0 then do
    let reason ← bypassReasonFor cfg rows cap
    build 0 (some reason) none
  else
    match admission.bind fun a => a.keyFor k with
    | none => build 0 (some "route_registry_miss") none
    | some key =>
      match build k none (some key) with
      | .error (.speculativeMemoryPlanningError _) => build 0 (some "workspace_route_cap") none
      | .error e => .error e
      | .ok plan => .ok plan

def State.openTransaction (s : State) (plan : SpecStepPlan) (r : TemporaryBlockReservation)
    (rollback : List DecodeScheduleRollbackRow) : State :=
  { s with
    activeDraftDiscard := some (plan, r)
    activeSpecTransaction := some
      { plan := plan
        reservation := r
        baselineDecodeRollback := rollback
        targetWritesPrepared := false } }

def State.closeTransaction (s : State) : State :=
  { s with activeDraftDiscard := none, activeSpecTransaction := none }

def publishTransaction (rollback : List DecodeScheduleRollbackRow) (plan : SpecStepPlan)
    (r : TemporaryBlockReservation) : Call SpecStepPlan :=
  tryCatch
    (do
      tick
      let s ← get
      let granted := { plan with rows := attachTables s plan.rows }
      liftExcept granted.postInit
      set (s.openTransaction granted r rollback)
      pure granted)
    (fun e => do
      modify State.closeTransaction
      let _ ← rollbackTemporaryAppend r
      throw e)

/-- Reserve the write positions of a positive plan and open its transaction. -/
def leasePlan (build : Nat → Option String → Option DraftRouteKey → Except Raised SpecStepPlan)
    (rollback : List DecodeScheduleRollbackRow) (batch : List Nat) (plan : SpecStepPlan) :
    Call SpecStepPlan := do
  let wanted := batch.zip (plan.rows.map fun row => row.highestTargetWritePosition.getD 0)
  let reserved ← reserveTemporaryAppend cfg wanted
  match reserved with
  | none => liftExcept (build 0 (some "insufficient_kv_blocks") none)
  | some r => publishTransaction rollback plan r

/-- `plan_speculative_step` after its row snapshots: `build` is its local function. -/
def planBatch (build : Nat → Option String → Option DraftRouteKey → Except Raised SpecStepPlan)
    (s : State) (batch : List Nat) (rows : List SpecPlanRow) (cap : Nat)
    (admission : Option DraftRouteAdmission)
    (baseline : Option (List DecodeScheduleRollbackRow)) : Call SpecStepPlan :=
  if batch = [] then
    liftExcept (build 0 (some "no_decode_rows") none)
  else
    match captureDecodeScheduleRollback cfg s batch false with
    | none => liftExcept (build 0 (some "not_pure_decode") none)
    | some rollback => do
      liftExcept (planningChecks s batch rows admission rollback baseline)
      let plan ← liftExcept (proposePlan cfg build rows cap admission)
      if plan.usesSpeculation then leasePlan cfg build rollback batch plan
      else pure plan

def planSpeculativeStep (workspace : SpeculativeWorkspace) (batch : List Nat)
    (admission : Option DraftRouteAdmission)
    (baseline : Option (List DecodeScheduleRollbackRow)) : Call SpecStepPlan := do
  tick
  let s ← get
  if s.activeSpecTransaction.isSome || s.activeDraftDiscard.isSome
      || s.pendingDraftCoveragePlan.isSome then
    throw (.runtimeError "a speculative transaction is already active")
  else
    let rows := batch.map (planRow cfg s)
    liftExcept (rows.forM SpecPlanRow.postInit)
    let cap ← liftExcept (admissionCap workspace rows.length admission)
    set { s with nextCycleId := s.nextCycleId + 1 }
    let build := fun k reason key =>
      buildSpeculativeStepPlan workspace s.nextCycleId rows cfg.configuredK cap k
        cfg.maxNumBatchedTokens key reason
    planBatch cfg build s batch rows cap admission baseline

end Plan

def State.replaceLease (s : State) (transaction : ActiveSpecTransaction)
    (r : TemporaryBlockReservation) : State :=
  { s with
    activeDraftDiscard := some (transaction.plan, r)
    activeSpecTransaction := some { transaction with
      reservation := r
      targetWritesPrepared := true } }

def prepareSpeculativeTargetWrites (plan : SpecStepPlan) : Call Unit := do
  let s ← get
  match s.activeSpecTransaction with
  | none => throw (.runtimeError "speculative target writes require the active transaction")
  | some transaction =>
    if transaction.plan ≠ plan then
      throw (.runtimeError "speculative target writes require the active transaction")
    else if transaction.targetWritesPrepared then
      pure ()
    else
      let r ← prepareTemporaryTargetWrites transaction.reservation
      modify fun t => t.replaceLease transaction r

section Commit

variable (cfg : Config)

def validateResultRow (s : State) (k : Nat) (snapshot : SpecPlanRow) (row : SpecRowResult)
    (x : Nat) : Except Raised Unit := do
  if row.seqId ≠ snapshot.seqId ∨ row.seqId ≠ x then
    throw (.valueError "speculative result row identity/order mismatch")
  let seq := s.seqs x
  if seq.numTokens ≠ snapshot.committedTokens ∨ seq.numCachedTokens ≠ snapshot.targetCachedTokens
      ∨ seq.numDraftCachedTokens ≠ snapshot.draftCachedTokens
      ∨ seq.blockTable ≠ snapshot.blockTable ∨ seq.numScheduledTokens ≠ 1 ∨ seq.isPrefill
      ∨ seq.status ≠ .running
      ∨ (seq.maxTokens : Int) - seq.numCompletionTokens ≠ snapshot.remainingCompletionTokens then
    throw (.valueError "sequence changed before speculative commit")
  let accepted := row.acceptedDraftTokens
  if k < accepted then throw (.valueError "invalid speculative accepted count")
  if row.usedBonus ≠ decide (accepted = k) then
    throw (.valueError "invalid speculative bonus flag")
  if 1 < row.residualNumericalFallbacks then
    throw (.valueError "invalid residual fallback count")
  if row.usedBonus ∧ row.residualNumericalFallbacks ≠ 0 then
    throw (.valueError "full acceptance cannot use a residual fallback")
  if row.proposedTokenIds.length ≠ k then
    throw (.valueError "incomplete speculative proposals")
  if row.committedTokenIds.length ≠ accepted + 1 then
    throw (.valueError "speculative burst must contain accepted prefix plus correction/bonus")
  if row.committedTokenIds.take accepted ≠ row.proposedTokenIds.take accepted then
    throw (.valueError "speculative burst does not match accepted proposals")
  if (row.proposedTokenIds ++ row.committedTokenIds).any fun t => !inVocabulary cfg t then
    throw (.valueError "invalid speculative token ID")

def validateResultRows (s : State) (k : Nat) :
    List SpecPlanRow → List SpecRowResult → List Nat → Except Raised Unit
  | snapshot :: snapshots, row :: rows, x :: xs => do
    validateResultRow cfg s k snapshot row x
    validateResultRows s k snapshots rows xs
  | [], [], [] => pure ()
  | _, _, _ => throw (.valueError "speculative result row count mismatch")

def validateResult (s : State) (plan : SpecStepPlan) (result : SpecExecutionResult)
    (batch : List Nat) : Except Raised Unit := do
  if result.cycleId ≠ plan.cycleId then
    throw (.valueError "speculative result cycle mismatch")
  if result.workspaceFingerprint ≠ plan.workspaceFingerprint then
    throw (.valueError "speculative result workspace mismatch")
  if result.targetVerificationPositions ≠ plan.targetQueryTokens then
    throw (.valueError "speculative target work mismatch")
  if result.draftPositions ≠ plan.draftCatchupTokens + plan.draftQueryTokens then
    throw (.valueError "speculative draft work mismatch")
  validateResultRows cfg s plan.effectiveK plan.rows result.rows batch

/-- The burst a row commits: cut at `max_tokens` and after the first EOS. `done` is
`seq.num_completion_tokens + len(tokens)`. -/
def committedBurst (seq : Sequence) : List Nat → Nat → List Nat
  | [], _ => []
  | token :: rest, done =>
    if seq.maxTokens ≤ done then []
    else if !seq.ignoreEos && decide ((token : Int) = cfg.eos) then [token]
    else token :: committedBurst seq rest (done + 1)

structure PreparedRow where
  sequence : Nat
  tokens : List Nat
  cached : Nat
  draftCached : Nat

def prepareCommitRow (s : State) (k x : Nat) (row : SpecRowResult) : Except Raised PreparedRow :=
  let seq := s.seqs x
  let tokens := committedBurst cfg seq row.committedTokenIds seq.numCompletionTokens
  if tokens = [] then throw (.valueError "speculative commit has no completion headroom")
  else
    let cached := seq.numTokens + tokens.length - 1
    pure
      { sequence := x
        tokens := tokens
        cached := cached
        draftCached := min cached (seq.numTokens + k - 1) }

def prepareCommitRows (s : State) (k : Nat) :
    List Nat → List SpecRowResult → Except Raised (List PreparedRow)
  | x :: xs, row :: rows => do
    let first ← prepareCommitRow cfg s k x row
    let more ← prepareCommitRows s k xs rows
    pure (first :: more)
  | _, _ => pure []

/-- The number of leased blocks a row keeps, as the signed difference of the source. -/
def keepCount (row : PreparedRow) (lease : TemporaryReservationRow) : Nat × Int :=
  (row.sequence,
    ((row.cached + cfg.kvcacheBlockSize - 1) / cfg.kvcacheBlockSize : Nat)
      - (lease.blockTableBefore.length : Int))

/-- Append one row's burst, publish its full blocks, move both coverages, and
release the row when the burst ends the request. -/
def commitRow (row : PreparedRow) : Call (List StreamOutput) := do
  tick
  let x := row.sequence
  modifySeq x fun seq => { seq with
    tokenIds := seq.tokenIds ++ row.tokens
    numScheduledTokens := row.cached - seq.numCachedTokens }
  hashBlocks cfg x
  modifySeq x fun seq => { seq with
    numCachedTokens := row.cached
    numDraftCachedTokens := row.draftCached
    numScheduledTokens := 0 }
  let s ← get
  let finished := stopsAt cfg (s.seqs x) (row.tokens.getLastD 0)
  if finished then
    modifySeq x fun seq => { seq with status := .finished }
    deallocate x
    removeRunning x
  pure (row.tokens.mapIdx fun i token =>
    ⟨x, token, finished && decide (i + 1 = row.tokens.length)⟩)

def commitRows : List PreparedRow → Call (List StreamOutput)
  | [] => pure []
  | row :: rest => do
    let events ← commitRow cfg row
    let more ← commitRows rest
    pure (events ++ more)

def State.restoreCommit (s before : State) (xs : List Nat) : State :=
  { s with
    seqs := fun x => if x ∈ xs then before.seqs x else s.seqs x
    blocks := before.blocks
    hashToBlockId := before.hashToBlockId
    freeBlockIds := before.freeBlockIds
    usedBlockIds := before.usedBlockIds
    activeReservation := before.activeReservation
    running := before.running
    waiting := before.waiting }

/-- The checks of `commit_speculative`, down to its prepared rows. -/
def commitChecks (before : State) (transaction : ActiveSpecTransaction) (plan : SpecStepPlan)
    (result : SpecExecutionResult) : Except Raised (List PreparedRow) := do
  if transaction.plan ≠ plan ∨ transaction.targetWritesPrepared = false then
    throw (.runtimeError "speculative commit requires a prepared target-write transaction")
  let xs := transaction.reservation.rows.map TemporaryReservationRow.sequence
  if xs ≠ before.running then
    throw (.valueError "speculative commit must cover the scheduled running batch")
  validateResult cfg before plan result xs
  prepareCommitRows cfg before plan.effectiveK xs result.rows

/-- The mutations of `commit_speculative`; a failure restores every snapshot. -/
def applyCommit (before : State) (r : TemporaryBlockReservation) (prepared : List PreparedRow) :
    Call (List StreamOutput) :=
  tryCatch
    (do
      let finalized ← finalizeTemporaryAppend r (List.zipWith (keepCount cfg) prepared r.rows)
      if finalized then commitRows cfg prepared
      else throw (.runtimeError "speculative commit did not finalize its lease"))
    (fun e => do
      modify fun s => s.restoreCommit before (r.rows.map TemporaryReservationRow.sequence)
      throw e)

def commitSpeculative (plan : SpecStepPlan) (result : SpecExecutionResult) :
    Call (List StreamOutput) := do
  tick
  let before ← get
  match before.activeSpecTransaction with
  | none =>
    throw (.runtimeError "speculative commit requires a prepared target-write transaction")
  | some transaction =>
    let prepared ← liftExcept (commitChecks cfg before transaction plan result)
    let events ← applyCommit cfg before transaction.reservation prepared
    modify State.closeTransaction
    pure events

end Commit

def handoffChecks (s : State) (plan : SpecStepPlan) : Except Raised Unit := do
  if plan.usesSpeculation = false then
    throw (.valueError "cannot hand off a fallback plan")
  if s.pendingDraftCoveragePlan.isSome then
    throw (.runtimeError "draft coverage handoff is already pending")
  if s.activeDraftDiscard.map Prod.fst ≠ some plan then
    throw (.runtimeError "draft-discard plan is not the active reservation")

def handoffDraftDiscard (plan : SpecStepPlan) : Call Unit := do
  tick
  let s ← get
  liftExcept (handoffChecks s plan)
  let rolledBack ← rollbackDraftDiscard plan
  if rolledBack then
    tick
    modify fun t => { t with
      pendingDraftCoveragePlan := some plan
      pendingDraftCoverage := none }
  else throw (.runtimeError "active draft-discard reservation was not released")

def stageRow (s : State) (plan : SpecStepPlan) (coverage : List (Nat × Nat)) (x : Nat) :
    Except Raised Unit := do
  match plan.rows.find? fun row => row.seqId = x, coverage.find? fun e => e.1 = x with
  | some row, some (_, supplied) =>
    let seq := s.seqs x
    if supplied ≠ row.committedTokens then
      let length := row.committedTokens
      throw (.valueError
        s!"sequence {x} draft coverage must equal the planned committed prefix {length}")
    if seq.status ≠ .running then throw (.runtimeError "coverage sequence is not running")
    if seq.numTokens ≠ row.committedTokens then
      throw (.runtimeError "coverage sequence length changed before target execution")
    if seq.numCachedTokens ≠ row.targetCachedTokens then
      throw (.runtimeError "target cache coverage changed before target execution")
    if seq.numScheduledTokens ≠ 1 ∨ seq.isPrefill then
      throw (.runtimeError "coverage sequence is not a scheduled decode")
    if seq.numDraftCachedTokens ≠ row.draftCachedTokens then
      throw (.runtimeError "draft cache coverage changed before staging")
  | _, _ => throw (.valueError "draft coverage IDs do not exactly match the plan")

def stageChecks (s : State) (plan : SpecStepPlan) (batch : List Nat)
    (coverage : List (Nat × Nat)) : Except Raised Unit := do
  if plan.usesSpeculation = false then
    throw (.valueError "cannot commit draft coverage for a fallback plan")
  if s.activeDraftDiscard.isSome then
    throw (.runtimeError "temporary draft-discard reservation is still active")
  if s.pendingDraftCoveragePlan ≠ some plan then
    throw (.runtimeError "draft coverage may be staged only for the handed-off plan")
  if s.pendingDraftCoverage.isSome then
    throw (.runtimeError "draft coverage is already staged")
  let plannedIds := plan.rows.map SpecPlanRow.seqId
  if batch ≠ plannedIds then
    throw (.valueError "draft coverage sequence IDs/order do not match the plan")
  if (coverage.map Prod.fst).toFinset ≠ plannedIds.toFinset then
    throw (.valueError "draft coverage IDs do not exactly match the plan")
  batch.forM (stageRow s plan coverage)

def stageDraftCoverage (plan : SpecStepPlan) (batch : List Nat) (coverage : List (Nat × Nat)) :
    Call Unit := do
  tick
  let s ← get
  liftExcept (stageChecks s plan batch coverage)
  set { s with
    pendingDraftCoverage := some
      ((plan.rows.map SpecPlanRow.seqId).map fun x => (x, coverageOf coverage x)) }

end NanoVllm
