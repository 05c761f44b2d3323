/- module: NanoVllm/Engine/Scheduler
   layer: source
   source: nanovllm/engine/scheduler.py, queues, schedule, preempt, postprocess, cancel and the
     rollback operations they call
   digest: Decode-first scheduling with chunked prefill, preemption and targeted cancellation. -/

import NanoVllm.Engine.TemporaryReservation

set_option autoImplicit false
set_option relaxedAutoImplicit false

namespace NanoVllm

section Queues

variable (cfg : Config)

def requireCapacity (requested : Nat) : Call Unit := do
  let s ← get
  let queued := s.waiting.length + s.running.length
  if cfg.maxNumSeqs < queued + requested then
    throw (.schedulerCapacityError requested (cfg.maxNumSeqs - queued) cfg.maxNumSeqs)

/-- `Sequence(...)` followed by `Scheduler.add`. -/
def add (tokenIds : List Nat) (maxTokens : Nat) (ignoreEos : Bool) : Call Nat := do
  if tokenIds = [] then throw (.valueError "prompt must contain at least one token")
  let s ← get
  let x := s.nextSeqId
  set { s.setSeq x (Sequence.new tokenIds maxTokens ignoreEos) with nextSeqId := x + 1 }
  requireCapacity cfg 1
  modify fun t => (t.withWaiting (t.waiting ++ [x])).record (.admitted x)
  pure x

end Queues

def checkMidChunkInvariant : Call Unit := do
  let s ← get
  match s.midChunkSeq with
  | none =>
    match s.waiting with
    | [] => pure ()
    | w :: _ =>
      if (s.seqs w).blockTable ≠ [] then
        throw (.runtimeError "waiting head owns KV blocks without mid_chunk_seq")
  | some mid =>
    if s.waiting.head? ≠ some mid then
      throw (.runtimeError "mid_chunk_seq must remain at the waiting head")
    if (s.seqs mid).blockTable = [] then
      throw (.runtimeError "mid_chunk_seq must own its allocated KV blocks")

/-- One row of `capture_decode_schedule_rollback`; `none` when it is not a pure decode row. -/
def captureRow (cfg : Config) (s : State) (x : Nat) : Option DecodeScheduleRollbackRow :=
  let seq := s.seqs x
  if seq.status ≠ .running ∨ seq.isPrefill ∨ seq.numScheduledTokens ≠ 1
      ∨ seq.numCachedTokens + 1 ≠ seq.numTokens then none
  else some
    { sequence := x
      committedTokens := seq.numTokens
      targetCachedTokens := seq.numCachedTokens
      draftCachedTokens := seq.numDraftCachedTokens
      expectedBlockCount :=
        (seq.numCachedTokens + cfg.kvcacheBlockSize - 1) / cfg.kvcacheBlockSize }

def captureDecodeScheduleRollback (cfg : Config) (s : State) (batch : List Nat)
    (isPrefill : Bool) : Option (List DecodeScheduleRollbackRow) :=
  if isPrefill ∨ batch = [] then none else batch.mapM (captureRow cfg s)

def rollbackDraftDiscard (plan : SpecStepPlan) : Call Bool := do
  let s ← get
  match s.activeDraftDiscard with
  | none => pure false
  | some (activePlan, r) =>
    if activePlan ≠ plan then throw (.runtimeError "draft-discard plan identity mismatch")
    let rolledBack ← rollbackTemporaryAppend r
    modify fun t => { t with activeDraftDiscard := none }
    pure rolledBack

def abortDraftCoverage (plan : SpecStepPlan) : Call Bool := do
  let s ← get
  match s.pendingDraftCoveragePlan with
  | none => pure false
  | some pending =>
    if pending ≠ plan then
      throw (.runtimeError "pending draft-coverage plan identity mismatch")
    set { s with pendingDraftCoveragePlan := none, pendingDraftCoverage := none }
    pure true

def rollbackRowUnchanged (s : State) (row : DecodeScheduleRollbackRow) : Bool :=
  let seq := s.seqs row.sequence
  decide (seq.status = .running ∧ seq.isPrefill = false ∧ seq.numScheduledTokens = 1
    ∧ seq.numTokens = row.committedTokens ∧ seq.numCachedTokens = row.targetCachedTokens
    ∧ row.targetCachedTokens + 1 = row.committedTokens
    ∧ seq.numDraftCachedTokens = row.draftCachedTokens)

def State.clearScheduled (s : State) (xs : List Nat) : State :=
  xs.foldl (fun t x => t.setSeq x { t.seqs x with numScheduledTokens := 0 }) s

def rollbackFailedDecodeSchedule (cfg : Config) (rollback : List DecodeScheduleRollbackRow) :
    Call Bool := do
  let s ← get
  if s.activeDraftDiscard.isSome then
    throw (.runtimeError "temporary draft reservation is still active")
  if s.pendingDraftCoveragePlan.isSome then
    throw (.runtimeError "draft coverage handoff is still pending")
  match rollback.find? fun row => !rollbackRowUnchanged s row with
  | some row =>
    let id := row.sequence
    throw (.runtimeError s!"sequence {id} changed before schedule rollback")
  | none => pure ()
  let changed ← rollbackUncommittedAppends cfg
    (rollback.map fun row => (row.sequence, row.expectedBlockCount))
  modify fun t => t.clearScheduled (rollback.map DecodeScheduleRollbackRow.sequence)
  pure changed

def abortSpeculativeStep (cfg : Config) : Call Bool := do
  let s ← get
  match s.activeSpecTransaction with
  | none => pure false
  | some transaction =>
    let _ ← rollbackDraftDiscard transaction.plan
    let _ ← abortDraftCoverage transaction.plan
    let _ ← rollbackFailedDecodeSchedule cfg transaction.baselineDecodeRollback
    modify fun t => { t with activeSpecTransaction := none }
    pure true

def rollbackActiveDraftDiscard : Call Unit := do
  let s ← get
  match s.activeDraftDiscard with
  | none => pure ()
  | some (plan, _) =>
    let _ ← rollbackDraftDiscard plan

/-- Drop a pending handoff that names one of `targets`. -/
def State.dropPendingCoverage (s : State) (targets : List Nat) : State :=
  match s.pendingDraftCoveragePlan with
  | none => s
  | some pending =>
    if (pending.rows.map SpecPlanRow.seqId).any (· ∈ targets) then
      { s with pendingDraftCoveragePlan := none, pendingDraftCoverage := none }
    else s

/-- `if self.mid_chunk_seq is seq: self.mid_chunk_seq = None`. -/
def State.clearMid (s : State) (x : Nat) : State :=
  if s.midChunkSeq = some x then s.withMid none else s

def preempt (cfg : Config) (x : Nat) : Call Unit := do
  let _ ← abortSpeculativeStep cfg
  rollbackActiveDraftDiscard
  modify fun s => s.dropPendingCoverage [x]
  modify fun s => s.clearMid x
  modifySeq x fun seq => { seq with status := .waiting, isPrefill := true }
  deallocate x
  modifySeq x fun seq => { seq with numDraftCachedTokens := 0 }
  modify fun s => (s.withWaiting (s.waiting ++ [x])).record (.preempted x s.waiting)
  checkMidChunkInvariant

section Schedule

variable (cfg : Config)

/-- The inner `while not can_append` loop for the decode row in hand. It returns
`true` once the row can grow and `false` when the row itself was evicted. The
fuel bounds the number of evictions by the rows that are left to evict. -/
def makeRoom (x : Nat) : Nat → Call Bool
  | 0 => throw .outOfFuel
  | fuel + 1 => do
    let s ← get
    if canAppend cfg s x then
      pure true
    else if s.midChunkSeq.isSome then
      match s.waiting with
      | [] => throw .indexError
      | w :: rest =>
        set (s.withWaiting rest)
        preempt cfg w
        makeRoom x fuel
    else
      match s.running.getLast? with
      | some victim =>
        set (s.withRunning s.running.dropLast)
        preempt cfg victim
        makeRoom x fuel
      | none =>
        preempt cfg x
        pure false

/-- The decode loop. `acc` is `scheduled_seqs`. -/
def decodeLoop : Nat → List Nat → Call (List Nat)
  | 0, _ => throw .outOfFuel
  | fuel + 1, acc => do
    let s ← get
    match s.running with
    | [] => pure acc
    | x :: rest =>
      if acc.length < cfg.maxNumSeqs then
        set (s.withRunning rest)
        let granted ← makeRoom cfg x (rest.length + 2)
        if granted then
          modifySeq x fun seq => { seq with numScheduledTokens := 1, isPrefill := false }
          mayAppend cfg x
          modify fun t => t.record (.scheduled x)
          decodeLoop fuel (acc ++ [x])
        else decodeLoop fuel acc
      else pure acc

/-- The waiting head, prefilled to its last token, moves to `running`. -/
def State.joinRunning (s : State) (x : Nat) : State :=
  (((s.clearMid x).setSeq x { s.seqs x with status := .running }).withWaiting
    s.waiting.tail).withRunning (s.running ++ [x])

/-- A scheduled prefill row whose chunk reaches its last token joins `running`;
otherwise it becomes the mid-chunk row, which ends the fill. -/
def settlePrefill (x numTokens : Nat) : Call Bool := do
  let s ← get
  let seq := s.seqs x
  if seq.numCachedTokens + seq.numScheduledTokens = seq.numTokens then
    set (s.joinRunning x)
  if seq.numScheduledTokens < numTokens then
    let t ← get
    if t.midChunkSeq ≠ none ∧ t.midChunkSeq ≠ some x then
      throw (.runtimeError "more than one sequence is mid-chunk")
    set (t.withMid (some x))
    pure true
  else pure false

/-- The FIFO chunk fill. `acc` is `scheduled_seqs`, `batched` is `num_batched_tokens`. -/
def prefillLoop : Nat → List Nat → Nat → Call (List Nat)
  | 0, _, _ => throw .outOfFuel
  | fuel + 1, acc, batched => do
    let s ← get
    match s.waiting with
    | [] => pure acc
    | x :: rest =>
      if ¬ acc.length < cfg.maxNumSeqs ∨ cfg.maxNumBatchedTokens ≤ batched then
        pure acc
      else
        let remaining := cfg.maxNumBatchedTokens - batched
        let seq := s.seqs x
        if seq.blockTable = [] then
          match canAllocate cfg s x with
          | none => pure acc
          | some numCachedBlocks =>
            let numTokens := seq.numTokens - numCachedBlocks * cfg.kvcacheBlockSize
            let scheduled := min numTokens remaining
            modifySeq x fun row => { row with numScheduledTokens := scheduled }
            let allocated ← allocateIncremental cfg x numCachedBlocks
              (numCachedBlocks * cfg.kvcacheBlockSize + scheduled)
            if ¬ allocated then
              throw (.runtimeError "incremental KV allocation changed after admission")
            let partialRow ← settlePrefill x numTokens
            modify fun t => t.record (.scheduled x)
            if partialRow then pure (acc ++ [x])
            else prefillLoop fuel (acc ++ [x]) (batched + scheduled)
        else
          let numTokens := seq.numTokens - seq.numCachedTokens
          let scheduled := min numTokens remaining
          modifySeq x fun row => { row with numScheduledTokens := scheduled }
          let extended ← extend cfg x (seq.numCachedTokens + scheduled)
          if extended then
            let partialRow ← settlePrefill x numTokens
            modify fun t => t.record (.scheduled x)
            if partialRow then pure (acc ++ [x])
            else prefillLoop fuel (acc ++ [x]) (batched + scheduled)
          else
            modifySeq x fun row => { row with numScheduledTokens := 0 }
            modify fun t => t.withWaiting rest
            preempt cfg x
            if acc ≠ [] then pure acc else prefillLoop fuel acc batched

def schedule : Call (List Nat × Bool) := do
  let s ← get
  if s.activeSpecTransaction.isSome then
    throw (.runtimeError "cannot schedule before speculative transaction completes")
  if s.activeDraftDiscard.isSome then
    throw (.runtimeError "cannot schedule while a draft-discard reservation is active")
  if s.pendingDraftCoveragePlan.isSome then
    throw (.runtimeError "cannot schedule before committing draft-cache coverage")
  checkMidChunkInvariant
  let decodes ← decodeLoop cfg (s.running.length + 1) []
  modify fun t => t.withRunning (decodes ++ t.running)
  let t ← get
  let batch ← prefillLoop cfg (2 * t.waiting.length + 1) decodes decodes.length
  if batch = [] then
    let u ← get
    if u.waiting = [] ∧ u.running = [] then
      throw (.runtimeError "cannot schedule: no pending requests")
    throw (.runtimeError
      "scheduler could not schedule pending work with the available KV-cache blocks")
  checkMidChunkInvariant
  pure (batch, decide (decodes.length < batch.length))

end Schedule

section Postprocess

variable (cfg : Config)

/-- `finished` of `postprocess`, for a request that has just taken `tokenId`. -/
def stopsAt (seq : Sequence) (tokenId : Nat) : Bool :=
  (!seq.ignoreEos && decide ((tokenId : Int) = cfg.eos))
    || decide (seq.maxTokens ≤ seq.numCompletionTokens)

def removeRunning (x : Nat) : Call Unit := do
  let s ← get
  if x ∉ s.running then throw (.valueError "deque.remove(x): x not in deque")
  set (s.withRunning (s.running.erase x))

def finishRow (x : Nat) : Call Unit := do
  modifySeq x fun seq => { seq with status := .finished }
  deallocate x
  modifySeq x fun seq => { seq with numDraftCachedTokens := 0 }
  removeRunning x

def postprocessRow (x tokenId : Nat) : Call (List StreamOutput) := do
  hashBlocks cfg x
  modifySeq x fun seq => { seq with
    numCachedTokens := seq.numCachedTokens + seq.numScheduledTokens
    numScheduledTokens := 0 }
  let s ← get
  if (s.seqs x).numCachedTokens < (s.seqs x).numTokens then
    pure []
  else
    modifySeq x fun seq => seq.appendToken tokenId
    let t ← get
    let finished := stopsAt cfg (t.seqs x) tokenId
    if finished then finishRow x
    pure [⟨x, tokenId, finished⟩]

def postprocessRows : List (Nat × Nat) → Call (List StreamOutput)
  | [] => pure []
  | (x, tokenId) :: rest => do
    let emitted ← postprocessRow cfg x tokenId
    let more ← postprocessRows rest
    pure (emitted ++ more)

def pendingRowUnchanged (s : State) (rows : List SpecPlanRow) (x : Nat) : Bool :=
  match rows.find? fun row => row.seqId = x with
  | none => false
  | some row =>
    let seq := s.seqs x
    decide (seq.status = .running ∧ seq.isPrefill = false ∧ seq.numScheduledTokens = 1
      ∧ seq.numTokens = row.committedTokens ∧ seq.numCachedTokens = row.targetCachedTokens
      ∧ seq.numDraftCachedTokens = row.draftCachedTokens)

def checkPendingCoverage (s : State) (batch : List Nat) (pending : SpecStepPlan) :
    Except Raised Unit := do
  let plannedIds := pending.rows.map SpecPlanRow.seqId
  if batch ≠ plannedIds then
    throw (.valueError "postprocess sequence IDs/order do not match draft handoff")
  match s.pendingDraftCoverage with
  | none => throw (.runtimeError "draft coverage was not staged before target work")
  | some staged =>
    if staged.map Prod.fst ≠ plannedIds then
      throw (.runtimeError "draft coverage was not staged before target work")
  match batch.find? fun x => !pendingRowUnchanged s pending.rows x with
  | some x => throw (.runtimeError s!"sequence {x} changed before target commit")
  | none => pure ()

def inVocabulary (tokenId : Nat) : Bool :=
  match cfg.vocabSize with
  | none => true
  | some v => decide (tokenId < v)

def coverageOf (coverage : List (Nat × Nat)) (x : Nat) : Nat :=
  ((coverage.find? fun e => e.1 = x).map Prod.snd).getD 0

def State.commitCoverage (s : State) (coverage : List (Nat × Nat)) (batch : List Nat) : State :=
  batch.foldl (fun t x =>
    if (t.seqs x).status = .running then
      t.setSeq x { t.seqs x with numDraftCachedTokens := coverageOf coverage x }
    else t) s

/-- The checks of `postprocess`, made before any row is committed. -/
def postprocessChecks (s : State) (batch tokenIds : List Nat) : Except Raised Unit := do
  if s.activeSpecTransaction.any fun transaction =>
      s.pendingDraftCoveragePlan ≠ some transaction.plan then
    throw (.runtimeError "speculative transaction has not handed off to target commit")
  if s.activeDraftDiscard.isSome then
    throw (.runtimeError "draft-discard reservation must be handed off before postprocess")
  if tokenIds.length ≠ batch.length then
    throw (.valueError "target token count does not match the scheduled batch")
  if tokenIds.any fun t => !inVocabulary cfg t then
    throw (.valueError "target token IDs must be integers in the vocabulary")
  match s.pendingDraftCoveragePlan with
  | none => pure ()
  | some pending => checkPendingCoverage s batch pending

/-- The pending draft coverage of `s` and its transaction end with the target commit. -/
def State.closeHandoff (t s : State) (batch : List Nat) : State :=
  let covered := if s.pendingDraftCoveragePlan.isSome then
      { t.commitCoverage (s.pendingDraftCoverage.getD []) batch with
        pendingDraftCoveragePlan := none
        pendingDraftCoverage := none }
    else t
  if s.activeSpecTransaction.isSome then { covered with activeSpecTransaction := none }
  else covered

def postprocess (batch tokenIds : List Nat) : Call (List StreamOutput) := do
  let s ← get
  liftExcept (postprocessChecks cfg s batch tokenIds)
  let events ← postprocessRows cfg (batch.zip tokenIds)
  modify fun t => t.closeHandoff s batch
  pure events

end Postprocess

/-- Cancel one queued target, removing it with `dequeue` after its blocks are released. -/
def cancelOne (dequeue : State → State) (x : Nat) : Call Unit := do
  let s ← get
  if (s.seqs x).blockTable ≠ [] then deallocate x
  modify dequeue
  modify fun t => t.clearMid x
  modifySeq x fun seq => { seq with
    numScheduledTokens := 0
    numDraftCachedTokens := 0
    status := .cancelled }
  modify fun t => t.record (.cancelled x)

def cancelWaiting : List Nat → Call Unit
  | [] => pure ()
  | x :: rest => do
    cancelOne (fun t => t.withWaiting (t.waiting.erase x)) x
    cancelWaiting rest

def cancelRunning : List Nat → Call Unit
  | [] => pure ()
  | x :: rest => do
    cancelOne (fun t => t.withRunning (t.running.erase x)) x
    cancelRunning rest

def cancel (cfg : Config) (targets : List Nat) : Call (List Nat) := do
  let s ← get
  let waitingTargets := s.waiting.filter (· ∈ targets)
  let runningTargets := s.running.filter (· ∈ targets)
  if waitingTargets ++ runningTargets = [] then
    pure []
  else
    let _ ← abortSpeculativeStep cfg
    rollbackActiveDraftDiscard
    modify fun t => t.dropPendingCoverage targets
    cancelWaiting waitingTargets
    cancelRunning runningTargets
    checkMidChunkInvariant
    pure (waitingTargets ++ runningTargets)

end NanoVllm
