/- module: NanoVllm/Engine/ModelInputs
   layer: source
   source: the prepare functions of nanovllm/engine/model_runner.py and target_logits of
     nanovllm/engine/speculative_execution.py
   digest: Input ids, positions and attention metadata of a step. -/

import NanoVllm.Engine.TpTransport

set_option autoImplicit false
set_option relaxedAutoImplicit false

namespace NanoVllm

/-- `values[index]`, from the end when the index is negative. -/
def pyGet {α : Type} (values : List α) (index : Int) : Except Raised α :=
  let i := if index < 0 then index + values.length else index
  if i < 0 then .error .indexError
  else
    match values[i.toNat]? with
    | some a => .ok a
    | none => .error .indexError

/-- The range from `start` to `start + count`. -/
def positionRange (start count : Nat) : List Int := (List.range' start count).map Int.ofNat

namespace RunnerRow

def isPrefill : RunnerRow → Bool
  | .sequence seq => seq.isPrefill
  | .scheduled view => view.isPrefill

def numCachedTokens : RunnerRow → Nat
  | .sequence seq => seq.numCachedTokens
  | .scheduled view => view.numCachedTokens

def numScheduledTokens : RunnerRow → Nat
  | .sequence seq => seq.numScheduledTokens
  | .scheduled view => view.numScheduledTokens

def numTokens : RunnerRow → Nat
  | .sequence seq => seq.numTokens
  | .scheduled view => view.numTokens

def lastToken : RunnerRow → Nat
  | .sequence seq => seq.lastToken
  | .scheduled view => view.lastToken

def blockTable : RunnerRow → List Nat
  | .sequence seq => seq.blockTable
  | .scheduled view => view.blockTable

/-- The `isinstance` branch of `prepare_ragged`. -/
def chunkTokenIds : RunnerRow → List Nat
  | .sequence seq => (seq.tokenIds.drop seq.numCachedTokens).take seq.numScheduledTokens
  | .scheduled view => view.scheduledTokenIds

end RunnerRow

/-- A two-dimensional tensor of block ids. -/
structure BlockTables where
  width : Nat
  rows : List (List Int)
  rows_width : ∀ row ∈ rows, row.length = width
  deriving DecidableEq

def longest (tables : List (List Nat)) : Nat :=
  tables.foldr (fun table most => max table.length most) 0

theorem length_le_longest {table : List Nat} {tables : List (List Nat)} (h : table ∈ tables) :
    table.length ≤ longest tables := by
  induction tables with
  | nil => exact absurd h List.not_mem_nil
  | cons head tables ih =>
    rcases List.mem_cons.mp h with rfl | h
    · exact Nat.le_max_left _ _
    · exact (ih h).trans (Nat.le_max_right _ _)

def paddedTable (width : Nat) (table : List Nat) : List Int :=
  table.map Int.ofNat ++ List.replicate (width - table.length) (-1)

def paddedTables (tables : List (List Nat)) : BlockTables where
  width := longest tables
  rows := tables.map (paddedTable (longest tables))
  rows_width := by
    intro row hrow
    obtain ⟨table, htable, rfl⟩ := List.mem_map.mp hrow
    have hle := length_le_longest htable
    unfold paddedTable
    rw [List.length_append, List.length_map, List.length_replicate]
    omega

/-- `prepare_block_tables` and `_prepare_draft_block_tables`. -/
def prepareBlockTables (tables : List (List Nat)) : Except Raised BlockTables :=
  if tables.isEmpty then .error (.valueError "max() arg is an empty sequence")
  else .ok (paddedTables tables)

/-- `Context`; absent lists are empty, absent block tables `none`. -/
structure ModelContext where
  isPrefill : Bool
  cuSeqlensQ : List Nat
  cuSeqlensK : List Nat
  maxSeqlenQ : Nat
  maxSeqlenK : Nat
  slotMapping : List Int
  contextLens : List Int
  blockTables : Option BlockTables
  querySequenceIds : List Nat
  queryContextLengths : List Int
  emissionQueryIndices : Option (List Int)
  deriving DecidableEq

/-- The returned tensors and the context that was set. -/
structure ModelInputs where
  inputIds : List Nat
  positions : List Int
  context : ModelContext
  deriving DecidableEq

/-- The lists that the loop of `prepare_ragged` extends. -/
structure RaggedRows where
  inputIds : List Nat
  positions : List Int
  querySequenceIds : List Nat
  queryContextLengths : List Int
  emissionQueryIndices : List Int
  cuSeqlensQ : List Nat
  cuSeqlensK : List Nat
  maxSeqlenQ : Nat
  maxSeqlenK : Nat
  slotMapping : List Int

def RaggedRows.empty : RaggedRows where
  inputIds := []
  positions := []
  querySequenceIds := []
  queryContextLengths := []
  emissionQueryIndices := []
  cuSeqlensQ := [0]
  cuSeqlensK := [0]
  maxSeqlenQ := 0
  maxSeqlenK := 0
  slotMapping := []

section Runner

variable (blockSize : Nat)

/-- The block loop of `prepare_ragged` over the positions from `start` to `stop`. -/
def raggedSlots (table : List Nat) (start stop : Nat) : List Nat → Except Raised (List Int)
  | [] => pure []
  | i :: blocks => do
    let startBlock := start / blockSize
    let endBlock := (stop + blockSize - 1) / blockSize
    let blockId ← pyGet table i
    let slotStart := blockId * blockSize + if i = startBlock then start % blockSize else 0
    let slotEnd :=
      if i + 1 ≠ endBlock then blockId * blockSize + blockSize
      else blockId * blockSize + stop - i * blockSize
    let rest ← raggedSlots table start stop blocks
    pure (positionRange slotStart (slotEnd - slotStart) ++ rest)

def raggedBlocks (start stop : Nat) : List Nat :=
  let startBlock := start / blockSize
  let endBlock := (stop + blockSize - 1) / blockSize
  List.range' startBlock (endBlock - startBlock)

/-- One turn of the loop of `prepare_ragged`. -/
def RaggedRows.push (rows : RaggedRows) (sequenceIndex : Nat) (seq : RunnerRow) :
    Except Raised RaggedRows := do
  let start := seq.numCachedTokens
  let seqlenQ := seq.numScheduledTokens
  let stop := start + seqlenQ
  let cuQ := rows.cuSeqlensQ.getLastD 0 + seqlenQ
  let rows := { rows with
    inputIds := rows.inputIds ++ if seq.isPrefill then seq.chunkTokenIds else [seq.lastToken]
    positions := rows.positions ++ positionRange start seqlenQ
    querySequenceIds := rows.querySequenceIds ++ List.replicate seqlenQ sequenceIndex
    queryContextLengths := rows.queryContextLengths ++ positionRange (start + 1) seqlenQ
    emissionQueryIndices := rows.emissionQueryIndices ++
      if stop = seq.numTokens then [(cuQ : Int) - 1] else []
    cuSeqlensQ := rows.cuSeqlensQ ++ [cuQ]
    cuSeqlensK := rows.cuSeqlensK ++ [rows.cuSeqlensK.getLastD 0 + stop]
    maxSeqlenQ := max seqlenQ rows.maxSeqlenQ
    maxSeqlenK := max stop rows.maxSeqlenK }
  if seq.blockTable.isEmpty then pure rows
  else do
    let slots ← raggedSlots blockSize seq.blockTable start stop (raggedBlocks blockSize start stop)
    pure { rows with slotMapping := rows.slotMapping ++ slots }

def RaggedRows.extend : RaggedRows → Nat → List RunnerRow → Except Raised RaggedRows
  | rows, _, [] => pure rows
  | rows, sequenceIndex, seq :: seqs => do
    let rows ← rows.push blockSize sequenceIndex seq
    rows.extend (sequenceIndex + 1) seqs

def raggedBlockTables (seqs : List RunnerRow) : Except Raised (Option BlockTables) := do
  let first ← pyGet seqs 0
  if first.blockTable.isEmpty then pure none
  else (prepareBlockTables (seqs.map RunnerRow.blockTable)).map some

def prepareRagged (seqs : List RunnerRow) : Except Raised ModelInputs := do
  let rows ← RaggedRows.empty.extend blockSize 0 seqs
  let blockTables ← raggedBlockTables seqs
  pure
    { inputIds := rows.inputIds
      positions := rows.positions
      context :=
        { isPrefill := true
          cuSeqlensQ := rows.cuSeqlensQ
          cuSeqlensK := rows.cuSeqlensK
          maxSeqlenQ := rows.maxSeqlenQ
          maxSeqlenK := rows.maxSeqlenK
          slotMapping := rows.slotMapping
          contextLens := []
          blockTables := blockTables
          querySequenceIds := rows.querySequenceIds
          queryContextLengths := rows.queryContextLengths
          emissionQueryIndices := some rows.emissionQueryIndices } }

def decodeContext (slots contextLens : List Int) (blockTables : BlockTables) : ModelContext where
  isPrefill := false
  cuSeqlensQ := []
  cuSeqlensK := []
  maxSeqlenQ := 0
  maxSeqlenK := 0
  slotMapping := slots
  contextLens := contextLens
  blockTables := some blockTables
  querySequenceIds := List.range slots.length
  queryContextLengths := contextLens
  emissionQueryIndices := none

/-- The slot that `prepare_decode` counts back from the last block. -/
def decodeSlot (seq : RunnerRow) : Except Raised Int := do
  let lastBlockNumTokens : Int := seq.numTokens - ((seq.blockTable.length : Int) - 1) * blockSize
  let blockId ← pyGet seq.blockTable (-1)
  pure (blockId * blockSize + lastBlockNumTokens - 1)

def prepareDecode (seqs : List RunnerRow) : Except Raised ModelInputs := do
  let slots ← seqs.mapM (decodeSlot blockSize)
  let blockTables ← prepareBlockTables (seqs.map RunnerRow.blockTable)
  pure
    { inputIds := seqs.map RunnerRow.lastToken
      positions := seqs.map fun seq => (seq.numTokens : Int) - 1
      context := decodeContext slots (seqs.map fun seq => (seq.numTokens : Int)) blockTables }

/-- The snapshot of a planned row that the draft and the verifier read. -/
structure DraftCycleRow where
  seqId : Nat
  tokenIds : List Nat
  committedLen : Nat
  targetCachedTokens : Nat
  draftCachedTokens : Nat
  blockTable : List Nat
  deriving DecidableEq, Repr

/-- `block_table[position // block_size] * block_size + position % block_size`. -/
def positionSlot (table : List Nat) (position : Int) : Except Raised Int := do
  let blockId ← pyGet table (position / blockSize)
  pure (blockId * blockSize + position % blockSize)

/-- `DraftCatchupView` has the fields of `ScheduledSequence`. -/
def DraftCycleRow.catchupView (row : DraftCycleRow) : Except Raised ScheduledSequence := do
  let lastToken ← pyGet row.tokenIds ((row.committedLen : Int) - 2)
  let count := row.committedLen - 1 - row.draftCachedTokens
  pure
    { scheduledTokenIds := (row.tokenIds.drop row.draftCachedTokens).take count
      isPrefill := true
      numCachedTokens := row.draftCachedTokens
      numScheduledTokens := count
      numTokens := row.committedLen - 1
      lastToken := lastToken
      blockTable := row.blockTable }

/-- One turn of the loop of `_prepare_draft_catchup`. -/
def RaggedRows.pushCatchup (rows : RaggedRows) (sequenceIndex : Nat) (row : ScheduledSequence) :
    Except Raised RaggedRows := do
  let start := row.numCachedTokens
  let stop := row.numTokens
  let queryLen := stop - start
  let slots ← (positionRange start queryLen).mapM (positionSlot blockSize row.blockTable)
  pure
    { inputIds := rows.inputIds ++ row.scheduledTokenIds
      positions := rows.positions ++ positionRange start queryLen
      querySequenceIds := rows.querySequenceIds ++ List.replicate queryLen sequenceIndex
      queryContextLengths := rows.queryContextLengths ++ positionRange (start + 1) queryLen
      emissionQueryIndices := rows.emissionQueryIndices
      cuSeqlensQ := rows.cuSeqlensQ ++ [rows.cuSeqlensQ.getLastD 0 + queryLen]
      cuSeqlensK := rows.cuSeqlensK ++ [rows.cuSeqlensK.getLastD 0 + stop]
      maxSeqlenQ := max rows.maxSeqlenQ queryLen
      maxSeqlenK := max rows.maxSeqlenK stop
      slotMapping := rows.slotMapping ++ slots }

def RaggedRows.extendCatchup :
    RaggedRows → Nat → List ScheduledSequence → Except Raised RaggedRows
  | rows, _, [] => pure rows
  | rows, sequenceIndex, row :: catchup => do
    let rows ← rows.pushCatchup blockSize sequenceIndex row
    rows.extendCatchup (sequenceIndex + 1) catchup

/-- `_prepare_draft_catchup`; `none` when no row lags. -/
def prepareDraftCatchup (rows : List DraftCycleRow) : Except Raised (Option ModelInputs) := do
  let catchup ← (rows.filter fun row => row.draftCachedTokens < row.committedLen - 1).mapM
    DraftCycleRow.catchupView
  if catchup.isEmpty then pure none
  else do
    let ragged ← RaggedRows.empty.extendCatchup blockSize 0 catchup
    let blockTables ← prepareBlockTables (catchup.map ScheduledSequence.blockTable)
    pure (some
      { inputIds := ragged.inputIds
        positions := ragged.positions
        context :=
          { isPrefill := true
            cuSeqlensQ := ragged.cuSeqlensQ
            cuSeqlensK := ragged.cuSeqlensK
            maxSeqlenQ := ragged.maxSeqlenQ
            maxSeqlenK := ragged.maxSeqlenK
            slotMapping := ragged.slotMapping
            contextLens := []
            blockTables := some blockTables
            querySequenceIds := ragged.querySequenceIds
            queryContextLengths := ragged.queryContextLengths
            emissionQueryIndices := none } })

/-- `_prepare_draft_decode`; catch-up of one token calls it with step -1. -/
def prepareDraftDecode (rows : List DraftCycleRow) (inputTokenIds : List Nat) (step : Int) :
    Except Raised ModelInputs := do
  let positions := rows.map fun row => (row.committedLen : Int) - 1 + step
  let slots ← rows.mapM fun row =>
    positionSlot blockSize row.blockTable ((row.committedLen : Int) - 1 + step)
  let blockTables ← prepareBlockTables (rows.map DraftCycleRow.blockTable)
  pure
    { inputIds := inputTokenIds
      positions := positions
      context := decodeContext slots (positions.map (· + 1)) blockTables }

/-- The positions that the verification of `k` proposals writes. -/
def DraftCycleRow.queryPositions (row : DraftCycleRow) (k : Nat) : List Int :=
  (List.range (k + 1)).map fun step : Nat => (row.committedLen : Int) - 1 + (step : Int)

/-- The inputs of `target_logits`; `proposals` is the tensor of `k` columns. -/
def prepareTargetLogits (k : Nat) (rows : List DraftCycleRow) (proposals : List (List Nat)) :
    Except Raised ModelInputs := do
  let slots ← (rows.flatMap fun row => (row.queryPositions k).map fun p => (row, p)).mapM
    fun entry => positionSlot blockSize entry.1.blockTable entry.2
  let tail ← rows.mapM fun row => pyGet row.tokenIds (-1)
  if tail.length ≠ proposals.length then
    throw (.runtimeError "Sizes of tensors must match except in dimension 1")
  let blockTables ← prepareBlockTables (rows.map DraftCycleRow.blockTable)
  pure
    { inputIds := (List.zipWith (fun last drafted => last :: drafted) tail proposals).flatten
      positions := rows.flatMap fun row => row.queryPositions k
      context :=
        { isPrefill := true
          cuSeqlensQ := (List.range (rows.length + 1)).map (· * (k + 1))
          cuSeqlensK := rows.foldl
            (fun cumulative row => cumulative ++ [cumulative.getLastD 0 + row.committedLen + k]) [0]
          maxSeqlenQ := k + 1
          maxSeqlenK := rows.foldr (fun row most => max (row.committedLen + k) most) 0
          slotMapping := slots
          contextLens := []
          blockTables := some blockTables
          querySequenceIds := (List.range rows.length).flatMap fun row =>
            List.replicate (k + 1) row
          queryContextLengths := rows.flatMap fun row =>
            (List.range (k + 1)).map fun step : Nat => (row.committedLen : Int) + (step : Int)
          emissionQueryIndices := none } }

end Runner

end NanoVllm
