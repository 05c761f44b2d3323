/- module: NanoVllm/Engine/GraphReplay
   layer: source
   source: nanovllm/engine/model_runner.py, the capture functions, run_model, _fill_varlen and
     _run_draft_decode_model
   digest: Persistent graph buffers, the choice of a graph and the fill before its replay. -/

import NanoVllm.Engine.ModelInputs
import NanoVllm.Engine.SpeculativeRoutes
import NanoVllm.Library.Paging

set_option autoImplicit false
set_option relaxedAutoImplicit false

namespace NanoVllm

def shapeMismatch : Raised := .runtimeError "shape mismatch in slice assignment"

/-- `buffer[:stop] = values`; one value is broadcast. -/
def assignPrefix {α : Type} (buffer : List α) (stop : Nat) (values : List α) :
    Except Raised (List α) :=
  let size := min stop buffer.length
  if values.length = size then .ok (values ++ buffer.drop size)
  else
    match values with
    | [a] => .ok (List.replicate size a ++ buffer.drop size)
    | _ => .error shapeMismatch

def fillFrom {α : Type} (buffer : List α) (start : Nat) (value : α) : List α :=
  buffer.take start ++ List.replicate (buffer.length - start) value

def fillAll {α : Type} (buffer : List α) (value : α) : List α :=
  List.replicate buffer.length value

def BlockTables.fill (buffer : BlockTables) (value : Int) : BlockTables where
  width := buffer.width
  rows := List.replicate buffer.rows.length (List.replicate buffer.width value)
  rows_width := by
    intro row hrow
    rw [List.eq_of_mem_replicate hrow, List.length_replicate]

/-- Rows of `values` over the start of the rows of `old`. -/
def overlay (values old : List (List Int)) : List (List Int) :=
  List.zipWith (fun row stale => row ++ stale.drop row.length) values old ++ old.drop values.length

/-- `buffer[:stop, :tables.size(1)] = tables`; one row is broadcast. -/
def BlockTables.assign (buffer : BlockTables) (stop : Nat) (tables : BlockTables) :
    Except Raised BlockTables :=
  let size := min stop buffer.rows.length
  let source :=
    if tables.rows.length = size then tables.rows
    else match tables.rows with
      | [row] => List.replicate size row
      | _ => []
  if h : source.length = size ∧ tables.width ≤ buffer.width
      ∧ ∀ row ∈ source, row.length = tables.width then
    .ok
      { width := buffer.width
        rows := overlay source buffer.rows
        rows_width := by
          intro row hrow
          rcases List.mem_append.mp hrow with hrow | hrow
          · obtain ⟨i, hi, rfl⟩ := List.getElem_of_mem hrow
            rw [List.length_zipWith, Nat.lt_min] at hi
            have hnew := h.2.2 _ (List.getElem_mem hi.1)
            have hold := buffer.rows_width _ (List.getElem_mem hi.2)
            have hle := h.2.1
            rw [List.getElem_zipWith, List.length_append, List.length_drop, hnew, hold]
            omega
          · exact buffer.rows_width row (List.mem_of_mem_drop hrow) }
  else .error shapeMismatch

/-- `graph_vars` and `draft_graph_vars` without their outputs, for `capacity` rows. -/
structure DecodeBuffers (capacity width : Nat) where
  inputIds : List Nat
  positions : List Int
  slotMapping : List Int
  contextLens : List Int
  blockTables : BlockTables
  inputIds_length : inputIds.length = capacity
  positions_length : positions.length = capacity
  slotMapping_length : slotMapping.length = capacity
  contextLens_length : contextLens.length = capacity
  blockTables_length : blockTables.rows.length = capacity
  blockTables_width : blockTables.width = width

section Decode

variable {capacity width : Nat}

/-- What the fill of a decode graph writes. -/
structure DecodeFill where
  inputIds : List Nat
  positions : List Int
  slotMapping : List Int
  contextLens : List Int
  blockTables : BlockTables

/-- The assignments before a replay; the tables are cleared first when `clear` is set. -/
def DecodeBuffers.fill (clear : Bool) (v : DecodeBuffers capacity width) (inputs : ModelInputs) :
    Except Raised DecodeFill := do
  let bs := inputs.inputIds.length
  let context := inputs.context
  let inputIds ← assignPrefix v.inputIds bs inputs.inputIds
  let positions ← assignPrefix v.positions bs inputs.positions
  let slotMapping ← assignPrefix (fillAll v.slotMapping (-1)) bs context.slotMapping
  let contextLens ← assignPrefix (fillAll v.contextLens 0) bs context.contextLens
  match context.blockTables with
  | none => throw (.runtimeError "block tables are missing")
  | some tables =>
    let cleared := if clear then v.blockTables.fill (-1) else v.blockTables
    let blockTables ← cleared.assign bs tables
    pure ⟨inputIds, positions, slotMapping, contextLens, blockTables⟩

/-- The graph that the decode branch of `run_model` replays; `none` runs eagerly. -/
def selectDecodeGraph (enforceEager : Bool) (graphBs graphs : List Nat) (bs : Nat) : Option Nat :=
  if enforceEager || maxCudaGraphBatchSize < bs then none
  else graphBs.find? fun x => bs ≤ x && decide (x ∈ graphs)

/-- `graph_bs` after `capture_cudagraph`; every bucket is captured. -/
def captureBuckets (cfg : Config) : List Nat :=
  draftGraphBatchBuckets (min cfg.maxNumSeqs maxCudaGraphBatchSize)

def draftPlanError (message : String) : Raised := .external message

/-- `_draft_graph_key` of a graph route: `graphBs` are the captured buckets and `tableWidth` the
width of the captured tables. -/
def draftGraphKey (graphBs : List Nat) (tableWidth : Nat) (inputs : ModelInputs)
    (route : DraftRouteKey) : Except Raised Nat := do
  if route.executionMode ≠ .cudaGraph then
    throw (draftPlanError "draft route execution mode does not match graph availability")
  if graphBs.isEmpty then
    throw (draftPlanError "registered draft graph resources are unavailable")
  let key := route.batchBucket
  let batchSize := inputs.inputIds.length
  if key ∉ graphBs ∨ batchSize = 0 ∨ key < batchSize then
    throw (draftPlanError "registered draft graph bucket is unavailable")
  match inputs.context.blockTables with
  | none => throw (draftPlanError "live draft decode metadata does not fit its registered graph")
  | some tables =>
    if tables.rows.length ≠ batchSize ∨ tableWidth < tables.width then
      throw (draftPlanError "live draft decode metadata does not fit its registered graph")
    pure key

end Decode

/-- `varlen_vars` without its outputs, for `tokens` tokens and `slots` segments. -/
structure VarlenBuffers (tokens slots width : Nat) where
  inputIds : List Nat
  positions : List Int
  slotMapping : List Int
  cuQ : List Nat
  cuK : List Nat
  blockTables : BlockTables
  inputIds_length : inputIds.length = tokens
  positions_length : positions.length = tokens
  slotMapping_length : slotMapping.length = tokens
  cuQ_length : cuQ.length = slots + 1
  cuK_length : cuK.length = slots + 1
  blockTables_length : blockTables.rows.length = slots
  blockTables_width : blockTables.width = width

structure VarlenFill where
  inputIds : List Nat
  positions : List Int
  slotMapping : List Int
  cuQ : List Nat
  cuK : List Nat
  blockTables : BlockTables

section Varlen

variable {tokens slots width : Nat}

def minKey (a b : Nat × Nat) : Nat × Nat :=
  if a.1 < b.1 ∨ (a.1 = b.1 ∧ a.2 ≤ b.2) then a else b

def selectVarlenGraphKey (graphs : List (Nat × Nat)) (numTokens numSeqs : Nat) :
    Option (Nat × Nat) :=
  if numTokens = 0 ∨ numSeqs = 0 then none
  else
    match graphs.filter fun key => numTokens ≤ key.1 ∧ numSeqs ≤ key.2 with
    | [] => none
    | key :: keys => some (keys.foldl minKey key)

def varlenContextFitsGraph (maxModelLen tableWidth numTokens numSeqs : Nat)
    (context : ModelContext) (key : Nat × Nat) : Bool :=
  match context.blockTables with
  | none => false
  | some tables =>
    decide (context.slotMapping.length = numTokens)
      && decide (context.cuSeqlensK.length = numSeqs + 1)
      && decide (context.maxSeqlenQ ≤ min key.1 maxModelLen)
      && decide (context.maxSeqlenK ≤ maxModelLen)
      && decide (numSeqs ≤ tables.rows.length)
      && decide (tables.width ≤ tableWidth)

/-- The graph that a ragged step replays; `none` runs eagerly. -/
def selectVarlenGraph (maxModelLen tableWidth : Nat) (graphs : List (Nat × Nat))
    (inputs : ModelInputs) : Option (Nat × Nat) :=
  let t := inputs.inputIds.length
  let ns := inputs.context.cuSeqlensQ.length - 1
  match inputs.context.blockTables with
  | none => none
  | some _ =>
    match selectVarlenGraphKey graphs t ns with
    | none => none
    | some key =>
      if varlenContextFitsGraph maxModelLen tableWidth t ns inputs.context key then some key
      else none

/-- `_fill_varlen`. -/
def VarlenBuffers.fill (v : VarlenBuffers tokens slots width) (inputs : ModelInputs)
    (key : Nat × Nat) : Except Raised VarlenFill := do
  let t := inputs.inputIds.length
  let context := inputs.context
  let ns := context.cuSeqlensQ.length - 1
  let (tp, sl) := key
  if tp < t ∨ sl < ns then
    throw (.valueError (s!"ragged step ({t} tokens, {ns} sequences) exceeds graph "
      ++ s!"capacity ({tp} tokens, {sl} sequences)"))
  let inputIds ← assignPrefix v.inputIds t inputs.inputIds
  let positions ← assignPrefix v.positions t inputs.positions
  let slotMapping ← assignPrefix (fillAll v.slotMapping (-1)) t context.slotMapping
  let cuQ ← assignPrefix v.cuQ (ns + 1) context.cuSeqlensQ
  let cuK ← assignPrefix v.cuK (ns + 1) context.cuSeqlensK
  match context.blockTables with
  | none => throw (.runtimeError "block tables are missing")
  | some tables =>
    let blockTables ← (v.blockTables.fill (-1)).assign ns tables
    pure
      { inputIds := inputIds
        positions := positions
        slotMapping := slotMapping
        cuQ := fillFrom cuQ (ns + 1) (context.cuSeqlensQ.getLastD 0)
        cuK := fillFrom cuK (ns + 1) (context.cuSeqlensK.getLastD 0)
        blockTables := blockTables }

def varlenTs (cfg : Config) : List Nat :=
  [128, 256, 512, 1024, 2048].filter fun t => t ≤ cfg.maxNumBatchedTokens

def varlenSlots (cfg : Config) : List Nat :=
  let s1 := cfg.maxNumSeqs + 1
  if min 64 s1 = s1 then [s1] else [min 64 s1, s1]

def varlenCaptureBoundaries (numTokens numSlots maxModelLen : Nat) : Option (List Nat) :=
  if numTokens = 0 ∨ numSlots = 0 ∨ maxModelLen = 0 then none
  else
    let numNonempty := (numTokens + maxModelLen - 1) / maxModelLen
    if numSlots < numNonempty then none
    else some (0 :: (List.range numNonempty).map (fun i => min ((i + 1) * maxModelLen) numTokens)
      ++ List.replicate (numSlots - numNonempty) numTokens)

/-- `_varlen_capture_boundaries` on any integers. -/
def varlenCaptureBoundariesInt (numTokens numSlots maxModelLen : Int) : Option (List Nat) :=
  if numTokens ≤ 0 ∨ numSlots ≤ 0 ∨ maxModelLen ≤ 0 then none
  else varlenCaptureBoundaries numTokens.toNat numSlots.toNat maxModelLen.toNat

/-- `_select_varlen_graph_key` on any integers. -/
def selectVarlenGraphKeyInt (graphs : List (Nat × Nat)) (numTokens numSeqs : Int) :
    Option (Nat × Nat) :=
  if numTokens ≤ 0 ∨ numSeqs ≤ 0 then none
  else selectVarlenGraphKey graphs numTokens.toNat numSeqs.toNat

/-- The keys of `varlen_graphs` after `capture_varlen_graphs`. -/
def varlenGraphKeys (cfg : Config) : List (Nat × Nat) :=
  (varlenTs cfg).reverse.flatMap fun t => (varlenSlots cfg).reverse.filterMap fun sl =>
    (varlenCaptureBoundaries t sl cfg.maxModelLen).map fun _ => (t, sl)

end Varlen

/-- The captured graphs of a runner with their buffers. -/
structure TargetGraphs (capacity tokens slots width : Nat) where
  enforceEager : Bool
  maxModelLen : Nat
  graphBs : List Nat
  graphs : List Nat
  varlenGraphs : List (Nat × Nat)
  graphVars : DecodeBuffers capacity width
  varlenVars : VarlenBuffers tokens slots width

/-- The graphs of a runner behind its captures for `cfg`, none where a family was not captured. -/
structure CapturedGraphs (cfg : Config) extends
    TargetGraphs (min cfg.maxNumSeqs maxCudaGraphBatchSize) ((varlenTs cfg).getLastD 0)
      (cfg.maxNumSeqs + 1) (Library.pagesFor cfg.kvcacheBlockSize cfg.maxModelLen) where
  maxModelLen_eq : maxModelLen = cfg.maxModelLen
  graphBs_eq : graphBs = captureBuckets cfg
  varlenGraphs_sub : ∀ key ∈ varlenGraphs, key ∈ varlenGraphKeys cfg

/-- Hidden states of the model run eagerly, and of the outputs a replay leaves. -/
structure TargetModel (H : Type) where
  forward : ModelInputs → List H
  replay : Nat → DecodeFill → List H
  replayVarlen : Nat × Nat → VarlenFill → List H

section Target

variable {H : Type} {capacity tokens slots width : Nat} (model : TargetModel H)
variable (runner : TargetGraphs capacity tokens slots width)

/-- The hidden states of a ragged step, as both `run_model` and `run_model_all_positions` get
them. -/
def runVarlen (inputs : ModelInputs) : Except Raised (List H) :=
  match selectVarlenGraph runner.maxModelLen width runner.varlenGraphs inputs with
  | none => pure (model.forward inputs)
  | some key => do
    let filled ← runner.varlenVars.fill inputs key
    pure ((model.replayVarlen key filled).take inputs.inputIds.length)

/-- `run_model`, up to the logits. -/
def runModel (inputs : ModelInputs) (isPrefill : Bool) : Except Raised (List H) :=
  if isPrefill then runVarlen model runner inputs
  else
    let bs := inputs.inputIds.length
    match selectDecodeGraph runner.enforceEager runner.graphBs runner.graphs bs with
    | none => pure (model.forward inputs)
    | some key => do
      let filled ← runner.graphVars.fill false inputs
      pure ((model.replay key filled).take bs)

/-- `run_model_all_positions`, up to the logits. -/
def runModelAllPositions (inputs : ModelInputs) : Except Raised (List H) := do
  if inputs.context.isPrefill = false ∨ inputs.context.cuSeqlensQ = [] then
    throw (.runtimeError "all-position target verification requires ragged context")
  runVarlen model runner inputs

end Target

end NanoVllm
