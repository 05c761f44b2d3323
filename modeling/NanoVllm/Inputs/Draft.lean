/- module: NanoVllm/Inputs/Draft
   layer: refinement
   source: _prepare_draft_catchup and _prepare_draft_decode of nanovllm/engine/model_runner.py,
     target_logits of nanovllm/engine/speculative_execution.py
   digest: The draft and verification steps use the same slots as the scheduled ones. -/

import NanoVllm.Inputs.Ragged

set_option autoImplicit false
set_option relaxedAutoImplicit false

namespace NanoVllm

open Library

variable {bs k : Nat} {rows : List DraftCycleRow} {row : DraftCycleRow}

def DraftCycleRow.draftPosition (row : DraftCycleRow) (step : Int) : Int :=
  (row.committedLen : Int) - 1 + step

def DraftCycleRow.Holds (bs : Nat) (row : DraftCycleRow) (step : Int) : Prop :=
  0 ≤ row.draftPosition step ∧ row.draftPosition step < row.blockTable.length * bs

private theorem DraftCycleRow.Holds.slot {step : Int} (h : row.Holds bs step) :
    positionSlot bs row.blockTable (row.draftPosition step) =
      .ok (slotAt bs row.blockTable (row.draftPosition step).toNat : Int) := by
  obtain ⟨p, hp⟩ := Int.eq_ofNat_of_zero_le h.1
  have hlt := h.2
  rw [hp] at hlt ⊢
  rw [Int.toNat_natCast]
  exact positionSlot_eq (by exact_mod_cast hlt)

def draftInputs (bs : Nat) (rows : List DraftCycleRow) (ids : List Nat) (step : Int) :
    ModelInputs where
  inputIds := ids
  positions := rows.map fun row => row.draftPosition step
  context := decodeContext
    (rows.map fun row => (slotAt bs row.blockTable (row.draftPosition step).toNat : Int))
    ((rows.map fun row => row.draftPosition step).map (· + 1))
    (paddedTables (rows.map DraftCycleRow.blockTable))

theorem prepareDraftDecode_eq (hne : rows ≠ []) (ids : List Nat) {step : Int}
    (h : ∀ row ∈ rows, row.Holds bs step) :
    prepareDraftDecode bs rows ids step = .ok (draftInputs bs rows ids step) := by
  have hslots : rows.mapM (fun row => positionSlot bs row.blockTable
      ((row.committedLen : Int) - 1 + step)) = .ok (rows.map fun row =>
        (slotAt bs row.blockTable (row.draftPosition step).toNat : Int)) :=
    Call.except_mapM_of_ok fun row hrow => (h row hrow).slot
  have hmap : rows.map DraftCycleRow.blockTable ≠ [] := by simpa using hne
  unfold prepareDraftDecode
  rw [Call.except_bind_of_ok hslots, Call.except_bind_of_ok (prepareBlockTables_eq hmap)]
  rfl

/-- A row that lags behind its committed prefix. -/
def DraftCycleRow.Lags (row : DraftCycleRow) : Prop :=
  row.draftCachedTokens < row.committedLen - 1

def DraftCycleRow.lagging (row : DraftCycleRow) : ScheduledSequence where
  scheduledTokenIds := (row.tokenIds.drop row.draftCachedTokens).take
    (row.committedLen - 1 - row.draftCachedTokens)
  isPrefill := true
  numCachedTokens := row.draftCachedTokens
  numScheduledTokens := row.committedLen - 1 - row.draftCachedTokens
  numTokens := row.committedLen - 1
  lastToken := row.tokenIds.getD (row.committedLen - 2) 0
  blockTable := row.blockTable

private theorem DraftCycleRow.catchupView_eq (hlag : row.Lags) (hlen : row.committedLen ≤ row.tokenIds.length) :
    row.catchupView = .ok row.lagging := by
  unfold DraftCycleRow.Lags at hlag
  have hindex : (row.committedLen : Int) - 2 = ((row.committedLen - 2 : Nat) : Int) := by omega
  have hlt : row.committedLen - 2 < row.tokenIds.length := by omega
  have hget := pyGet_natCast hlt 0
  unfold DraftCycleRow.catchupView
  rw [hindex, Call.except_bind_of_ok hget]
  rfl

/-- Catch-up extends the lists as `prepare_ragged` does, without emission rows. -/
private theorem RaggedRows.extendCatchup_spec (views : List ScheduledSequence)
    (h : ∀ view ∈ views, view.numCachedTokens + view.numScheduledTokens = view.numTokens ∧
      view.isPrefill = true ∧ view.numTokens ≤ view.blockTable.length * bs)
    (ragged : RaggedRows) (i : Nat) :
    ∃ out, ragged.extendCatchup bs i views = .ok out ∧
      Ragged bs ragged i (views.map RunnerRow.scheduled) out := by
  induction views generalizing ragged i with
  | nil =>
    exact ⟨ragged, rfl, .refl bs ragged i⟩
  | cons view views ih =>
    obtain ⟨hstop, hprefill, hcov⟩ := h view List.mem_cons_self
    obtain ⟨pushed, hpushed⟩ : ∃ pushed, pushed =
        { ragged.pushed bs i (.scheduled view) with
          emissionQueryIndices := ragged.emissionQueryIndices } := ⟨_, rfl⟩
    have hsub : view.numTokens - view.numCachedTokens = view.numScheduledTokens := by omega
    have htokens : (RunnerRow.scheduled view).inputTokens = view.scheduledTokenIds := if_pos hprefill
    have hpush : ragged.pushCatchup bs i view = .ok pushed := by
      unfold RaggedRows.pushCatchup
      dsimp only
      rw [hsub, Call.except_bind_of_ok (positionSlots_range (hstop.trans_le hcov)), hpushed,
        Nat.max_comm ragged.maxSeqlenQ, Nat.max_comm ragged.maxSeqlenK, ← hstop, ← htokens]
      rfl
    obtain ⟨out, hout, hragged⟩ := ih (fun v hv => h v (List.mem_cons_of_mem view hv)) pushed (i + 1)
    rw [hpushed] at hragged
    exact ⟨out, (Call.except_bind_of_ok hpush).trans hout, hragged.cons⟩

def laggingRows (rows : List DraftCycleRow) : List RunnerRow :=
  ((rows.filter fun row => row.draftCachedTokens < row.committedLen - 1).map
    DraftCycleRow.lagging).map RunnerRow.scheduled

def catchupInputs (bs : Nat) (rows : List DraftCycleRow) : ModelInputs :=
  let ragged := raggedInputs bs (laggingRows rows)
  { ragged with
    context := { ragged.context with
      blockTables := some (paddedTables ((laggingRows rows).map RunnerRow.blockTable))
      emissionQueryIndices := none } }

theorem prepareDraftCatchup_eq (hlag : ∃ row ∈ rows, row.Lags)
    (h : ∀ row ∈ rows, row.Lags → row.committedLen ≤ row.tokenIds.length ∧
      row.committedLen - 1 ≤ row.blockTable.length * bs) :
    prepareDraftCatchup bs rows = .ok (some (catchupInputs bs rows)) := by
  obtain ⟨lagging, hlagging⟩ : ∃ lagging, lagging =
      rows.filter fun row => row.draftCachedTokens < row.committedLen - 1 := ⟨_, rfl⟩
  have hmem : ∀ row ∈ lagging, row ∈ rows ∧ row.Lags := by
    intro row hrow
    rw [hlagging] at hrow
    obtain ⟨hin, hlt⟩ := List.mem_filter.mp hrow
    exact ⟨hin, by simpa [DraftCycleRow.Lags] using hlt⟩
  have hviews : lagging.mapM DraftCycleRow.catchupView = .ok (lagging.map DraftCycleRow.lagging) :=
    Call.except_mapM_of_ok fun row hrow =>
      DraftCycleRow.catchupView_eq (hmem row hrow).2 (h row (hmem row hrow).1 (hmem row hrow).2).1
  have hne : lagging ≠ [] := by
    obtain ⟨row, hrow, hrowlag⟩ := hlag
    refine List.ne_nil_of_mem (a := row) ?_
    rw [hlagging]
    exact List.mem_filter.mpr ⟨hrow, by simpa [DraftCycleRow.Lags] using hrowlag⟩
  obtain ⟨out, hout, hragged⟩ := RaggedRows.extendCatchup_spec
    (lagging.map DraftCycleRow.lagging) (by
      intro view hview
      obtain ⟨row, hrow, rfl⟩ := List.mem_map.mp hview
      obtain ⟨hin, hrowlag⟩ := hmem row hrow
      unfold DraftCycleRow.Lags at hrowlag
      refine ⟨?_, rfl, (h row hin (hmem row hrow).2).2⟩
      change row.draftCachedTokens + (row.committedLen - 1 - row.draftCachedTokens) =
        row.committedLen - 1
      omega) .empty 0
  have hrows : (lagging.map DraftCycleRow.lagging).map RunnerRow.scheduled = laggingRows rows := by
    rw [hlagging]
    rfl
  have htables : prepareBlockTables ((lagging.map DraftCycleRow.lagging).map
      ScheduledSequence.blockTable) = .ok (paddedTables
        ((laggingRows rows).map RunnerRow.blockTable)) := by
    rw [prepareBlockTables_eq (by simpa using hne), ← hrows, List.map_map (g := RunnerRow.blockTable)]
    rfl
  have hnonempty : ¬ (lagging.map DraftCycleRow.lagging).isEmpty = true := by simpa using hne
  rw [hrows] at hragged
  unfold prepareDraftCatchup
  rw [← hlagging, Call.except_bind_of_ok hviews, if_neg hnonempty, Call.except_bind_of_ok hout,
    Call.except_bind_of_ok htables, hragged.inputIds, hragged.positions,
    hragged.querySequenceIds, hragged.queryContextLengths, hragged.cuSeqlensQ, hragged.cuSeqlensK,
    hragged.maxSeqlenQ, hragged.maxSeqlenK, hragged.slotMapping]
  simp only [RaggedRows.empty, List.nil_append, List.getLastD_cons, List.getLastD_nil,
    List.singleton_append, ← boundaries_eq_cons]
  rfl

def DraftCycleRow.querySlots (bs k : Nat) (row : DraftCycleRow) : List Int :=
  rangeSlots bs row.blockTable (row.committedLen - 1) (k + 1)

private theorem DraftCycleRow.queryPositions_eq (hpos : 0 < row.committedLen) :
    row.queryPositions k = positionRange (row.committedLen - 1) (k + 1) := by
  unfold DraftCycleRow.queryPositions positionRange
  rw [List.range'_eq_map_range, List.map_map]
  refine List.map_congr_left fun step _ => ?_
  change (row.committedLen : Int) - 1 + step = ((row.committedLen - 1 + step : Nat) : Int)
  omega

/-- A row of a verification: it has a token, and its table holds its queries. -/
structure DraftCycleRow.Verifies (bs k : Nat) (row : DraftCycleRow) : Prop where
  committed_pos : 0 < row.committedLen
  tokens : row.tokenIds ≠ []
  covered : row.committedLen + k ≤ row.blockTable.length * bs

theorem querySlots_eq (h : ∀ row ∈ rows, row.Verifies bs k) :
    (rows.flatMap fun row => (row.queryPositions k).map fun p => (row, p)).mapM
      (fun entry : DraftCycleRow × Int => positionSlot bs entry.1.blockTable entry.2) =
        .ok (rows.flatMap (DraftCycleRow.querySlots bs k)) := by
  have hall := Call.except_mapM_of_ok
    (f := fun entry : DraftCycleRow × Int => positionSlot bs entry.1.blockTable entry.2)
    (g := fun entry => (slotAt bs entry.1.blockTable entry.2.toNat : Int))
    (l := rows.flatMap fun row => (row.queryPositions k).map fun p => (row, p)) <| by
      intro entry hentry
      obtain ⟨row, hrow, hentry⟩ := List.mem_flatMap.mp hentry
      obtain ⟨p, hp, rfl⟩ := List.mem_map.mp hentry
      rw [DraftCycleRow.queryPositions_eq (h row hrow).committed_pos] at hp
      obtain ⟨q, hq, rfl⟩ := List.mem_map.mp hp
      obtain ⟨hlow, hhigh⟩ := List.mem_range'_1.mp hq
      have hcov := (h row hrow).covered
      have hpos := (h row hrow).committed_pos
      exact positionSlot_eq (show q < row.blockTable.length * bs by omega)
  rw [hall, List.map_flatMap]
  refine congrArg Except.ok (List.flatMap_congr fun row hrow => ?_)
  rw [DraftCycleRow.queryPositions_eq (h row hrow).committed_pos]
  unfold DraftCycleRow.querySlots positionRange rangeSlots
  rw [List.map_map, List.map_map]
  rfl

private theorem foldl_boundaries (sizes : DraftCycleRow → Nat) (rows : List DraftCycleRow) :
    ∀ cuts : List Nat, rows.foldl (fun cumulative row =>
      cumulative ++ [cumulative.getLastD 0 + sizes row]) cuts =
        cuts ++ (boundaries (cuts.getLastD 0) (rows.map sizes)).tail := by
  induction rows with
  | nil => exact fun cuts => (List.append_nil _).symm
  | cons row rows ih =>
    intro cuts
    rw [List.foldl_cons, ih, List.getLastD_concat, List.map_cons, boundaries, List.tail_cons]
    nth_rewrite 2 [boundaries_eq_cons]
    rw [List.append_assoc, List.singleton_append]

def verifyInputs (bs k : Nat) (rows : List DraftCycleRow) (proposals : List (List Nat)) :
    ModelInputs where
  inputIds := (List.zipWith (fun row drafted => row.tokenIds.getD (row.tokenIds.length - 1) 0
    :: drafted) rows proposals).flatten
  positions := rows.flatMap fun row => positionRange (row.committedLen - 1) (k + 1)
  context :=
    { isPrefill := true
      cuSeqlensQ := boundaries 0 (rows.map fun _ => k + 1)
      cuSeqlensK := boundaries 0 (rows.map fun row => row.committedLen + k)
      maxSeqlenQ := k + 1
      maxSeqlenK := rows.foldr (fun row most => max (row.committedLen + k) most) 0
      slotMapping := rows.flatMap (DraftCycleRow.querySlots bs k)
      contextLens := []
      blockTables := some (paddedTables (rows.map DraftCycleRow.blockTable))
      querySequenceIds := (List.range rows.length).flatMap fun row => List.replicate (k + 1) row
      queryContextLengths := rows.flatMap fun row =>
        (List.range (k + 1)).map fun step : Nat => (row.committedLen : Int) + (step : Int)
      emissionQueryIndices := none }

theorem prepareTargetLogits_eq (hne : rows ≠ []) {proposals : List (List Nat)}
    (hlen : proposals.length = rows.length) (h : ∀ row ∈ rows, row.Verifies bs k) :
    prepareTargetLogits bs k rows proposals = .ok (verifyInputs bs k rows proposals) := by
  have htail : rows.mapM (fun row => pyGet row.tokenIds (-1)) =
      .ok (rows.map fun row => row.tokenIds.getD (row.tokenIds.length - 1) 0) :=
    Call.except_mapM_of_ok fun row hrow => pyGet_neg_one (h row hrow).tokens 0
  have hmap : rows.map DraftCycleRow.blockTable ≠ [] := by simpa using hne
  have hQ : (List.range (rows.length + 1)).map (· * (k + 1)) =
      boundaries 0 (rows.map fun _ => k + 1) := by
    rw [List.map_const', boundaries_replicate]
    simp
  have hK := foldl_boundaries (fun row => row.committedLen + k) rows [0]
  rw [List.getLastD_cons, List.getLastD_nil, List.singleton_append, ← boundaries_eq_cons] at hK
  have hpositions : (rows.flatMap fun row => row.queryPositions k) =
      rows.flatMap fun row => positionRange (row.committedLen - 1) (k + 1) :=
    List.flatMap_congr fun row hrow =>
      DraftCycleRow.queryPositions_eq (h row hrow).committed_pos
  unfold prepareTargetLogits verifyInputs
  rw [Call.except_bind_of_ok (querySlots_eq h), Call.except_bind_of_ok htail]
  refine Call.except_guard_of_not (by simp [hlen]) ?_
  rw [Call.except_bind_of_ok (prepareBlockTables_eq hmap), hQ, hpositions, List.zipWith_map_left]
  simp only [← hK, Nat.add_assoc]
  rfl

end NanoVllm
