/- module: NanoVllm/Inputs/Replay
   layer: main result
   source: the graph paths of nanovllm/engine/model_runner.py
   digest: After the fill a kernel reads the current step and padding, never an earlier step. -/

import NanoVllm.Engine.GraphReplay
import NanoVllm.Engine.TargetCall
import NanoVllm.Inputs.Draft
import NanoVllm.Routing.Registry
import NanoVllm.Runs.Turns

set_option autoImplicit false
set_option relaxedAutoImplicit false

namespace NanoVllm

open Library

variable {α : Type} {bs capacity width tokens slots n i : Nat} {inputs : ModelInputs}
  {tables : BlockTables}

/-- What a decode kernel reads of one row: its metadata and the table entries below
`ceil(context_len / block_size)`. -/
structure RowRead where
  inputId : Nat
  position : Int
  slot : Int
  contextLen : Int
  blocks : List Int

structure TokenRead where
  inputId : Nat
  position : Int
  slot : Int

structure SegmentRead where
  queryStart : Nat
  queryStop : Nat
  contextLen : Nat
  blocks : List Int

def readBlocks (bs : Nat) (rows : List (List Int)) (i contextLen : Nat) : List Int :=
  (rows.getD i []).take (pagesFor bs contextLen)

def DecodeFill.row (bs : Nat) (v : DecodeFill) (i : Nat) : RowRead where
  inputId := v.inputIds.getD i 0
  position := v.positions.getD i 0
  slot := v.slotMapping.getD i 0
  contextLen := v.contextLens.getD i 0
  blocks := readBlocks bs v.blockTables.rows i (v.contextLens.getD i 0).toNat

def ModelInputs.row (bs : Nat) (inputs : ModelInputs) (tables : BlockTables) (i : Nat) :
    RowRead where
  inputId := inputs.inputIds.getD i 0
  position := inputs.positions.getD i 0
  slot := inputs.context.slotMapping.getD i 0
  contextLen := inputs.context.contextLens.getD i 0
  blocks := readBlocks bs tables.rows i (inputs.context.contextLens.getD i 0).toNat

structure RowRead.Padding (r : RowRead) : Prop where
  slot : r.slot = -1
  contextLen : r.contextLen = 0
  blocks : r.blocks = []

def VarlenFill.token (v : VarlenFill) (i : Nat) : TokenRead where
  inputId := v.inputIds.getD i 0
  position := v.positions.getD i 0
  slot := v.slotMapping.getD i 0

def ModelInputs.token (inputs : ModelInputs) (i : Nat) : TokenRead where
  inputId := inputs.inputIds.getD i 0
  position := inputs.positions.getD i 0
  slot := inputs.context.slotMapping.getD i 0

def segmentRead (bs : Nat) (cuQ cuK : List Nat) (rows : List (List Int)) (j : Nat) :
    SegmentRead where
  queryStart := cuQ.getD j 0
  queryStop := cuQ.getD (j + 1) 0
  contextLen := cuK.getD (j + 1) 0 - cuK.getD j 0
  blocks := readBlocks bs rows j (cuK.getD (j + 1) 0 - cuK.getD j 0)

def VarlenFill.segment (bs : Nat) (v : VarlenFill) (j : Nat) : SegmentRead :=
  segmentRead bs v.cuQ v.cuK v.blockTables.rows j

def ModelInputs.segment (bs : Nat) (inputs : ModelInputs) (tables : BlockTables) (j : Nat) :
    SegmentRead :=
  segmentRead bs inputs.context.cuSeqlensQ inputs.context.cuSeqlensK tables.rows j

structure SegmentRead.Padding (r : SegmentRead) : Prop where
  empty : r.queryStart = r.queryStop
  contextLen : r.contextLen = 0
  blocks : r.blocks = []

private theorem assignPrefix_eq {buffer values : List α} (h : values.length = n)
    (hn : n ≤ buffer.length) : assignPrefix buffer n values = .ok (values ++ buffer.drop n) := by
  unfold assignPrefix
  dsimp only
  rw [Nat.min_eq_left hn, if_pos h]

private theorem getD_assigned {values rest : List α} (h : values.length = n) (hi : i < n) (d : α) :
    (values ++ rest).getD i d = values.getD i d :=
  List.getD_append _ _ _ _ (h ▸ hi)

private theorem getD_filled {values buffer : List α} {a : α} (h : values.length = n) (hi : n ≤ i)
    (hib : i < buffer.length) (d : α) :
    (values ++ (fillAll buffer a).drop n).getD i d = a := by
  unfold fillAll
  rw [List.getD_append_right _ _ _ _ (h ▸ hi), List.drop_replicate,
    List.getD_replicate _ (by omega)]

private theorem overlay_getD {values old : List (List Int)} (h : values.length ≤ old.length)
    (hi : i < values.length) :
    (overlay values old).getD i [] =
      values.getD i [] ++ (old.getD i []).drop (values.getD i []).length := by
  have hlt : i < (List.zipWith (fun row stale => row ++ stale.drop row.length) values old).length := by
    rw [List.length_zipWith]
    omega
  unfold overlay
  rw [List.getD_append _ _ _ _ hlt, List.getD_eq_getElem _ _ hlt, List.getElem_zipWith,
    List.getD_eq_getElem _ _ hi, List.getD_eq_getElem _ _ (hi.trans_le h)]

private theorem readBlocks_overlay {old : BlockTables} (hrows : tables.rows.length ≤ old.rows.length)
    (hi : i < tables.rows.length) {len : Nat} (hwidth : pagesFor bs len ≤ tables.width) :
    readBlocks bs (overlay tables.rows old.rows) i len = readBlocks bs tables.rows i len := by
  have hrow : (tables.rows.getD i []).length = tables.width := by
    rw [List.getD_eq_getElem _ _ hi]
    exact tables.rows_width _ (List.getElem_mem hi)
  unfold readBlocks
  rw [overlay_getD hrows hi, List.take_append_of_le_length (hrow ▸ hwidth)]

private theorem readBlocks_zero (rows : List (List Int)) : readBlocks bs rows i 0 = [] := by
  have hzero : pagesFor bs 0 = 0 := by
    unfold pagesFor
    rcases Nat.eq_zero_or_pos bs with rfl | hbs
    · exact Nat.div_zero _
    · exact Nat.div_eq_of_lt (by omega)
  unfold readBlocks
  rw [hzero, List.take_zero]

private theorem BlockTables.assign_eq (buffer : BlockTables) (hrows : tables.rows.length = n)
    (hn : n ≤ buffer.rows.length) (hwidth : tables.width ≤ buffer.width) :
    ∃ out, buffer.assign n tables = .ok out ∧ out.rows = overlay tables.rows buffer.rows := by
  unfold BlockTables.assign
  dsimp only
  have hsize : min n buffer.rows.length = n := Nat.min_eq_left hn
  simp only [hsize, if_pos hrows]
  rw [dif_pos ⟨hrows, hwidth, tables.rows_width⟩]
  exact ⟨_, rfl, rfl⟩

structure DecodeShape (n : Nat) (inputs : ModelInputs) (tables : BlockTables) : Prop where
  blockTables : inputs.context.blockTables = some tables
  inputIds : inputs.inputIds.length = n
  positions : inputs.positions.length = n
  slotMapping : inputs.context.slotMapping.length = n
  contextLens : inputs.context.contextLens.length = n
  rows : tables.rows.length = n

structure DecodeStep (bs n : Nat) (inputs : ModelInputs) (tables : BlockTables) : Prop
    extends DecodeShape n inputs tables where
  covered : ∀ i < n, pagesFor bs (inputs.context.contextLens.getD i 0).toNat ≤ tables.width

def DecodeBuffers.cleared (clear : Bool) (v : DecodeBuffers capacity width) : BlockTables :=
  if clear then v.blockTables.fill (-1) else v.blockTables

private theorem DecodeBuffers.cleared_rows (clear : Bool) (v : DecodeBuffers capacity width) :
    (v.cleared clear).rows.length = capacity := by
  unfold DecodeBuffers.cleared
  split
  · exact (List.length_replicate).trans v.blockTables_length
  · exact v.blockTables_length

private theorem DecodeBuffers.cleared_width (clear : Bool) (v : DecodeBuffers capacity width) :
    (v.cleared clear).width = width := by
  unfold DecodeBuffers.cleared
  split
  · exact v.blockTables_width
  · exact v.blockTables_width

/-- In a step that fits the rows of the buffers only the assignment of the tables can fail. -/
private theorem DecodeShape.fill_eq (h : DecodeShape n inputs tables) (clear : Bool)
    (v : DecodeBuffers capacity width) (hn : n ≤ capacity) :
    v.fill clear inputs = (do
      let blockTables ← (v.cleared clear).assign n tables
      pure
        { inputIds := inputs.inputIds ++ v.inputIds.drop n
          positions := inputs.positions ++ v.positions.drop n
          slotMapping := inputs.context.slotMapping ++ (fillAll v.slotMapping (-1)).drop n
          contextLens := inputs.context.contextLens ++ (fillAll v.contextLens 0).drop n
          blockTables := blockTables }) := by
  have hfill : ∀ {β : Type} (buffer : List β) (a : β), buffer.length = capacity →
      n ≤ (fillAll buffer a).length := by
    intro β buffer a hlen
    unfold fillAll
    rw [List.length_replicate, hlen]
    exact hn
  unfold DecodeBuffers.fill
  dsimp only
  rw [h.inputIds, Call.except_bind_of_ok (assignPrefix_eq h.inputIds (hn.trans_eq v.inputIds_length.symm)),
    Call.except_bind_of_ok (assignPrefix_eq h.positions (hn.trans_eq v.positions_length.symm)),
    Call.except_bind_of_ok (assignPrefix_eq h.slotMapping (hfill _ _ v.slotMapping_length)),
    Call.except_bind_of_ok (assignPrefix_eq h.contextLens (hfill _ _ v.contextLens_length)),
    h.blockTables]
  rfl

theorem DecodeShape.fill_ok (h : DecodeShape n inputs tables) (clear : Bool)
    (v : DecodeBuffers capacity width) (hn : n ≤ capacity) (hw : tables.width ≤ width) :
    ∃ out, v.fill clear inputs = .ok out ∧ out.inputIds.length = capacity := by
  obtain ⟨out, hassign, -⟩ := BlockTables.assign_eq (v.cleared clear) h.rows
    ((v.cleared_rows clear).symm ▸ hn) ((v.cleared_width clear).symm ▸ hw)
  refine ⟨_, (h.fill_eq clear v hn).trans (Call.except_bind_of_ok hassign), ?_⟩
  change (inputs.inputIds ++ v.inputIds.drop n).length = capacity
  rw [List.length_append, List.length_drop, h.inputIds, v.inputIds_length]
  omega

private theorem BlockTables.assign_wide {buffer : BlockTables} (stop : Nat)
    (h : buffer.width < tables.width) : buffer.assign stop tables = .error shapeMismatch := by
  unfold BlockTables.assign
  exact dif_neg fun hfits => absurd hfits.2.1 (Nat.not_le.mpr h)

theorem DecodeShape.fill_wide (h : DecodeShape n inputs tables) (clear : Bool)
    (v : DecodeBuffers capacity width) (hn : n ≤ capacity) (hw : width < tables.width) :
    v.fill clear inputs = .error shapeMismatch := by
  rw [h.fill_eq clear v hn, BlockTables.assign_wide n ((v.cleared_width clear).symm ▸ hw)]
  rfl

private theorem DecodeStep.fill (h : DecodeStep bs n inputs tables) (clear : Bool)
    (v : DecodeBuffers capacity width) (hn : n ≤ capacity) (hw : tables.width ≤ width) :
    ∃ out, v.fill clear inputs = .ok out ∧ (∀ i < n, out.row bs i = inputs.row bs tables i) ∧
      ∀ i, n ≤ i → i < capacity → (out.row bs i).Padding := by
  have hrows := v.cleared_rows clear
  obtain ⟨out, hassign, hout⟩ := BlockTables.assign_eq (v.cleared clear) h.rows (hrows.symm ▸ hn)
    ((v.cleared_width clear).symm ▸ hw)
  refine ⟨_, (h.fill_eq clear v hn).trans (Call.except_bind_of_ok hassign), ?_, ?_⟩
  · intro i hi
    unfold DecodeFill.row ModelInputs.row
    dsimp only
    rw [getD_assigned h.inputIds hi, getD_assigned h.positions hi, getD_assigned h.slotMapping hi,
      getD_assigned h.contextLens hi, hout,
      readBlocks_overlay (by rw [h.rows, hrows]; exact hn) (h.rows ▸ hi) (h.covered i hi)]
  · intro i hi hcap
    have hlen : (inputs.context.contextLens ++ (fillAll v.contextLens 0).drop n).getD i 0 = 0 :=
      getD_filled h.contextLens hi (hcap.trans_eq v.contextLens_length.symm) 0
    refine ⟨?_, hlen, ?_⟩
    · exact getD_filled h.slotMapping hi (hcap.trans_eq v.slotMapping_length.symm) 0
    · unfold DecodeFill.row
      dsimp only
      rw [hlen]
      exact readBlocks_zero _

/-- A ragged step of `t` tokens in `n` segments whose tables hold their contexts. -/
structure RaggedStep (bs t n : Nat) (inputs : ModelInputs) (tables : BlockTables) : Prop where
  blockTables : inputs.context.blockTables = some tables
  inputIds : inputs.inputIds.length = t
  positions : inputs.positions.length = t
  slotMapping : inputs.context.slotMapping.length = t
  cuSeqlensQ : inputs.context.cuSeqlensQ.length = n + 1
  cuSeqlensK : inputs.context.cuSeqlensK.length = n + 1
  rows : tables.rows.length = n
  covered : ∀ j < n, pagesFor bs (inputs.context.cuSeqlensK.getD (j + 1) 0 -
    inputs.context.cuSeqlensK.getD j 0) ≤ tables.width

private theorem fillFrom_assigned {buffer values : List Nat} (h : values.length = n)
    (hn : n ≤ buffer.length) (a : Nat) :
    fillFrom (values ++ buffer.drop n) n a = values ++ List.replicate (buffer.length - n) a := by
  unfold fillFrom
  rw [← h, List.take_left, List.length_append, List.length_drop]
  congr 2
  omega

private theorem getD_last {values : List Nat} (h : values.length = n + 1) :
    values.getD n 0 = values.getLastD 0 := by
  rw [List.getLastD_eq_getLast?, List.getLast?_eq_getElem?, List.getD_eq_getElem?_getD, h,
    Nat.add_sub_cancel]

private theorem getD_boundary {values : List Nat} (h : values.length = n + 1) {k j : Nat} (hj : n ≤ j)
    (hjk : j < n + 1 + k) :
    (values ++ List.replicate k (values.getLastD 0)).getD j 0 = values.getLastD 0 := by
  rcases Nat.lt_or_ge j (n + 1) with hlt | hge
  · rw [List.getD_append _ _ _ _ (h ▸ hlt), show j = n by omega, getD_last h]
  · rw [List.getD_append_right _ _ _ _ (h ▸ hge), List.getD_replicate _ (by omega)]

theorem RaggedStep.fill {t : Nat} (h : RaggedStep bs t n inputs tables)
    (v : VarlenBuffers tokens slots width) {key : Nat × Nat} (hkt : t ≤ key.1) (hkn : n ≤ key.2)
    (ht : t ≤ tokens) (hn : n ≤ slots) (hw : tables.width ≤ width) :
    ∃ out, v.fill inputs key = .ok out ∧ (∀ i < t, out.token i = inputs.token i) ∧
      (∀ i, t ≤ i → i < tokens → (out.token i).slot = -1) ∧
      (∀ j < n, out.segment bs j = inputs.segment bs tables j) ∧
      (∀ j, n ≤ j → j < slots → (out.segment bs j).Padding) ∧ out.inputIds.length = tokens := by
  have hrows : (v.blockTables.fill (-1)).rows.length = slots :=
    (List.length_replicate).trans v.blockTables_length
  obtain ⟨out, hassign, hout⟩ := BlockTables.assign_eq (v.blockTables.fill (-1)) h.rows
    (hn.trans_eq hrows.symm) (hw.trans_eq v.blockTables_width.symm)
  have hslots : t ≤ (fillAll v.slotMapping (-1)).length := by
    unfold fillAll
    rw [List.length_replicate]
    exact ht.trans_eq v.slotMapping_length.symm
  have hcuQ : n + 1 ≤ v.cuQ.length := (Nat.succ_le_succ hn).trans_eq v.cuQ_length.symm
  have hcuK : n + 1 ≤ v.cuK.length := (Nat.succ_le_succ hn).trans_eq v.cuK_length.symm
  have hns : inputs.context.cuSeqlensQ.length - 1 = n := by
    rw [h.cuSeqlensQ, Nat.add_sub_cancel]
  obtain ⟨lastQ, hlastQ⟩ : ∃ lastQ, lastQ = inputs.context.cuSeqlensQ.getLastD 0 := ⟨_, rfl⟩
  obtain ⟨lastK, hlastK⟩ : ∃ lastK, lastK = inputs.context.cuSeqlensK.getLastD 0 := ⟨_, rfl⟩
  refine ⟨⟨inputs.inputIds ++ v.inputIds.drop t, inputs.positions ++ v.positions.drop t,
    inputs.context.slotMapping ++ (fillAll v.slotMapping (-1)).drop t,
    inputs.context.cuSeqlensQ ++ List.replicate (v.cuQ.length - (n + 1)) lastQ,
    inputs.context.cuSeqlensK ++ List.replicate (v.cuK.length - (n + 1)) lastK, out⟩,
    ?_, ?_, ?_, ?_, ?_, ?_⟩
  · unfold VarlenBuffers.fill
    dsimp only
    rw [hns, h.inputIds]
    refine Call.except_guard_of_not (by omega) ?_
    rw [Call.except_bind_of_ok (assignPrefix_eq h.inputIds (ht.trans_eq v.inputIds_length.symm)),
      Call.except_bind_of_ok (assignPrefix_eq h.positions (ht.trans_eq v.positions_length.symm)),
      Call.except_bind_of_ok (assignPrefix_eq h.slotMapping hslots),
      Call.except_bind_of_ok (assignPrefix_eq h.cuSeqlensQ hcuQ),
      Call.except_bind_of_ok (assignPrefix_eq h.cuSeqlensK hcuK), h.blockTables]
    dsimp only
    rw [Call.except_bind_of_ok hassign, fillFrom_assigned h.cuSeqlensQ hcuQ,
      fillFrom_assigned h.cuSeqlensK hcuK, ← hlastQ, ← hlastK]
    rfl
  · intro i hi
    unfold VarlenFill.token ModelInputs.token
    dsimp only
    rw [getD_assigned h.inputIds hi, getD_assigned h.positions hi, getD_assigned h.slotMapping hi]
  · intro i hi hcap
    exact getD_filled h.slotMapping hi (hcap.trans_eq v.slotMapping_length.symm) 0
  · intro j hj
    unfold VarlenFill.segment ModelInputs.segment segmentRead
    dsimp only
    rw [getD_assigned h.cuSeqlensQ (by omega), getD_assigned h.cuSeqlensQ (by omega),
      getD_assigned h.cuSeqlensK (by omega), getD_assigned h.cuSeqlensK (by omega), hout,
      readBlocks_overlay (by rw [h.rows, hrows]; exact hn) (h.rows ▸ hj) (h.covered j hj)]
  · intro j hj hcap
    have hspace : slots + 1 - (n + 1) = slots - n := by omega
    have hQ : ∀ i, n ≤ i → i ≤ slots → (inputs.context.cuSeqlensQ ++
        List.replicate (v.cuQ.length - (n + 1)) lastQ).getD i 0 = lastQ := by
      intro i hi hle
      rw [hlastQ, v.cuQ_length, hspace]
      exact getD_boundary h.cuSeqlensQ hi (by omega)
    have hK : ∀ i, n ≤ i → i ≤ slots → (inputs.context.cuSeqlensK ++
        List.replicate (v.cuK.length - (n + 1)) lastK).getD i 0 = lastK := by
      intro i hi hle
      rw [hlastK, v.cuK_length, hspace]
      exact getD_boundary h.cuSeqlensK hi (by omega)
    have hlen : (inputs.context.cuSeqlensK ++
        List.replicate (v.cuK.length - (n + 1)) lastK).getD (j + 1) 0 -
        (inputs.context.cuSeqlensK ++ List.replicate (v.cuK.length - (n + 1)) lastK).getD j 0 = 0 := by
      rw [hK j hj hcap.le, hK (j + 1) (by omega) hcap, Nat.sub_self]
    refine ⟨?_, hlen, ?_⟩
    · exact (hQ j hj hcap.le).trans (hQ (j + 1) (by omega) hcap).symm
    · unfold VarlenFill.segment segmentRead
      dsimp only
      rw [hlen]
      exact readBlocks_zero _
  · change (inputs.inputIds ++ v.inputIds.drop t).length = tokens
    rw [List.length_append, List.length_drop, h.inputIds, v.inputIds_length]
    omega

private theorem longest_covers {tables : List (List Nat)} {table : List Nat} (h : table ∈ tables)
    {len : Nat}
    (hbs : 0 < bs) (hcov : len ≤ table.length * bs) :
    pagesFor bs len ≤ (paddedTables tables).width :=
  ((pagesFor_le_iff hbs).mpr hcov).trans (length_le_longest h)

theorem prepareDecode_shape {rows : List RunnerRow} (h : prepareDecode bs rows = .ok inputs) :
    DecodeShape rows.length inputs (paddedTables (rows.map RunnerRow.blockTable)) := by
  obtain ⟨slots, hslots, h⟩ := Call.except_bind_ok h
  obtain ⟨tables, htables, h⟩ := Call.except_bind_ok h
  have heq : tables = paddedTables (rows.map RunnerRow.blockTable) := by
    unfold prepareBlockTables at htables
    split at htables
    · exact nomatch htables
    · exact (Except.ok.inj htables).symm
  cases h
  exact ⟨congrArg some heq, List.length_map _, List.length_map _,
    (Call.except_mapM_ok hslots).length_eq.symm, List.length_map _,
    (List.length_map _).trans (List.length_map _)⟩

private theorem prepareDecode_step {rows : List RunnerRow} (hbs : 0 < bs)
    (h : prepareDecode bs rows = .ok inputs)
    (hcov : ∀ row ∈ rows, row.numTokens ≤ row.blockTable.length * bs) :
    DecodeStep bs rows.length inputs (paddedTables (rows.map RunnerRow.blockTable)) := by
  refine ⟨prepareDecode_shape h, fun i hi => ?_⟩
  obtain ⟨slots, -, h⟩ := Call.except_bind_ok h
  obtain ⟨tables, -, h⟩ := Call.except_bind_ok h
  cases h
  have hget : (rows.map fun row => (row.numTokens : Int)).getD i 0 = (rows[i].numTokens : Int) := by
    rw [List.getD_eq_getElem _ _ (by rw [List.length_map]; exact hi), List.getElem_map]
  change pagesFor bs ((rows.map fun row => (row.numTokens : Int)).getD i 0).toNat ≤ _
  rw [hget, Int.toNat_natCast]
  exact longest_covers (List.mem_map_of_mem (List.getElem_mem hi)) hbs
    (hcov _ (List.getElem_mem hi))

private theorem prepareDraftDecode_step {rows : List DraftCycleRow} {ids : List Nat} {step : Int}
    (hbs : 0 < bs) (h : prepareDraftDecode bs rows ids step = .ok inputs)
    (hids : ids.length = rows.length) :
    DecodeStep bs rows.length inputs (paddedTables (rows.map DraftCycleRow.blockTable)) := by
  obtain ⟨slots, hslots, h⟩ := Call.except_bind_ok h
  obtain ⟨tables, htables, h⟩ := Call.except_bind_ok h
  have heq : tables = paddedTables (rows.map DraftCycleRow.blockTable) := by
    unfold prepareBlockTables at htables
    split at htables
    · exact nomatch htables
    · exact (Except.ok.inj htables).symm
  cases h
  refine ⟨⟨congrArg some heq, hids, List.length_map _,
    (Call.except_mapM_ok hslots).length_eq.symm,
    (List.length_map _).trans (List.length_map _), ?_⟩, ?_⟩
  · exact (List.length_map _).trans (List.length_map _)
  · intro i hi
    obtain ⟨lens, hlens⟩ : ∃ lens, lens =
        (rows.map fun row => (row.committedLen : Int) - 1 + step).map (· + 1) := ⟨_, rfl⟩
    have hget : lens.getD i 0 = rows[i].draftPosition step + 1 := by
      rw [hlens, List.getD_eq_getElem _ _ (by simpa using hi), List.getElem_map, List.getElem_map]
      rfl
    have hmem : rows[i].blockTable ∈ rows.map DraftCycleRow.blockTable :=
      List.mem_map_of_mem (List.getElem_mem hi)
    suffices hgoal : pagesFor bs (lens.getD i 0).toNat ≤
        (paddedTables (rows.map DraftCycleRow.blockTable)).width by
      rw [hlens] at hgoal
      exact hgoal
    rw [hget]
    rcases Int.lt_or_le (rows[i].draftPosition step) 0 with hneg | hpos
    · rw [show (rows[i].draftPosition step + 1).toNat = 0 by omega]
      exact longest_covers hmem hbs (Nat.zero_le _)
    · obtain ⟨-, hall⟩ := List.forall₂_iff_get.mp (Call.except_mapM_ok hslots)
      have hslot := hall i hi ((Call.except_mapM_ok hslots).length_eq ▸ hi)
      have hlt : (rows[i].draftPosition step).toNat < rows[i].blockTable.length * bs :=
        lt_of_positionSlot hbs hpos hslot
      refine longest_covers hmem hbs ?_
      omega

private theorem length_flatMap_congr {β γ δ : Type} {l : List β} {f : β → List γ} {g : β → List δ}
    (h : ∀ a ∈ l, (f a).length = (g a).length) : (l.flatMap f).length = (l.flatMap g).length := by
  rw [List.length_flatMap, List.length_flatMap]
  exact congrArg List.sum (List.map_congr_left h)

theorem raggedInputs_step {rows : List RunnerRow} (hbs : 0 < bs)
    (hcov : ∀ row ∈ rows, row.Covered bs)
    (htables : (raggedInputs bs rows).context.blockTables = some tables) {t : Nat}
    (ht : (raggedInputs bs rows).inputIds.length = t)
    (hslots : (raggedInputs bs rows).context.slotMapping.length = t) :
    RaggedStep bs t rows.length (raggedInputs bs rows) tables := by
  have heq : tables = paddedTables (rows.map RunnerRow.blockTable) := by
    cases rows with
    | nil => exact nomatch htables
    | cons first rest =>
      change (if first.blockTable.isEmpty then none else some (paddedTables _)) = some tables at htables
      split at htables
      · exact nomatch htables
      · exact (Option.some.inj htables).symm
  refine ⟨htables, ht, ?_, hslots, ?_, ?_, ?_, ?_⟩
  · refine Eq.trans (length_flatMap_congr fun row _ => ?_) hslots
    exact length_positionRange.trans length_rangeSlots.symm
  · exact length_boundaries.trans (congrArg (· + 1) (List.length_map _))
  · exact length_boundaries.trans (congrArg (· + 1) (List.length_map _))
  · rw [heq]
    exact (List.length_map _).trans (List.length_map _)
  · intro j hj
    have hlen : j < (rows.map RunnerRow.stop).length := by rwa [List.length_map]
    have hdiff := boundaries_getD_succ 0 hlen
    rw [List.getD_eq_getElem _ _ hlen, List.getElem_map] at hdiff
    change pagesFor bs ((boundaries 0 (rows.map RunnerRow.stop)).getD (j + 1) 0 -
      (boundaries 0 (rows.map RunnerRow.stop)).getD j 0) ≤ _
    rw [hdiff, heq]
    exact longest_covers (List.mem_map_of_mem (List.getElem_mem hj)) hbs
      (hcov _ (List.getElem_mem hj))

theorem verifyInputs_step {rows : List DraftCycleRow} {k : Nat} (proposals : List (List Nat))
    (hbs : 0 < bs) (hrows : ∀ row ∈ rows, row.Verifies bs k) {t : Nat}
    (ht : (verifyInputs bs k rows proposals).inputIds.length = t)
    (hslots : (verifyInputs bs k rows proposals).context.slotMapping.length = t) :
    RaggedStep bs t rows.length (verifyInputs bs k rows proposals)
      (paddedTables (rows.map DraftCycleRow.blockTable)) := by
  refine ⟨rfl, ht, ?_, hslots, ?_, ?_, ?_, ?_⟩
  · refine Eq.trans (length_flatMap_congr fun row _ => ?_) hslots
    exact length_positionRange.trans length_rangeSlots.symm
  · exact length_boundaries.trans (congrArg (· + 1) (List.length_map _))
  · exact length_boundaries.trans (congrArg (· + 1) (List.length_map _))
  · exact (List.length_map _).trans (List.length_map _)
  · intro j hj
    have hlen : j < (rows.map fun row => row.committedLen + k).length := by rwa [List.length_map]
    have hdiff := boundaries_getD_succ 0 hlen
    rw [List.getD_eq_getElem _ _ hlen, List.getElem_map] at hdiff
    change pagesFor bs ((boundaries 0 (rows.map fun row => row.committedLen + k)).getD (j + 1) 0 -
      (boundaries 0 (rows.map fun row => row.committedLen + k)).getD j 0) ≤ _
    rw [hdiff]
    exact longest_covers (List.mem_map_of_mem (List.getElem_mem hj)) hbs
      (hrows _ (List.getElem_mem hj)).covered

theorem selectDecodeGraph_fits {enforceEager : Bool} {graphBs graphs : List Nat} {key : Nat}
    (h : selectDecodeGraph enforceEager graphBs graphs n = some key) :
    key ∈ graphBs ∧ key ∈ graphs ∧ n ≤ key := by
  unfold selectDecodeGraph at h
  split at h
  · exact nomatch h
  · have hsome := List.find?_some h
    rw [Bool.and_eq_true, decide_eq_true_eq, decide_eq_true_eq] at hsome
    exact ⟨List.mem_of_find?_eq_some h, hsome.2, hsome.1⟩

private theorem draftGraphKey_fits {graphBs : List Nat} {route : DraftRouteKey} {key : Nat}
    (h : draftGraphKey graphBs width inputs route = .ok key) :
    key ∈ graphBs ∧ inputs.inputIds.length ≤ key ∧
      ∃ tables, inputs.context.blockTables = some tables ∧ tables.width ≤ width := by
  unfold draftGraphKey at h
  obtain ⟨-, h⟩ := Call.except_guard h
  obtain ⟨-, h⟩ := Call.except_guard h
  obtain ⟨hkey, h⟩ := Call.except_guard h
  cases htables : inputs.context.blockTables with
  | none =>
    rw [htables] at h
    exact nomatch h
  | some tables =>
    rw [htables] at h
    obtain ⟨hwidth, h⟩ := Call.except_guard h
    obtain rfl := Except.ok.inj h
    simp only [not_or, not_not, not_lt] at hkey hwidth
    exact ⟨hkey.1, hkey.2.2, tables, rfl, hwidth.2⟩

theorem foldl_minKey_mem (keys : List (Nat × Nat)) (key : Nat × Nat) :
    keys.foldl minKey key ∈ key :: keys := by
  induction keys generalizing key with
  | nil => exact List.mem_cons_self
  | cons next keys ih =>
    rcases List.mem_cons.mp (ih (minKey key next)) with hmem | hmem
    · have hmin : minKey key next = key ∨ minKey key next = next := by
        unfold minKey
        split
        · exact Or.inl rfl
        · exact Or.inr rfl
      rw [List.foldl_cons, hmem]
      rcases hmin with hmin | hmin
      · rw [hmin]
        exact List.mem_cons_self
      · rw [hmin]
        exact List.mem_cons_of_mem _ List.mem_cons_self
    · exact List.mem_cons_of_mem _ (List.mem_cons_of_mem _ hmem)

theorem selectVarlenGraph_fits {maxModelLen : Nat} {graphs : List (Nat × Nat)} {key : Nat × Nat}
    (h : selectVarlenGraph maxModelLen width graphs inputs = some key) :
    key ∈ graphs ∧ inputs.inputIds.length ≤ key.1 ∧
      inputs.context.cuSeqlensQ.length - 1 ≤ key.2 ∧
      inputs.context.slotMapping.length = inputs.inputIds.length ∧
      ∃ tables, inputs.context.blockTables = some tables ∧ tables.width ≤ width := by
  unfold selectVarlenGraph at h
  cases htables : inputs.context.blockTables with
  | none =>
    rw [htables] at h
    exact nomatch h
  | some tables =>
    rw [htables] at h
    dsimp only at h
    cases hselect : selectVarlenGraphKey graphs inputs.inputIds.length
        (inputs.context.cuSeqlensQ.length - 1) with
    | none =>
      rw [hselect] at h
      exact nomatch h
    | some chosen =>
      rw [hselect] at h
      dsimp only at h
      split at h
      swap
      · exact nomatch h
      next hfits =>
      obtain rfl := Option.some.inj h
      unfold varlenContextFitsGraph at hfits
      rw [htables] at hfits
      simp only [Bool.and_eq_true, decide_eq_true_eq] at hfits
      unfold selectVarlenGraphKey at hselect
      split at hselect
      · exact nomatch hselect
      have hmem : chosen ∈ graphs.filter fun key => inputs.inputIds.length ≤ key.1 ∧
          inputs.context.cuSeqlensQ.length - 1 ≤ key.2 := by
        split at hselect
        · exact nomatch hselect
        next first keys hkeys =>
        rw [hkeys, ← Option.some.inj hselect]
        exact foldl_minKey_mem keys first
      obtain ⟨hin, hbounds⟩ := List.mem_filter.mp hmem
      rw [decide_eq_true_eq] at hbounds
      exact ⟨hin, hbounds.1, hbounds.2, hfits.1.1.1.1.1, tables, rfl, hfits.2⟩

private theorem le_getLastD_of_mem {l : List Nat} (h : l.Pairwise (· ≤ ·)) {a : Nat} (ha : a ∈ l) :
    a ≤ l.getLastD 0 := by
  induction l generalizing a with
  | nil => exact absurd ha List.not_mem_nil
  | cons b l ih =>
    obtain ⟨hb, hl⟩ := List.pairwise_cons.mp h
    rw [List.getLastD_cons]
    cases l with
    | nil => exact (List.mem_singleton.mp ha).le
    | cons c l =>
      rw [List.getLastD_cons]
      rw [List.getLastD_cons] at ih
      rcases List.mem_cons.mp ha with rfl | ha
      · exact (hb c List.mem_cons_self).trans (ih hl List.mem_cons_self)
      · exact ih hl ha

theorem varlenGraphKeys_le {cfg : Config} {key : Nat × Nat} (h : key ∈ varlenGraphKeys cfg) :
    key.1 ≤ (varlenTs cfg).getLastD 0 ∧ key.2 ≤ cfg.maxNumSeqs + 1 := by
  obtain ⟨t, ht, hkey⟩ := List.mem_flatMap.mp h
  obtain ⟨sl, hsl, hsome⟩ := List.mem_filterMap.mp hkey
  obtain ⟨cuts, -, rfl⟩ := Option.map_eq_some_iff.mp hsome
  have hsorted : (varlenTs cfg).Pairwise (· ≤ ·) := by
    refine List.Pairwise.filter _ ?_
    decide
  refine ⟨le_getLastD_of_mem hsorted (List.mem_reverse.mp ht), ?_⟩
  have hin := List.mem_reverse.mp hsl
  unfold varlenSlots at hin
  dsimp only at hin ⊢
  split at hin
  · exact (List.mem_singleton.mp hin).le
  · rcases List.mem_cons.mp hin with rfl | hin
    · exact Nat.min_le_right _ _
    · exact (List.mem_singleton.mp hin).le

/-- Two fills of a decode graph of `key` rows show the same step and padding after it. -/
structure FreshRows (bs capacity key n : Nat) (inputs : ModelInputs) (tables : BlockTables)
    (out out' : DecodeFill) : Prop where
  room : n ≤ key ∧ key ≤ capacity
  live : ∀ i < n, out.row bs i = inputs.row bs tables i ∧ out'.row bs i = inputs.row bs tables i
  padding : ∀ i, n ≤ i → i < key → (out.row bs i).Padding ∧ (out'.row bs i).Padding

/-- Two fills of a varlen graph of `key.1` tokens and `key.2` segments show the same step and
padding after it. -/
structure FreshSegments (bs tokens slots : Nat) (key : Nat × Nat) (t n : Nat)
    (inputs : ModelInputs) (tables : BlockTables) (out out' : VarlenFill) : Prop where
  room : t ≤ key.1 ∧ key.1 ≤ tokens ∧ n ≤ key.2 ∧ key.2 ≤ slots
  live_tokens : ∀ i < t, out.token i = inputs.token i ∧ out'.token i = inputs.token i
  padding_tokens : ∀ i, t ≤ i → i < key.1 → (out.token i).slot = -1 ∧ (out'.token i).slot = -1
  live_segments : ∀ j < n, out.segment bs j = inputs.segment bs tables j ∧
    out'.segment bs j = inputs.segment bs tables j
  padding_segments : ∀ j, n ≤ j → j < key.2 →
    (out.segment bs j).Padding ∧ (out'.segment bs j).Padding

private theorem DecodeStep.fresh (h : DecodeStep bs n inputs tables) (clear : Bool) {key : Nat}
    (hkey : n ≤ key) (hcap : key ≤ capacity) (hw : tables.width ≤ width)
    (v v' : DecodeBuffers capacity width) :
    ∃ out out', v.fill clear inputs = .ok out ∧ v'.fill clear inputs = .ok out' ∧
      FreshRows bs capacity key n inputs tables out out' := by
  obtain ⟨out, hout, hlive, hpad⟩ := h.fill clear v (hkey.trans hcap) hw
  obtain ⟨out', hout', hlive', hpad'⟩ := h.fill clear v' (hkey.trans hcap) hw
  exact ⟨out, out', hout, hout', ⟨hkey, hcap⟩, fun i hi => ⟨hlive i hi, hlive' i hi⟩,
    fun i hi hik => ⟨hpad i hi (hik.trans_le hcap), hpad' i hi (hik.trans_le hcap)⟩⟩

private theorem RaggedStep.fresh {t : Nat} (h : RaggedStep bs t n inputs tables) {key : Nat × Nat}
    (hkt : t ≤ key.1) (hkn : n ≤ key.2) (ht : key.1 ≤ tokens) (hn : key.2 ≤ slots)
    (hw : tables.width ≤ width) (v v' : VarlenBuffers tokens slots width) :
    ∃ out out', v.fill inputs key = .ok out ∧ v'.fill inputs key = .ok out' ∧
      FreshSegments bs tokens slots key t n inputs tables out out' := by
  obtain ⟨out, hout, h1, h2, h3, h4, -⟩ := h.fill v hkt hkn (hkt.trans ht) (hkn.trans hn) hw
  obtain ⟨out', hout', h1', h2', h3', h4', -⟩ := h.fill v' hkt hkn (hkt.trans ht) (hkn.trans hn) hw
  exact ⟨out, out', hout, hout', ⟨hkt, ht, hkn, hn⟩, fun i hi => ⟨h1 i hi, h1' i hi⟩,
    fun i hi hik => ⟨h2 i hi (hik.trans_le ht), h2' i hi (hik.trans_le ht)⟩,
    fun j hj => ⟨h3 j hj, h3' j hj⟩,
    fun j hj hjk => ⟨h4 j hj (hjk.trans_le hn), h4' j hj (hjk.trans_le hn)⟩⟩

private theorem BlockTables.width_of_assign {buffer tables out : BlockTables} {stop : Nat}
    (h : buffer.assign stop tables = .ok out) : tables.width ≤ buffer.width := by
  by_contra hwide
  rw [BlockTables.assign_wide stop (Nat.not_le.mp hwide)] at h
  exact nomatch h

private theorem DecodeBuffers.width_of_fill {clear : Bool} {v : DecodeBuffers capacity width}
    {out : DecodeFill} (htables : inputs.context.blockTables = some tables)
    (h : v.fill clear inputs = .ok out) : tables.width ≤ width := by
  unfold DecodeBuffers.fill at h
  dsimp only at h
  rw [htables] at h
  obtain ⟨_, _, hpositions⟩ := Call.except_bind_ok h
  obtain ⟨_, _, hslots⟩ := Call.except_bind_ok hpositions
  obtain ⟨_, _, hlens⟩ := Call.except_bind_ok hslots
  obtain ⟨_, _, hassigns⟩ := Call.except_bind_ok hlens
  obtain ⟨assigned, hassign, -⟩ := Call.except_bind_ok hassigns
  exact (BlockTables.width_of_assign hassign).trans_eq (v.cleared_width clear)

theorem longest_le_iff {tables : List (List Nat)} :
    longest tables ≤ width ↔ ∀ table ∈ tables, table.length ≤ width := by
  refine ⟨fun h table htable => (length_le_longest htable).trans h, fun h => ?_⟩
  induction tables with
  | nil => exact Nat.zero_le _
  | cons table tables ih =>
    exact max_le (h table List.mem_cons_self) (ih fun other hother =>
      h other (List.mem_cons_of_mem _ hother))

/-- On the draft-decode and both varlen paths, whose choice of a graph checks the width of the
tables, the fill of any two buffers of the captured shapes shows an admitted step itself, then
padding, within the chosen graph. The decode path does so exactly when the tables fit. -/
theorem graph_replay_fresh (cfg : Config) :
    (∀ (enforceEager : Bool) (graphs : List Nat) (rows : List RunnerRow) (inputs : ModelInputs)
      (key : Nat) (v v' : DecodeBuffers (min cfg.maxNumSeqs maxCudaGraphBatchSize)
        (pagesFor cfg.kvcacheBlockSize cfg.maxModelLen)),
      prepareDecode cfg.kvcacheBlockSize rows = .ok inputs →
      (∀ row ∈ rows, row.numTokens ≤ row.blockTable.length * cfg.kvcacheBlockSize) →
      selectDecodeGraph enforceEager (captureBuckets cfg) graphs inputs.inputIds.length = some key →
      ((∃ out out', v.fill false inputs = .ok out ∧ v'.fill false inputs = .ok out' ∧
        FreshRows cfg.kvcacheBlockSize (min cfg.maxNumSeqs maxCudaGraphBatchSize) key rows.length
          inputs (paddedTables (rows.map RunnerRow.blockTable)) out out') ↔
        ∀ row ∈ rows, row.blockTable.length ≤ pagesFor cfg.kvcacheBlockSize cfg.maxModelLen)) ∧
    (∀ (batchCap : Nat) (rows : List DraftCycleRow) (ids : List Nat) (step : Int)
      (inputs : ModelInputs) (route : DraftRouteKey) (key : Nat)
      (v v' : DecodeBuffers batchCap (pagesFor cfg.kvcacheBlockSize cfg.maxModelLen)),
      ids.length = rows.length →
      prepareDraftDecode cfg.kvcacheBlockSize rows ids step = .ok inputs →
      draftGraphKey (draftGraphBatchBuckets batchCap)
        (pagesFor cfg.kvcacheBlockSize cfg.maxModelLen) inputs route = .ok key →
      ∃ out out', v.fill true inputs = .ok out ∧ v'.fill true inputs = .ok out' ∧
        FreshRows cfg.kvcacheBlockSize batchCap key rows.length inputs
          (paddedTables (rows.map DraftCycleRow.blockTable)) out out') ∧
    (∀ (rows : List RunnerRow) (inputs : ModelInputs) (key : Nat × Nat)
      (v v' : VarlenBuffers ((varlenTs cfg).getLastD 0) (cfg.maxNumSeqs + 1)
        (pagesFor cfg.kvcacheBlockSize cfg.maxModelLen)),
      (∀ row ∈ rows, row.Covered cfg.kvcacheBlockSize) →
      prepareRagged cfg.kvcacheBlockSize rows = .ok inputs →
      selectVarlenGraph cfg.maxModelLen (pagesFor cfg.kvcacheBlockSize cfg.maxModelLen)
        (varlenGraphKeys cfg) inputs = some key →
      ∃ tables out out', inputs.context.blockTables = some tables ∧
        v.fill inputs key = .ok out ∧ v'.fill inputs key = .ok out' ∧
        FreshSegments cfg.kvcacheBlockSize ((varlenTs cfg).getLastD 0) (cfg.maxNumSeqs + 1) key
          inputs.inputIds.length rows.length inputs tables out out') ∧
    ∀ (k : Nat) (rows : List DraftCycleRow) (proposals : List (List Nat)) (inputs : ModelInputs)
      (key : Nat × Nat) (v v' : VarlenBuffers ((varlenTs cfg).getLastD 0) (cfg.maxNumSeqs + 1)
        (pagesFor cfg.kvcacheBlockSize cfg.maxModelLen)),
      (∀ row ∈ rows, row.Verifies cfg.kvcacheBlockSize k) → proposals.length = rows.length →
      prepareTargetLogits cfg.kvcacheBlockSize k rows proposals = .ok inputs →
      selectVarlenGraph cfg.maxModelLen (pagesFor cfg.kvcacheBlockSize cfg.maxModelLen)
        (varlenGraphKeys cfg) inputs = some key →
      ∃ tables out out', inputs.context.blockTables = some tables ∧
        v.fill inputs key = .ok out ∧ v'.fill inputs key = .ok out' ∧
        FreshSegments cfg.kvcacheBlockSize ((varlenTs cfg).getLastD 0) (cfg.maxNumSeqs + 1) key
          inputs.inputIds.length rows.length inputs tables out out' := by
  have hbs : 0 < cfg.kvcacheBlockSize := lt_of_lt_of_le Nat.two_pos cfg.blockSize_ge
  refine ⟨?_, ?_, ?_, ?_⟩
  · intro enforceEager graphs rows inputs key v v' hprepare hcov hselect
    have hstep := prepareDecode_step hbs hprepare hcov
    rw [hstep.inputIds] at hselect
    obtain ⟨hbucket, -, hkey⟩ := selectDecodeGraph_fits hselect
    have hcap := (mem_draftGraphBatchBuckets hbucket).2
    have hwidth : (paddedTables (rows.map RunnerRow.blockTable)).width ≤
        pagesFor cfg.kvcacheBlockSize cfg.maxModelLen ↔
        ∀ row ∈ rows, row.blockTable.length ≤ pagesFor cfg.kvcacheBlockSize cfg.maxModelLen :=
      longest_le_iff.trans List.forall_mem_map
    rw [← hwidth]
    constructor
    · rintro ⟨out, -, hfill, -⟩
      exact DecodeBuffers.width_of_fill hstep.blockTables hfill
    · exact fun hw => hstep.fresh false hkey hcap hw v v'
  · intro batchCap rows ids step inputs route key v v' hids hprepare hselect
    have hstep := prepareDraftDecode_step hbs hprepare hids
    obtain ⟨hbucket, hkey, tables, htables, hw⟩ := draftGraphKey_fits hselect
    rw [hstep.inputIds] at hkey
    obtain rfl := Option.some.inj (hstep.blockTables.symm.trans htables)
    exact hstep.fresh true hkey (mem_draftGraphBatchBuckets hbucket).2 hw v v'
  · intro rows inputs key v v' hcov hprepare hselect
    have hne : rows ≠ [] := by
      rintro rfl
      exact nomatch hprepare
    rw [prepareRagged_eq hbs hne hcov] at hprepare
    obtain rfl := Except.ok.inj hprepare
    obtain ⟨hmem, hkt, hkn, hslots, tables, htables, hw⟩ := selectVarlenGraph_fits hselect
    have hstep := raggedInputs_step hbs hcov htables rfl hslots
    rw [hstep.cuSeqlensQ, Nat.add_sub_cancel] at hkn
    obtain ⟨ht, hn⟩ := varlenGraphKeys_le hmem
    obtain ⟨out, out', hout, hout', hfresh⟩ := hstep.fresh hkt hkn ht hn hw v v'
    exact ⟨tables, out, out', htables, hout, hout', hfresh⟩
  · intro k rows proposals inputs key v v' hrows hlen hprepare hselect
    have hne : rows ≠ [] := by
      rintro rfl
      have hnil : proposals = [] := List.length_eq_zero_iff.mp hlen
      rw [hnil] at hprepare
      exact nomatch hprepare
    rw [prepareTargetLogits_eq hne hlen hrows] at hprepare
    obtain rfl := Except.ok.inj hprepare
    obtain ⟨hmem, hkt, hkn, hslots, tables, htables, hw⟩ := selectVarlenGraph_fits hselect
    have hstep := verifyInputs_step proposals hbs hrows rfl hslots
    obtain rfl := Option.some.inj (hstep.blockTables.symm.trans htables)
    rw [hstep.cuSeqlensQ, Nat.add_sub_cancel] at hkn
    obtain ⟨ht, hn⟩ := varlenGraphKeys_le hmem
    obtain ⟨out, out', hout, hout', hfresh⟩ := hstep.fresh hkt hkn ht hn hw v v'
    exact ⟨_, out, out', rfl, hout, hout', hfresh⟩

def Config.fourSeqs : Config :=
  { Config.sample with
    maxNumSeqs := 4
    maxNumSeqs_pos := by decide
    maxNumSeqs_le := by decide }

def DecodeBuffers.stale (capacity width n : Nat) : DecodeBuffers capacity width where
  inputIds := List.replicate capacity n
  positions := List.replicate capacity n
  slotMapping := List.replicate capacity n
  contextLens := List.replicate capacity n
  blockTables := ⟨width, List.replicate capacity (List.replicate width n), by
    intro row hrow
    rw [List.eq_of_mem_replicate hrow, List.length_replicate]⟩
  inputIds_length := List.length_replicate
  positions_length := List.length_replicate
  slotMapping_length := List.length_replicate
  contextLens_length := List.length_replicate
  blockTables_length := List.length_replicate
  blockTables_width := rfl

def decodeRow (tokenIds blockTable : List Nat) : RunnerRow :=
  .sequence
    { status := .running
      tokenIds := tokenIds
      numPromptTokens := 1
      numCachedTokens := tokenIds.length - 1
      numDraftCachedTokens := 0
      numScheduledTokens := 1
      isPrefill := false
      blockTable := blockTable
      maxTokens := 4
      ignoreEos := true }

/-- Three rows in a graph of four, over the leavings of two other steps. -/
theorem graph_replay_fresh_sample : ∃ inputs out out',
    prepareDecode 2 [decodeRow [1, 2, 3] [0, 1], decodeRow [4] [2], decodeRow [5, 6] [3]] =
      .ok inputs ∧
    (DecodeBuffers.stale 4 4 7).fill false inputs = .ok out ∧
    (DecodeBuffers.stale 4 4 9).fill false inputs = .ok out' ∧
    FreshRows 2 4 4 3 inputs (paddedTables [[0, 1], [2], [3]]) out out' := by
  obtain ⟨inputs, hprepare, hlen⟩ : ∃ inputs, prepareDecode 2
      [decodeRow [1, 2, 3] [0, 1], decodeRow [4] [2], decodeRow [5, 6] [3]] = .ok inputs ∧
      inputs.inputIds.length = 3 := ⟨_, rfl, rfl⟩
  obtain ⟨out, out', hout, hout', hfresh⟩ := ((graph_replay_fresh Config.fourSeqs).1 false
    [1, 2, 4] _ inputs 4 (.stale 4 4 7) (.stale 4 4 9) hprepare (by decide)
    (by rw [hlen]; decide)).mpr (by decide)
  exact ⟨inputs, out, out', hprepare, hout, hout', hfresh⟩

/-- Six blocks of two tokens, without speculation. -/
def Config.sixBlocks : Config := { Config.sample with numKvcacheBlocks := 6, configuredK := 0 }

/-- A prompt of six tokens, and a decode step whose target call fails. -/
def failedDecodeTurns : List Turn :=
  [.call (.add [1, 2, 3, 4, 5, 6] 2 true), .step (.sample (.ok [7])),
    .step (.sample (.error (.external "runner")))]

/-- The rows of the decode batch that is scheduled behind `turns`. -/
def decodeRows (cfg : Config) (turns : List Turn) : Option (List RunnerRow) :=
  match schedule cfg (runTurns cfg turns) with
  | .ok (batch, false) u => some (u.runnerRows batch)
  | _ => none

def wideRow : RunnerRow :=
  .sequence
    { status := .running
      tokenIds := [1, 2, 3, 4, 5, 6, 7]
      numPromptTokens := 6
      numCachedTokens := 6
      numDraftCachedTokens := 0
      numScheduledTokens := 1
      isPrefill := false
      blockTable := [0, 1, 2, 3, 4]
      maxTokens := 2
      ignoreEos := true }

/-- The failed step keeps its block, so the next decode batch has a table of five blocks for a
request of at most eight tokens. No buffer of the captured width takes it. -/
theorem wide_decode_step_raises : ∃ rows inputs,
    decodeRows Config.sixBlocks failedDecodeTurns = some rows ∧
    prepareDecode 2 rows = .ok inputs ∧
    (∀ row ∈ rows, row.numTokens ≤ row.blockTable.length * 2) ∧
    selectDecodeGraph false (captureBuckets Config.sixBlocks) (captureBuckets Config.sixBlocks)
      inputs.inputIds.length = some 1 ∧
    ∀ v : DecodeBuffers (min Config.sixBlocks.maxNumSeqs maxCudaGraphBatchSize)
        (pagesFor Config.sixBlocks.kvcacheBlockSize Config.sixBlocks.maxModelLen),
      ∃ e, v.fill false inputs = .error e := by
  have hrows : decodeRows Config.sixBlocks failedDecodeTurns = some [wideRow] := by
    decide +kernel
  obtain ⟨inputs, hprepare, hlen, htables⟩ : ∃ inputs, prepareDecode 2 [wideRow] = .ok inputs ∧
      inputs.inputIds.length = 1 ∧
      inputs.context.blockTables = some (paddedTables [[0, 1, 2, 3, 4]]) := ⟨_, rfl, rfl, rfl⟩
  refine ⟨_, inputs, hrows, hprepare, by decide, by rw [hlen]; decide, fun v => ?_⟩
  cases hfill : v.fill false inputs with
  | error e => exact ⟨e, rfl⟩
  | ok out =>
    have hwidth := DecodeBuffers.width_of_fill htables hfill
    exact absurd hwidth (by decide)

end NanoVllm
