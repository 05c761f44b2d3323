/- module: NanoVllm/Inputs/Aligned
   layer: refinement
   source: the prepare functions of nanovllm/engine/model_runner.py and target_logits of
     nanovllm/engine/speculative_execution.py
   digest: What every prepare function makes of the tokens that a pass feeds to each row. -/

import NanoVllm.Inputs.Draft

set_option autoImplicit false
set_option relaxedAutoImplicit false

namespace NanoVllm

open Library

variable {bs k : Nat} {seqs : List RunnerRow} {rows : List DraftCycleRow}

/-- The tokens that a pass feeds to one row, from a position on. -/
structure Chunk where
  table : List Nat
  start : Nat
  words : List Nat

namespace Chunk

def size (c : Chunk) : Nat := c.words.length

def stop (c : Chunk) : Nat := c.start + c.size

def positions (c : Chunk) : List Int := positionRange c.start c.size

def contextLengths (c : Chunk) : List Int := positionRange (c.start + 1) c.size

def slots (bs : Nat) (c : Chunk) : List Int := rangeSlots bs c.table c.start c.size

end Chunk

/-- The lists of the inputs are those of the chunks in order, one entry a token. A pass without
cuts feeds one token a row. -/
structure Aligned (bs : Nat) (chunks : List Chunk) (inputs : ModelInputs) : Prop where
  inputIds : inputs.inputIds = chunks.flatMap Chunk.words
  positions : inputs.positions = chunks.flatMap Chunk.positions
  slotMapping : inputs.context.slotMapping = chunks.flatMap (Chunk.slots bs)
  contextLengths : inputs.context.queryContextLengths = chunks.flatMap Chunk.contextLengths
  sequenceIds : inputs.context.querySequenceIds =
    (chunks.zipIdx 0).flatMap fun e => List.replicate e.1.size e.2
  cuts : if inputs.context.isPrefill then
      inputs.context.cuSeqlensQ = boundaries 0 (chunks.map Chunk.size) ∧
        inputs.context.cuSeqlensK = boundaries 0 (chunks.map Chunk.stop)
    else (∀ c ∈ chunks, c.size = 1) ∧
      inputs.context.contextLens = inputs.context.queryContextLengths

private theorem flatMap_singles {α : Type} {f : α → Chunk} {items : List α}
    (h : ∀ a ∈ items, (f a).size = 1) :
    ((items.map f).zipIdx 0).flatMap (fun e => List.replicate e.1.size e.2) =
      List.range items.length := by
  have hone : ∀ e ∈ (items.map f).zipIdx 0, List.replicate e.1.size e.2 = [e.2] := by
    intro e he
    obtain ⟨a, ha, heq⟩ := List.mem_map.mp
      (List.mem_of_getElem? (List.mem_zipIdx_iff_getElem?.mp he))
    rw [← heq, h a ha]
    rfl
  rw [List.flatMap_congr hone, ← List.map_eq_flatMap, List.zipIdx_map_snd, List.length_map,
    List.range_eq_range']

def RunnerRow.chunk (row : RunnerRow) : Chunk where
  table := row.blockTable
  start := row.numCachedTokens
  words := row.inputTokens

private theorem zipIdx_map {α β : Type} (f : α → β) (items : List α) (n : Nat) :
    (items.map f).zipIdx n = (items.zipIdx n).map fun e => (f e.1, e.2) := by
  rw [List.zipIdx_map]
  rfl

theorem raggedInputs_aligned
    (h : ∀ row ∈ seqs, row.inputTokens.length = row.numScheduledTokens) :
    Aligned bs (seqs.map RunnerRow.chunk) (raggedInputs bs seqs) where
  inputIds := by
    rw [List.flatMap_map]
    rfl
  positions := by
    rw [List.flatMap_map]
    refine List.flatMap_congr fun row hrow => ?_
    show row.positions = positionRange row.numCachedTokens row.inputTokens.length
    rw [h row hrow]
    rfl
  slotMapping := by
    rw [List.flatMap_map]
    refine List.flatMap_congr fun row hrow => ?_
    show row.slots bs = rangeSlots bs row.blockTable row.numCachedTokens row.inputTokens.length
    rw [h row hrow]
    rfl
  contextLengths := by
    rw [List.flatMap_map]
    refine List.flatMap_congr fun row hrow => ?_
    show row.contextLengths = positionRange (row.numCachedTokens + 1) row.inputTokens.length
    rw [h row hrow]
    rfl
  sequenceIds := by
    rw [zipIdx_map, List.flatMap_map]
    refine List.flatMap_congr fun e he => ?_
    have hrow := List.mem_of_getElem? (List.mem_zipIdx_iff_getElem?.mp he)
    show List.replicate e.1.numScheduledTokens e.2 = List.replicate e.1.inputTokens.length e.2
    rw [h e.1 hrow]
  cuts := by
    have hsize : ∀ row ∈ seqs, (Chunk.size ∘ RunnerRow.chunk) row = row.numScheduledTokens := h
    have hstop : ∀ row ∈ seqs, (Chunk.stop ∘ RunnerRow.chunk) row = row.stop := by
      intro row hrow
      show row.numCachedTokens + row.inputTokens.length = _
      rw [h row hrow]
      rfl
    rw [List.map_map, List.map_map, List.map_congr_left hsize, List.map_congr_left hstop]
    exact ⟨rfl, rfl⟩

/-- The last token of a row, whose other tokens are cached. -/
def RunnerRow.lastChunk (row : RunnerRow) : Chunk where
  table := row.blockTable
  start := row.numTokens - 1
  words := [row.lastToken]

theorem decodeInputs_aligned (hpos : ∀ row ∈ seqs, 0 < row.numTokens) :
    Aligned bs (seqs.map RunnerRow.lastChunk) (decodeInputs bs seqs) where
  inputIds := by
    rw [List.flatMap_map]
    exact List.map_eq_flatMap
  positions := by
    rw [List.flatMap_map]
    refine List.map_eq_flatMap.trans (List.flatMap_congr fun row hrow => ?_)
    have hlen := hpos row hrow
    show [(row.numTokens : Int) - 1] = [((row.numTokens - 1 : Nat) : Int)]
    rw [Nat.cast_pred hlen]
  slotMapping := by
    rw [List.flatMap_map]
    exact List.map_eq_flatMap
  contextLengths := by
    rw [List.flatMap_map]
    refine List.map_eq_flatMap.trans (List.flatMap_congr fun row hrow => ?_)
    have hlen := hpos row hrow
    show [(row.numTokens : Int)] = [((row.numTokens - 1 + 1 : Nat) : Int)]
    rw [Nat.sub_add_cancel hlen]
  sequenceIds := by
    rw [flatMap_singles fun _ _ => rfl]
    show List.range (seqs.map _).length = _
    rw [List.length_map]
  cuts := by
    refine ⟨fun c hc => ?_, rfl⟩
    obtain ⟨row, -, rfl⟩ := List.mem_map.mp hc
    rfl

/-- The committed tokens that the draft has not cached. -/
def DraftCycleRow.laggingChunk (row : DraftCycleRow) : Chunk where
  table := row.blockTable
  start := row.draftCachedTokens
  words := (row.tokenIds.drop row.draftCachedTokens).take
    (row.committedLen - 1 - row.draftCachedTokens)

theorem catchupInputs_aligned
    (h : ∀ row ∈ rows, row.Lags → row.committedLen ≤ row.tokenIds.length) :
    Aligned bs ((rows.filter fun row => row.draftCachedTokens < row.committedLen - 1).map
      DraftCycleRow.laggingChunk) (catchupInputs bs rows) := by
  have hfeeds : ∀ row ∈ laggingRows rows,
      row.inputTokens.length = row.numScheduledTokens := by
    intro row hrow
    obtain ⟨view, hview, rfl⟩ := List.mem_map.mp hrow
    obtain ⟨lagging, hlagging, rfl⟩ := List.mem_map.mp hview
    obtain ⟨hmem, hlt⟩ := List.mem_filter.mp hlagging
    have hlag : lagging.draftCachedTokens < lagging.committedLen - 1 := by simpa using hlt
    have hlen := h lagging hmem hlag
    show ((lagging.tokenIds.drop lagging.draftCachedTokens).take _).length =
      lagging.committedLen - 1 - lagging.draftCachedTokens
    rw [List.length_take, List.length_drop]
    omega
  have hragged : Aligned bs _ _ := raggedInputs_aligned hfeeds
  have hchunks : (laggingRows rows).map RunnerRow.chunk =
      (rows.filter fun row => row.draftCachedTokens < row.committedLen - 1).map
        DraftCycleRow.laggingChunk := by
    unfold laggingRows
    rw [List.map_map, List.map_map]
    rfl
  rw [hchunks] at hragged
  exact ⟨hragged.inputIds, hragged.positions, hragged.slotMapping, hragged.contextLengths,
    hragged.sequenceIds, hragged.cuts⟩

/-- The token of a draft step, at the position of the step. -/
def DraftCycleRow.draftChunk (step : Int) (row : DraftCycleRow) (id : Nat) : Chunk where
  table := row.blockTable
  start := (row.draftPosition step).toNat
  words := [id]

private theorem map_fst_flatMap {α β γ : Type} {items : List α} {others : List β}
    (hlen : others.length = items.length) (f : α → γ) :
    items.map f = (items.zip others).flatMap fun e => [f e.1] := by
  nth_rewrite 1 [← List.map_fst_zip hlen.ge]
  rw [List.map_map, List.map_eq_flatMap]
  rfl

theorem draftInputs_aligned {ids : List Nat} {step : Int} (hlen : ids.length = rows.length)
    (h : ∀ row ∈ rows, 0 ≤ row.draftPosition step) :
    Aligned bs ((rows.zip ids).map fun e => e.1.draftChunk step e.2)
      (draftInputs bs rows ids step) where
  inputIds := by
    rw [List.flatMap_map]
    show ids = _
    nth_rewrite 1 [← List.map_snd_zip hlen.le]
    exact List.map_eq_flatMap
  positions := by
    rw [List.flatMap_map]
    refine (map_fst_flatMap hlen _).trans (List.flatMap_congr fun e he => ?_)
    have hpos := h e.1 (List.of_mem_zip he).1
    show [e.1.draftPosition step] = [(((e.1.draftPosition step).toNat : Nat) : Int)]
    rw [Int.toNat_of_nonneg hpos]
  slotMapping := by
    rw [List.flatMap_map]
    exact map_fst_flatMap hlen _
  contextLengths := by
    rw [List.flatMap_map]
    show (rows.map fun row => row.draftPosition step).map (· + 1) = _
    rw [List.map_map]
    refine (map_fst_flatMap hlen _).trans (List.flatMap_congr fun e he => ?_)
    have hpos := h e.1 (List.of_mem_zip he).1
    show [e.1.draftPosition step + 1] = [(((e.1.draftPosition step).toNat + 1 : Nat) : Int)]
    rw [Nat.cast_add_one, Int.toNat_of_nonneg hpos]
  sequenceIds := by
    rw [flatMap_singles fun _ _ => rfl]
    show List.range (rows.map _).length = _
    rw [List.length_map, List.length_zip, hlen, Nat.min_self]
  cuts := by
    refine ⟨fun c hc => ?_, rfl⟩
    obtain ⟨e, -, rfl⟩ := List.mem_map.mp hc
    rfl

/-- The last token of a row and its proposals. -/
def DraftCycleRow.verifyChunk (row : DraftCycleRow) (drafted : List Nat) : Chunk where
  table := row.blockTable
  start := row.committedLen - 1
  words := row.tokenIds.getD (row.tokenIds.length - 1) 0 :: drafted

theorem verifyInputs_aligned {proposals : List (List Nat)} (hlen : proposals.length = rows.length)
    (hk : ∀ drafted ∈ proposals, drafted.length = k) (h : ∀ row ∈ rows, row.Verifies bs k) :
    Aligned bs ((rows.zip proposals).map fun e => e.1.verifyChunk e.2)
      (verifyInputs bs k rows proposals) := by
  have hfst : (rows.zip proposals).map Prod.fst = rows := List.map_fst_zip hlen.ge
  have hsize : ∀ e ∈ rows.zip proposals, (e.1.verifyChunk e.2).size = k + 1 := by
    intro e he
    show (_ :: e.2).length = k + 1
    rw [List.length_cons, hk e.2 (List.of_mem_zip he).2]
  have hrows : ∀ {β : Type} (f : DraftCycleRow → List β),
      rows.flatMap f = (rows.zip proposals).flatMap fun e => f e.1 := by
    intro β f
    nth_rewrite 1 [← hfst]
    rw [List.flatMap_map]
  have hpos : ∀ e ∈ rows.zip proposals, 0 < e.1.committedLen :=
    fun e he => (h e.1 (List.of_mem_zip he).1).committed_pos
  refine ⟨?_, ?_, ?_, ?_, ?_, ?_, ?_⟩
  · rw [List.flatMap_map]
    show (List.zipWith _ rows proposals).flatten = _
    rw [← List.map_uncurry_zip_eq_zipWith, List.flatMap_def]
    rfl
  · rw [List.flatMap_map]
    refine (hrows _).trans (List.flatMap_congr fun e he => ?_)
    unfold Chunk.positions
    rw [hsize e he]
    rfl
  · rw [List.flatMap_map]
    refine (hrows (DraftCycleRow.querySlots bs k)).trans (List.flatMap_congr fun e he => ?_)
    unfold Chunk.slots
    rw [hsize e he]
    rfl
  · rw [List.flatMap_map]
    refine (hrows _).trans (List.flatMap_congr fun e he => ?_)
    have hcommitted := hpos e he
    unfold Chunk.contextLengths positionRange
    rw [hsize e he, List.range'_eq_map_range, List.map_map]
    refine List.map_congr_left fun step _ => ?_
    show (e.1.committedLen : Int) + step = ((e.1.committedLen - 1 + 1 + step : Nat) : Int)
    omega
  · have hsnd : ((rows.zip proposals).zipIdx 0).map Prod.snd = List.range rows.length := by
      rw [List.zipIdx_map_snd, List.length_zip, hlen, Nat.min_self, List.range_eq_range']
    show (List.range rows.length).flatMap (List.replicate (k + 1)) = _
    rw [← hsnd, List.flatMap_map, zipIdx_map, List.flatMap_map]
    refine List.flatMap_congr fun e he => ?_
    have hmem := List.mem_of_getElem? (List.mem_zipIdx_iff_getElem?.mp he)
    rw [hsize e.1 hmem]
  · show boundaries 0 (rows.map fun _ => k + 1) = _
    nth_rewrite 1 [← hfst]
    rw [List.map_map, List.map_map]
    exact congrArg _ (List.map_congr_left fun e he => (hsize e he).symm)
  · show boundaries 0 (rows.map fun row => row.committedLen + k) = _
    nth_rewrite 1 [← hfst]
    rw [List.map_map, List.map_map]
    refine congrArg _ (List.map_congr_left fun e he => ?_)
    have hcommitted := hpos e he
    show e.1.committedLen + k = e.1.committedLen - 1 + (e.1.verifyChunk e.2).size
    rw [hsize e he]
    omega

end NanoVllm
