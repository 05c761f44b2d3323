/- module: NanoVllm/Inputs/Attention
   layer: refinement
   source: nanovllm/layers/attention.py behind prepare_ragged, prepare_decode and target_logits
   digest: The queries of every prepared step are the scheduled positions of its rows. -/

import NanoVllm.Inputs.Aligned
import NanoVllm.Inputs.Queries
import NanoVllm.Layers.Attention

set_option autoImplicit false
set_option relaxedAutoImplicit false

namespace NanoVllm

open Library

variable {bs : Nat} {table : List Nat} {words : List Nat} {start p i : Nat}

/-- The slot of a position as an entry of a slot tensor. -/
def rowSlot (bs : Nat) (table : List Nat) (p : Nat) : Int := (slotAt bs table p : Int)

def chunkQueries (bs : Nat) (table : List Nat) (start : Nat) (words : List Nat) :
    List (Query Int Nat) :=
  (words.zipIdx start).map fun e =>
    { word := e.1
      reads := (List.range e.2).map (rowSlot bs table)
      slot := rowSlot bs table e.2 }

section Chunks

variable {inputs : ModelInputs} {chunks : List Chunk}

private theorem keySlot_eq
    (htables : inputs.context.blockTables = some (paddedTables (chunks.map Chunk.table)))
    {c : Chunk} (hc : chunks[i]? = some c) (hp : p < c.table.length * bs) :
    inputs.context.keySlot bs i p = rowSlot bs c.table p := by
  have hpage := div_lt_of_lt_mul hp
  have hrow : (inputs.context.blockTables.elim [] BlockTables.rows).getD i [] =
      paddedTable (longest (chunks.map Chunk.table)) c.table := by
    rw [htables]
    show ((chunks.map Chunk.table).map _).getD i [] = _
    rw [List.getD_eq_getElem?_getD, List.getElem?_map, List.getElem?_map, hc]
    rfl
  have hentry : (paddedTable (longest (chunks.map Chunk.table)) c.table).getD (p / bs) (-1) =
      (c.table.getD (p / bs) 0 : Nat) := by
    unfold paddedTable
    rw [List.getD_append _ _ _ _ (by simpa using hpage), List.getD_eq_getElem _ _ hpage,
      List.getD_eq_getElem _ _ (by simpa using hpage)]
    simp
  unfold ModelContext.keySlot rowSlot slotAt
  dsimp only
  rw [hrow, hentry]
  push_cast
  rfl

private theorem chunk_entries (owner : Nat) (words : List Nat) : ∀ start : Nat,
    (((words.zip (List.replicate words.length owner)).zip
        (positionRange (start + 1) words.length)).zip
        (rangeSlots bs table start words.length)) =
      (words.zipIdx start).map fun e =>
        (((e.1, owner), ((e.2 + 1 : Nat) : Int)), rowSlot bs table e.2) := by
  induction words with
  | nil => exact fun _ => rfl
  | cons word words ih =>
    intro start
    have hrest := ih (start + 1)
    unfold positionRange rangeSlots at hrest ⊢
    simp only [List.length_cons, List.replicate_succ, List.range'_succ, List.map_cons,
      List.zip_cons_cons, List.zipIdx_cons, hrest]
    rfl

/-- Without a dropped slot, the entries of aligned inputs are those of the chunks in order. -/
private theorem Aligned.entries (h : Aligned bs chunks inputs) :
    inputs.entries = (chunks.zipIdx 0).flatMap fun e => (e.1.words.zipIdx e.1.start).map fun w =>
      (((w.1, e.2), ((w.2 + 1 : Nat) : Int)), rowSlot bs e.1.table w.2) := by
  have hentries : ∀ (l : List Chunk) (k : Nat),
      (((l.flatMap Chunk.words).zip ((l.zipIdx k).flatMap fun e =>
        List.replicate e.1.size e.2)).zip (l.flatMap Chunk.contextLengths)).zip
          (l.flatMap (Chunk.slots bs)) =
        (l.zipIdx k).flatMap fun e => (e.1.words.zipIdx e.1.start).map fun w =>
          (((w.1, e.2), ((w.2 + 1 : Nat) : Int)), rowSlot bs e.1.table w.2) := by
    intro l
    induction l with
    | nil => exact fun _ => rfl
    | cons c l ih =>
      intro k
      simp only [List.flatMap_cons, List.zipIdx_cons]
      rw [List.zip_append (by simp [Chunk.size]),
        List.zip_append (by simp [Chunk.size, Chunk.contextLengths, length_positionRange]),
        List.zip_append (by
          simp [Chunk.size, Chunk.contextLengths, Chunk.slots, length_positionRange,
            length_rangeSlots]), ih (k + 1)]
      exact congrArg (· ++ _) (chunk_entries k c.words c.start)
  unfold ModelInputs.entries
  rw [h.inputIds, h.sequenceIds, h.contextLengths, h.slotMapping]
  exact hentries chunks 0

private theorem Aligned.entries_kept (h : Aligned bs chunks inputs) :
    inputs.entries.filter (fun e => e.2 ≠ -1) = inputs.entries := by
  apply List.filter_eq_self.mpr
  intro e he
  rw [h.entries] at he
  obtain ⟨a, -, he⟩ := List.mem_flatMap.mp he
  obtain ⟨w, -, rfl⟩ := List.mem_map.mp he
  simp [rowSlot]

private theorem flatMap_items {β : Type} (g : Chunk → List β) :
    (chunks.zipIdx 0).flatMap (fun e => g e.1) = chunks.flatMap g := by
  nth_rewrite 2 [← List.zipIdx_map_fst 0 chunks]
  rw [List.flatMap_map]

/-- The queries of aligned inputs are those of the chunks in order. -/
theorem Aligned.queries (h : Aligned bs chunks inputs)
    (htables : inputs.context.blockTables = some (paddedTables (chunks.map Chunk.table)))
    (hcovered : ∀ c ∈ chunks, c.stop ≤ c.table.length * bs) :
    inputs.queries bs = chunks.flatMap fun c => chunkQueries bs c.table c.start c.words := by
  unfold ModelInputs.queries
  rw [h.entries_kept, h.entries, List.map_flatMap, ← flatMap_items]
  apply List.flatMap_congr
  rintro ⟨c, i⟩ he
  have hc := List.mem_zipIdx_iff_getElem?.mp he
  have hcov : c.start + c.words.length ≤ c.table.length * bs :=
    hcovered c (List.mem_of_getElem? hc)
  unfold chunkQueries
  rw [List.map_map]
  apply List.map_congr_left
  rintro ⟨word, p⟩ hw
  have hlt := (List.getElem?_eq_some_iff.mp
    (List.mk_mem_zipIdx_iff_le_and_getElem?_sub.mp hw).2).1
  have hle := (List.mk_mem_zipIdx_iff_le_and_getElem?_sub.mp hw).1
  show (⟨word, (inputs.context.keySlots bs i ((p + 1 : Nat) : Int)).dropLast, _⟩ :
    Query Int Nat) = _
  congr 1
  unfold ModelContext.keySlots
  rw [Int.toNat_natCast, List.range_succ, List.map_append, List.map_singleton, List.dropLast_concat]
  apply List.map_congr_left
  intro r hr
  have hr' := List.mem_range.mp hr
  dsimp only at hlt hle hcov
  have hpos : r < c.table.length * bs := by omega
  exact keySlot_eq htables hc hpos

/-- The slots of the queries are all the slots of the inputs. -/
theorem Aligned.queries_slots (h : Aligned bs chunks inputs) :
    (inputs.queries bs).map Query.slot = inputs.context.slotMapping := by
  unfold ModelInputs.queries
  rw [h.entries_kept, h.entries, h.slotMapping, ← flatMap_items, List.map_map, List.map_flatMap]
  refine List.flatMap_congr fun e _ => ?_
  show ((e.1.words.zipIdx e.1.start).map _).map _ = rangeSlots bs e.1.table e.1.start e.1.words.length
  rw [List.map_map]
  unfold rangeSlots
  rw [← List.zipIdx_map_snd, List.map_map]
  rfl

end Chunks

variable {seqs : List RunnerRow}

def RunnerRow.queries (bs : Nat) (row : RunnerRow) : List (Query Int Nat) :=
  chunkQueries bs row.blockTable row.numCachedTokens row.inputTokens

private theorem RunnerRow.Feeds.stop {row : RunnerRow} (h : row.Feeds bs) :
    row.chunk.stop ≤ row.chunk.table.length * bs := by
  show row.numCachedTokens + row.inputTokens.length ≤ row.blockTable.length * bs
  rw [h.inputs]
  exact h.covered

theorem raggedInputs_queries (hne : seqs ≠ []) (h : ∀ row ∈ seqs, row.Feeds bs) :
    (raggedInputs bs seqs).queries bs = seqs.flatMap (RunnerRow.queries bs) := by
  have haligned : Aligned bs _ _ := raggedInputs_aligned fun row hrow => (h row hrow).inputs
  rw [haligned.queries, List.flatMap_map]
  · rfl
  · obtain ⟨first, rest, rfl⟩ := List.exists_cons_of_ne_nil hne
    have htable := (h first (by simp)).table
    have hfull : ¬ first.blockTable.isEmpty = true := by simpa using htable
    show (if first.blockTable.isEmpty then none else some _) = _
    rw [if_neg hfull, List.map_map]
    rfl
  · intro c hc
    obtain ⟨row, hrow, rfl⟩ := List.mem_map.mp hc
    exact (h row hrow).stop

theorem RunnerRow.Decoding.chunk_eq {row : RunnerRow} (h : row.Decoding) :
    row.lastChunk = row.chunk := by
  have hcached := h.cached
  unfold RunnerRow.lastChunk RunnerRow.chunk RunnerRow.inputTokens
  rw [if_neg (by simp [h.decode]), ← hcached, Nat.add_sub_cancel]

theorem decodeInputs_queries (h : ∀ row ∈ seqs, row.Feeds bs)
    (hdecode : ∀ row ∈ seqs, row.Decoding) :
    (decodeInputs bs seqs).queries bs = seqs.flatMap (RunnerRow.queries bs) := by
  have hpos : ∀ row ∈ seqs, 0 < row.numTokens := by
    intro row hrow
    have hcached := (hdecode row hrow).cached
    omega
  have haligned : Aligned bs _ _ := decodeInputs_aligned hpos
  rw [List.map_congr_left fun row hrow => (hdecode row hrow).chunk_eq] at haligned
  rw [haligned.queries, List.flatMap_map]
  · rfl
  · rw [List.map_map]
    rfl
  · intro c hc
    obtain ⟨row, hrow, rfl⟩ := List.mem_map.mp hc
    exact (h row hrow).stop

def DraftCycleRow.queries (bs : Nat) (row : DraftCycleRow) (drafted : List Nat) :
    List (Query Int Nat) :=
  chunkQueries bs row.blockTable (row.committedLen - 1)
    (row.tokenIds.getD (row.tokenIds.length - 1) 0 :: drafted)

private theorem blockTables_zip {β : Type} {others : List β} {rows : List DraftCycleRow}
    (hlen : others.length = rows.length) (f : DraftCycleRow → β → Chunk)
    (hf : ∀ row other, (f row other).table = row.blockTable) :
    rows.map DraftCycleRow.blockTable =
      ((rows.zip others).map fun e => f e.1 e.2).map Chunk.table := by
  nth_rewrite 1 [← List.map_fst_zip hlen.ge]
  rw [List.map_map, List.map_map]
  exact List.map_congr_left fun e _ => (hf e.1 e.2).symm

theorem verifyInputs_queries {k : Nat} {rows : List DraftCycleRow} {proposals : List (List Nat)}
    (hlen : proposals.length = rows.length) (hk : ∀ drafted ∈ proposals, drafted.length = k)
    (h : ∀ row ∈ rows, row.Verifies bs k) :
    (verifyInputs bs k rows proposals).queries bs =
      (rows.zip proposals).flatMap fun e => e.1.queries bs e.2 := by
  rw [(verifyInputs_aligned hlen hk h).queries, List.flatMap_map]
  · rfl
  · exact congrArg (fun tables => some (paddedTables tables))
      (blockTables_zip hlen DraftCycleRow.verifyChunk fun _ _ => rfl)
  · intro c hc
    obtain ⟨e, he, rfl⟩ := List.mem_map.mp hc
    have hrow := h e.1 (List.of_mem_zip he).1
    have hpos := hrow.committed_pos
    have hcov := hrow.covered
    show e.1.committedLen - 1 + (e.2.length + 1) ≤ e.1.blockTable.length * bs
    rw [hk e.2 (List.of_mem_zip he).2]
    omega

theorem draftInputs_queries {rows : List DraftCycleRow} {ids : List Nat} {step : Nat}
    (hlen : ids.length = rows.length) (hpos : ∀ row ∈ rows, 0 < row.committedLen)
    (h : ∀ row ∈ rows, row.Holds bs step) :
    (draftInputs bs rows ids step).queries bs = (rows.zip ids).flatMap fun e =>
      chunkQueries bs e.1.blockTable (e.1.committedLen - 1 + step) [e.2] := by
  have hdraft : ∀ e ∈ rows.zip ids,
      (e.1.draftPosition step).toNat = e.1.committedLen - 1 + step := by
    intro e he
    have hcommitted := hpos e.1 (List.of_mem_zip he).1
    unfold DraftCycleRow.draftPosition
    omega
  rw [(draftInputs_aligned hlen fun row hrow => (h row hrow).1).queries, List.flatMap_map]
  · refine List.flatMap_congr fun e he => ?_
    show chunkQueries bs e.1.blockTable (e.1.draftPosition step).toNat [e.2] = _
    rw [hdraft e he]
  · exact congrArg (fun tables => some (paddedTables tables))
      (blockTables_zip hlen (DraftCycleRow.draftChunk step) fun _ _ => rfl)
  · intro c hc
    obtain ⟨e, he, rfl⟩ := List.mem_map.mp hc
    obtain ⟨hlow, hhigh⟩ := h e.1 (List.of_mem_zip he).1
    show (e.1.draftPosition step).toNat + 1 ≤ e.1.blockTable.length * bs
    omega

theorem ModelInputs.slot_mem {inputs : ModelInputs} {query : Query Int Nat}
    (h : query ∈ inputs.queries bs) : query.slot ∈ inputs.context.slotMapping := by
  obtain ⟨e, he, rfl⟩ := List.mem_map.mp h
  exact (List.of_mem_zip (List.mem_filter.mp he).1).2

theorem DraftCycleRow.Verifies.holds {k step : Nat} {row : DraftCycleRow} (h : row.Verifies bs k)
    (hstep : step ≤ k) : row.Holds bs (step : Nat) := by
  have hpos := h.committed_pos
  have hcov := h.covered
  unfold DraftCycleRow.Holds DraftCycleRow.draftPosition
  constructor <;> omega

theorem prepareTargetLogits_slots {k : Nat} {rows : List DraftCycleRow}
    {proposals : List (List Nat)} {inputs : ModelInputs} (h : ∀ row ∈ rows, row.Verifies bs k)
    (hok : prepareTargetLogits bs k rows proposals = .ok inputs) :
    inputs.context.slotMapping = rows.flatMap (DraftCycleRow.querySlots bs k) := by
  unfold prepareTargetLogits at hok
  rw [Call.except_bind_of_ok (querySlots_eq h)] at hok
  obtain ⟨tail, -, hok⟩ := Call.except_bind_ok hok
  obtain ⟨-, hok⟩ := Call.except_guard hok
  obtain ⟨tables, -, hok⟩ := Call.except_bind_ok hok
  obtain rfl := Except.ok.inj hok
  rfl

end NanoVllm
