/- module: NanoVllm/Inputs/Ragged
   layer: refinement
   source: prepare_ragged, prepare_decode, _prepare_draft_catchup and _prepare_draft_decode of
     nanovllm/engine/model_runner.py, target_logits
   digest: The prepared inputs of a step as concatenations over its rows. -/

import NanoVllm.Inputs.Slots
import NanoVllm.Library.Segments

set_option autoImplicit false
set_option relaxedAutoImplicit false

namespace NanoVllm

open Library

variable {bs : Nat} {rows out : RaggedRows} {row : RunnerRow} {seqs : List RunnerRow} {i : Nat}

namespace RunnerRow

def stop (row : RunnerRow) : Nat := row.numCachedTokens + row.numScheduledTokens

def inputTokens (row : RunnerRow) : List Nat :=
  if row.isPrefill then row.chunkTokenIds else [row.lastToken]

def positions (row : RunnerRow) : List Int :=
  positionRange row.numCachedTokens row.numScheduledTokens

def contextLengths (row : RunnerRow) : List Int :=
  positionRange (row.numCachedTokens + 1) row.numScheduledTokens

def slots (bs : Nat) (row : RunnerRow) : List Int :=
  rangeSlots bs row.blockTable row.numCachedTokens row.numScheduledTokens

/-- The table holds every scheduled position. -/
def Covered (bs : Nat) (row : RunnerRow) : Prop := row.stop ≤ row.blockTable.length * bs

end RunnerRow

def emissions : Nat → List RunnerRow → List Int
  | _, [] => []
  | base, row :: seqs =>
    let cut := base + row.numScheduledTokens
    (if row.stop = row.numTokens then [(cut : Int) - 1] else []) ++ emissions cut seqs

structure Ragged (bs : Nat) (rows : RaggedRows) (i : Nat) (seqs : List RunnerRow)
    (out : RaggedRows) : Prop where
  inputIds : out.inputIds = rows.inputIds ++ seqs.flatMap RunnerRow.inputTokens
  positions : out.positions = rows.positions ++ seqs.flatMap RunnerRow.positions
  querySequenceIds : out.querySequenceIds = rows.querySequenceIds ++
    (seqs.zipIdx i).flatMap fun e => List.replicate e.1.numScheduledTokens e.2
  queryContextLengths : out.queryContextLengths =
    rows.queryContextLengths ++ seqs.flatMap RunnerRow.contextLengths
  cuSeqlensQ : out.cuSeqlensQ = rows.cuSeqlensQ ++
    (boundaries (rows.cuSeqlensQ.getLastD 0) (seqs.map RunnerRow.numScheduledTokens)).tail
  cuSeqlensK : out.cuSeqlensK = rows.cuSeqlensK ++
    (boundaries (rows.cuSeqlensK.getLastD 0) (seqs.map RunnerRow.stop)).tail
  maxSeqlenQ : out.maxSeqlenQ =
    seqs.foldl (fun most row => max row.numScheduledTokens most) rows.maxSeqlenQ
  maxSeqlenK : out.maxSeqlenK = seqs.foldl (fun most row => max row.stop most) rows.maxSeqlenK
  slotMapping : out.slotMapping = rows.slotMapping ++ seqs.flatMap (RunnerRow.slots bs)

def RaggedRows.pushed (bs : Nat) (rows : RaggedRows) (i : Nat) (row : RunnerRow) : RaggedRows where
  inputIds := rows.inputIds ++ row.inputTokens
  positions := rows.positions ++ row.positions
  querySequenceIds := rows.querySequenceIds ++ List.replicate row.numScheduledTokens i
  queryContextLengths := rows.queryContextLengths ++ row.contextLengths
  emissionQueryIndices := rows.emissionQueryIndices ++
    if row.stop = row.numTokens then
      [((rows.cuSeqlensQ.getLastD 0 + row.numScheduledTokens : Nat) : Int) - 1] else []
  cuSeqlensQ := rows.cuSeqlensQ ++ [rows.cuSeqlensQ.getLastD 0 + row.numScheduledTokens]
  cuSeqlensK := rows.cuSeqlensK ++ [rows.cuSeqlensK.getLastD 0 + row.stop]
  maxSeqlenQ := max row.numScheduledTokens rows.maxSeqlenQ
  maxSeqlenK := max row.stop rows.maxSeqlenK
  slotMapping := rows.slotMapping ++ row.slots bs

private theorem RunnerRow.Covered.slots_nil (h : row.Covered bs) (htable : row.blockTable = []) :
    row.slots bs = [] := by
  unfold RunnerRow.Covered RunnerRow.stop at h
  rw [htable, List.length_nil, Nat.zero_mul] at h
  unfold RunnerRow.slots
  rw [show row.numScheduledTokens = 0 by omega]
  rfl

private theorem RunnerRow.Covered.push (h : row.Covered bs) (hbs : 0 < bs) (rows : RaggedRows)
    (i : Nat) :
    rows.push bs i row = .ok (rows.pushed bs i row) := by
  unfold RaggedRows.push
  dsimp only
  by_cases htable : row.blockTable = []
  · rw [if_pos (List.isEmpty_iff.mpr htable)]
    unfold RaggedRows.pushed
    rw [h.slots_nil htable, List.append_nil]
    rfl
  · rw [if_neg (by simpa using htable)]
    exact (Call.except_bind_of_ok (raggedSlots_eq hbs h)).trans rfl

theorem Ragged.refl (bs : Nat) (rows : RaggedRows) (i : Nat) : Ragged bs rows i [] rows := by
  constructor <;> first | exact (List.append_nil _).symm | rfl

theorem Ragged.cons {emitted : List Int}
    (h : Ragged bs { rows.pushed bs i row with emissionQueryIndices := emitted } (i + 1) seqs out) :
    Ragged bs rows i (row :: seqs) out := by
  have hlastQ : (rows.pushed bs i row).cuSeqlensQ.getLastD 0 =
      rows.cuSeqlensQ.getLastD 0 + row.numScheduledTokens := List.getLastD_concat
  have hlastK : (rows.pushed bs i row).cuSeqlensK.getLastD 0 =
      rows.cuSeqlensK.getLastD 0 + row.stop := List.getLastD_concat
  refine ⟨?_, ?_, ?_, ?_, ?_, ?_, h.maxSeqlenQ, h.maxSeqlenK, ?_⟩
  · rw [h.inputIds, List.flatMap_cons, ← List.append_assoc]
    rfl
  · rw [h.positions, List.flatMap_cons, ← List.append_assoc]
    rfl
  · rw [h.querySequenceIds, List.zipIdx_cons, List.flatMap_cons, ← List.append_assoc]
    rfl
  · rw [h.queryContextLengths, List.flatMap_cons, ← List.append_assoc]
    rfl
  · rw [h.cuSeqlensQ, hlastQ, List.map_cons, boundaries, List.tail_cons]
    nth_rewrite 2 [boundaries_eq_cons]
    rw [← List.singleton_append, ← List.append_assoc]
    rfl
  · rw [h.cuSeqlensK, hlastK, List.map_cons, boundaries, List.tail_cons]
    nth_rewrite 2 [boundaries_eq_cons]
    rw [← List.singleton_append, ← List.append_assoc]
    rfl
  · rw [h.slotMapping, List.flatMap_cons, ← List.append_assoc]
    rfl

private theorem RaggedRows.extend_spec (hbs : 0 < bs) (h : ∀ row ∈ seqs, row.Covered bs)
    (rows : RaggedRows) (i : Nat) :
    ∃ out, rows.extend bs i seqs = .ok out ∧ Ragged bs rows i seqs out ∧
      out.emissionQueryIndices =
        rows.emissionQueryIndices ++ emissions (rows.cuSeqlensQ.getLastD 0) seqs := by
  induction seqs generalizing rows i with
  | nil => exact ⟨rows, rfl, .refl bs rows i, (List.append_nil _).symm⟩
  | cons row seqs ih =>
    obtain ⟨out, hout, hragged, hemit⟩ := ih (fun r hr => h r (List.mem_cons_of_mem row hr))
      (rows.pushed bs i row) (i + 1)
    have hpush := (h row List.mem_cons_self).push hbs rows i
    have hlastQ : (rows.pushed bs i row).cuSeqlensQ.getLastD 0 =
        rows.cuSeqlensQ.getLastD 0 + row.numScheduledTokens := List.getLastD_concat
    refine ⟨out, (Call.except_bind_of_ok hpush).trans hout, hragged.cons, ?_⟩
    rw [hemit, hlastQ, emissions, ← List.append_assoc]
    rfl

def stepTables (seqs : List RunnerRow) : Option BlockTables :=
  match seqs with
  | [] => none
  | first :: _ =>
    if first.blockTable.isEmpty then none
    else some (paddedTables (seqs.map RunnerRow.blockTable))

def raggedInputs (bs : Nat) (seqs : List RunnerRow) : ModelInputs where
  inputIds := seqs.flatMap RunnerRow.inputTokens
  positions := seqs.flatMap RunnerRow.positions
  context :=
    { isPrefill := true
      cuSeqlensQ := boundaries 0 (seqs.map RunnerRow.numScheduledTokens)
      cuSeqlensK := boundaries 0 (seqs.map RunnerRow.stop)
      maxSeqlenQ := seqs.foldl (fun most row => max row.numScheduledTokens most) 0
      maxSeqlenK := seqs.foldl (fun most row => max row.stop most) 0
      slotMapping := seqs.flatMap (RunnerRow.slots bs)
      contextLens := []
      blockTables := stepTables seqs
      querySequenceIds := (seqs.zipIdx 0).flatMap fun e =>
        List.replicate e.1.numScheduledTokens e.2
      queryContextLengths := seqs.flatMap RunnerRow.contextLengths
      emissionQueryIndices := some (emissions 0 seqs) }

theorem prepareBlockTables_eq {tables : List (List Nat)} (h : tables ≠ []) :
    prepareBlockTables tables = .ok (paddedTables tables) := by
  unfold prepareBlockTables
  rw [if_neg (by simpa using h)]

theorem prepareRagged_eq (hbs : 0 < bs) (hne : seqs ≠ []) (h : ∀ row ∈ seqs, row.Covered bs) :
    prepareRagged bs seqs = .ok (raggedInputs bs seqs) := by
  obtain ⟨out, hout, hragged, hemit⟩ := RaggedRows.extend_spec hbs h .empty 0
  have htables : raggedBlockTables seqs = .ok (stepTables seqs) := by
    obtain ⟨first, rest, rfl⟩ := List.exists_cons_of_ne_nil hne
    unfold raggedBlockTables stepTables
    rw [Call.except_bind_of_ok (show pyGet (first :: rest) 0 = .ok first from rfl)]
    dsimp only
    split
    · rfl
    · rw [prepareBlockTables_eq (by simp)]
      rfl
  unfold prepareRagged raggedInputs
  rw [Call.except_bind_of_ok hout, Call.except_bind_of_ok htables, hragged.inputIds,
    hragged.positions, hragged.querySequenceIds, hragged.queryContextLengths, hragged.cuSeqlensQ, hragged.cuSeqlensK,
    hragged.maxSeqlenQ, hragged.maxSeqlenK, hragged.slotMapping, hemit]
  simp only [RaggedRows.empty, List.nil_append, List.getLastD_cons, List.getLastD_nil,
    List.singleton_append, ← boundaries_eq_cons]
  rfl

def RunnerRow.Tight (bs : Nat) (row : RunnerRow) : Prop :=
  row.blockTable.length = pagesFor bs row.numTokens

def decodeInputs (bs : Nat) (seqs : List RunnerRow) : ModelInputs where
  inputIds := seqs.map RunnerRow.lastToken
  positions := seqs.map fun row => (row.numTokens : Int) - 1
  context := decodeContext
    (seqs.map fun row => (slotAt bs row.blockTable (row.numTokens - 1) : Int))
    (seqs.map fun row => (row.numTokens : Int))
    (paddedTables (seqs.map RunnerRow.blockTable))

theorem prepareDecode_eq (hbs : 0 < bs) (hne : seqs ≠ []) (hpos : ∀ row ∈ seqs, 0 < row.numTokens)
    (h : ∀ row ∈ seqs, row.Tight bs) : prepareDecode bs seqs = .ok (decodeInputs bs seqs) := by
  have hslots : seqs.mapM (decodeSlot bs) =
      .ok (seqs.map fun row => (slotAt bs row.blockTable (row.numTokens - 1) : Int)) :=
    Call.except_mapM_of_ok fun row hrow => decodeSlot_eq hbs (hpos row hrow) (h row hrow)
  have hmap : seqs.map RunnerRow.blockTable ≠ [] := by simpa using hne
  unfold prepareDecode
  rw [Call.except_bind_of_ok hslots, Call.except_bind_of_ok (prepareBlockTables_eq hmap)]
  rfl

/-- A decode row as `schedule` leaves it: all but its last token is cached. -/
structure RunnerRow.Decoding (row : RunnerRow) : Prop where
  decode : row.isPrefill = false
  cached : row.numCachedTokens + 1 = row.numTokens
  scheduled : row.numScheduledTokens = 1

/-- On decode rows with tight tables both functions prepare the same ids, positions, slots and
context lengths. -/
theorem decodeInputs_eq_raggedInputs (h : ∀ row ∈ seqs, row.Decoding) :
    (decodeInputs bs seqs).inputIds = (raggedInputs bs seqs).inputIds ∧
      (decodeInputs bs seqs).positions = (raggedInputs bs seqs).positions ∧
      (decodeInputs bs seqs).context.slotMapping = (raggedInputs bs seqs).context.slotMapping ∧
      (decodeInputs bs seqs).context.contextLens =
        (raggedInputs bs seqs).context.queryContextLengths := by
  have hcached : ∀ row ∈ seqs, row.numCachedTokens = row.numTokens - 1 := by
    intro row hrow
    have hlen := (h row hrow).cached
    omega
  refine ⟨?_, ?_, ?_, ?_⟩
  · change seqs.map RunnerRow.lastToken = seqs.flatMap RunnerRow.inputTokens
    rw [← List.flatMap_singleton' (l := seqs.map RunnerRow.lastToken), List.flatMap_map]
    refine List.flatMap_congr fun row hrow => ?_
    unfold RunnerRow.inputTokens
    rw [if_neg (by simp [(h row hrow).decode])]
  · change (seqs.map fun row => (row.numTokens : Int) - 1) = seqs.flatMap RunnerRow.positions
    rw [← List.flatMap_singleton' (l := seqs.map fun row => (row.numTokens : Int) - 1),
      List.flatMap_map]
    refine List.flatMap_congr fun row hrow => ?_
    unfold RunnerRow.positions positionRange
    rw [(h row hrow).scheduled, ← (h row hrow).cached]
    simp
  · change (seqs.map fun row => (slotAt bs row.blockTable (row.numTokens - 1) : Int)) =
      seqs.flatMap (RunnerRow.slots bs)
    rw [← List.flatMap_singleton'
      (l := seqs.map fun row => (slotAt bs row.blockTable (row.numTokens - 1) : Int)),
      List.flatMap_map]
    refine List.flatMap_congr fun row hrow => ?_
    unfold RunnerRow.slots rangeSlots
    rw [(h row hrow).scheduled, hcached row hrow]
    rfl
  · change (seqs.map fun row => (row.numTokens : Int)) = seqs.flatMap RunnerRow.contextLengths
    rw [← List.flatMap_singleton' (l := seqs.map fun row => (row.numTokens : Int)),
      List.flatMap_map]
    refine List.flatMap_congr fun row hrow => ?_
    unfold RunnerRow.contextLengths positionRange
    rw [(h row hrow).scheduled, ← (h row hrow).cached]
    simp

end NanoVllm
