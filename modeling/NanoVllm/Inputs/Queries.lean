/- module: NanoVllm/Inputs/Queries
   layer: refinement
   source: nanovllm/engine/model_runner.py, the emission indices of prepare_ragged and run
   digest: Where the last query of each row lies, and which rows emit. -/

import NanoVllm.Engine.ModelRunner
import NanoVllm.Inputs.Ragged

set_option autoImplicit false
set_option relaxedAutoImplicit false

namespace NanoVllm

open Library

variable {bs : Nat} {seqs : List RunnerRow} {row : RunnerRow} {i : Nat}

def lastQuery (isPrefill : Bool) (seqs : List RunnerRow) (i : Nat) : Nat :=
  if isPrefill then (boundaries 0 (seqs.map RunnerRow.numScheduledTokens)).getD (i + 1) 0 - 1
  else i

structure RunnerRow.Feeds (bs : Nat) (row : RunnerRow) : Prop where
  scheduled : 0 < row.numScheduledTokens
  covered : row.Covered bs
  table : row.blockTable ≠ []
  inputs : row.inputTokens.length = row.numScheduledTokens

theorem emissions_eq : ∀ (seqs : List RunnerRow) (base k : Nat) (cut : Nat → Int),
    (∀ i < seqs.length, cut (k + i) =
      ((boundaries base (seqs.map RunnerRow.numScheduledTokens)).getD (i + 1) 0 : Int) - 1) →
    emissions base seqs = (((seqs.zipIdx k).filter fun e =>
      e.1.numCachedTokens + e.1.numScheduledTokens = e.1.numTokens).map Prod.snd).map cut
  | [], _, _, _, _ => rfl
  | row :: seqs, base, k, cut, hcut => by
    have hhead := hcut 0 (by simp)
    have hrest := emissions_eq seqs (base + row.numScheduledTokens) (k + 1) cut (by
      intro i hi
      have hnext := hcut (i + 1) (by simpa using hi)
      rw [Nat.add_assoc, Nat.add_comm 1 i, hnext]
      rfl)
    rw [Nat.add_zero, List.map_cons, boundaries, List.getD_cons_succ, boundaries_eq_cons,
      List.getD_cons_zero] at hhead
    rw [emissions, hrest, List.zipIdx_cons, List.filter_cons]
    unfold RunnerRow.stop
    by_cases hfull : row.numCachedTokens + row.numScheduledTokens = row.numTokens
    · simp [hfull, hhead]
    · simp [hfull]

theorem emittingIndices_lt {numericalMode : String} {isPrefill : Bool}
    (hi : i ∈ emittingIndices numericalMode isPrefill seqs) : i < seqs.length := by
  unfold emittingIndices at hi
  split at hi
  · obtain ⟨e, he, rfl⟩ := List.mem_map.mp hi
    have hget := List.mem_zipIdx_iff_getElem?.mp (List.mem_filter.mp he).1
    exact (List.getElem?_eq_some_iff.mp hget).1
  · exact List.mem_range.mp hi

theorem emittingIndices_nodup (numericalMode : String) (isPrefill : Bool)
    (seqs : List RunnerRow) : (emittingIndices numericalMode isPrefill seqs).Nodup := by
  unfold emittingIndices
  split
  · refine List.Nodup.sublist (List.filter_sublist.map Prod.snd) ?_
    rw [List.zipIdx_map_snd]
    exact List.nodup_range'
  · exact List.nodup_range

theorem mem_emittingIndices (numericalMode : String) (isPrefill : Bool)
    (hrow : seqs[i]? = some row) (hfull : row.stop = row.numTokens) :
    i ∈ emittingIndices numericalMode isPrefill seqs := by
  unfold emittingIndices
  split
  · refine List.mem_map.mpr ⟨(row, i), List.mem_filter.mpr
      ⟨List.mem_zipIdx_iff_getElem?.mpr hrow, ?_⟩, rfl⟩
    exact decide_eq_true hfull
  · exact List.mem_range.mpr (List.getElem?_eq_some_iff.mp hrow).1

private theorem zipIdx_scheduled (seqs : List RunnerRow) :
    (seqs.zipIdx 0).map (fun e => e.1.numScheduledTokens) =
      seqs.map RunnerRow.numScheduledTokens := by
  nth_rewrite 2 [← List.zipIdx_map_fst 0 seqs]
  rw [List.map_map]
  rfl

section LastQuery

variable (h : ∀ row ∈ seqs, row.Feeds bs)

include h

private theorem raggedInputs_length :
    (raggedInputs bs seqs).inputIds.length = (seqs.map RunnerRow.numScheduledTokens).sum := by
  change (seqs.flatMap RunnerRow.inputTokens).length = _
  rw [List.length_flatMap]
  exact congrArg List.sum (List.map_congr_left fun row hrow => (h row hrow).inputs)

theorem boundary_bounds (hi : i < seqs.length) :
    0 < (boundaries 0 (seqs.map RunnerRow.numScheduledTokens)).getD (i + 1) 0 ∧
      (boundaries 0 (seqs.map RunnerRow.numScheduledTokens)).getD (i + 1) 0 ≤
        (raggedInputs bs seqs).inputIds.length := by
  have hlen : i < (seqs.map RunnerRow.numScheduledTokens).length := by simpa using hi
  have hstep := boundaries_getD_succ 0 hlen
  have hpos := (h seqs[i] (List.getElem_mem hi)).scheduled
  have hsize : (seqs.map RunnerRow.numScheduledTokens).getD i 0 =
      seqs[i].numScheduledTokens := by
    rw [List.getD_eq_getElem _ _ hlen, List.getElem_map]
  have hle : (boundaries 0 (seqs.map RunnerRow.numScheduledTokens)).getD (i + 1) 0 ≤
      0 + (seqs.map RunnerRow.numScheduledTokens).sum := boundaries_getD_le 0 hlen
  rw [raggedInputs_length h]
  omega

theorem lastQuery_lt (hi : i < seqs.length) :
    lastQuery true seqs i < (raggedInputs bs seqs).inputIds.length := by
  have hbounds := boundary_bounds h hi
  unfold lastQuery
  rw [if_pos rfl]
  omega

/-- Per-row lists of one entry for each scheduled position keep row `i`'s last entry at its last
query. -/
private theorem getD_zipIdx_lastQuery {β : Type} {f : RunnerRow × Nat → List β}
    (hf : ∀ e, e.1 ∈ seqs → (f e).length = e.1.numScheduledTokens) (d : β)
    (hrow : seqs[i]? = some row) :
    ((seqs.zipIdx 0).flatMap f).getD (lastQuery true seqs i) d = (f (row, i)).getLastD d := by
  have hmem : ∀ e ∈ seqs.zipIdx 0, e.1 ∈ seqs := fun e he =>
    List.mem_of_getElem? (List.mem_zipIdx_iff_getElem?.mp he)
  have hall := getLast_flatMap (fun e he => hf e (hmem e he))
    (fun e he => (h e.1 (hmem e he)).scheduled) d []
  have hi := (List.getElem?_eq_some_iff.mp hrow).1
  have hentry := congrArg (fun l => l[i]?) hall
  have hcuts : (boundaries 0 (seqs.map RunnerRow.numScheduledTokens)).tail[i]? =
      some ((boundaries 0 (seqs.map RunnerRow.numScheduledTokens)).getD (i + 1) 0) := by
    rw [List.getElem?_tail, List.getD_eq_getElem _ _ (by rw [length_boundaries]; simpa using hi),
      List.getElem?_eq_getElem]
  simp only [zipIdx_scheduled, List.length_nil, List.getElem?_map, hcuts, List.getElem?_zipIdx, hrow,
    Option.map_some, List.nil_append, Option.some.injEq, Nat.zero_add] at hentry
  exact hentry

theorem getD_lastQuery {β : Type} {f : RunnerRow → List β}
    (hf : ∀ row ∈ seqs, (f row).length = row.numScheduledTokens) (d : β)
    (hrow : seqs[i]? = some row) :
    (seqs.flatMap f).getD (lastQuery true seqs i) d = (f row).getLastD d := by
  have hall := getD_zipIdx_lastQuery h (fun e : RunnerRow × Nat => hf e.1) d hrow
  rw [← hall]
  nth_rewrite 1 [← List.zipIdx_map_fst 0 seqs]
  rw [List.flatMap_map]

end LastQuery

/-- Query `q` feeds the last token of row `i` at the last position. -/
structure OwnQuery (inputs : ModelInputs) (i : Nat) (row : RunnerRow) (q : Nat) : Prop where
  token : inputs.inputIds[q]? = some row.lastToken
  position : inputs.positions[q]? = some ((row.numTokens : Int) - 1)
  owner : inputs.context.querySequenceIds[q]? = some i

private theorem RunnerRow.inputTokens_getLastD {seq : Sequence}
    (hfeeds : (RunnerRow.sequence seq).Feeds bs)
    (hfull : seq.numCachedTokens + seq.numScheduledTokens = seq.numTokens) :
    (RunnerRow.sequence seq).inputTokens.getLastD 0 = seq.lastToken := by
  have hlen := hfeeds.inputs
  have hpos : 0 < seq.numScheduledTokens := hfeeds.scheduled
  unfold RunnerRow.inputTokens at hlen ⊢
  by_cases hprefill : (RunnerRow.sequence seq).isPrefill
  · rw [if_pos hprefill]
    have hall : (RunnerRow.sequence seq).chunkTokenIds = seq.tokenIds.drop seq.numCachedTokens := by
      refine List.take_of_length_le ?_
      rw [List.length_drop]
      have htotal : seq.tokenIds.length = seq.numTokens := rfl
      omega
    have hlt : seq.numCachedTokens < seq.tokenIds.length := by
      change _ < seq.numTokens
      omega
    rw [hall, List.getLastD_eq_getLast?, List.getLast?_drop, if_neg (by omega)]
    exact (List.getLastD_eq_getLast? ..).symm
  · rw [if_neg hprefill]
    rfl

theorem ragged_ownQuery (h : ∀ row ∈ seqs, row.Feeds bs) {seq : Sequence}
    (hrow : seqs[i]? = some (.sequence seq))
    (hfull : seq.numCachedTokens + seq.numScheduledTokens = seq.numTokens) :
    OwnQuery (raggedInputs bs seqs) i (.sequence seq) (lastQuery true seqs i) := by
  have hfeeds := h _ (List.mem_of_getElem? hrow)
  have hpos : 0 < seq.numScheduledTokens := hfeeds.scheduled
  have hi := (List.getElem?_eq_some_iff.mp hrow).1
  have hlt := lastQuery_lt h hi
  have hlen : (raggedInputs bs seqs).positions.length = (raggedInputs bs seqs).inputIds.length := by
    rw [raggedInputs_length h]
    change (seqs.flatMap RunnerRow.positions).length = _
    rw [List.length_flatMap]
    exact congrArg List.sum (List.map_congr_left fun row _ => length_positionRange)
  have hget : ∀ {β : Type} (l : List β) (d b : β), lastQuery true seqs i < l.length →
      l.getD (lastQuery true seqs i) d = b → l[lastQuery true seqs i]? = some b := by
    intro β l d b hl hb
    rw [List.getElem?_eq_getElem hl, ← hb, List.getD_eq_getElem _ _ hl]
  refine ⟨hget _ 0 _ hlt ?_, hget _ 0 _ (hlen ▸ hlt) ?_, ?_⟩
  · exact (getD_lastQuery h (fun row hmem => (h row hmem).inputs) 0 hrow).trans
      (RunnerRow.inputTokens_getLastD hfeeds hfull)
  · refine (getD_lastQuery h (fun row _ => length_positionRange) 0 hrow).trans ?_
    change (positionRange seq.numCachedTokens seq.numScheduledTokens).getLastD 0 = _
    obtain ⟨n, hn⟩ : ∃ n, seq.numScheduledTokens = n + 1 := ⟨_, (Nat.succ_pred_eq_of_pos hpos).symm⟩
    unfold positionRange
    rw [hn, List.range'_concat, List.map_append, List.map_singleton, List.getLastD_concat]
    change ((seq.numCachedTokens + 1 * n : Nat) : Int) = (seq.numTokens : Int) - 1
    omega
  · have hlast : ((seqs.zipIdx 0).flatMap fun e =>
        List.replicate e.1.numScheduledTokens e.2).getD (lastQuery true seqs i) 0 =
        (List.replicate seq.numScheduledTokens i).getLastD 0 :=
      getD_zipIdx_lastQuery h (fun e _ => List.length_replicate) 0 hrow
    have hlenIds : (raggedInputs bs seqs).context.querySequenceIds.length =
        (raggedInputs bs seqs).inputIds.length := by
      rw [raggedInputs_length h]
      change ((seqs.zipIdx 0).flatMap fun e => List.replicate e.1.numScheduledTokens e.2).length = _
      rw [List.length_flatMap, ← zipIdx_scheduled]
      simp only [List.length_replicate]
    refine hget _ 0 _ (hlenIds ▸ hlt) (hlast.trans ?_)
    obtain ⟨n, hn⟩ : ∃ n, seq.numScheduledTokens = n + 1 := ⟨_, (Nat.succ_pred_eq_of_pos hpos).symm⟩
    rw [hn, List.replicate_succ', List.getLastD_concat]

theorem prepareDecode_ok (hne : seqs ≠ []) (h : ∀ row ∈ seqs, row.blockTable ≠ []) :
    ∃ inputs, prepareDecode bs seqs = .ok inputs ∧ inputs.context.isPrefill = false ∧
      inputs.inputIds.length = seqs.length ∧
      ∀ (i : Nat) (row : RunnerRow), seqs[i]? = some row →
        OwnQuery inputs i row (lastQuery false seqs i) := by
  have hslots : seqs.mapM (decodeSlot bs) = .ok (seqs.map fun row =>
      ((row.blockTable.getD (row.blockTable.length - 1) 0 : Nat) : Int) * bs +
        ((row.numTokens : Int) - ((row.blockTable.length : Int) - 1) * bs) - 1) :=
    Call.except_mapM_of_ok fun row hrow =>
      Call.except_bind_of_ok (pyGet_neg_one (h row hrow) 0)
  refine ⟨_, (Call.except_bind_of_ok hslots).trans (Call.except_bind_of_ok
    (prepareBlockTables_eq (by simpa using hne))), rfl, List.length_map .., ?_⟩
  intro i row hrow
  refine ⟨?_, ?_, ?_⟩
  · change (seqs.map RunnerRow.lastToken)[i]? = _
    rw [List.getElem?_map, hrow]
    rfl
  · change (seqs.map fun row => (row.numTokens : Int) - 1)[i]? = _
    rw [List.getElem?_map, hrow]
    rfl
  · change (List.range (seqs.map _).length)[i]? = _
    rw [List.length_map, List.getElem?_range (List.getElem?_eq_some_iff.mp hrow).1]

end NanoVllm
