/- module: NanoVllm/Runs/Emission
   layer: main result
   source: nanovllm/engine/llm_engine.py, the target call of _step_unlocked; run of
     nanovllm/engine/model_runner.py
   digest: In every run, each complete row of a batch takes the token of its own last query. -/

import NanoVllm.Engine.TargetCall
import NanoVllm.Runs.Flags
import NanoVllm.Sampling.Emission
import NanoVllm.Sampling.Support
import NanoVllm.Scheduling.Events

set_option autoImplicit false
set_option relaxedAutoImplicit false

namespace NanoVllm

open Library

variable {cfg : Config} {u : State} {batch decodes prefills tokenIds : List Nat} {x i : Nat}

namespace Batched

variable (h : Batched cfg decodes prefills u)

include h

theorem feeds (hx : x ∈ decodes ++ prefills) :
    (RunnerRow.sequence (u.seqs x)).Feeds cfg.kvcacheBlockSize where
  scheduled := h.scheduled hx
  covered := h.within hx
  table := h.table_ne hx
  inputs := by
    have hle := h.scheduled_le hx
    unfold RunnerRow.inputTokens
    rcases List.mem_append.mp hx with hdecode | hprefill
    · obtain ⟨hflag, hone⟩ := h.decode x hdecode
      have hnot : ¬ (RunnerRow.sequence (u.seqs x)).isPrefill = true := by
        simp [RunnerRow.isPrefill, hflag]
      rw [if_neg hnot]
      exact hone.symm
    · have hyes : (RunnerRow.sequence (u.seqs x)).isPrefill = true := h.chunks.prefill x hprefill
      rw [if_pos hyes]
      change (((u.seqs x).tokenIds.drop _).take _).length = (u.seqs x).numScheduledTokens
      have htotal : (u.seqs x).tokenIds.length = (u.seqs x).numTokens := rfl
      rw [List.length_take, List.length_drop]
      omega

theorem feeds_rows : ∀ row ∈ u.runnerRows (decodes ++ prefills), row.Feeds cfg.kvcacheBlockSize := by
  intro row hrow
  obtain ⟨x, hx, rfl⟩ := List.mem_map.mp hrow
  exact h.feeds hx

theorem postprocess_ok (hlen : tokenIds.length = (decodes ++ prefills).length)
    (hvocab : ∀ tokenId ∈ tokenIds, inVocabulary cfg tokenId) :
    postprocess cfg (decodes ++ prefills) tokenIds u =
      .ok (State.rowsEvents cfg u ((decodes ++ prefills).zip tokenIds))
        (State.postRows cfg u ((decodes ++ prefills).zip tokenIds)) := by
  have hcalm := h.ready.1
  have hfst : ((decodes ++ prefills).zip tokenIds).map Prod.fst = decodes ++ prefills :=
    List.map_fst_zip hlen.ge
  have hchecks : postprocessChecks cfg u (decodes ++ prefills) tokenIds = .ok ⟨⟩ := by
    have hin : ¬ (tokenIds.any fun tokenId => !inVocabulary cfg tokenId) = true := by
      simpa using hvocab
    unfold postprocessChecks
    simp [hcalm.transaction, hcalm.discard, hcalm.pending, hlen, hin, pure, Except.pure]
  have hnodup : (((decodes ++ prefills).zip tokenIds).map Prod.fst).Nodup := by
    rw [hfst]
    exact h.distinct
  obtain ⟨hrows, -, -⟩ := h.ready.2.postprocessRows_served hnodup hcalm.toQuiet
    fun row hrow => h.owned row.1 (List.of_mem_zip hrow).1
  unfold postprocess
  rw [Call.bind_of_ok (Call.get_apply u), hchecks, Call.bind_of_ok (liftExcept_ok _ u),
    Call.bind_of_ok hrows, Call.bind_of_ok (Call.modify_apply _ _)]
  simp [State.closeHandoff, hcalm.transaction, hcalm.pending]

end Batched

section Step

variable {V : Nat} {F : Type} [Field F] [LinearOrder F] [NeZero V]

/-- A batch with the sampling fields of its requests. -/
def State.sampledRows (u : State) (params : Nat → RowSampling F) (batch : List Nat) :
    List (RunnerRow × RowSampling F) :=
  batch.map fun x => (.sequence (u.seqs x), params x)

omit [LinearOrder F] [Field F] in
theorem State.sampledRows_fst (u : State) (params : Nat → RowSampling F) (batch : List Nat) :
    (u.sampledRows params batch).map Prod.fst = u.runnerRows batch := by
  unfold State.sampledRows State.runnerRows
  rw [List.map_map]
  rfl

theorem Batched.inputs_ok (h : Batched cfg decodes prefills u) (hne : decodes ++ prefills ≠ []) :
    ∃ inputs, (if prefills = [] then
        prepareDecode cfg.kvcacheBlockSize (u.runnerRows (decodes ++ prefills))
      else prepareRagged cfg.kvcacheBlockSize (u.runnerRows (decodes ++ prefills))) =
        .ok inputs := by
  have hfeeds := h.feeds_rows
  have hrowsne : u.runnerRows (decodes ++ prefills) ≠ [] := by
    unfold State.runnerRows
    simpa using hne
  by_cases hpure : prefills = []
  · obtain ⟨inputs, hinputs, -⟩ := @prepareDecode_ok cfg.kvcacheBlockSize _ hrowsne
      fun row hrow => (hfeeds row hrow).table
    exact ⟨inputs, (if_pos hpure).trans hinputs⟩
  · exact ⟨_, (if_neg hpure).trans (prepareRagged_eq cfg.blockSize_pos hrowsne
      fun row hrow => (hfeeds row hrow).covered)⟩

/-- The target call on a scheduled batch: it prepares inputs in which each complete row has its own
last query, and returns the tokens sampled from there, unless the tables of a decode batch overflow
those of its graph. -/
theorem Batched.run_own (h : Batched cfg decodes prefills u) (hne : decodes ++ prefills ≠ [])
    {kernels : StepKernels V F} (hmodel : kernels.model.RowPerInput) (runner : CapturedGraphs cfg)
    (numericalMode : String) (backend : TopPBackend) (noise : Nat → Fin V → F)
    {params : Nat → RowSampling F} (hvalid : ∀ x ∈ decodes ++ prefills, (params x).Valid) :
    ∃ inputs,
      (if prefills = [] then
          prepareDecode cfg.kvcacheBlockSize (u.runnerRows (decodes ++ prefills))
        else prepareRagged cfg.kvcacheBlockSize (u.runnerRows (decodes ++ prefills))) =
          .ok inputs ∧
      inputs.context.isPrefill = decide (prefills ≠ []) ∧
      if runner.Overflows (decide (prefills ≠ [])) (u.runnerRows (decodes ++ prefills)) then
        runModel kernels.model runner.toTargetGraphs inputs (decide (prefills ≠ [])) =
          .error shapeMismatch ∧
        run kernels runner.toTargetGraphs cfg.kvcacheBlockSize numericalMode backend noise
          (u.sampledRows params (decodes ++ prefills)) (decide (prefills ≠ [])) =
            .error shapeMismatch
      else ∃ hidden tokenIds,
        runModel kernels.model runner.toTargetGraphs inputs (decide (prefills ≠ [])) =
          .ok hidden ∧
        hidden.length = inputs.inputIds.length ∧
        computeLogits kernels numericalMode inputs.context false hidden =
          .ok ((emittingIndices numericalMode (decide (prefills ≠ []))
            (u.runnerRows (decodes ++ prefills))).map fun i => queryLogits kernels hidden
              (lastQuery (decide (prefills ≠ [])) (u.runnerRows (decodes ++ prefills)) i)) ∧
        run kernels runner.toTargetGraphs cfg.kvcacheBlockSize numericalMode backend noise
          (u.sampledRows params (decodes ++ prefills)) (decide (prefills ≠ [])) = .ok tokenIds ∧
        Emits kernels numericalMode backend noise (decide (prefills ≠ []))
          (u.sampledRows params (decodes ++ prefills)) hidden tokenIds ∧
        ∀ (i x : Nat), (decodes ++ prefills)[i]? = some x → (u.seqs x).Complete →
          OwnQuery inputs i (.sequence (u.seqs x))
            (lastQuery (decide (prefills ≠ [])) (u.runnerRows (decodes ++ prefills)) i) := by
  obtain ⟨batch, hbatch⟩ : ∃ batch, batch = decodes ++ prefills := ⟨_, rfl⟩
  have hfeeds := h.feeds_rows
  rw [← hbatch] at hfeeds hne hvalid ⊢
  have hfst := u.sampledRows_fst params batch
  have hget : ∀ {i x : Nat}, batch[i]? = some x →
      (u.runnerRows batch)[i]? = some (.sequence (u.seqs x)) := by
    intro i x hx
    unfold State.runnerRows
    rw [List.getElem?_map, hx]
    rfl
  have hentries : ∀ entry ∈ u.sampledRows params batch, entry.2.Valid := by
    intro entry hentry
    obtain ⟨x, hx, rfl⟩ := List.mem_map.mp hentry
    exact hvalid x hx
  have hrowsne : u.runnerRows batch ≠ [] := by
    unfold State.runnerRows
    simpa using hne
  by_cases hpure : prefills = []
  · have hdec : decide (prefills ≠ []) = false := by simp [hpure]
    rw [hdec]
    obtain ⟨inputs, hinputs, hctx, hlen, hown⟩ := @prepareDecode_ok cfg.kvcacheBlockSize _ hrowsne
      fun row hrow => (hfeeds row hrow).table
    have hpass := runModel_decode hmodel runner hinputs
    have hprepare : (if false = true then prepareRagged cfg.kvcacheBlockSize (u.runnerRows batch)
        else prepareDecode cfg.kvcacheBlockSize (u.runnerRows batch)) = .ok inputs :=
      (if_neg Bool.false_ne_true).trans hinputs
    refine ⟨inputs, (if_pos hpure).trans hinputs, hctx, ?_⟩
    split at hpass
    · rename_i hover
      rw [if_pos hover]
      exact ⟨hpass, run_raises backend noise hentries hfst hprepare hpass⟩
    · rename_i hover
      rw [if_neg hover]
      obtain ⟨hidden, hhidden, hsize⟩ := hpass
      have hlogits := computeLogits_decode kernels numericalMode hctx (hsize.trans hlen)
      obtain ⟨tokenIds, htokens, hemits⟩ :=
        run_emits backend noise hentries hfst hprepare hhidden hlogits
      exact ⟨hidden, tokenIds, hhidden, hsize, hlogits, htokens, hemits,
        fun i x hx _ => hown i _ (hget hx)⟩
  · have hdec : decide (prefills ≠ []) = true := by simp [hpure]
    rw [hdec]
    have hcovered : ∀ row ∈ u.runnerRows batch, row.Covered cfg.kvcacheBlockSize :=
      fun row hrow => (hfeeds row hrow).covered
    have hinputs := prepareRagged_eq cfg.blockSize_pos hrowsne hcovered
    obtain ⟨hidden, hhidden, hsize⟩ := runModel_ragged hmodel runner cfg.blockSize_pos hcovered
    refine ⟨_, (if_neg hpure).trans hinputs, rfl, ?_⟩
    rw [if_neg fun hover => Bool.false_ne_true hover.1.symm]
    have hlogits := computeLogits_ragged kernels numericalMode hfeeds hsize
    obtain ⟨tokenIds, htokens, hemits⟩ := run_emits backend noise hentries hfst
      ((if_pos rfl).trans hinputs) hhidden hlogits
    exact ⟨hidden, tokenIds, hhidden, hsize, hlogits, htokens, hemits,
      fun i x hx hfull => ragged_ownQuery hfeeds (hget hx) hfull⟩

/-- What `postprocess` makes of the tokens that `run` stored: each complete row takes its own, with
the index of its logits, and a row left in the middle of its prompt none. -/
theorem Batched.commit_own (h : Batched cfg decodes prefills u) {kernels : StepKernels V F}
    {numericalMode : String} {backend : TopPBackend} {noise : Nat → Fin V → F} {isPrefill : Bool}
    {params : Nat → RowSampling F} {hidden : List (List Nat → F)}
    (hvocab : ∀ v, cfg.vocabSize = some v → V ≤ v)
    (hemits : Emits kernels numericalMode backend noise isPrefill
      (u.sampledRows params (decodes ++ prefills)) hidden tokenIds) :
    ∃ events t, postprocess cfg (decodes ++ prefills) tokenIds u = .ok events t ∧
      events.map (fun e => (e.seqId, e.tokenId)) =
        ((decodes ++ prefills).zip tokenIds).filter (fun row => (u.seqs row.1).Complete) ∧
      ∀ (i x : Nat), (decodes ++ prefills)[i]? = some x →
        if (u.seqs x).Complete then
          ∃ j token,
            (emittingIndices numericalMode isPrefill (u.runnerRows (decodes ++ prefills)))[j]? =
              some i ∧
            token = ownToken kernels
              (usesFlash backend (emittingParams numericalMode isPrefill
                (u.sampledRows params (decodes ++ prefills))))
              (params x) (noise j) (queryLogits kernels hidden
                (lastQuery isPrefill (u.runnerRows (decodes ++ prefills)) i)) ∧
            tokenIds[i]? = some token.val ∧
            (t.seqs x).tokenIds = (u.seqs x).tokenIds ++ [token.val]
        else (t.seqs x).tokenIds = (u.seqs x).tokenIds := by
  obtain ⟨batch, hbatch⟩ : ∃ batch, batch = decodes ++ prefills := ⟨_, rfl⟩
  have hlen : tokenIds.length = batch.length := by
    rw [hemits.length, hbatch]
    exact List.length_map ..
  have hin : ∀ tokenId ∈ tokenIds, inVocabulary cfg tokenId := by
    intro tokenId hmem
    have hlt := hemits.lt tokenId hmem
    unfold inVocabulary
    cases hvocabSize : cfg.vocabSize with
    | none => rfl
    | some v => exact decide_eq_true (hlt.trans_le (hvocab v hvocabSize))
  have hpost := h.postprocess_ok (hbatch ▸ hlen) hin
  have hfst : (batch.zip tokenIds).map Prod.fst = batch := List.map_fst_zip hlen.ge
  have hnodup : ((batch.zip tokenIds).map Prod.fst).Nodup := by
    rw [hfst, hbatch]
    exact h.distinct
  have hle : ∀ x ∈ batch, (u.seqs x).numCachedTokens + (u.seqs x).numScheduledTokens ≤
      (u.seqs x).numTokens := fun x hx => h.scheduled_le (hbatch ▸ hx)
  have hevents := State.mem_rowsEvents cfg hnodup
    fun row hrow => hle row.1 (List.of_mem_zip hrow).1
  have hsampled := hemits.own
  rw [u.sampledRows_fst params] at hsampled
  rw [← hbatch] at hpost hsampled ⊢
  refine ⟨_, _, hpost, hevents, fun i x hx => ?_⟩
  have hilt : i < tokenIds.length := hlen ▸ (List.getElem?_eq_some_iff.mp hx).1
  have hi : tokenIds[i]? = some tokenIds[i] := List.getElem?_eq_getElem hilt
  have hzip : (x, tokenIds[i]) ∈ batch.zip tokenIds := by
    refine List.mem_of_getElem? (i := i) ?_
    rw [List.zip, List.getElem?_zipWith, hx, hi]
  have htokens := State.postRows_tokens cfg hnodup hzip (hle x (List.mem_of_getElem? hx))
  split
  · rename_i hfull
    rw [if_pos hfull] at htokens
    have hrow : (u.runnerRows batch)[i]? = some (.sequence (u.seqs x)) := by
      unfold State.runnerRows
      rw [List.getElem?_map, hx]
      rfl
    obtain ⟨j, hj⟩ := List.getElem?_of_mem (mem_emittingIndices numericalMode isPrefill hrow hfull)
    have hentry : (u.sampledRows params batch)[i]? = some (.sequence (u.seqs x), params x) := by
      unfold State.sampledRows
      rw [List.getElem?_map, hx]
      rfl
    have htoken := hsampled j i _ hj hentry
    refine ⟨j, _, hj, rfl, htoken, ?_⟩
    rw [hi, Option.some.injEq] at htoken
    rw [htokens, htoken]
  · rename_i hpart
    rw [htokens, if_neg hpart, List.append_nil]

/-- In every run, an ordinary step on a scheduled batch samples each complete row from the logits
of its own last query, with its own parameters and draws of its own, and appends exactly that
token; a row left in the middle of its prompt takes none. Only a decode batch that goes to a graph
with tables too narrow for it raises instead. -/
theorem scheduled_rows_take_own_tokens {turns : List Turn} {isPrefill : Bool}
    (hcall : schedule cfg (runTurns cfg turns) = .ok (batch, isPrefill) u)
    {kernels : StepKernels V F} (hmodel : kernels.model.RowPerInput) (runner : CapturedGraphs cfg)
    (hvocab : ∀ v, cfg.vocabSize = some v → V ≤ v) (numericalMode : String) (backend : TopPBackend)
    (noise : Nat → Fin V → F) {params : Nat → RowSampling F} (hvalid : ∀ x ∈ batch, (params x).Valid) :
    ∃ inputs,
      (if isPrefill then prepareRagged cfg.kvcacheBlockSize (u.runnerRows batch)
        else prepareDecode cfg.kvcacheBlockSize (u.runnerRows batch)) = .ok inputs ∧
      if runner.Overflows isPrefill (u.runnerRows batch) then
        run kernels runner.toTargetGraphs cfg.kvcacheBlockSize numericalMode backend noise
          (u.sampledRows params batch) isPrefill = .error shapeMismatch
      else ∃ hidden tokenIds events t,
        runModel kernels.model runner.toTargetGraphs inputs isPrefill = .ok hidden ∧
        hidden.length = inputs.inputIds.length ∧
        run kernels runner.toTargetGraphs cfg.kvcacheBlockSize numericalMode backend noise
          (u.sampledRows params batch) isPrefill = .ok tokenIds ∧
        postprocess cfg batch tokenIds u = .ok events t ∧
        events.map (fun e => (e.seqId, e.tokenId)) =
          (batch.zip tokenIds).filter (fun row => (u.seqs row.1).Complete) ∧
        ∀ (i x : Nat), batch[i]? = some x →
          if (u.seqs x).Complete then
            ∃ j q token,
              (emittingIndices numericalMode isPrefill (u.runnerRows batch))[j]? = some i ∧
              OwnQuery inputs i (.sequence (u.seqs x)) q ∧
              token = ownToken kernels
                (usesFlash backend (emittingParams numericalMode isPrefill
                  (u.sampledRows params batch)))
                (params x) (noise j) (queryLogits kernels hidden q) ∧
              (t.seqs x).tokenIds = (u.seqs x).tokenIds ++ [token.val]
          else (t.seqs x).tokenIds = (u.seqs x).tokenIds := by
  obtain ⟨hp, hflag⟩ := (Flagged.companion cfg).stable.runTurns turns
  obtain ⟨decodes, prefills, rfl, hne, rfl, hbatched⟩ := hp.scheduled hflag hcall
  obtain ⟨inputs, hinputs, -, hstep⟩ :=
    hbatched.run_own hne hmodel runner numericalMode backend noise hvalid
  refine ⟨inputs, ?_, ?_⟩
  · rw [← hinputs]
    by_cases hpure : prefills = [] <;> simp [hpure]
  split at hstep
  · rename_i hover
    rw [if_pos hover]
    exact hstep.2
  · rename_i hover
    rw [if_neg hover]
    obtain ⟨hidden, tokenIds, hhidden, hsize, -, hrun, hemits, hown⟩ := hstep
    obtain ⟨events, t, hpost, hevents, hrows⟩ := hbatched.commit_own hvocab hemits
    refine ⟨hidden, tokenIds, events, t, hhidden, hsize, hrun, hpost, hevents, fun i x hx => ?_⟩
    have hrow := hrows i x hx
    split <;> rename_i hfull
    · rw [if_pos hfull] at hrow
      obtain ⟨j, token, hj, htoken, -, happ⟩ := hrow
      exact ⟨j, _, token, hj, hown i x hx hfull, htoken, happ⟩
    · rw [if_neg hfull] at hrow
      exact hrow

def inputRow (id : Nat) : List Nat → ℚ := fun _ => id

def identityModel : TargetModel (List Nat → ℚ) where
  forward inputs := inputs.inputIds.map inputRow
  replay _ filled := filled.inputIds.map inputRow
  replayVarlen _ filled := filled.inputIds.map inputRow

/-- Kernels whose largest logit is the successor of the input, the FlashInfer ones as well. -/
def successorKernels : StepKernels 16 ℚ where
  model := identityModel
  hiddenSize := 1
  head row i := if (i.val : ℚ) = row [0] + 1 then ((1 : ℚ) : WithBot ℚ) else ((0 : ℚ) : WithBot ℚ)
  sort := tupleSort 16
  softmax := rampWeight.softmax
  flashSoftmax _ row i := (row i).unbotD 0
  topPSampling _ _ probs := argmax probs

theorem successorKernels_rows : successorKernels.model.RowPerInput where
  forward _ := List.length_map _
  replay _ _ := List.length_map _
  replayVarlen _ _ := List.length_map _

def CapturedGraphs.zeros (cfg : Config) : CapturedGraphs cfg where
  enforceEager := false
  maxModelLen := cfg.maxModelLen
  graphBs := captureBuckets cfg
  graphs := captureBuckets cfg
  varlenGraphs := varlenGraphKeys cfg
  graphVars := .stale _ _ 0
  varlenVars :=
    { inputIds := List.replicate _ 0
      positions := List.replicate _ 0
      slotMapping := List.replicate _ 0
      cuQ := List.replicate _ 0
      cuK := List.replicate _ 0
      blockTables := (DecodeBuffers.stale _ _ 0).blockTables
      inputIds_length := List.length_replicate
      positions_length := List.length_replicate
      slotMapping_length := List.length_replicate
      cuQ_length := List.length_replicate
      cuK_length := List.length_replicate
      blockTables_length := (DecodeBuffers.stale _ _ 0).blockTables_length
      blockTables_width := rfl }
  maxModelLen_eq := rfl
  graphBs_eq := rfl
  varlenGraphs_sub _ h := h

def mixedParams (x : Nat) : RowSampling ℚ := if x = 0 then ⟨0, -1, 1⟩ else ⟨1, -1, 1 / 2⟩

theorem mixedParams_valid (x : Nat) : (mixedParams x).Valid := by
  unfold mixedParams
  split <;> norm_num [RowSampling.Valid]

def joinedTurns : List Turn :=
  [.call (.add [3, 4] 4 true), .step (.sample (.ok [5])), .call (.add [6, 7, 8] 2 true)]

theorem queryLogits_successor {inputIds : List Nat} {q id : Nat} (h : inputIds[q]? = some id) :
    queryLogits successorKernels (inputIds.map inputRow) q =
      successorKernels.head (inputRow id) := by
  unfold queryLogits
  rw [List.getD_eq_getElem?_getD, List.getElem?_map, h]
  rfl

theorem identityModel_ragged (hkeys : varlenGraphKeys cfg = []) (inputs : ModelInputs) :
    runModel identityModel (CapturedGraphs.zeros cfg).toTargetGraphs inputs true =
      .ok (inputs.inputIds.map inputRow) := by
  unfold runModel runVarlen
  rw [if_pos rfl]
  split
  · rfl
  · rename_i key hselect
    have hmem : key ∈ varlenGraphKeys cfg := (selectVarlenGraph_fits hselect).1
    rw [hkeys] at hmem
    exact absurd hmem List.not_mem_nil

private theorem schedule_of_decodeRows {cfg : Config} {turns : List Turn} {rows : List RunnerRow}
    (h : decodeRows cfg turns = some rows) :
    ∃ batch u, schedule cfg (runTurns cfg turns) = .ok (batch, false) u ∧
      u.runnerRows batch = rows := by
  unfold decodeRows at h
  split at h
  · rename_i batch u hcall
    exact ⟨batch, u, hcall, Option.some.inj h⟩
  · exact nomatch h

/-- A decode row and a fresh prompt in one step, the second sampled by FlashInfer; then a decode
batch that no captured table holds. -/
theorem scheduled_rows_take_own_tokens_sample :
    (∃ u tokenIds events t,
      schedule Config.sample (runTurns Config.sample joinedTurns) = .ok ([0, 1], true) u ∧
      run successorKernels (CapturedGraphs.zeros Config.sample).toTargetGraphs 2 "invariant"
        .flashinfer (fun _ _ => 1) (u.sampledRows mixedParams [0, 1]) true = .ok tokenIds ∧
      postprocess Config.sample [0, 1] tokenIds u = .ok events t ∧
      (t.seqs 0).tokenIds = [3, 4, 5, 6] ∧ (t.seqs 1).tokenIds = [6, 7, 8, 9]) ∧
    ∃ batch u, schedule Config.sixBlocks (runTurns Config.sixBlocks failedDecodeTurns) =
        .ok (batch, false) u ∧ u.runnerRows batch = [wideRow] ∧
      run successorKernels (CapturedGraphs.zeros Config.sixBlocks).toTargetGraphs 2 "invariant"
        .flashinfer (fun _ _ => 1) (u.sampledRows mixedParams batch) false =
          .error shapeMismatch := by
  constructor
  · obtain ⟨u, hcall, hemitting, h0, h1, hfull0, hfull1⟩ :
        ∃ u, schedule Config.sample (runTurns Config.sample joinedTurns) = .ok ([0, 1], true) u ∧
          emittingIndices "invariant" true (u.runnerRows [0, 1]) = [0, 1] ∧
          (u.seqs 0).tokenIds = [3, 4, 5] ∧ (u.seqs 1).tokenIds = [6, 7, 8] ∧
          (u.seqs 0).Complete ∧ (u.seqs 1).Complete := ⟨_, rfl, rfl, rfl, rfl, rfl, rfl⟩
    obtain ⟨inputs, -, hstep⟩ := scheduled_rows_take_own_tokens hcall
      successorKernels_rows (CapturedGraphs.zeros Config.sample)
      (by simp [Config.sample]) "invariant" .flashinfer (fun _ _ => 1)
      fun x _ => mixedParams_valid x
    rw [if_neg fun hover => Bool.false_ne_true hover.1.symm] at hstep
    obtain ⟨hidden, tokenIds, events, t, hpass, -, hrun, hpost, -, hrows⟩ := hstep
    obtain rfl := Except.ok.inj (hpass.symm.trans (identityModel_ragged rfl inputs))
    have hflash : usesFlash .flashinfer (emittingParams "invariant" true
        (u.sampledRows mixedParams [0, 1])) = true := by
      unfold emittingParams
      rw [u.sampledRows_fst, hemitting]
      change usesFlash .flashinfer [mixedParams 0, mixedParams 1] = true
      decide +kernel
    have hfirst := hrows 0 0 rfl
    have hsecond := hrows 1 1 rfl
    rw [if_pos hfull0, h0] at hfirst
    rw [if_pos hfull1, h1] at hsecond
    obtain ⟨_, _, token, -, hown, htoken, happ⟩ := hfirst
    obtain ⟨_, _, token', -, hown', htoken', happ'⟩ := hsecond
    have hlast : (RunnerRow.sequence (u.seqs 0)).lastToken = 5 :=
      congrArg (List.getLastD · 0) h0
    have hlast' : (RunnerRow.sequence (u.seqs 1)).lastToken = 8 :=
      congrArg (List.getLastD · 0) h1
    rw [hflash, queryLogits_successor hown.token, hlast] at htoken
    rw [hflash, queryLogits_successor hown'.token, hlast'] at htoken'
    have htok : token = 6 := htoken.trans (by decide +kernel)
    have htok' : token' = 9 := htoken'.trans (by decide +kernel)
    rw [htok] at happ
    rw [htok'] at happ'
    exact ⟨u, tokenIds, events, t, hcall, hrun, hpost, happ, happ'⟩
  · obtain ⟨batch, u, hcall, hwide⟩ := schedule_of_decodeRows
      (show decodeRows Config.sixBlocks failedDecodeTurns = some [wideRow] by decide +kernel)
    have hover : (CapturedGraphs.zeros Config.sixBlocks).Overflows false (u.runnerRows batch) := by
      rw [hwide]
      exact ⟨rfl, rfl, wideRow, List.mem_singleton.mpr rfl, by decide⟩
    obtain ⟨_, -, hstep⟩ := scheduled_rows_take_own_tokens hcall
      successorKernels_rows (CapturedGraphs.zeros Config.sixBlocks)
      (by simp [Config.sixBlocks, Config.sample]) "invariant" .flashinfer (fun _ _ => 1)
      fun x _ => mixedParams_valid x
    rw [if_pos hover] at hstep
    exact ⟨batch, u, hcall, hwide, hstep⟩

/-- Two target calls on a scheduled batch, in whatever numerical modes, whose tokens agree on the
complete rows commit the same state and the same events. -/
theorem commit_reads_complete_rows {turns : List Turn} {isPrefill : Bool}
    (hcall : schedule cfg (runTurns cfg turns) = .ok (batch, isPrefill) u) {a b : List Nat}
    (ha : a.length = batch.length) (hb : b.length = batch.length)
    (hina : ∀ token ∈ a, inVocabulary cfg token) (hinb : ∀ token ∈ b, inVocabulary cfg token)
    (hsame : ∀ (i x : Nat), batch[i]? = some x → (u.seqs x).Complete → a[i]? = b[i]?) :
    ∃ events t, postprocess cfg batch a u = .ok events t ∧
      postprocess cfg batch b u = .ok events t := by
  obtain ⟨hp, hflag⟩ := (Flagged.companion cfg).stable.runTurns turns
  obtain ⟨decodes, prefills, rfl, -, -, hbatched⟩ := hp.scheduled hflag hcall
  obtain ⟨hstate, hevents⟩ := State.postRows_congr cfg hbatched.distinct
    (fun x hx => hbatched.scheduled_le hx) ha hb hsame
  refine ⟨_, _, hbatched.postprocess_ok ha hina, ?_⟩
  rw [hstate, hevents]
  exact hbatched.postprocess_ok hb hinb

def Config.narrow : Config :=
  { Config.sample with maxNumBatchedTokens := 3, maxNumSeqs_le := by decide }

/-- Four tokens under that budget: the row is left one token short. -/
theorem commit_reads_complete_rows_sample :
    ∃ u events t, schedule Config.narrow (runTurns Config.narrow
        [.call (.add [3, 4, 5, 6] 1 true)]) = .ok ([0], true) u ∧
      postprocess Config.narrow [0] [1] u = .ok events t ∧
      postprocess Config.narrow [0] [2] u = .ok events t := by
  have hcall : ∃ u, schedule Config.narrow (runTurns Config.narrow
      [.call (.add [3, 4, 5, 6] 1 true)]) = .ok ([0], true) u ∧
      (u.seqs 0).numScheduledTokens = 3 ∧ (u.seqs 0).numCachedTokens = 0 ∧
        (u.seqs 0).numTokens = 4 := ⟨_, rfl, rfl, rfl, rfl⟩
  obtain ⟨u, hcall, hsched, hcached, hlen⟩ := hcall
  have hsame : ∀ (i x : Nat), [0][i]? = some x → (u.seqs x).Complete → [1][i]? = [2][i]? := by
    intro i x hx hfull
    obtain rfl := List.mem_singleton.mp (List.mem_of_getElem? hx)
    unfold Sequence.Complete at hfull
    omega
  have hone : ∀ token ∈ [1], inVocabulary Config.narrow token := by decide
  have htwo : ∀ token ∈ [2], inVocabulary Config.narrow token := by decide
  obtain ⟨events, t, h1, h2⟩ := commit_reads_complete_rows hcall
    (List.length_singleton : [1].length = 1) (List.length_singleton : [2].length = 1) hone htwo hsame
  exact ⟨u, events, t, hcall, h1, h2⟩

end Step

end NanoVllm
