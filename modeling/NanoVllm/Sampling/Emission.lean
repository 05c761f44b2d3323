/- module: NanoVllm/Sampling/Emission
   layer: refinement
   source: run of nanovllm/engine/model_runner.py, ParallelLMHead.forward of
     nanovllm/layers/embed_head.py
   digest: Every emitting row gets the token of its own last query, under its own parameters. -/

import NanoVllm.Inputs.Hidden
import NanoVllm.Inputs.Queries
import NanoVllm.Sampling.Tokens

set_option autoImplicit false
set_option relaxedAutoImplicit false

namespace NanoVllm

open Library

variable {V bs : Nat} {F : Type} {seqs : List RunnerRow}

section Logits

/-- The logits of query `q` of a pass. -/
def queryLogits [Field F] [LinearOrder F] (kernels : StepKernels V F) (hidden : List (List Nat → F))
    (q : Nat) : LogitRow V F :=
  kernels.head (hidden.getD q fun _ => 0)

/-- The rows the LM head selects in a ragged step are the last queries of the emitting rows. -/
private theorem selected_indices (numericalMode : String) (h : ∀ row ∈ seqs, row.Feeds bs)
    {x : Tensor F} :
    ParallelLMHead.selected numericalMode (raggedInputs bs seqs).context false x =
      ParallelLMHead.indexRows x ((emittingIndices numericalMode true seqs).map
        fun i => ((lastQuery true seqs i : Nat) : Int)) := by
  have hcut : ∀ i < seqs.length, ((lastQuery true seqs i : Nat) : Int) =
      ((boundaries 0 (seqs.map RunnerRow.numScheduledTokens)).getD (i + 1) 0 : Int) - 1 := by
    intro i hi
    have hpos := (boundary_bounds h hi).1
    unfold lastQuery
    rw [if_pos rfl]
    omega
  unfold ParallelLMHead.selected
  rw [if_pos ⟨rfl, Bool.false_ne_true⟩]
  have hfast : ((raggedInputs bs seqs).context.cuSeqlensQ.drop 1).map
      (fun stop : Nat => (stop : Int) - 1) =
      (List.range seqs.length).map fun i => ((lastQuery true seqs i : Nat) : Int) := by
    apply List.ext_getElem?
    intro i
    change (((boundaries 0 (seqs.map RunnerRow.numScheduledTokens)).drop 1).map _)[i]? = _
    rw [List.getElem?_map, List.getElem?_drop, List.getElem?_map, Nat.add_comm 1 i]
    by_cases hi : i < seqs.length
    · have hlt : i + 1 < (boundaries 0 (seqs.map RunnerRow.numScheduledTokens)).length := by
        rw [length_boundaries, List.length_map]
        omega
      rw [List.getElem?_range hi, Option.map_some, hcut i hi,
        List.getElem?_eq_getElem hlt, Option.map_some, List.getD_eq_getElem _ _ hlt]
    · have hge : (boundaries 0 (seqs.map RunnerRow.numScheduledTokens)).length ≤ i + 1 := by
        rw [length_boundaries, List.length_map]
        omega
      rw [List.getElem?_eq_none hge, List.getElem?_eq_none (by simpa using hi)]
      rfl
  dsimp only
  unfold emittingIndices
  by_cases hmode : numericalMode = "invariant"
  · rw [if_pos hmode, if_pos ⟨hmode, rfl⟩]
    refine congrArg (ParallelLMHead.indexRows x) (emissions_eq seqs 0 0 _ fun i hi => ?_)
    rw [Nat.zero_add]
    exact hcut i hi
  · rw [if_neg hmode, if_neg fun hboth => hmode hboth.1]
    exact congrArg (ParallelLMHead.indexRows x) hfast

variable [Field F] [LinearOrder F]

theorem computeLogits_ragged (kernels : StepKernels V F) (numericalMode : String)
    (h : ∀ row ∈ seqs, row.Feeds bs) {hidden : List (List Nat → F)}
    (hlen : hidden.length = (raggedInputs bs seqs).inputIds.length) :
    computeLogits kernels numericalMode (raggedInputs bs seqs).context false hidden =
      .ok ((emittingIndices numericalMode true seqs).map
        fun i => queryLogits kernels hidden (lastQuery true seqs i)) := by
  obtain ⟨picked, hpicked⟩ : ∃ picked, picked = emittingIndices numericalMode true seqs :=
    ⟨_, rfl⟩
  have hlt : ∀ q ∈ picked.map (fun i => ((lastQuery true seqs i : Nat) : Int)),
      -((hidden.length : Nat) : Int) ≤ q ∧ q < ((hidden.length : Nat) : Int) := by
    intro q hq
    obtain ⟨i, hi, rfl⟩ := List.mem_map.mp hq
    rw [hpicked] at hi
    have hbound := lastQuery_lt h (emittingIndices_lt hi)
    omega
  unfold computeLogits
  rw [selected_indices numericalMode h, ← hpicked]
  unfold ParallelLMHead.indexRows hiddenStates
  dsimp only
  rw [List.headD_cons, if_pos hlt]
  refine congrArg Except.ok ?_
  rw [List.headD_cons, List.length_map]
  apply List.ext_getElem?
  intro j
  rw [List.getElem?_map, List.getElem?_map]
  by_cases hj : j < picked.length
  · rw [List.getElem?_range hj, List.getElem?_eq_getElem hj, Option.map_some, Option.map_some]
    unfold queryLogits
    have hentry : (picked.map (fun i => ((lastQuery true seqs i : Nat) : Int))).getD j 0 =
        ((lastQuery true seqs picked[j] : Nat) : Int) := by
      rw [List.getD_eq_getElem _ _ (by simpa using hj), List.getElem_map]
    simp only [coordinate, List.getD_cons_zero, List.drop_succ_cons, List.drop_zero, hentry,
      Int.natCast_nonneg, Int.not_lt.mpr, ↓reduceIte, Int.toNat_natCast]
  · rw [List.getElem?_eq_none (by simpa using hj), List.getElem?_eq_none (by simpa using hj)]
    rfl

theorem computeLogits_all (kernels : StepKernels V F) (numericalMode : String)
    {context : ModelContext} {allPositions : Bool}
    (h : ¬ (context.isPrefill = true ∧ ¬ allPositions = true)) (hidden : List (List Nat → F)) :
    computeLogits kernels numericalMode context allPositions hidden =
      .ok ((List.range hidden.length).map (queryLogits kernels hidden)) := by
  unfold computeLogits ParallelLMHead.selected
  rw [if_neg h]
  rfl

theorem computeLogits_decode (kernels : StepKernels V F) (numericalMode : String)
    {context : ModelContext} (hctx : context.isPrefill = false) {hidden : List (List Nat → F)}
    (hlen : hidden.length = seqs.length) :
    computeLogits kernels numericalMode context false hidden =
      .ok ((emittingIndices numericalMode false seqs).map
        fun i => queryLogits kernels hidden (lastQuery false seqs i)) := by
  have hall : emittingIndices numericalMode false seqs = List.range seqs.length := by
    unfold emittingIndices
    rw [if_neg fun hboth => Bool.false_ne_true hboth.2]
  rw [computeLogits_all kernels numericalMode (by simp [hctx]), hall, hlen]
  rfl

end Logits

/-- One token for each emitting row: the strict `zip` passes and each row finds its own. -/
private theorem storeTokens_eq {size : Nat} {emitting tokens : List Nat} (hnodup : emitting.Nodup)
    (hlt : ∀ i ∈ emitting, i < size) (hlen : tokens.length = emitting.length) :
    ∃ stored, storeTokens size emitting tokens = .ok stored ∧ stored.length = size ∧
      (∀ (j i : Nat), emitting[j]? = some i → stored[i]? = tokens[j]?) ∧
      ∀ i < size, i ∉ emitting → stored[i]? = some 0 := by
  refine ⟨indexCopy (List.replicate size 0) emitting tokens, ?_, ?_, ?_, ?_⟩
  · unfold storeTokens
    rw [if_neg (by omega), if_neg (by omega)]
    rfl
  · rw [length_indexCopy, List.length_replicate]
  · intro j i hj
    refine indexCopy_getElem? hnodup hlen hj ?_
    rw [List.length_replicate]
    exact hlt i (List.mem_of_getElem? hj)
  · intro i hi hnot
    rw [indexCopy_getElem?_of_notMem hnot, List.getElem?_replicate, if_pos hi]

private theorem mapM_pyGet {α : Type} {values : List α} {indices : List Nat}
    (hlt : ∀ i ∈ indices, i < values.length) :
    ∃ picked, (indices.mapM fun i : Nat => pyGet values (i : Int)) = .ok picked ∧
      picked = indices.filterMap (values[·]?) ∧ picked.length = indices.length ∧
      ∀ (j i : Nat), indices[j]? = some i → picked[j]? = values[i]? := by
  obtain ⟨picked, hpicked, hlen, hget⟩ := indexSelect_ok hlt
  refine ⟨picked, ?_, ?_, hlen, hget⟩
  · rw [← hpicked]
    rfl
  · clear hpicked
    induction indices generalizing picked with
    | nil => exact List.length_eq_zero_iff.mp hlen
    | cons i indices ih =>
      cases picked with
      | nil => exact nomatch hlen
      | cons a picked =>
        have hhead : some a = values[i]? := hget 0 i rfl
        have htail := ih (fun k hk => hlt k (List.mem_cons_of_mem i hk)) picked
          (Nat.succ.inj hlen) fun j k hj => hget (j + 1) k hj
        rw [List.filterMap_cons, ← hhead, ← htail]

variable [Field F] [LinearOrder F] [NeZero V] {capacity tokens slots width : Nat}

/-- The sampling fields of the rows that emit. -/
def emittingParams (numericalMode : String) (isPrefill : Bool)
    (seqs : List (RunnerRow × RowSampling F)) : List (RowSampling F) :=
  ((emittingIndices numericalMode isPrefill (seqs.map Prod.fst)).filterMap (seqs[·]?)).map Prod.snd

/-- What `run` returns for the rows `seqs` behind a pass with the rows `hidden`: a token sampled
from the last query of each emitting row, and zeros elsewhere. -/
structure Emits (kernels : StepKernels V F) (numericalMode : String) (backend : TopPBackend)
    (noise : Nat → Fin V → F) (isPrefill : Bool) (seqs : List (RunnerRow × RowSampling F))
    (hidden : List (List Nat → F)) (tokenIds : List Nat) : Prop where
  length : tokenIds.length = seqs.length
  own : ∀ (j i : Nat) (entry : RunnerRow × RowSampling F),
    (emittingIndices numericalMode isPrefill (seqs.map Prod.fst))[j]? = some i →
      seqs[i]? = some entry → tokenIds[i]? = some (ownToken kernels
        (usesFlash backend (emittingParams numericalMode isPrefill seqs)) entry.2 (noise j)
        (queryLogits kernels hidden (lastQuery isPrefill (seqs.map Prod.fst) i))).val
  silent : ∀ i < seqs.length, i ∉ emittingIndices numericalMode isPrefill (seqs.map Prod.fst) →
    tokenIds[i]? = some 0

section Step

variable {kernels : StepKernels V F} {numericalMode : String} {backend : TopPBackend}
  {noise : Nat → Fin V → F} {isPrefill : Bool} {seqs : List (RunnerRow × RowSampling F)}
  {inputs : ModelInputs} {hidden : List (List Nat → F)} {tokenIds : List Nat}

theorem Emits.lt (h : Emits kernels numericalMode backend noise isPrefill seqs hidden tokenIds) :
    ∀ token ∈ tokenIds, token < V := by
  intro token htoken
  obtain ⟨i, hi⟩ := List.getElem?_of_mem htoken
  have hlt : i < seqs.length := h.length ▸ (List.getElem?_eq_some_iff.mp hi).1
  by_cases hemit : i ∈ emittingIndices numericalMode isPrefill (seqs.map Prod.fst)
  · obtain ⟨j, hj⟩ := List.getElem?_of_mem hemit
    have hentry := h.own j i seqs[i] hj (List.getElem?_eq_getElem hlt)
    rw [hi, Option.some.injEq] at hentry
    rw [hentry]
    exact Fin.isLt _
  · have hzero := h.silent i hlt hemit
    rw [hi, Option.some.injEq] at hzero
    rw [hzero]
    exact Nat.pos_of_neZero V

private theorem emitting_ok (numericalMode : String) (isPrefill : Bool)
    (hvalid : ∀ entry ∈ seqs, entry.2.Valid) :
    ∃ picked, ((emittingIndices numericalMode isPrefill (seqs.map Prod.fst)).mapM
        fun i : Nat => pyGet seqs (i : Int)) = .ok picked ∧
      picked.map Prod.snd = emittingParams numericalMode isPrefill seqs ∧
      picked.length = (emittingIndices numericalMode isPrefill (seqs.map Prod.fst)).length ∧
      (∀ (j i : Nat), (emittingIndices numericalMode isPrefill (seqs.map Prod.fst))[j]? = some i →
        picked[j]? = seqs[i]?) ∧
      ∀ own ∈ picked.map Prod.snd, own.Valid := by
  have hlt : ∀ i ∈ emittingIndices numericalMode isPrefill (seqs.map Prod.fst),
      i < seqs.length := fun i hi => by simpa using emittingIndices_lt hi
  obtain ⟨picked, hpicked, heq, hlen, hget⟩ := mapM_pyGet hlt
  refine ⟨picked, hpicked, congrArg (List.map Prod.snd) heq, hlen, hget, fun own hown => ?_⟩
  obtain ⟨entry, hentry, rfl⟩ := List.mem_map.mp hown
  rw [heq] at hentry
  obtain ⟨i, -, hi⟩ := List.mem_filterMap.mp hentry
  exact hvalid entry (List.mem_of_getElem? hi)

variable {runner : TargetGraphs capacity tokens slots width} {rows : List RunnerRow}
  (hvalid : ∀ entry ∈ seqs, entry.2.Valid) (hrows : seqs.map Prod.fst = rows)
  (hinputs : (if isPrefill then prepareRagged bs rows else prepareDecode bs rows) = .ok inputs)

include hvalid hrows hinputs

variable (backend noise)

theorem run_raises {e : Raised}
    (hpass : runModel kernels.model runner inputs isPrefill = .error e) :
    run kernels runner bs numericalMode backend noise seqs isPrefill = .error e := by
  subst hrows
  obtain ⟨picked, hpicked, -, -, -, hown⟩ := emitting_ok numericalMode isPrefill hvalid
  have hcount : ((picked.map Prod.snd).map fun _ => (fun _ => ⊥ : LogitRow V F)).length =
      (picked.map Prod.snd).length := List.length_map _
  obtain ⟨prepared, -, hprepared, -⟩ := sampleTokens_own kernels backend noise hown hcount
  unfold run
  rw [Call.except_bind_of_ok hinputs, Call.except_bind_of_ok hpicked,
    Call.except_bind_of_ok hprepared, hpass]
  rfl

theorem run_emits (hpass : runModel kernels.model runner inputs isPrefill = .ok hidden)
    (hlogits : computeLogits kernels numericalMode inputs.context false hidden =
      .ok ((emittingIndices numericalMode isPrefill rows).map
        fun i => queryLogits kernels hidden (lastQuery isPrefill rows i))) :
    ∃ tokenIds, run kernels runner bs numericalMode backend noise seqs isPrefill = .ok tokenIds ∧
      Emits kernels numericalMode backend noise isPrefill seqs hidden tokenIds := by
  subst hrows
  obtain ⟨picked, hpicked, hparams, hpickedlen, hget, hpickedvalid⟩ :=
    emitting_ok numericalMode isPrefill hvalid
  obtain ⟨emitting, hemitting⟩ : ∃ emitting,
      emitting = emittingIndices numericalMode isPrefill (seqs.map Prod.fst) := ⟨_, rfl⟩
  have hlt : ∀ i ∈ emitting, i < seqs.length := by
    intro i hi
    rw [hemitting] at hi
    simpa using emittingIndices_lt hi
  have hnodup : emitting.Nodup := hemitting ▸ emittingIndices_nodup numericalMode isPrefill _
  rw [← hemitting] at hlogits hpicked hpickedlen hget
  have hcount : (emitting.map fun i => queryLogits kernels hidden
      (lastQuery isPrefill (seqs.map Prod.fst) i)).length = (picked.map Prod.snd).length := by
    rw [List.length_map, List.length_map, hpickedlen]
  obtain ⟨prepared, sampled, hprepared, hsampled, hlen, hown⟩ :=
    sampleTokens_own kernels backend noise hpickedvalid hcount
  rw [List.length_map, hpickedlen] at hlen
  -- An empty batch of samples skips the sampler, which would return no token either.
  have hbranch : (if picked.isEmpty then pure []
      else sampleTokens kernels backend prepared noise (emitting.map fun i =>
        queryLogits kernels hidden (lastQuery isPrefill (seqs.map Prod.fst) i))) =
      (.ok sampled : Except Raised (List (Fin V))) := by
    by_cases hempty : picked.isEmpty
    · rw [List.isEmpty_iff] at hempty
      rw [hempty, List.length_nil] at hpickedlen
      rw [hempty, List.length_eq_zero_iff.mp (hlen.trans hpickedlen.symm)]
      rfl
    · rw [if_neg hempty]
      exact hsampled
  have htokens : (sampled.map Fin.val).length = emitting.length := by rw [List.length_map, hlen]
  obtain ⟨stored, hstored, hsize, hfound, hsilent⟩ := storeTokens_eq hnodup hlt htokens
  refine ⟨stored, ?_, hsize, ?_, ?_⟩
  · unfold run
    rw [Call.except_bind_of_ok hinputs, ← hemitting, Call.except_bind_of_ok hpicked,
      Call.except_bind_of_ok hprepared, Call.except_bind_of_ok hpass,
      Call.except_bind_of_ok hlogits]
    exact (Call.except_bind_of_ok hbranch).trans hstored
  · intro j i entry hj hentry
    rw [← hemitting] at hj
    have hpick : (picked.map Prod.snd)[j]? = some entry.2 := by
      rw [List.getElem?_map, hget j i hj, hentry]
      rfl
    have htoken := hown j entry.2 _ hpick (by rw [List.getElem?_map, hj]; rfl)
    rw [hfound j i hj, List.getElem?_map, htoken, hparams]
    rfl
  · intro i hi hnot
    rw [← hemitting] at hnot
    exact hsilent i hi hnot

end Step

end NanoVllm
