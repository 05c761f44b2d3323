/- module: NanoVllm/Runs/EmissionRows
   layer: main result
   source: nanovllm/engine/model_runner.py, prepare_ragged, prepare_decode and run;
     nanovllm/layers/embed_head.py, ParallelLMHead.forward; nanovllm/engine/scheduler.py, postprocess
   digest: The LM head, the sampler, the stored tokens and the appended ones go by the same rows. -/

import NanoVllm.Runs.Emission

set_option autoImplicit false
set_option relaxedAutoImplicit false

namespace NanoVllm

open Library

variable {cfg : Config} {u : State} {batch decodes prefills : List Nat}

section Rows

variable {V : Nat} {F : Type} [Field F] [LinearOrder F] [NeZero V]

/-- The rows of a pass with the rows `hidden`: logits `j` are those of the last query of the row
`emittingIndices` names there, `run` samples from them with the parameters of that row and stores
the token at it, and `postprocess` appends it exactly if the row is complete. -/
structure RowsAgree (cfg : Config) (kernels : StepKernels V F) (runner : CapturedGraphs cfg)
    (numericalMode : String) (backend : TopPBackend) (noise : Nat → Fin V → F)
    (params : Nat → RowSampling F) (batch : List Nat) (isPrefill : Bool) (u : State)
    (inputs : ModelInputs) (hidden : List (List Nat → F)) (tokenIds : List Nat)
    (events : List StreamOutput) (t : State) : Prop where
  logits : computeLogits kernels numericalMode inputs.context false hidden =
    .ok ((emittingIndices numericalMode isPrefill (u.runnerRows batch)).map fun i =>
      queryLogits kernels hidden (lastQuery isPrefill (u.runnerRows batch) i))
  stored : run kernels runner.toTargetGraphs cfg.kvcacheBlockSize numericalMode backend noise
    (u.sampledRows params batch) isPrefill = .ok tokenIds
  appended : postprocess cfg batch tokenIds u = .ok events t
  streamed : events.map (fun e => (e.seqId, e.tokenId)) =
    (batch.zip tokenIds).filter (fun row => (u.seqs row.1).Complete)
  rows : ∀ (i x : Nat), batch[i]? = some x →
    if (u.seqs x).Complete then
      ∃ j token,
        (emittingIndices numericalMode isPrefill (u.runnerRows batch))[j]? = some i ∧
        OwnQuery inputs i (.sequence (u.seqs x)) (lastQuery isPrefill (u.runnerRows batch) i) ∧
        token = ownToken kernels
          (usesFlash backend (emittingParams numericalMode isPrefill (u.sampledRows params batch)))
          (params x) (noise j)
          (queryLogits kernels hidden (lastQuery isPrefill (u.runnerRows batch) i)) ∧
        tokenIds[i]? = some token.val ∧
        (t.seqs x).tokenIds = (u.seqs x).tokenIds ++ [token.val]
    else (t.seqs x).tokenIds = (u.seqs x).tokenIds

private theorem Batched.rows_agree (h : Batched cfg decodes prefills u)
    (hne : decodes ++ prefills ≠ []) (hvocab : ∀ v, cfg.vocabSize = some v → V ≤ v)
    {kernels : StepKernels V F} (hmodel : kernels.model.RowPerInput) (runner : CapturedGraphs cfg)
    (numericalMode : String) (backend : TopPBackend) (noise : Nat → Fin V → F)
    {params : Nat → RowSampling F} (hvalid : ∀ x ∈ decodes ++ prefills, (params x).Valid)
    {inputs : ModelInputs}
    (hinputs : (if prefills = [] then
        prepareDecode cfg.kvcacheBlockSize (u.runnerRows (decodes ++ prefills))
      else prepareRagged cfg.kvcacheBlockSize (u.runnerRows (decodes ++ prefills))) = .ok inputs) :
    match runModel kernels.model runner.toTargetGraphs inputs (decide (prefills ≠ [])) with
    | .error e => run kernels runner.toTargetGraphs cfg.kvcacheBlockSize numericalMode backend noise
        (u.sampledRows params (decodes ++ prefills)) (decide (prefills ≠ [])) = .error e
    | .ok hidden => ∃ tokenIds events t, RowsAgree cfg kernels runner numericalMode backend noise
        params (decodes ++ prefills) (decide (prefills ≠ [])) u inputs hidden tokenIds events t := by
  obtain ⟨inputs', hinputs', -, hstep⟩ :=
    h.run_own hne hmodel runner numericalMode backend noise hvalid
  obtain rfl := Except.ok.inj (hinputs.symm.trans hinputs')
  split at hstep
  · rw [hstep.1]
    exact hstep.2
  · obtain ⟨hidden, tokenIds, hpass, -, hlogits, hrun, hemits, hown⟩ := hstep
    obtain ⟨events, t, hpost, hevents, hrows⟩ := h.commit_own hvocab hemits
    rw [hpass]
    refine ⟨tokenIds, events, t, hlogits, hrun, hpost, hevents, fun i x hx => ?_⟩
    have hrow := hrows i x hx
    split <;> rename_i hfull
    · rw [if_pos hfull] at hrow
      obtain ⟨j, token, hj, htoken, hstored, happ⟩ := hrow
      exact ⟨j, token, hj, hown i x hx hfull, htoken, hstored, happ⟩
    · rwa [if_neg hfull] at hrow

private theorem Batched.tokens_fit (h : Batched cfg decodes prefills u)
    (hne : decodes ++ prefills ≠ []) (hvocab : ∀ v, cfg.vocabSize = some v → V ≤ v)
    {kernels : StepKernels V F} (hmodel : kernels.model.RowPerInput) (runner : CapturedGraphs cfg)
    {numericalMode : String} {backend : TopPBackend} {noise : Nat → Fin V → F}
    {params : Nat → RowSampling F} (hvalid : ∀ x ∈ decodes ++ prefills, (params x).Valid)
    {tokenIds : List Nat}
    (hrun : run kernels runner.toTargetGraphs cfg.kvcacheBlockSize numericalMode backend noise
      (u.sampledRows params (decodes ++ prefills)) (decide (prefills ≠ [])) = .ok tokenIds) :
    tokenIds.length = (decodes ++ prefills).length ∧
      ∀ tokenId ∈ tokenIds, inVocabulary cfg tokenId := by
  obtain ⟨inputs, -, -, hstep⟩ :=
    h.run_own hne hmodel runner numericalMode backend noise hvalid
  split at hstep
  · rw [hstep.2] at hrun
    cases hrun
  obtain ⟨hidden, tokenIds', -, -, -, hrun', hemits, -⟩ := hstep
  rw [hrun'] at hrun
  obtain rfl := Except.ok.inj hrun
  refine ⟨hemits.length.trans (List.length_map ..), fun tokenId hmem => ?_⟩
  have hlt := hemits.lt tokenId hmem
  unfold inVocabulary
  cases hvocabSize : cfg.vocabSize with
  | none => rfl
  | some v => exact decide_eq_true (hlt.trans_le (hvocab v hvocabSize))

/-- In every run, for every batch that `schedule` returns, in every numerical mode: where the pass
of the model returns, the selected, the sampled, the stored and the appended rows agree, and where
it raises, `run` raises with it. Calls in two modes, with models of their own, whose tokens agree on
the complete rows commit the same events and the same state. -/
theorem emission_rows_agree {turns : List Turn} {isPrefill : Bool}
    (hcall : schedule cfg (runTurns cfg turns) = .ok (batch, isPrefill) u)
    (hvocab : ∀ v, cfg.vocabSize = some v → V ≤ v) {params : Nat → RowSampling F}
    (hvalid : ∀ x ∈ batch, (params x).Valid) :
    ∃ inputs,
      (if isPrefill then prepareRagged cfg.kvcacheBlockSize (u.runnerRows batch)
        else prepareDecode cfg.kvcacheBlockSize (u.runnerRows batch)) = .ok inputs ∧
      (∀ (kernels : StepKernels V F), kernels.model.RowPerInput →
        ∀ (runner : CapturedGraphs cfg) (numericalMode : String) (backend : TopPBackend)
          (noise : Nat → Fin V → F),
        match runModel kernels.model runner.toTargetGraphs inputs isPrefill with
        | .error e => run kernels runner.toTargetGraphs cfg.kvcacheBlockSize numericalMode backend
            noise (u.sampledRows params batch) isPrefill = .error e
        | .ok hidden => ∃ tokenIds events t, RowsAgree cfg kernels runner numericalMode backend noise
            params batch isPrefill u inputs hidden tokenIds events t) ∧
      ∀ (kernels kernels' : StepKernels V F), kernels.model.RowPerInput →
        kernels'.model.RowPerInput →
        ∀ (runner runner' : CapturedGraphs cfg) (backend backend' : TopPBackend)
          (noise noise' : Nat → Fin V → F) (tokenIds tokenIds' : List Nat),
        run kernels runner.toTargetGraphs cfg.kvcacheBlockSize "fast" backend noise
          (u.sampledRows params batch) isPrefill = .ok tokenIds →
        run kernels' runner'.toTargetGraphs cfg.kvcacheBlockSize "invariant" backend' noise'
          (u.sampledRows params batch) isPrefill = .ok tokenIds' →
        (∀ (i x : Nat), batch[i]? = some x → (u.seqs x).Complete → tokenIds[i]? = tokenIds'[i]?) →
        ∃ events t, postprocess cfg batch tokenIds u = .ok events t ∧
          postprocess cfg batch tokenIds' u = .ok events t := by
  obtain ⟨hp, hflag⟩ := (Flagged.companion cfg).stable.runTurns turns
  obtain ⟨decodes, prefills, rfl, hne, rfl, hbatched⟩ := hp.scheduled hflag hcall
  obtain ⟨inputs, hinputs⟩ := hbatched.inputs_ok hne
  refine ⟨inputs, ?_, fun kernels hmodel runner numericalMode backend noise =>
    hbatched.rows_agree hne hvocab hmodel runner numericalMode backend noise hvalid hinputs, ?_⟩
  · rw [← hinputs]
    by_cases hpure : prefills = [] <;> simp [hpure]
  · intro kernels kernels' hmodel hmodel' runner runner' backend backend' noise noise' tokenIds
      tokenIds' hrun hrun' hsame
    obtain ⟨hlen, hin⟩ := hbatched.tokens_fit hne hvocab hmodel runner hvalid hrun
    obtain ⟨hlen', hin'⟩ := hbatched.tokens_fit hne hvocab hmodel' runner' hvalid hrun'
    obtain ⟨hstate, hevents⟩ := State.postRows_congr cfg hbatched.distinct
      (fun x hx => hbatched.scheduled_le hx) hlen hlen' hsame
    refine ⟨_, _, hbatched.postprocess_ok hlen hin, ?_⟩
    rw [hstate, hevents]
    exact hbatched.postprocess_ok hlen' hin'

end Rows

def chunkedTurns : List Turn :=
  [.call (.add [3, 4] 4 true), .step (.sample (.ok [5])), .call (.add [6, 7, 8, 9] 2 true)]

/-- A decode row beside a prompt of which two tokens fit: in both modes the first takes the token of
its own query and the second none. -/
theorem emission_rows_agree_sample :
    ∃ u tokenIds tokenIds' events t,
      schedule Config.narrow (runTurns Config.narrow chunkedTurns) = .ok ([0, 1], true) u ∧
      run successorKernels (CapturedGraphs.zeros Config.narrow).toTargetGraphs 2 "fast" .exact
        (fun _ _ => 1) (u.sampledRows mixedParams [0, 1]) true = .ok tokenIds ∧
      run successorKernels (CapturedGraphs.zeros Config.narrow).toTargetGraphs 2 "invariant" .exact
        (fun _ _ => 1) (u.sampledRows mixedParams [0, 1]) true = .ok tokenIds' ∧
      postprocess Config.narrow [0, 1] tokenIds u = .ok events t ∧
      postprocess Config.narrow [0, 1] tokenIds' u = .ok events t ∧
      (t.seqs 0).tokenIds = [3, 4, 5, 6] ∧ (t.seqs 1).tokenIds = [6, 7, 8, 9] := by
  obtain ⟨u, hcall, h0, h1, hfull0, hpart1⟩ :
      ∃ u, schedule Config.narrow (runTurns Config.narrow chunkedTurns) = .ok ([0, 1], true) u ∧
        (u.seqs 0).tokenIds = [3, 4, 5] ∧ (u.seqs 1).tokenIds = [6, 7, 8, 9] ∧
        (u.seqs 0).Complete ∧ ¬ (u.seqs 1).Complete :=
    ⟨_, rfl, rfl, rfl, rfl, by decide +kernel⟩
  obtain ⟨inputs, -, hmodes, hsame⟩ := emission_rows_agree (F := ℚ) hcall
    (V := 16) (by simp [Config.narrow, Config.sample]) fun x _ => mixedParams_valid x
  have htoken : ∀ mode, ∃ tokenIds events t, RowsAgree Config.narrow successorKernels
      (CapturedGraphs.zeros Config.narrow) mode .exact (fun _ _ => 1) mixedParams [0, 1] true u inputs
      (inputs.inputIds.map inputRow) tokenIds events t ∧ tokenIds[0]? = some 6 ∧
      (t.seqs 0).tokenIds = [3, 4, 5, 6] ∧ (t.seqs 1).tokenIds = [6, 7, 8, 9] := by
    intro mode
    have hmode := hmodes successorKernels successorKernels_rows (CapturedGraphs.zeros Config.narrow)
      mode .exact fun _ _ => 1
    rw [show successorKernels.model = identityModel from rfl, identityModel_ragged rfl] at hmode
    obtain ⟨tokenIds, events, t, hagree⟩ := hmode
    have hfirst := hagree.rows 0 0 rfl
    have hsecond := hagree.rows 1 1 rfl
    rw [if_pos hfull0, h0] at hfirst
    rw [if_neg hpart1, h1] at hsecond
    obtain ⟨_, token, -, hown, htoken, hstored, happ⟩ := hfirst
    have hlast : (RunnerRow.sequence (u.seqs 0)).lastToken = 5 := congrArg (List.getLastD · 0) h0
    rw [show usesFlash TopPBackend.exact (emittingParams mode true
      (u.sampledRows mixedParams [0, 1])) = false by simp [usesFlash],
      queryLogits_successor hown.token, hlast] at htoken
    have htok : token = 6 := htoken.trans (by decide +kernel)
    rw [htok] at hstored happ
    exact ⟨tokenIds, events, t, hagree, hstored, happ, hsecond⟩
  obtain ⟨tokenIds, events, t, hfast, hstored, hfirst, hsecond⟩ := htoken "fast"
  obtain ⟨tokenIds', _, _, hinvariant, hstored', -, -⟩ := htoken "invariant"
  have hagree : ∀ (i x : Nat), [0, 1][i]? = some x → (u.seqs x).Complete →
      tokenIds[i]? = tokenIds'[i]? := by
    intro i x hx hfull
    rcases i with _ | _ | i
    · exact hstored.trans hstored'.symm
    · exact absurd (Option.some.inj hx ▸ hfull) hpart1
    · exact absurd hx (by simp)
  obtain ⟨events', t', hpost, hpost'⟩ := hsame successorKernels successorKernels
    successorKernels_rows successorKernels_rows (CapturedGraphs.zeros Config.narrow)
    (CapturedGraphs.zeros Config.narrow) .exact .exact (fun _ _ => 1) (fun _ _ => 1) tokenIds
    tokenIds' hfast.stored hinvariant.stored hagree
  rw [hfast.appended] at hpost
  obtain ⟨rfl, rfl⟩ := EStateM.Result.ok.inj hpost
  exact ⟨u, tokenIds, tokenIds', events, t, hcall, hfast.stored, hinvariant.stored,
    hfast.appended, hpost', hfirst, hsecond⟩

end NanoVllm
