/- module: NanoVllm/Inputs/Hidden
   layer: refinement
   source: run_model and run_model_all_positions of nanovllm/engine/model_runner.py
   digest: A pass returns a hidden row for each query, or a captured decode table is too narrow. -/

import NanoVllm.Inputs.Replay

set_option autoImplicit false
set_option relaxedAutoImplicit false

namespace NanoVllm

open Library

variable {H : Type} {cfg : Config} {bs t n capacity tokens slots width : Nat}
  {inputs : ModelInputs} {tables : BlockTables} {seqs : List RunnerRow}

/-- One hidden row for each input; a replay leaves as many as its buffers are long. -/
structure TargetModel.RowPerInput (model : TargetModel H) : Prop where
  forward : ∀ inputs, (model.forward inputs).length = inputs.inputIds.length
  replay : ∀ key filled, (model.replay key filled).length = filled.inputIds.length
  replayVarlen : ∀ key filled, (model.replayVarlen key filled).length = filled.inputIds.length

/-- A decode batch goes to a captured graph and has a table wider than the captured ones. -/
def TargetGraphs.Overflows (runner : TargetGraphs capacity tokens slots width) (isPrefill : Bool)
    (seqs : List RunnerRow) : Prop :=
  isPrefill = false ∧
    (selectDecodeGraph runner.enforceEager runner.graphBs runner.graphs seqs.length).isSome ∧
    ∃ row ∈ seqs, width < row.blockTable.length

instance (runner : TargetGraphs capacity tokens slots width) (isPrefill : Bool)
    (seqs : List RunnerRow) : Decidable (runner.Overflows isPrefill seqs) :=
  inferInstanceAs (Decidable (_ ∧ _ ∧ _))

variable {model : TargetModel H} (hmodel : model.RowPerInput) (runner : CapturedGraphs cfg)

include hmodel

private theorem RaggedStep.runVarlen_ok
    (h : ∀ tables, inputs.context.blockTables = some tables →
      inputs.context.slotMapping.length = inputs.inputIds.length →
      RaggedStep bs inputs.inputIds.length n inputs tables) :
    ∃ hidden, runVarlen model runner.toTargetGraphs inputs = .ok hidden ∧
      hidden.length = inputs.inputIds.length := by
  unfold runVarlen
  cases hselect : selectVarlenGraph runner.maxModelLen
      (pagesFor cfg.kvcacheBlockSize cfg.maxModelLen) runner.varlenGraphs inputs with
  | none => exact ⟨_, rfl, hmodel.forward inputs⟩
  | some key =>
    obtain ⟨hmem, hkt, hkn, hslots, tables, htables, hw⟩ := selectVarlenGraph_fits hselect
    have hstep := h tables htables hslots
    rw [hstep.cuSeqlensQ, Nat.add_sub_cancel] at hkn
    obtain ⟨ht, hn⟩ := varlenGraphKeys_le (runner.varlenGraphs_sub key hmem)
    obtain ⟨out, hout, -, -, -, -, hlen⟩ := hstep.fill runner.varlenVars hkt hkn (hkt.trans ht)
      (hkn.trans hn) hw
    refine ⟨_, Call.except_bind_of_ok hout, ?_⟩
    rw [List.length_take, hmodel.replayVarlen, hlen, Nat.min_eq_left (hkt.trans ht)]

theorem runModel_ragged (hbs : 0 < bs) (h : ∀ row ∈ seqs, row.Covered bs) :
    ∃ hidden, runModel model runner.toTargetGraphs (raggedInputs bs seqs) true = .ok hidden ∧
      hidden.length = (raggedInputs bs seqs).inputIds.length :=
  RaggedStep.runVarlen_ok hmodel runner fun _ htables hslots =>
    raggedInputs_step hbs h htables rfl hslots

theorem runModelAllPositions_ok {k : Nat} {rows : List DraftCycleRow} (hbs : 0 < bs)
    (h : ∀ row ∈ rows, row.Verifies bs k) (proposals : List (List Nat)) :
    ∃ hidden, runModelAllPositions model runner.toTargetGraphs (verifyInputs bs k rows proposals) =
        .ok hidden ∧ hidden.length = (verifyInputs bs k rows proposals).inputIds.length := by
  obtain ⟨inputs, hinputs⟩ : ∃ inputs, inputs = verifyInputs bs k rows proposals := ⟨_, rfl⟩
  have hragged : ¬ (inputs.context.isPrefill = false ∨ inputs.context.cuSeqlensQ = []) := by
    rw [hinputs]
    rintro (hflag | hcuts)
    · exact nomatch hflag
    · have hlen := congrArg List.length hcuts
      exact absurd (length_boundaries.symm.trans hlen) (Nat.succ_ne_zero _)
  have hstep : ∀ tables, inputs.context.blockTables = some tables →
      inputs.context.slotMapping.length = inputs.inputIds.length →
      RaggedStep bs inputs.inputIds.length rows.length inputs tables := by
    intro tables htables hslots
    have hverify := verifyInputs_step proposals hbs h (congrArg (·.inputIds.length) hinputs).symm
      (hinputs ▸ hslots)
    rw [← hinputs] at hverify
    obtain rfl := Option.some.inj (hverify.blockTables.symm.trans htables)
    exact hverify
  obtain ⟨hidden, hpass, hlen⟩ := RaggedStep.runVarlen_ok hmodel runner hstep
  rw [← hinputs]
  refine ⟨hidden, ?_, hlen⟩
  unfold runModelAllPositions
  exact (Call.except_guard_of_not hragged rfl).trans hpass

/-- The decode path raises exactly when the tables overflow those of the graph it chose. -/
theorem runModel_decode (hprepare : prepareDecode bs seqs = .ok inputs) :
    if runner.Overflows false seqs then
      runModel model runner.toTargetGraphs inputs false = .error shapeMismatch
    else ∃ hidden, runModel model runner.toTargetGraphs inputs false = .ok hidden ∧
      hidden.length = inputs.inputIds.length := by
  have hshape := prepareDecode_shape hprepare
  have hwidth : (paddedTables (seqs.map RunnerRow.blockTable)).width ≤
      pagesFor cfg.kvcacheBlockSize cfg.maxModelLen ↔
      ∀ row ∈ seqs, row.blockTable.length ≤ pagesFor cfg.kvcacheBlockSize cfg.maxModelLen :=
    longest_le_iff.trans List.forall_mem_map
  have hfits : ∀ {key}, selectDecodeGraph runner.enforceEager runner.graphBs runner.graphs
      seqs.length = some key → seqs.length ≤ min cfg.maxNumSeqs maxCudaGraphBatchSize := by
    intro key hselect
    obtain ⟨hbucket, -, hkey⟩ := selectDecodeGraph_fits hselect
    rw [runner.graphBs_eq] at hbucket
    exact hkey.trans (mem_draftGraphBatchBuckets hbucket).2
  unfold runModel
  rw [if_neg Bool.false_ne_true, hshape.inputIds]
  dsimp only
  split
  · rename_i hover
    obtain ⟨-, hsome, row, hrow, hwide⟩ := hover
    obtain ⟨key, hselect⟩ := Option.isSome_iff_exists.mp hsome
    have hnot : ¬ (paddedTables (seqs.map RunnerRow.blockTable)).width ≤
        pagesFor cfg.kvcacheBlockSize cfg.maxModelLen :=
      fun hw => Nat.not_le.mpr hwide (hwidth.mp hw row hrow)
    rw [hselect]
    dsimp only
    rw [hshape.fill_wide false runner.graphVars (hfits hselect) (Nat.not_le.mp hnot)]
    rfl
  · rename_i hover
    cases hselect : selectDecodeGraph runner.enforceEager runner.graphBs runner.graphs
        seqs.length with
    | none => exact ⟨_, rfl, (hmodel.forward inputs).trans hshape.inputIds⟩
    | some key =>
      have hw := hwidth.mpr fun row hrow => Nat.not_lt.mp fun hwide =>
        hover ⟨rfl, by rw [hselect]; rfl, row, hrow, hwide⟩
      obtain ⟨out, hout, hlen⟩ := hshape.fill_ok false runner.graphVars (hfits hselect) hw
      refine ⟨_, Call.except_bind_of_ok hout, ?_⟩
      rw [List.length_take, hmodel.replay, hlen, Nat.min_eq_left (hfits hselect)]

end NanoVllm
