/- module: NanoVllm/Sampling/Tokens
   layer: refinement
   source: the sampling branch of run in nanovllm/engine/model_runner.py
   digest: Each emitted row is sampled with its own temperature, top-k and top-p. -/

import NanoVllm.Engine.ModelRunner
import NanoVllm.Sampling.Metadata

set_option autoImplicit false
set_option relaxedAutoImplicit false

namespace NanoVllm

open Library

variable {V : Nat} {F : Type} [Field F] [LinearOrder F] [NeZero V]
  {params : List (RowSampling F)} {logits : List (LogitRow V F)}

/-- The token of a row, from its logits, its draws and its own parameters alone; `flash` tells
the FlashInfer sampler from the exact one. -/
def ownToken (kernels : StepKernels V F) (flash : Bool) (own : RowSampling F)
    (noise : Fin V → F) (row : LogitRow V F) : Fin V :=
  if flash then flashinferRow kernels own.temperature own.topP noise (ownTopK own row)
  else forwardRow kernels own.temperature noise
    (ownTopP kernels.sort kernels.softmax own (ownTopK own row))

/-- FlashInfer samples a batch as soon as one of its rows has a top-p of its own. -/
def usesFlash (backend : TopPBackend) (params : List (RowSampling F)) : Bool :=
  backend = .flashinfer ∧ ∃ own ∈ params, hasTopP own

theorem ownToken_greedy (kernels : StepKernels V F) (flash : Bool) {own : RowSampling F}
    (hzero : own.temperature = 0) (noise : Fin V → F) (row : LogitRow V F) :
    ownToken kernels flash own noise row = argmax row := by
  have htopK : ownTopK own row = row := by
    simp [ownTopK, effectiveTopK, hzero]
  have htopP : ownTopP kernels.sort kernels.softmax own row = row := by
    simp [ownTopP, hzero]
  unfold ownToken flashinferRow forwardRow
  rw [htopK, htopP, if_pos hzero, if_pos hzero]
  split <;> rfl

def SamplesOwn (kernels : StepKernels V F) (flash : Bool) (noise : Nat → Fin V → F)
    (params : List (RowSampling F)) (logits : List (LogitRow V F)) (tokens : List (Fin V)) : Prop :=
  tokens.length = params.length ∧ ∀ (j : Nat) (own : RowSampling F) (row : LogitRow V F),
    params[j]? = some own → logits[j]? = some row →
      tokens[j]? = some (ownToken kernels flash own (noise j) row)

private theorem samplerForward_own (kernels : StepKernels V F) (noise : Nat → Fin V → F)
    (hlen : logits.length = params.length) :
    ∃ tokens, samplerForward kernels
        (List.zipWith (fun own row => ownTopP kernels.sort kernels.softmax own (ownTopK own row))
          params logits)
        (params.map RowSampling.temperature) noise = .ok tokens ∧
      SamplesOwn kernels false noise params logits tokens := by
  unfold samplerForward
  rw [if_neg (by simp [hlen])]
  refine ⟨_, rfl, by simp [hlen], fun j own row hown hrow => ?_⟩
  simp [List.getElem?_zipWith, List.getElem?_zipIdx, hown, hrow, List.zip, ownToken]

/-- The vector of FlashInfer gives a row its own `p`, or the row does not read it. -/
private theorem flashinferRow_expanded (kernels : StepKernels V F) (own : RowSampling F)
    (noise : Fin V → F) (row : LogitRow V F) :
    flashinferRow kernels own.temperature (if hasTopP own then own.topP else 1) noise row =
      flashinferRow kernels own.temperature own.topP noise row := by
  by_cases hzero : own.temperature = 0
  · unfold flashinferRow
    rw [if_pos hzero, if_pos hzero]
  · by_cases hone : own.topP = 1
    · rw [hone, ite_self]
    · rw [if_pos (by simp [hasTopP, hzero, hone])]

private theorem sampleTopPFlashinfer_own (kernels : StepKernels V F) (noise : Nat → Fin V → F)
    (hlen : logits.length = params.length) :
    ∃ tokens, sampleTopPFlashinfer kernels (List.zipWith ownTopK params logits)
        (params.map RowSampling.temperature)
        (params.map fun own => if hasTopP own then own.topP else 1) noise = .ok tokens ∧
      SamplesOwn kernels true noise params logits tokens := by
  unfold sampleTopPFlashinfer
  rw [if_neg (by simp [hlen])]
  refine ⟨_, rfl, by simp [hlen], fun j own row hown hrow => ?_⟩
  simp [List.getElem?_zipWith, List.getElem?_zipIdx, hown, hrow, List.zip, ownToken,
    flashinferRow_expanded]

theorem sampleTokens_own (kernels : StepKernels V F) (backend : TopPBackend)
    (noise : Nat → Fin V → F) (hvalid : ∀ own ∈ params, own.Valid)
    (hlen : logits.length = params.length) :
    ∃ prepared tokens, prepareSample backend V params = .ok prepared ∧
      sampleTokens kernels backend prepared noise logits = .ok tokens ∧
      SamplesOwn kernels (usesFlash backend params) noise params logits tokens := by
  by_cases hgreedy : ∀ temperature ∈ params.map RowSampling.temperature, temperature = 0
  · have hmeta : prepareSampleMetadata V params =
        { temperatures := params.map RowSampling.temperature
          topKBuckets := []
          topPPlan := none
          allGreedy := true } := by
      unfold prepareSampleMetadata
      rw [if_pos hgreedy]
    refine ⟨_, logits.map argmax, by unfold prepareSample; rw [hmeta], rfl, by simp [hlen], ?_⟩
    intro j own row hown hrow
    have hzero : own.temperature = 0 :=
      hgreedy _ (List.mem_map_of_mem (List.mem_of_getElem? hown))
    rw [List.getElem?_map, hrow, ownToken_greedy kernels _ hzero]
    rfl
  · have hbuckets := buckets_own (V := V) hvalid hlen
    have hown : (List.zipWith ownTopK params logits).length = params.length := by
      rw [List.length_zipWith, hlen, Nat.min_self]
    have hplan := plan_apply kernels.sort kernels.softmax hown
    have hzip : List.zipWith (ownTopP kernels.sort kernels.softmax) params
        (List.zipWith ownTopK params logits) =
        List.zipWith (fun own row => ownTopP kernels.sort kernels.softmax own (ownTopK own row))
          params logits := by
      apply List.ext_getElem?
      intro r
      simp only [List.getElem?_zipWith]
      cases params[r]? <;> cases logits[r]? <;> rfl
    rw [hzip] at hplan
    obtain ⟨forwarded, hforward, hfown⟩ := samplerForward_own kernels noise hlen
    unfold prepareSample
    rw [prepareSampleMetadata_sampled hgreedy]
    by_cases hempty : (rowsWhere params hasTopP).isEmpty
    · have hnone : ∀ own ∈ params, hasTopP own = false := by
        intro own hmem
        obtain ⟨r, hr⟩ := List.getElem?_of_mem hmem
        by_contra hp
        have hin := mem_rowsWhere.mpr ⟨own, hr, by simpa using hp⟩
        rw [List.isEmpty_iff.mp hempty] at hin
        exact absurd hin (by simp)
      have hflash : usesFlash backend params = false := by
        unfold usesFlash
        rw [decide_eq_false_iff_not]
        rintro ⟨-, own, hmem, hp⟩
        rw [hnone own hmem] at hp
        exact absurd hp (by simp)
      rw [if_pos hempty] at hplan ⊢
      refine ⟨_, forwarded, rfl, ?_, hflash ▸ hfown⟩
      unfold sampleTokens
      simp only [Bool.false_eq_true, if_false]
      rw [Call.except_bind_of_ok hbuckets, Except.ok.inj hplan]
      exact hforward
    · rw [if_neg hempty] at hplan ⊢
      have hsome : ∃ own ∈ params, hasTopP own = true := by
        obtain ⟨r, hr⟩ := List.exists_mem_of_ne_nil _ (fun h => hempty (List.isEmpty_iff.mpr h))
        obtain ⟨own, hget, hp⟩ := mem_rowsWhere.mp hr
        exact ⟨own, List.mem_of_getElem? hget, hp⟩
      cases backend with
      | exact =>
        have hflash : usesFlash .exact params = false := by simp [usesFlash]
        refine ⟨_, forwarded, rfl, ?_, hflash ▸ hfown⟩
        unfold sampleTokens
        simp only [Bool.false_eq_true, if_false]
        rw [Call.except_bind_of_ok hbuckets]
        exact (Call.except_bind_of_ok hplan).trans hforward
      | flashinfer =>
        have hflash : usesFlash .flashinfer params = true := by simpa [usesFlash] using hsome
        obtain ⟨tokens, hsample, htokens⟩ := sampleTopPFlashinfer_own kernels noise hlen
        have hexpand := expandTopPs_ok params
        dsimp only
        rw [List.length_map, hexpand]
        refine ⟨_, tokens, rfl, ?_, hflash ▸ htokens⟩
        unfold sampleTokens
        simp only [Bool.false_eq_true, if_false]
        rw [Call.except_bind_of_ok hbuckets]
        exact hsample

end NanoVllm
