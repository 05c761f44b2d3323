/- module: NanoVllm/Routing/Workspace
   layer: refinement
   source: nanovllm/engine/speculative_memory.py, plan_exact_speculative_workspace and
     certify_speculative_workspace of nanovllm/engine/speculative_plan.py
   digest: The workspace model is monotone, so every exact route fits the configured plan. -/

import NanoVllm.Engine.SpeculativeRoutes
import NanoVllm.Library.Call
import NanoVllm.Library.Paging
import Mathlib.Algebra.Order.Group.Nat
import Mathlib.Tactic.GCongr
import Mathlib.Tactic.Ring

set_option autoImplicit false
set_option relaxedAutoImplicit false

namespace NanoVllm

open Library

private theorem roundUp_mono {m n alignment : Nat} (h0 : 0 < alignment) (h : m ≤ n) :
    roundUp m alignment ≤ roundUp n alignment :=
  Nat.mul_le_mul_right _ (pagesFor_mono h0 h)

private theorem allocatorMargin_mono {m n : Nat} (h : m ≤ n) :
    allocatorMargin m ≤ allocatorMargin n := by
  refine roundUp_mono (by decide) (max_le_max le_rfl ?_)
  exact pagesFor_mono (by decide) (Nat.mul_le_mul_right _ h)

section Bytes

variable {v z t d r r' b b' k k' : Nat}

private theorem topPWorkspaceBytes_mono (h : r ≤ r') :
    topPWorkspaceBytes r v z ≤ topPWorkspaceBytes r' v z := by
  unfold topPWorkspaceBytes
  dsimp only
  gcongr

private theorem topKWorkspaceBytes_mono (h : r ≤ r') :
    topKWorkspaceBytes r v z ≤ topKWorkspaceBytes r' v z := by
  unfold topKWorkspaceBytes
  dsimp only
  gcongr

private theorem categoricalRaceWorkspaceBytes_mono (h : r ≤ r') :
    categoricalRaceWorkspaceBytes r v ≤
      categoricalRaceWorkspaceBytes r' v := by
  unfold categoricalRaceWorkspaceBytes
  gcongr

private theorem rejectionCorrectionWorkspaceBytes_mono (h : r ≤ r') :
    rejectionCorrectionWorkspaceBytes r v ≤
      rejectionCorrectionWorkspaceBytes r' v := by
  unfold rejectionCorrectionWorkspaceBytes
  gcongr

private theorem metadataBytes_mono (hb : b ≤ b') (hk : k ≤ k') (h : r ≤ r') :
    metadataBytes b k r ≤ metadataBytes b' k' r' := by
  unfold metadataBytes
  dsimp only
  gcongr

private theorem verifierRows_mono (hb : b ≤ b') (hk : k ≤ k') : b * (k + 1) ≤ b' * (k' + 1) := by
  gcongr

theorem draftProbabilityBytes_mono (hb : b ≤ b') (hk : k ≤ k') :
    draftProbabilityBytes v b k ≤ draftProbabilityBytes v b' k' := by
  unfold draftProbabilityBytes
  gcongr

private theorem targetProbabilityBytes_mono (hb : b ≤ b') (hk : k ≤ k') :
    targetProbabilityBytes v b k ≤ targetProbabilityBytes v b' k' := by
  unfold targetProbabilityBytes
  gcongr

private theorem draftLogitsBytes_mono (hb : b ≤ b') :
    draftLogitsBytes v d b ≤ draftLogitsBytes v d b' := by
  unfold draftLogitsBytes
  gcongr

private theorem verifierLogitsBytes_mono (hb : b ≤ b') (hk : k ≤ k') :
    verifierLogitsBytes v t b k ≤ verifierLogitsBytes v t b' k' := by
  unfold verifierLogitsBytes
  gcongr

private theorem probabilityFloorBytes_mono (hb : b ≤ b') (hk : k ≤ k') :
    probabilityFloorBytes v b k ≤ probabilityFloorBytes v b' k' :=
  Nat.add_le_add (draftProbabilityBytes_mono hb hk) (targetProbabilityBytes_mono hb hk)

private theorem draftPhaseBytes_mono (hb : b ≤ b') (hk : k ≤ k') :
    draftPhaseBytes v d b k ≤ draftPhaseBytes v d b' k' := by
  have hq := draftProbabilityBytes_mono (v := v) hb hk
  have hl := draftLogitsBytes_mono (v := v) (d := d) hb
  have hm := metadataBytes_mono hb hk (verifierRows_mono hb hk)
  have htop := max_le_max
    (topKWorkspaceBytes_mono (v := v) (z := d) hb)
    (topPWorkspaceBytes_mono (v := v) (z := d) hb)
  have hrace := categoricalRaceWorkspaceBytes_mono (v := v) hb
  refine max_le_max ?_ (max_le_max ?_ ?_)
  · unfold draftFilterPhaseBytes
    omega
  · unfold draftSoftmaxPhaseBytes
    have hs : b * v * fp32Bytes ≤ b' * v * fp32Bytes := by gcongr
    omega
  · unfold draftRacePhaseBytes
    omega

private theorem verifierPhaseBytes_mono (hb : b ≤ b') (hk : k ≤ k') :
    verifierPhaseBytes v t b k ≤ verifierPhaseBytes v t b' k' := by
  have hq := draftProbabilityBytes_mono (v := v) hb hk
  have hp := targetProbabilityBytes_mono (v := v) hb hk
  have hl := verifierLogitsBytes_mono (v := v) (t := t) hb hk
  have hrows := verifierRows_mono hb hk
  have hm := metadataBytes_mono hb hk hrows
  have htop := max_le_max
    (topKWorkspaceBytes_mono (v := v) (z := t) hrows)
    (topPWorkspaceBytes_mono (v := v) (z := t) hrows)
  refine max_le_max ?_ ?_
  · unfold verifierFilterPhaseBytes
    omega
  · unfold verifierSoftmaxPhaseBytes
    omega

private theorem modeledLivePeakBytes_mono (hb : b ≤ b') (hk : k ≤ k') :
    modeledLivePeakBytes v t d b k ≤
      modeledLivePeakBytes v t d b' k' := by
  have hfloor := probabilityFloorBytes_mono (v := v) hb hk
  have hm := metadataBytes_mono hb hk (verifierRows_mono hb hk)
  have hfix := rejectionCorrectionWorkspaceBytes_mono (v := v) hb
  have hrace := categoricalRaceWorkspaceBytes_mono (v := v) hb
  refine max_le_max (draftPhaseBytes_mono hb hk)
    (max_le_max (verifierPhaseBytes_mono hb hk) (max_le_max ?_ ?_))
  · unfold rejectionPhaseBytes
    omega
  · unfold bonusPhaseBytes
    omega

theorem draftProbabilityBytes_add_metadataBytes_le :
    draftProbabilityBytes v b k + metadataBytes b k (b * (k + 1)) ≤
      draftPhaseBytes v d b k := by
  refine le_trans ?_ (le_max_left _ _)
  unfold draftFilterPhaseBytes
  omega

theorem draftPhaseBytes_le_peak :
    draftPhaseBytes v d b k ≤ modeledLivePeakBytes v t d b k :=
  le_max_left _ _

theorem proposalIdBytes_le_metadataBytes : b * k * int64Bytes ≤ metadataBytes b k r := by
  have h : b * k * int64Bytes ≤ b * k * (int64Bytes + 2 * fp64Bytes + 2 * fp32Bytes
      + 2 * fp64Bytes + fp64Bytes + fp32Bytes + 2 * boolBytes + 2 * int64Bytes) :=
    Nat.mul_le_mul_left _ (by decide)
  unfold metadataBytes
  dsimp only
  omega

private theorem metadataBytes_pos (hb : 1 ≤ b) : 0 < metadataBytes b k r := by
  have h : 0 < b * (4 * int64Bytes + 3 * boolBytes) := Nat.mul_pos hb (by decide)
  unfold metadataBytes
  dsimp only
  omega

private theorem modeledLivePeakBytes_pos (hb : 1 ≤ b) :
    0 < modeledLivePeakBytes v t d b k := by
  have h := (draftProbabilityBytes_add_metadataBytes_le (v := v) (b := b)
    (k := k) (d := d)).trans (draftPhaseBytes_le_peak (t := t))
  have hm := metadataBytes_pos (k := k) (r := b * (k + 1)) hb
  omega

end Bytes

def NeverPlanningError {α : Type} (x : Except Raised α) : Prop :=
  ∀ message, x ≠ .error (.speculativeMemoryPlanningError message)

namespace NeverPlanningError

variable {α β : Type}

theorem of_ok {x : Except Raised α} {a : α} (h : x = .ok a) : NeverPlanningError x := by
  intro message herror
  rw [h] at herror
  cases herror

theorem pure (a : α) : NeverPlanningError (Pure.pure a : Except Raised α) := of_ok rfl

theorem bind {x : Except Raised α} {k : α → Except Raised β} (hx : NeverPlanningError x)
    (hk : ∀ a, x = .ok a → NeverPlanningError (k a)) : NeverPlanningError (x >>= k) := by
  intro message herror
  cases hcase : x with
  | error e =>
    rw [hcase] at herror
    exact hx message (hcase.trans (congrArg Except.error (Except.error.inj herror)))
  | ok a =>
    rw [hcase] at herror
    exact hk a hcase message herror

theorem guard {c : Prop} [Decidable c] {text : String} {k : α → Except Raised β}
    {rest : Except Raised β} (h : ¬ c → NeverPlanningError rest) :
    NeverPlanningError (if c then throw (.valueError text) >>= k else rest) := by
  by_cases hc : c
  · rw [if_pos hc]
    intro message herror
    cases herror
  · rw [if_neg hc]
    exact h hc

theorem skip {c : Prop} [Decidable c] {e : Raised} {k : α → Except Raised β}
    {rest : Except Raised β} (hc : ¬ c) (h : NeverPlanningError rest) :
    NeverPlanningError (if c then throw e >>= k else rest) := by
  rw [if_neg hc]
  exact h

theorem ite {c : Prop} [Decidable c] {x y : Except Raised α} (hx : c → NeverPlanningError x)
    (hy : ¬ c → NeverPlanningError y) : NeverPlanningError (if c then x else y) := by
  by_cases hc : c
  · rw [if_pos hc]
    exact hx hc
  · rw [if_neg hc]
    exact hy hc

theorem check {c : Prop} [Decidable c] {text : String} :
    NeverPlanningError (if c then throw (.valueError text) else Pure.pure ⟨⟩ : Except Raised Unit) := by
  intro message herror
  split at herror <;> cases herror

theorem forM {f : α → Except Raised Unit} (hf : ∀ a, NeverPlanningError (f a)) (l : List α) :
    NeverPlanningError (l.forM f) := by
  induction l with
  | nil => exact of_ok rfl
  | cons a l ih => exact bind (hf a) fun _ _ => ih

end NeverPlanningError

theorem validateRouteKey_neverPlanningError (key : DraftRouteKey) :
    NeverPlanningError (validateRouteKey key) := by
  unfold validateRouteKey
  exact .guard fun _ => .guard fun _ => .check

private theorem validateRouteKey_ok {key : DraftRouteKey} {a : Unit}
    (h : validateRouteKey key = .ok a) :
    key.schema = draftRouteSchema ∧ 1 ≤ key.batchBucket ∧ 1 ≤ key.effectiveK := by
  unfold validateRouteKey at h
  obtain ⟨hschema, h1⟩ := Call.except_guard h
  obtain ⟨hbucket, h2⟩ := Call.except_guard h1
  refine ⟨not_not.mp hschema, Nat.not_lt.mp hbucket, ?_⟩
  by_contra hk
  rw [if_pos (Nat.not_le.mp hk)] at h2
  cases h2

section Geometry

variable {vocabSize configuredK maxNumSeqs maxNumBatchedTokens maxModelLen : Nat}
  {targetDtype draftDtype : FloatingDtype} {P : SpeculativeMemoryPlan}

private theorem positiveInt_ok {name : String} {value : Nat} (h : 0 < value) :
    positiveInt name value = .ok ⟨⟩ :=
  if_neg (Nat.ne_of_gt h)

private theorem positiveInt_pos {name : String} {value : Nat} {a : Unit}
    (h : positiveInt name value = .ok a) : 0 < value := by
  by_contra hzero
  have herror : positiveInt name value = .error _ := if_pos (Nat.eq_zero_of_not_pos hzero)
  rw [herror] at h
  cases h

structure PositivePlan (P : SpeculativeMemoryPlan) : Prop where
  vocab_pos : 0 < P.vocabSize
  k_pos : 0 < P.maxEffectiveK
  batch_pos : 0 < P.batchSize
  k_le : P.maxEffectiveK ≤ P.configuredK
  rows_le : P.batchSize * (P.maxEffectiveK + 1) ≤ P.maxNumBatchedTokens
  k_lt_len : P.maxEffectiveK < P.maxModelLen
  formula : ∃ target draft, P = positiveWorkspacePlan P.vocabSize P.configuredK P.maxNumSeqs
    P.maxNumBatchedTokens P.maxModelLen target draft P.batchSize P.maxEffectiveK

theorem planSpeculativeWorkspace_spec (targetDtype draftDtype : FloatingDtype)
    (hv : 0 < vocabSize) (hk : 0 < configuredK)
    (hs : 0 < maxNumSeqs) (ht : 0 < maxNumBatchedTokens) (hl : 0 < maxModelLen) :
    ∃ P, planSpeculativeWorkspace vocabSize configuredK maxNumSeqs maxNumBatchedTokens
        maxModelLen targetDtype draftDtype = .ok P ∧
      P.maxNumBatchedTokens = maxNumBatchedTokens ∧ P.maxModelLen = maxModelLen ∧
      P.vocabSize = vocabSize ∧
      P.maxEffectiveK = min configuredK (min (maxNumBatchedTokens - 1) (maxModelLen - 1)) ∧
      (P.maxEffectiveK = 0 ∧ P.batchSize = 0 ∨
        P.batchSize = min maxNumSeqs (maxNumBatchedTokens / (P.maxEffectiveK + 1)) ∧
          PositivePlan P) := by
  obtain ⟨K, hK⟩ : ∃ K, K = min configuredK (min (maxNumBatchedTokens - 1) (maxModelLen - 1)) :=
    ⟨_, rfl⟩
  have hrun : planSpeculativeWorkspace vocabSize configuredK maxNumSeqs maxNumBatchedTokens
      maxModelLen targetDtype draftDtype =
        if K = 0 then .ok (emptyWorkspacePlan vocabSize configuredK maxNumSeqs
          maxNumBatchedTokens maxModelLen targetDtype draftDtype)
        else .ok (positiveWorkspacePlan vocabSize configuredK maxNumSeqs maxNumBatchedTokens
          maxModelLen targetDtype draftDtype (min maxNumSeqs (maxNumBatchedTokens / (K + 1))) K) := by
    unfold planSpeculativeWorkspace
    rw [positiveInt_ok hv, positiveInt_ok hk, positiveInt_ok hs, positiveInt_ok ht,
      positiveInt_ok hl, hK]
    rfl
  rw [hrun, ← hK]
  by_cases hzero : K = 0
  · rw [if_pos hzero]
    exact ⟨_, rfl, rfl, rfl, rfl, hzero.symm, Or.inl ⟨rfl, rfl⟩⟩
  · rw [if_neg hzero]
    have hKt : K + 1 ≤ maxNumBatchedTokens := by omega
    have hone : 1 ≤ maxNumBatchedTokens / (K + 1) := (Nat.one_le_div_iff (by omega)).mpr hKt
    refine ⟨_, rfl, rfl, rfl, rfl, rfl, Or.inr ⟨rfl, ?_⟩⟩
    exact
      { vocab_pos := hv
        k_pos := Nat.pos_of_ne_zero hzero
        batch_pos := lt_min hs hone
        k_le := by
          change K ≤ configuredK
          omega
        rows_le := by
          calc min maxNumSeqs (maxNumBatchedTokens / (K + 1)) * (K + 1)
              ≤ maxNumBatchedTokens / (K + 1) * (K + 1) :=
                Nat.mul_le_mul_right _ (min_le_right _ _)
            _ ≤ maxNumBatchedTokens := Nat.div_mul_le_self _ _
        k_lt_len := by
          change K < maxModelLen
          omega
        formula := ⟨targetDtype, draftDtype, rfl⟩ }

private theorem limits_pos
    (h : planSpeculativeWorkspace vocabSize configuredK maxNumSeqs maxNumBatchedTokens
      maxModelLen targetDtype draftDtype = .ok P) :
    0 < vocabSize ∧ 0 < configuredK ∧ 0 < maxNumSeqs ∧ 0 < maxNumBatchedTokens ∧
      0 < maxModelLen := by
  unfold planSpeculativeWorkspace at h
  obtain ⟨_, hv, h1⟩ := Call.except_bind_ok h
  obtain ⟨_, hk, h2⟩ := Call.except_bind_ok h1
  obtain ⟨_, hs, h3⟩ := Call.except_bind_ok h2
  obtain ⟨_, ht, h4⟩ := Call.except_bind_ok h3
  obtain ⟨_, hl, -⟩ := Call.except_bind_ok h4
  exact ⟨positiveInt_pos hv, positiveInt_pos hk, positiveInt_pos hs, positiveInt_pos ht,
    positiveInt_pos hl⟩

theorem positivePlan_of_planSpeculativeWorkspace
    (h : planSpeculativeWorkspace vocabSize configuredK maxNumSeqs maxNumBatchedTokens
      maxModelLen targetDtype draftDtype = .ok P) :
    P.maxEffectiveK = 0 ∧ P.batchSize = 0 ∨ PositivePlan P := by
  obtain ⟨hv, hk, hs, ht, hl⟩ := limits_pos h
  obtain ⟨Q, hQ, -, -, -, -, hcase⟩ := planSpeculativeWorkspace_spec targetDtype draftDtype hv hk hs ht hl
  obtain rfl : Q = P := Except.ok.inj (hQ.symm.trans h)
  exact hcase.imp id fun h => h.2

theorem positivePlan_of_limits
    (h : planSpeculativeWorkspace vocabSize configuredK maxNumSeqs maxNumBatchedTokens
      maxModelLen targetDtype draftDtype = .ok P)
    (ht : 2 ≤ P.maxNumBatchedTokens) (hl : 2 ≤ P.maxModelLen) : PositivePlan P := by
  obtain ⟨hv, hk, hs, hpos⟩ := limits_pos h
  obtain ⟨Q, hQ, htQ, hlQ, -, hkQ, hcase⟩ := planSpeculativeWorkspace_spec targetDtype draftDtype hv hk hs
    hpos.1 hpos.2
  obtain rfl : Q = P := Except.ok.inj (hQ.symm.trans h)
  rcases hcase with ⟨hzero, -⟩ | ⟨-, hplan⟩
  · omega
  · exact hplan

private theorem strictPositive_ok {name : String} {value : Nat} (h : 1 ≤ value) :
    strictPositive name value = .ok ⟨⟩ :=
  if_neg (Nat.not_lt.mpr h)

private theorem FloatingDtype.itemsize_pos (dtype : FloatingDtype) : 1 ≤ dtype.itemsize := by
  cases dtype <;> decide

private theorem canonicalDtypeForItemsize_ok (name : String) (dtype : FloatingDtype) :
    ∃ canonical : FloatingDtype, canonical.itemsize = dtype.itemsize ∧
      canonicalDtypeForItemsize name dtype.itemsize = .ok canonical := by
  unfold canonicalDtypeForItemsize
  rw [strictPositive_ok dtype.itemsize_pos]
  cases dtype
  · exact ⟨.float8, rfl, rfl⟩
  · exact ⟨.float16, rfl, rfl⟩
  · exact ⟨.float16, rfl, rfl⟩
  · exact ⟨.float32, rfl, rfl⟩
  · exact ⟨.float64, rfl, rfl⟩

variable {b k : Nat}

private theorem planSpeculativeWorkspace_exact (hv : 0 < vocabSize) (hb : 1 ≤ b) (hk : 1 ≤ k) :
    planSpeculativeWorkspace vocabSize k b (b * (k + 1)) (k + 1) targetDtype draftDtype =
      .ok (positiveWorkspacePlan vocabSize k b (b * (k + 1)) (k + 1) targetDtype draftDtype b k) := by
  have hrows : k + 1 ≤ b * (k + 1) := Nat.le_mul_of_pos_left _ hb
  have hgeometry : min k (min (b * (k + 1) - 1) (k + 1 - 1)) = k := by omega
  unfold planSpeculativeWorkspace
  rw [positiveInt_ok hv, positiveInt_ok (Nat.lt_of_lt_of_le Nat.zero_lt_one hk),
    positiveInt_ok (Nat.lt_of_lt_of_le Nat.zero_lt_one hb), positiveInt_ok (by omega),
    positiveInt_ok (by omega), hgeometry]
  change (if k = 0 then _ else _) = _
  rw [if_neg (by omega), Nat.mul_div_cancel _ (Nat.succ_pos k), min_self]
  rfl

namespace PositivePlan

variable (h : PositivePlan P)
include h

private theorem verifierRows_eq : P.verifierRows = P.batchSize * (P.maxEffectiveK + 1) := by
  obtain ⟨target, draft, hP⟩ := h.formula
  rw [hP]
  rfl

theorem routeFits (hb : 1 ≤ b) (hbP : b ≤ P.batchSize) (hk : 1 ≤ k)
    (hkP : k ≤ P.maxEffectiveK) : speculativeRouteFitsPlan P b k = true := by
  unfold speculativeRouteFitsPlan
  rw [if_neg (by omega), h.verifierRows_eq]
  exact decide_eq_true
    ⟨hbP, hkP, Nat.mul_le_mul hbP hkP, Nat.mul_le_mul hbP (Nat.succ_le_succ hkP)⟩

theorem exact (hb : 1 ≤ b) (hbP : b ≤ P.batchSize) (hk : 1 ≤ k) (hkP : k ≤ P.maxEffectiveK) :
    ∃ E, planExactSpeculativeWorkspace P b k = .ok E ∧ E.batchSize = b ∧ E.maxEffectiveK = k ∧
      0 < E.modeledLivePeakBytes ∧ E.modeledLivePeakBytes ≤ E.reservationBytes ∧
      E.modeledLivePeakBytes ≤ P.modeledLivePeakBytes ∧
      E.reservationBytes ≤ P.reservationBytes := by
  obtain ⟨target, draft, hP⟩ := h.formula
  obtain ⟨t, ht, htarget⟩ := canonicalDtypeForItemsize_ok "target_logits_itemsize" target
  obtain ⟨d, hd, hdraft⟩ := canonicalDtypeForItemsize_ok "draft_logits_itemsize" draft
  have htP : P.targetLogitsItemsize = target.itemsize := by
    rw [hP]
    rfl
  have hdP : P.draftLogitsItemsize = draft.itemsize := by
    rw [hP]
    rfl
  have hpeakP : P.modeledLivePeakBytes = modeledLivePeakBytes P.vocabSize target.itemsize
      draft.itemsize P.batchSize P.maxEffectiveK := congrArg (·.modeledLivePeakBytes) hP
  have hreserveP : P.reservationBytes =
      P.modeledLivePeakBytes + allocatorMargin P.modeledLivePeakBytes := by
    rw [hpeakP]
    exact congrArg (·.reservationBytes) hP
  obtain ⟨E, hE⟩ : ∃ E, E = positiveWorkspacePlan P.vocabSize k b (b * (k + 1)) (k + 1) t d b k :=
    ⟨_, rfl⟩
  have hpeakE : E.modeledLivePeakBytes =
      modeledLivePeakBytes P.vocabSize target.itemsize draft.itemsize b k := by
    rw [hE, ← ht, ← hd]
    rfl
  have hreserveE : E.reservationBytes =
      E.modeledLivePeakBytes + allocatorMargin E.modeledLivePeakBytes := by
    rw [hE]
    rfl
  have hpeak : E.modeledLivePeakBytes ≤ P.modeledLivePeakBytes := by
    rw [hpeakE, hpeakP]
    exact modeledLivePeakBytes_mono hbP hkP
  have hreserve : E.reservationBytes ≤ P.reservationBytes := by
    rw [hreserveE, hreserveP]
    exact Nat.add_le_add hpeak (allocatorMargin_mono hpeak)
  have hbE : E.batchSize = b := by
    rw [hE]
    rfl
  have hkE : E.maxEffectiveK = k := by
    rw [hE]
    rfl
  refine ⟨E, ?_, hbE, hkE, ?_, ?_, hpeak, hreserve⟩
  · unfold planExactSpeculativeWorkspace
    rw [strictPositive_ok hb, strictPositive_ok hk, h.routeFits hb hbP hk hkP, htP, hdP, htarget,
      hdraft]
    change (planSpeculativeWorkspace P.vocabSize k b (b * (k + 1)) (k + 1) t d >>= _) = _
    rw [planSpeculativeWorkspace_exact h.vocab_pos hb hk, ← hE]
    change (if E.batchSize ≠ b ∨ E.maxEffectiveK ≠ k then _ else _) = _
    rw [if_neg (by simp [hbE, hkE])]
    rw [if_neg (Nat.not_lt.mpr hreserve)]
    rfl
  · rw [hpeakE]
    exact modeledLivePeakBytes_pos hb
  · rw [hreserveE]
    exact Nat.le_add_right _ _

theorem certify (digests : WorkspaceDigests) (backend : String) {key : DraftRouteKey}
    {live catchup : Nat} (hkey : validateRouteKey key = .ok ⟨⟩) (hlive : 1 ≤ live)
    (hbucket : live ≤ key.batchBucket) (hbP : key.batchBucket ≤ P.batchSize)
    (hkP : key.effectiveK ≤ P.maxEffectiveK)
    (hfamily : key.catchupFamily = DraftRouteRegistry.catchupFamilyOf catchup) :
    ∃ certificate, certifySpeculativeWorkspace (P.workspace digests backend) live catchup
        key.effectiveK key = .ok certificate ∧
      0 < certificate.modeledLivePeakBytes ∧
      certificate.modeledLivePeakBytes ≤ certificate.reservationBytes := by
  have hk : 1 ≤ key.effectiveK := (validateRouteKey_ok hkey).2.2
  obtain ⟨E, hE, hbE, hkE, hpos, hle, -, -⟩ := h.exact (hlive.trans hbucket) hbP hk hkP
  refine ⟨⟨E.modeledLivePeakBytes, E.reservationBytes,
    (digests.route live catchup key E).val⟩, ?_, hpos, hle⟩
  unfold certifySpeculativeWorkspace
  rw [if_neg (Nat.ne_of_gt hlive), hkey]
  change (if key.effectiveK ≠ key.effectiveK then _ else _) = _
  rw [if_neg (not_not.mpr rfl), if_neg (Nat.not_lt.mpr hbucket)]
  change (if key.catchupFamily ≠ DraftRouteRegistry.catchupFamilyOf catchup then _ else _) = _
  rw [if_neg (not_not.mpr hfamily)]
  change exactCertificate digests P live catchup key = _
  unfold exactCertificate
  rw [hE]
  change (speculativeWorkspaceFingerprint digests (some E) live catchup (some key) >>= _) = _
  unfold speculativeWorkspaceFingerprint
  dsimp only
  rw [hkey]
  change ((if key.effectiveK ≠ E.maxEffectiveK then _ else _) >>= _) = _
  rw [if_neg (not_not.mpr hkE.symm), if_neg (not_not.mpr hbE.symm),
    if_neg (not_not.mpr ⟨hlive, hbucket.trans hbE.ge⟩)]
  rfl

/-- A covered geometry never fails its certificate for capacity, whatever the live batch. -/
theorem certify_neverPlanningError (digests : WorkspaceDigests) (backend : String)
    {key : DraftRouteKey} {live catchup effectiveK : Nat} (hbP : key.batchBucket ≤ P.batchSize)
    (hkP : key.effectiveK ≤ P.maxEffectiveK) :
    NeverPlanningError (certifySpeculativeWorkspace (P.workspace digests backend) live catchup
      effectiveK key) := by
  unfold certifySpeculativeWorkspace
  refine .guard fun _ => ?_
  refine .bind (validateRouteKey_neverPlanningError key) fun _ hkey => ?_
  obtain ⟨-, hb, hk⟩ := validateRouteKey_ok hkey
  refine .guard fun _ => .guard fun _ => .guard fun _ => ?_
  obtain ⟨E, hE, -⟩ := h.exact hb hbP hk hkP
  change NeverPlanningError (exactCertificate digests P live catchup key)
  unfold exactCertificate
  refine .bind (.of_ok hE) fun exact _ => ?_
  refine .bind ?_ fun _ _ => .pure _
  unfold speculativeWorkspaceFingerprint
  exact .bind (validateRouteKey_neverPlanningError key) fun _ _ =>
    .guard fun _ => .guard fun _ => .guard fun _ => .pure _

end PositivePlan

end Geometry

end NanoVllm
