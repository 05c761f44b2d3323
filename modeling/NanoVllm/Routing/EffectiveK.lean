/- module: NanoVllm/Routing/EffectiveK
   layer: main result
   source: nanovllm/engine/speculative_plan.py; the bypass reasons of plan_speculative_step in
     nanovllm/engine/scheduler.py
   digest: The effective proposal length is the largest legal one, and its plan validates. -/

import NanoVllm.Routing.Workspace
import NanoVllm.Engine.SpeculativeStep
import Mathlib.Order.Bounds.Defs

set_option autoImplicit false
set_option relaxedAutoImplicit false

namespace NanoVllm

open Library

variable {rows : List SpecPlanRow} {configuredK maxNumBatchedTokens cap k : Nat}

theorem le_minOver_iff {α : Type} (f : α → Nat) {l : List α} (h : l ≠ []) {n : Nat} :
    n ≤ minOver f l ↔ ∀ a ∈ l, n ≤ f a := by
  induction l with
  | nil => exact absurd rfl h
  | cons a l ih =>
    cases l with
    | nil => simp [minOver]
    | cons b l =>
      rw [minOver, le_min_iff, ih (by simp), List.forall_mem_cons (a := a)]

/-- A proposal length that every row, the verifier, the budget and the route allow. -/
structure LegalK (rows : List SpecPlanRow) (configuredK maxNumBatchedTokens cap k : Nat) :
    Prop where
  le_cap : k ≤ min configuredK cap
  completion : ∀ row ∈ rows, k + 1 ≤ row.remainingCompletionTokens ∨ k = 0
  position : ∀ row ∈ rows, k ≤ row.modelPositionHeadroom
  verifier : rows.length * (k + 1) ≤ maxNumBatchedTokens ∨ k = 0
  aggregate : draftCatchupTokens rows + rows.length * k + rows.length * (k + 1) ≤
    maxNumBatchedTokens ∨ k = 0

private theorem le_verifierCap_iff {M B : Nat} (hB : 0 < B) :
    k ≤ M / B - 1 ↔ B * (k + 1) ≤ M ∨ k = 0 := by
  rcases Nat.eq_zero_or_pos k with rfl | hk
  · simp
  · have hsub : k ≤ M / B - 1 ↔ k + 1 ≤ M / B := by omega
    rw [hsub, Nat.le_div_iff_mul_le hB, Nat.mul_comm B]
    exact ⟨Or.inl, fun h => h.resolve_right (Nat.ne_of_gt hk)⟩

private theorem le_speculativeKBudget_iff {M B C : Nat} (hB : 0 < B) :
    k ≤ speculativeKBudget M B C ↔ C + B * k + B * (k + 1) ≤ M ∨ k = 0 := by
  unfold speculativeKBudget
  rw [if_neg (Nat.ne_of_gt hB)]
  rcases Nat.eq_zero_or_pos k with rfl | hk
  · simp
  · have hwork : C + B * k + B * (k + 1) = k * (2 * B) + B + C := by ring
    have hpos : 0 < k * (2 * B) := Nat.mul_pos hk (Nat.mul_pos two_pos hB)
    rw [Nat.le_div_iff_mul_le (Nat.mul_pos two_pos hB), hwork]
    omega

theorem le_deriveSpeculativeEffectiveK_iff (hrows : rows ≠ []) :
    k ≤ deriveSpeculativeEffectiveK rows configuredK maxNumBatchedTokens cap ↔
      LegalK rows configuredK maxNumBatchedTokens cap k := by
  have hB : 0 < rows.length := List.length_pos_of_ne_nil hrows
  have hcompletion : (∀ row ∈ rows, k ≤ row.remainingCompletionTokens - 1) ↔
      ∀ row ∈ rows, k + 1 ≤ row.remainingCompletionTokens ∨ k = 0 := by
    refine forall₂_congr fun row _ => ?_
    omega
  unfold deriveSpeculativeEffectiveK
  rw [if_neg hrows]
  dsimp only
  rw [le_min_iff, le_min_iff, le_min_iff, le_min_iff, le_min_iff, le_minOver_iff _ hrows,
    le_minOver_iff _ hrows, le_verifierCap_iff hB, le_speculativeKBudget_iff hB, hcompletion]
  constructor
  · rintro ⟨h1, h2, h3, h4, h5, h6⟩
    exact ⟨le_min h1 h6, h2, h3, h4, h5⟩
  · rintro ⟨h1, h2, h3, h4, h5⟩
    exact ⟨h1.trans (min_le_left _ _), h2, h3, h4, h5, h1.trans (min_le_right _ _)⟩

theorem deriveSpeculativeEffectiveK_isGreatest (hrows : rows ≠ []) :
    IsGreatest {k | LegalK rows configuredK maxNumBatchedTokens cap k}
      (deriveSpeculativeEffectiveK rows configuredK maxNumBatchedTokens cap) :=
  ⟨(le_deriveSpeculativeEffectiveK_iff hrows).mp le_rfl,
    fun _ hk => (le_deriveSpeculativeEffectiveK_iff hrows).mpr hk⟩

private theorem min_eq_zero_or {a b : Nat} (h : min a b = 0) : a = 0 ∨ b = 0 := by
  omega

private theorem bypassReasonFor_ok {cfg : Config} (hrows : rows ≠ [])
    (h : deriveSpeculativeEffectiveK rows cfg.configuredK cfg.maxNumBatchedTokens cap = 0) :
    ∃ name, bypassReasonFor cfg rows cap = .ok name := by
  unfold deriveSpeculativeEffectiveK at h
  rw [if_neg hrows] at h
  dsimp only at h
  unfold bypassReasonFor
  dsimp only
  split
  · next name _ _ => exact ⟨name, rfl⟩
  · next hnone =>
    exfalso
    simp only [List.find?_eq_none, List.forall_mem_cons, decide_eq_true_eq] at hnone
    obtain ⟨h1, h2, h3, h4, h5, h6, -⟩ := hnone
    rcases min_eq_zero_or h with h | h
    · exact h1 h
    rcases min_eq_zero_or h with h | h
    · exact h2 h
    rcases min_eq_zero_or h with h | h
    · exact h3 h
    rcases min_eq_zero_or h with h | h
    · exact h4 h
    rcases min_eq_zero_or h with h | h
    · exact h5 h
    · exact h6 h

private theorem headroomCheck_of_legal (hlegal : LegalK rows configuredK maxNumBatchedTokens cap k)
    (hk : 1 ≤ k) : rows.forM (SpecPlanRow.headroomCheck k) = .ok ⟨⟩ := by
  refine Call.except_forM_of_ok fun row hrow => ?_
  have hcompletion := (hlegal.completion row hrow).resolve_right (Nat.ne_of_gt hk)
  refine Call.except_guard_of_not (Nat.not_lt.mpr hcompletion) ?_
  exact if_neg (Nat.not_lt.mpr (hlegal.position row hrow))

private theorem positiveCheck_of_legal (hlegal : LegalK rows configuredK maxNumBatchedTokens cap k)
    (hk : 1 ≤ k) (hvalid : ∀ row ∈ rows, row.postInit = .ok ⟨⟩)
    (hdecode : ∀ row ∈ rows, row.targetCachedTokens = row.committedTokens - 1) :
    (rows.map (SpecPlanRow.withWrites k)).forM (SpecPlanRow.positiveCheck k) = .ok ⟨⟩ := by
  refine Call.except_forM_of_ok fun planned hplanned => ?_
  obtain ⟨row, hrow, rfl⟩ := List.mem_map.mp hplanned
  have hcompletion := (hlegal.completion row hrow).resolve_right (Nat.ne_of_gt hk)
  refine (Call.except_bind_of_ok (hvalid row hrow)).trans ?_
  refine Call.except_guard_of_not (not_not.mpr (hdecode row hrow)) ?_
  refine Call.except_guard_of_not (Nat.not_le.mpr hcompletion) ?_
  refine Call.except_guard_of_not (Nat.not_lt.mpr (hlegal.position row hrow)) ?_
  exact if_neg (not_or.mpr ⟨not_not.mpr rfl, not_not.mpr rfl⟩)

private theorem draftCatchupTokens_withWrites (rows : List SpecPlanRow) (k : Nat) :
    draftCatchupTokens (rows.map (SpecPlanRow.withWrites k)) = draftCatchupTokens rows := by
  unfold draftCatchupTokens
  rw [List.map_map]
  rfl

private theorem seqId_withWrites (rows : List SpecPlanRow) (k : Nat) :
    (rows.map (SpecPlanRow.withWrites k)).map SpecPlanRow.seqId = rows.map SpecPlanRow.seqId := by
  rw [List.map_map]
  rfl

/-- What a route key must satisfy for a batch: the keys a lookup returns do. -/
structure RouteKeyFits (P : SpeculativeMemoryPlan) (rows : List SpecPlanRow) (k : Nat)
    (key : DraftRouteKey) : Prop where
  valid : validateRouteKey key = .ok ⟨⟩
  effectiveK : key.effectiveK = k
  live : rows.length ≤ key.batchBucket
  covered : key.batchBucket ≤ P.batchSize
  family : key.catchupFamily = DraftRouteRegistry.catchupFamilyOf (draftCatchupTokens rows)

def legalPlan (cycleId : Nat) (rows : List SpecPlanRow) (configuredK cap k : Nat)
    (key : DraftRouteKey) (certificate : WorkspaceCertificate) : SpecStepPlan where
  cycleId := cycleId
  rows := rows.map (SpecPlanRow.withWrites k)
  configuredK := configuredK
  workspaceRouteCap := cap
  effectiveK := k
  routeKey := some key
  draftCatchupTokens := draftCatchupTokens rows
  draftQueryTokens := rows.length * k
  targetQueryTokens := rows.length * (k + 1)
  totalModelPositions := draftCatchupTokens rows + rows.length * k + rows.length * (k + 1)
  modeledLivePeakBytes := certificate.modeledLivePeakBytes
  reservationBytes := certificate.reservationBytes
  workspaceFingerprint := certificate.workspaceFingerprint
  bypassReason := none

private theorem legalPlan_postInit {P : SpeculativeMemoryPlan} {key : DraftRouteKey}
    {certificate : WorkspaceCertificate} (cycleId : Nat)
    (hlegal : LegalK rows configuredK maxNumBatchedTokens cap k) (hk : 1 ≤ k)
    (hrows : rows ≠ []) (hdistinct : (rows.map SpecPlanRow.seqId).Nodup)
    (hvalid : ∀ row ∈ rows, row.postInit = .ok ⟨⟩)
    (hdecode : ∀ row ∈ rows, row.targetCachedTokens = row.committedTokens - 1)
    (hkey : RouteKeyFits P rows k key) (hpos : 0 < certificate.modeledLivePeakBytes)
    (hle : certificate.modeledLivePeakBytes ≤ certificate.reservationBytes) :
    (legalPlan cycleId rows configuredK cap k key certificate).postInit = .ok ⟨⟩ := by
  have hlen : (rows.map (SpecPlanRow.withWrites k)).length = rows.length := List.length_map _
  unfold SpecStepPlan.postInit legalPlan
  dsimp only
  refine Call.except_guard_of_not (by rw [seqId_withWrites]; exact not_not.mpr hdistinct) ?_
  refine Call.except_guard_of_not (Nat.not_lt.mpr hlegal.le_cap) ?_
  rw [if_neg (Nat.ne_of_gt hk), hlen, draftCatchupTokens_withWrites]
  refine Call.except_guard_of_not (by simpa using hrows) ?_
  refine Call.except_guard_of_not (by simp) ?_
  refine (Call.except_bind_of_ok hkey.valid).trans ?_
  refine Call.except_guard_of_not (not_not.mpr hkey.effectiveK) ?_
  refine Call.except_guard_of_not (Nat.not_lt.mpr hkey.live) ?_
  refine (Call.except_bind_of_ok (positiveCheck_of_legal hlegal hk hvalid hdecode)).trans ?_
  refine Call.except_guard_of_not (not_not.mpr rfl) ?_
  refine Call.except_guard_of_not (not_not.mpr rfl) ?_
  refine Call.except_guard_of_not (not_not.mpr rfl) ?_
  refine Call.except_guard_of_not (not_not.mpr rfl) ?_
  refine Call.except_guard_of_not (Nat.ne_of_gt hpos) ?_
  exact if_neg (Nat.not_lt.mpr hle)

private theorem legal_pos_rows (hlegal : LegalK rows configuredK maxNumBatchedTokens cap k)
    (hk : 1 ≤ k) :
    rows.length * (k + 1) ≤ maxNumBatchedTokens ∧
      draftCatchupTokens rows + rows.length * k + rows.length * (k + 1) ≤ maxNumBatchedTokens :=
  ⟨hlegal.verifier.resolve_right (Nat.ne_of_gt hk),
    hlegal.aggregate.resolve_right (Nat.ne_of_gt hk)⟩

private theorem PositivePlan.buildSpeculativeStepPlan {P : SpeculativeMemoryPlan} (h : PositivePlan P)
    (digests : WorkspaceDigests) (backend : String) (cycleId : Nat) {key : DraftRouteKey}
    (hlegal : LegalK rows configuredK maxNumBatchedTokens cap k) (hk : 1 ≤ k)
    (hcap : cap ≤ P.maxEffectiveK) (hrows : rows ≠ [])
    (hdistinct : (rows.map SpecPlanRow.seqId).Nodup)
    (hvalid : ∀ row ∈ rows, row.postInit = .ok ⟨⟩)
    (hdecode : ∀ row ∈ rows, row.targetCachedTokens = row.committedTokens - 1)
    (hkey : RouteKeyFits P rows k key) :
    ∃ certificate, buildSpeculativeStepPlan (P.workspace digests backend) cycleId rows configuredK
        cap k maxNumBatchedTokens (some key) none =
          .ok (legalPlan cycleId rows configuredK cap k key certificate) ∧
      (legalPlan cycleId rows configuredK cap k key certificate).postInit = .ok ⟨⟩ := by
  obtain ⟨hverifier, haggregate⟩ := legal_pos_rows hlegal hk
  have hlive : 1 ≤ rows.length := List.length_pos_of_ne_nil hrows
  have hkP : key.effectiveK ≤ P.maxEffectiveK := by
    rw [hkey.effectiveK]
    exact (hlegal.le_cap.trans (min_le_right _ _)).trans hcap
  obtain ⟨certificate, hcertify, hpos, hle⟩ := h.certify digests backend hkey.valid hlive hkey.live
    hkey.covered hkP hkey.family
  rw [hkey.effectiveK] at hcertify
  have hpost := legalPlan_postInit cycleId hlegal hk hrows hdistinct hvalid hdecode
    hkey hpos hle
  refine ⟨certificate, ?_, hpost⟩
  unfold NanoVllm.buildSpeculativeStepPlan
  refine Call.except_guard_of_not (not_not.mpr hdistinct) ?_
  refine Call.except_guard_of_not (Nat.not_lt.mpr hcap) ?_
  refine Call.except_guard_of_not (Nat.not_lt.mpr hlegal.le_cap) ?_
  rw [if_neg (Nat.ne_of_gt hk)]
  unfold buildPositivePlan
  refine Call.except_guard_of_not hrows ?_
  dsimp only
  refine (Call.except_bind_of_ok hkey.valid).trans ?_
  refine Call.except_guard_of_not (not_not.mpr hkey.effectiveK) ?_
  refine Call.except_guard_of_not (Nat.not_lt.mpr hkey.live) ?_
  refine Call.except_guard_of_not (by simp) ?_
  refine Call.except_guard_of_not (Nat.not_lt.mpr hverifier) ?_
  refine Call.except_guard_of_not (Nat.not_lt.mpr haggregate) ?_
  refine (Call.except_bind_of_ok (headroomCheck_of_legal hlegal hk)).trans ?_
  refine (Call.except_bind_of_ok hcertify).trans ?_
  exact (Call.except_bind_of_ok hpost).trans rfl

private theorem postInit_neverPlanningError (row : SpecPlanRow) : NeverPlanningError row.postInit := by
  unfold SpecPlanRow.postInit
  exact .guard fun _ => .guard fun _ => .check

private theorem positiveCheck_neverPlanningError (k : Nat) (row : SpecPlanRow) :
    NeverPlanningError (row.positiveCheck k) := by
  unfold SpecPlanRow.positiveCheck
  refine .bind (postInit_neverPlanningError row) fun _ _ => ?_
  exact .guard fun _ => .guard fun _ => .guard fun _ => .check

private theorem planPostInit_neverPlanningError (plan : SpecStepPlan) :
    NeverPlanningError plan.postInit := by
  rcases plan with ⟨cycleId, rows, configuredK, cap, k, routeKey, catchup, draftQueries,
    targetQueries, total, peak, reservation, fingerprint, reason⟩
  unfold SpecStepPlan.postInit
  refine .guard fun _ => .guard fun _ => ?_
  refine .ite (fun _ => ?_) (fun _ => ?_)
  · exact .guard fun _ => .guard fun _ => .guard fun _ => .guard fun _ => .guard fun _ =>
      .guard fun _ => .check
  · refine .guard fun _ => .guard fun _ => ?_
    cases routeKey with
    | none =>
      intro message herror
      cases herror
    | some key =>
      refine .bind (validateRouteKey_neverPlanningError key) fun _ _ => ?_
      refine .guard fun _ => .guard fun _ => ?_
      refine .bind (.forM (positiveCheck_neverPlanningError _) _) fun _ _ => ?_
      exact .guard fun _ => .guard fun _ => .guard fun _ => .guard fun _ => .guard fun _ => .check

theorem PositivePlan.build_neverPlanningError {P : SpeculativeMemoryPlan} (h : PositivePlan P)
    (digests : WorkspaceDigests) (backend : String) (cycleId : Nat) {key : DraftRouteKey}
    (hlegal : LegalK rows configuredK maxNumBatchedTokens cap k) (hk : 1 ≤ k)
    (hcap : cap ≤ P.maxEffectiveK) (hbucket : key.batchBucket ≤ P.batchSize)
    (hkey : key.effectiveK ≤ P.maxEffectiveK) :
    NeverPlanningError (NanoVllm.buildSpeculativeStepPlan (P.workspace digests backend) cycleId rows
      configuredK cap k maxNumBatchedTokens (some key) none) := by
  obtain ⟨hverifier, haggregate⟩ := legal_pos_rows hlegal hk
  unfold NanoVllm.buildSpeculativeStepPlan
  refine .guard fun _ => .skip (Nat.not_lt.mpr hcap) (.skip (Nat.not_lt.mpr hlegal.le_cap) ?_)
  rw [if_neg (Nat.ne_of_gt hk)]
  unfold buildPositivePlan
  refine .guard fun _ => ?_
  dsimp only
  refine .bind (validateRouteKey_neverPlanningError key) fun _ _ => ?_
  refine .guard fun _ => .guard fun _ => .guard fun _ => ?_
  refine .skip (Nat.not_lt.mpr hverifier) (.skip (Nat.not_lt.mpr haggregate) ?_)
  refine .bind (.of_ok (headroomCheck_of_legal hlegal hk)) fun _ _ => ?_
  refine .bind (h.certify_neverPlanningError digests backend hbucket hkey) fun _ _ => ?_
  exact .bind (planPostInit_neverPlanningError _) fun _ _ => .pure _

theorem positivePlan_of_pos {vocabSize maxK maxNumSeqs tokens maxModelLen : Nat}
    {targetDtype draftDtype : FloatingDtype} {P : SpeculativeMemoryPlan}
    (hP : planSpeculativeWorkspace vocabSize maxK maxNumSeqs tokens maxModelLen targetDtype
      draftDtype = .ok P) (hk : 1 ≤ P.maxEffectiveK) : PositivePlan P := by
  rcases positivePlan_of_planSpeculativeWorkspace hP with ⟨hzero, -⟩ | hpos
  · omega
  · exact hpos

/-- The effective length is the greatest legal one; its plan is built and validates; and a batch
without one names a bound that is zero. -/
theorem effective_k_greatest :
    (∀ (rows : List SpecPlanRow) (configuredK maxNumBatchedTokens cap : Nat), rows ≠ [] →
      IsGreatest {k | LegalK rows configuredK maxNumBatchedTokens cap k}
        (deriveSpeculativeEffectiveK rows configuredK maxNumBatchedTokens cap)) ∧
    (∀ (vocabSize maxK maxNumSeqs tokens maxModelLen : Nat)
      (targetDtype draftDtype : FloatingDtype) (P : SpeculativeMemoryPlan)
      (digests : WorkspaceDigests) (backend : String) (cycleId : Nat) (rows : List SpecPlanRow)
      (configuredK maxNumBatchedTokens cap : Nat) (key : DraftRouteKey),
      planSpeculativeWorkspace vocabSize maxK maxNumSeqs tokens maxModelLen targetDtype
        draftDtype = .ok P →
      (rows.map SpecPlanRow.seqId).Nodup → (∀ row ∈ rows, row.postInit = .ok ⟨⟩) →
      (∀ row ∈ rows, row.targetCachedTokens = row.committedTokens - 1) →
      cap ≤ P.maxEffectiveK →
      1 ≤ deriveSpeculativeEffectiveK rows configuredK maxNumBatchedTokens cap →
      RouteKeyFits P rows (deriveSpeculativeEffectiveK rows configuredK maxNumBatchedTokens cap)
        key →
      ∃ plan, buildSpeculativeStepPlan (P.workspace digests backend) cycleId rows configuredK cap
          (deriveSpeculativeEffectiveK rows configuredK maxNumBatchedTokens cap)
          maxNumBatchedTokens (some key) none = .ok plan ∧
        plan.effectiveK = deriveSpeculativeEffectiveK rows configuredK maxNumBatchedTokens cap ∧
        plan.postInit = .ok ⟨⟩) ∧
    (∀ (cfg : Config) (rows : List SpecPlanRow) (cap : Nat), rows ≠ [] →
      deriveSpeculativeEffectiveK rows cfg.configuredK cfg.maxNumBatchedTokens cap = 0 →
      ∃ name, bypassReasonFor cfg rows cap = .ok name) := by
  refine ⟨fun rows _ _ _ hrows => deriveSpeculativeEffectiveK_isGreatest hrows, ?_,
    fun cfg rows cap hrows hzero => bypassReasonFor_ok hrows hzero⟩
  intro vocabSize maxK maxNumSeqs tokens maxModelLen targetDtype draftDtype P digests backend
    cycleId rows configuredK maxNumBatchedTokens cap key hP hdistinct hvalid hdecode hcap hk hkey
  have hrows : rows ≠ [] := by
    rintro rfl
    simp [deriveSpeculativeEffectiveK] at hk
  have hlegal : LegalK rows configuredK maxNumBatchedTokens cap
      (deriveSpeculativeEffectiveK rows configuredK maxNumBatchedTokens cap) :=
    (deriveSpeculativeEffectiveK_isGreatest hrows).1
  have hP1 : 1 ≤ P.maxEffectiveK :=
    (hk.trans (hlegal.le_cap.trans (min_le_right _ _))).trans hcap
  obtain ⟨certificate, hbuild, hpost⟩ := (positivePlan_of_pos hP hP1).buildSpeculativeStepPlan
    digests backend cycleId hlegal hk hcap hrows hdistinct hvalid hdecode hkey
  exact ⟨_, hbuild, rfl, hpost⟩

def SpecPlanRow.sample : SpecPlanRow where
  seqId := 0
  committedTokens := 3
  targetCachedTokens := 2
  draftCachedTokens := 0
  remainingCompletionTokens := 4
  modelPositionHeadroom := 5
  highestDraftWritePosition := none
  highestTargetWritePosition := none
  blockTable := [0, 1]

theorem effective_k_greatest_sample :
    IsGreatest {k | LegalK [SpecPlanRow.sample] 3 8 2 k} 2 ∧
    (∃ plan, buildSpeculativeStepPlan (SpeculativeMemoryPlan.sample.workspace .sample "fast") 0
        [SpecPlanRow.sample] 3 2 2 8 (some (routeKey false 1 2 .pagedEagerDynamic)) none =
          .ok plan ∧
      plan.effectiveK = 2 ∧ plan.postInit = .ok ⟨⟩) ∧
    ∃ name, bypassReasonFor Config.sample [SpecPlanRow.sample] 0 = .ok name := by
  refine ⟨?_, ?_, ?_⟩
  · exact effective_k_greatest.1 [SpecPlanRow.sample] 3 8 2 (by decide)
  · exact effective_k_greatest.2.1 16 2 2 8 8 .float16 .float16 .sample .sample "fast" 0
      [SpecPlanRow.sample] 3 8 2 (routeKey false 1 2 .pagedEagerDynamic) rfl (by decide)
      (by decide) (by decide) (by decide) (by decide) ⟨by decide, rfl, by decide, by decide, rfl⟩
  · exact effective_k_greatest.2.2 Config.sample [SpecPlanRow.sample] 0 (by decide) (by decide)

end NanoVllm
