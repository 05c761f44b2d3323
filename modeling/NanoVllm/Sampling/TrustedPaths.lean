/- module: NanoVllm/Sampling/TrustedPaths
   layer: main result
   digest: The trusted device paths return what the validated oracles return. -/

import NanoVllm.Layers.RejectionSampler
import NanoVllm.Sampling.Support

set_option autoImplicit false
set_option relaxedAutoImplicit false

open NanoVllm.Library

namespace NanoVllm

section Rejection

variable {B P V : Nat} {F : Type} [Field F] [LinearOrder F]

private theorem copyRows_map {α : Type} (base : Fin B → α) {rows : List (Fin B)} (hnodup : rows.Nodup)
    (g : Fin B → α) (b : Fin B) :
    copyRows base rows (rows.map g) b = if b ∈ rows then g b else base b := by
  induction rows generalizing base with
  | nil => simp [copyRows]
  | cons row rows ih =>
    rw [List.nodup_cons] at hnodup
    have hrest := ih (Function.update base row (g row)) hnodup.2
    unfold copyRows at hrest ⊢
    rw [List.map_cons, List.zip_cons_cons, List.foldl_cons, hrest]
    by_cases hb : b = row
    · subst hb
      simp [hnodup.1]
    · simp [hb]

omit [Field F] [LinearOrder F] in
private theorem zipWith_zip_map {α β γ δ ε : Type} (f : α → β → γ → δ) (rows : List ε) (a : ε → α)
    (b : ε → β) (c : ε → γ) :
    List.zipWith (fun (pair : α × β) => f pair.1 pair.2) ((rows.map a).zip (rows.map b))
        (rows.map c)
      = rows.map fun r => f (a r) (b r) (c r) := by
  induction rows with
  | nil => rfl
  | cons r rows ih => simp only [List.map_cons, List.zip_cons_cons, List.zipWith_cons_cons, ih]

def CanonicalWeights (weights : Fin V → F) : Prop := (∀ i, 0 ≤ weights i) ∧ 0 < rowMass weights

private theorem validateCanonicalWeights_ok {rows : List (Fin V → F)} (name : String) (hne : rows ≠ [])
    (h : ∀ row ∈ rows, CanonicalWeights row) : validateCanonicalWeights rows name = .ok ⟨⟩ := by
  have hempty : ¬ rows.isEmpty = true := by simpa using hne
  have hneg : ¬ ∃ row ∈ rows, ∃ i, row i < 0 := by
    rintro ⟨row, hrow, i, hi⟩
    exact absurd hi (not_lt.mpr ((h row hrow).1 i))
  have hmass : ¬ ∃ row ∈ rows, ¬ 0 < rowMass row := by
    rintro ⟨row, hrow, hnot⟩
    exact hnot (h row hrow).2
  unfold validateCanonicalWeights
  rw [if_neg hempty, if_neg hneg, if_neg hmass]

private theorem validateRaceNoise_ok {rows : List (Fin V → F)} (name : String)
    (h : ∀ row ∈ rows, ∀ i, 0 < row i) : validateRaceNoise rows name = .ok ⟨⟩ := by
  have hpos : ¬ ∃ row ∈ rows, ∃ i, ¬ 0 < row i := by
    rintro ⟨row, hrow, i, hnot⟩
    exact hnot (h row hrow i)
  unfold validateRaceNoise
  rw [if_neg hpos]

variable {targetWeights draftWeights : Fin B → Fin P → Fin V → F}
  {draftTokens : Fin B → Fin P → Int} {uniforms : Fin B → Fin P → F}
  {correctionNoise : Fin B → Fin V → F}

/-- Inputs both paths are given: canonical weights, tokens in range that the draft could have
proposed, uniforms in the half-open unit interval and positive noise. -/
structure RejectionInputs (targetWeights draftWeights : Fin B → Fin P → Fin V → F)
    (draftTokens : Fin B → Fin P → Int) (uniforms : Fin B → Fin P → F)
    (correctionNoise : Fin B → Fin V → F) : Prop where
  target : ∀ b p, CanonicalWeights (targetWeights b p)
  draft : ∀ b p, CanonicalWeights (draftWeights b p)
  inRange : ∀ b p, 0 ≤ draftTokens b p ∧ draftTokens b p < V
  proposed : ∀ b p, 0 < tokenWeight (draftWeights b p) (draftTokens b p)
  uniform : ∀ b p, 0 ≤ uniforms b p ∧ uniforms b p < 1
  noise : ∀ b i, 0 < correctionNoise b i

variable [NeZero V]

private theorem sampleCorrection_map {rows : List (Fin B)} (hne : rows ≠ [])
    {target draft noise : Fin B → Fin V → F} (htarget : ∀ b, CanonicalWeights (target b))
    (hdraft : ∀ b, CanonicalWeights (draft b)) (hnoise : ∀ b i, 0 < noise b i) :
    sampleCorrection (rows.map target) (rows.map draft) (rows.map noise)
      = .ok (rows.map fun b => correctionRow (target b) (draft b) (noise b)) := by
  have hcanonical : ∀ weights : Fin B → Fin V → F, (∀ b, CanonicalWeights (weights b)) →
      ∀ row ∈ rows.map weights, CanonicalWeights row := by
    intro weights hweights row hrow
    obtain ⟨b, -, rfl⟩ := List.mem_map.mp hrow
    exact hweights b
  have hpositive : ∀ row ∈ rows.map noise, ∀ i, 0 < row i := by
    intro row hrow
    obtain ⟨b, -, rfl⟩ := List.mem_map.mp hrow
    exact hnoise b
  have hmap : ∀ weights : Fin B → Fin V → F, rows.map weights ≠ [] := fun weights h =>
    hne (List.map_eq_nil_iff.mp h)
  unfold sampleCorrection
  refine (Call.except_bind_of_ok (validateCanonicalWeights_ok _ (hmap target)
    (hcanonical target htarget))).trans ?_
  refine (Call.except_bind_of_ok (validateCanonicalWeights_ok _ (hmap draft)
    (hcanonical draft hdraft))).trans ?_
  refine (Call.except_bind_of_ok (validateRaceNoise_ok _ hpositive)).trans ?_
  exact congrArg Except.ok (zipWith_zip_map correctionRow rows target draft noise)

variable [NeZero P]

/-- The position whose law the correction is drawn from; the last one when all are accepted. -/
def correctionPosition (count : Nat) : Fin P :=
  ⟨min count (P - 1), by have := NeZero.pos P; omega⟩

omit [Field F] [LinearOrder F] [NeZero V] in
private theorem atPosition_rejected (weights : Fin P → Fin V → F) {count : Nat} (h : count < P) :
    atPosition weights count = .ok (weights (correctionPosition count)) := by
  have hposition : (⟨count, h⟩ : Fin P) = correctionPosition count :=
    Fin.ext (by simp only [correctionPosition]; omega)
  rw [atPosition, dif_pos h, hposition]

def oracleResult (targetWeights draftWeights : Fin B → Fin P → Fin V → F)
    (draftTokens : Fin B → Fin P → Int) (uniforms : Fin B → Fin P → F)
    (correctionNoise : Fin B → Fin V → F) : ModifiedRejectionResult B :=
  let counts := acceptedCount targetWeights draftTokens draftWeights uniforms
  let correction : Fin B → ResidualSample V := fun b =>
    correctionRow (targetWeights b (correctionPosition (counts b)))
      (draftWeights b (correctionPosition (counts b))) (correctionNoise b)
  { acceptedCounts := counts
    correctiveTokenIds := fun b => if counts b < P then ((correction b).tokenId.val : Int) else -1
    usedReference := fun b => counts b < P
    targetFallback := fun b => decide (counts b < P) && (correction b).targetFallback }

private theorem accept_ok [NeZero B]
    (h : RejectionInputs targetWeights draftWeights draftTokens uniforms correctionNoise) :
    accept targetWeights draftTokens draftWeights uniforms correctionNoise
      = .ok (oracleResult targetWeights draftWeights draftTokens uniforms correctionNoise) := by
  have hrows : ∀ weights : Fin B → Fin P → Fin V → F,
      (List.finRange B).flatMap (fun b => (List.finRange P).map (weights b)) ≠ [] := by
    intro weights hnil
    have hmem : weights 0 0 ∈ (List.finRange B).flatMap fun b => (List.finRange P).map (weights b) :=
      List.mem_flatMap.mpr ⟨0, List.mem_finRange 0,
        List.mem_map.mpr ⟨0, List.mem_finRange 0, rfl⟩⟩
    rw [hnil] at hmem
    exact absurd hmem List.not_mem_nil
  have hcanonical : ∀ weights : Fin B → Fin P → Fin V → F,
      (∀ b p, CanonicalWeights (weights b p)) →
      ∀ row ∈ (List.finRange B).flatMap (fun b => (List.finRange P).map (weights b)),
        CanonicalWeights row := by
    intro weights hweights row hrow
    obtain ⟨b, -, hrow⟩ := List.mem_flatMap.mp hrow
    obtain ⟨p, -, rfl⟩ := List.mem_map.mp hrow
    exact hweights b p
  have hrange : ¬ ∃ b p, draftTokens b p < 0 ∨ (V : Int) ≤ draftTokens b p := by
    rintro ⟨b, p, hbad⟩
    have := h.inRange b p
    omega
  have huniform : ¬ ∃ b p, uniforms b p < 0 ∨ 1 ≤ uniforms b p := by
    rintro ⟨b, p, hlow | hhigh⟩
    · exact absurd hlow (not_lt.mpr (h.uniform b p).1)
    · exact absurd (h.uniform b p).2 (not_lt.mpr hhigh)
  have hnoise : ∀ row ∈ (List.finRange B).map correctionNoise, ∀ i, 0 < row i := by
    intro row hrow
    obtain ⟨b, -, rfl⟩ := List.mem_map.mp hrow
    exact h.noise b
  have hproposed : ¬ ∃ b p, ¬ 0 < tokenWeight (draftWeights b p) (draftTokens b p) := by
    rintro ⟨b, p, hnot⟩
    exact hnot (h.proposed b p)
  unfold accept
  refine (Call.except_bind_of_ok (validateCanonicalWeights_ok _ (hrows targetWeights)
    (hcanonical targetWeights h.target))).trans ?_
  refine (Call.except_bind_of_ok (validateCanonicalWeights_ok _ (hrows draftWeights)
    (hcanonical draftWeights h.draft))).trans ?_
  refine Call.except_guard_of_not hrange ?_
  refine Call.except_guard_of_not huniform ?_
  refine (Call.except_bind_of_ok (validateRaceNoise_ok _ hnoise)).trans ?_
  refine Call.except_guard_of_not hproposed ?_
  set counts := acceptedCount targetWeights draftTokens draftWeights uniforms with hcounts
  set rejectedRows := (List.finRange B).filter fun b => counts b < P with hrejected
  have hmem : ∀ b, b ∈ rejectedRows ↔ counts b < P := fun b => by simp [hrejected]
  by_cases hnone : rejectedRows.isEmpty
  · rw [if_pos hnone]
    have hall : ∀ b, ¬ counts b < P := by
      intro b hb
      have hin := (hmem b).mpr hb
      rw [List.isEmpty_iff.mp hnone] at hin
      exact absurd hin List.not_mem_nil
    refine congrArg Except.ok ?_
    simp only [oracleResult, ← hcounts, hall, if_false, decide_false, Bool.false_and]
  · rw [if_neg hnone]
    have hnodup : rejectedRows.Nodup := (List.nodup_finRange B).filter _
    have hselect : ∀ weights : Fin B → Fin P → Fin V → F,
        rejectedRows.mapM (fun b => atPosition (weights b) (counts b))
          = .ok (rejectedRows.map fun b => weights b (correctionPosition (counts b))) :=
      fun weights => Call.except_mapM_of_ok fun b hb =>
        atPosition_rejected (weights b) ((hmem b).mp hb)
    refine (Call.except_bind_of_ok (hselect targetWeights)).trans ?_
    refine (Call.except_bind_of_ok (hselect draftWeights)).trans ?_
    refine (Call.except_bind_of_ok (sampleCorrection_map (by simpa using hnone)
      (fun b => h.target b _) (fun b => h.draft b _) h.noise)).trans ?_
    refine congrArg Except.ok ?_
    simp only [oracleResult, ← hcounts, List.map_map]
    congr 1
    · funext b
      rw [copyRows_map _ hnodup]
      simp only [hmem, Function.comp_apply]
    · funext b
      rw [copyRows_map _ hnodup]
      by_cases hb : counts b < P <;> simp [hmem, hb, correctionRow]
    · funext b
      rw [copyRows_map _ hnodup]
      by_cases hb : counts b < P <;> simp [hmem, hb]

omit [NeZero V] [NeZero P] in
/-- Dividing by one where the residual is empty does not matter: the target law is taken there. -/
private theorem masked_division (law residual : Fin V → F) (mass : F) :
    (if (true && decide (mass = 0)) = true then law
      else fun i => residual i / if mass = 0 then 1 else mass)
      = if decide (mass = 0) = true then law else fun i => residual i / mass := by
  by_cases hmass : mass = 0 <;> simp [hmass]

/-- On a rejected row the clamped position is the rejected one and the masked division is the
oracle's. -/
private theorem acceptTrusted_ok
    (h : RejectionInputs targetWeights draftWeights draftTokens uniforms correctionNoise) :
    ∃ result, acceptTrusted targetWeights draftTokens draftWeights uniforms correctionNoise
        = .ok result ∧
      let oracle := oracleResult targetWeights draftWeights draftTokens uniforms correctionNoise
      result.acceptedCounts = oracle.acceptedCounts ∧
      result.usedReference = oracle.usedReference ∧
      result.targetFallback = oracle.targetFallback ∧
      ∀ b, oracle.acceptedCounts b < P →
        result.correctiveTokenIds b = oracle.correctiveTokenIds b := by
  have hrange : ¬ ∃ b p, draftTokens b p < 0 ∨ (V : Int) ≤ draftTokens b p := by
    rintro ⟨b, p, hbad⟩
    have := h.inRange b p
    omega
  refine ⟨_, Call.except_guard_of_not hrange rfl, rfl, rfl, rfl, fun b hb => ?_⟩
  have hcount : acceptedCount targetWeights draftTokens draftWeights uniforms b < P := hb
  simp only [oracleResult, correctionRow, correctionPosition, hcount, decide_true]
  exact congrArg (fun law => ((sampleExponentialRace law (correctionNoise b)).val : Int))
    (masked_division _ _ _)

end Rejection

section Validation

variable {V : Nat} {F : Type} [Field F] [LinearOrder F]

private theorem validateRowIndices_ok {rows : Option (List Nat)} {batch count : Nat} {name : String}
    (h : validateRowIndices rows batch name = .ok count) :
    ActiveRows batch rows (rows.getD (List.range batch))
      ∧ count = (rows.getD (List.range batch)).length := by
  cases rows with
  | none =>
    obtain rfl := Except.ok.inj h
    exact ⟨rfl, by simp⟩
  | some rows =>
    simp only [validateRowIndices] at h
    split at h
    · cases h
    · split at h
      · cases h
      · next hrange =>
        split at h
        · cases h
        · next hnodup =>
          obtain rfl := Except.ok.inj h
          push Not at hrange hnodup
          exact ⟨⟨rfl, hnodup, hrange⟩, rfl⟩

def BucketOk (V batch : Nat) (bucket : Int × Option (List Nat)) : Prop :=
  1 ≤ bucket.1 ∧ bucket.1 ≤ V
    ∧ ActiveRows batch bucket.2 (bucket.2.getD (List.range batch))

private theorem validateTopKBucket_ok {batch : Nat} {seen after : List Nat}
    {entry : (Int × Option (List Nat)) × Nat}
    (h : validateTopKBucket V batch seen entry = .ok after) : BucketOk V batch entry.1 := by
  obtain ⟨⟨topK, rowIndices⟩, index⟩ := entry
  unfold validateTopKBucket at h
  obtain ⟨hrange, h⟩ := Call.except_guard h
  obtain ⟨count, hrows, -⟩ := Call.except_bind_ok h
  rw [not_not] at hrange
  exact ⟨hrange.1, hrange.2, (validateRowIndices_ok hrows).1⟩

private theorem validateTopKBuckets_ok {batch : Nat} {entries : List ((Int × Option (List Nat)) × Nat)}
    {seen after : List Nat}
    (h : entries.foldlM (validateTopKBucket V batch) seen = .ok after) :
    ∀ entry ∈ entries, BucketOk V batch entry.1 := by
  induction entries generalizing seen with
  | nil => simp
  | cons entry entries ih =>
    rw [List.foldlM_cons] at h
    obtain ⟨mid, hentry, hrest⟩ := Call.except_bind_ok h
    intro other hother
    rcases List.mem_cons.mp hother with rfl | hother
    · exact validateTopKBucket_ok hentry
    · exact ih hrest other hother

structure ExactInputs (logits : List (LogitRow V F)) (temperatures : List F)
    (topKBuckets : List (Int × Option (List Nat)))
    (topPPlan : Option (Option (List Nat) × List F)) : Prop where
  temperatures : temperatures.length = logits.length
  buckets : ∀ bucket ∈ topKBuckets, BucketOk V logits.length bucket
  plan : ∀ plan ∈ topPPlan,
    ActiveRows logits.length plan.1 (plan.1.getD (List.range logits.length))
      ∧ plan.2.length = (plan.1.getD (List.range logits.length)).length

private theorem validateExactInputs_ok {logits : List (LogitRow V F)} {temperatures : List F}
    {topKBuckets : List (Int × Option (List Nat))}
    {topPPlan : Option (Option (List Nat) × List F)}
    (h : validateExactInputs logits temperatures topKBuckets topPPlan = .ok ⟨⟩) :
    ExactInputs logits temperatures topKBuckets topPPlan := by
  unfold validateExactInputs at h
  obtain ⟨-, h⟩ := Call.except_guard h
  obtain ⟨htemps, h⟩ := Call.except_guard h
  obtain ⟨-, h⟩ := Call.except_guard h
  obtain ⟨seen, hbuckets, h⟩ := Call.except_bind_ok h
  refine ⟨not_not.mp htemps, fun bucket hbucket => ?_, fun plan hplan => ?_⟩
  · obtain ⟨index, hindex⟩ := List.getElem?_of_mem hbucket
    exact validateTopKBuckets_ok hbuckets (bucket, index)
      (List.mem_zipIdx_iff_getElem?.mpr hindex)
  · rw [Option.mem_def] at hplan
    subst hplan
    obtain ⟨count, hrows, h⟩ := Call.except_bind_ok h
    obtain ⟨hcount, -⟩ := Call.except_guard h
    obtain ⟨hactive, rfl⟩ := validateRowIndices_ok hrows
    exact ⟨hactive, not_not.mp hcount⟩

end Validation

section Probabilities

variable {V : Nat} {F : Type} [Field F] [LinearOrder F] [IsStrictOrderedRing F]
  {sort : AscendingSort V F} {softmax : LogitRow V F → Fin V → F}

private theorem filterTopPRow_ne_bot (temperature cutoff : F) {row : LogitRow V F}
    (hrow : ∃ i, row i ≠ ⊥) :
    ∃ i, filterTopPRow sort softmax temperature cutoff row i ≠ ⊥ := by
  obtain ⟨i, hi⟩ := hrow
  have hV : 0 < V := by
    have := i.isLt
    omega
  let scaled := scaleRow temperature row
  let last : Fin V := ⟨V - 1, by omega⟩
  let top := sort.order scaled last
  have hscaled : scaled i ≤ scaled top := by
    have hle : (sort.order scaled).symm i ≤ last := Fin.le_def.mpr (by
      have := ((sort.order scaled).symm i).isLt
      simp only [last]
      omega)
    simpa [top] using sort.ascending scaled hle
  have htop : row i ≤ row top := scaleRow_le_iff.mp hscaled
  have hlast : ((sort.order scaled).symm top).val + 1 = V := by
    simp only [top, Equiv.symm_apply_apply, last]
    omega
  refine ⟨top, ?_⟩
  unfold filterTopPRow
  have hkeep : ¬ decide (∑ k ∈ Finset.Iic ((sort.order scaled).symm top),
      softmax (scaled ∘ sort.order scaled) k ≤ cutoff
      ∧ ¬ ((sort.order scaled).symm top).val + 1 = V) = true := by simp [hlast]
  simp only
  rw [if_neg hkeep]
  exact fun hbot => hi (le_bot_iff.mp (hbot ▸ htop))

omit [Field F] [IsStrictOrderedRing F] in
/-- One filter of a batch: it succeeds and keeps the number of rows; rows it changes are images of
rows that were there. -/
private theorem bucket_ok {logits : List (LogitRow V F)} {bucket : Int × Option (List Nat)}
    (h : BucketOk V logits.length bucket) :
    ∃ out, filterTopK logits bucket.2 bucket.1.toNat = .ok out ∧ out.length = logits.length ∧
      ((∀ row ∈ logits, ∃ i, row i ≠ ⊥) → ∀ row ∈ out, ∃ i, row i ≠ ⊥) := by
  obtain ⟨hlow, hhigh, hactive⟩ := h
  have hk : 1 ≤ bucket.1.toNat := by omega
  have hkV : bucket.1.toNat ≤ V := by omega
  obtain ⟨out, hout, hlen, hin, houtside⟩ := filterTopK_ok hactive hk hkV
  refine ⟨out, hout, hlen, fun hrows row hrow => ?_⟩
  obtain ⟨r, hr⟩ := List.getElem?_of_mem hrow
  by_cases hmem : r ∈ bucket.2.getD (List.range logits.length)
  · rw [hin r hmem] at hr
    obtain ⟨before, hbefore, rfl⟩ := Option.map_eq_some_iff.mp hr
    rw [filterTopKRow_eq_support hk hkV]
    exact topKSupport_ne_bot hk (hrows before (List.mem_of_getElem? hbefore))
  · rw [houtside r hmem] at hr
    exact hrows row (List.mem_of_getElem? hr)

omit [Field F] [IsStrictOrderedRing F] in
private theorem buckets_ok {buckets : List (Int × Option (List Nat))} {logits : List (LogitRow V F)}
    (h : ∀ bucket ∈ buckets, BucketOk V logits.length bucket) :
    ∃ out, buckets.foldlM (fun logits bucket => filterTopK logits bucket.2 bucket.1.toNat) logits
        = .ok out ∧ out.length = logits.length ∧
      ((∀ row ∈ logits, ∃ i, row i ≠ ⊥) → ∀ row ∈ out, ∃ i, row i ≠ ⊥) := by
  induction buckets generalizing logits with
  | nil => exact ⟨logits, rfl, rfl, fun hrows => hrows⟩
  | cons bucket buckets ih =>
    obtain ⟨mid, hmid, hmidLen, hmidRows⟩ := bucket_ok (h bucket List.mem_cons_self)
    obtain ⟨out, hout, houtLen, houtRows⟩ := @ih mid fun other hother => by
      rw [hmidLen]
      exact h other (List.mem_cons_of_mem bucket hother)
    refine ⟨out, ?_, houtLen.trans hmidLen, fun hrows => houtRows (hmidRows hrows)⟩
    rw [List.foldlM_cons, Call.except_bind_of_ok hmid]
    exact hout

private theorem filterExact_ok {logits : List (LogitRow V F)} {temperatures : List F}
    {topKBuckets : List (Int × Option (List Nat))}
    {topPPlan : Option (Option (List Nat) × List F)}
    (h : ExactInputs logits temperatures topKBuckets topPPlan) :
    ∃ out, filterExact sort softmax logits temperatures topKBuckets topPPlan = .ok out ∧
      out.length = logits.length ∧
      ((∀ row ∈ logits, ∃ i, row i ≠ ⊥) → ∀ row ∈ out, ∃ i, row i ≠ ⊥) := by
  obtain ⟨mid, hmid, hmidLen, hmidRows⟩ := buckets_ok h.buckets
  unfold filterExact
  rw [Call.except_bind_of_ok hmid]
  cases hplan : topPPlan with
  | none => exact ⟨mid, rfl, hmidLen, hmidRows⟩
  | some plan =>
    obtain ⟨rowIndices, cutoffs⟩ := plan
    obtain ⟨hactive, hcutoffs⟩ := h.plan _ hplan
    rw [← hmidLen] at hactive hcutoffs
    have htemps : temperatures.length = mid.length := h.temperatures.trans hmidLen.symm
    obtain ⟨out, hout, houtLen, hin, houtside⟩ :=
      filterTopP_ok sort softmax htemps hactive hcutoffs
    refine ⟨out, hout, houtLen.trans hmidLen, fun hrows row hrow => ?_⟩
    obtain ⟨r, hr⟩ := List.getElem?_of_mem hrow
    have hlt : r < mid.length := houtLen ▸ (List.getElem?_eq_some_iff.mp hr).1
    have hbefore := List.getElem?_eq_getElem hlt
    have hkeep := hmidRows hrows mid[r] (List.getElem_mem hlt)
    by_cases hmem : r ∈ rowIndices.getD (List.range mid.length)
    · obtain ⟨j, hj⟩ := List.getElem?_of_mem hmem
      have htemp := List.getElem?_eq_getElem (htemps ▸ hlt : r < temperatures.length)
      have hcut := List.getElem?_eq_getElem
        (hcutoffs ▸ (List.getElem?_eq_some_iff.mp hj).1 : j < cutoffs.length)
      rw [hin j r _ _ _ hj htemp hcut hbefore] at hr
      obtain rfl := Option.some.inj hr
      exact filterTopPRow_ne_bot _ _ hkeep
    · rw [houtside r hmem, hbefore] at hr
      obtain rfl := Option.some.inj hr
      exact hkeep

variable [NeZero V]

omit [IsStrictOrderedRing F] [NeZero V] in
private theorem overrideGreedy_all {temperatures : List F} {tokens : List (Fin V)}
    {probabilities : List (Fin V → F)} (htokens : tokens.length = temperatures.length)
    (hrows : probabilities.length = temperatures.length)
    (hzero : ∀ temperature ∈ temperatures, temperature = 0) :
    overrideGreedy temperatures tokens probabilities = tokens.map oneHot := by
  apply List.ext_getElem
  · simp [overrideGreedy, htokens, hrows]
  · intro r hr hr'
    have hlt : r < temperatures.length := by
      rw [List.length_map, htokens] at hr'
      exact hr'
    have htemp : temperatures[r] = 0 := hzero _ (List.getElem_mem hlt)
    simp [overrideGreedy, htemp]

private theorem prepareExactProbabilitiesTrusted_eq {logits : List (LogitRow V F)}
    {temperatures : List F} {topKBuckets : List (Int × Option (List Nat))}
    {topPPlan : Option (Option (List Nat) × List F)} {probabilities : List (Fin V → F)}
    (h : prepareExactProbabilities sort softmax logits temperatures topKBuckets topPPlan
      = .ok probabilities) :
    prepareExactProbabilitiesTrusted sort softmax logits temperatures topKBuckets topPPlan
        (decide (∀ temperature ∈ temperatures, temperature = 0)) = .ok probabilities := by
  unfold prepareExactProbabilities at h
  obtain ⟨⟨⟩, hvalid, h⟩ := Call.except_bind_ok h
  obtain ⟨filtered, hfiltered, h⟩ := Call.except_bind_ok h
  obtain ⟨-, h⟩ := Call.except_guard h
  have hinputs := validateExactInputs_ok hvalid
  obtain ⟨out, hout, houtLen, -⟩ := @filterExact_ok _ _ _ _ _ sort softmax _ _ _ _ hinputs
  obtain rfl : filtered = out := Except.ok.inj (hfiltered.symm.trans hout)
  unfold prepareExactProbabilitiesTrusted
  by_cases hzero : ∀ temperature ∈ temperatures, temperature = 0
  · simp only [decide_eq_true hzero, if_true]
    rw [← Except.ok.inj h]
    refine congrArg Except.ok (overrideGreedy_all ?_ ?_ hzero).symm
    · rw [List.length_map, hinputs.temperatures]
    · simp [houtLen, hinputs.temperatures]
  · simp only [decide_eq_false hzero, Bool.false_eq_true, if_false]
    rw [Call.except_bind_of_ok hfiltered]
    exact h

omit [IsStrictOrderedRing F] [NeZero V] in
private theorem mem_overrideGreedy {temperatures : List F} {tokens : List (Fin V)}
    {probabilities : List (Fin V → F)} {row : Fin V → F}
    (h : row ∈ overrideGreedy temperatures tokens probabilities) :
    (∃ token, row = oneHot token) ∨ row ∈ probabilities := by
  obtain ⟨r, hr, rfl⟩ := List.getElem_of_mem h
  have hlt : r < probabilities.length := by
    simp only [overrideGreedy, List.length_zipWith, List.length_zip] at hr
    omega
  simp only [overrideGreedy, List.getElem_zipWith]
  split
  · exact .inl ⟨_, rfl⟩
  · exact .inr (List.getElem_mem hlt)

omit [IsStrictOrderedRing F] [NeZero V] in
private theorem mem_zipWith_scaleRow {temperatures : List F} {rows : List (LogitRow V F)}
    {scaled : LogitRow V F} (h : scaled ∈ List.zipWith scaleRow temperatures rows) :
    ∃ temperature, ∃ row ∈ rows, scaled = scaleRow temperature row := by
  obtain ⟨r, hr, rfl⟩ := List.getElem_of_mem h
  have hlt : r < rows.length := by
    simp only [List.length_zipWith] at hr
    omega
  exact ⟨_, rows[r], List.getElem_mem hlt, List.getElem_zipWith⟩

omit [NeZero V] in
private theorem oneHot_mass (token : Fin V) : (0 : F) < ∑ i, oneHot token i := by
  have hnonneg : ∀ i ∈ Finset.univ, (0 : F) ≤ oneHot token i := by
    intro i _
    unfold oneHot
    split
    · exact zero_le_one
    · exact le_rfl
  refine Finset.sum_pos' hnonneg ⟨token, Finset.mem_univ token, ?_⟩
  rw [oneHot, if_pos rfl]
  exact zero_lt_one

/-- A softmax of a row: non-negative weights, zero exactly on the masked entries. -/
structure RowSoftmax (V : Nat) (F : Type) [Field F] [LinearOrder F] where
  weights : LogitRow V F → Fin V → F
  nonneg : ∀ row i, 0 ≤ weights row i
  zero_iff : ∀ row i, weights row i = 0 ↔ row i = ⊥

private theorem prepareExactProbabilities_ok (kernel : RowSoftmax V F) {logits : List (LogitRow V F)}
    {temperatures : List F} {topKBuckets : List (Int × Option (List Nat))}
    {topPPlan : Option (Option (List Nat) × List F)}
    (hvalid : validateExactInputs logits temperatures topKBuckets topPPlan = .ok ⟨⟩)
    (hrows : ∀ row ∈ logits, ∃ i, row i ≠ ⊥) :
    ∃ probabilities, prepareExactProbabilities sort kernel.weights logits temperatures
      topKBuckets topPPlan = .ok probabilities := by
  obtain ⟨filtered, hfiltered, hlen, hkeep⟩ :=
    @filterExact_ok _ _ _ _ _ sort kernel.weights _ _ _ _ (validateExactInputs_ok hvalid)
  have hmass : ∀ row ∈ overrideGreedy temperatures (logits.map argmax)
      ((List.zipWith scaleRow temperatures filtered).map kernel.weights), 0 < ∑ i, row i := by
    intro row hrow
    rcases mem_overrideGreedy hrow with ⟨token, rfl⟩ | hrow
    · exact oneHot_mass token
    · obtain ⟨scaled, hscaled, rfl⟩ := List.mem_map.mp hrow
      obtain ⟨temperature, own, hown, rfl⟩ := mem_zipWith_scaleRow hscaled
      obtain ⟨i, hi⟩ := hkeep hrows own hown
      refine Finset.sum_pos' (fun j _ => kernel.nonneg _ j) ⟨i, Finset.mem_univ i, ?_⟩
      refine lt_of_le_of_ne (kernel.nonneg _ i) fun hzero => hi ?_
      exact scaleRow_eq_bot.mp ((kernel.zero_iff _ i).mp hzero.symm)
  refine ⟨overrideGreedy temperatures (logits.map argmax)
    ((List.zipWith scaleRow temperatures filtered).map kernel.weights), ?_⟩
  unfold prepareExactProbabilities
  refine (Call.except_bind_of_ok hvalid).trans ?_
  refine (Call.except_bind_of_ok hfiltered).trans ?_
  exact Call.except_guard_of_not (not_not_intro hmass) rfl

end Probabilities

section Paths

variable {F : Type} [Field F] [LinearOrder F] [IsStrictOrderedRing F]

/-- The trusted device paths return what the validated oracles return: on inputs both are given
`accept_trusted` agrees with `accept`, and the trusted probabilities are the accepted exact ones,
the all-greedy shortcut included. -/
theorem trusted_paths_match_oracles :
    (∀ (B P V : Nat) [NeZero B] [NeZero P] [NeZero V]
      (targetWeights draftWeights : Fin B → Fin P → Fin V → F) (draftTokens : Fin B → Fin P → Int)
      (uniforms : Fin B → Fin P → F) (correctionNoise : Fin B → Fin V → F),
      RejectionInputs targetWeights draftWeights draftTokens uniforms correctionNoise →
      ∃ oracle trusted,
        accept targetWeights draftTokens draftWeights uniforms correctionNoise = .ok oracle ∧
        acceptTrusted targetWeights draftTokens draftWeights uniforms correctionNoise
          = .ok trusted ∧
        trusted.acceptedCounts = oracle.acceptedCounts ∧
        trusted.usedReference = oracle.usedReference ∧
        trusted.targetFallback = oracle.targetFallback ∧
        ∀ b, oracle.acceptedCounts b < P →
          trusted.correctiveTokenIds b = oracle.correctiveTokenIds b) ∧
    (∀ (V : Nat) [NeZero V] (sort : AscendingSort V F) (softmax : LogitRow V F → Fin V → F)
      (logits : List (LogitRow V F)) (temperatures : List F)
      (topKBuckets : List (Int × Option (List Nat)))
      (topPPlan : Option (Option (List Nat) × List F)) (probabilities : List (Fin V → F)),
      prepareExactProbabilities sort softmax logits temperatures topKBuckets topPPlan
        = .ok probabilities →
      prepareExactProbabilitiesTrusted sort softmax logits temperatures topKBuckets topPPlan
          (decide (∀ temperature ∈ temperatures, temperature = 0)) = .ok probabilities) := by
  refine ⟨fun B P V _ _ _ targetWeights draftWeights draftTokens uniforms correctionNoise h => ?_,
    fun V _ sort softmax logits temperatures topKBuckets topPPlan probabilities h =>
      prepareExactProbabilitiesTrusted_eq h⟩
  obtain ⟨trusted, htrusted, hcounts, hreference, hfallback, htokens⟩ := acceptTrusted_ok h
  exact ⟨_, trusted, accept_ok h, htrusted, hcounts, hreference, hfallback, htokens⟩

def indicatorKernel (V : Nat) : RowSoftmax V Rat where
  weights row i := if row i = ⊥ then 0 else 1
  nonneg row i := by
    split
    · exact le_rfl
    · exact zero_le_one
  zero_iff row i := by simp

def evenTarget : Fin 2 → Fin 2 → Fin 2 → ℚ := fun _ _ _ => 1

def pointDraft : Fin 2 → Fin 2 → Fin 2 → ℚ := fun _ _ i => if i = 0 then 1 else 0

def lastRejecting : Fin 2 → Fin 2 → ℚ := fun b p => if b = 1 ∧ p = 1 then 3 / 4 else 1 / 4

private theorem rejectionInputs_sample :
    RejectionInputs evenTarget pointDraft (fun _ _ => 0) lastRejecting (fun _ _ => 1) where
  target b p := by simp [evenTarget, CanonicalWeights, rowMass]
  draft b p := by
    refine ⟨fun i => ?_, by simp [pointDraft, rowMass]⟩
    unfold pointDraft
    split
    · exact zero_le_one
    · exact le_rfl
  inRange := by simp
  proposed := by simp [pointDraft, tokenWeight]
  uniform b p := by
    unfold lastRejecting
    split <;> norm_num
  noise := by simp

/-- The first row accepts all, the second one rejects its last proposal for the other token; the
probabilities are those of a mixed and of an all-greedy batch. -/
theorem trusted_paths_match_oracles_on_two_rows :
    (∃ oracle trusted,
      accept evenTarget (fun _ _ => 0) pointDraft lastRejecting (fun _ _ => 1) = .ok oracle ∧
      acceptTrusted evenTarget (fun _ _ => 0) pointDraft lastRejecting (fun _ _ => 1) =
        .ok trusted ∧
      trusted.acceptedCounts 0 = 2 ∧ trusted.acceptedCounts 1 = 1 ∧
      oracle.correctiveTokenIds 1 = 1 ∧ trusted.correctiveTokenIds 1 = 1 ∧
      trusted.targetFallback = oracle.targetFallback) ∧
    ∀ temperature ∈ [(1 : ℚ), 0], ∃ probabilities,
      prepareExactProbabilities (tupleSort 2) (indicatorKernel 2).weights
        [fun i => if i = 0 then ((1 : ℚ) : WithBot ℚ) else ⊥, fun _ => ((1 : ℚ) : WithBot ℚ)]
        [0, temperature] [(1, none)] none = .ok probabilities ∧
      prepareExactProbabilitiesTrusted (tupleSort 2) (indicatorKernel 2).weights
        [fun i => if i = 0 then ((1 : ℚ) : WithBot ℚ) else ⊥, fun _ => ((1 : ℚ) : WithBot ℚ)]
        [0, temperature] [(1, none)] none (decide (temperature = 0)) = .ok probabilities := by
  constructor
  · obtain ⟨oracle, trusted, horacle, htrusted, hcounts, -, hfallback, htokens⟩ :=
      trusted_paths_match_oracles.1 2 2 2 _ _ _ _ _ rejectionInputs_sample
    have hend : (accept evenTarget (fun _ _ => 0) pointDraft lastRejecting
        (fun _ _ => 1)).toOption.any (fun oracle => decide (oracle.acceptedCounts 0 = 2 ∧
          oracle.acceptedCounts 1 = 1 ∧ oracle.correctiveTokenIds 1 = 1)) = true := by
      decide +kernel
    rw [horacle] at hend
    obtain ⟨hfirst, hsecond, htoken⟩ := of_decide_eq_true hend
    refine ⟨oracle, trusted, horacle, htrusted, ?_, ?_, htoken, ?_, hfallback⟩
    · rw [hcounts, hfirst]
    · rw [hcounts, hsecond]
    · rw [htokens 1 (by rw [hsecond]; exact Nat.one_lt_two), htoken]
  · intro temperature htemperature
    have hvalid : validateExactInputs [fun i : Fin 2 => if i = 0 then ((1 : ℚ) : WithBot ℚ) else ⊥,
        fun _ => ((1 : ℚ) : WithBot ℚ)] [0, temperature] [(1, none)] none = .ok ⟨⟩ := by
      rcases List.mem_pair.mp htemperature with rfl | rfl <;>
        simp [validateExactInputs, validateTopKBucket, validateRowIndices, validateTopPPlan] <;> rfl
    obtain ⟨probabilities, hexact⟩ := @prepareExactProbabilities_ok _ _ _ _ _ (tupleSort 2) _
      (indicatorKernel 2) _ _ _ _ hvalid (by simp)
    have htrusted := trusted_paths_match_oracles.2 2 (tupleSort 2) (indicatorKernel 2).weights _ _ _
      _ probabilities hexact
    exact ⟨probabilities, hexact, by simpa using htrusted⟩

end Paths

end NanoVllm
