/- module: NanoVllm/Routing/Registry
   layer: main result
   source: nanovllm/engine/speculative_routes.py; the admission filter of
     _execute_speculative_verified in nanovllm/engine/llm_engine.py
   digest: The registry holds every route a live batch can execute, and only certified ones. -/

import NanoVllm.Engine.LlmEngine
import NanoVllm.Library.Buckets
import NanoVllm.Routing.EffectiveK

set_option autoImplicit false
set_option relaxedAutoImplicit false

namespace NanoVllm

open Library

variable {digests : WorkspaceDigests} {P : SpeculativeMemoryPlan} {eager : Bool}
  {backend : String} {b β p k : Nat} {F : DraftCatchupFamily}

/-! ### Buckets -/

private theorem draftGraphBatchBuckets_increasing (batchCap : Nat) :
    (draftGraphBatchBuckets batchCap).Pairwise (· < ·) := by
  unfold draftGraphBatchBuckets
  split
  · exact List.Pairwise.nil
  · have hsorted := List.pairwise_insertionSort (α := Nat) (· ≤ ·)
      (([1, 2, 4, 8].filter fun bucket => bucket ≤ batchCap)
        ++ List.range' 16 (batchCap / 16) 16 ++ [batchCap]).dedup
    have hnodup := ((List.perm_insertionSort (α := Nat) (· ≤ ·) _).nodup_iff).mpr
      (List.nodup_dedup (([1, 2, 4, 8].filter fun bucket => bucket ≤ batchCap)
        ++ List.range' 16 (batchCap / 16) 16 ++ [batchCap]))
    exact hsorted.imp₂ (fun _ _ hle hne => Nat.lt_of_le_of_ne hle hne) hnodup

theorem mem_draftGraphBatchBuckets {batchCap : Nat} (h : β ∈ draftGraphBatchBuckets batchCap) :
    1 ≤ β ∧ β ≤ batchCap := by
  unfold draftGraphBatchBuckets at h
  split at h
  · exact absurd h List.not_mem_nil
  · simp only [List.mem_insertionSort, List.mem_dedup, List.mem_append, List.mem_filter,
      List.mem_range', List.mem_singleton, decide_eq_true_eq] at h
    rcases h with (⟨hmem, hle⟩ | ⟨i, hi, rfl⟩) | rfl
    · refine ⟨?_, hle⟩
      simp only [List.mem_cons, List.not_mem_nil, or_false] at hmem
      omega
    · omega
    · omega

private theorem batchCap_mem_draftGraphBatchBuckets {batchCap : Nat} (h : 1 ≤ batchCap) :
    batchCap ∈ draftGraphBatchBuckets batchCap := by
  unfold draftGraphBatchBuckets
  rw [if_neg (Nat.ne_of_gt h)]
  simp

private theorem routeBatchCap_le (P : SpeculativeMemoryPlan) (eager : Bool) :
    routeBatchCap P eager ≤ P.batchSize := by
  unfold routeBatchCap
  split
  · exact le_rfl
  · exact min_le_left _ _

private theorem PositivePlan.routeBatchCap_pos (h : PositivePlan P) (eager : Bool) :
    1 ≤ routeBatchCap P eager := by
  unfold routeBatchCap
  split
  · exact h.batch_pos
  · exact lt_min h.batch_pos (by decide)

private theorem routeBatchBuckets_increasing (P : SpeculativeMemoryPlan) (eager : Bool)
    (h : 1 ≤ routeBatchCap P eager) : (0 :: routeBatchBuckets P eager).Pairwise (· < ·) := by
  unfold routeBatchBuckets
  split
  · exact List.pairwise_pair.mpr h
  · refine List.pairwise_cons.mpr ⟨fun β hβ => ?_, draftGraphBatchBuckets_increasing _⟩
    exact (mem_draftGraphBatchBuckets hβ).1

private theorem mem_routeBatchBuckets (h : β ∈ routeBatchBuckets P eager) :
    β ≤ routeBatchCap P eager := by
  unfold routeBatchBuckets at h
  split at h
  · exact (List.mem_singleton.mp h).le
  · exact (mem_draftGraphBatchBuckets h).2

private theorem routeBatchCap_mem (h : 1 ≤ routeBatchCap P eager) :
    routeBatchCap P eager ∈ routeBatchBuckets P eager := by
  unfold routeBatchBuckets
  split
  · exact List.mem_singleton_self _
  · exact batchCap_mem_draftGraphBatchBuckets h

/-! ### Entries -/

/-- The loop keeps the route of length `k` and family `F` for a bucket that follows `p`. -/
structure Admits (P : SpeculativeMemoryPlan) (p k : Nat) (F : DraftCatchupFamily) : Prop where
  pos : 1 ≤ k
  le_cap : k ≤ routeKCap P
  le_len : k ≤ P.maxModelLen - 2
  work : minimumWork p k F ≤ P.maxNumBatchedTokens

private theorem mem_bucketEntries {entry : DraftRouteEntry} :
    entry ∈ bucketEntries digests P eager backend p β ↔
      ∃ k F, Admits P p k F ∧ entry = routeEntry digests P eager backend β k F := by
  unfold bucketEntries
  rw [List.mem_flatMap]
  constructor
  · rintro ⟨k, hk, hentry⟩
    have hrange := List.mem_range'_1.mp hk
    split at hentry
    · exact absurd hentry List.not_mem_nil
    · next hlen =>
      obtain ⟨F, hF, rfl⟩ := List.mem_map.mp hentry
      have hwork := of_decide_eq_true (List.mem_filter.mp hF).2
      exact ⟨k, F, ⟨hrange.1, by omega, Nat.not_lt.mp hlen, hwork⟩, rfl⟩
  · rintro ⟨k, F, h, rfl⟩
    have hpos := h.pos
    have hcap := h.le_cap
    refine ⟨k, List.mem_range'_1.mpr ⟨hpos, by omega⟩, ?_⟩
    rw [if_neg (Nat.not_lt.mpr h.le_len)]
    refine List.mem_map_of_mem (List.mem_filter.mpr ⟨?_, decide_eq_true h.work⟩)
    cases F <;> simp

private theorem mem_registryEntries {entry : DraftRouteEntry} {prev : Nat} {buckets : List Nat} :
    entry ∈ registryEntries digests P eager backend prev buckets ↔
      ∃ p β k F, Adjacent p β (prev :: buckets) ∧ Admits P p k F ∧
        entry = routeEntry digests P eager backend β k F := by
  induction buckets generalizing prev with
  | nil => simp [registryEntries, Adjacent]
  | cons β buckets ih =>
    rw [registryEntries, List.mem_append, mem_bucketEntries, ih]
    constructor
    · rintro (⟨k, F, h, rfl⟩ | ⟨p, γ, k, F, hadj, h⟩)
      · exact ⟨prev, β, k, F, Or.inl ⟨rfl, rfl⟩, h, rfl⟩
      · exact ⟨p, γ, k, F, Or.inr hadj, h⟩
    · rintro ⟨p, γ, k, F, ⟨rfl, rfl⟩ | hadj, h⟩
      · exact Or.inl ⟨k, F, h⟩
      · exact Or.inr ⟨p, γ, k, F, hadj, h⟩

private theorem minimumWork_mono {k' : Nat} (hk : k ≤ k') : minimumWork p k F ≤ minimumWork p k' F := by
  have hmul : (p + 1) * (k + 1) ≤ (p + 1) * (k' + 1) := by gcongr
  cases F
  · exact hmul
  · exact Nat.succ_le_succ hmul

private theorem minimumWork_le_of_le {p' : Nat} (hp : p ≤ p') :
    minimumWork p k F ≤ minimumWork p' k F := by
  have hmul : (p + 1) * (k + 1) ≤ (p' + 1) * (k + 1) := by gcongr
  cases F
  · exact hmul
  · exact Nat.succ_le_succ hmul

private theorem admits_iff_le (P : SpeculativeMemoryPlan) (p : Nat) (F : DraftCatchupFamily) :
    ∃ n, ∀ k, Admits P p k F ↔ 1 ≤ k ∧ k ≤ n := by
  obtain ⟨n, hn, -, hiff⟩ := filter_range'_of_antitone
    (q := fun k => decide (k ≤ P.maxModelLen - 2 ∧ minimumWork p k F ≤ P.maxNumBatchedTokens))
    (fun i j hij hj => by
      obtain ⟨hlen, hwork⟩ := of_decide_eq_true hj
      exact decide_eq_true ⟨hij.trans hlen, (minimumWork_mono hij).trans hwork⟩) (routeKCap P)
  refine ⟨n, fun k => ⟨fun h => ⟨h.pos, ?_⟩, fun ⟨hpos, hk⟩ => ?_⟩⟩
  · exact (hiff k h.pos h.le_cap).mp (decide_eq_true ⟨h.le_len, h.work⟩)
  · obtain ⟨hlen, hwork⟩ := of_decide_eq_true ((hiff k hpos (hk.trans hn)).mpr hk)
    exact ⟨hpos, hk.trans hn, hlen, hwork⟩

/-! ### Order -/

def KeyLt (x y : DraftRouteEntry) : Prop := x.key.sortKey < y.key.sortKey

private theorem keyLt_of_bucket {b' k' : Nat} {F' : DraftCatchupFamily} (h : b < b') :
    KeyLt (routeEntry digests P eager backend b k F)
      (routeEntry digests P eager backend b' k' F') :=
  Prod.Lex.toLex_lt_toLex.mpr (Or.inr ⟨rfl,
    Prod.Lex.toLex_lt_toLex.mpr (Or.inr ⟨rfl, Prod.Lex.toLex_lt_toLex.mpr (Or.inl h)⟩)⟩)

private theorem keyLt_of_effectiveK {k' : Nat} {F' : DraftCatchupFamily} (h : k < k') :
    KeyLt (routeEntry digests P eager backend b k F)
      (routeEntry digests P eager backend b k' F') :=
  Prod.Lex.toLex_lt_toLex.mpr (Or.inr ⟨rfl,
    Prod.Lex.toLex_lt_toLex.mpr (Or.inr ⟨rfl, Prod.Lex.toLex_lt_toLex.mpr (Or.inr ⟨rfl,
      Prod.Lex.toLex_lt_toLex.mpr (Or.inl h)⟩)⟩)⟩)

private theorem catchupFamily_value_lt :
    DraftCatchupFamily.none.value < DraftCatchupFamily.pagedEagerDynamic.value := by
  decide

private theorem keyLt_of_family :
    KeyLt (routeEntry digests P eager backend b k .none)
      (routeEntry digests P eager backend b k .pagedEagerDynamic) :=
  Prod.Lex.toLex_lt_toLex.mpr (Or.inr ⟨rfl,
    Prod.Lex.toLex_lt_toLex.mpr (Or.inr ⟨rfl, Prod.Lex.toLex_lt_toLex.mpr (Or.inr ⟨rfl,
      Prod.Lex.toLex_lt_toLex.mpr (Or.inr ⟨rfl,
        Prod.Lex.toLex_lt_toLex.mpr (Or.inl catchupFamily_value_lt)⟩)⟩)⟩)⟩)

private theorem bucketEntries_increasing :
    (bucketEntries digests P eager backend p β).Pairwise KeyLt := by
  unfold bucketEntries
  refine List.pairwise_flatMap.mpr ⟨fun k _ => ?_, ?_⟩
  · split
    · exact List.Pairwise.nil
    · refine List.pairwise_map.mpr (List.Pairwise.filter _ ?_)
      exact List.pairwise_pair.mpr keyLt_of_family
  · refine (List.pairwise_lt_range' (s := 1) (n := routeKCap P)).imp ?_
    intro k k' hk x hx y hy
    split at hx
    · exact absurd hx List.not_mem_nil
    split at hy
    · exact absurd hy List.not_mem_nil
    obtain ⟨F, -, rfl⟩ := List.mem_map.mp hx
    obtain ⟨F', -, rfl⟩ := List.mem_map.mp hy
    exact keyLt_of_effectiveK hk

private theorem registryEntries_increasing {prev : Nat} {buckets : List Nat}
    (h : (prev :: buckets).Pairwise (· < ·)) :
    (registryEntries digests P eager backend prev buckets).Pairwise KeyLt := by
  induction buckets generalizing prev with
  | nil => exact List.Pairwise.nil
  | cons β buckets ih =>
    rw [registryEntries, List.pairwise_append]
    refine ⟨bucketEntries_increasing, ih h.of_cons, ?_⟩
    intro x hx y hy
    obtain ⟨k, F, -, rfl⟩ := mem_bucketEntries.mp hx
    obtain ⟨p, γ, k', F', hadj, -, rfl⟩ := mem_registryEntries.mp hy
    exact keyLt_of_bucket (List.rel_of_pairwise_cons h.of_cons hadj.mem_right)

/-! ### The registry -/

def warmedRegistry (digests : WorkspaceDigests) (P : SpeculativeMemoryPlan) (eager : Bool)
    (backend : String) (W : Finset DraftWarmComponentKey) : DraftRouteRegistry where
  schema := draftRouteSchema
  planFingerprint := (digests.plan backend P).val
  entries := registryEntries digests P eager backend 0 (routeBatchBuckets P eager)
  warmedComponents := W

namespace PositivePlan

variable (h : PositivePlan P)
include h

private theorem entries_increasing (digests : WorkspaceDigests) (eager : Bool) (backend : String) :
    (registryEntries digests P eager backend 0 (routeBatchBuckets P eager)).Pairwise KeyLt :=
  registryEntries_increasing (routeBatchBuckets_increasing P eager (h.routeBatchCap_pos eager))

private theorem keys_nodup (digests : WorkspaceDigests) (eager : Bool) (backend : String)
    (W : Finset DraftWarmComponentKey) :
    (warmedRegistry digests P eager backend W).routerAdmittedKeys.Nodup := by
  refine List.pairwise_map.mpr ((h.entries_increasing digests eager backend).imp ?_)
  intro x y hlt heq
  unfold KeyLt at hlt
  rw [heq] at hlt
  exact absurd hlt (lt_irrefl _)

private theorem warmedRegistry_postInit (digests : WorkspaceDigests) (eager : Bool) (backend : String)
    {W : Finset DraftWarmComponentKey}
    (hW : W ⊆ (warmedRegistry digests P eager backend W).desiredWarmComponents) :
    (warmedRegistry digests P eager backend W).postInit = .ok ⟨⟩ := by
  have hsorted : ((warmedRegistry digests P eager backend W).entries.map
      DraftRouteEntry.key).Pairwise fun a b => a.sortKey ≤ b.sortKey :=
    List.pairwise_map.mpr ((h.entries_increasing digests eager backend).imp fun hlt => le_of_lt hlt)
  unfold DraftRouteRegistry.postInit
  refine Call.except_guard_of_not (not_not.mpr rfl) ?_
  refine Call.except_guard_of_not (not_not.mpr (h.keys_nodup digests eager backend W)) ?_
  refine Call.except_guard_of_not (not_not.mpr hsorted.insertionSort_eq.symm) ?_
  exact if_neg (not_not.mpr hW)

private theorem buildDraftRouteRegistry_ok (digests : WorkspaceDigests) (eager : Bool)
    (backend : String) :
    buildDraftRouteRegistry digests P eager backend =
      .ok (warmedRegistry digests P eager backend ∅) := by
  have hpost := h.warmedRegistry_postInit digests eager backend (Finset.empty_subset _)
  have hsorted : (registryEntries digests P eager backend 0
      (routeBatchBuckets P eager)).Pairwise fun a b => a.key.sortKey ≤ b.key.sortKey :=
    (h.entries_increasing digests eager backend).imp fun hlt => le_of_lt hlt
  unfold buildDraftRouteRegistry
  rw [if_neg (not_or.mpr ⟨Nat.ne_of_gt h.batch_pos, Nat.ne_of_gt h.k_pos⟩), hsorted.insertionSort_eq]
  exact (Call.except_bind_of_ok hpost).trans rfl

private theorem withWarmedComponents_ok (digests : WorkspaceDigests) (eager : Bool) (backend : String)
    {V W : Finset DraftWarmComponentKey}
    (hW : W ⊆ (warmedRegistry digests P eager backend V).desiredWarmComponents) :
    (warmedRegistry digests P eager backend V).withWarmedComponents W =
      .ok (warmedRegistry digests P eager backend W) := by
  unfold DraftRouteRegistry.withWarmedComponents
  refine Call.except_guard_of_not (not_not.mpr hW) ?_
  exact (Call.except_bind_of_ok (h.warmedRegistry_postInit digests eager backend hW)).trans rfl

/-! ### Ready keys -/

private theorem certified (W : Finset DraftWarmComponentKey) (hβ : β ≤ routeBatchCap P eager)
    (hk : k ≤ routeKCap P) :
    (warmedRegistry digests P eager backend W).certified
      (routeEntry digests P eager backend β k F) = true := by
  obtain ⟨target, draft, hP⟩ := h.formula
  have hβP : β ≤ P.batchSize := hβ.trans (routeBatchCap_le P eager)
  have hkP : k ≤ P.maxEffectiveK := hk.trans (min_le_left _ _)
  have hphase : P.draftPhaseBytes =
      draftPhaseBytes P.vocabSize draft.itemsize P.batchSize P.maxEffectiveK :=
    congrArg (·.draftPhaseBytes) hP
  have hreserve : P.draftPhaseBytes ≤ P.reservationBytes := by
    rw [hphase, congrArg (·.reservationBytes) hP]
    exact draftPhaseBytes_le_peak.trans (Nat.le_add_right _ _)
  have hq : β * k * P.vocabSize * fp32Bytes ≤
      draftProbabilityBytes P.vocabSize P.batchSize P.maxEffectiveK :=
    draftProbabilityBytes_mono hβP hkP
  have hids : β * k * int64Bytes ≤ metadataBytes P.batchSize P.maxEffectiveK
      (P.batchSize * (P.maxEffectiveK + 1)) := by
    have hmul : β * k * int64Bytes ≤ P.batchSize * P.maxEffectiveK * int64Bytes := by gcongr
    exact hmul.trans proposalIdBytes_le_metadataBytes
  have hlive : β * k * P.vocabSize * fp32Bytes + β * k * int64Bytes ≤ P.draftPhaseBytes := by
    rw [hphase]
    exact (Nat.add_le_add hq hids).trans draftProbabilityBytes_add_metadataBytes_le
  exact decide_eq_true ⟨rfl, rfl, rfl, rfl, hlive, hreserve⟩

/-- The keys a lookup may return: warmed routes of the family whose bucket holds the batch. -/
private theorem mem_candidates {W : Finset DraftWarmComponentKey} {c : Nat} {key : DraftRouteKey} :
    key ∈ (warmedRegistry digests P eager backend W).candidates b c ↔
      ∃ p β k, Adjacent p β (0 :: routeBatchBuckets P eager) ∧
        Admits P p k (DraftRouteRegistry.catchupFamilyOf c) ∧
        routeComponents P eager β (DraftRouteRegistry.catchupFamilyOf c) ⊆ W ∧ b ≤ β ∧
        key = routeKey eager β k (DraftRouteRegistry.catchupFamilyOf c) := by
  unfold DraftRouteRegistry.candidates DraftRouteRegistry.ready
  simp only [List.mem_filter, Bool.and_eq_true, decide_eq_true_eq]
  constructor
  · rintro ⟨-, ⟨⟨-, -, hwarm⟩, hfamily⟩, hb⟩
    obtain ⟨entry, hentry, rfl⟩ := List.mem_map.mp hwarm
    obtain ⟨hmem, hsub⟩ := List.mem_filter.mp hentry
    obtain ⟨p, β, k, F, hadj, hadmits, rfl⟩ := mem_registryEntries.mp hmem
    obtain rfl : F = DraftRouteRegistry.catchupFamilyOf c := hfamily
    exact ⟨p, β, k, hadj, hadmits, of_decide_eq_true hsub, hb, rfl⟩
  · rintro ⟨p, β, k, hadj, hadmits, hsub, hb, rfl⟩
    have hmem : routeEntry digests P eager backend β k (DraftRouteRegistry.catchupFamilyOf c) ∈
        (warmedRegistry digests P eager backend W).entries :=
      mem_registryEntries.mpr ⟨p, β, k, _, hadj, hadmits, rfl⟩
    have hcertified : (warmedRegistry digests P eager backend W).certified (routeEntry digests P
        eager backend β k (DraftRouteRegistry.catchupFamilyOf c)) = true :=
      h.certified W (mem_routeBatchBuckets hadj.mem_right) hadmits.le_cap
    refine ⟨List.mem_map.mpr ⟨_, hmem, rfl⟩, ⟨⟨List.mem_map.mpr ⟨_, hmem, rfl⟩, ?_, ?_⟩, rfl⟩, hb⟩
    · exact List.mem_map.mpr ⟨_, List.mem_filter.mpr ⟨hmem, hcertified⟩, rfl⟩
    · exact List.mem_map.mpr ⟨_, List.mem_filter.mpr ⟨hmem, decide_eq_true hsub⟩, rfl⟩

end PositivePlan

/-! ### Lookup -/

/-- The bucket a lookup may use: its components are warmed and it admits some length. -/
structure BucketServes (P : SpeculativeMemoryPlan) (eager : Bool) (W : Finset DraftWarmComponentKey)
    (b c p β : Nat) : Prop where
  adjacent : Adjacent p β (0 :: routeBatchBuckets P eager)
  warmed : routeComponents P eager β (DraftRouteRegistry.catchupFamilyOf c) ⊆ W
  live : b ≤ β
  admits : Admits P p 1 (DraftRouteRegistry.catchupFamilyOf c)

/-- What a lookup returns: every length of the smallest bucket that serves the batch. -/
structure Resolved (P : SpeculativeMemoryPlan) (eager : Bool) (W : Finset DraftWarmComponentKey)
    (b c : Nat) (a : DraftRouteAdmission) : Prop where
  batchSize : a.batchSize = b
  catchupTokens : a.catchupTokens = c
  routeKeys : ∃ p β n, BucketServes P eager W b c p β ∧
    (∀ k, Admits P p k (DraftRouteRegistry.catchupFamilyOf c) ↔ 1 ≤ k ∧ k ≤ n) ∧
    a.routeKeys = (List.range' 1 n).map
      (routeKey eager β · (DraftRouteRegistry.catchupFamilyOf c)) ∧
    ∀ p' β', BucketServes P eager W b c p' β' → β ≤ β'

private theorem Admits.one (h : Admits P p k F) : Admits P p 1 F :=
  ⟨le_rfl, h.pos.trans h.le_cap, h.pos.trans h.le_len, (minimumWork_mono h.pos).trans h.work⟩

instance : Std.Total fun a b : DraftRouteKey => a.effectiveK ≤ b.effectiveK :=
  ⟨fun a b => Nat.le_total a.effectiveK b.effectiveK⟩

instance : IsTrans DraftRouteKey fun a b => a.effectiveK ≤ b.effectiveK :=
  ⟨fun _ _ _ => Nat.le_trans⟩

private theorem DraftRouteAdmission.make_ok {print : String} {b c : Nat} {keys : List DraftRouteKey}
    (hb : 1 ≤ b) (hprint : print ≠ "")
    (hkeys : keys.map DraftRouteKey.effectiveK = List.range' 1 keys.length) :
    ∃ a, DraftRouteAdmission.make draftRouteSchema print b c keys = .ok a ∧ a.batchSize = b ∧
      a.catchupTokens = c ∧ a.routeKeys = keys := by
  unfold DraftRouteAdmission.make
  rw [dif_pos rfl, dif_pos hb, dif_pos hprint, dif_pos hkeys]
  exact ⟨_, rfl, rfl, rfl, rfl⟩

private theorem PositivePlan.lookupKeys_eq (h : PositivePlan P) {W : Finset DraftWarmComponentKey}
    {c n : Nat} (hadj : Adjacent p β (0 :: routeBatchBuckets P eager))
    (hwarm : routeComponents P eager β (DraftRouteRegistry.catchupFamilyOf c) ⊆ W)
    (hlive : b ≤ β)
    (hn : ∀ k, Admits P p k (DraftRouteRegistry.catchupFamilyOf c) ↔ 1 ≤ k ∧ k ≤ n) :
    (((warmedRegistry digests P eager backend W).candidates b c).filter
        fun key => decide (key.batchBucket = β)).insertionSort
          (fun a b => a.effectiveK ≤ b.effectiveK) =
      (List.range' 1 n).map (routeKey eager β · (DraftRouteRegistry.catchupFamilyOf c)) := by
  obtain ⟨F, hF⟩ : ∃ F, F = DraftRouteRegistry.catchupFamilyOf c := ⟨_, rfl⟩
  obtain ⟨found, hfound⟩ : ∃ found, found =
      (warmedRegistry digests P eager backend W).candidates b c := ⟨_, rfl⟩
  have hincreasing := routeBatchBuckets_increasing P eager (h.routeBatchCap_pos eager)
  have hperm := List.perm_insertionSort
    (fun a b : DraftRouteKey => a.effectiveK ≤ b.effectiveK)
    (found.filter fun key => decide (key.batchBucket = β))
  have hmem : ∀ key, key ∈ found.filter (fun key => decide (key.batchBucket = β)) ↔
      key ∈ (List.range' 1 n).map (routeKey eager β · F) := by
    intro key
    rw [List.mem_filter, hfound, h.mem_candidates, decide_eq_true_eq, List.mem_map, ← hF]
    constructor
    · rintro ⟨⟨p', γ, k, hadj', hadmits', -, -, rfl⟩, hγ⟩
      obtain rfl : γ = β := hγ
      obtain rfl := hadj.left_unique hincreasing hadj'
      rw [hF] at hadmits'
      obtain ⟨h1, h2⟩ := (hn k).mp hadmits'
      exact ⟨k, List.mem_range'_1.mpr ⟨h1, by omega⟩, rfl⟩
    · rintro ⟨k, hk, rfl⟩
      obtain ⟨h1, h2⟩ := List.mem_range'_1.mp hk
      have hadmits := (hn k).mpr ⟨h1, by omega⟩
      rw [← hF] at hadmits hwarm
      exact ⟨⟨p, β, k, hadj, hadmits, hwarm, hlive, rfl⟩, rfl⟩
  have hnodup : (found.filter fun key => decide (key.batchBucket = β)).Nodup := by
    rw [hfound]
    exact ((h.keys_nodup digests eager backend W).filter _).filter _
  have hinj : Function.Injective (routeKey eager β · F) := fun i j hij =>
    congrArg DraftRouteKey.effectiveK hij
  have hsame := hperm.trans ((List.perm_ext_iff_of_nodup hnodup
    ((List.nodup_range' (s := 1) (n := n)).map hinj)).mpr hmem)
  have hsorted : ((List.range' 1 n).map (routeKey eager β · F)).Pairwise
      fun a b => a.effectiveK ≤ b.effectiveK :=
    List.pairwise_map.mpr ((List.pairwise_lt_range' (s := 1) (n := n)).imp
      fun hlt => Nat.le_of_lt hlt)
  rw [← hfound, ← hF]
  refine List.Perm.eq_of_pairwise ?_ (List.pairwise_insertionSort _ _) hsorted hsame
  intro a a' ha ha' hle hle'
  obtain ⟨i, -, rfl⟩ := List.mem_map.mp ((hmem a).mp (hperm.mem_iff.mp ha))
  obtain ⟨j, -, rfl⟩ := List.mem_map.mp ha'
  exact congrArg (routeKey eager β · F) (Nat.le_antisymm hle hle')

private theorem PositivePlan.resolve_cases (h : PositivePlan P) (digests : WorkspaceDigests)
    (eager : Bool) (backend : String) (W : Finset DraftWarmComponentKey) (b c : Nat) :
    (warmedRegistry digests P eager backend W).resolve b c = .ok none ∧
        (b < 1 ∨ ∀ p β, ¬ BucketServes P eager W b c p β) ∨
    ∃ a, (warmedRegistry digests P eager backend W).resolve b c = .ok (some a) ∧
      Resolved P eager W b c a := by
  unfold DraftRouteRegistry.resolve
  by_cases hb : b < 1
  · rw [if_pos hb]
    exact Or.inl ⟨rfl, Or.inl hb⟩
  rw [if_neg hb]
  dsimp only
  have hserved : ∀ p β, BucketServes P eager W b c p β →
      β ∈ ((warmedRegistry digests P eager backend W).candidates b c).map
        DraftRouteKey.batchBucket := by
    intro p β hserves
    have hcandidate : routeKey eager β 1 (DraftRouteRegistry.catchupFamilyOf c) ∈
        (warmedRegistry digests P eager backend W).candidates b c :=
      h.mem_candidates.mpr
        ⟨p, β, 1, hserves.adjacent, hserves.admits, hserves.warmed, hserves.live, rfl⟩
    exact List.mem_map_of_mem (f := DraftRouteKey.batchBucket) hcandidate
  cases hmin : (((warmedRegistry digests P eager backend W).candidates b c).map
      DraftRouteKey.batchBucket).min? with
  | none =>
    refine Or.inl ⟨rfl, Or.inr fun p β hserves => ?_⟩
    have hmem := hserved p β hserves
    rw [List.min?_eq_none_iff.mp hmin] at hmem
    exact List.not_mem_nil hmem
  | some β =>
    right
    dsimp only
    obtain ⟨hβmem, hβle⟩ := List.min?_eq_some_iff.mp hmin
    obtain ⟨key, hkey, hβ⟩ := List.mem_map.mp hβmem
    obtain ⟨p, γ, k, hadj, hadmits, hwarm, hlive, rfl⟩ := h.mem_candidates.mp hkey
    obtain rfl : γ = β := hβ
    obtain ⟨n, hn⟩ := admits_iff_le P p (DraftRouteRegistry.catchupFamilyOf c)
    rw [h.lookupKeys_eq hadj hwarm hlive hn]
    obtain ⟨keys, hkeys⟩ : ∃ keys, keys = (List.range' 1 n).map
      (routeKey eager γ · (DraftRouteRegistry.catchupFamilyOf c)) := ⟨_, rfl⟩
    have hcontiguous : keys.map DraftRouteKey.effectiveK = List.range' 1 keys.length := by
      rw [hkeys, List.map_map, List.length_map, List.length_range']
      exact List.map_id _
    rw [← hkeys, if_neg (not_not.mpr hcontiguous)]
    obtain ⟨a, ha, hbatch, hcatchup, hroute⟩ := DraftRouteAdmission.make_ok (c := c)
      (Nat.not_lt.mp hb) (digests.plan backend P).ne_empty hcontiguous
    refine ⟨a, (Call.except_bind_of_ok ha).trans rfl, hbatch, hcatchup, p, γ, n,
      ⟨hadj, hwarm, hlive, hadmits.one⟩, hn, hroute.trans hkeys, ?_⟩
    intro p' β' hserves
    exact hβle β' (hserved p' β' hserves)

/-! ### All components warmed -/

private theorem subset_desiredWarmComponents {R : DraftRouteRegistry} {entry : DraftRouteEntry}
    (h : entry ∈ R.entries) : entry.requiredWarmComponents ⊆ R.desiredWarmComponents := by
  unfold DraftRouteRegistry.desiredWarmComponents
  generalize R.entries = entries at h
  induction entries with
  | nil => exact absurd h List.not_mem_nil
  | cons e entries ih =>
    rw [List.foldr_cons]
    rcases List.mem_cons.mp h with rfl | h
    · exact Finset.subset_union_left
    · exact (ih h).trans Finset.subset_union_right

private theorem serves_of_admits {c : Nat} (hadj : Adjacent p β (0 :: routeBatchBuckets P eager))
    (hlive : b ≤ β) (hadmits : Admits P p 1 (DraftRouteRegistry.catchupFamilyOf c)) :
    BucketServes P eager (warmedRegistry digests P eager backend ∅).desiredWarmComponents b c p β := by
  have hmem : routeEntry digests P eager backend β 1 (DraftRouteRegistry.catchupFamilyOf c) ∈
      (warmedRegistry digests P eager backend ∅).entries :=
    mem_registryEntries.mpr ⟨p, β, 1, _, hadj, hadmits, rfl⟩
  exact ⟨hadj, subset_desiredWarmComponents hmem, hlive, hadmits⟩

private theorem admits_of_work {c K : Nat} (hp : p < b) (hK : 1 ≤ K) (hcap : K ≤ routeKCap P)
    (hlen : K ≤ P.maxModelLen - 2) (hwork : c + b * (K + 1) ≤ P.maxNumBatchedTokens) :
    Admits P p K (DraftRouteRegistry.catchupFamilyOf c) := by
  refine ⟨hK, hcap, hlen, ?_⟩
  have hmul : (p + 1) * (K + 1) ≤ b * (K + 1) := Nat.mul_le_mul_right _ hp
  unfold DraftRouteRegistry.catchupFamilyOf
  by_cases hc : c = 0
  · rw [if_pos hc]
    change (p + 1) * (K + 1) ≤ _
    omega
  · rw [if_neg hc]
    change (p + 1) * (K + 1) + 1 ≤ _
    omega

/-- A returned admission uses the smallest registered bucket that holds the batch. -/
private theorem Resolved.bucket_isLeast {c : Nat} {a : DraftRouteAdmission}
    (hincreasing : (0 :: routeBatchBuckets P eager).Pairwise (· < ·))
    (h : Resolved P eager (warmedRegistry digests P eager backend ∅).desiredWarmComponents b c a) :
    ∃ β, IsLeast {β | β ∈ (warmedRegistry digests P eager backend ∅).routerAdmittedKeys.map
        DraftRouteKey.batchBucket ∧ b ≤ β} β ∧
      ∀ key ∈ a.routeKeys, key ∈ (warmedRegistry digests P eager backend ∅).routerAdmittedKeys ∧
        key.batchBucket = β ∧ key.catchupFamily = DraftRouteRegistry.catchupFamilyOf c := by
  obtain ⟨p, β, n, hserves, hn, hkeys, hleast⟩ := h.routeKeys
  have hregistered : ∀ k, Admits P p k (DraftRouteRegistry.catchupFamilyOf c) →
      routeKey eager β k (DraftRouteRegistry.catchupFamilyOf c) ∈
        (warmedRegistry digests P eager backend ∅).routerAdmittedKeys := fun k hk =>
    List.mem_map.mpr ⟨routeEntry digests P eager backend β k _,
      mem_registryEntries.mpr ⟨p, β, k, _, hserves.adjacent, hk, rfl⟩, rfl⟩
  refine ⟨β, ⟨⟨List.mem_map.mpr ⟨_, hregistered 1 hserves.admits, rfl⟩, hserves.live⟩, ?_⟩, ?_⟩
  · rintro γ ⟨hγ, hlive⟩
    obtain ⟨key, hkey, rfl⟩ := List.mem_map.mp hγ
    obtain ⟨entry, hentry, rfl⟩ := List.mem_map.mp hkey
    obtain ⟨p', γ, k, F, hadj, -, rfl⟩ := mem_registryEntries.mp hentry
    change b ≤ γ at hlive
    change β ≤ γ
    by_contra hlt
    -- A smaller bucket has a smaller live batch, so it admits the family too.
    have hγp : γ ≤ p := by
      by_contra hcon
      exact hlt (hserves.adjacent.le_of_lt hincreasing
        (List.mem_cons_of_mem 0 hadj.mem_right) (Nat.lt_of_not_le hcon))
    have hpp : p' ≤ p := (Nat.le_of_lt (hadj.lt hincreasing)).trans hγp
    have hadmits : Admits P p' 1 (DraftRouteRegistry.catchupFamilyOf c) :=
      ⟨le_rfl, hserves.admits.le_cap, hserves.admits.le_len,
        (minimumWork_le_of_le hpp).trans hserves.admits.work⟩
    exact hlt (hleast p' γ (serves_of_admits hadj hlive hadmits))
  · intro key hkey
    rw [hkeys] at hkey
    obtain ⟨k, hk, rfl⟩ := List.mem_map.mp hkey
    obtain ⟨h1, h2⟩ := List.mem_range'_1.mp hk
    exact ⟨hregistered k ((hn k).mpr ⟨h1, by omega⟩), rfl, rfl⟩

private theorem DraftRouteAdmission.keyFor_of_le {a : DraftRouteAdmission} {K : Nat} (hK : 1 ≤ K)
    (hle : K ≤ a.maxEffectiveK) : ∃ key, a.keyFor K = some key ∧ key.effectiveK = K := by
  have hlt : K - 1 < a.routeKeys.length := by
    unfold DraftRouteAdmission.maxEffectiveK at hle
    omega
  refine ⟨a.routeKeys[K - 1], ?_, ?_⟩
  · unfold DraftRouteAdmission.keyFor
    rw [if_pos ⟨hK, hle⟩, List.getElem?_eq_getElem hlt]
  · have h := congrArg (fun l => l[K - 1]?) a.contiguous
    simp only [List.getElem?_map, List.getElem?_eq_getElem hlt, Option.map_some] at h
    rw [List.getElem?_eq_getElem (by simpa using hlt), List.getElem_range'] at h
    have := Option.some.inj h
    omega

private theorem DraftRouteAdmission.bounds_of_keyFor (a : DraftRouteAdmission) {K : Nat}
    {key : DraftRouteKey} (h : a.keyFor K = some key) : 1 ≤ K ∧ K ≤ a.maxEffectiveK := by
  unfold DraftRouteAdmission.keyFor at h
  split at h
  · next hrange => exact hrange
  · cases h

private theorem DraftRouteAdmission.mem_of_keyFor (a : DraftRouteAdmission) {K : Nat}
    {key : DraftRouteKey} (h : a.keyFor K = some key) : key ∈ a.routeKeys := by
  unfold DraftRouteAdmission.keyFor at h
  split at h
  · exact List.mem_of_getElem? h
  · cases h

private theorem PositivePlan.resolve_complete (h : PositivePlan P) {c K : Nat} (hb : 1 ≤ b)
    (hcap : b ≤ routeBatchCap P eager) (hK : 1 ≤ K) (hKcap : K ≤ routeKCap P)
    (hlen : K ≤ P.maxModelLen - 2) (hwork : c + b * (K + 1) ≤ P.maxNumBatchedTokens) :
    ∃ a key, (warmedRegistry digests P eager backend
        (warmedRegistry digests P eager backend ∅).desiredWarmComponents).resolve b c =
          .ok (some a) ∧ a.keyFor K = some key ∧ key.effectiveK = K := by
  have hincreasing := routeBatchBuckets_increasing P eager (h.routeBatchCap_pos eager)
  obtain ⟨p, β, hadj, hp, hβ⟩ := exists_adjacent (a := 0) hb
    (routeBatchCap_mem (h.routeBatchCap_pos eager)) hcap
  have hadmits := admits_of_work hp hK hKcap hlen hwork
  have hserves : BucketServes P eager
      (warmedRegistry digests P eager backend ∅).desiredWarmComponents b c p β :=
    serves_of_admits hadj hβ hadmits.one
  rcases h.resolve_cases digests eager backend
    (warmedRegistry digests P eager backend ∅).desiredWarmComponents b c with
    ⟨-, hsmall | hnone⟩ | ⟨a, ha, hresolved⟩
  · omega
  · exact absurd hserves (hnone p β)
  · obtain ⟨p', β', n, hserves', hn, hkeys, hleast⟩ := hresolved.routeKeys
    have hle : β' ≤ β := hleast p β hserves
    have hge : β ≤ β' := hadj.le_of_lt hincreasing
      (List.mem_cons_of_mem 0 hserves'.adjacent.mem_right) (Nat.lt_of_lt_of_le hp hserves'.live)
    obtain rfl := Nat.le_antisymm hle hge
    obtain rfl := hadj.left_unique hincreasing hserves'.adjacent
    have hmax : K ≤ a.maxEffectiveK := by
      unfold DraftRouteAdmission.maxEffectiveK
      rw [hkeys, List.length_map, List.length_range']
      exact ((hn K).mp hadmits).2
    obtain ⟨key, hkey, hkeyK⟩ := DraftRouteAdmission.keyFor_of_le hK hmax
    exact ⟨a, key, ha, hkey, hkeyK⟩

private theorem PositivePlan.graphBuckets_eq (h : PositivePlan P) (digests : WorkspaceDigests)
    (backend : String) (W : Finset DraftWarmComponentKey) (hlen : 3 ≤ P.maxModelLen) :
    (warmedRegistry digests P false backend W).graphBuckets =
      draftGraphBatchBuckets (routeBatchCap P false) := by
  have hincreasing := routeBatchBuckets_increasing P false (h.routeBatchCap_pos false)
  have hadmits : ∀ p β, Adjacent p β (0 :: routeBatchBuckets P false) → Admits P p 1 .none := by
    intro p β hadj
    have hp : p + 1 ≤ P.batchSize := ((hadj.lt hincreasing).trans_le
      (mem_routeBatchBuckets hadj.mem_right)).trans_le (routeBatchCap_le P false)
    have hk := h.k_pos
    refine ⟨le_rfl, le_min hk (by decide), by omega, ?_⟩
    calc (p + 1) * (1 + 1) ≤ P.batchSize * (P.maxEffectiveK + 1) :=
          Nat.mul_le_mul hp (Nat.succ_le_succ hk)
      _ ≤ P.maxNumBatchedTokens := h.rows_le
  have hmem : ∀ β, β ∈ (((warmedRegistry digests P false backend W).entries.filter
      fun entry => entry.key.executionMode = .cudaGraph).map
        fun entry => entry.key.batchBucket).dedup ↔ β ∈ routeBatchBuckets P false := by
    intro β
    rw [List.mem_dedup, List.mem_map]
    constructor
    · rintro ⟨entry, hentry, rfl⟩
      obtain ⟨p, γ, k, F, hadj, -, rfl⟩ := mem_registryEntries.mp (List.mem_filter.mp hentry).1
      exact hadj.mem_right
    · intro hβ
      obtain ⟨p, hadj⟩ := exists_adjacent_of_mem (a := 0) hβ
      refine ⟨routeEntry digests P false backend β 1 .none, List.mem_filter.mpr ⟨?_, ?_⟩, rfl⟩
      · exact mem_registryEntries.mpr ⟨p, β, 1, .none, hadj, hadmits p β hadj, rfl⟩
      · exact decide_eq_true rfl
  have hsorted := List.pairwise_insertionSort (α := Nat) (· ≤ ·)
    (((warmedRegistry digests P false backend W).entries.filter
      fun entry => entry.key.executionMode = .cudaGraph).map
        fun entry => entry.key.batchBucket).dedup
  refine List.Perm.eq_of_pairwise (fun _ _ _ _ => Nat.le_antisymm) hsorted
    (hincreasing.of_cons.imp fun hlt => Nat.le_of_lt hlt) ?_
  exact (List.perm_insertionSort _ _).trans ((List.perm_ext_iff_of_nodup
    (List.nodup_dedup _) (hincreasing.of_cons.imp fun hlt => Nat.ne_of_lt hlt)).mpr hmem)

/-! ### Verifier shapes -/

private theorem mem_verifierShapes {blockSize numBlocks tokens len batch k : Nat} :
    (batch, k) ∈ verifierShapes P blockSize numBlocks tokens len ↔
      (1 ≤ batch ∧ batch ≤ min maxVerifyBatch P.batchSize) ∧
      (1 ≤ k ∧ k ≤ min maxVerifyK P.maxEffectiveK) ∧
      verifierShapeFits blockSize numBlocks tokens len batch k = true := by
  unfold verifierShapes
  simp only [List.mem_flatMap, List.mem_map, List.mem_filter, List.mem_range'_1, Prod.mk.injEq]
  constructor
  · rintro ⟨batch', hbatch, k', ⟨hk, hfits⟩, rfl, rfl⟩
    exact ⟨⟨hbatch.1, by omega⟩, ⟨hk.1, by omega⟩, hfits⟩
  · rintro ⟨hbatch, hk, hfits⟩
    exact ⟨batch, ⟨hbatch.1, by omega⟩, k, ⟨⟨hk.1, by omega⟩, hfits⟩, rfl, rfl⟩

private theorem verifierShapes_antitone {blockSize numBlocks tokens len batch i j : Nat} (hi : 1 ≤ i)
    (hij : i ≤ j) (h : (batch, j) ∈ verifierShapes P blockSize numBlocks tokens len) :
    (batch, i) ∈ verifierShapes P blockSize numBlocks tokens len := by
  obtain ⟨hbatch, hj, hfits⟩ := mem_verifierShapes.mp h
  refine mem_verifierShapes.mpr ⟨hbatch, ⟨hi, hij.trans hj.2⟩, ?_⟩
  have hnot := of_decide_eq_true hfits
  have hblocks : batch * ((i + 1 + blockSize - 1) / blockSize) ≤
      batch * ((j + 1 + blockSize - 1) / blockSize) := by
    refine Nat.mul_le_mul_left _ (Nat.div_le_div_right ?_)
    omega
  have hwork : batch * (2 * i + 1) ≤ batch * (2 * j + 1) := by gcongr
  refine decide_eq_true fun hcon => hnot ?_
  omega

/-- The verifier keeps an initial segment of an admission, which is an admission again. -/
private theorem verifierRouteReady_filter (a : DraftRouteAdmission) (matchesWarmup : Bool)
    (blockSize numBlocks tokens len batch : Nat) :
    (∃ n, a.routeKeys.filter (fun key => verifierRouteReady matchesWarmup
        (verifierShapes P blockSize numBlocks tokens len) batch key.effectiveK) =
          a.routeKeys.take n) ∧
      ∃ a', a.replaceKeys (a.routeKeys.filter fun key => verifierRouteReady matchesWarmup
        (verifierShapes P blockSize numBlocks tokens len) batch key.effectiveK) = .ok a' := by
  obtain ⟨n, hn⟩ : ∃ n, a.routeKeys.filter (fun key => verifierRouteReady matchesWarmup
      (verifierShapes P blockSize numBlocks tokens len) batch key.effectiveK) =
        a.routeKeys.take n := by
    have hfilter : a.routeKeys.filter (fun key => verifierRouteReady matchesWarmup
        (verifierShapes P blockSize numBlocks tokens len) batch key.effectiveK) =
        a.routeKeys.filter fun key => (decide (key.effectiveK < 1)
          || verifierRouteReady matchesWarmup (verifierShapes P blockSize numBlocks tokens len)
            batch key.effectiveK) := by
      refine List.filter_congr fun key hkey => ?_
      have hrange : key.effectiveK ∈ List.range' 1 a.routeKeys.length := by
        rw [← a.contiguous]
        exact List.mem_map_of_mem hkey
      have hpos := (List.mem_range'_1.mp hrange).1
      simp [Nat.not_lt.mpr hpos]
    rw [hfilter]
    refine filter_prefix_of_antitone (q := fun k => decide (k < 1) || verifierRouteReady
      matchesWarmup (verifierShapes P blockSize numBlocks tokens len) batch k) a.contiguous ?_
    intro i j hij hj
    by_cases hi : i < 1
    · simp [hi]
    · have hjpos : ¬ j < 1 := by omega
      unfold verifierRouteReady at hj ⊢
      simp only [hjpos, hi, decide_false, Bool.false_or, Bool.and_eq_true,
        decide_eq_true_eq] at hj ⊢
      exact ⟨hj.1, verifierShapes_antitone (Nat.not_lt.mp hi) hij hj.2⟩
  refine ⟨⟨n, hn⟩, ?_⟩
  rw [hn]
  have hkeys : (a.routeKeys.take n).map DraftRouteKey.effectiveK =
      List.range' 1 (a.routeKeys.take n).length := by
    rw [List.map_take, a.contiguous, take_range', List.length_take]
  unfold DraftRouteAdmission.replaceKeys
  rw [dif_pos hkeys]
  exact ⟨_, rfl⟩

/-! ### Main results -/

private theorem mem_workspaceCertifiedKeys (h : PositivePlan P) {W : Finset DraftWarmComponentKey}
    {key : DraftRouteKey}
    (hkey : key ∈ (warmedRegistry digests P eager backend W).routerAdmittedKeys) :
    key ∈ (warmedRegistry digests P eager backend W).workspaceCertifiedKeys := by
  obtain ⟨entry, hentry, rfl⟩ := List.mem_map.mp hkey
  obtain ⟨p, β, k, F, hadj, hadmits, rfl⟩ := mem_registryEntries.mp hentry
  refine List.mem_map.mpr ⟨_, List.mem_filter.mpr ⟨hentry, ?_⟩, rfl⟩
  exact h.certified W (mem_routeBatchBuckets hadj.mem_right) hadmits.le_cap

private theorem Resolved.warmed {W : Finset DraftWarmComponentKey} {c : Nat} {a : DraftRouteAdmission}
    (h : Resolved P eager W b c a) {key : DraftRouteKey} (hkey : key ∈ a.routeKeys) :
    ∃ entry ∈ (warmedRegistry digests P eager backend W).entries,
      entry.key = key ∧ entry.requiredWarmComponents ⊆ W := by
  obtain ⟨p, β, n, hserves, hn, hkeys, -⟩ := h.routeKeys
  rw [hkeys] at hkey
  obtain ⟨k, hk, rfl⟩ := List.mem_map.mp hkey
  obtain ⟨h1, h2⟩ := List.mem_range'_1.mp hk
  exact ⟨routeEntry digests P eager backend β k _, mem_registryEntries.mpr
    ⟨p, β, k, _, hserves.adjacent, (hn k).mpr ⟨h1, by omega⟩, rfl⟩, rfl, hserves.warmed⟩

private theorem withWarmedComponents_eq (h : PositivePlan P) {V W : Finset DraftWarmComponentKey}
    {R : DraftRouteRegistry}
    (hR : (warmedRegistry digests P eager backend V).withWarmedComponents W = .ok R) :
    R = warmedRegistry digests P eager backend W := by
  obtain ⟨hsub, -⟩ := Call.except_guard hR
  exact Except.ok.inj (hR.symm.trans (h.withWarmedComponents_ok digests eager backend
    (not_not.mp hsub)))

private theorem registered_covered {W : Finset DraftWarmComponentKey}
    {key : DraftRouteKey}
    (hkey : key ∈ (warmedRegistry digests P eager backend W).routerAdmittedKeys) :
    key.batchBucket ≤ P.batchSize ∧ key.effectiveK ≤ P.maxEffectiveK := by
  obtain ⟨entry, hentry, rfl⟩ := List.mem_map.mp hkey
  obtain ⟨p, β, k, F, hadj, hadmits, rfl⟩ := mem_registryEntries.mp hentry
  exact ⟨(mem_routeBatchBuckets hadj.mem_right).trans (routeBatchCap_le P eager),
    hadmits.le_cap.trans (min_le_left _ _)⟩

/-- Every exact geometry of a plan fits it, so no registered route is refused for capacity: not by
its certificate, and not by the plan of a derived proposal length. -/
theorem exact_routes_fit (vocabSize configuredK maxNumSeqs maxNumBatchedTokens maxModelLen : Nat)
    (targetDtype draftDtype : FloatingDtype) (hv : 0 < vocabSize) (hk : 0 < configuredK)
    (hs : 0 < maxNumSeqs) (ht : 0 < maxNumBatchedTokens) (hl : 0 < maxModelLen) :
    ∃ P, planSpeculativeWorkspace vocabSize configuredK maxNumSeqs maxNumBatchedTokens
        maxModelLen targetDtype draftDtype = .ok P ∧
      (∀ b k, 1 ≤ b → b ≤ P.batchSize → 1 ≤ k → k ≤ P.maxEffectiveK →
        speculativeRouteFitsPlan P b k = true ∧
        ∃ E, planExactSpeculativeWorkspace P b k = .ok E ∧ E.batchSize = b ∧
          E.maxEffectiveK = k ∧ E.modeledLivePeakBytes ≤ P.modeledLivePeakBytes ∧
          E.reservationBytes ≤ P.reservationBytes) ∧
      ∀ (digests : WorkspaceDigests) (eager : Bool) (backend : String) (R : DraftRouteRegistry),
        buildDraftRouteRegistry digests P eager backend = .ok R →
        (∀ key ∈ R.routerAdmittedKeys, ∀ live catchup effectiveK message,
          certifySpeculativeWorkspace (P.workspace digests backend) live catchup effectiveK key ≠
            .error (.speculativeMemoryPlanningError message)) ∧
        ∀ (rows : List SpecPlanRow) (maxK tokens cycleId : Nat) (a : DraftRouteAdmission),
          (∀ key ∈ a.routeKeys, key ∈ R.routerAdmittedKeys) →
          ∀ key, a.keyFor (deriveSpeculativeEffectiveK rows maxK tokens a.maxEffectiveK) =
              some key →
            ∀ message, buildSpeculativeStepPlan (P.workspace digests backend) cycleId rows maxK
                a.maxEffectiveK (deriveSpeculativeEffectiveK rows maxK tokens a.maxEffectiveK)
                tokens (some key) none ≠ .error (.speculativeMemoryPlanningError message) := by
  obtain ⟨P, hP, -, -, -, -, hcase⟩ := planSpeculativeWorkspace_spec targetDtype draftDtype hv hk
    hs ht hl
  refine ⟨P, hP, ?_, ?_⟩
  · intro b k hb hbP hk hkP
    have hpos := positivePlan_of_pos hP (hk.trans hkP)
    obtain ⟨E, hE, hbE, hkE, -, -, hpeak, hreserve⟩ := hpos.exact hb hbP hk hkP
    exact ⟨hpos.routeFits hb hbP hk hkP, E, hE, hbE, hkE, hpeak, hreserve⟩
  · intro digests eager backend R hR
    rcases hcase with ⟨hzero, hbatch⟩ | ⟨-, hpos⟩
    · -- Without a positive geometry the registry is empty, and so is every admission over it.
      have hnone : R.routerAdmittedKeys = [] := by
        unfold buildDraftRouteRegistry at hR
        rw [if_pos (Or.inl hbatch)] at hR
        obtain ⟨_, -, hR⟩ := Call.except_bind_ok hR
        rw [← Except.ok.inj hR]
        rfl
      rw [hnone]
      refine ⟨fun key hkey => absurd hkey List.not_mem_nil, ?_⟩
      intro rows maxK tokens cycleId a ha key hkey
      exact absurd (ha key (a.mem_of_keyFor hkey)) List.not_mem_nil
    · obtain rfl : R = warmedRegistry digests P eager backend ∅ :=
        Except.ok.inj (hR.symm.trans (hpos.buildDraftRouteRegistry_ok digests eager backend))
      refine ⟨?_, ?_⟩
      · intro key hkey live catchup effectiveK message
        obtain ⟨hbucket, hkP⟩ := registered_covered hkey
        exact hpos.certify_neverPlanningError digests backend hbucket hkP message
      · intro rows maxK tokens cycleId a ha key hkey message
        obtain ⟨hbucket, hkP⟩ := registered_covered (ha key (a.mem_of_keyFor hkey))
        obtain ⟨hk1, -⟩ := a.bounds_of_keyFor hkey
        have hrows : rows ≠ [] := by
          rintro rfl
          simp [deriveSpeculativeEffectiveK] at hk1
        have hlegal : LegalK rows maxK tokens a.maxEffectiveK
            (deriveSpeculativeEffectiveK rows maxK tokens a.maxEffectiveK) :=
          (deriveSpeculativeEffectiveK_isGreatest hrows).1
        have hcap : a.maxEffectiveK ≤ P.maxEffectiveK := by
          obtain ⟨last, hlast, hlastK⟩ := DraftRouteAdmission.keyFor_of_le (a := a)
            (hk1.trans (hlegal.le_cap.trans (min_le_right _ _))) le_rfl
          have hcovered := (registered_covered (ha last (a.mem_of_keyFor hlast))).2
          rwa [hlastK] at hcovered
        exact hpos.build_neverPlanningError digests backend cycleId hlegal hk1 hcap hbucket hkP
          message

theorem exact_routes_fit_sample :
    ∃ P, planSpeculativeWorkspace 16 2 2 8 8 .float16 .float16 = .ok P ∧
      ∃ E, planExactSpeculativeWorkspace P 1 2 = .ok E ∧
        E.reservationBytes ≤ P.reservationBytes := by
  obtain ⟨P, hP, hexact, -⟩ := exact_routes_fit 16 2 2 8 8 .float16 .float16 (by decide) (by decide)
    (by decide) (by decide) (by decide)
  obtain rfl : SpeculativeMemoryPlan.sample = P := Except.ok.inj hP
  obtain ⟨-, E, hE, -, -, -, hreserve⟩ := hexact 1 2 (by decide) (by decide) (by decide) (by decide)
  exact ⟨_, rfl, E, hE, hreserve⟩

/-- The registry of a planned workspace is well formed and certified. Fully warmed, its lookup
returns the lengths of the smallest bucket, and every length a live batch can run; with fewer
components warmed it returns warmed keys only; and the verifier keeps a prefix of an admission. -/
theorem route_registry_exact (digests : WorkspaceDigests) (eager : Bool) (backend : String)
    (vocabSize configuredK maxNumSeqs maxNumBatchedTokens maxModelLen : Nat)
    (targetDtype draftDtype : FloatingDtype) (P : SpeculativeMemoryPlan)
    (hP : planSpeculativeWorkspace vocabSize configuredK maxNumSeqs maxNumBatchedTokens
      maxModelLen targetDtype draftDtype = .ok P)
    (hlen : 3 ≤ P.maxModelLen) (htokens : 3 ≤ P.maxNumBatchedTokens) :
    ∃ R, buildDraftRouteRegistry digests P eager backend = .ok R ∧
      (∀ key ∈ R.routerAdmittedKeys, key ∈ R.workspaceCertifiedKeys) ∧
      (eager = false → R.graphBuckets = draftGraphBatchBuckets (routeBatchCap P eager)) ∧
      (∃ Rw, R.withWarmedComponents R.desiredWarmComponents = .ok Rw ∧ ∀ b c,
        (∃ result, Rw.resolve b c = .ok result) ∧
        (∀ a, Rw.resolve b c = .ok (some a) → a.batchSize = b ∧ a.catchupTokens = c ∧
          a.routeKeys.map DraftRouteKey.effectiveK = List.range' 1 a.routeKeys.length ∧
          ∃ β, IsLeast {β | β ∈ R.routerAdmittedKeys.map DraftRouteKey.batchBucket ∧ b ≤ β} β ∧
            ∀ key ∈ a.routeKeys, key ∈ R.routerAdmittedKeys ∧ key.batchBucket = β ∧
              key.catchupFamily = DraftRouteRegistry.catchupFamilyOf c) ∧
        (1 ≤ b → b ≤ routeBatchCap P eager → ∀ K, 1 ≤ K → K ≤ P.maxEffectiveK →
          K ≤ maxDraftRouteEffectiveK → K ≤ P.maxModelLen - 2 →
          c + b * (K + 1) ≤ P.maxNumBatchedTokens →
          ∃ a key, Rw.resolve b c = .ok (some a) ∧ a.keyFor K = some key ∧
            key.effectiveK = K)) ∧
      (∀ W Rw, R.withWarmedComponents W = .ok Rw → ∀ b c, (∃ result, Rw.resolve b c = .ok result) ∧
        ∀ a, Rw.resolve b c = .ok (some a) → ∀ key ∈ a.routeKeys,
          ∃ entry ∈ R.entries, entry.key = key ∧ entry.requiredWarmComponents ⊆ W) ∧
      (∀ (matchesWarmup : Bool) (blockSize numBlocks tokens len batch : Nat)
        (a : DraftRouteAdmission),
        (∃ n, a.routeKeys.filter (fun key => verifierRouteReady matchesWarmup
            (verifierShapes P blockSize numBlocks tokens len) batch key.effectiveK) =
              a.routeKeys.take n) ∧
          ∃ a', a.replaceKeys (a.routeKeys.filter fun key => verifierRouteReady matchesWarmup
            (verifierShapes P blockSize numBlocks tokens len) batch key.effectiveK) = .ok a') := by
  have hpos : PositivePlan P := positivePlan_of_limits hP (by omega) (by omega)
  have hincreasing := routeBatchBuckets_increasing P eager (hpos.routeBatchCap_pos eager)
  have htotal : ∀ W b c, ∃ result,
      (warmedRegistry digests P eager backend W).resolve b c = .ok result := by
    intro W b c
    rcases hpos.resolve_cases digests eager backend W b c with ⟨h, -⟩ | ⟨a, h, -⟩
    · exact ⟨none, h⟩
    · exact ⟨some a, h⟩
  have hresolved : ∀ W b c a,
      (warmedRegistry digests P eager backend W).resolve b c = .ok (some a) →
        Resolved P eager W b c a := by
    intro W b c a ha
    rcases hpos.resolve_cases digests eager backend W b c with ⟨h, -⟩ | ⟨a', h, hres⟩
    · exact absurd (Except.ok.inj (h.symm.trans ha)) (by simp)
    · obtain rfl : a' = a := Option.some.inj (Except.ok.inj (h.symm.trans ha))
      exact hres
  refine ⟨_, hpos.buildDraftRouteRegistry_ok digests eager backend,
    fun key hkey => mem_workspaceCertifiedKeys hpos hkey, ?_, ?_, ?_, ?_⟩
  · rintro rfl
    exact hpos.graphBuckets_eq digests backend ∅ hlen
  · refine ⟨_, hpos.withWarmedComponents_ok digests eager backend (Finset.Subset.refl _), ?_⟩
    intro b c
    refine ⟨htotal _ b c, ?_, ?_⟩
    · intro a ha
      have hres := hresolved _ b c a ha
      exact ⟨hres.batchSize, hres.catchupTokens, a.contiguous, hres.bucket_isLeast hincreasing⟩
    · intro hb hcap K hK hKP hK32 hKlen hwork
      exact hpos.resolve_complete hb hcap hK (le_min hKP hK32) hKlen hwork
  · intro W Rw hRw b c
    obtain rfl := withWarmedComponents_eq hpos hRw
    exact ⟨htotal W b c, fun a ha key hkey => (hresolved W b c a ha).warmed hkey⟩
  · intro matchesWarmup blockSize numBlocks tokens len batch a
    exact verifierRouteReady_filter a matchesWarmup blockSize numBlocks tokens len batch

theorem route_registry_exact_sample :
    ∃ R, buildDraftRouteRegistry .sample .sample false "fast" = .ok R ∧
      R.graphBuckets = [1, 2] := by
  obtain ⟨R, hR, -, hbuckets, -⟩ := route_registry_exact .sample false "fast" 16 2 2 8 8 .float16
    .float16 .sample rfl (by decide) (by decide)
  exact ⟨R, hR, (hbuckets rfl).trans (by decide)⟩

end NanoVllm
