/- module: NanoVllm/Sampling/Metadata
   layer: refinement
   digest: The buckets and the plan of a batch route every row to its own top-k and top-p. -/

import NanoVllm.Sampling.Filters

set_option autoImplicit false
set_option relaxedAutoImplicit false

open NanoVllm.Library

namespace NanoVllm

section Buckets

def rowsAt (rows : List (Int × List Nat)) (topK : Int) : List Nat :=
  (rows.find? fun entry => entry.1 = topK).elim [] Prod.snd

private theorem rowsAt_setdefaultAppend (rows : List (Int × List Nat)) (key : Int) (row : Nat)
    (topK : Int) :
    rowsAt (setdefaultAppend rows key row) topK
      = if key = topK then rowsAt rows topK ++ [row] else rowsAt rows topK := by
  induction rows with
  | nil => by_cases h : key = topK <;> simp [setdefaultAppend, rowsAt, h]
  | cons entry rest ih =>
    unfold setdefaultAppend
    by_cases hkey : entry.1 = key
    · rw [if_pos hkey]
      by_cases h : key = topK
      · simp [rowsAt, h, hkey.trans h]
      · have hne : entry.1 ≠ topK := fun heq => h (hkey.symm.trans heq)
        simp [rowsAt, h, hne]
    · rw [if_neg hkey]
      by_cases h : entry.1 = topK
      · have hne : key ≠ topK := fun heq => hkey (h.trans heq.symm)
        simp [rowsAt, h, hne]
      · have hrest := ih
        simp only [rowsAt] at hrest ⊢
        simpa [h] using hrest

private theorem keys_setdefaultAppend (rows : List (Int × List Nat)) (key : Int) (row : Nat) :
    (setdefaultAppend rows key row).map Prod.fst
      = if key ∈ rows.map Prod.fst then rows.map Prod.fst else rows.map Prod.fst ++ [key] := by
  induction rows with
  | nil => simp [setdefaultAppend]
  | cons entry rest ih =>
    unfold setdefaultAppend
    by_cases hkey : entry.1 = key
    · simp [hkey]
    · rw [if_neg hkey, List.map_cons, ih, List.map_cons]
      have hne : key ≠ entry.1 := fun h => hkey h.symm
      by_cases hmem : key ∈ rest.map Prod.fst <;> simp [hmem, hne]

variable {F : Type} [Field F] [LinearOrder F] (vocabSize : Nat)

private theorem rowsByTopK_fold (entries : List (RowSampling F × Nat)) (rows : List (Int × List Nat))
    (hkeys : (rows.map Prod.fst).Nodup) :
    let out := entries.foldl
      (fun rows entry =>
        match effectiveTopK vocabSize entry.1 with
        | none => rows
        | some topK => setdefaultAppend rows topK entry.2)
      rows
    (out.map Prod.fst).Nodup ∧
    (∀ topK, rowsAt out topK = rowsAt rows topK ++
      (entries.filter fun entry => effectiveTopK vocabSize entry.1 = some topK).map Prod.snd) ∧
    ∀ topK, topK ∈ out.map Prod.fst ↔ topK ∈ rows.map Prod.fst
      ∨ ∃ entry ∈ entries, effectiveTopK vocabSize entry.1 = some topK := by
  induction entries generalizing rows with
  | nil => exact ⟨hkeys, by simp, by simp⟩
  | cons entry entries ih =>
    simp only [List.foldl_cons]
    cases heff : effectiveTopK vocabSize entry.1 with
    | none =>
      obtain ⟨hnodup, hrows, hmem⟩ := ih rows hkeys
      refine ⟨hnodup, fun topK => ?_, fun topK => ?_⟩
      · rw [hrows topK, List.filter_cons_of_neg (by simp [heff])]
      · rw [hmem topK]
        simp [heff]
    | some key =>
      have hkeys' : ((setdefaultAppend rows key entry.2).map Prod.fst).Nodup := by
        rw [keys_setdefaultAppend]
        by_cases hold : key ∈ rows.map Prod.fst
        · rwa [if_pos hold]
        · rw [if_neg hold]
          exact List.nodup_append.mpr ⟨hkeys, List.nodup_singleton key, fun a ha b hb hab =>
            hold (by rwa [← List.mem_singleton.mp hb, ← hab])⟩
      obtain ⟨hnodup, hrows, hmem⟩ := ih (setdefaultAppend rows key entry.2) hkeys'
      refine ⟨hnodup, fun topK => ?_, fun topK => ?_⟩
      · rw [hrows topK, rowsAt_setdefaultAppend]
        by_cases h : key = topK
        · subst h
          rw [if_pos rfl, List.filter_cons_of_pos (by simp [heff]), List.map_cons,
            List.append_assoc]
          rfl
        · rw [if_neg h, List.filter_cons_of_neg (by simp [heff, h])]
      · rw [hmem topK, keys_setdefaultAppend]
        by_cases hold : key ∈ rows.map Prod.fst
        · rw [if_pos hold]
          constructor
          · rintro (h | ⟨other, hother, h⟩)
            · exact Or.inl h
            · exact Or.inr ⟨other, List.mem_cons_of_mem entry hother, h⟩
          · rintro (h | ⟨other, hother, h⟩)
            · exact Or.inl h
            · rcases List.mem_cons.mp hother with rfl | hother
              · obtain rfl : key = topK := Option.some.inj (heff.symm.trans h)
                exact Or.inl hold
              · exact Or.inr ⟨other, hother, h⟩
        · rw [if_neg hold, List.mem_append, List.mem_singleton]
          constructor
          · rintro ((h | rfl) | ⟨other, hother, h⟩)
            · exact Or.inl h
            · exact Or.inr ⟨entry, List.mem_cons_self, heff⟩
            · exact Or.inr ⟨other, List.mem_cons_of_mem entry hother, h⟩
          · rintro (h | ⟨other, hother, h⟩)
            · exact Or.inl (Or.inl h)
            · rcases List.mem_cons.mp hother with rfl | hother
              · exact Or.inl (Or.inr (Option.some.inj (heff.symm.trans h)).symm)
              · exact Or.inr ⟨other, hother, h⟩

def rowsWhere (params : List (RowSampling F)) (cond : RowSampling F → Bool) : List Nat :=
  (params.zipIdx.filter fun entry => cond entry.1).map Prod.snd

omit [Field F] [LinearOrder F] in
theorem mem_rowsWhere {params : List (RowSampling F)} {cond : RowSampling F → Bool} {r : Nat} :
    r ∈ rowsWhere params cond ↔ ∃ own, params[r]? = some own ∧ cond own = true := by
  simp only [rowsWhere, List.mem_map, List.mem_filter, Prod.exists, List.mem_zipIdx_iff_getElem?]
  constructor
  · rintro ⟨own, _, ⟨hget, hcond⟩, rfl⟩
    exact ⟨own, hget, hcond⟩
  · rintro ⟨own, hget, hcond⟩
    exact ⟨own, r, ⟨hget, hcond⟩, rfl⟩

omit [Field F] [LinearOrder F] in
private theorem rowsWhere_nodup (params : List (RowSampling F)) (cond : RowSampling F → Bool) :
    (rowsWhere params cond).Nodup := by
  have hall : (params.zipIdx.map Prod.snd).Nodup := by
    rw [List.zipIdx_map_snd]
    exact List.nodup_range'
  exact (List.filter_sublist.map Prod.snd).nodup hall

omit [Field F] [LinearOrder F] in
private theorem activeRows_rowsOrNone (params : List (RowSampling F)) (cond : RowSampling F → Bool) :
    ActiveRows params.length (rowsOrNone params.length (rowsWhere params cond))
      (rowsWhere params cond) := by
  have hlt : ∀ r ∈ rowsWhere params cond, r < params.length := by
    intro r hr
    obtain ⟨own, hget, -⟩ := mem_rowsWhere.mp hr
    exact (List.getElem?_eq_some_iff.mp hget).1
  unfold rowsOrNone
  by_cases hfull : (rowsWhere params cond).length = params.length
  · rw [if_pos hfull]
    -- Every row satisfies the condition, so the list is the whole range in order.
    have hall : rowsWhere params cond = List.range params.length := by
      have hkeep : params.zipIdx.filter (fun entry => cond entry.1) = params.zipIdx := by
        refine List.filter_sublist.eq_of_length ?_
        rw [List.length_zipIdx, ← hfull, rowsWhere, List.length_map]
      rw [rowsWhere, hkeep, List.zipIdx_map_snd, List.range_eq_range']
    exact hall
  · rw [if_neg hfull]
    exact ⟨rfl, rowsWhere_nodup params cond, hlt⟩

end Buckets

section Routing

variable {V : Nat} {F : Type} [Field F] [LinearOrder F]

def ownTopK (own : RowSampling F) (row : LogitRow V F) : LogitRow V F :=
  match effectiveTopK V own with
  | none => row
  | some topK => filterTopKRow topK.toNat row

def ownTopP (sort : AscendingSort V F) (softmax : LogitRow V F → Fin V → F)
    (own : RowSampling F) (row : LogitRow V F) : LogitRow V F :=
  if own.temperature ≠ 0 ∧ own.topP ≠ 1 then
    filterTopPRow sort softmax own.temperature (1 - own.topP) row
  else row

/-- The values `SamplingParams` accepts. -/
def RowSampling.Valid (own : RowSampling F) : Prop :=
  0 ≤ own.temperature ∧ (own.topK = -1 ∨ 1 ≤ own.topK) ∧ 0 < own.topP ∧ own.topP ≤ 1

private theorem effectiveTopK_bounds {own : RowSampling F} (hvalid : own.Valid) {topK : Int}
    (h : effectiveTopK V own = some topK) : 1 ≤ topK ∧ topK < V := by
  have hk := hvalid.2.1
  unfold effectiveTopK at h
  by_cases hskip : own.temperature = 0 ∨ own.topK = -1
  · rw [if_pos hskip] at h
    cases h
  · rw [if_neg hskip] at h
    simp only [Option.ite_none_left_eq_some, Option.some.injEq] at h
    rw [not_or] at hskip
    omega

private theorem buckets_apply {params : List (RowSampling F)} (hvalid : ∀ own ∈ params, own.Valid)
    (keys : List Int) (hnodup : keys.Nodup)
    (hkeys : ∀ topK ∈ keys, ∃ own ∈ params, effectiveTopK V own = some topK)
    (logits : List (LogitRow V F)) (hlen : logits.length = params.length) :
    ∃ out, (keys.map fun topK => (topK, rowsOrNone params.length
        (rowsWhere params fun own => effectiveTopK V own = some topK))).foldlM
        (fun logits bucket => filterTopK logits bucket.2 bucket.1.toNat) logits = .ok out ∧
      out.length = logits.length ∧
      ∀ (r : Nat) (own : RowSampling F) (row : LogitRow V F), params[r]? = some own →
        logits[r]? = some row →
        out[r]? = some (if ∃ topK ∈ keys, effectiveTopK V own = some topK then ownTopK own row
          else row) := by
  induction keys generalizing logits with
  | nil => exact ⟨logits, rfl, rfl, fun r own row _ hrow => by simpa using hrow⟩
  | cons key keys ih =>
    rw [List.nodup_cons] at hnodup
    obtain ⟨own₀, hown₀, heff₀⟩ := hkeys key List.mem_cons_self
    obtain ⟨hk, hkV⟩ := effectiveTopK_bounds (hvalid own₀ hown₀) heff₀
    have hactive := activeRows_rowsOrNone params
      fun own => decide (effectiveTopK V own = some key)
    rw [← hlen] at hactive
    obtain ⟨mid, hmid, hmidLen, hin, hout⟩ := filterTopK_ok hactive
      (by omega : 1 ≤ key.toNat) (by omega : key.toNat ≤ V)
    obtain ⟨out, hfold, houtLen, hrows⟩ := ih hnodup.2
      (fun topK h => hkeys topK (List.mem_cons_of_mem key h)) mid (hmidLen.trans hlen)
    refine ⟨out, ?_, houtLen.trans hmidLen, fun r own row hown hrow => ?_⟩
    · rw [List.map_cons, List.foldlM_cons]
      rw [hlen] at hmid
      exact (Call.except_bind_of_ok (by simpa only [hlen] using hmid)).trans hfold
    · have hactiveIff : (r ∈ rowsWhere params fun own => decide (effectiveTopK V own = some key))
          ↔ effectiveTopK V own = some key := by
        rw [mem_rowsWhere]
        constructor
        · rintro ⟨own', hown', hcond⟩
          obtain rfl : own = own' := Option.some.inj (hown.symm.trans hown')
          simpa using hcond
        · intro h
          exact ⟨own, hown, by simpa using h⟩
      by_cases hkey : effectiveTopK V own = some key
      · have hmidRow : mid[r]? = some (ownTopK own row) := by
          rw [hin r (hactiveIff.mpr hkey), hrow]
          simp [ownTopK, hkey]
        have hlater : ¬ ∃ topK ∈ keys, effectiveTopK V own = some topK := by
          rintro ⟨topK, htopK, h⟩
          obtain rfl : key = topK := Option.some.inj (hkey.symm.trans h)
          exact hnodup.1 htopK
        rw [hrows r own _ hown hmidRow, if_neg hlater, if_pos ⟨key, List.mem_cons_self, hkey⟩]
      · have hmidRow : mid[r]? = some row := by
          rw [hout r fun h => hkey (hactiveIff.mp h), hrow]
        have hiff : (∃ topK ∈ key :: keys, effectiveTopK V own = some topK)
            ↔ ∃ topK ∈ keys, effectiveTopK V own = some topK := by
          constructor
          · rintro ⟨topK, htopK, h⟩
            rcases List.mem_cons.mp htopK with rfl | htopK
            · exact absurd h hkey
            · exact ⟨topK, htopK, h⟩
          · rintro ⟨topK, htopK, h⟩
            exact ⟨topK, List.mem_cons_of_mem key htopK, h⟩
        rw [hrows r own row hown hmidRow]
        simp only [hiff]

def bucketKeys (vocabSize : Nat) (params : List (RowSampling F)) : List Int :=
  ((rowsByTopK vocabSize params).map Prod.fst).mergeSort

private theorem bucketKeys_nodup (vocabSize : Nat) (params : List (RowSampling F)) :
    (bucketKeys vocabSize params).Nodup :=
  (List.mergeSort_perm _ _).nodup_iff.mpr
    (rowsByTopK_fold vocabSize params.zipIdx [] List.nodup_nil).1

private theorem mem_bucketKeys {vocabSize : Nat} {params : List (RowSampling F)} {topK : Int} :
    topK ∈ bucketKeys vocabSize params
      ↔ ∃ own ∈ params, effectiveTopK vocabSize own = some topK := by
  rw [bucketKeys, (List.mergeSort_perm _ _).mem_iff]
  refine ((rowsByTopK_fold vocabSize params.zipIdx [] List.nodup_nil).2.2 topK).trans ?_
  simp only [List.map_nil, List.not_mem_nil, false_or]
  constructor
  · rintro ⟨⟨own, r⟩, hentry, h⟩
    exact ⟨own, List.mem_of_getElem? (List.mem_zipIdx_iff_getElem?.mp hentry), h⟩
  · rintro ⟨own, hown, h⟩
    obtain ⟨r, hr⟩ := List.getElem?_of_mem hown
    exact ⟨(own, r), List.mem_zipIdx_iff_getElem?.mpr hr, h⟩

def hasTopP (own : RowSampling F) : Bool := own.temperature ≠ 0 ∧ own.topP ≠ 1

theorem prepareSampleMetadata_sampled {vocabSize : Nat} {params : List (RowSampling F)}
    (h : ¬ ∀ temperature ∈ params.map RowSampling.temperature, temperature = 0) :
    prepareSampleMetadata vocabSize params =
      { temperatures := params.map RowSampling.temperature
        topKBuckets := (bucketKeys vocabSize params).map fun topK =>
          (topK, rowsOrNone params.length
            (rowsWhere params fun own => effectiveTopK vocabSize own = some topK))
        topPPlan :=
          if (rowsWhere params hasTopP).isEmpty then none
          else some (rowsOrNone params.length (rowsWhere params hasTopP),
            (params.filter hasTopP).map RowSampling.topP)
        allGreedy := false } := by
  have hrowsAt : ∀ topK, rowsAt (rowsByTopK vocabSize params) topK
      = rowsWhere params fun own => decide (effectiveTopK vocabSize own = some topK) := by
    intro topK
    have hfold := (rowsByTopK_fold vocabSize params.zipIdx [] List.nodup_nil).2.1 topK
    exact hfold.trans (List.nil_append _)
  unfold prepareSampleMetadata
  rw [if_neg h]
  simp only [rowsAt] at hrowsAt
  simp only [hrowsAt]
  rfl

omit [Field F] [LinearOrder F] in
private theorem filter_eq_zipIdx (params : List (RowSampling F)) (cond : RowSampling F → Bool) :
    params.filter cond = (params.zipIdx.filter fun entry => cond entry.1).map Prod.fst := by
  conv_lhs => rw [← List.zipIdx_map_fst 0 params, List.filter_map]
  rfl

omit [Field F] [LinearOrder F] in
private theorem filter_getElem? {params : List (RowSampling F)} {cond : RowSampling F → Bool}
    {j r : Nat}
    (hj : (rowsWhere params cond)[j]? = some r) {own : RowSampling F}
    (hown : params[r]? = some own) : (params.filter cond)[j]? = some own := by
  simp only [rowsWhere, List.getElem?_map, Option.map_eq_some_iff] at hj
  obtain ⟨⟨own', r'⟩, hentry, rfl⟩ := hj
  have hmem := (List.mem_filter.mp (List.mem_of_getElem? hentry)).1
  obtain rfl : own = own' :=
    Option.some.inj (hown.symm.trans (List.mem_zipIdx_iff_getElem?.mp hmem))
  rw [filter_eq_zipIdx, List.getElem?_map, hentry]
  rfl

omit [Field F] [LinearOrder F] in
private theorem length_rowsWhere (params : List (RowSampling F)) (cond : RowSampling F → Bool) :
    (rowsWhere params cond).length = (params.filter cond).length := by
  rw [filter_eq_zipIdx, rowsWhere, List.length_map, List.length_map]

/-- The plan, when there is one, filters each of its rows with that row's temperature and `p`. -/
theorem plan_apply (sort : AscendingSort V F) (softmax : LogitRow V F → Fin V → F)
    {params : List (RowSampling F)} {logits : List (LogitRow V F)}
    (hlen : logits.length = params.length) :
    (match (if (rowsWhere params hasTopP).isEmpty then none
        else some (rowsOrNone params.length (rowsWhere params hasTopP),
          (params.filter hasTopP).map RowSampling.topP) :
          Option (Option (List Nat) × List F)) with
      | none => pure logits
      | some (rowIndices, topPs) =>
        filterTopP sort softmax logits (params.map RowSampling.temperature) rowIndices
          (topPs.map fun topP => 1 - topP))
      = .ok (List.zipWith (ownTopP sort softmax) params logits) := by
  have hon : ∀ r own, params[r]? = some own →
      (r ∈ rowsWhere params hasTopP ↔ own.temperature ≠ 0 ∧ own.topP ≠ 1) := by
    intro r own hown
    rw [mem_rowsWhere]
    constructor
    · rintro ⟨own', hown', h⟩
      obtain rfl : own = own' := Option.some.inj (hown.symm.trans hown')
      simpa [hasTopP] using h
    · intro h
      exact ⟨own, hown, by simpa [hasTopP] using h⟩
  by_cases hempty : (rowsWhere params hasTopP).isEmpty
  · rw [if_pos hempty]
    refine congrArg Except.ok (List.ext_getElem? fun r => ?_)
    rw [List.getElem?_zipWith]
    cases hown : params[r]? with
    | none =>
      rw [List.getElem?_eq_none_iff, ← hlen] at hown
      rw [List.getElem?_eq_none hown]
    | some own =>
      have hr : r < logits.length := hlen ▸ (List.getElem?_eq_some_iff.mp hown).1
      have hoff : ¬ (own.temperature ≠ 0 ∧ own.topP ≠ 1) := by
        rw [← hon r own hown, List.isEmpty_iff.mp hempty]
        exact List.not_mem_nil
      rw [List.getElem?_eq_getElem hr]
      exact congrArg some (if_neg hoff).symm
  · rw [if_neg hempty]
    have hactive : ActiveRows logits.length
        (rowsOrNone params.length (rowsWhere params hasTopP)) (rowsWhere params hasTopP) :=
      hlen ▸ activeRows_rowsOrNone params hasTopP
    obtain ⟨out, hout, houtLen, hin, houtside⟩ := filterTopP_ok sort softmax
      (by rw [List.length_map, hlen] :
        (params.map RowSampling.temperature).length = logits.length) hactive
      (by rw [List.length_map, List.length_map, length_rowsWhere] :
        (((params.filter hasTopP).map RowSampling.topP).map fun topP => 1 - topP).length
          = (rowsWhere params hasTopP).length)
    refine hout.trans (congrArg Except.ok (List.ext_getElem? fun r => ?_))
    rw [List.getElem?_zipWith]
    cases hown : params[r]? with
    | none =>
      rw [List.getElem?_eq_none_iff, ← hlen, ← houtLen] at hown
      rw [List.getElem?_eq_none hown]
    | some own =>
      have hr : r < logits.length := hlen ▸ (List.getElem?_eq_some_iff.mp hown).1
      have hrow := List.getElem?_eq_getElem hr
      rw [hrow]
      by_cases hown' : own.temperature ≠ 0 ∧ own.topP ≠ 1
      · obtain ⟨j, hj⟩ := List.getElem?_of_mem ((hon r own hown).mpr hown')
        have hcutoff : (((params.filter hasTopP).map RowSampling.topP).map
            fun topP => 1 - topP)[j]? = some (1 - own.topP) := by
          rw [List.getElem?_map, List.getElem?_map, filter_getElem? hj hown]
          rfl
        rw [hin j r own.temperature (1 - own.topP) _ hj (by rw [List.getElem?_map, hown]; rfl)
          hcutoff hrow]
        exact congrArg some (if_pos hown').symm
      · rw [houtside r fun h => hown' ((hon r own hown).mp h), hrow]
        exact congrArg some (if_neg hown').symm

/-- The full vector of `_expand_top_ps`: each row's own `p`, and one where it has none. -/
theorem expandTopPs_ok (params : List (RowSampling F)) :
    expandTopPs params.length (rowsOrNone params.length (rowsWhere params hasTopP),
        (params.filter hasTopP).map RowSampling.topP)
      = .ok (params.map fun own => if hasTopP own then own.topP else 1) := by
  have hcount := length_rowsWhere params hasTopP
  have hlt : ∀ r ∈ rowsWhere params hasTopP, r < params.length := by
    intro r hr
    obtain ⟨own, hget, -⟩ := mem_rowsWhere.mp hr
    exact (List.getElem?_eq_some_iff.mp hget).1
  unfold rowsOrNone
  by_cases hfull : (rowsWhere params hasTopP).length = params.length
  · have hkeep : params.filter hasTopP = params :=
      List.filter_sublist.eq_of_length (by omega)
    have hall : ∀ own ∈ params, hasTopP own = true := List.filter_eq_self.mp hkeep
    rw [if_pos hfull, hkeep]
    unfold expandTopPs
    simp only [List.length_map, ne_eq, not_true_eq_false, if_false]
    refine congrArg Except.ok (List.map_congr_left fun own hown => ?_)
    rw [if_pos (hall own hown)]
  · have hloop : ∀ (pairs : List (Nat × F)) (topPs : List F),
        (∀ pair ∈ pairs, pair.1 < topPs.length) →
        pairs.foldlM (fun topPs entry =>
          if entry.1 < topPs.length then (.ok (topPs.set entry.1 entry.2) : Except Raised _)
          else .error .indexError) topPs
          = .ok (pairs.foldl (fun t copied => t.set copied.1 copied.2) topPs) := by
      intro pairs
      induction pairs with
      | nil => intro topPs _; rfl
      | cons pair pairs ih =>
        intro topPs hin
        rw [List.foldlM_cons, if_pos (hin pair List.mem_cons_self)]
        exact ih (topPs.set pair.1 pair.2) fun other hother => by
          rw [List.length_set]
          exact hin other (List.mem_cons_of_mem pair hother)
    have hlengths : ¬ (rowsWhere params hasTopP).length
        ≠ ((params.filter hasTopP).map RowSampling.topP).length := by
      rw [List.length_map]
      omega
    rw [if_neg hfull]
    unfold expandTopPs
    simp only [if_neg hlengths]
    rw [hloop _ _ fun pair hpair => by
      rw [List.length_replicate]
      exact hlt pair.1 (List.of_mem_zip hpair).1]
    refine congrArg Except.ok (List.ext_getElem? fun r => ?_)
    change (indexCopy (List.replicate params.length 1) (rowsWhere params hasTopP)
      ((params.filter hasTopP).map RowSampling.topP))[r]? = _
    rw [List.getElem?_map]
    cases hown : params[r]? with
    | none =>
      rw [List.getElem?_eq_none_iff] at hown
      rw [List.getElem?_eq_none (by rwa [length_indexCopy, List.length_replicate])]
      rfl
    | some own =>
      have hr : r < (List.replicate params.length (1 : F)).length := by
        rw [List.length_replicate]
        exact (List.getElem?_eq_some_iff.mp hown).1
      by_cases hp : hasTopP own = true
      · obtain ⟨j, hj⟩ := List.getElem?_of_mem (mem_rowsWhere.mpr ⟨own, hown, hp⟩)
        rw [indexCopy_getElem? (rowsWhere_nodup params hasTopP)
          (by rw [List.length_map, hcount]) hj hr, List.getElem?_map, filter_getElem? hj hown,
          Option.map_some, Option.map_some, if_pos hp]
      · have hout : r ∉ rowsWhere params hasTopP := by
          rw [mem_rowsWhere]
          rintro ⟨own', hown', h⟩
          obtain rfl : own = own' := Option.some.inj (hown.symm.trans hown')
          exact hp h
        rw [indexCopy_getElem?_of_notMem hout, List.getElem?_eq_getElem hr,
          List.getElem_replicate, Option.map_some, if_neg hp]

theorem buckets_own {params : List (RowSampling F)} (hvalid : ∀ own ∈ params, own.Valid)
    {logits : List (LogitRow V F)} (hlen : logits.length = params.length) :
    ((bucketKeys V params).map fun topK => (topK, rowsOrNone params.length
        (rowsWhere params fun own => effectiveTopK V own = some topK))).foldlM
        (fun logits bucket => filterTopK logits bucket.2 bucket.1.toNat) logits =
      .ok (List.zipWith ownTopK params logits) := by
  obtain ⟨mid, hmid, hmidLen, hmidRows⟩ := buckets_apply hvalid (bucketKeys V params)
    (bucketKeys_nodup V params) (fun topK h => mem_bucketKeys.mp h) logits hlen
  rw [hmid]
  refine congrArg Except.ok (List.ext_getElem? fun r => ?_)
  rw [List.getElem?_zipWith]
  cases hown : params[r]? with
  | none =>
    rw [List.getElem?_eq_none_iff, ← hlen, ← hmidLen] at hown
    rw [List.getElem?_eq_none hown]
  | some own =>
    have hr : r < logits.length := hlen ▸ (List.getElem?_eq_some_iff.mp hown).1
    have hrow := List.getElem?_eq_getElem hr
    rw [hmidRows r own _ hown hrow, hrow]
    by_cases hex : ∃ topK ∈ bucketKeys V params, effectiveTopK V own = some topK
    · rw [if_pos hex]
    · have hnone : effectiveTopK V own = none := by
        by_contra hsome
        obtain ⟨topK, htopK⟩ := Option.ne_none_iff_exists'.mp hsome
        exact hex ⟨topK, mem_bucketKeys.mpr ⟨own, List.mem_of_getElem? hown, htopK⟩, htopK⟩
      rw [if_neg hex]
      simp only [ownTopK, hnone]

/-- Whatever the metadata of a batch, each row is filtered with its own parameters: greedy rows
not at all, the others with their effective `k` below the vocabulary and their `p` below one. -/
theorem applyFilters_ok (sort : AscendingSort V F) (softmax : LogitRow V F → Fin V → F)
    {params : List (RowSampling F)} (hvalid : ∀ own ∈ params, own.Valid)
    {logits : List (LogitRow V F)} (hlen : logits.length = params.length) :
    applyFilters sort softmax (prepareSampleMetadata V params) logits
      = .ok (List.zipWith (fun own row => ownTopP sort softmax own (ownTopK own row))
          params logits) := by
  by_cases hgreedy : ∀ temperature ∈ params.map RowSampling.temperature, temperature = 0
  · have hrows : List.zipWith (fun own row => ownTopP sort softmax own (ownTopK own row))
        params logits = logits := by
      apply List.ext_getElem
      · simp [hlen]
      · intro r hr _
        have hr' : r < params.length := by
          rw [List.length_zipWith] at hr
          omega
        have hzero : params[r].temperature = 0 :=
          hgreedy _ (List.mem_map_of_mem (List.getElem_mem hr'))
        simp [ownTopP, ownTopK, effectiveTopK, hzero]
    unfold applyFilters prepareSampleMetadata
    simp only [if_pos hgreedy, hrows]
    rfl
  · have hown : (List.zipWith ownTopK params logits).length = params.length := by
      rw [List.length_zipWith, hlen, Nat.min_self]
    rw [prepareSampleMetadata_sampled hgreedy]
    unfold applyFilters
    simp only [Bool.false_eq_true, if_false]
    refine (Call.except_bind_of_ok (buckets_own hvalid hlen)).trans
      ((plan_apply sort softmax hown).trans (congrArg Except.ok ?_))
    apply List.ext_getElem?
    intro r
    simp only [List.getElem?_zipWith]
    cases params[r]? <;> cases logits[r]? <;> rfl

end Routing

end NanoVllm
