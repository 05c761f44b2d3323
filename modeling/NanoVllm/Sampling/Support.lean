/- module: NanoVllm/Sampling/Support
   layer: main result
   digest: The filters keep the right support of every row of a batch. -/

import NanoVllm.Sampling.Metadata
import Mathlib.Algebra.Order.Ring.Rat
import Mathlib.Tactic.NormNum

set_option autoImplicit false
set_option relaxedAutoImplicit false

open NanoVllm.Library

namespace NanoVllm

variable {V : Nat} {F : Type} [Field F] [LinearOrder F]

def topKSupport (topK : Nat) (row : LogitRow V F) : LogitRow V F :=
  fun i => if (Finset.univ.filter fun j => row i < row j).card < topK then row i else ⊥

omit [Field F] in
theorem filterTopKRow_eq_support {row : LogitRow V F} {topK : Nat} (hk : 1 ≤ topK)
    (hkV : topK ≤ V) : filterTopKRow topK row = topKSupport topK row :=
  funext fun i => filterTopKRow_eq hk hkV i

omit [Field F] in
theorem topKSupport_ne_bot {row : LogitRow V F} {topK : Nat} (hk : 1 ≤ topK)
    (hrow : ∃ i, row i ≠ ⊥) : ∃ i, topKSupport topK row i ≠ ⊥ := by
  obtain ⟨i, hi⟩ := hrow
  obtain ⟨top, -, hmax⟩ := Finset.exists_max_image Finset.univ row ⟨i, Finset.mem_univ i⟩
  have hnone : (Finset.univ.filter fun j => row top < row j) = ∅ :=
    Finset.filter_eq_empty_iff.mpr fun j hj => not_lt.mpr (hmax j hj)
  have hkeep : (Finset.univ.filter fun j => row top < row j).card < topK := by
    rw [hnone]
    exact hk
  refine ⟨top, ?_⟩
  rw [topKSupport, if_pos hkeep]
  exact fun hbot => hi (le_bot_iff.mp (hbot ▸ hmax i (Finset.mem_univ i)))

/-- The row a sequence is sampled from before top-p: its top-k support when its `k` is below the
vocabulary. -/
def ownSupport (own : RowSampling F) (row : LogitRow V F) : LogitRow V F :=
  if own.topK ≠ -1 ∧ min own.topK V < V then topKSupport (min own.topK V).toNat row else row

private theorem ownTopK_eq {own : RowSampling F} (hvalid : own.Valid) (hsampled : own.temperature ≠ 0)
    (row : LogitRow V F) : ownTopK own row = ownSupport own row := by
  have hk := hvalid.2.1
  unfold ownTopK ownSupport effectiveTopK
  by_cases hoff : own.topK = -1
  · simp [hoff]
  · by_cases hfull : min own.topK (V : Int) = V
    · simp [hoff, hfull, hsampled]
    · have hlt : min own.topK (V : Int) < V := by omega
      have hskip : ¬ (own.temperature = 0 ∨ own.topK = -1) := not_or.mpr ⟨hsampled, hoff⟩
      rw [if_neg hskip]
      simp only [if_neg hfull]
      rw [if_pos ⟨hoff, hlt⟩]
      exact filterTopKRow_eq_support (by omega) (by omega)

variable [IsStrictOrderedRing F]

/-- Top-p and top-k keep the right support of each active row and touch no other row, whatever the
chunks; the metadata of a batch gives every sampled row its own `k` and `p` and leaves greedy rows
alone. -/
theorem filters_keep_support (sort : AscendingSort V F) (w : ExpWeight F)
    (logits : List (LogitRow V F)) (hunmasked : ∀ row ∈ logits, ∃ i, row i ≠ ⊥) :
    (∀ (temperatures ps : List F) (rows : Option (List Nat)) (active : List Nat),
      temperatures.length = logits.length → ActiveRows logits.length rows active →
      ps.length = active.length → (∀ p ∈ ps, 0 < p ∧ p < 1) →
      ∃ out, filterTopP sort w.softmax logits temperatures rows (ps.map fun p => 1 - p) = .ok out ∧
        out.length = logits.length ∧
        (∀ (j r : Nat) (temperature p : F) (row : LogitRow V F), active[j]? = some r →
          temperatures[r]? = some temperature → ps[j]? = some p → logits[r]? = some row →
          out[r]? = some (filterTopPRow sort w.softmax temperature (1 - p) row) ∧
          TopPRule w temperature p row
            (filterTopPRow sort w.softmax temperature (1 - p) row)) ∧
        ∀ r, r ∉ active → out[r]? = logits[r]?) ∧
    (∀ (rows : Option (List Nat)) (active : List Nat) (topK : Nat),
      ActiveRows logits.length rows active → 1 ≤ topK → topK ≤ V →
      ∃ out, filterTopK logits rows topK = .ok out ∧ out.length = logits.length ∧
        (∀ r ∈ active, ∀ row, logits[r]? = some row →
          ∃ largest, (descendingList (List.ofFn row))[topK - 1]? = some largest ∧
            out[r]? = some fun i => if largest ≤ row i then row i else ⊥) ∧
        ∀ r, r ∉ active → out[r]? = logits[r]?) ∧
    (∀ params : List (RowSampling F), (∀ own ∈ params, own.Valid) →
      logits.length = params.length →
      ∃ out, applyFilters sort w.softmax (prepareSampleMetadata V params) logits = .ok out ∧
        out.length = logits.length ∧
        ∀ (r : Nat) (own : RowSampling F) (row : LogitRow V F), params[r]? = some own →
          logits[r]? = some row →
          ∃ result, out[r]? = some result ∧
            (own.temperature = 0 → result = row) ∧
            (own.temperature ≠ 0 → own.topP = 1 → result = ownSupport own row) ∧
            (own.temperature ≠ 0 → own.topP ≠ 1 →
              TopPRule w own.temperature own.topP (ownSupport own row) result)) := by
  refine ⟨fun temperatures ps rows active htemps hactive hps hp => ?_,
    fun rows active topK hactive hk hkV => ?_, fun params hvalid hlen => ?_⟩
  · obtain ⟨out, hout, houtLen, hin, houtside⟩ := filterTopP_ok sort w.softmax htemps hactive
      (by rw [List.length_map, hps] : (ps.map fun p => 1 - p).length = active.length)
    refine ⟨out, hout, houtLen, fun j r temperature p row hj htemp hpj hrow => ⟨?_, ?_⟩, houtside⟩
    · exact hin j r temperature (1 - p) row hj htemp (by rw [List.getElem?_map, hpj]; rfl) hrow
    · obtain ⟨hpos, hlt⟩ := hp p (List.mem_of_getElem? hpj)
      exact filterTopPRow_rule w sort hpos hlt (hunmasked row (List.mem_of_getElem? hrow))
  · obtain ⟨out, hout, houtLen, hin, houtside⟩ := filterTopK_ok hactive hk hkV
    refine ⟨out, hout, houtLen, fun r hr row hrow => ?_, houtside⟩
    obtain ⟨largest, hmin, hget⟩ := topKValues_min? row hk hkV
    refine ⟨largest, hget, ?_⟩
    rw [hin r hr, hrow, Option.map_some]
    refine congrArg some (funext fun i => ?_)
    unfold filterTopKRow
    simp only [hmin, Option.getD_some]
    by_cases hle : largest ≤ row i
    · rw [if_pos hle, if_neg (not_lt.mpr hle)]
    · rw [if_neg hle, if_pos (not_le.mp hle)]
  · refine ⟨_, applyFilters_ok sort w.softmax hvalid hlen, by simp [hlen],
      fun r own row hown hrow => ?_⟩
    have hownValid := hvalid own (List.mem_of_getElem? hown)
    refine ⟨ownTopP sort w.softmax own (ownTopK own row), ?_, fun hzero => ?_,
      fun hsampled hone => ?_, fun hsampled hne => ?_⟩
    · rw [List.getElem?_zipWith, hown, hrow]
    · simp [ownTopP, ownTopK, effectiveTopK, hzero]
    · rw [ownTopK_eq hownValid hsampled, ownTopP, if_neg fun h => h.2 hone]
    · have hsupport : ∃ i, ownSupport own row i ≠ ⊥ := by
        have hrow' := hunmasked row (List.mem_of_getElem? hrow)
        unfold ownSupport
        split
        · have hk := hownValid.2.1
          have hV : 1 ≤ V := by
            obtain ⟨i, -⟩ := hrow'
            have := i.isLt
            omega
          exact topKSupport_ne_bot (by omega) hrow'
        · exact hrow'
      rw [ownTopK_eq hownValid hsampled, ownTopP, if_pos ⟨hsampled, hne⟩]
      exact filterTopPRow_rule w sort hownValid.2.2.1
        (lt_of_le_of_ne hownValid.2.2.2 hne) hsupport

def rampWeight : ExpWeight ℚ where
  weight x := max 1 x
  pos _ := lt_max_of_lt_left one_pos
  mono _ _ h := max_le_max_left 1 h

def tupleSort (V : Nat) : AscendingSort V ℚ where
  order row := Tuple.sort row
  ascending row := Tuple.monotone_sort row

def rampRow : LogitRow 3 ℚ := fun i => ((i.val : ℚ) : WithBot ℚ)

def rampParams : List (RowSampling ℚ) := [⟨1, 2, 1⟩, ⟨1, -1, 1 / 2⟩, ⟨0, 1, 1⟩]

/-- The first row loses its smallest logit, the second one follows its top-p rule and the greedy
one stays. -/
theorem filters_keep_support_of_three_rows :
    ∃ out result, applyFilters (tupleSort 3) rampWeight.softmax (prepareSampleMetadata 3 rampParams)
        [rampRow, rampRow, rampRow] = .ok out ∧
      (out[0]? = some fun i => if i = 0 then ⊥ else rampRow i) ∧
      out[1]? = some result ∧ TopPRule rampWeight 1 (1 / 2) rampRow result ∧
      out[2]? = some rampRow := by
  have hunmasked : ∀ row ∈ [rampRow, rampRow, rampRow], ∃ i, row i ≠ ⊥ := by
    intro row hrow
    obtain rfl : row = rampRow := by simpa using hrow
    exact ⟨0, WithBot.coe_ne_bot⟩
  have hvalid : ∀ own ∈ rampParams, own.Valid := by
    intro own hown
    simp only [rampParams, List.mem_cons, List.not_mem_nil, or_false] at hown
    rcases hown with rfl | rfl | rfl <;> norm_num [RowSampling.Valid]
  obtain ⟨out, hout, -, hrows⟩ :=
    (filters_keep_support (tupleSort 3) rampWeight _ hunmasked).2.2 _ hvalid rfl
  obtain ⟨first, hfirst, -, htopK, -⟩ := hrows 0 ⟨1, 2, 1⟩ rampRow rfl rfl
  obtain ⟨second, hsecond, -, -, htopP⟩ := hrows 1 ⟨1, -1, 1 / 2⟩ rampRow rfl rfl
  obtain ⟨third, hthird, hgreedy, -⟩ := hrows 2 ⟨0, 1, 1⟩ rampRow rfl rfl
  have hkept : ownSupport (⟨1, 2, 1⟩ : RowSampling ℚ) rampRow =
      fun i => if i = 0 then ⊥ else rampRow i := by
    funext i
    revert i
    decide +kernel
  have hall : ownSupport (⟨1, -1, 1 / 2⟩ : RowSampling ℚ) rampRow = rampRow :=
    if_neg fun h => h.1 rfl
  refine ⟨out, second, hout, ?_, hsecond, ?_, ?_⟩
  · rw [hfirst, htopK one_ne_zero rfl, hkept]
  · rw [← hall]
    exact htopP one_ne_zero (by norm_num)
  · rw [hthird, hgreedy rfl]

end NanoVllm
