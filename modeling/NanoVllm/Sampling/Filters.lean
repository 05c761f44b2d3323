/- module: NanoVllm/Sampling/Filters
   layer: refinement
   digest: What top-k and top-p leave of a row, and that the prepared metadata gives every
     sampled row its own parameters. -/

import NanoVllm.Sampling.Rows
import Mathlib.Algebra.BigOperators.Field

set_option autoImplicit false
set_option relaxedAutoImplicit false

open NanoVllm.Library

namespace NanoVllm

variable {V : Nat} {F : Type} [Field F] [LinearOrder F]

section TopK

omit [Field F] in
theorem topKValues_min? (row : LogitRow V F) {topK : Nat} (hk : 1 ≤ topK) (hkV : topK ≤ V) :
    ∃ threshold, (topKValues row topK).min? = some threshold ∧
      (descendingList (List.ofFn row))[topK - 1]? = some threshold := by
  have hlen : (descendingList (List.ofFn row)).length = V := by
    rw [(descendingList_perm _).length_eq, List.length_ofFn]
  have hlt : topK - 1 < (descendingList (List.ofFn row)).length := by omega
  refine ⟨(descendingList (List.ofFn row))[topK - 1], ?_, List.getElem?_eq_getElem hlt⟩
  rw [List.min?_eq_some_iff]
  have hlast : topK - 1 < (topKValues row topK).length := by
    unfold topKValues
    rw [List.length_take]
    omega
  have hget : (topKValues row topK)[topK - 1] = (descendingList (List.ofFn row))[topK - 1] :=
    List.getElem_take
  refine ⟨hget ▸ List.getElem_mem hlast, fun x hx => ?_⟩
  obtain ⟨j, hj, rfl⟩ := List.getElem_of_mem hx
  have hjk : j ≤ topK - 1 := by
    unfold topKValues at hj
    rw [List.length_take] at hj
    omega
  have hgetj : (topKValues row topK)[j] = (descendingList (List.ofFn row))[j] := List.getElem_take
  rw [hgetj]
  rcases hjk.lt_or_eq with hless | heq
  · exact List.pairwise_iff_getElem.mp (descendingList_pairwise (List.ofFn row)) j (topK - 1)
      (by omega) hlt hless
  · simp only [heq, le_refl]

omit [Field F] in
/-- Top-k keeps exactly the entries at least as large as the `k`-th largest: those that fewer than
`k` entries exceed. -/
theorem filterTopKRow_eq {row : LogitRow V F} {topK : Nat} (hk : 1 ≤ topK) (hkV : topK ≤ V)
    (i : Fin V) :
    filterTopKRow topK row i
      = if (Finset.univ.filter fun j => row i < row j).card < topK then row i else ⊥ := by
  obtain ⟨threshold, hmin, hget⟩ := topKValues_min? row hk hkV
  have hlen : (descendingList (List.ofFn row)).length = V := by
    rw [(descendingList_perm _).length_eq, List.length_ofFn]
  have hlt : topK - 1 < (descendingList (List.ofFn row)).length := by omega
  have hthreshold : (descendingList (List.ofFn row))[topK - 1] = threshold := by
    rwa [List.getElem?_eq_getElem hlt, Option.some.injEq] at hget
  have hcount : (descendingList (List.ofFn row)).countP (fun a => decide (row i < a))
      = (Finset.univ.filter fun j => row i < row j).card := by
    rw [(descendingList_perm _).countP_eq, List.ofFn_eq_map, List.countP_map,
      List.countP_eq_length_filter]
    simp [Finset.card, Fin.univ_def, Function.comp_def]
  have hrank := le_iff_countP_lt (descendingList_pairwise (List.ofFn row)) hlt (row i)
  rw [hthreshold, hcount, Nat.sub_add_cancel hk] at hrank
  unfold filterTopKRow
  simp only [hmin, Option.getD_some]
  by_cases hkeep : threshold ≤ row i
  · rw [if_neg (not_lt.mpr hkeep), if_pos (hrank.mp hkeep)]
  · rw [if_pos (not_le.mp hkeep), if_neg fun h => hkeep (hrank.mpr h)]

end TopK

section TopP

/-- Positive weights of finite logits that grow with the logit, as the exponential's do. -/
structure ExpWeight (F : Type) [Field F] [LinearOrder F] where
  weight : F → F
  pos : ∀ x, 0 < weight x
  mono : Monotone weight

variable (w : ExpWeight F)

def ExpWeight.mass : WithBot F → F
  | ⊥ => 0
  | (x : F) => w.weight x

/-- `softmax` over exact arithmetic. -/
def ExpWeight.softmax (row : LogitRow V F) (i : Fin V) : F :=
  w.mass (row i) / ∑ j, w.mass (row j)

private theorem ExpWeight.mass_nonneg (x : WithBot F) : 0 ≤ w.mass x := by
  cases x with
  | bot => exact le_rfl
  | coe x => exact (w.pos x).le

private theorem ExpWeight.mass_mono {x y : WithBot F} (h : x ≤ y) : w.mass x ≤ w.mass y := by
  cases x with
  | bot => exact w.mass_nonneg y
  | coe x =>
    cases y with
    | bot => exact absurd h (by simp)
    | coe y => exact w.mono (WithBot.coe_le_coe.mp h)

private theorem ExpWeight.softmax_comp (row : LogitRow V F) (order : Equiv.Perm (Fin V)) (i : Fin V) :
    w.softmax (row ∘ order) i = w.softmax row (order i) := by
  unfold ExpWeight.softmax
  rw [Function.comp_apply, ← Equiv.sum_comp order fun j => w.mass (row j)]
  rfl

variable [IsStrictOrderedRing F]

private theorem ExpWeight.total_pos {row : LogitRow V F} (hrow : ∃ i, row i ≠ ⊥) :
    0 < ∑ j, w.mass (row j) := by
  obtain ⟨i, hi⟩ := hrow
  obtain ⟨x, hx⟩ := WithBot.ne_bot_iff_exists.mp hi
  refine Finset.sum_pos' (fun j _ => w.mass_nonneg (row j)) ⟨i, Finset.mem_univ i, ?_⟩
  rw [← hx]
  exact w.pos x

private theorem ExpWeight.softmax_sum {row : LogitRow V F} (hrow : ∃ i, row i ≠ ⊥) :
    ∑ i, w.softmax row i = 1 := by
  unfold ExpWeight.softmax
  rw [← Finset.sum_div, div_self (w.total_pos hrow).ne']

private theorem ExpWeight.softmax_nonneg (row : LogitRow V F) (i : Fin V) : 0 ≤ w.softmax row i :=
  div_nonneg (w.mass_nonneg _) (Finset.sum_nonneg fun j _ => w.mass_nonneg (row j))

private theorem ExpWeight.softmax_mono {row : LogitRow V F} {i j : Fin V} (h : row i ≤ row j) :
    w.softmax row i ≤ w.softmax row j :=
  div_le_div_of_nonneg_right (w.mass_mono h)
    (Finset.sum_nonneg fun k _ => w.mass_nonneg (row k))

omit [IsStrictOrderedRing F] in
private theorem ExpWeight.softmax_bot {row : LogitRow V F} {i : Fin V} (h : row i = ⊥) :
    w.softmax row i = 0 := by
  unfold ExpWeight.softmax
  rw [h]
  exact zero_div _

section Scaled

variable {temperature : F} {row : LogitRow V F}

private theorem clamp_pos (temperature : F) : 0 < max temperature (1 / 10 ^ 10) :=
  lt_max_of_lt_right (by positivity)

theorem scaleRow_le_iff {i j : Fin V} :
    scaleRow temperature row i ≤ scaleRow temperature row j ↔ row i ≤ row j := by
  unfold scaleRow
  cases hi : row i with
  | bot => simp
  | coe x =>
    cases hj : row j with
    | bot => simp
    | coe y =>
      simp only [WithBot.map_coe, WithBot.coe_le_coe]
      exact div_le_div_iff_of_pos_right (clamp_pos temperature)

omit [IsStrictOrderedRing F] in
theorem scaleRow_eq_bot {i : Fin V} : scaleRow temperature row i = ⊥ ↔ row i = ⊥ := by
  unfold scaleRow
  exact WithBot.map_eq_bot_iff

private theorem scaleRow_eq_iff {i j : Fin V} :
    scaleRow temperature row i = scaleRow temperature row j ↔ row i = row j := by
  rw [le_antisymm_iff, le_antisymm_iff, scaleRow_le_iff, scaleRow_le_iff]

end Scaled

def kept (out : LogitRow V F) : Finset (Fin V) := Finset.univ.filter fun i => out i ≠ ⊥

def ExpWeight.probability (temperature : F) (row : LogitRow V F) : Fin V → F :=
  w.softmax (scaleRow temperature row)

/-- The top-p rule for one row: kept entries are unchanged, an entry of maximal logit stays, the
kept mass reaches `p` and is below it without its lightest entry, and any descending order keeps
the same entries up to ties while the mass strictly before an entry is below `p`. -/
structure TopPRule (temperature p : F) (row out : LogitRow V F) : Prop where
  unchanged : ∀ i ∈ kept out, out i = row i
  maximal : ∃ i ∈ kept out, ∀ j, row j ≤ row i
  reaches : p ≤ ∑ i ∈ kept out, w.probability temperature row i
  minimal : ∀ i ∈ kept out,
    (∀ j ∈ kept out, w.probability temperature row i ≤ w.probability temperature row j) →
      ∑ j ∈ (kept out).erase i, w.probability temperature row j < p
  descending : ∀ order : Equiv.Perm (Fin V), Antitone (row ∘ order) →
    ∃ swap : Equiv.Perm (Fin V), (∀ i, row (swap i) = row i) ∧
      ∀ i, i ∈ kept out
        ↔ DescendingKept (w.probability temperature row) order p (order.symm (swap i))

theorem filterTopPRow_rule (sort : AscendingSort V F) {temperature p : F} {row : LogitRow V F}
    (hp : 0 < p) (hp1 : p < 1) (hrow : ∃ i, row i ≠ ⊥) :
    TopPRule w temperature p row
      (filterTopPRow sort w.softmax temperature (1 - p) row) := by
  obtain ⟨finite, hfinite⟩ := hrow
  have hV : NeZero V := ⟨fun h => (h ▸ finite).elim0⟩
  set scaled := scaleRow temperature row with hscaled
  have hscaledRow : ∃ i, scaled i ≠ ⊥ := ⟨finite, fun h => hfinite (scaleRow_eq_bot.mp h)⟩
  have htotal := w.softmax_sum hscaledRow
  have hsorted := sort.ascending scaled
  have hmono : ∀ i j, scaled i ≤ scaled j → w.softmax scaled i ≤ w.softmax scaled j :=
    fun i j h => w.softmax_mono h
  have hout : ∀ i, filterTopPRow sort w.softmax temperature (1 - p) row i
      = if i ∈ nucleus (w.softmax scaled) (sort.order scaled) (1 - p) then row i else ⊥ := by
    intro i
    have hcum : ∀ j, ∑ k ∈ Finset.Iic j, w.softmax (scaled ∘ sort.order scaled) k
        = cumulativeMass (w.softmax scaled) (sort.order scaled) j :=
      fun j => Finset.sum_congr rfl fun k _ => w.softmax_comp scaled (sort.order scaled) k
    unfold filterTopPRow
    simp only [← hscaled, hcum, mem_nucleus, AscendingKept, decide_eq_true_eq]
    by_cases hkeep : ((sort.order scaled).symm i).val + 1 = V
        ∨ 1 - p < cumulativeMass (w.softmax scaled) (sort.order scaled)
            ((sort.order scaled).symm i)
    · rw [if_pos hkeep, if_neg]
      rintro ⟨hcut, hlast⟩
      exact hkeep.elim hlast fun h => absurd h (not_lt.mpr hcut)
    · rw [if_neg hkeep, if_pos]
      rw [not_or, not_lt] at hkeep
      exact ⟨hkeep.2, hkeep.1⟩
  -- A masked entry has no mass below it, so a positive cutoff drops it.
  have hmasked : ∀ i ∈ nucleus (w.softmax scaled) (sort.order scaled) (1 - p), row i ≠ ⊥ := by
    intro i hi hbot
    rw [mem_nucleus, ascendingKept_iff htotal hp] at hi
    have hbotScaled : scaled i = ⊥ := scaleRow_eq_bot.mpr hbot
    have hbelow : cumulativeMass (w.softmax scaled) (sort.order scaled)
        ((sort.order scaled).symm i) = 0 := by
      refine Finset.sum_eq_zero fun k hk => w.softmax_bot ?_
      have hle := hsorted (Finset.mem_Iic.mp hk)
      simp only [Function.comp_apply, Equiv.apply_symm_apply, hbotScaled, le_bot_iff] at hle
      exact hle
    have hsplit := cumulativeMass_add_above (sort.order scaled) htotal
      ((sort.order scaled).symm i)
    rw [hbelow, zero_add] at hsplit
    linarith
  have hkept : kept (filterTopPRow sort w.softmax temperature (1 - p) row)
      = nucleus (w.softmax scaled) (sort.order scaled) (1 - p) := by
    ext i
    simp only [kept, Finset.mem_filter, Finset.mem_univ, true_and, hout]
    by_cases hi : i ∈ nucleus (w.softmax scaled) (sort.order scaled) (1 - p)
    · simp [hi, hmasked i hi]
    · simp [hi]
  have hprobability : w.probability temperature row = w.softmax scaled := rfl
  refine ⟨fun i hi => ?_, ?_, ?_, fun i hi hleast => ?_, fun order horder => ?_⟩
  · rw [hkept] at hi
    rw [hout, if_pos hi]
  · have hexists : ∃ i ∈ nucleus (w.softmax scaled) (sort.order scaled) (1 - p),
        ∀ other, scaled other ≤ scaled i := exists_max_mem_nucleus hsorted (1 - p)
    obtain ⟨i, hi, hmax⟩ := hexists
    exact ⟨i, hkept ▸ hi, fun j => scaleRow_le_iff.mp (hmax j)⟩
  · rw [hkept, hprobability]
    exact bound_le_nucleus_mass (w.softmax_nonneg scaled) htotal hp1.le
  · rw [hkept, hprobability] at hleast ⊢
    rw [hkept] at hi
    exact nucleus_erase_lt (w.softmax_nonneg scaled) htotal hmono hsorted hp hi hleast
  · have hdescending : Antitone (scaled ∘ order) := fun i j hij =>
      scaleRow_le_iff.mpr (horder hij)
    obtain ⟨swap, hswap, hiff⟩ := nucleus_eq_descending htotal hmono hsorted hp hdescending
    refine ⟨swap, fun i => scaleRow_eq_iff.mp (hswap i), fun i => ?_⟩
    rw [hkept, hprobability]
    exact hiff i

end TopP

end NanoVllm
