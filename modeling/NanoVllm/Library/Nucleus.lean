/- module: NanoVllm/Library/Nucleus
   layer: library
   digest: The smallest set of highest-ranked entries whose mass reaches a bound, read from an
     ascending order by cumulative mass or from a descending one by the mass before an entry. -/

import Mathlib.Algebra.BigOperators.Fin
import Mathlib.Algebra.Order.BigOperators.Group.Finset
import Mathlib.Algebra.Order.Field.Basic
import Mathlib.Data.Fin.Tuple.Sort
import Mathlib.Order.Fin.Basic
import Mathlib.Tactic.Linarith

set_option autoImplicit false
set_option relaxedAutoImplicit false

namespace NanoVllm.Library

variable {n : Nat} {α F : Type} [LinearOrder α] [Field F] [LinearOrder F] [IsStrictOrderedRing F]

def cumulativeMass (mass : Fin n → F) (order : Equiv.Perm (Fin n)) (j : Fin n) : F :=
  ∑ i ∈ Finset.Iic j, mass (order i)

/-- An ascending position stays when the mass up to it exceeds the cutoff, and the last one always
does. -/
def AscendingKept (mass : Fin n → F) (order : Equiv.Perm (Fin n)) (cutoff : F) (j : Fin n) :
    Prop :=
  j.val + 1 = n ∨ cutoff < cumulativeMass mass order j

/-- A descending position stays while the mass strictly before it is below the bound. -/
def DescendingKept (mass : Fin n → F) (order : Equiv.Perm (Fin n)) (bound : F) (j : Fin n) :
    Prop :=
  ∑ i ∈ Finset.Iio j, mass (order i) < bound

def nucleus (mass : Fin n → F) (order : Equiv.Perm (Fin n)) (cutoff : F) : Finset (Fin n) :=
  Finset.univ.filter fun i =>
    (order.symm i).val + 1 = n ∨ cutoff < cumulativeMass mass order (order.symm i)

section Mass

variable {mass : Fin n → F} {order : Equiv.Perm (Fin n)} {bound : F}

omit [IsStrictOrderedRing F] in
theorem mem_nucleus {cutoff : F} {i : Fin n} :
    i ∈ nucleus mass order cutoff ↔ AscendingKept mass order cutoff (order.symm i) := by
  simp [nucleus, AscendingKept]

omit [LinearOrder F] [IsStrictOrderedRing F] in
theorem cumulativeMass_add_above (order : Equiv.Perm (Fin n)) (htotal : ∑ i, mass i = 1)
    (j : Fin n) :
    cumulativeMass mass order j + ∑ i ∈ Finset.Ioi j, mass (order i) = 1 := by
  have hsplit : Finset.univ.filter (fun i => ¬ i ≤ j) = Finset.Ioi j := by
    ext i
    simp
  have hlow : Finset.univ.filter (fun i => i ≤ j) = Finset.Iic j := by
    ext i
    simp
  have hsum := Finset.sum_filter_add_sum_filter_not Finset.univ (fun i => i ≤ j)
    fun i => mass (order i)
  rw [hsplit, hlow, Equiv.sum_comp order mass, htotal] at hsum
  exact hsum

theorem ascendingKept_iff (htotal : ∑ i, mass i = 1) (hbound : 0 < bound) (j : Fin n) :
    AscendingKept mass order (1 - bound) j ↔ ∑ i ∈ Finset.Ioi j, mass (order i) < bound := by
  have hsplit := cumulativeMass_add_above order htotal j
  constructor
  · rintro (hlast | hcut)
    · have hempty : Finset.Ioi j = ∅ := by
        ext i
        simp only [Finset.mem_Ioi, Finset.notMem_empty, iff_false, not_lt]
        exact Fin.le_def.mpr (by have := i.isLt; omega)
      rw [hempty, Finset.sum_empty]
      exact hbound
    · linarith
  · intro habove
    exact Or.inr (by linarith)

theorem AscendingKept.mono (hnonneg : ∀ i, 0 ≤ mass i) {cutoff : F} {j k : Fin n} (hjk : j ≤ k)
    (h : AscendingKept mass order cutoff j) : AscendingKept mass order cutoff k := by
  rcases h with hlast | hcut
  · exact Or.inl (by have := k.isLt; have := Fin.le_def.mp hjk; omega)
  · refine Or.inr (hcut.trans_le ?_)
    exact Finset.sum_le_sum_of_subset_of_nonneg (Finset.Iic_subset_Iic.mpr hjk)
      fun i _ _ => hnonneg (order i)

theorem dropped_mass_le (hnonneg : ∀ i, 0 ≤ mass i) {cutoff : F} (hcutoff : 0 ≤ cutoff) :
    ∑ i ∈ Finset.univ \ nucleus mass order cutoff, mass i ≤ cutoff := by
  classical
  let dropped : Finset (Fin n) :=
    Finset.univ.filter fun j => ¬ AscendingKept mass order cutoff j
  have himage : Finset.univ \ nucleus mass order cutoff = dropped.map order.toEmbedding := by
    ext i
    simp only [Finset.mem_sdiff, Finset.mem_univ, true_and, mem_nucleus, dropped,
      Finset.mem_map_equiv, Finset.mem_filter]
  rw [himage, Finset.sum_map]
  rcases dropped.eq_empty_or_nonempty with hempty | hne
  · rw [hempty, Finset.sum_empty]
    exact hcutoff
  · have hmax := dropped.max'_mem hne
    have hnot : ¬ AscendingKept mass order cutoff (dropped.max' hne) :=
      (Finset.mem_filter.mp hmax).2
    have hsub : dropped ⊆ Finset.Iic (dropped.max' hne) := fun j hj =>
      Finset.mem_Iic.mpr (dropped.le_max' j hj)
    calc ∑ j ∈ dropped, mass (order j)
        ≤ cumulativeMass mass order (dropped.max' hne) :=
          Finset.sum_le_sum_of_subset_of_nonneg hsub fun i _ _ => hnonneg (order i)
      _ ≤ cutoff := not_lt.mp fun h => hnot (Or.inr h)

theorem bound_le_nucleus_mass (hnonneg : ∀ i, 0 ≤ mass i) (htotal : ∑ i, mass i = 1)
    (hbound : bound ≤ 1) : bound ≤ ∑ i ∈ nucleus mass order (1 - bound), mass i := by
  have hdropped : ∑ i ∈ Finset.univ \ nucleus mass order (1 - bound), mass i ≤ 1 - bound :=
    dropped_mass_le hnonneg (by linarith)
  have hsplit := Finset.sum_sdiff (Finset.subset_univ (nucleus mass order (1 - bound)))
    (f := mass)
  rw [htotal] at hsplit
  linarith

end Mass

section Ranked

variable {score : Fin n → α} {mass : Fin n → F} {order : Equiv.Perm (Fin n)} {bound : F}

omit [IsStrictOrderedRing F] in
theorem exists_max_mem_nucleus [NeZero n] (hsorted : Monotone (score ∘ order)) (cutoff : F) :
    ∃ i ∈ nucleus mass order cutoff, ∀ other, score other ≤ score i := by
  have hpos : 0 < n := Nat.pos_of_ne_zero (NeZero.ne n)
  let last : Fin n := ⟨n - 1, by omega⟩
  refine ⟨order last, ?_, fun other => ?_⟩
  · rw [mem_nucleus, Equiv.symm_apply_apply]
    exact Or.inl (by simp only [last]; omega)
  · have hle : order.symm other ≤ last := Fin.le_def.mpr (by
      have := (order.symm other).isLt
      simp only [last]
      omega)
    simpa using hsorted hle

theorem nucleus_erase_lt (hnonneg : ∀ i, 0 ≤ mass i) (htotal : ∑ i, mass i = 1)
    (hmono : ∀ i j, score i ≤ score j → mass i ≤ mass j) (hsorted : Monotone (score ∘ order))
    (hbound : 0 < bound) {i : Fin n} (hi : i ∈ nucleus mass order (1 - bound))
    (hleast : ∀ j ∈ nucleus mass order (1 - bound), mass i ≤ mass j) :
    ∑ j ∈ (nucleus mass order (1 - bound)).erase i, mass j < bound := by
  classical
  let kept : Finset (Fin n) :=
    Finset.univ.filter fun j => AscendingKept mass order (1 - bound) j
  have himage : nucleus mass order (1 - bound) = kept.map order.toEmbedding := by
    ext j
    simp only [mem_nucleus, kept, Finset.mem_map_equiv, Finset.mem_filter, Finset.mem_univ,
      true_and]
  have hne : kept.Nonempty := ⟨order.symm i, by
    simpa [kept] using mem_nucleus.mp hi⟩
  have hfirst : AscendingKept mass order (1 - bound) (kept.min' hne) :=
    (Finset.mem_filter.mp (kept.min'_mem hne)).2
  have hkept : kept = Finset.Ici (kept.min' hne) := by
    ext j
    rw [Finset.mem_Ici]
    refine ⟨fun hj => kept.min'_le j hj, fun hj => ?_⟩
    exact Finset.mem_filter.mpr ⟨Finset.mem_univ j, hfirst.mono hnonneg hj⟩
  have hlight : mass i = mass (order (kept.min' hne)) := by
    refine le_antisymm (hleast _ ?_) ?_
    · rw [mem_nucleus, Equiv.symm_apply_apply]
      exact hfirst
    · refine hmono _ _ ?_
      have hle : kept.min' hne ≤ order.symm i := kept.min'_le _ (by
        simpa [kept] using mem_nucleus.mp hi)
      simpa using hsorted hle
  have htotalKept : ∑ j ∈ nucleus mass order (1 - bound), mass j
      = mass (order (kept.min' hne)) + ∑ j ∈ Finset.Ioi (kept.min' hne), mass (order j) := by
    rw [himage, Finset.sum_map]
    calc ∑ j ∈ kept, mass (order j)
        = ∑ j ∈ Finset.Ici (kept.min' hne), mass (order j) := by rw [← hkept]
      _ = mass (order (kept.min' hne)) + ∑ j ∈ Finset.Ioi (kept.min' hne), mass (order j) := by
          rw [← Finset.Ioi_insert, Finset.sum_insert (by simp)]
  have habove := (ascendingKept_iff htotal hbound _).mp hfirst
  have herase := Finset.sum_erase_add (nucleus mass order (1 - bound)) mass hi
  linarith

theorem nucleus_eq_descending (htotal : ∑ i, mass i = 1)
    (hmono : ∀ i j, score i ≤ score j → mass i ≤ mass j) (hsorted : Monotone (score ∘ order))
    (hbound : 0 < bound) {descending : Equiv.Perm (Fin n)}
    (hdescending : Antitone (score ∘ descending)) :
    ∃ swap : Equiv.Perm (Fin n), (∀ i, score (swap i) = score i) ∧
      ∀ i, i ∈ nucleus mass order (1 - bound)
        ↔ DescendingKept mass descending bound (descending.symm (swap i)) := by
  let ascending : Equiv.Perm (Fin n) := Fin.revPerm.trans descending
  have hascending : Monotone (score ∘ ascending) := fun i j hij =>
    hdescending (Fin.rev_le_rev.mpr hij)
  have hsame : score ∘ order = score ∘ ascending := Tuple.unique_monotone hsorted hascending
  have hmass : ∀ i, mass (order i) = mass (ascending i) := by
    intro i
    have hscore : score (order i) = score (ascending i) := congrFun hsame i
    exact le_antisymm (hmono _ _ hscore.le) (hmono _ _ hscore.ge)
  refine ⟨order.symm.trans ascending, fun i => ?_, fun i => ?_⟩
  · have hscore := congrFun hsame (order.symm i)
    simpa using hscore.symm
  · have hposition : descending.symm ((order.symm.trans ascending) i)
        = Fin.rev (order.symm i) := by
      simp [ascending]
    have hbefore : ∑ k ∈ Finset.Iio (Fin.rev (order.symm i)), mass (descending k)
        = ∑ k ∈ Finset.Ioi (order.symm i), mass (order k) := by
      symm
      refine Finset.sum_bij (fun k _ => Fin.rev k) ?_ ?_ ?_ ?_
      · intro k hk
        exact Finset.mem_Iio.mpr (Fin.rev_lt_rev.mpr (Finset.mem_Ioi.mp hk))
      · intro k _ l _ hkl
        exact Fin.rev_injective hkl
      · intro k hk
        refine ⟨Fin.rev k, ?_, Fin.rev_rev k⟩
        rw [Finset.mem_Ioi, ← Fin.rev_lt_rev, Fin.rev_rev]
        exact Finset.mem_Iio.mp hk
      · intro k _
        rw [hmass k]
        rfl
    rw [mem_nucleus, ascendingKept_iff htotal hbound, DescendingKept, hposition, hbefore]

end Ranked

section Largest

/-- The elements of a list from the largest down. -/
def descendingList (l : List α) : List α := l.mergeSort fun a b => decide (b ≤ a)

theorem descendingList_pairwise (l : List α) : (descendingList l).Pairwise (· ≥ ·) := by
  have hsorted : (descendingList l).Pairwise fun a b => decide (b ≤ a) = true :=
    List.pairwise_mergeSort
      (fun a b c hab hbc => by
        simp only [decide_eq_true_eq] at hab hbc ⊢
        exact hbc.trans hab)
      (fun a b => by
        simp only [Bool.or_eq_true, decide_eq_true_eq]
        exact le_total b a) l
  exact hsorted.imp fun h => by simpa using h

theorem descendingList_perm (l : List α) : (descendingList l).Perm l :=
  List.mergeSort_perm l _

theorem le_iff_countP_lt {l : List α} (hl : l.Pairwise (· ≥ ·)) {k : Nat} (hk : k < l.length)
    (x : α) : l[k] ≤ x ↔ l.countP (fun a => decide (x < a)) < k + 1 := by
  have hsplit : l = l.take k ++ l[k] :: l.drop (k + 1) := by
    rw [← List.drop_eq_getElem_cons hk, List.take_append_drop]
  have hparts := hl
  rw [hsplit, List.pairwise_append] at hparts
  obtain ⟨-, htail, hcross⟩ := hparts
  have hafter := (List.pairwise_cons.mp htail).1
  have hlen : (l.take k).length = k := by rw [List.length_take]; omega
  have hcount : l.countP (fun a => decide (x < a)) = (l.take k).countP (fun a => decide (x < a))
      + (l[k] :: l.drop (k + 1)).countP fun a => decide (x < a) := by
    rw [← List.countP_append, ← hsplit]
  rw [hcount, List.countP_cons]
  constructor
  · intro hle
    have hnone : (l.drop (k + 1)).countP (fun a => decide (x < a)) = 0 := by
      rw [List.countP_eq_zero]
      intro a ha
      simpa using (hafter a ha).trans hle
    have hhead : ¬ x < l[k] := not_lt.mpr hle
    have hfirst := List.countP_le_length (p := fun a => decide (x < a)) (l := l.take k)
    simp only [hnone, decide_eq_true_eq, if_neg hhead]
    omega
  · intro hlt
    by_contra hgt
    have hgt' : x < l[k] := not_le.mp hgt
    have hall : (l.take k).countP (fun a => decide (x < a)) = (l.take k).length := by
      rw [List.countP_eq_length]
      intro a ha
      have hge : l[k] ≤ a := hcross a ha l[k] List.mem_cons_self
      simpa using hgt'.trans_le hge
    simp only [decide_eq_true_eq, if_pos hgt', hall, hlen] at hlt
    omega

end Largest

end NanoVllm.Library
