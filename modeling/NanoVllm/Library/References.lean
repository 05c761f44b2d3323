/- module: NanoVllm/Library/References
   layer: library
   digest: Reference counts of shared entries over a family of tables. -/

import Mathlib.Algebra.BigOperators.Group.List.Basic
import Mathlib.Algebra.Order.BigOperators.Group.List
import Mathlib.Algebra.Order.Group.Nat
import Mathlib.Algebra.Order.Ring.Nat
import Mathlib.Data.List.Count
import Mathlib.Tactic.Common

set_option autoImplicit false
set_option relaxedAutoImplicit false

namespace NanoVllm.Library

variable {ι β : Type} [DecidableEq β]

def references (table : ι → List β) (live : List ι) (b : β) : Nat :=
  (live.map fun i => (table i).count b).sum

@[simp] theorem references_nil (table : ι → List β) (b : β) : references table [] b = 0 := rfl

@[simp] theorem references_cons (table : ι → List β) (i : ι) (live : List ι) (b : β) :
    references table (i :: live) b = (table i).count b + references table live b := by
  simp [references]

theorem references_perm (table : ι → List β) {live live' : List ι} (h : live.Perm live') (b : β) :
    references table live b = references table live' b :=
  (h.map _).sum_eq

theorem references_congr {table table' : ι → List β} {live : List ι}
    (h : ∀ i ∈ live, table i = table' i) (b : β) :
    references table live b = references table' live b := by
  unfold references
  rw [List.map_congr_left]
  intro i hi
  rw [h i hi]

theorem count_le_references (table : ι → List β) {live : List ι} {i : ι} (hi : i ∈ live) (b : β) :
    (table i).count b ≤ references table live b :=
  List.single_le_sum (by simp) _ (List.mem_map_of_mem hi)

theorem references_eq_zero {table : ι → List β} {live : List ι} {b : β} :
    references table live b = 0 ↔ ∀ i ∈ live, b ∉ table i := by
  induction live with
  | nil => simp
  | cons i live ih =>
    rw [references_cons, Nat.add_eq_zero_iff, ih, List.count_eq_zero]
    simp

theorem references_pos {table : ι → List β} {live : List ι} {b : β} :
    0 < references table live b ↔ ∃ i ∈ live, b ∈ table i := by
  rw [Nat.pos_iff_ne_zero, Ne, references_eq_zero]
  push Not
  rfl

theorem references_update [DecidableEq ι] (table : ι → List β) {live : List ι} (hnd : live.Nodup)
    {i : ι} (hi : i ∈ live) (t : List β) (b : β) :
    references (Function.update table i t) live b + (table i).count b =
      references table live b + t.count b := by
  induction live with
  | nil => simp at hi
  | cons j live ih =>
    obtain ⟨hj, hnd'⟩ := List.nodup_cons.mp hnd
    rw [references_cons, references_cons]
    by_cases hij : i = j
    · subst hij
      have hrest : references (Function.update table i t) live b = references table live b := by
        apply references_congr
        intro k hk
        exact Function.update_of_ne (fun h => hj (by rwa [h] at hk)) _ _
      rw [hrest, Function.update_self]
      omega
    · have hmem : i ∈ live := by
        rcases List.mem_cons.mp hi with h | h
        · exact absurd h hij
        · exact h
      have hrec := ih hnd' hmem
      rw [Function.update_of_ne (Ne.symm hij)]
      omega

theorem eq_of_references_eq_one {table : ι → List β} {live : List ι} (hnd : live.Nodup) {b : β}
    (h : references table live b = 1) {i j : ι} (hi : i ∈ live) (hj : j ∈ live)
    (hbi : b ∈ table i) (hbj : b ∈ table j) : i = j := by
  induction live with
  | nil => simp at hi
  | cons k live ih =>
    obtain ⟨hk, hnd'⟩ := List.nodup_cons.mp hnd
    rw [references_cons] at h
    by_cases hbk : b ∈ table k
    · have hpos : 0 < (table k).count b := List.count_pos_iff.mpr hbk
      have hzero : references table live b = 0 := by omega
      have hnone := references_eq_zero.mp hzero
      have hik : i = k := by
        rcases List.mem_cons.mp hi with h' | h'
        · exact h'
        · exact absurd hbi (hnone i h')
      have hjk : j = k := by
        rcases List.mem_cons.mp hj with h' | h'
        · exact h'
        · exact absurd hbj (hnone j h')
      rw [hik, hjk]
    · have hcount : (table k).count b = 0 := List.count_eq_zero.mpr hbk
      have hi' : i ∈ live := by
        rcases List.mem_cons.mp hi with h' | h'
        · exact absurd (h' ▸ hbi) hbk
        · exact h'
      have hj' : j ∈ live := by
        rcases List.mem_cons.mp hj with h' | h'
        · exact absurd (h' ▸ hbj) hbk
        · exact h'
      exact ih hnd' (by omega) hi' hj'

theorem getElem?_inj_of_count {l : List β} {b : β} (h : l.count b ≤ 1) {i j : Nat}
    (hi : l[i]? = some b) (hj : l[j]? = some b) : i = j := by
  induction l generalizing i j with
  | nil => simp at hi
  | cons a l ih =>
    have hnot : ∀ k : Nat, a = b → l[k]? ≠ some b := by
      intro k hab hk
      have hpos : 0 < l.count b := List.count_pos_iff.mpr (List.mem_of_getElem? hk)
      rw [hab, List.count_cons_self] at h
      omega
    cases i with
    | zero =>
      have hab : a = b := by simpa using hi
      cases j with
      | zero => rfl
      | succ j => exact absurd (by simpa using hj) (hnot j hab)
    | succ i =>
      cases j with
      | zero => exact absurd (by simpa using hi) (hnot i (by simpa using hj))
      | succ j =>
        have hle : l.count b ≤ 1 := (List.count_le_count_cons).trans h
        exact congrArg Nat.succ (ih hle (by simpa using hi) (by simpa using hj))

end NanoVllm.Library
