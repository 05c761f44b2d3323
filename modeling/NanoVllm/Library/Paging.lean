/- module: NanoVllm/Library/Paging
   layer: library
   digest: Rounding up to pages and the page arithmetic of a position. -/

import Mathlib.Data.Nat.Basic
import Mathlib.Tactic.Common
import Mathlib.Tactic.Ring

set_option autoImplicit false
set_option relaxedAutoImplicit false

namespace NanoVllm.Library

/-- The number of pages of size `size` that hold `n` positions. -/
def pagesFor (size n : Nat) : Nat := (n + size - 1) / size

variable {size n k p : Nat}

theorem pagesFor_le_iff (hs : 0 < size) : pagesFor size n ≤ k ↔ n ≤ k * size := by
  unfold pagesFor
  rw [← Nat.lt_succ_iff, Nat.div_lt_iff_lt_mul hs, Nat.succ_mul]
  omega

theorem lt_pagesFor_iff (hs : 0 < size) : k < pagesFor size n ↔ k * size < n := by
  rw [← Nat.not_le, pagesFor_le_iff hs, Nat.not_le]

theorem le_pagesFor_mul (hs : 0 < size) (n : Nat) : n ≤ pagesFor size n * size :=
  (pagesFor_le_iff hs).mp le_rfl

theorem pagesFor_mono (hs : 0 < size) {m : Nat} (h : n ≤ m) : pagesFor size n ≤ pagesFor size m :=
  (pagesFor_le_iff hs).mpr (h.trans (le_pagesFor_mul hs m))

theorem pagesFor_mul (hs : 0 < size) (k : Nat) : pagesFor size (k * size) = k := by
  apply Nat.le_antisymm
  · exact (pagesFor_le_iff hs).mpr le_rfl
  · by_contra h
    have hlt : pagesFor size (k * size) < k := Nat.lt_of_not_le h
    have hle := le_pagesFor_mul hs (k * size)
    exact absurd (Nat.le_of_mul_le_mul_right hle hs) (Nat.not_le.mpr hlt)

theorem pagesFor_eq_zero (hs : 0 < size) : pagesFor size n = 0 ↔ n = 0 := by
  rw [← Nat.le_zero, pagesFor_le_iff hs]
  omega

theorem div_le_pagesFor (hs : 0 < size) (n : Nat) : n / size ≤ pagesFor size n := by
  have h := le_pagesFor_mul hs n
  exact Nat.div_le_of_le_mul (by rwa [Nat.mul_comm])

theorem div_lt_of_lt_mul (h : p < k * size) : p / size < k :=
  Nat.div_lt_of_lt_mul (by rwa [Nat.mul_comm])

theorem pagesFor_succ_of_dvd (hs : 0 < size) (h : n % size = 0) :
    pagesFor size (n + 1) = pagesFor size n + 1 := by
  obtain ⟨q, rfl⟩ := Nat.dvd_of_mod_eq_zero h
  rw [Nat.mul_comm, pagesFor_mul hs]
  apply Nat.le_antisymm
  · rw [pagesFor_le_iff hs, Nat.succ_mul]
    omega
  · rw [Nat.succ_le_iff, lt_pagesFor_iff hs]
    omega

theorem pagesFor_succ_of_not_dvd (hs : 0 < size) (h : n % size ≠ 0) :
    pagesFor size (n + 1) = pagesFor size n := by
  apply Nat.le_antisymm
  · rw [pagesFor_le_iff hs]
    have hle := le_pagesFor_mul hs n
    rcases Nat.lt_or_eq_of_le hle with hlt | heq
    · omega
    · exact absurd (by rw [heq]; exact Nat.mul_mod_left _ _) h
  · exact pagesFor_mono hs (Nat.le_succ n)

theorem eq_of_div_mod_eq {q : Nat} (hd : p / size = q / size) (hm : p % size = q % size) :
    p = q := by
  rw [← Nat.div_add_mod p size, ← Nat.div_add_mod q size, hd, hm]

end NanoVllm.Library
