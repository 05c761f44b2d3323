/- module: NanoVllm/Routing/Catchup
   layer: main result
   source: nanovllm/engine/speculative_routes.py, max_eligible_draft_catchup
   digest: Four batch sizes suffice to find the largest catch-up of a K=1 cycle. -/

import NanoVllm.Engine.SpeculativeRoutes
import NanoVllm.Library.Call
import Mathlib.Data.Finset.Lattice.Fold
import Mathlib.Order.Interval.Finset.Nat
import Mathlib.Order.Lattice.Nat

set_option autoImplicit false
set_option relaxedAutoImplicit false

namespace NanoVllm

open Library

variable {M L cap : Nat} {best : Nat × Nat} {f : Nat → Nat} {lo hi : Nat} {l : List Nat}

/-- Between 1 and `cap` such a function is greatest at one of the two clipped turning points. -/
private theorem le_clipped_turn (hrise : ∀ a b, 1 ≤ a → a ≤ b → b ≤ lo → f a ≤ f b)
    (hfall : ∀ a b, hi ≤ a → a ≤ b → f b ≤ f a) (hturn : hi ≤ lo + 1) {B : Nat} (hB : 1 ≤ B)
    (hcap : B ≤ cap) :
    f B ≤ f (min (max lo 1) cap) ∨ f B ≤ f (min (max hi 1) cap) := by
  rcases Nat.lt_or_ge lo B with hlt | hle
  · exact Or.inr (hfall _ _ (by omega) (by omega))
  · exact Or.inl (hrise _ _ hB (by omega) (by omega))

/-- `max(min(M - 2B, B*(L-2)), 0)`. -/
def eligibleCatchup (M L B : Nat) : Nat :=
  (max (min ((M : Int) - 2 * B) ((B : Int) * ((L : Int) - 2))) 0).toNat

/-- Clipping the row cap at zero changes nothing, as the aggregate is clipped too. -/
private theorem catchupAggregate_eq (M L B : Nat) : catchupAggregate M L B = eligibleCatchup M L B := by
  unfold catchupAggregate eligibleCatchup
  dsimp only
  rcases Nat.lt_or_ge L 2 with hL | hL
  · have hneg : (B : Int) * ((L : Int) - 2) ≤ 0 :=
      Int.mul_nonpos_of_nonneg_of_nonpos (by omega) (by omega)
    rw [show ((L - 2 : Nat) : Int) = 0 by omega, Int.mul_zero]
    omega
  · rw [Int.natCast_sub hL]
    rfl

private theorem eligibleCatchup_rises {a b : Nat} (hab : a ≤ b) (hb : b ≤ M / L) :
    eligibleCatchup M L a ≤ eligibleCatchup M L b := by
  rcases Nat.eq_zero_or_pos L with rfl | hL
  · rw [Nat.div_zero] at hb
    rw [show a = b by omega]
  have hbudget : b * L ≤ M := (Nat.le_div_iff_mul_le hL).mp hb
  have hrows : (b : Int) * ((L : Int) - 2) ≤ (M : Int) - 2 * b := by
    have hcast : (b : Int) * (L : Int) ≤ (M : Int) := by exact_mod_cast hbudget
    rw [Int.mul_sub]
    omega
  unfold eligibleCatchup
  refine Int.toNat_le_toNat ?_
  rcases Nat.lt_or_ge L 2 with hL2 | hL2
  · have hneg : (a : Int) * ((L : Int) - 2) ≤ 0 :=
      Int.mul_nonpos_of_nonneg_of_nonpos (by omega) (by omega)
    omega
  · have hmono : (a : Int) * ((L : Int) - 2) ≤ (b : Int) * ((L : Int) - 2) :=
      Int.mul_le_mul_of_nonneg_right (by omega) (by omega)
    omega

/-- From the first batch that `M / L` does not exceed on, the token budget bounds it. -/
private theorem eligibleCatchup_falls {a b : Nat} (ha : M ≤ a * L) (hab : a ≤ b) :
    eligibleCatchup M L b ≤ eligibleCatchup M L a := by
  have hbudget : (M : Int) - 2 * a ≤ (a : Int) * ((L : Int) - 2) := by
    have hcast : (M : Int) ≤ (a : Int) * (L : Int) := by exact_mod_cast ha
    rw [Int.mul_sub]
    omega
  unfold eligibleCatchup
  refine Int.toNat_le_toNat ?_
  omega

structure ScannedCatchup (M L : Nat) (l : List Nat) (best : Nat × Nat) : Prop where
  greatest : ∀ B ∈ l, catchupAggregate M L B ≤ best.1
  attained : best = (0, 0) ∨ best.2 ∈ l ∧ best.1 = catchupAggregate M L best.2

private theorem ScannedCatchup.nil (M L : Nat) : ScannedCatchup M L [] (0, 0) :=
  ⟨by simp, Or.inl rfl⟩

private theorem ScannedCatchup.concat {B : Nat} (h : ScannedCatchup M L l best) :
    ScannedCatchup M L (l ++ [B]) (betterCatchup M L best B) := by
  unfold betterCatchup
  dsimp only
  split
  · rename_i hlt
    refine ⟨fun C hC => ?_, Or.inr ⟨by simp, rfl⟩⟩
    rcases List.mem_append.mp hC with hC | hC
    · exact (h.greatest C hC).trans hlt.le
    · rw [List.mem_singleton.mp hC]
  · rename_i hle
    refine ⟨fun C hC => ?_, ?_⟩
    · rcases List.mem_append.mp hC with hC | hC
      · exact h.greatest C hC
      · rw [List.mem_singleton.mp hC]
        exact Nat.le_of_not_lt hle
    · rcases h.attained with hzero | ⟨hmem, heq⟩
      · exact Or.inl hzero
      · exact Or.inr ⟨List.mem_append_left _ hmem, heq⟩

private theorem scannedCatchup (M L : Nat) (l : List Nat) :
    ScannedCatchup M L l (l.foldl (betterCatchup M L) (0, 0)) := by
  induction l using List.reverseRecOn with
  | nil => exact .nil M L
  | append_singleton l B ih =>
    rw [List.foldl_concat]
    exact ih.concat

private theorem mem_catchupCandidates {B : Nat} : B ∈ catchupCandidates M L cap ↔
    B = 1 ∨ B = cap ∨ B = min (max (M / L) 1) cap ∨
      B = min (max (M / L + if 0 < M % L then 1 else 0) 1) cap := by
  unfold catchupCandidates
  rw [List.mem_insertionSort, List.mem_dedup]
  simp

private theorem eligibleCatchup_le_candidate (hL : 0 < L) {B : Nat} (hB : 1 ≤ B) (hcap : B ≤ cap) :
    ∃ C ∈ catchupCandidates M L cap, eligibleCatchup M L B ≤ eligibleCatchup M L C := by
  have hceil : M ≤ (M / L + if 0 < M % L then 1 else 0) * L := by
    have hdiv := Nat.div_add_mod M L
    have hlt := Nat.mod_lt M hL
    split
    · rw [Nat.add_mul, Nat.one_mul, Nat.mul_comm]
      omega
    · rw [Nat.add_zero, Nat.mul_comm]
      omega
  have hturn : eligibleCatchup M L B ≤ eligibleCatchup M L (min (max (M / L) 1) cap) ∨
      eligibleCatchup M L B ≤ eligibleCatchup M L
        (min (max (M / L + if 0 < M % L then 1 else 0) 1) cap) := by
    refine le_clipped_turn (fun a b _ hab hb => eligibleCatchup_rises hab hb) (fun a b ha hab => ?_)
      (by split <;> omega) hB hcap
    exact eligibleCatchup_falls (hceil.trans (Nat.mul_le_mul_right L ha)) hab
  rcases hturn with hle | hle
  · exact ⟨_, mem_catchupCandidates.mpr (by simp), hle⟩
  · exact ⟨_, mem_catchupCandidates.mpr (by simp), hle⟩

private theorem catchupCandidates_range (hcap : 0 < cap) {B : Nat}
    (hB : B ∈ catchupCandidates M L cap) : 1 ≤ B ∧ B ≤ cap := by
  rcases mem_catchupCandidates.mp hB with rfl | rfl | rfl | rfl <;> omega

/-- The first component is the maximum over every batch up to the cap, and a positive one is
attained at the returned batch. -/
theorem max_eligible_draft_catchup_exact (M L cap : Nat) :
    ∃ best, maxEligibleDraftCatchup M L cap = .ok best ∧
      best.1 = (Finset.Icc 1 cap).sup (eligibleCatchup M L) ∧
      (0 < best.1 → 1 ≤ best.2 ∧ best.2 ≤ cap ∧ eligibleCatchup M L best.2 = best.1) := by
  have hnat : ∀ (name : String) (n : Nat), nonNegative name (n : Int) = .ok n := by
    intro name n
    unfold nonNegative
    rw [if_neg (by omega), Int.toNat_natCast]
  have hcall : maxEligibleDraftCatchup M L cap =
      if cap = 0 ∨ L = 0 then .ok (0, 0)
      else .ok ((catchupCandidates M L cap).foldl (betterCatchup M L) (0, 0)) := by
    unfold maxEligibleDraftCatchup
    rw [Call.except_bind_of_ok (hnat _ M), Call.except_bind_of_ok (hnat _ L),
      Call.except_bind_of_ok (hnat _ cap)]
    split <;> rfl
  rw [hcall]
  by_cases hzero : cap = 0 ∨ L = 0
  · rw [if_pos hzero]
    refine ⟨(0, 0), rfl, ?_, fun h => absurd h (Nat.lt_irrefl 0)⟩
    refine (Nat.le_zero.mp (Finset.sup_le fun B hB => ?_)).symm
    obtain ⟨hB1, hBcap⟩ := Finset.mem_Icc.mp hB
    rcases hzero with rfl | rfl
    · omega
    · unfold eligibleCatchup
      omega
  · rw [if_neg hzero]
    have hcap : 0 < cap := by omega
    have hscan := scannedCatchup M L (catchupCandidates M L cap)
    obtain ⟨best, hbest⟩ : ∃ best, best =
      (catchupCandidates M L cap).foldl (betterCatchup M L) (0, 0) := ⟨_, rfl⟩
    rw [← hbest] at hscan ⊢
    have hattained : 0 < best.1 →
        1 ≤ best.2 ∧ best.2 ≤ cap ∧ eligibleCatchup M L best.2 = best.1 := by
      intro hpos
      rcases hscan.attained with heq | ⟨hmem, heq⟩
      · rw [heq] at hpos
        exact absurd hpos (Nat.lt_irrefl 0)
      · obtain ⟨h1, hle⟩ := catchupCandidates_range hcap hmem
        exact ⟨h1, hle, by rw [heq, catchupAggregate_eq]⟩
    refine ⟨best, rfl, Nat.le_antisymm ?_ (Finset.sup_le fun B hB => ?_), hattained⟩
    · rcases Nat.eq_zero_or_pos best.1 with hnone | hpos
      · rw [hnone]
        exact Nat.zero_le _
      · obtain ⟨h1, hle, heq⟩ := hattained hpos
        rw [← heq]
        exact Finset.le_sup (f := eligibleCatchup M L) (Finset.mem_Icc.mpr ⟨h1, hle⟩)
    · obtain ⟨hB1, hBcap⟩ := Finset.mem_Icc.mp hB
      obtain ⟨C, hC, hle⟩ := eligibleCatchup_le_candidate (M := M) (L := L) (by omega) hB1 hBcap
      have hgreatest := hscan.greatest C hC
      rw [catchupAggregate_eq] at hgreatest
      exact hle.trans hgreatest

end NanoVllm
