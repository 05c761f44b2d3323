/- module: NanoVllm/Library/Segments
   layer: library
   digest: A list cut into segments by its running boundaries. -/

import Mathlib.Algebra.Order.Ring.Nat
import Mathlib.Data.List.Basic
import Mathlib.Data.List.GetD
import Mathlib.Tactic.Common

set_option autoImplicit false
set_option relaxedAutoImplicit false

namespace NanoVllm.Library

variable {α β : Type*}

def boundaries : Nat → List Nat → List Nat
  | base, [] => [base]
  | base, n :: sizes => base :: boundaries (base + n) sizes

def segments : List Nat → List α → List (List α)
  | a :: b :: cuts, l => (l.drop a).take (b - a) :: segments (b :: cuts) l
  | _, _ => []

variable {base n : Nat} {sizes cuts : List Nat}

theorem boundaries_eq_cons (base : Nat) (sizes : List Nat) :
    boundaries base sizes = base :: (boundaries base sizes).tail := by
  cases sizes <;> rfl

theorem length_boundaries : (boundaries base sizes).length = sizes.length + 1 := by
  induction sizes generalizing base with
  | nil => rfl
  | cons n sizes ih =>
    unfold boundaries
    rw [List.length_cons, ih, List.length_cons]

theorem boundaries_getD_succ (base : Nat) {i : Nat} (hi : i < sizes.length) :
    (boundaries base sizes).getD (i + 1) 0 - (boundaries base sizes).getD i 0 =
      sizes.getD i 0 := by
  induction sizes generalizing base i with
  | nil => exact absurd hi (Nat.not_lt_zero i)
  | cons n sizes ih =>
    cases i with
    | zero =>
      rw [boundaries, boundaries_eq_cons]
      simp
    | succ i =>
      have hrest := ih (base + n) (Nat.lt_of_succ_lt_succ hi)
      rw [boundaries]
      simpa using hrest

theorem boundaries_getD_le (base : Nat) {i : Nat} (hi : i ≤ sizes.length) :
    (boundaries base sizes).getD i 0 ≤ base + sizes.sum := by
  induction sizes generalizing base i with
  | nil =>
    obtain rfl : i = 0 := Nat.le_zero.mp hi
    exact Nat.le_refl _
  | cons n sizes ih =>
    rw [List.sum_cons]
    cases i with
    | zero => exact Nat.le_add_right base _
    | succ i =>
      have hrest := ih (base + n) (Nat.le_of_succ_le_succ hi)
      rw [boundaries, List.getD_cons_succ]
      omega

theorem boundaries_replicate (base n k : Nat) :
    boundaries base (List.replicate k n) = (List.range (k + 1)).map fun i => base + i * n := by
  induction k generalizing base with
  | zero => simp [boundaries]
  | succ k ih =>
    have hrange : List.range (k + 1 + 1) = 0 :: (List.range (k + 1)).map Nat.succ :=
      List.range_succ_eq_map
    rw [List.replicate_succ, boundaries, ih, hrange, List.map_cons, List.map_map, Nat.zero_mul,
      Nat.add_zero]
    congr 1
    refine List.map_congr_left fun i _ => ?_
    dsimp only [Function.comp_apply]
    rw [Nat.succ_mul]
    omega

theorem getLast_flatMap {f : α → List β} {size : α → Nat} {xs : List α}
    (h : ∀ x ∈ xs, (f x).length = size x) (hpos : ∀ x ∈ xs, 0 < size x) (d : β)
    (before : List β) :
    (boundaries before.length (xs.map size)).tail.map
        (fun cut => (before ++ xs.flatMap f).getD (cut - 1) d) =
      xs.map fun x => (f x).getLastD d := by
  induction xs generalizing before with
  | nil => rfl
  | cons x xs ih =>
    have hx := h x List.mem_cons_self
    have hxpos := hpos x List.mem_cons_self
    have hrest := ih (fun y hy => h y (List.mem_cons_of_mem x hy))
      (fun y hy => hpos y (List.mem_cons_of_mem x hy)) (before ++ f x)
    rw [List.length_append, hx, List.append_assoc] at hrest
    rw [List.map_cons, List.map_cons, List.flatMap_cons, boundaries, List.tail_cons,
      boundaries_eq_cons, List.map_cons, hrest]
    congr 1
    have hindex : before.length + size x - 1 = before.length + (size x - 1) := by omega
    have hlt : size x - 1 < (f x).length := by omega
    rw [hindex, List.getD_append_right _ _ _ _ (by omega), Nat.add_sub_cancel_left,
      List.getD_append _ _ _ _ hlt, ← hx, List.getLastD_eq_getLast?, List.getLast?_eq_getElem?,
      List.getD_eq_getElem?_getD]

end NanoVllm.Library
