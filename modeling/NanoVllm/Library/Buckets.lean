/- module: NanoVllm/Library/Buckets
   layer: library
   digest: Increasing bucket sizes, the interval each one serves, and initial segments. -/

import Mathlib.Data.List.Sort
import Mathlib.Tactic.Common

set_option autoImplicit false
set_option relaxedAutoImplicit false

namespace NanoVllm.Library

def Adjacent (p b : Nat) : List Nat → Prop
  | x :: y :: l => p = x ∧ b = y ∨ Adjacent p b (y :: l)
  | _ => False

variable {p p' b b' c x a : Nat} {l : List Nat}

theorem Adjacent.mem_left (h : Adjacent p b l) : p ∈ l := by
  induction l with
  | nil => exact h.elim
  | cons x l ih =>
    cases l with
    | nil => exact h.elim
    | cons y l =>
      rcases h with ⟨rfl, -⟩ | h
      · exact List.mem_cons_self
      · exact List.mem_cons_of_mem x (ih h)

theorem Adjacent.mem_right (h : Adjacent p b (a :: l)) : b ∈ l := by
  induction l generalizing a with
  | nil => exact h.elim
  | cons y l ih =>
    rcases h with ⟨-, rfl⟩ | h
    · exact List.mem_cons_self
    · exact List.mem_cons_of_mem y (ih h)

theorem exists_adjacent (hx : a < x) (hb : b ∈ l) (hxb : x ≤ b) :
    ∃ p b, Adjacent p b (a :: l) ∧ p < x ∧ x ≤ b := by
  induction l generalizing a with
  | nil => exact absurd hb List.not_mem_nil
  | cons y l ih =>
    by_cases hy : x ≤ y
    · exact ⟨a, y, Or.inl ⟨rfl, rfl⟩, hx, hy⟩
    · rcases List.mem_cons.mp hb with rfl | hb
      · exact absurd hxb hy
      · obtain ⟨p, c, hadj, hp, hc⟩ := ih (Nat.lt_of_not_le hy) hb
        exact ⟨p, c, Or.inr hadj, hp, hc⟩

theorem exists_adjacent_of_mem (hb : b ∈ l) : ∃ p, Adjacent p b (a :: l) := by
  induction l generalizing a with
  | nil => exact absurd hb List.not_mem_nil
  | cons y l ih =>
    rcases List.mem_cons.mp hb with rfl | hb
    · exact ⟨a, Or.inl ⟨rfl, rfl⟩⟩
    · obtain ⟨p, hp⟩ := ih hb
      exact ⟨p, Or.inr hp⟩

section Increasing

variable (hl : l.Pairwise (· < ·))
include hl

theorem Adjacent.lt (h : Adjacent p b l) : p < b := by
  induction l with
  | nil => exact h.elim
  | cons x l ih =>
    cases l with
    | nil => exact h.elim
    | cons y l =>
      rcases h with ⟨rfl, rfl⟩ | h
      · exact List.rel_of_pairwise_cons hl List.mem_cons_self
      · exact ih hl.of_cons h

theorem Adjacent.le_of_lt (h : Adjacent p b l) (hc : c ∈ l) (hpc : p < c) : b ≤ c := by
  induction l with
  | nil => exact h.elim
  | cons x l ih =>
    cases l with
    | nil => exact h.elim
    | cons y l =>
      rcases h with ⟨rfl, rfl⟩ | h
      · rcases List.mem_cons.mp hc with rfl | hc
        · exact absurd hpc (Nat.lt_irrefl c)
        · rcases List.mem_cons.mp hc with rfl | hc
          · exact le_rfl
          · exact Nat.le_of_lt (List.rel_of_pairwise_cons hl.of_cons hc)
      · rcases List.mem_cons.mp hc with rfl | hc
        · exact absurd (List.rel_of_pairwise_cons hl h.mem_left) (Nat.lt_asymm hpc)
        · exact ih hl.of_cons h hc

theorem Adjacent.left_unique (h : Adjacent p b l) (h' : Adjacent p' b l) : p = p' := by
  have hlt := h.lt hl
  have hlt' := h'.lt hl
  by_contra hne
  rcases Nat.lt_or_gt_of_ne hne with hpp | hpp
  · have hle := h.le_of_lt hl h'.mem_left hpp
    omega
  · have hle := h'.le_of_lt hl h.mem_left hpp
    omega

end Increasing

theorem take_range' (s n k : Nat) : (List.range' s n).take k = List.range' s (min k n) := by
  rcases Nat.le_total n k with h | h
  · rw [List.take_range'_of_length_le h, Nat.min_eq_right h]
  · rw [List.take_range'_of_length_ge h, Nat.min_eq_left h]

theorem filter_range'_of_antitone {q : Nat → Bool} (hq : ∀ i j, i ≤ j → q j = true → q i = true)
    (m : Nat) : ∃ n, n ≤ m ∧ (List.range' 1 m).filter q = List.range' 1 n ∧
      ∀ k, 1 ≤ k → k ≤ m → (q k = true ↔ k ≤ n) := by
  induction m with
  | zero =>
    refine ⟨0, le_rfl, rfl, ?_⟩
    intro k h1 h2
    omega
  | succ m ih =>
    obtain ⟨n, hn, heq, hiff⟩ := ih
    have hsplit : List.range' 1 (m + 1) = List.range' 1 m ++ [m + 1] := by
      rw [List.range'_concat, Nat.one_mul, Nat.add_comm 1 m]
    rw [hsplit, List.filter_append, heq]
    cases hlast : q (m + 1) with
    | false =>
      refine ⟨n, Nat.le_succ_of_le hn, by simp [hlast], ?_⟩
      intro k h1 h2
      rcases Nat.lt_or_ge m k with hk | hk
      · obtain rfl : k = m + 1 := by omega
        simp only [hlast, Bool.false_eq_true, false_iff]
        omega
      · exact hiff k h1 hk
    | true =>
      have hall : n = m := by
        rcases Nat.eq_zero_or_pos m with rfl | hm
        · omega
        · exact Nat.le_antisymm hn ((hiff m hm le_rfl).mp (hq m (m + 1) (Nat.le_succ m) hlast))
      subst hall
      refine ⟨n + 1, le_rfl, by simp [hlast, hsplit], ?_⟩
      intro k h1 h2
      exact ⟨fun _ => h2, fun _ => hq k (n + 1) h2 hlast⟩

theorem filter_prefix_of_antitone {α : Type} {f : α → Nat} {q : Nat → Bool} {l : List α}
    (hf : l.map f = List.range' 1 l.length) (hq : ∀ i j, i ≤ j → q j = true → q i = true) :
    ∃ n, l.filter (fun a => q (f a)) = l.take n := by
  obtain ⟨n, hn, heq, hiff⟩ := filter_range'_of_antitone hq l.length
  refine ⟨n, ?_⟩
  have hget : ∀ i (hi : i < l.length), f l[i] = i + 1 := by
    intro i hi
    have h := congrArg (fun m => m[i]?) hf
    simp only [List.getElem?_map, List.getElem?_eq_getElem hi, Option.map_some] at h
    rw [List.getElem?_eq_getElem (by simpa using hi), List.getElem_range'] at h
    have := Option.some.inj h
    omega
  have htake : ∀ a ∈ l.take n, q (f a) = true := by
    intro a ha
    obtain ⟨i, hi, rfl⟩ := List.mem_iff_getElem.mp ha
    rw [List.length_take] at hi
    have hil : i < l.length := by omega
    rw [List.getElem_take, hget i hil]
    exact (hiff (i + 1) (by omega) (by omega)).mpr (by omega)
  have hdrop : ∀ a ∈ l.drop n, ¬ q (f a) = true := by
    intro a ha
    obtain ⟨i, hi, rfl⟩ := List.mem_iff_getElem.mp ha
    rw [List.length_drop] at hi
    have hil : n + i < l.length := by omega
    rw [List.getElem_drop, hget (n + i) hil]
    intro hcon
    have := (hiff (n + i + 1) (by omega) (by omega)).mp hcon
    omega
  calc l.filter (fun a => q (f a))
      = (l.take n ++ l.drop n).filter (fun a => q (f a)) := by rw [List.take_append_drop]
    _ = l.take n := by
        rw [List.filter_append, List.filter_eq_self.mpr htake,
          List.filter_eq_nil_iff.mpr hdrop, List.append_nil]

end NanoVllm.Library
