/- module: NanoVllm/Library/Tensor
   layer: library
   digest: Shaped tables of entries, slices along one dimension, concatenation and block sums. -/

import Mathlib.Algebra.BigOperators.Group.Finset.Basic
import Mathlib.Algebra.BigOperators.Intervals
import Mathlib.Data.List.GetD
import Mathlib.Tactic.Common
import Mathlib.Tactic.Ring

set_option autoImplicit false
set_option relaxedAutoImplicit false

namespace NanoVllm.Library

/-- Entries under index lists; only the indices in the range of the shape count. -/
structure Tensor (α : Type) where
  shape : List Nat
  entry : List Nat → α

def InRange : List Nat → List Nat → Prop
  | [], [] => True
  | n :: shape, i :: idx => i < n ∧ InRange shape idx
  | _, _ => False

instance decidableInRange : ∀ shape idx, Decidable (InRange shape idx)
  | [], [] => .isTrue trivial
  | n :: shape, i :: idx =>
    have := decidableInRange shape idx
    inferInstanceAs (Decidable (i < n ∧ InRange shape idx))
  | [], _ :: _ => .isFalse id
  | _ :: _, [] => .isFalse id

def coordinate (dim : Nat) (idx : List Nat) : Nat := idx.getD dim 0

section Coordinates

variable {shape idx : List Nat} {dim : Nat}

theorem InRange.coordinate_lt (h : InRange shape idx) (hdim : dim < shape.length) :
    coordinate dim idx < shape.getD dim 0 := by
  induction shape generalizing idx dim with
  | nil => simp at hdim
  | cons n shape ih =>
    cases idx with
    | nil => exact h.elim
    | cons i idx =>
      cases dim with
      | zero => exact h.1
      | succ dim => exact ih h.2 (Nat.lt_of_succ_lt_succ hdim)

theorem InRange.modify {len : Nat} {f : Nat → Nat} (h : InRange shape idx)
    (hf : f (coordinate dim idx) < len) : InRange (shape.set dim len) (idx.modify dim f) := by
  induction shape generalizing idx dim with
  | nil =>
    cases idx with
    | nil => simp [InRange]
    | cons i idx => exact h.elim
  | cons n shape ih =>
    cases idx with
    | nil => exact h.elim
    | cons i idx =>
      cases dim with
      | zero => exact ⟨hf, h.2⟩
      | succ dim => exact ⟨h.1, ih h.2 hf⟩

theorem InRange.length_eq (h : InRange shape idx) : idx.length = shape.length := by
  induction shape generalizing idx with
  | nil =>
    cases idx with
    | nil => rfl
    | cons i idx => exact h.elim
  | cons n shape ih =>
    cases idx with
    | nil => exact h.elim
    | cons i idx => exact congrArg Nat.succ (ih h.2)

theorem InRange.pair {m k : Nat} (h : InRange [m, k] idx) :
    ∃ b j, idx = [b, j] ∧ b < m ∧ j < k := by
  obtain ⟨b, j, rfl⟩ := List.length_eq_two.mp h.length_eq
  exact ⟨b, j, rfl, h.1, h.2.1⟩

theorem coordinate_modify {f : Nat → Nat} (h : dim < idx.length) :
    coordinate dim (idx.modify dim f) = f (coordinate dim idx) := by
  simp [coordinate, List.getD_eq_getElem?_getD, h]

theorem modify_modify (f g : Nat → Nat) :
    (idx.modify dim f).modify dim g = idx.modify dim (g ∘ f) := by
  apply List.ext_getElem?
  intro k
  rw [List.getElem?_modify, List.getElem?_modify, List.getElem?_modify]
  by_cases hk : dim = k
  · simp only [hk, if_true]
    cases idx[k]? <;> rfl
  · simp [hk]

theorem modify_of_fixed {f : Nat → Nat} (h : f (coordinate dim idx) = coordinate dim idx) :
    idx.modify dim f = idx := by
  apply List.ext_getElem?
  intro k
  rw [List.getElem?_modify]
  by_cases hk : dim = k
  · subst hk
    cases hget : idx[dim]? with
    | none => simp
    | some i =>
      have hi : coordinate dim idx = i := by simp [coordinate, hget]
      simpa [hi] using h
  · simp [hk]

theorem set_getD_self (shape : List Nat) (dim : Nat) :
    shape.set dim (shape.getD dim 0) = shape := by
  apply List.ext_getElem?
  intro k
  rw [List.getElem?_set]
  by_cases hk : dim = k
  · subst hk
    by_cases hlt : dim < shape.length <;> simp [hlt]
  · simp [hk]

theorem getD_set_self (hdim : dim < shape.length) (n : Nat) :
    (shape.set dim n).getD dim 0 = n := by
  simp [List.getD_eq_getElem?_getD, hdim]

end Coordinates

namespace Tensor

variable {α β : Type}

def Same (t u : Tensor α) : Prop :=
  t.shape = u.shape ∧ ∀ idx, InRange t.shape idx → t.entry idx = u.entry idx

def slice (dim start len : Nat) (t : Tensor α) : Tensor α where
  shape := t.shape.set dim len
  entry idx := t.entry (idx.modify dim (· + start))

@[simp] theorem slice_shape (dim start len : Nat) (t : Tensor α) :
    (t.slice dim start len).shape = t.shape.set dim len := rfl

@[simp] theorem slice_entry (dim start len : Nat) (t : Tensor α) (idx : List Nat) :
    (t.slice dim start len).entry idx = t.entry (idx.modify dim (· + start)) := rfl

def cat (dim : Nat) (t : Tensor α) : List (Tensor α) → Tensor α
  | [] => t
  | u :: us =>
    let rest := cat dim u us
    let size := t.shape.getD dim 0
    { shape := t.shape.set dim (size + rest.shape.getD dim 0)
      entry := fun idx =>
        if coordinate dim idx < size then t.entry idx
        else rest.entry (idx.modify dim (· - size)) }

section Cat

variable {dim c : Nat}

theorem cat_size (t : Tensor α) (us : List (Tensor α))
    (hdim : ∀ u ∈ t :: us, dim < u.shape.length)
    (hsize : ∀ u ∈ t :: us, u.shape.getD dim 0 = c) :
    (cat dim t us).shape.getD dim 0 = (us.length + 1) * c := by
  induction us generalizing t with
  | nil => simpa [cat] using hsize t List.mem_cons_self
  | cons u us ih =>
    have hrest := ih u (fun v hv => hdim v (List.mem_cons_of_mem t hv))
      (fun v hv => hsize v (List.mem_cons_of_mem t hv))
    have hset := getD_set_self (hdim t List.mem_cons_self)
      (t.shape.getD dim 0 + (cat dim u us).shape.getD dim 0)
    rw [cat, hset, hrest, hsize t List.mem_cons_self, List.length_cons]
    ring

theorem cat_shape (t : Tensor α) (us : List (Tensor α))
    (hdim : ∀ u ∈ t :: us, dim < u.shape.length)
    (hsize : ∀ u ∈ t :: us, u.shape.getD dim 0 = c) :
    (cat dim t us).shape = t.shape.set dim ((us.length + 1) * c) := by
  cases us with
  | nil =>
    have hc : t.shape.getD dim 0 = c := hsize t List.mem_cons_self
    rw [cat, List.length_nil, Nat.zero_add, Nat.one_mul, ← hc, set_getD_self]
  | cons u us =>
    have hrest := cat_size u us (fun v hv => hdim v (List.mem_cons_of_mem t hv))
      (fun v hv => hsize v (List.mem_cons_of_mem t hv))
    have hc : t.shape.getD dim 0 = c := hsize t List.mem_cons_self
    have hsum : c + (us.length + 1) * c = ((u :: us).length + 1) * c := by
      rw [List.length_cons]
      ring
    rw [cat, hrest, hc, hsum]

theorem cat_entry (t : Tensor α) (us : List (Tensor α))
    (hsize : ∀ u ∈ t :: us, u.shape.getD dim 0 = c) {r j : Nat} {u : Tensor α}
    (hu : (t :: us)[r]? = some u) (hj : j < c) {idx : List Nat}
    (hlen : dim < idx.length) (hidx : coordinate dim idx = r * c + j) :
    (cat dim t us).entry idx = u.entry (idx.modify dim fun _ => j) := by
  induction us generalizing t r idx with
  | nil =>
    cases r with
    | succ r => simp at hu
    | zero =>
      have htu : t = u := by simpa using hu
      subst htu
      have hfix : idx.modify dim (fun _ => j) = idx :=
        modify_of_fixed (by simpa using hidx.symm)
      rw [hfix, cat]
  | cons v us ih =>
    have hc : t.shape.getD dim 0 = c := hsize t List.mem_cons_self
    cases r with
    | zero =>
      have htu : t = u := by simpa using hu
      subst htu
      have hlt : coordinate dim idx < t.shape.getD dim 0 := by rw [hidx, hc]; omega
      have hfix : idx.modify dim (fun _ => j) = idx :=
        modify_of_fixed (by simpa using hidx.symm)
      simp only [cat, if_pos hlt, hfix]
    | succ r =>
      have hge : ¬ coordinate dim idx < t.shape.getD dim 0 := by
        rw [hidx, hc, Nat.succ_mul]
        omega
      have hcoord : coordinate dim (idx.modify dim (· - t.shape.getD dim 0)) = r * c + j := by
        rw [coordinate_modify hlen, hidx, hc, Nat.succ_mul]
        omega
      have hrest := ih v (fun w hw => hsize w (List.mem_cons_of_mem t hw))
        (by simpa using hu) (by simpa using hlen) hcoord
      simp only [cat, if_neg hge]
      rw [hrest, modify_modify]
      rfl

end Cat

end Tensor

theorem sum_blocks {M : Type} [AddCommMonoid M] (n c : Nat) (f : Nat → M) :
    ∑ i ∈ Finset.range (n * c), f i
      = ∑ r ∈ Finset.range n, ∑ j ∈ Finset.range c, f (r * c + j) := by
  induction n with
  | zero => simp
  | succ n ih =>
    rw [Nat.succ_mul, Finset.sum_range_add, ih, Finset.sum_range_succ]

end NanoVllm.Library
