/- module: NanoVllm/Sharding/Outputs
   layer: refinement
   digest: Both linear kernels compute the same affine map; side by side or summed, the ranks'
     outputs are the unsharded one. -/

import NanoVllm.Sharding.Tiling

set_option autoImplicit false
set_option relaxedAutoImplicit false

open NanoVllm.Library

namespace NanoVllm

section LastCoordinate

theorem modify_last (ls : List Nat) (c : Nat) (f : Nat → Nat) :
    (ls ++ [c]).modify ls.length f = ls ++ [f c] := by
  induction ls with
  | nil => rfl
  | cons i ls ih => simp only [List.cons_append, List.length_cons, List.modify_succ_cons, ih]

theorem inRange_last {lead idx : List Nat} {n : Nat} (h : InRange (lead ++ [n]) idx) :
    ∃ ls c, idx = ls ++ [c] ∧ InRange lead ls ∧ c < n := by
  induction lead generalizing idx with
  | nil =>
    match idx, h with
    | [c], h => exact ⟨[], c, rfl, trivial, h.1⟩
  | cons m lead ih =>
    cases idx with
    | nil => exact h.elim
    | cons i idx =>
      obtain ⟨ls, c, rfl, hls, hc⟩ := ih h.2
      exact ⟨i :: ls, c, rfl, ⟨h.1, hls⟩, hc⟩

theorem set_last (lead : List Nat) (n m : Nat) :
    (lead ++ [n]).set lead.length m = lead ++ [m] := by
  induction lead with
  | nil => rfl
  | cons i lead ih => simp only [List.cons_append, List.length_cons, List.set_cons_succ, ih]

private theorem getD_lead_last (lead : List Nat) (n : Nat) : (lead ++ [n]).getD lead.length 0 = n := by
  simp

end LastCoordinate

section Affine

variable {F : Type} [Semiring F]

def affine (n k : Nat) (x weight : Tensor F) (bias : Option (Tensor F)) : Tensor F where
  shape := x.shape.dropLast ++ [n]
  entry idx :=
    (∑ i ∈ Finset.range k, x.entry (idx.dropLast ++ [i]) * weight.entry [idx.getLastD 0, i])
      + (bias.map fun b => b.entry [idx.getLastD 0]).getD 0

variable {x weight : Tensor F} {bias : Option (Tensor F)} {n k : Nat} {lead : List Nat}

theorem affine_shape (hx : x.shape = lead ++ [k]) :
    (affine n k x weight bias).shape = lead ++ [n] := by
  rw [affine, hx, List.dropLast_concat]

theorem affine_entry (ls : List Nat) (c : Nat) :
    (affine n k x weight bias).entry (ls ++ [c])
      = (∑ i ∈ Finset.range k, x.entry (ls ++ [i]) * weight.entry [c, i])
        + (bias.map fun b => b.entry [c]).getD 0 := by
  have hlast : (ls ++ [c]).getLastD 0 = c := by simp
  simp only [affine, List.dropLast_concat, hlast]

theorem linear_ok (hweight : weight.shape = [n, k]) (hx : x.shape = lead ++ [k])
    (hbias : ∀ b ∈ bias, b.shape = [n]) :
    linear x weight bias = .ok (affine n k x weight bias) := by
  have hlast : ¬ x.shape.getLast? ≠ some k := by simp [hx]
  have hfits : ¬ ∃ b ∈ bias, b.shape ≠ [n] := fun ⟨b, hb, hne⟩ => hne (hbias b hb)
  unfold linear
  simp only [hweight, if_neg hlast, if_neg hfits]
  rfl

private theorem linearKernel_eq (x weight : Nat → F) (k : Nat) :
    linearKernel x weight k = ∑ i ∈ Finset.range k, x i * weight i := by
  have hblocks : ∀ (m : Nat) (g : Nat → F),
      (List.range m).foldl (fun accumulator block => accumulator + g block) 0
        = ∑ block ∈ Finset.range m, g block := by
    intro m g
    induction m with
    | zero => rfl
    | succ m ih =>
      rw [List.range_succ, List.foldl_append, ih, Finset.sum_range_succ]
      rfl
  let f : Nat → F := fun i => (if i < k then x i else 0) * (if i < k then weight i else 0)
  have hcover : k ≤ (k + blockK - 1) / blockK * blockK := by
    unfold blockK
    omega
  calc linearKernel x weight k
      = ∑ block ∈ Finset.range ((k + blockK - 1) / blockK),
          ∑ lane ∈ Finset.range blockK, f (block * blockK + lane) := hblocks _ _
    _ = ∑ i ∈ Finset.range ((k + blockK - 1) / blockK * blockK), f i := (sum_blocks _ _ f).symm
    _ = ∑ i ∈ Finset.range k, f i := by
      symm
      refine Finset.sum_subset (Finset.range_mono hcover) fun i _ hi => ?_
      have hge : ¬ i < k := fun h => hi (Finset.mem_range.mpr h)
      simp [f, hge]
    _ = ∑ i ∈ Finset.range k, x i * weight i := by
      refine Finset.sum_congr rfl fun i hi => ?_
      simp [f, Finset.mem_range.mp hi]

theorem invariantLinear_ok (hweight : weight.shape = [n, k]) (hx : x.shape = lead ++ [k]) :
    invariantLinear x weight bias = .ok (affine n k x weight bias) := by
  have hlast : ¬ x.shape.getLast? ≠ some k := by simp [hx]
  unfold invariantLinear
  simp only [hweight, if_neg hlast]
  congr 2
  funext idx
  rw [linearKernel_eq]

theorem LinearBase.linear_ok {layer : LinearBase F} {storedBias : Option (Storage F)}
    (numericalMode : String) (leftover : List Nat → F) (hweight : layer.weight.shape = [n, k])
    (hx : x.shape = lead ++ [k]) (hbias : ∀ b ∈ storedBias, b.shape = [n]) :
    layer.linear numericalMode leftover x storedBias
      = .ok (affine n k x (layer.weight.value leftover)
          (storedBias.map (Storage.value leftover))) := by
  unfold LinearBase.linear
  split
  · exact invariantLinear_ok hweight hx
  · refine NanoVllm.linear_ok hweight hx fun b hb => ?_
    obtain ⟨s, hs, rfl⟩ := Option.map_eq_some_iff.mp hb
    exact hbias s hs

end Affine

section Read

variable {F ι : Type} {T : Layout ι} {rank : Nat} {p : Storage F}
  {W : ι → Tensor F}

theorem Layout.Holds.read (h : T.Holds rank p W) (leftover : List Nat → F) {i : ι}
    (hi : i ∈ T.ids) {j : Nat} (hj : j < T.size i) {rest : List Nat}
    (hin : InRange p.shape ((T.offset i + j) :: rest)) :
    (p.value leftover).entry ((T.offset i + j) :: rest)
      = (W i).entry ((j + rank * T.size i) :: rest) := by
  have hcell := h i hi (T.offset i + j) rest hin (Nat.le_add_right _ _)
    (Nat.add_lt_add_left hj _)
  rw [Nat.add_sub_cancel_left] at hcell
  simp [Storage.value, hcell]

end Read

section Beside

variable {F : Type} {lead : List Nat} {tp rows size : Nat}

theorem cat_pieces (out : Nat → Tensor F) (full : Tensor F) (off : Nat) (htp : 0 < tp)
    (hout : ∀ r < tp, (out r).shape = lead ++ [rows]) (hfull : full.shape = lead ++ [size * tp])
    (hentry : ∀ r < tp, ∀ j < size, ∀ ls, InRange lead ls →
      (out r).entry (ls ++ [off + j]) = full.entry (ls ++ [j + r * size])) :
    ∃ y, torchCat lead.length ((List.range tp).map fun r => (out r).slice lead.length off size)
      = .ok y ∧ y.Same full := by
  obtain ⟨m, rfl⟩ : ∃ m, tp = m + 1 := ⟨tp - 1, by omega⟩
  let piece : Nat → Tensor F := fun r => (out r).slice lead.length off size
  let us := (List.range m).map fun r => piece (r + 1)
  have hlist : (List.range (m + 1)).map piece = piece 0 :: us := by
    rw [List.range_succ_eq_map, List.map_cons, List.map_map]
    rfl
  have hshape : ∀ u ∈ piece 0 :: us, u.shape = lead ++ [size] := by
    intro u hu
    rw [← hlist] at hu
    obtain ⟨r, hr, rfl⟩ := List.mem_map.mp hu
    rw [Tensor.slice_shape, hout r (List.mem_range.mp hr), set_last]
  have hdim : ∀ u ∈ piece 0 :: us, lead.length < u.shape.length := by
    intro u hu
    rw [hshape u hu, List.length_append]
    exact Nat.lt_add_one _
  have hsize : ∀ u ∈ piece 0 :: us, u.shape.getD lead.length 0 = size := by
    intro u hu
    rw [hshape u hu, getD_lead_last]
  have hcat : (Tensor.cat lead.length (piece 0) us).shape = full.shape := by
    rw [Tensor.cat_shape _ _ hdim hsize, hshape _ List.mem_cons_self, set_last, hfull,
      List.length_map, List.length_range, Nat.mul_comm]
  refine ⟨Tensor.cat lead.length (piece 0) us, by rw [hlist]; rfl, hcat, ?_⟩
  intro idx hidx
  rw [hcat, hfull] at hidx
  obtain ⟨ls, c, rfl, hls, hc⟩ := inRange_last hidx
  have hpos : 0 < size := Nat.pos_of_ne_zero fun h => by simp [h] at hc
  have hr : c / size < m + 1 := Nat.div_lt_of_lt_mul hc
  have hj := Nat.mod_lt c hpos
  have hdepth : ls.length = lead.length := hls.length_eq
  have hget : (piece 0 :: us)[c / size]? = some (piece (c / size)) := by
    rw [← hlist, List.getElem?_map, List.getElem?_range hr]
    rfl
  have hcoord : coordinate lead.length (ls ++ [c]) = c / size * size + c % size := by
    rw [Nat.div_add_mod', coordinate, ← hdepth, getD_lead_last]
  have hat := Tensor.cat_entry (piece 0) us hsize hget hj
    (by rw [List.length_append, hdepth]; exact Nat.lt_add_one _) hcoord
  rw [hat, ← hdepth, modify_last, Tensor.slice_entry, ← hdepth, modify_last,
    Nat.add_comm (c % size) off, hentry _ hr _ hj ls hls, Nat.mod_add_div']

end Beside

section Summed

variable {F : Type} [Semiring F]

private theorem list_sum_range (n : Nat) (f : Nat → F) :
    ((List.range n).map f).sum = ∑ r ∈ Finset.range n, f r := by
  induction n with
  | zero => rfl
  | succ n ih =>
    rw [List.range_succ, List.map_append, List.sum_append, ih, Finset.sum_range_succ,
      List.map_singleton, List.sum_singleton]

theorem allReduce_range {tp : Nat} (htp : 0 < tp) (out : Nat → Tensor F) :
    allReduce ((List.range tp).map out) = some
      { shape := (out 0).shape
        entry := fun idx => ∑ r ∈ Finset.range tp, (out r).entry idx } := by
  obtain ⟨m, rfl⟩ : ∃ m, tp = m + 1 := ⟨tp - 1, by omega⟩
  have hlist : (List.range (m + 1)).map out
      = out 0 :: (List.range m).map fun r => out (r + 1) := by
    rw [List.range_succ_eq_map, List.map_cons, List.map_map]
    rfl
  have hsum : ∀ idx, ((out 0 :: (List.range m).map fun r => out (r + 1)).map
      fun u => u.entry idx).sum = ∑ r ∈ Finset.range (m + 1), (out r).entry idx := by
    intro idx
    rw [← hlist, List.map_map]
    exact list_sum_range _ _
  rw [hlist]
  simp only [allReduce, hsum]

end Summed

end NanoVllm
