/- module: NanoVllm/Sharding/Loading
   layer: refinement
   digest: What a weight loader writes when the checkpoint shape is the expected one, and that it
     raises otherwise. -/

import NanoVllm.Layers.Linear
import NanoVllm.Library.Call

set_option autoImplicit false
set_option relaxedAutoImplicit false

open NanoVllm.Library

namespace NanoVllm

variable {F : Type}

private theorem broadcastable_self (shape : List Nat) : broadcastable shape shape = true := by
  simp only [broadcastable, Nat.sub_self, List.drop_zero, le_refl, decide_true, Bool.true_and,
    List.all_eq_true]
  intro sizes hsizes
  have hsame : sizes.1 = sizes.2 := by
    obtain ⟨k, hk, rfl⟩ := List.getElem_of_mem hsizes
    rw [List.getElem_zip]
  simp [hsame]

private theorem broadcastIndex_self {shape idx : List Nat} (h : InRange shape idx) :
    broadcastIndex shape idx = idx := by
  rw [broadcastIndex, h.length_eq, Nat.sub_self, List.drop_zero]
  induction shape generalizing idx with
  | nil =>
    cases idx with
    | nil => rfl
    | cons i idx => exact h.elim
  | cons n shape ih =>
    cases idx with
    | nil => exact h.elim
    | cons i idx =>
      have hi := h.1
      have hone : (if n = 1 then 0 else i) = i := by
        split
        · omega
        · rfl
      rw [List.zipWith_cons_cons, hone, ih h.2]

private theorem View.copy_eq {v : View F} {source : Tensor F} (hshape : source.shape = v.shape)
    (hlocate : ∀ idx at_, v.locate idx = some at_ → InRange v.shape at_) :
    v.copy source = .ok
      { shape := v.base.shape
        entry := fun idx =>
          match v.locate idx with
          | some at_ => v.base.entry idx ++ [source.entry at_]
          | none => v.base.entry idx } := by
  unfold View.copy
  rw [hshape, if_pos (broadcastable_self v.shape)]
  congr 2
  funext idx
  cases hat : v.locate idx with
  | none => rfl
  | some at_ => simp only [broadcastIndex_self (hlocate idx at_ hat)]

theorem requireExactWeightShape_self (shape : List Nat) :
    requireExactWeightShape shape shape = .ok ⟨⟩ :=
  if_neg (not_not_intro rfl)

section GlobalShape

variable {shape : List Nat} {dim tp : Nat}

private theorem requireExactGlobalWeightShape_eq (loaded : List Nat) (hdim : dim < shape.length)
    (htp : 0 < tp) :
    (loaded = shape.modify dim (· * tp) →
      requireExactGlobalWeightShape shape loaded dim tp = .ok ⟨⟩) ∧
    (loaded ≠ shape.modify dim (· * tp) →
      ∃ e, requireExactGlobalWeightShape shape loaded dim tp = .error e) := by
  have hshards : ¬ (tp : Int) < 1 := by omega
  have hrange : ¬ ¬ (-(shape.length : Int) ≤ (dim : Int) ∧ (dim : Int) < shape.length) := by
    omega
  have hmod : ((dim : Int) % (shape.length : Int)).toNat = dim := by
    rw [Int.emod_eq_of_lt (by omega) (by omega), Int.toNat_natCast]
  simp only [requireExactGlobalWeightShape, if_neg hshards, if_neg hrange, hmod,
    Int.toNat_natCast]
  refine ⟨fun h => if_neg (not_not_intro h), fun h => ⟨_, if_pos h⟩⟩

private theorem modify_mul_getD (hdim : dim < shape.length) (f : Nat → Nat) :
    (shape.modify dim f).getD dim 0 = f (shape.getD dim 0) := by
  simp [List.getD_eq_getElem?_getD, hdim]

private theorem modify_set_getD (f : Nat → Nat) :
    (shape.modify dim f).set dim (shape.getD dim 0) = shape := by
  apply List.ext_getElem?
  intro k
  rw [List.getElem?_set, List.length_modify, List.getElem?_modify]
  by_cases hk : dim = k
  · subst hk
    by_cases hlt : dim < shape.length <;> simp [hlt]
  · simp [hk]

private theorem set_modify (hdim : dim < shape.length) (len : Nat) (f : Nat → Nat) :
    (shape.set dim len).modify dim f = shape.set dim (f len) := by
  apply List.ext_getElem?
  intro k
  rw [List.getElem?_modify, List.getElem?_set, List.getElem?_set]
  by_cases hk : dim = k
  · subst hk
    simp [hdim]
  · simp [hk]

end GlobalShape

section Narrowed

variable {p : Storage F} {W : Tensor F} {dim tp : Nat} {rank : Nat}

def filled (dim rank : Nat) (p : Storage F) (W : Tensor F) : Storage F where
  shape := p.shape
  entry idx :=
    if InRange p.shape idx then
      p.entry idx ++ [W.entry (idx.modify dim (· + rank * p.shape.getD dim 0))]
    else p.entry idx

theorem copy_whole {source : Tensor F} (hshape : source.shape = p.shape) :
    (View.whole p).copy source = .ok
      { shape := p.shape
        entry := fun idx =>
          if InRange p.shape idx then p.entry idx ++ [source.entry idx] else p.entry idx } := by
  have hlocate : ∀ idx at_, (View.whole p).locate idx = some at_ →
      InRange (View.whole p).shape at_ := by
    intro idx at_ hat
    simp only [View.whole, Option.ite_none_right_eq_some, Option.some.injEq] at hat
    exact hat.2 ▸ hat.1
  rw [View.copy_eq hshape hlocate]
  congr 2
  funext idx
  by_cases hidx : InRange p.shape idx <;> simp [View.whole, hidx]

theorem loadNarrowed_ok (hdim : dim < p.shape.length) (hrank : rank < tp)
    (hshape : W.shape = p.shape.modify dim (· * tp)) :
    LinearBase.loadNarrowed dim rank tp p W = .ok (filled dim rank p W) := by
  have hglobal := (requireExactGlobalWeightShape_eq W.shape hdim (by omega : 0 < tp)).1 hshape
  have hsize : W.shape.getD dim 0 = p.shape.getD dim 0 * tp := by
    rw [hshape, modify_mul_getD hdim]
  have hfits : rank * p.shape.getD dim 0 + p.shape.getD dim 0 ≤ W.shape.getD dim 0 := by
    have := Nat.mul_le_mul_left (p.shape.getD dim 0) (Nat.succ_le_of_lt hrank)
    rw [hsize]
    calc rank * p.shape.getD dim 0 + p.shape.getD dim 0
        = p.shape.getD dim 0 * (rank + 1) := by ring
      _ ≤ p.shape.getD dim 0 * tp := this
  have hnarrow : narrow W dim (rank * p.shape.getD dim 0) (p.shape.getD dim 0)
      = .ok (W.slice dim (rank * p.shape.getD dim 0) (p.shape.getD dim 0)) := if_pos hfits
  have hlocal : (W.slice dim (rank * p.shape.getD dim 0) (p.shape.getD dim 0)).shape
      = p.shape := by
    rw [Tensor.slice_shape, hshape, modify_set_getD]
  unfold LinearBase.loadNarrowed
  refine (Call.except_bind_of_ok hglobal).trans ?_
  refine (Call.except_bind_of_ok hnarrow).trans ?_
  rw [hlocal]
  refine (Call.except_bind_of_ok (requireExactWeightShape_self p.shape)).trans ?_
  exact copy_whole hlocal

theorem loadNarrowed_error (hdim : dim < p.shape.length) (htp : 0 < tp)
    (hshape : W.shape ≠ p.shape.modify dim (· * tp)) :
    ∃ e, LinearBase.loadNarrowed dim rank tp p W = .error e := by
  obtain ⟨e, he⟩ := (requireExactGlobalWeightShape_eq W.shape hdim htp).2 hshape
  refine ⟨e, ?_⟩
  unfold LinearBase.loadNarrowed
  rw [he]
  rfl

end Narrowed

section Chunked

variable {W : Tensor F} {dim len rank tp : Nat}

private theorem chunk_getElem? (hsize : W.shape.getD dim 0 = len * tp) (hrank : rank < tp) :
    (chunk W tp dim)[rank]? = some (W.slice dim (rank * len) len) := by
  have htp : 0 < tp := by omega
  unfold chunk
  simp only [hsize]
  by_cases hlen : len = 0
  · subst hlen
    simp [hrank]
  · have hpos : 0 < len := Nat.pos_of_ne_zero hlen
    have hne : ¬ len * tp = 0 := by
      have := Nat.mul_pos hpos htp
      omega
    have hsplit : (len * tp + tp - 1) / tp = len := by
      have hrw : len * tp + tp - 1 = (tp - 1) + tp * len := by
        rw [Nat.mul_comm]
        omega
      rw [hrw, Nat.add_mul_div_left _ _ htp, Nat.div_eq_of_lt (by omega), Nat.zero_add]
    have hcount : (len * tp + len - 1) / len = tp := by
      have hrw : len * tp + len - 1 = (len - 1) + len * tp := by omega
      rw [hrw, Nat.add_mul_div_left _ _ hpos, Nat.div_eq_of_lt (by omega), Nat.zero_add]
    have hrest : min len (len * tp - rank * len) = len := by
      have hle : (rank + 1) * len ≤ tp * len := Nat.mul_le_mul_right len hrank
      rw [Nat.succ_mul, Nat.mul_comm tp len] at hle
      omega
    rw [if_neg hne, hsplit, hcount]
    simp [hrank, hrest]

def landed (dim rank off len : Nat) (p : Storage F) (W : Tensor F) : Storage F where
  shape := p.shape
  entry idx :=
    if InRange p.shape idx ∧ off ≤ coordinate dim idx ∧ coordinate dim idx < off + len then
      p.entry idx ++ [W.entry (idx.modify dim fun l => l - off + rank * len)]
    else p.entry idx

variable {p : Storage F} {off : Nat}

theorem loadChunked_ok (hdim : dim < p.shape.length) (hfits : off + len ≤ p.shape.getD dim 0)
    (hrank : rank < tp) (hshape : W.shape = p.shape.set dim (len * tp)) :
    LinearBase.loadChunked dim rank tp p W off len = .ok (landed dim rank off len p W) := by
  have hlen : (p.shape.set dim len).length = p.shape.length := List.length_set
  have hglobal := (requireExactGlobalWeightShape_eq W.shape
    (by rw [hlen]; exact hdim : dim < (p.shape.set dim len).length) (by omega : 0 < tp)).1
    (hshape.trans (set_modify hdim len (· * tp)).symm)
  have hsize : W.shape.getD dim 0 = len * tp := by rw [hshape, getD_set_self hdim]
  have hlocal : (W.slice dim (rank * len) len).shape = p.shape.set dim len := by
    rw [Tensor.slice_shape, hshape, List.set_set]
  have hview : (View.whole p).narrow dim off len = .ok _ := if_pos hfits
  unfold LinearBase.loadChunked
  refine (Call.except_bind_of_ok hview).trans ?_
  refine (Call.except_bind_of_ok hglobal).trans ?_
  rw [chunk_getElem? hsize hrank]
  simp only [hlocal]
  refine (Call.except_bind_of_ok (requireExactWeightShape_self _)).trans ?_
  refine (View.copy_eq hlocal ?_).trans ?_
  · intro idx at_ hat
    obtain ⟨mid, hmid, hrest⟩ := Option.bind_eq_some_iff.mp hat
    simp only [View.whole, Option.ite_none_right_eq_some, Option.some.injEq] at hmid hrest
    obtain ⟨hin, rfl⟩ := hmid
    obtain ⟨hbounds, rfl⟩ := hrest
    exact hin.modify (by omega)
  · congr 2
    funext idx
    by_cases hin : InRange p.shape idx
    · by_cases hbounds : off ≤ coordinate dim idx ∧ coordinate dim idx < off + len
      · simp only [View.whole, hin, hbounds, if_true, Option.bind_some, and_self,
          Tensor.slice_entry, modify_modify]
        rfl
      · simp [View.whole, hin, hbounds]
    · simp [View.whole, hin]

theorem loadChunked_error (hdim : dim < p.shape.length) (htp : 0 < tp)
    (hshape : W.shape ≠ p.shape.set dim (len * tp)) :
    ∃ e, LinearBase.loadChunked dim rank tp p W off len = .error e := by
  unfold LinearBase.loadChunked
  by_cases hfits : off + len ≤ (View.whole p).shape.getD dim 0
  · have hview : (View.whole p).narrow dim off len = .ok _ := if_pos hfits
    have hlen : (p.shape.set dim len).length = p.shape.length := List.length_set
    obtain ⟨e, he⟩ := (requireExactGlobalWeightShape_eq W.shape
      (by rw [hlen]; exact hdim : dim < (p.shape.set dim len).length) htp).2
      (fun h => hshape (h.trans (set_modify hdim len (· * tp))))
    refine ⟨e, (Call.except_bind_of_ok hview).trans ?_⟩
    exact congrArg (· >>= _) he
  · exact ⟨narrowOutOfRange, congrArg (· >>= _) (if_neg hfits)⟩

end Chunked

end NanoVllm
