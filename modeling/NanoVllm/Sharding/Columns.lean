/- module: NanoVllm/Sharding/Columns
   layer: refinement
   digest: Column, merged and QKV layers against the unsharded sub-matrices. -/

import NanoVllm.Sharding.Outputs

set_option autoImplicit false
set_option relaxedAutoImplicit false

open NanoVllm.Library

namespace NanoVllm

variable {F ι : Type}

/-- One layer's checkpoint tensors, and the order in which the files bring them. -/
structure Checkpoint (F ι : Type) (ids : List ι) where
  weights : ι → Tensor F
  biases : Option (ι → Tensor F)
  weightOrder : List ι
  biasOrder : List ι
  weightOrder_perm : weightOrder.Perm ids
  biasOrder_perm : biasOrder.Perm ids

section Load

variable {ids : List ι}

def LinearBase.loaded (loader : Storage F → Tensor F → ι → Except Raised (Storage F))
    (ckpt : Checkpoint F ι ids) (layer : LinearBase F) : Except Raised (LinearBase F) := do
  let weight ← loadShards loader ckpt.weights ckpt.weightOrder layer.weight
  match layer.bias, ckpt.biases with
  | some param, some biases =>
    let bias ← loadShards loader biases ckpt.biasOrder param
    pure { layer with weight := weight, bias := some bias }
  | _, _ => pure { layer with weight := weight }

def ColumnParallelLinear.build (inputSize outputSize : Nat) (ckpt : Checkpoint F ι ids)
    (tpSize tpRank : Nat) : Except Raised (LinearBase F) := do
  let layer ← init inputSize outputSize ckpt.biases.isSome tpRank tpSize
  layer.loaded (fun param W _ => weightLoader layer param W) ckpt

def MergedColumnParallelLinear.build {ids : List Nat} (inputSize : Nat) (outputSizes : List Nat)
    (ckpt : Checkpoint F Nat ids) (tpSize tpRank : Nat) : Except Raised (LinearBase F) := do
  let layer ← init inputSize outputSizes ckpt.biases.isSome tpRank tpSize
  layer.loaded (weightLoader layer) ckpt

def QKVParallelLinear.build {ids : List QkvShard} (hiddenSize headSize totalNumHeads : Nat)
    (totalNumKvHeads : Option Nat) (ckpt : Checkpoint F QkvShard ids) (tpSize tpRank : Nat) :
    Except Raised (LinearBase F) := do
  let layer ← init hiddenSize headSize totalNumHeads totalNumKvHeads ckpt.biases.isSome
    tpRank tpSize
  layer.loaded (weightLoader layer) ckpt

def Checkpoint.Fits (ckpt : Checkpoint F ι ids) (L : Layout ι) (tp k : Nat) : Prop :=
  (∀ i ∈ L.ids, (ckpt.weights i).shape = [L.size i * tp, k]) ∧
    ∀ B ∈ ckpt.biases, ∀ i ∈ L.ids, (B i).shape = [L.size i * tp]

/-- A rank's parameters after loading: every cell written once, every row at its place. -/
structure Sharded (L : Layout ι) (rows k rank : Nat) (ckpt : Checkpoint F ι ids)
    (layer : LinearBase F) : Prop where
  shape : layer.weight.shape = [rows, k]
  once : layer.weight.Once
  holds : L.Holds rank layer.weight ckpt.weights
  isSome : layer.bias.isSome = ckpt.biases.isSome
  bias : ∀ p ∈ layer.bias, ∀ B ∈ ckpt.biases, p.shape = [rows] ∧ p.Once ∧ L.Holds rank p B

section Loaded

variable {rows k rank tp : Nat} {loader : Storage F → Tensor F → ι → Except Raised (Storage F)}

/-- The loader takes tensors of the expected global shape and raises on every other. -/
def Layout.Loads (L : Layout ι) (rows rank tp : Nat)
    (loader : Storage F → Tensor F → ι → Except Raised (Storage F)) : Prop :=
  ∀ i ∈ L.ids, ∀ (rest : List Nat) (p : Storage F) (V : Tensor F), p.shape = rows :: rest →
    (V.shape = L.size i * tp :: rest →
      loader p V i = .ok (landed 0 rank (L.offset i) (L.size i) p V)) ∧
    (V.shape ≠ L.size i * tp :: rest → ∃ e, loader p V i = .error e)

private theorem Layout.Loads.raises {L : Layout ι} (h : L.Loads rows rank tp loader) {V : ι → Tensor F}
    {order : List ι} (horder : order.Perm L.ids) {rest : List Nat}
    (hbad : ¬ ∀ i ∈ L.ids, (V i).shape = L.size i * tp :: rest) :
    ∃ e, loadShards loader V order (.empty (rows :: rest)) = .error e := by
  push Not at hbad
  obtain ⟨i, hi, hne⟩ := hbad
  refine loadShards_error (fun j => (V j).shape = L.size j * tp :: rest)
    (fun j hj hgood p hp => ?_) (fun j hj hnot p hp => ?_)
    ⟨i, horder.mem_iff.mpr hi, hne⟩ _ rfl
  · exact ⟨_, (h j (horder.mem_iff.mp hj) rest p (V j) hp).1 hgood, hp⟩
  · exact (h j (horder.mem_iff.mp hj) rest p (V j) hp).2 hnot

variable {ckpt : Checkpoint F ι ids} {layer : LinearBase F}

theorem LinearBase.loaded_error {L : Layout ι} (hids : L.ids = ids)
    (h : L.Loads rows rank tp loader) (hweight : layer.weight = .empty [rows, k])
    (hbias : layer.bias = if ckpt.biases.isSome then some (.empty [rows]) else none)
    (hfits : ¬ ckpt.Fits L tp k) : ∃ e, layer.loaded loader ckpt = .error e := by
  subst hids
  unfold LinearBase.loaded
  by_cases hw : ∀ i ∈ L.ids, (ckpt.weights i).shape = [L.size i * tp, k]
  · have hb : ∃ B ∈ ckpt.biases, ¬ ∀ i ∈ L.ids, (B i).shape = [L.size i * tp] := by
      by_contra hnone
      push Not at hnone
      exact hfits ⟨hw, fun B hB i hi => hnone B hB i hi⟩
    obtain ⟨B, hB, hbad⟩ := hb
    rw [Option.mem_def] at hB
    obtain ⟨e, he⟩ := h.raises ckpt.biasOrder_perm hbad
    cases hload : loadShards loader ckpt.weights ckpt.weightOrder layer.weight with
    | error e' => exact ⟨e', rfl⟩
    | ok weight =>
      refine ⟨e, ?_⟩
      simp only [hbias, hB, Option.isSome_some, if_true, bind, Except.bind, he]
  · obtain ⟨e, he⟩ := h.raises ckpt.weightOrder_perm hw
    refine ⟨e, ?_⟩
    rw [hweight, he]
    rfl

/-- The weight cells after loading, for any layout: one value for each shard that covers them. -/
theorem LinearBase.loaded_entries {L : Layout ι} (hids : L.ids = ids)
    (h : L.Loads rows rank tp loader) (hweight : layer.weight = .empty [rows, k])
    (hbias : layer.bias = if ckpt.biases.isSome then some (.empty [rows]) else none)
    (hfits : ckpt.Fits L tp k) :
    ∃ after, layer.loaded loader ckpt = .ok after ∧ after.weight.shape = [rows, k] ∧
      ∀ idx, after.weight.entry idx
        = (ckpt.weightOrder.filter (covering [rows, k] L.offset L.size idx)).map fun i =>
            (ckpt.weights i).entry (idx.modify 0 fun l => l - L.offset i + rank * L.size i) := by
  subst hids
  have hload := loadShards_ok (W := ckpt.weights)
    (fun i (hi : i ∈ ckpt.weightOrder) p hp =>
      (h i (ckpt.weightOrder_perm.mem_iff.mp hi) [k] p _ hp).1
        (hfits.1 i (ckpt.weightOrder_perm.mem_iff.mp hi))) (.empty [rows, k]) rfl
  unfold LinearBase.loaded
  rw [hweight, Call.except_bind_of_ok hload, hbias]
  cases hB : ckpt.biases with
  | none => exact ⟨_, rfl, rfl, fun idx => by simp [Storage.empty]⟩
  | some B =>
    have hloadB := loadShards_ok (W := B)
      (fun i (hi : i ∈ ckpt.biasOrder) p hp =>
        (h i (ckpt.biasOrder_perm.mem_iff.mp hi) [] p _ hp).1
        (hfits.2 B hB i (ckpt.biasOrder_perm.mem_iff.mp hi))) (.empty [rows]) rfl
    simp only [Option.isSome_some, if_true]
    rw [Call.except_bind_of_ok hloadB]
    exact ⟨_, rfl, rfl, fun idx => by simp [Storage.empty]⟩

theorem LinearBase.loaded_ok {T : Tiling ι rows} (hids : T.ids = ids)
    (h : T.Loads rows rank tp loader) (hweight : layer.weight = .empty [rows, k])
    (hbias : layer.bias = if ckpt.biases.isSome then some (.empty [rows]) else none)
    (hfits : ckpt.Fits T.toLayout tp k) :
    ∃ after, layer.loaded loader ckpt = .ok after
      ∧ Sharded T.toLayout rows k rank ckpt after := by
  subst hids
  obtain ⟨weight, hload, hshape, honce, hholds⟩ := T.loaded ckpt.weights rank
    ckpt.weightOrder_perm fun i hi p hp => (h i hi [k] p _ hp).1 (hfits.1 i hi)
  unfold LinearBase.loaded
  rw [hweight, Call.except_bind_of_ok hload, hbias]
  cases hB : ckpt.biases with
  | none =>
    refine ⟨_, rfl, ⟨hshape, honce, hholds, ?_, ?_⟩⟩
    · simp [hB]
    · intro p _ B hmem
      simp [hB] at hmem
  | some B =>
    obtain ⟨bias, hloadB, hshapeB, honceB, hholdsB⟩ := T.loaded B rank ckpt.biasOrder_perm
      fun i hi p hp => (h i hi [] p _ hp).1 (hfits.2 B hB i hi)
    simp only [Option.isSome_some, if_true]
    rw [Call.except_bind_of_ok hloadB]
    refine ⟨_, rfl, ⟨hshape, honce, hholds, ?_, ?_⟩⟩
    · simp [hB]
    · intro p hp B' hB'
      obtain rfl : bias = p := by simpa using hp
      obtain rfl : B = B' := by simpa [hB] using hB'
      exact ⟨hshapeB, honceB, hholdsB⟩

end Loaded

end Load

section Equivalent

variable [Semiring F] {ids : List ι}

def Checkpoint.full (ckpt : Checkpoint F ι ids) (i : ι) (x : Tensor F) :
    Except Raised (Tensor F) :=
  linear x (ckpt.weights i) (ckpt.biases.map fun B => B i)

/-- The ranks' outputs for sub-matrix `i`, one after the other, are its unsharded output. -/
def Beside (L : Layout ι) (tp k : Nat) (ckpt : Checkpoint F ι ids)
    (layers : Nat → LinearBase F) : Prop :=
  ∀ (numericalMode : String) (leftover : Nat → List Nat → F) (x : Tensor F) (lead : List Nat),
    x.shape = lead ++ [k] →
    ∃ outs : Nat → Tensor F,
      (∀ r < tp, ColumnParallelLinear.forward numericalMode (leftover r) (layers r) x
        = .ok (outs r)) ∧
      ∀ i ∈ L.ids, ∃ y z,
        torchCat lead.length
          ((List.range tp).map fun r => (outs r).slice lead.length (L.offset i) (L.size i)) = .ok y
        ∧ ckpt.full i x = .ok z ∧ y.Same z

/-- Loaded on every rank, the layer is the unsharded one; sizes that do not divide and tensors
of another shape than the unsharded layer's raise. -/
structure ColumnEquivalent (tp rows k : Nat) (L : Layout ι) (globalSize : ι → Nat)
    (ckpt : Checkpoint F ι ids) (build : Nat → Except Raised (LinearBase F)) : Prop where
  sharded : ∀ layers : Nat → LinearBase F, (∀ r < tp, build r = .ok (layers r)) →
    ∀ r < tp, Sharded L rows k r ckpt (layers r)
  places : ∀ layers : Nat → LinearBase F, (∀ r < tp, build r = .ok (layers r)) →
    (∀ l < rows, ∃! i, i ∈ L.ids ∧ L.offset i ≤ l ∧ l < L.offset i + L.size i) ∧
    ∀ i ∈ L.ids, ∀ g < globalSize i, ∃! at_ : Nat × Nat, at_.1 < tp ∧ L.offset i ≤ at_.2
      ∧ at_.2 < L.offset i + L.size i ∧ g = at_.2 - L.offset i + at_.1 * L.size i
  outputs : ∀ layers : Nat → LinearBase F, (∀ r < tp, build r = .ok (layers r)) →
    Beside L tp k ckpt layers
  divisible : (∃ i ∈ L.ids, ¬ tp ∣ globalSize i) → ∀ r < tp, ∃ e, build r = .error e
  weightShape : (∃ i ∈ L.ids, (ckpt.weights i).shape ≠ [globalSize i, k]) →
    ∀ r < tp, ∃ e, build r = .error e
  biasShape : (∃ B ∈ ckpt.biases, ∃ i ∈ L.ids, (B i).shape ≠ [globalSize i]) →
    ∀ r < tp, ∃ e, build r = .error e

variable {tp rows k : Nat} {ckpt : Checkpoint F ι ids}

private theorem beside_of_sharded {T : Tiling ι rows} (htp : 0 < tp) (hfits : ckpt.Fits T.toLayout tp k)
    {layers : Nat → LinearBase F}
    (hsharded : ∀ r < tp, Sharded T.toLayout rows k r ckpt (layers r)) :
    Beside T.toLayout tp k ckpt layers := by
  intro numericalMode leftover x lead hx
  let out : Nat → Tensor F := fun r =>
    affine rows k x ((layers r).weight.value (leftover r))
      ((layers r).bias.map (Storage.value (leftover r)))
  have hbiasShape : ∀ r < tp, ∀ p ∈ (layers r).bias, p.shape = [rows] := by
    intro r hr p hp
    have hsome : ckpt.biases.isSome := by
      rw [← (hsharded r hr).isSome, Option.isSome_iff_exists]
      exact ⟨p, hp⟩
    obtain ⟨B, hB⟩ := Option.isSome_iff_exists.mp hsome
    exact ((hsharded r hr).bias p hp B hB).1
  refine ⟨out, fun r hr => LinearBase.linear_ok numericalMode (leftover r) (hsharded r hr).shape
    hx (hbiasShape r hr), ?_⟩
  intro i hi
  have hfull : ckpt.full i x
      = .ok (affine (T.size i * tp) k x (ckpt.weights i) (ckpt.biases.map fun B => B i)) := by
    refine linear_ok (hfits.1 i hi) hx fun b hb => ?_
    obtain ⟨B, hB, rfl⟩ := Option.map_eq_some_iff.mp hb
    exact hfits.2 B hB i hi
  have hpieces := cat_pieces out
    (affine (T.size i * tp) k x (ckpt.weights i) (ckpt.biases.map fun B => B i)) (T.offset i)
    htp (fun r _ => affine_shape hx) (affine_shape hx) ?_
  · obtain ⟨y, hy, hsame⟩ := hpieces
    exact ⟨y, _, hy, hfull, hsame⟩
  · intro r hr j hj ls _
    have hlow := T.fits i hi
    have hrow : T.offset i + j < rows := by omega
    have hterm : ∀ c ∈ Finset.range k,
        x.entry (ls ++ [c]) * ((layers r).weight.value (leftover r)).entry [T.offset i + j, c]
          = x.entry (ls ++ [c]) * (ckpt.weights i).entry [j + r * T.size i, c] := by
      intro c hc
      have hin : InRange (layers r).weight.shape [T.offset i + j, c] := by
        rw [(hsharded r hr).shape]
        exact ⟨hrow, Finset.mem_range.mp hc, trivial⟩
      rw [(hsharded r hr).holds.read (leftover r) hi hj hin]
    have hbias : ((((layers r).bias.map (Storage.value (leftover r))).map
        fun b => b.entry [T.offset i + j]).getD 0)
        = (((ckpt.biases.map fun B => B i).map fun b => b.entry [j + r * T.size i]).getD 0) := by
      cases hB : ckpt.biases with
      | none =>
        have hnone : (layers r).bias = none := by
          have hsome := (hsharded r hr).isSome
          rwa [hB, Option.isSome_none, Option.isSome_eq_false_iff, Option.isNone_iff_eq_none]
            at hsome
        rw [hnone]
        rfl
      | some B =>
        obtain ⟨p, hp⟩ : ∃ p, (layers r).bias = some p := by
          have hsome := (hsharded r hr).isSome
          rwa [hB, Option.isSome_some, Option.isSome_iff_exists] at hsome
        obtain ⟨hshape, -, hholds⟩ := (hsharded r hr).bias p hp B hB
        have hin : InRange p.shape [T.offset i + j] := by
          rw [hshape]
          exact ⟨hrow, trivial⟩
        rw [hp]
        exact hholds.read (leftover r) hi hj hin
    rw [affine_entry, affine_entry, Finset.sum_congr rfl hterm, hbias]

theorem ColumnEquivalent.of_error {L : Layout ι} {globalSize : ι → Nat}
    {build : Nat → Except Raised (LinearBase F)} (htp : 0 < tp)
    (h : ∀ r < tp, ∃ e, build r = .error e) :
    ColumnEquivalent tp rows k L globalSize ckpt build := by
  have hnever : ∀ layers : Nat → LinearBase F, ¬ ∀ r < tp, build r = .ok (layers r) := by
    intro layers hok
    obtain ⟨e, he⟩ := h 0 htp
    rw [hok 0 htp] at he
    cases he
  exact
    { sharded := fun layers hok => (hnever layers hok).elim
      places := fun layers hok => (hnever layers hok).elim
      outputs := fun layers hok => (hnever layers hok).elim
      divisible := fun _ => h
      weightShape := fun _ => h
      biasShape := fun _ => h }

theorem ColumnEquivalent.of_tiling {T : Tiling ι rows} {globalSize : ι → Nat}
    {build : Nat → Except Raised (LinearBase F)} (htp : 0 < tp)
    (hsize : ∀ i ∈ T.ids, T.size i * tp = globalSize i)
    (hok : ckpt.Fits T.toLayout tp k → ∀ r < tp, ∃ layer, build r = .ok layer
      ∧ Sharded T.toLayout rows k r ckpt layer)
    (herror : ¬ ckpt.Fits T.toLayout tp k → ∀ r < tp, ∃ e, build r = .error e) :
    ColumnEquivalent tp rows k T.toLayout globalSize ckpt build := by
  have hfits : ∀ layers : Nat → LinearBase F, (∀ r < tp, build r = .ok (layers r)) →
      ckpt.Fits T.toLayout tp k := by
    intro layers hbuilt
    by_contra hnot
    obtain ⟨e, he⟩ := herror hnot 0 htp
    rw [hbuilt 0 htp] at he
    cases he
  have hsharded : ∀ layers : Nat → LinearBase F, (∀ r < tp, build r = .ok (layers r)) →
      ∀ r < tp, Sharded T.toLayout rows k r ckpt (layers r) := by
    intro layers hbuilt r hr
    obtain ⟨layer, hlayer, hres⟩ := hok (hfits layers hbuilt) r hr
    rw [hbuilt r hr] at hlayer
    exact Except.ok.inj hlayer ▸ hres
  refine
    { sharded := hsharded
      places := fun _ _ => ⟨T.covers, fun i hi g hg => ?_⟩
      outputs := fun layers hbuilt =>
        beside_of_sharded htp (hfits layers hbuilt) (hsharded layers hbuilt)
      divisible := ?_
      weightShape := ?_
      biasShape := ?_ }
  · exact T.home (by rwa [hsize i hi])
  · rintro ⟨i, hi, hnot⟩
    exact absurd ⟨T.size i, by rw [← hsize i hi, Nat.mul_comm]⟩ hnot
  · rintro ⟨i, hi, hne⟩
    exact herror fun h => hne (by rw [h.1 i hi, hsize i hi])
  · rintro ⟨B, hB, i, hi, hne⟩
    exact herror fun h => hne (by rw [h.2 B hB i hi, hsize i hi])

end Equivalent

end NanoVllm
