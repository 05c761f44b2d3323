/- module: NanoVllm/Sharding/Layers
   layer: main result
   digest: Every tensor-parallel layer equals the unsharded one; the merged layer does so exactly
     when no truncated sub-matrix can be loaded. -/

import NanoVllm.Sharding.Vocabulary
import Mathlib.Data.Nat.ModEq

set_option autoImplicit false
set_option relaxedAutoImplicit false

open NanoVllm.Library

namespace NanoVllm

variable {F : Type}

section Column

def columnLayout (rows : Nat) : Layout Unit where
  ids := [()]
  offset _ := 0
  size _ := rows

def columnTiling (rows : Nat) : Tiling Unit rows where
  toLayout := columnLayout rows
  nodup := List.nodup_singleton ()
  fits _ _ := (Nat.zero_add rows).le
  covers l hl := ⟨(), ⟨List.mem_singleton_self (), Nat.zero_le l, by simpa [columnLayout] using hl⟩,
    fun _ _ => rfl⟩

private theorem filled_eq_landed {p : Storage F} {V : Tensor F} {rows rank : Nat} {rest : List Nat}
    (hp : p.shape = rows :: rest) : filled 0 rank p V = landed 0 rank 0 rows p V := by
  unfold filled landed
  congr 1
  funext idx
  by_cases hin : InRange p.shape idx
  · have hlt := hin.coordinate_lt (by rw [hp]; exact Nat.succ_pos _ : 0 < p.shape.length)
    rw [hp, List.getD_cons_zero] at hlt
    have hcell : InRange p.shape idx ∧ 0 ≤ coordinate 0 idx ∧ coordinate 0 idx < 0 + rows :=
      ⟨hin, Nat.zero_le _, by omega⟩
    rw [if_pos hin, if_pos hcell, hp]
    rfl
  · have hcell : ¬ (InRange p.shape idx ∧ 0 ≤ coordinate 0 idx ∧ coordinate 0 idx < 0 + rows) :=
      fun h => hin h.1
    rw [if_neg hin, if_neg hcell]

private theorem column_loads {tp rank rows : Nat} (layer : LinearBase F) (hdim : layer.tpDim = 0)
    (hsize : layer.tpSize = tp) (hrank : layer.tpRank = rank) (hlt : rank < tp) :
    (columnTiling rows).Loads rows rank tp
      fun p V _ => ColumnParallelLinear.weightLoader layer p V := by
  intro i _ rest p V hp
  have hpos : 0 < p.shape.length := by rw [hp]; exact Nat.succ_pos _
  have hmodify : p.shape.modify 0 (· * tp) = rows * tp :: rest := by rw [hp]; rfl
  unfold ColumnParallelLinear.weightLoader
  rw [hdim, hsize, hrank]
  constructor
  · intro hV
    exact (loadNarrowed_ok hpos hlt (hV.trans hmodify.symm)).trans
      (congrArg Except.ok (filled_eq_landed hp))
  · intro hV
    exact loadNarrowed_error hpos (by omega) fun h => hV (h.trans hmodify)

variable [Semiring F]

private theorem columnEquivalent {tp : Nat} (htp : 0 < tp) (inputSize outputSize : Nat)
    (ckpt : Checkpoint F Unit [()]) :
    ColumnEquivalent tp (outputSize / tp) inputSize (columnLayout (outputSize / tp))
      (fun _ => outputSize) ckpt (ColumnParallelLinear.build inputSize outputSize ckpt tp) := by
  by_cases hdvd : outputSize % tp = 0
  · have hinit : ∀ r, ColumnParallelLinear.init inputSize outputSize ckpt.biases.isSome r tp
        = .ok (LinearBase.init inputSize (outputSize / tp) ckpt.biases.isSome 0 r tp :
            LinearBase F) := by
      intro r
      unfold ColumnParallelLinear.init divide
      rw [if_pos hdvd]
      rfl
    have hloads : ∀ r < tp, (columnTiling (outputSize / tp)).Loads (outputSize / tp) r tp
        fun p V _ => ColumnParallelLinear.weightLoader
          (LinearBase.init inputSize (outputSize / tp) ckpt.biases.isSome 0 r tp : LinearBase F)
          p V := fun r hr => column_loads _ rfl rfl rfl hr
    refine ColumnEquivalent.of_tiling (T := columnTiling (outputSize / tp)) htp
      (fun _ _ => Nat.div_mul_cancel (Nat.dvd_of_mod_eq_zero hdvd)) ?_ ?_
    · intro hfits r hr
      unfold ColumnParallelLinear.build
      rw [Call.except_bind_of_ok (hinit r)]
      exact LinearBase.loaded_ok rfl (hloads r hr) rfl rfl hfits
    · intro hnot r hr
      unfold ColumnParallelLinear.build
      rw [Call.except_bind_of_ok (hinit r)]
      exact LinearBase.loaded_error rfl (hloads r hr) rfl rfl hnot
  · refine ColumnEquivalent.of_error htp fun r _ => ⟨.assertionError, ?_⟩
    unfold ColumnParallelLinear.build ColumnParallelLinear.init divide
    rw [if_neg hdvd]
    rfl

end Column

section Merged

/-- The offsets and local sizes `MergedColumnParallelLinear.weight_loader` computes. -/
def mergedLayout (outputSizes : List Nat) (tp : Nat) : Layout Nat where
  ids := List.range outputSizes.length
  offset i := (outputSizes.take i).sum / tp
  size i := outputSizes.getD i 0 / tp

variable {outputSizes : List Nat} {tp : Nat}

private theorem sum_div (sizes : List Nat) (hdvd : ∀ size ∈ sizes, tp ∣ size) :
    sizes.sum / tp = (sizes.map (· / tp)).sum := by
  induction sizes with
  | nil => simp
  | cons size sizes ih =>
    rw [List.sum_cons, List.map_cons, List.sum_cons,
      Nat.add_div_of_dvd_right (hdvd size List.mem_cons_self),
      ih fun s hs => hdvd s (List.mem_cons_of_mem size hs)]

private theorem sum_getD (sizes : List Nat) :
    ∑ i ∈ Finset.range sizes.length, sizes.getD i 0 = sizes.sum := by
  induction sizes with
  | nil => rfl
  | cons size sizes ih =>
    rw [List.length_cons, Finset.sum_range_succ', List.sum_cons, ← ih, Nat.add_comm]
    rfl

private theorem sum_div_lt {sizes : List Nat} (hbad : ∃ size ∈ sizes, ¬ tp ∣ size) :
    (sizes.map (· / tp)).sum * tp < sizes.sum := by
  have hle : ∀ rest : List Nat, (rest.map (· / tp)).sum * tp ≤ rest.sum := by
    intro rest
    induction rest with
    | nil => simp
    | cons size rest ih =>
      rw [List.map_cons, List.sum_cons, List.sum_cons, Nat.add_mul]
      exact Nat.add_le_add (Nat.div_mul_le_self size tp) ih
  induction sizes with
  | nil => simp at hbad
  | cons size sizes ih =>
    rw [List.map_cons, List.sum_cons, List.sum_cons, Nat.add_mul]
    by_cases hsize : tp ∣ size
    · obtain ⟨other, hother, hnot⟩ := hbad
      have hne : other ≠ size := fun h => hnot (h ▸ hsize)
      have hlt := ih ⟨other, (List.mem_cons.mp hother).resolve_left hne, hnot⟩
      exact Nat.add_lt_add_of_le_of_lt (Nat.div_mul_le_self size tp) hlt
    · have hlt : size / tp * tp < size := by
        refine lt_of_le_of_ne (Nat.div_mul_le_self size tp) fun h => hsize ⟨size / tp, ?_⟩
        rw [Nat.mul_comm]
        exact h.symm
      exact Nat.add_lt_add_of_lt_of_le hlt (hle sizes)

private theorem getD_div (sizes : List Nat) (i : Nat) :
    (sizes.map (· / tp)).getD i 0 = sizes.getD i 0 / tp := by
  simp only [List.getD_eq_getElem?_getD, List.getElem?_map]
  cases sizes[i]? <;> simp

def mergedTiling (outputSizes : List Nat) (tp : Nat) (hdvd : ∀ size ∈ outputSizes, tp ∣ size) :
    Tiling Nat (outputSizes.sum / tp) where
  toLayout := mergedLayout outputSizes tp
  nodup := List.nodup_range
  fits i hi := by
    have hfit := blocks_fit (outputSizes.map (· / tp)) i (by simpa [mergedLayout] using hi)
    have htake := sum_div (outputSizes.take i) fun s hs => hdvd s (List.mem_of_mem_take hs)
    rw [← List.map_take, ← htake, getD_div, ← sum_div outputSizes hdvd] at hfit
    exact hfit
  covers l hl := by
    rw [sum_div outputSizes hdvd] at hl
    have hcover := blocks_cover (outputSizes.map (· / tp)) hl
    have htake : ∀ i, ((outputSizes.map (· / tp)).take i).sum = (outputSizes.take i).sum / tp := by
      intro i
      rw [← List.map_take]
      exact (sum_div (outputSizes.take i) fun s hs => hdvd s (List.mem_of_mem_take hs)).symm
    simp only [getD_div, htake, List.length_map] at hcover
    exact hcover

private theorem merged_fits {i : Nat} (hi : i < outputSizes.length) :
    (outputSizes.take i).sum / tp + outputSizes.getD i 0 / tp ≤ outputSizes.sum / tp :=
  Nat.div_add_div_le_add_div.trans (Nat.div_le_div_right (blocks_fit outputSizes i hi))

private theorem merged_loads {rank : Nat} (layer : MergedColumnParallelLinear F)
    (hsizes : layer.outputSizes = outputSizes) (hdim : layer.tpDim = 0)
    (hsize : layer.tpSize = tp) (hrank : layer.tpRank = rank) (hlt : rank < tp) :
    (mergedLayout outputSizes tp).Loads (outputSizes.sum / tp) rank tp
      (MergedColumnParallelLinear.weightLoader layer) := by
  intro i hi rest p V hp
  have hi' : i < outputSizes.length := List.mem_range.mp hi
  have hpos : 0 < p.shape.length := by rw [hp]; exact Nat.succ_pos _
  have hset : p.shape.set 0 (outputSizes.getD i 0 / tp * tp)
      = outputSizes.getD i 0 / tp * tp :: rest := by rw [hp]; rfl
  have hget : outputSizes[i]? = some (outputSizes.getD i 0) := by
    rw [List.getElem?_eq_getElem hi', List.getD_eq_getElem _ _ hi']
  unfold MergedColumnParallelLinear.weightLoader
  rw [hsizes, hget]
  simp only [hdim, hsize, hrank]
  constructor
  · intro hV
    refine loadChunked_ok hpos ?_ hlt (hV.trans hset.symm)
    rw [hp, List.getD_cons_zero]
    exact merged_fits hi'
  · intro hV
    exact loadChunked_error hpos (by omega) fun h => hV (h.trans hset)

private theorem MergedColumnParallelLinear.init_ok (inputSize : Nat) (bias : Bool) (rank : Nat)
    (hdvd : tp ∣ outputSizes.sum) :
    MergedColumnParallelLinear.init inputSize outputSizes bias rank tp = .ok
      { LinearBase.init inputSize (outputSizes.sum / tp) bias 0 rank tp with
        outputSizes := outputSizes : MergedColumnParallelLinear F } := by
  unfold MergedColumnParallelLinear.init ColumnParallelLinear.init divide
  rw [if_pos (Nat.mod_eq_zero_of_dvd hdvd)]
  rfl

variable {inputSize : Nat} {ckpt : Checkpoint F Nat (List.range outputSizes.length)}

def MergedDivided (outputSizes : List Nat) (inputSize tp : Nat)
    (ckpt : Checkpoint F Nat (List.range outputSizes.length)) : Prop :=
  tp ∣ outputSizes.sum → ckpt.Fits (mergedLayout outputSizes tp) tp inputSize →
    ∀ size ∈ outputSizes, tp ∣ size

private theorem merged_build_error (hdvd : tp ∣ outputSizes.sum)
    (hnot : ¬ ckpt.Fits (mergedLayout outputSizes tp) tp inputSize) {rank : Nat}
    (hrank : rank < tp) :
    ∃ e, MergedColumnParallelLinear.build inputSize outputSizes ckpt tp rank = .error e := by
  unfold MergedColumnParallelLinear.build
  rw [Call.except_bind_of_ok (MergedColumnParallelLinear.init_ok inputSize _ rank hdvd)]
  exact LinearBase.loaded_error rfl (merged_loads _ rfl rfl rfl rfl hrank) rfl rfl hnot

private theorem merged_hole (hdvd : tp ∣ outputSizes.sum) (hbad : ∃ size ∈ outputSizes, ¬ tp ∣ size) :
    ∃ l < outputSizes.sum / tp, ∀ i < outputSizes.length,
      ¬ ((outputSizes.take i).sum / tp ≤ l
        ∧ l < (outputSizes.take i).sum / tp + outputSizes.getD i 0 / tp) := by
  by_contra hnone
  push Not at hnone
  let block : Nat → Finset Nat := fun i =>
    Finset.Ico ((outputSizes.take i).sum / tp)
      ((outputSizes.take i).sum / tp + outputSizes.getD i 0 / tp)
  have hcover : Finset.range (outputSizes.sum / tp)
      ⊆ (Finset.range outputSizes.length).biUnion block := by
    intro l hl
    obtain ⟨i, hi, hlow, hhigh⟩ := hnone l (Finset.mem_range.mp hl)
    exact Finset.mem_biUnion.mpr ⟨i, Finset.mem_range.mpr hi, Finset.mem_Ico.mpr ⟨hlow, hhigh⟩⟩
  have hcount : outputSizes.sum / tp ≤ (outputSizes.map (· / tp)).sum := by
    calc outputSizes.sum / tp
        = (Finset.range (outputSizes.sum / tp)).card := (Finset.card_range _).symm
      _ ≤ ((Finset.range outputSizes.length).biUnion block).card := Finset.card_le_card hcover
      _ ≤ ∑ i ∈ Finset.range outputSizes.length, (block i).card := Finset.card_biUnion_le
      _ = ∑ i ∈ Finset.range outputSizes.length, (outputSizes.map (· / tp)).getD i 0 := by
          refine Finset.sum_congr rfl fun i _ => ?_
          rw [Nat.card_Ico, Nat.add_sub_cancel_left, getD_div]
      _ = (outputSizes.map (· / tp)).sum := by
          have hsum := sum_getD (outputSizes.map (· / tp))
          rwa [List.length_map] at hsum
  have hparts : (outputSizes.map (· / tp)).sum * tp < outputSizes.sum := sum_div_lt hbad
  have htotal := Nat.div_mul_cancel hdvd
  have := Nat.mul_le_mul_right tp hcount
  omega

/-- The truncated sub-matrices load without an error, and a local row keeps whatever memory it
was allocated in. -/
private theorem merged_row_unwritten (hdvd : tp ∣ outputSizes.sum)
    (hbad : ∃ size ∈ outputSizes, ¬ tp ∣ size)
    (hfits : ckpt.Fits (mergedLayout outputSizes tp) tp inputSize) {rank : Nat}
    (hrank : rank < tp) :
    ∃ layer, MergedColumnParallelLinear.build inputSize outputSizes ckpt tp rank = .ok layer
      ∧ layer.weight.shape = [outputSizes.sum / tp, inputSize]
      ∧ ∃ l < outputSizes.sum / tp, ∀ rest, layer.weight.entry (l :: rest) = [] := by
  let empty : MergedColumnParallelLinear F :=
    { LinearBase.init inputSize (outputSizes.sum / tp) ckpt.biases.isSome 0 rank tp with
      outputSizes := outputSizes }
  have hloads : (mergedLayout outputSizes tp).Loads (outputSizes.sum / tp) rank tp
      (MergedColumnParallelLinear.weightLoader empty) :=
    merged_loads empty rfl rfl rfl rfl hrank
  have hweight : empty.toLinearBase.weight = .empty [outputSizes.sum / tp, inputSize] := rfl
  unfold MergedColumnParallelLinear.build
  rw [Call.except_bind_of_ok (MergedColumnParallelLinear.init_ok inputSize _ rank hdvd)]
  obtain ⟨layer, hlayer, hshape, hentry⟩ :=
    LinearBase.loaded_entries rfl hloads hweight rfl hfits
  refine ⟨layer, hlayer, hshape, ?_⟩
  obtain ⟨l, hl, hout⟩ := merged_hole hdvd hbad
  refine ⟨l, hl, fun rest => ?_⟩
  rw [hentry, List.map_eq_nil_iff, List.filter_eq_nil_iff]
  intro i hi hcover
  simp only [covering, decide_eq_true_eq] at hcover
  exact hout i (List.mem_range.mp (ckpt.weightOrder_perm.mem_iff.mp hi)) hcover.2

private theorem mergedEquivalent_iff [Semiring F] (htp : 0 < tp) :
    ColumnEquivalent tp (outputSizes.sum / tp) inputSize (mergedLayout outputSizes tp)
      (fun i => outputSizes.getD i 0) ckpt
      (MergedColumnParallelLinear.build inputSize outputSizes ckpt tp)
    ↔ MergedDivided outputSizes inputSize tp ckpt := by
  constructor
  · intro hequiv hdvd hfits
    by_contra hall
    push Not at hall
    obtain ⟨size, hmem, hnot⟩ := hall
    obtain ⟨layer, hlayer, -⟩ := merged_row_unwritten hdvd ⟨size, hmem, hnot⟩ hfits htp
    obtain ⟨i, hi, rfl⟩ := List.getElem_of_mem hmem
    have hi' : ¬ tp ∣ outputSizes.getD i 0 := by rwa [List.getD_eq_getElem _ _ hi]
    obtain ⟨e, he⟩ := hequiv.divisible ⟨i, List.mem_range.mpr hi, hi'⟩ 0 htp
    rw [hlayer] at he
    cases he
  · intro hdivided
    by_cases hdvd : tp ∣ outputSizes.sum
    · by_cases hall : ∀ size ∈ outputSizes, tp ∣ size
      · refine ColumnEquivalent.of_tiling (T := mergedTiling outputSizes tp hall) htp ?_ ?_ ?_
        · intro i hi
          have hi' : i < outputSizes.length := List.mem_range.mp hi
          refine Nat.div_mul_cancel ?_
          rw [List.getD_eq_getElem _ _ hi']
          exact hall _ (List.getElem_mem hi')
        · intro hfits r hr
          unfold MergedColumnParallelLinear.build
          rw [Call.except_bind_of_ok (MergedColumnParallelLinear.init_ok inputSize _ r hdvd)]
          exact LinearBase.loaded_ok rfl (merged_loads _ rfl rfl rfl rfl hr) rfl rfl hfits
        · exact fun hnot r hr => merged_build_error hdvd hnot hr
      · exact ColumnEquivalent.of_error htp fun r hr =>
          merged_build_error hdvd (fun hfits => hall (hdivided hdvd hfits)) hr
    · have hmod : ¬ outputSizes.sum % tp = 0 := fun h => hdvd (Nat.dvd_of_mod_eq_zero h)
      refine ColumnEquivalent.of_error htp fun r _ => ⟨.assertionError, ?_⟩
      unfold MergedColumnParallelLinear.build MergedColumnParallelLinear.init
        ColumnParallelLinear.init divide
      rw [if_neg hmod]
      rfl

end Merged

section Qkv

def qkvLayout (qSize kvSize : Nat) : Layout QkvShard where
  ids := [.q, .k, .v]
  offset
    | .q => 0
    | .k => qSize
    | .v => qSize + kvSize
  size
    | .q => qSize
    | .k => kvSize
    | .v => kvSize

def qkvTiling (qSize kvSize : Nat) : Tiling QkvShard (qSize + kvSize + kvSize) where
  toLayout := qkvLayout qSize kvSize
  nodup := (by decide : [QkvShard.q, .k, .v].Nodup)
  fits i _ := by cases i <;> simp only [qkvLayout] <;> omega
  covers l hl := by
    have hmem : ∀ i : QkvShard, i ∈ (qkvLayout qSize kvSize).ids := fun i => by
      cases i <;> simp [qkvLayout]
    by_cases hq : l < qSize
    · refine ⟨.q, ⟨hmem _, Nat.zero_le l, by simpa [qkvLayout] using hq⟩, ?_⟩
      rintro (_ | _ | _) ⟨-, hlow, -⟩
      · rfl
      · exact absurd hlow (Nat.not_le.mpr hq)
      · exact absurd hlow (by simp only [qkvLayout]; omega)
    · by_cases hk : l < qSize + kvSize
      · refine ⟨.k, ⟨hmem _, Nat.le_of_not_lt hq, hk⟩, ?_⟩
        rintro (_ | _ | _) ⟨-, hlow, hhigh⟩
        · exact absurd hhigh (by simp only [qkvLayout]; omega)
        · rfl
        · exact absurd hlow (Nat.not_le.mpr hk)
      · refine ⟨.v, ⟨hmem _, Nat.le_of_not_lt hk, hl⟩, ?_⟩
        rintro (_ | _ | _) ⟨-, -, hhigh⟩
        · exact absurd hhigh (by simp only [qkvLayout]; omega)
        · exact absurd hhigh (by simp only [qkvLayout]; omega)
        · rfl

private theorem qkv_loads {tp rank : Nat} (layer : QKVParallelLinear F) (hdim : layer.tpDim = 0)
    (hsize : layer.tpSize = tp) (hrank : layer.tpRank = rank) (hlt : rank < tp) :
    (qkvTiling (layer.numHeads * layer.headSize) (layer.numKvHeads * layer.headSize)).Loads
      (layer.numHeads * layer.headSize + layer.numKvHeads * layer.headSize
        + layer.numKvHeads * layer.headSize) rank tp (QKVParallelLinear.weightLoader layer) := by
  intro i hi rest p V hp
  have hpos : 0 < p.shape.length := by rw [hp]; exact Nat.succ_pos _
  have hset : ∀ m, p.shape.set 0 m = m :: rest := by
    intro m
    rw [hp]
    rfl
  have hfits := (qkvTiling (layer.numHeads * layer.headSize)
    (layer.numKvHeads * layer.headSize)).fits i hi
  unfold QKVParallelLinear.weightLoader
  rw [hdim, hsize, hrank]
  have hget : p.shape.getD 0 0 = layer.numHeads * layer.headSize
      + layer.numKvHeads * layer.headSize + layer.numKvHeads * layer.headSize := by
    rw [hp, List.getD_cons_zero]
  have htp : 0 < tp := by omega
  constructor
  · intro hV
    have hload := loadChunked_ok hpos (hfits.trans_eq hget.symm) hlt (hV.trans (hset _).symm)
    cases i <;> exact hload
  · intro hV
    have hload : ∃ e, LinearBase.loadChunked 0 rank tp p V
        ((qkvLayout (layer.numHeads * layer.headSize) (layer.numKvHeads * layer.headSize)).offset i)
        ((qkvLayout (layer.numHeads * layer.headSize) (layer.numKvHeads * layer.headSize)).size i)
        = .error e := loadChunked_error hpos htp fun h => hV (h.trans (hset _))
    cases i <;> exact hload

variable [Semiring F] {tp : Nat}

def qkvGlobalSize (headSize totalNumHeads totalNumKvHeads : Nat) : QkvShard → Nat
  | .q => totalNumHeads * headSize
  | .k => totalNumKvHeads * headSize
  | .v => totalNumKvHeads * headSize

private theorem qkvEquivalent (htp : 0 < tp) (hiddenSize headSize totalNumHeads : Nat)
    (totalNumKvHeads : Option Nat) (ckpt : Checkpoint F QkvShard [.q, .k, .v]) :
    ColumnEquivalent tp
      (totalNumHeads / tp * headSize
        + QKVParallelLinear.kvHeads totalNumHeads totalNumKvHeads / tp * headSize
        + QKVParallelLinear.kvHeads totalNumHeads totalNumKvHeads / tp * headSize)
      hiddenSize
      (qkvLayout (totalNumHeads / tp * headSize)
        (QKVParallelLinear.kvHeads totalNumHeads totalNumKvHeads / tp * headSize))
      (qkvGlobalSize headSize totalNumHeads
        (QKVParallelLinear.kvHeads totalNumHeads totalNumKvHeads))
      ckpt
      (QKVParallelLinear.build hiddenSize headSize totalNumHeads totalNumKvHeads ckpt tp) := by
  generalize hkv : QKVParallelLinear.kvHeads totalNumHeads totalNumKvHeads = kv
  by_cases hq : totalNumHeads % tp = 0
  · by_cases hkvd : kv % tp = 0
    · let empty : Nat → QKVParallelLinear F := fun r =>
        { LinearBase.init hiddenSize (totalNumHeads / tp * headSize + kv / tp * headSize
            + kv / tp * headSize) ckpt.biases.isSome 0 r tp with
          headSize := headSize
          numHeads := totalNumHeads / tp
          numKvHeads := kv / tp }
      have hinit : ∀ r, QKVParallelLinear.init hiddenSize headSize totalNumHeads totalNumKvHeads
          ckpt.biases.isSome r tp = .ok (empty r) := by
        intro r
        obtain ⟨n, hn⟩ := Nat.dvd_of_mod_eq_zero hq
        obtain ⟨m, hm⟩ := Nat.dvd_of_mod_eq_zero hkvd
        have htotal : (totalNumHeads + 2 * kv) * headSize
            = tp * (n * headSize + m * headSize + m * headSize) := by
          rw [hn, hm]
          ring
        have hmod : (totalNumHeads + 2 * kv) * headSize % tp = 0 := by
          rw [htotal, Nat.mul_mod_right]
        have hrows : (totalNumHeads + 2 * kv) * headSize / tp
            = totalNumHeads / tp * headSize + kv / tp * headSize + kv / tp * headSize := by
          rw [htotal, Nat.mul_div_cancel_left _ htp, hn, hm, Nat.mul_div_cancel_left _ htp,
            Nat.mul_div_cancel_left _ htp]
        unfold QKVParallelLinear.init ColumnParallelLinear.init divide
        simp only [hkv, if_pos hq, if_pos hkvd, if_pos hmod, hrows]
        rfl
      refine ColumnEquivalent.of_tiling
        (T := qkvTiling (totalNumHeads / tp * headSize) (kv / tp * headSize)) htp ?_ ?_ ?_
      · have hn := Nat.div_mul_cancel (Nat.dvd_of_mod_eq_zero hq)
        have hm := Nat.div_mul_cancel (Nat.dvd_of_mod_eq_zero hkvd)
        intro i _
        cases i with
        | q =>
          calc totalNumHeads / tp * headSize * tp = totalNumHeads / tp * tp * headSize := by ring
            _ = totalNumHeads * headSize := by rw [hn]
        | k =>
          calc kv / tp * headSize * tp = kv / tp * tp * headSize := by ring
            _ = kv * headSize := by rw [hm]
        | v =>
          calc kv / tp * headSize * tp = kv / tp * tp * headSize := by ring
            _ = kv * headSize := by rw [hm]
      · intro hfits r hr
        unfold QKVParallelLinear.build
        rw [Call.except_bind_of_ok (hinit r)]
        exact LinearBase.loaded_ok rfl (qkv_loads (empty r) rfl rfl rfl hr) rfl rfl hfits
      · intro hnot r hr
        unfold QKVParallelLinear.build
        rw [Call.except_bind_of_ok (hinit r)]
        exact LinearBase.loaded_error rfl (qkv_loads (empty r) rfl rfl rfl hr) rfl rfl hnot
    · refine ColumnEquivalent.of_error htp fun r _ => ⟨.assertionError, ?_⟩
      unfold QKVParallelLinear.build QKVParallelLinear.init divide
      simp only [hkv, if_pos hq, if_neg hkvd]
      rfl
  · refine ColumnEquivalent.of_error htp fun r _ => ⟨.assertionError, ?_⟩
    unfold QKVParallelLinear.build QKVParallelLinear.init divide
    simp only [if_neg hq]
    rfl

end Qkv

section All

/-- A tensor-parallel layer with its sizes and its checkpoint tensors. -/
inductive ParallelLayer (F : Type)
  | column (inputSize outputSize : Nat) (ckpt : Checkpoint F Unit [()])
  | merged (inputSize : Nat) (outputSizes : List Nat)
      (ckpt : Checkpoint F Nat (List.range outputSizes.length))
  | qkv (hiddenSize headSize totalNumHeads : Nat) (totalNumKvHeads : Option Nat)
      (ckpt : Checkpoint F QkvShard [.q, .k, .v])
  | row (inputSize outputSize : Nat) (ckpt : Checkpoint F Unit [()])
  | embedding (numEmbeddings embeddingDim : Nat) (table : Tensor F)
  | lmHead (numEmbeddings embeddingDim : Nat) (table : Tensor F)

variable [Semiring F]

/-- Loaded on `tp` ranks, the layer is the unsharded one or raises. -/
def ParallelLayer.Equivalent (tp : Nat) : ParallelLayer F → Prop
  | column inputSize outputSize ckpt =>
    ColumnEquivalent tp (outputSize / tp) inputSize (columnLayout (outputSize / tp))
      (fun _ => outputSize) ckpt (ColumnParallelLinear.build inputSize outputSize ckpt tp)
  | merged inputSize outputSizes ckpt =>
    ColumnEquivalent tp (outputSizes.sum / tp) inputSize (mergedLayout outputSizes tp)
      (fun i => outputSizes.getD i 0) ckpt
      (MergedColumnParallelLinear.build inputSize outputSizes ckpt tp)
  | qkv hiddenSize headSize totalNumHeads totalNumKvHeads ckpt =>
    let kv := QKVParallelLinear.kvHeads totalNumHeads totalNumKvHeads
    ColumnEquivalent tp
      (totalNumHeads / tp * headSize + kv / tp * headSize + kv / tp * headSize) hiddenSize
      (qkvLayout (totalNumHeads / tp * headSize) (kv / tp * headSize))
      (qkvGlobalSize headSize totalNumHeads kv) ckpt
      (QKVParallelLinear.build hiddenSize headSize totalNumHeads totalNumKvHeads ckpt tp)
  | row inputSize outputSize ckpt =>
    RowEquivalent tp inputSize outputSize ckpt
      (RowParallelLinear.build inputSize outputSize ckpt tp)
  | embedding vocab k table =>
    TableSharded tp vocab k table (VocabParallelEmbedding.build vocab k table tp) ∧
      ∀ layers : Nat → VocabParallelEmbedding F,
        (∀ r < tp, VocabParallelEmbedding.build vocab k table tp r = .ok (layers r)) →
        LooksUp tp vocab table layers
  | lmHead vocab k table =>
    TableSharded tp vocab k table (ParallelLMHead.build vocab k false table tp) ∧
      ∀ layers : Nat → VocabParallelEmbedding F,
        (∀ r < tp, ParallelLMHead.build vocab k false table tp r = .ok (layers r)) →
        HeadLogits tp k table layers

omit [Semiring F] in
/-- In the merged layer, a size the ranks do not divide is caught by the constructor, when the
sum does not divide either, or by a loaded tensor whose rows are not the truncated ones. -/
def ParallelLayer.Divided (tp : Nat) : ParallelLayer F → Prop
  | merged inputSize outputSizes ckpt => MergedDivided outputSizes inputSize tp ckpt
  | _ => True

variable {tp : Nat}

private theorem LooksUp.congr {vocab : Nat} {W : Tensor F}
    {layers other : Nat → VocabParallelEmbedding F}
    (h : ∀ r < tp, layers r = other r) (hother : LooksUp tp vocab W other) :
    LooksUp tp vocab W layers := by
  intro leftover x hx
  obtain ⟨outs, z, houts, hz⟩ := hother leftover x hx
  exact ⟨outs, z, fun r hr => by rw [h r hr]; exact houts r hr, hz⟩

private theorem HeadLogits.congr {k : Nat} {W : Tensor F}
    {layers other : Nat → VocabParallelEmbedding F}
    (h : ∀ r < tp, layers r = other r) (hother : HeadLogits tp k W other) :
    HeadLogits tp k W layers := by
  intro numericalMode context allPositions leftover x chosen count hx hchosen
  obtain ⟨outs, y, z, others, houts, hrest⟩ :=
    hother numericalMode context allPositions leftover x chosen count hx hchosen
  exact ⟨outs, y, z, others, fun r hr => by rw [h r hr]; exact houts r hr, hrest⟩

/-- On any number of ranks a layer is its unsharded counterpart or raises, except for merged
layers that truncate a sub-matrix. -/
theorem parallel_layer_equivalent_iff (htp : 0 < tp) (layer : ParallelLayer F) :
    layer.Equivalent tp ↔ layer.Divided tp := by
  cases layer with
  | column inputSize outputSize ckpt =>
    exact ⟨fun _ => trivial, fun _ => columnEquivalent htp inputSize outputSize ckpt⟩
  | merged inputSize outputSizes ckpt => exact mergedEquivalent_iff htp
  | qkv hiddenSize headSize totalNumHeads totalNumKvHeads ckpt =>
    exact ⟨fun _ => trivial, fun _ =>
      qkvEquivalent htp hiddenSize headSize totalNumHeads totalNumKvHeads ckpt⟩
  | row inputSize outputSize ckpt =>
    exact ⟨fun _ => trivial, fun _ => rowEquivalent htp inputSize outputSize ckpt⟩
  | embedding vocab k table =>
    refine ⟨fun _ => trivial, fun _ => ⟨tableSharded htp vocab k table, fun layers hbuilt => ?_⟩⟩
    obtain ⟨n, rfl, hshape, hlayers⟩ := loaded_table htp hbuilt
    exact (tableLoaded_looksUp htp hshape).congr hlayers
  | lmHead vocab k table =>
    refine ⟨fun _ => trivial, fun _ => ⟨tableSharded htp vocab k table, fun layers hbuilt => ?_⟩⟩
    obtain ⟨n, rfl, hshape, hlayers⟩ := loaded_table htp hbuilt
    exact (tableLoaded_logits htp hshape).congr hlayers

def dividedCheckpoint : Checkpoint Int Nat (List.range [4, 2].length) where
  weights i :=
    { shape := [if i = 0 then 4 else 2, 1]
      entry := fun index => 10 * i + index.headD 0 }
  biases := none
  weightOrder := [1, 0]
  biasOrder := [0, 1]
  weightOrder_perm := List.Perm.swap 0 1 []
  biasOrder_perm := List.Perm.refl _

theorem parallel_layer_equivalent_on_two_ranks :
    (ParallelLayer.merged 1 [4, 2] dividedCheckpoint).Equivalent 2 := by
  refine (parallel_layer_equivalent_iff (by decide) _).mpr fun _ _ size hsize => ?_
  rcases List.mem_pair.mp hsize with rfl | rfl
  · exact ⟨2, rfl⟩
  · exact ⟨1, rfl⟩

/-- The truncated shapes of sub-matrices of 3 and 5 rows. -/
def truncatedCheckpoint : Checkpoint Int Nat (List.range [3, 5].length) where
  weights i := { shape := [if i = 0 then 2 else 4, 1], entry := fun _ => 1 }
  biases := none
  weightOrder := [0, 1]
  biasOrder := [0, 1]
  weightOrder_perm := List.Perm.refl _
  biasOrder_perm := List.Perm.refl _

/-- Two ranks load sub-matrices of 3 and 5 rows from tensors of 2 and 4 rows without an error,
although neither size divides. -/
theorem merged_truncates :
    ¬ (ParallelLayer.merged 1 [3, 5] truncatedCheckpoint).Equivalent 2 := by
  intro hequiv
  have hnot : ¬ MergedDivided [3, 5] 1 2 truncatedCheckpoint := by
    intro hdivided
    have hfits : truncatedCheckpoint.Fits (mergedLayout [3, 5] 2) 2 1 := by
      refine ⟨fun i hi => ?_, by simp [truncatedCheckpoint]⟩
      have hi' : i = 0 ∨ i = 1 := by
        have : i < 2 := List.mem_range.mp hi
        omega
      rcases hi' with rfl | rfl <;> rfl
    exact absurd (hdivided (by decide) hfits 3 (by simp)) (by decide)
  exact hnot ((mergedEquivalent_iff (by decide)).mp hequiv)

end All

end NanoVllm
