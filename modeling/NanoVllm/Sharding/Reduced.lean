/- module: NanoVllm/Sharding/Reduced
   layer: refinement
   digest: Row-parallel layers, the embedding and the output head against their unsharded
     counterparts. -/

import NanoVllm.Layers.EmbedHead
import NanoVllm.Sharding.Columns

set_option autoImplicit false
set_option relaxedAutoImplicit false

open NanoVllm.Library

namespace NanoVllm

variable {F : Type}

def RowParallelLinear.build (inputSize outputSize : Nat) (ckpt : Checkpoint F Unit [()])
    (tpSize tpRank : Nat) : Except Raised (LinearBase F) := do
  let layer ← init inputSize outputSize ckpt.biases.isSome tpRank tpSize
  layer.loaded (fun param W _ => weightLoader layer param W) ckpt

def VocabParallelEmbedding.build (numEmbeddings embeddingDim : Nat) (W : Tensor F)
    (tpSize tpRank : Nat) : Except Raised (VocabParallelEmbedding F) := do
  let layer ← init numEmbeddings embeddingDim tpRank tpSize
  let weight ← weightLoader layer layer.weight W
  pure { layer with weight := weight }

def ParallelLMHead.build (numEmbeddings embeddingDim : Nat) (bias : Bool) (W : Tensor F)
    (tpSize tpRank : Nat) : Except Raised (VocabParallelEmbedding F) := do
  let layer ← init numEmbeddings embeddingDim bias tpRank tpSize
  let weight ← VocabParallelEmbedding.weightLoader layer layer.weight W
  pure { layer with weight := weight }

theorem home_of_blocks {tp n g : Nat} (hg : g < n * tp) :
    ∃! at_ : Nat × Nat, at_.1 < tp ∧ at_.2 < n ∧ g = at_.2 + at_.1 * n := by
  obtain ⟨at_, ⟨hrank, -, hlt, hval⟩, huniq⟩ :=
    Layout.home (⟨[()], fun _ => 0, fun _ => n⟩ : Layout Unit) (i := ()) hg
  refine ⟨at_, ⟨hrank, by simpa using hlt, by simpa using hval⟩, ?_⟩
  rintro other ⟨hrank', hlt', hval'⟩
  exact huniq other ⟨hrank', Nat.zero_le _, by simpa using hlt', by simpa using hval'⟩

section Filled

variable (dim rank : Nat) (W : Tensor F)

/-- An unwritten parameter filled by the narrowing loader is written once everywhere. -/
theorem filled_once (shape : List Nat) : (filled dim rank (.empty shape) W).Once := by
  intro idx hidx
  have hin : InRange shape idx := hidx
  simp [filled, Storage.empty, hin]

theorem filled_entry {shape idx : List Nat} (hidx : InRange shape idx) :
    (filled dim rank (.empty shape) W).entry idx
      = [W.entry (idx.modify dim (· + rank * shape.getD dim 0))] := by
  simp [filled, Storage.empty, hidx]

theorem filled_value (leftover : List Nat → F) {shape idx : List Nat}
    (hidx : InRange shape idx) :
    ((filled dim rank (.empty shape) W).value leftover).entry idx
      = W.entry (idx.modify dim (· + rank * shape.getD dim 0)) := by
  simp only [Storage.value, filled_entry dim rank W hidx, List.getLast?_singleton, Option.getD_some]

end Filled

section Row

variable [Semiring F]

/-- Loaded on every rank, the reduced output is the unsharded one; sizes that do not divide and
tensors of another shape than the unsharded layer's raise. -/
structure RowEquivalent (tp inputSize outputSize : Nat) (ckpt : Checkpoint F Unit [()])
    (build : Nat → Except Raised (LinearBase F)) : Prop where
  sharded : ∀ layers : Nat → LinearBase F, (∀ r < tp, build r = .ok (layers r)) →
    ∀ r < tp, (layers r).weight.shape = [outputSize, inputSize / tp]
      ∧ (layers r).weight.Once
      ∧ (∀ row < outputSize, ∀ col < inputSize / tp, (layers r).weight.entry [row, col]
          = [(ckpt.weights ()).entry [row, col + r * (inputSize / tp)]])
      ∧ (layers r).bias.isSome = ckpt.biases.isSome
      ∧ ∀ p ∈ (layers r).bias, ∀ B ∈ ckpt.biases, p.shape = [outputSize] ∧ p.Once
          ∧ ∀ row < outputSize, p.entry [row] = [(B ()).entry [row]]
  places : ∀ layers : Nat → LinearBase F, (∀ r < tp, build r = .ok (layers r)) →
    ∀ g < inputSize, ∃! at_ : Nat × Nat, at_.1 < tp ∧ at_.2 < inputSize / tp
      ∧ g = at_.2 + at_.1 * (inputSize / tp)
  outputs : ∀ layers : Nat → LinearBase F, (∀ r < tp, build r = .ok (layers r)) →
    ∀ (numericalMode : String) (leftover : Nat → List Nat → F) (x : Tensor F) (lead : List Nat),
      x.shape = lead ++ [inputSize] →
      ∃ (outs : Nat → Tensor F) (z : Tensor F),
        (∀ r < tp, RowParallelLinear.partialOutput numericalMode (leftover r) (layers r)
          (x.slice lead.length (r * (inputSize / tp)) (inputSize / tp)) = .ok (outs r)) ∧
        ckpt.full () x = .ok z ∧ ∀ y ∈ reduced tp ((List.range tp).map outs), y.Same z
  divisible : ¬ tp ∣ inputSize → ∀ r < tp, ∃ e, build r = .error e
  weightShape : (ckpt.weights ()).shape ≠ [outputSize, inputSize] →
    ∀ r < tp, ∃ e, build r = .error e
  biasShape : (∃ B ∈ ckpt.biases, (B ()).shape ≠ [outputSize]) →
    ∀ r < tp, ∃ e, build r = .error e

def rowLoaded (tp n m : Nat) (ckpt : Checkpoint F Unit [()]) (rank : Nat) : LinearBase F where
  tpDim := 1
  tpRank := rank
  tpSize := tp
  weight := filled 1 rank (.empty [m, n]) (ckpt.weights ())
  bias := ckpt.biases.map fun B => filled 0 0 (.empty [m]) (B ())

variable {tp n m : Nat} {ckpt : Checkpoint F Unit [()]}

omit [Semiring F] in
private theorem loadShards_single (loader : Storage F → Tensor F → Unit → Except Raised (Storage F))
    (V : Unit → Tensor F) {order : List Unit} (horder : order.Perm [()]) (p : Storage F) :
    loadShards loader V order p = loader p (V ()) () := by
  rw [List.perm_singleton.mp horder, loadShards, List.foldlM_cons]
  cases loader p (V ()) () <;> rfl

omit [Semiring F] in
private theorem RowParallelLinear.weightLoader_weight (layer : LinearBase F) {rank : Nat}
    (hdim : layer.tpDim = 1) (hsize : layer.tpSize = tp) (hrank : layer.tpRank = rank)
    (hlt : rank < tp) (V : Tensor F) :
    (V.shape = [m, n * tp] → weightLoader layer (.empty [m, n]) V
      = .ok (filled 1 rank (.empty [m, n]) V)) ∧
    (V.shape ≠ [m, n * tp] → ∃ e, weightLoader layer (.empty [m, n]) V = .error e) := by
  have hrows : ¬ (Storage.empty [m, n] : Storage F).shape.length = 1 := by simp [Storage.empty]
  have hcols : 1 < (Storage.empty [m, n] : Storage F).shape.length := by simp [Storage.empty]
  unfold weightLoader
  rw [if_neg hrows, hdim, hsize, hrank]
  exact ⟨fun h => loadNarrowed_ok hcols hlt h, fun h => loadNarrowed_error hcols (by omega) h⟩

omit [Semiring F] in
private theorem RowParallelLinear.weightLoader_bias (layer : LinearBase F) (V : Tensor F) :
    (V.shape = [m] → weightLoader layer (.empty [m]) V = .ok (filled 0 0 (.empty [m]) V)) ∧
    (V.shape ≠ [m] → ∃ e, weightLoader layer (.empty [m]) V = .error e) := by
  have hrow : (Storage.empty [m] : Storage F).shape.length = 1 := rfl
  unfold weightLoader
  rw [if_pos hrow]
  constructor
  · intro hV
    have hshape : V.shape = (Storage.empty [m] : Storage F).shape := hV
    rw [hshape]
    refine (Call.except_bind_of_ok (requireExactWeightShape_self _)).trans ?_
    refine (copy_whole hshape).trans ?_
    congr 2
    funext idx
    have hfix : idx.modify 0 (fun l => l) = idx := modify_of_fixed rfl
    simp only [Nat.zero_mul, Nat.add_zero, hfix]
  · intro hV
    exact ⟨_, congrArg (· >>= _) (if_pos hV)⟩

omit [Semiring F] in
private theorem RowParallelLinear.build_eq (htp : 0 < tp) {rank : Nat} (hrank : rank < tp) :
    ((ckpt.weights ()).shape = [m, n * tp] → (∀ B ∈ ckpt.biases, (B ()).shape = [m]) →
      RowParallelLinear.build (n * tp) m ckpt tp rank = .ok (rowLoaded tp n m ckpt rank)) ∧
    (¬ ((ckpt.weights ()).shape = [m, n * tp] ∧ ∀ B ∈ ckpt.biases, (B ()).shape = [m]) →
      ∃ e, RowParallelLinear.build (n * tp) m ckpt tp rank = .error e) := by
  have hdivide : divide (n * tp) tp = .ok n := by
    rw [divide, if_pos (Nat.mul_mod_left n tp), Nat.mul_div_cancel n htp]
  let layer : LinearBase F := LinearBase.init n m ckpt.biases.isSome 1 rank tp
  have hinit : RowParallelLinear.init (n * tp) m ckpt.biases.isSome rank tp = .ok layer := by
    unfold RowParallelLinear.init
    rw [hdivide]
    rfl
  have hweight : ((ckpt.weights ()).shape = [m, n * tp] →
      RowParallelLinear.weightLoader layer layer.weight (ckpt.weights ())
        = .ok (filled 1 rank (.empty [m, n]) (ckpt.weights ()))) ∧
      ((ckpt.weights ()).shape ≠ [m, n * tp] →
        ∃ e, RowParallelLinear.weightLoader layer layer.weight (ckpt.weights ()) = .error e) :=
    RowParallelLinear.weightLoader_weight layer rfl rfl rfl hrank (ckpt.weights ())
  have hloadW := loadShards_single (fun param W _ => RowParallelLinear.weightLoader layer param W)
    ckpt.weights ckpt.weightOrder_perm layer.weight
  unfold RowParallelLinear.build
  rw [Call.except_bind_of_ok hinit]
  unfold LinearBase.loaded
  rw [hloadW]
  by_cases hshape : (ckpt.weights ()).shape = [m, n * tp]
  · rw [Call.except_bind_of_ok (hweight.1 hshape)]
    cases hB : ckpt.biases with
    | none =>
      refine ⟨fun _ _ => ?_, fun hnot => absurd ⟨hshape, by simp⟩ hnot⟩
      simp only [rowLoaded, hB, layer, LinearBase.init, Option.isSome_none, Option.map_none]
      rfl
    | some B =>
      have hbias := RowParallelLinear.weightLoader_bias (m := m) layer (B ())
      have hloadB := loadShards_single
        (fun param W _ => RowParallelLinear.weightLoader layer param W) B
        ckpt.biasOrder_perm (.empty [m])
      have hsome : layer.bias = some (.empty [m]) := by simp [layer, LinearBase.init, hB]
      rw [hsome]
      simp only [hloadB]
      constructor
      · intro _ hshapes
        rw [Call.except_bind_of_ok (hbias.1 (hshapes B rfl))]
        simp only [rowLoaded, hB]
        rfl
      · intro hnot
        have hne : (B ()).shape ≠ [m] := by
          intro heq
          refine hnot ⟨hshape, fun B' hB' => ?_⟩
          obtain rfl : B = B' := by simpa using hB'
          exact heq
        obtain ⟨e, he⟩ := hbias.2 hne
        exact ⟨e, congrArg (· >>= _) he⟩
  · obtain ⟨e, he⟩ := hweight.2 hshape
    exact ⟨fun h => absurd h hshape, fun _ => ⟨e, congrArg (· >>= _) he⟩⟩

theorem reduced_range (htp : 0 < tp) (outs : Nat → Tensor F) {y : Tensor F}
    (hy : y ∈ reduced tp ((List.range tp).map outs)) :
    y.shape = (outs 0).shape ∧ ∀ idx, y.entry idx = ∑ r ∈ Finset.range tp, (outs r).entry idx := by
  unfold reduced at hy
  by_cases hone : tp > 1
  · rw [if_pos hone, allReduce_range htp] at hy
    obtain ⟨-, -, rfl⟩ := List.mem_map.mp hy
    exact ⟨rfl, fun idx => rfl⟩
  · obtain rfl : tp = 1 := by omega
    rw [if_neg hone] at hy
    obtain rfl : y = outs 0 := by simpa using hy
    exact ⟨rfl, fun idx => by simp⟩

private theorem rowLoaded_outputs (htp : 0 < tp) (hshape : (ckpt.weights ()).shape = [m, n * tp])
    (hbias : ∀ B ∈ ckpt.biases, (B ()).shape = [m]) (numericalMode : String)
    (leftover : Nat → List Nat → F) {x : Tensor F} {lead : List Nat}
    (hx : x.shape = lead ++ [n * tp]) :
    ∃ (outs : Nat → Tensor F) (z : Tensor F),
      (∀ r < tp, RowParallelLinear.partialOutput numericalMode (leftover r)
        (rowLoaded tp n m ckpt r) (x.slice lead.length (r * n) n) = .ok (outs r)) ∧
      ckpt.full () x = .ok z ∧ ∀ y ∈ reduced tp ((List.range tp).map outs), y.Same z := by
  let stored : Nat → Option (Storage F) := fun r =>
    if r = 0 then (rowLoaded tp n m ckpt r).bias else none
  let outs : Nat → Tensor F := fun r =>
    affine m n (x.slice lead.length (r * n) n)
      ((rowLoaded tp n m ckpt r).weight.value (leftover r))
      ((stored r).map (Storage.value (leftover r)))
  have hslice : ∀ r, (x.slice lead.length (r * n) n).shape = lead ++ [n] := by
    intro r
    rw [Tensor.slice_shape, hx, set_last]
  have hstored : ∀ r, ∀ b ∈ stored r, b.shape = [m] := by
    intro r b hb
    by_cases hr : r = 0
    · simp only [stored, if_pos hr, rowLoaded, Option.mem_def, Option.map_eq_some_iff] at hb
      obtain ⟨B, -, rfl⟩ := hb
      rfl
    · simp [stored, hr] at hb
  have hfull : ckpt.full () x
      = .ok (affine m (n * tp) x (ckpt.weights ()) (ckpt.biases.map fun B => B ())) := by
    refine linear_ok hshape hx fun b hb => ?_
    obtain ⟨B, hB, rfl⟩ := Option.map_eq_some_iff.mp hb
    exact hbias B hB
  refine ⟨outs, _, fun r hr => ?_, hfull, fun y hy => ?_⟩
  · exact LinearBase.linear_ok numericalMode (leftover r) rfl (hslice r) (hstored r)
  · obtain ⟨hyshape, hyentry⟩ := reduced_range htp outs hy
    have houtShape : y.shape = lead ++ [m] := hyshape.trans (affine_shape (hslice 0))
    refine ⟨houtShape.trans (affine_shape hx).symm, fun idx hidx => ?_⟩
    rw [houtShape] at hidx
    obtain ⟨ls, c, rfl, hls, hc⟩ := inRange_last hidx
    have hdepth : ls.length = lead.length := hls.length_eq
    have hpart : ∀ r ∈ Finset.range tp, (outs r).entry (ls ++ [c])
        = (∑ j ∈ Finset.range n, x.entry (ls ++ [r * n + j])
            * (ckpt.weights ()).entry [c, r * n + j])
          + (if r = 0 then ((ckpt.biases.map fun B => B ()).map fun b => b.entry [c]).getD 0
              else 0) := by
      intro r _
      rw [affine_entry]
      congr 1
      · refine Finset.sum_congr rfl fun j hj => ?_
        have hin : InRange [m, n] [c, j] := ⟨hc, Finset.mem_range.mp hj, trivial⟩
        have hval := filled_value 1 r (ckpt.weights ()) (leftover r) hin
        simp only [List.modify_succ_cons, List.modify_zero_cons, List.getD_cons_succ,
          List.getD_cons_zero] at hval
        rw [Tensor.slice_entry, ← hdepth, modify_last, rowLoaded, hval, Nat.add_comm j]
      · by_cases hr : r = 0
        · subst hr
          have hin : InRange [m] [c] := ⟨hc, trivial⟩
          cases hB : ckpt.biases with
          | none => simp [stored, rowLoaded, hB]
          | some B =>
            have hval := filled_value 0 0 (B ()) (leftover 0) hin
            simp only [Nat.zero_mul, Nat.add_zero, List.modify_zero_cons] at hval
            simp [stored, rowLoaded, hB, hval]
        · simp [stored, hr]
    have hbiasOnce : ∑ r ∈ Finset.range tp,
        (if r = 0 then ((ckpt.biases.map fun B => B ()).map fun b => b.entry [c]).getD 0 else 0)
          = ((ckpt.biases.map fun B => B ()).map fun b => b.entry [c]).getD 0 := by
      rw [Finset.sum_ite_eq' (Finset.range tp) 0, if_pos (Finset.mem_range.mpr htp)]
    rw [hyentry, Finset.sum_congr rfl hpart, Finset.sum_add_distrib, hbiasOnce,
      ← sum_blocks tp n fun g => x.entry (ls ++ [g]) * (ckpt.weights ()).entry [c, g],
      affine_entry, Nat.mul_comm tp n]

theorem rowEquivalent (htp : 0 < tp) (inputSize outputSize : Nat)
    (ckpt : Checkpoint F Unit [()]) :
    RowEquivalent tp inputSize outputSize ckpt
      (RowParallelLinear.build inputSize outputSize ckpt tp) := by
  by_cases hdvd : tp ∣ inputSize
  · obtain ⟨n, rfl⟩ : ∃ n, inputSize = n * tp := by
      obtain ⟨n, hn⟩ := hdvd
      exact ⟨n, hn.trans (Nat.mul_comm tp n)⟩
    have hlocal : n * tp / tp = n := Nat.mul_div_cancel n htp
    have hfits : ∀ layers : Nat → LinearBase F,
        (∀ r < tp, RowParallelLinear.build (n * tp) outputSize ckpt tp r = .ok (layers r)) →
        (ckpt.weights ()).shape = [outputSize, n * tp]
          ∧ ∀ B ∈ ckpt.biases, (B ()).shape = [outputSize] := by
      intro layers hbuilt
      by_contra hnot
      obtain ⟨e, he⟩ := (RowParallelLinear.build_eq htp htp).2 hnot
      rw [hbuilt 0 htp] at he
      cases he
    have hlayers : ∀ layers : Nat → LinearBase F,
        (∀ r < tp, RowParallelLinear.build (n * tp) outputSize ckpt tp r = .ok (layers r)) →
        ∀ r < tp, layers r = rowLoaded tp n outputSize ckpt r := by
      intro layers hbuilt r hr
      obtain ⟨hW, hB⟩ := hfits layers hbuilt
      exact Except.ok.inj ((hbuilt r hr).symm.trans ((RowParallelLinear.build_eq htp hr).1 hW hB))
    refine
      { sharded := fun layers hbuilt r hr => ?_
        places := fun _ _ g hg => by simpa only [hlocal] using home_of_blocks hg
        outputs := fun layers hbuilt numericalMode leftover x lead hx => ?_
        divisible := fun hnot => absurd (Nat.dvd_mul_left tp n) hnot
        weightShape := fun hne r hr => (RowParallelLinear.build_eq htp hr).2 fun h => hne h.1
        biasShape := fun ⟨B, hB, hne⟩ r hr =>
          (RowParallelLinear.build_eq htp hr).2 fun h => hne (h.2 B hB) }
    · rw [hlayers layers hbuilt r hr, hlocal]
      refine ⟨rfl, filled_once _ _ _ _, fun row hrow col hcol => ?_, ?_, fun p hp B hB => ?_⟩
      · exact filled_entry 1 r (ckpt.weights ())
          (⟨hrow, hcol, trivial⟩ : InRange [outputSize, n] [row, col])
      · simp [rowLoaded]
      · rw [Option.mem_def] at hB
        obtain rfl : filled 0 0 (.empty [outputSize]) (B ()) = p := by
          simpa [rowLoaded, hB] using hp
        refine ⟨rfl, filled_once _ _ _ _, fun row hrow => ?_⟩
        have hin : InRange [outputSize] [row] := ⟨hrow, trivial⟩
        simpa using filled_entry 0 0 (B ()) hin
    · obtain ⟨hW, hB⟩ := hfits layers hbuilt
      obtain ⟨outs, z, houts, hz⟩ := rowLoaded_outputs htp hW hB numericalMode leftover hx
      refine ⟨outs, z, fun r hr => ?_, hz⟩
      rw [hlayers layers hbuilt r hr, hlocal]
      exact houts r hr
  · have hdivide : divide inputSize tp = .error .assertionError :=
      if_neg fun h => hdvd (Nat.dvd_of_mod_eq_zero h)
    have herror : ∀ r < tp, ∃ e,
        RowParallelLinear.build inputSize outputSize ckpt tp r = .error e := by
      intro r _
      refine ⟨.assertionError, ?_⟩
      unfold RowParallelLinear.build RowParallelLinear.init
      rw [hdivide]
      rfl
    have hnever : ∀ layers : Nat → LinearBase F,
        ¬ ∀ r < tp, RowParallelLinear.build inputSize outputSize ckpt tp r = .ok (layers r) := by
      intro layers hok
      obtain ⟨e, he⟩ := herror 0 htp
      rw [hok 0 htp] at he
      cases he
    exact
      { sharded := fun layers hok => (hnever layers hok).elim
        places := fun layers hok => (hnever layers hok).elim
        outputs := fun layers hok => (hnever layers hok).elim
        divisible := fun _ => herror
        weightShape := fun _ => herror
        biasShape := fun _ => herror }

end Row

end NanoVllm
