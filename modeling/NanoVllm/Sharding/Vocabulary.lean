/- module: NanoVllm/Sharding/Vocabulary
   layer: refinement
   digest: The vocabulary-parallel embedding and the output head against the whole table. -/

import NanoVllm.Sharding.Reduced

set_option autoImplicit false
set_option relaxedAutoImplicit false

open NanoVllm.Library

namespace NanoVllm

variable {F : Type}

section Table

structure TableSharded (tp vocab k : Nat) (W : Tensor F)
    (build : Nat → Except Raised (VocabParallelEmbedding F)) : Prop where
  sharded : ∀ layers : Nat → VocabParallelEmbedding F, (∀ r < tp, build r = .ok (layers r)) →
    ∀ r < tp, (layers r).weight.shape = [vocab / tp, k] ∧ (layers r).weight.Once
      ∧ ∀ row < vocab / tp, ∀ col < k,
          (layers r).weight.entry [row, col] = [W.entry [row + r * (vocab / tp), col]]
  places : ∀ layers : Nat → VocabParallelEmbedding F, (∀ r < tp, build r = .ok (layers r)) →
    ∀ g < vocab, ∃! at_ : Nat × Nat, at_.1 < tp ∧ at_.2 < vocab / tp
      ∧ g = at_.2 + at_.1 * (vocab / tp)
  divisible : ¬ tp ∣ vocab → ∀ r < tp, ∃ e, build r = .error e
  weightShape : W.shape ≠ [vocab, k] → ∀ r < tp, ∃ e, build r = .error e

def tableLoaded (tp n k : Nat) (W : Tensor F) (rank : Nat) : VocabParallelEmbedding F where
  tpRank := rank
  tpSize := tp
  numEmbeddings := n * tp
  numEmbeddingsPerPartition := n
  vocabStartIdx := n * rank
  vocabEndIdx := n * rank + n
  weight := filled 0 rank (.empty [n, k]) W

variable {tp n k : Nat} {W : Tensor F}

private theorem VocabParallelEmbedding.build_eq (htp : 0 < tp) {rank : Nat} (hrank : rank < tp) :
    (W.shape = [n * tp, k] →
      VocabParallelEmbedding.build (n * tp) k W tp rank = .ok (tableLoaded tp n k W rank)) ∧
    (W.shape ≠ [n * tp, k] →
      ∃ e, VocabParallelEmbedding.build (n * tp) k W tp rank = .error e) := by
  let layer : VocabParallelEmbedding F :=
    { tableLoaded tp n k W rank with weight := .empty [n, k] }
  have hinit : VocabParallelEmbedding.init (n * tp) k rank tp = .ok layer := by
    have hlocal : n * tp / tp = n := Nat.mul_div_cancel n htp
    unfold VocabParallelEmbedding.init
    rw [if_pos (Nat.mul_mod_left n tp)]
    simp only [hlocal]
    rfl
  have hdim : 0 < (Storage.empty [n, k] : Storage F).shape.length := by simp [Storage.empty]
  unfold VocabParallelEmbedding.build
  rw [Call.except_bind_of_ok hinit]
  unfold VocabParallelEmbedding.weightLoader
  constructor
  · intro hshape
    have hload : LinearBase.loadNarrowed 0 layer.tpRank layer.tpSize layer.weight W
        = .ok (filled 0 rank (.empty [n, k]) W) := loadNarrowed_ok hdim hrank hshape
    rw [Call.except_bind_of_ok hload]
    rfl
  · intro hne
    obtain ⟨e, he⟩ : ∃ e, LinearBase.loadNarrowed 0 layer.tpRank layer.tpSize layer.weight W
        = .error e := loadNarrowed_error hdim htp hne
    exact ⟨e, congrArg (· >>= _) he⟩

private theorem VocabParallelEmbedding.build_error {vocab : Nat} (hnot : ¬ tp ∣ vocab) (rank : Nat) :
    VocabParallelEmbedding.build vocab k W tp rank = .error .assertionError := by
  have hmod : ¬ vocab % tp = 0 := fun h => hnot (Nat.dvd_of_mod_eq_zero h)
  unfold VocabParallelEmbedding.build VocabParallelEmbedding.init
  rw [if_neg hmod]
  rfl

/-- Loaded on every rank, the sizes divide and each rank holds its rows of the table. -/
theorem loaded_table (htp : 0 < tp) {vocab : Nat} {layers : Nat → VocabParallelEmbedding F}
    (hbuilt : ∀ r < tp, VocabParallelEmbedding.build vocab k W tp r = .ok (layers r)) :
    ∃ n, vocab = n * tp ∧ W.shape = [n * tp, k] ∧
      ∀ r < tp, layers r = tableLoaded tp n k W r := by
  by_cases hdvd : tp ∣ vocab
  · obtain ⟨n, hn⟩ := hdvd
    obtain rfl : vocab = n * tp := hn.trans (Nat.mul_comm tp n)
    have hshape : W.shape = [n * tp, k] := by
      by_contra hne
      obtain ⟨e, he⟩ := (VocabParallelEmbedding.build_eq htp htp).2 hne
      rw [hbuilt 0 htp] at he
      cases he
    refine ⟨n, rfl, hshape, fun r hr => ?_⟩
    exact Except.ok.inj
      ((hbuilt r hr).symm.trans ((VocabParallelEmbedding.build_eq htp hr).1 hshape))
  · have he := VocabParallelEmbedding.build_error (k := k) (W := W) hdvd 0
    rw [hbuilt 0 htp] at he
    cases he

theorem tableSharded (htp : 0 < tp) (vocab k : Nat) (W : Tensor F) :
    TableSharded tp vocab k W (VocabParallelEmbedding.build vocab k W tp) where
  sharded layers hbuilt r hr := by
    obtain ⟨n, rfl, -, hlayers⟩ := loaded_table htp hbuilt
    rw [hlayers r hr, Nat.mul_div_cancel n htp]
    refine ⟨rfl, filled_once _ _ _ _, fun row hrow col hcol => ?_⟩
    exact filled_entry 0 r W (⟨hrow, hcol, trivial⟩ : InRange [n, k] [row, col])
  places layers hbuilt g hg := by
    obtain ⟨n, rfl, -⟩ := loaded_table htp hbuilt
    rw [Nat.mul_div_cancel n htp]
    exact home_of_blocks hg
  divisible hnot r _ := ⟨_, VocabParallelEmbedding.build_error hnot r⟩
  weightShape hne r hr := by
    by_cases hdvd : tp ∣ vocab
    · obtain ⟨n, hn⟩ := hdvd
      obtain rfl : vocab = n * tp := hn.trans (Nat.mul_comm tp n)
      exact (VocabParallelEmbedding.build_eq htp hr).2 hne
    · exact ⟨_, VocabParallelEmbedding.build_error hdvd r⟩

end Table

section Lookup

variable [Semiring F] {tp n k : Nat} {W : Tensor F}

def LooksUp (tp vocab : Nat) (W : Tensor F) (layers : Nat → VocabParallelEmbedding F) : Prop :=
  ∀ (leftover : Nat → List Nat → F) (x : List Int), (∀ id ∈ x, 0 ≤ id ∧ id < vocab) →
    ∃ (outs : Nat → Tensor F) (z : Tensor F),
      (∀ r < tp, VocabParallelEmbedding.partialOutput (leftover r) (layers r) x = .ok (outs r)) ∧
      VocabParallelEmbedding.lookup x W = .ok z ∧
      ∀ y ∈ reduced tp ((List.range tp).map outs), y.Same z

omit [Semiring F] in
private theorem lookup_ok (ids : List Int) {weight : Tensor F} (hshape : weight.shape = [n, k])
    (hids : ∀ id ∈ ids, 0 ≤ id ∧ id < n) :
    VocabParallelEmbedding.lookup ids weight = .ok
      { shape := [ids.length, k]
        entry := fun idx =>
          weight.entry ((ids.getD (coordinate 0 idx) 0).toNat :: idx.drop 1) } := by
  unfold VocabParallelEmbedding.lookup
  simp only [hshape, if_pos hids]

def localId (n rank : Nat) (id : Int) : Int :=
  if (n * rank : Nat) ≤ id ∧ id < (n * rank + n : Nat) then id - (n * rank : Nat) else 0

private theorem localId_bounds (hn : 0 < n) (rank : Nat) (id : Int) :
    0 ≤ localId n rank id ∧ localId n rank id < n := by
  unfold localId
  split <;> omega

omit [Semiring F] in
private theorem tableLoaded_mask {rank : Nat} {id : Int} :
    (tableLoaded tp n k W rank).mask id = true
      ↔ (n * rank : Nat) ≤ id ∧ id < (n * rank + n : Nat) :=
  decide_eq_true_iff

private theorem tableLoaded_partialOutput (hmany : tp > 1) (leftover : List Nat → F) (rank : Nat)
    {x : List Int} (hx : ∀ id ∈ x, 0 ≤ id ∧ id < (n * tp : Nat)) :
    VocabParallelEmbedding.partialOutput leftover (tableLoaded tp n k W rank) x = .ok
      { shape := [x.length, k]
        entry := fun idx =>
          ((tableLoaded tp n k W rank).mask (x.getD (coordinate 0 idx) 0)).toNat *
            ((tableLoaded tp n k W rank).weight.value leftover).entry
              (((x.map (localId n rank)).getD (coordinate 0 idx) 0).toNat :: idx.drop 1) } := by
  have hlocal : (x.map fun id => ((tableLoaded tp n k W rank).mask id).toInt
      * (id - (tableLoaded tp n k W rank).vocabStartIdx)) = x.map (localId n rank) := by
    refine List.map_congr_left fun id _ => ?_
    by_cases hheld : (n * rank : Nat) ≤ id ∧ id < (n * rank + n : Nat)
    · rw [tableLoaded_mask.mpr hheld, localId, if_pos hheld]
      exact one_mul _
    · rw [Bool.eq_false_iff.mpr fun h => hheld (tableLoaded_mask.mp h), localId, if_neg hheld]
      exact zero_mul _
  have hids : ∀ id ∈ x.map (localId n rank), 0 ≤ id ∧ id < (n : Int) := by
    intro id hid
    obtain ⟨g, hg, rfl⟩ := List.mem_map.mp hid
    refine localId_bounds (Nat.pos_of_ne_zero fun hn => ?_) rank g
    have := hx g hg
    subst hn
    omega
  have hlookup := lookup_ok (x.map (localId n rank))
    (rfl : ((tableLoaded tp n k W rank).weight.value leftover).shape = [n, k]) hids
  have hsize : (tableLoaded tp n k W rank).tpSize > 1 := hmany
  unfold VocabParallelEmbedding.partialOutput
  rw [if_pos hsize]
  simp only [hlocal]
  rw [Call.except_bind_of_ok hlookup, List.length_map]
  rfl

theorem tableLoaded_looksUp (htp : 0 < tp) (hshape : W.shape = [n * tp, k]) :
    LooksUp tp (n * tp) W (tableLoaded tp n k W) := by
  intro leftover x hx
  have hfull := lookup_ok x hshape hx
  by_cases hmany : tp > 1
  · refine ⟨_, _, fun r _ => tableLoaded_partialOutput hmany (leftover r) r hx, hfull,
      fun y hy => ?_⟩
    obtain ⟨hyshape, hyentry⟩ := reduced_range htp _ hy
    refine ⟨hyshape, fun idx hidx => ?_⟩
    rw [hyshape] at hidx
    obtain ⟨b, j, rfl, hb, hj⟩ := hidx.pair
    have hid := hx x[b] (List.getElem_mem hb)
    have hget : x.getD b 0 = x[b] := List.getD_eq_getElem x 0 hb
    have hgetLocal : ∀ r, (x.map (localId n r)).getD b 0 = localId n r x[b] := by
      intro r
      rw [List.getD_eq_getElem _ _ (by simpa using hb), List.getElem_map]
    obtain ⟨g, hg⟩ := Int.eq_ofNat_of_zero_le hid.1
    have hpos : 0 < n := Nat.pos_of_ne_zero fun hn => by
      subst hn
      omega
    have hsplit := Nat.div_add_mod g n
    have hmod := Nat.mod_lt g hpos
    have hlt : g / n < tp := Nat.div_lt_of_lt_mul (by omega)
    rw [hyentry]
    simp only [coordinate, List.getD_cons_zero, List.drop_one, List.tail_cons, hget, hgetLocal]
    rw [Finset.sum_eq_single (g / n)]
    · have hmask : (tableLoaded tp n k W (g / n)).mask x[b] = true := by
        rw [tableLoaded_mask, hg]
        omega
      have hlocal : (localId n (g / n) x[b]).toNat = g % n := by
        unfold localId
        rw [hg, if_pos (by omega)]
        omega
      have hin : InRange [n, k] [g % n, j] := ⟨hmod, hj, trivial⟩
      have hval := filled_value 0 (g / n) W (leftover (g / n)) hin
      simp only [List.modify_zero_cons, List.getD_cons_zero, Nat.mod_add_div'] at hval
      rw [hmask, hlocal, Bool.toNat_true, Nat.cast_one, one_mul, tableLoaded, hval, hg,
        Int.toNat_natCast]
    · intro r _ hne
      have hmask : (tableLoaded tp n k W r).mask x[b] = false := by
        rw [Bool.eq_false_iff, Ne, tableLoaded_mask, hg]
        intro hheld
        refine hne ?_
        have hlow : n * r ≤ g := by omega
        have hhigh : g < n * r + n := by omega
        exact (Nat.div_eq_of_lt_le (by rw [Nat.mul_comm]; exact hlow)
          (by rw [Nat.succ_mul, Nat.mul_comm]; exact hhigh)).symm
      rw [hmask, Bool.toNat_false, Nat.cast_zero, zero_mul]
    · intro hnot
      exact absurd (Finset.mem_range.mpr hlt) hnot
  · obtain rfl : tp = 1 := by omega
    have hids : ∀ id ∈ x, 0 ≤ id ∧ id < (n : Int) := fun id hid => by simpa using hx id hid
    have hlocal : ∀ r < 1, VocabParallelEmbedding.partialOutput (leftover r)
        (tableLoaded 1 n k W r) x = .ok _ := fun r _ =>
      (if_neg hmany).trans (lookup_ok x rfl hids)
    refine ⟨_, _, hlocal, hfull, fun y hy => ?_⟩
    obtain ⟨hyshape, hyentry⟩ := reduced_range htp _ hy
    refine ⟨hyshape, fun idx hidx => ?_⟩
    rw [hyshape] at hidx
    obtain ⟨b, j, rfl, hb, hj⟩ := hidx.pair
    have hid := hids x[b] (List.getElem_mem hb)
    have hget : x.getD b 0 = x[b] := List.getD_eq_getElem x 0 hb
    have hin : InRange [n, k] [x[b].toNat, j] := ⟨by omega, hj, trivial⟩
    have hval := filled_value 0 0 W (leftover 0) hin
    rw [hyentry, Finset.sum_range_one]
    simp only [List.modify_zero_cons, Nat.zero_mul, Nat.add_zero] at hval
    simp only [coordinate, List.getD_cons_zero, List.drop_one, List.tail_cons, hget]
    exact hval

end Lookup

section Head

variable [Semiring F] {tp n k : Nat} {W : Tensor F}

def HeadLogits (tp k : Nat) (W : Tensor F) (layers : Nat → VocabParallelEmbedding F) : Prop :=
  ∀ (numericalMode : String) (context : ModelContext) (allPositions : Bool)
    (leftover : Nat → List Nat → F) (x chosen : Tensor F) (count : Nat),
    x.shape = [count, k] →
    ParallelLMHead.selected numericalMode context allPositions x = .ok chosen →
    ∃ (outs : Nat → Tensor F) (y z : Tensor F) (others : List (Option (Tensor F))),
      (∀ r < tp, ParallelLMHead.localLogits numericalMode context allPositions (leftover r)
        (layers r) x = .ok (outs r)) ∧
      ParallelLMHead.gathered tp ((List.range tp).map outs) = .ok (some y :: others) ∧
      (∀ other ∈ others, other = none) ∧ linear chosen W none = .ok z ∧ y.Same z

omit [Semiring F] in
private theorem indexRows_shape {x chosen : Tensor F} {indices : List Int} {count : Nat}
    (hx : x.shape = [count, k]) (h : ParallelLMHead.indexRows x indices = .ok chosen) :
    chosen.shape = [indices.length, k] := by
  unfold ParallelLMHead.indexRows at h
  simp only at h
  split at h
  · obtain rfl := Except.ok.inj h
    rw [hx]
    rfl
  · cases h

omit [Semiring F] in
private theorem selected_shape {numericalMode : String} {context : ModelContext} {allPositions : Bool}
    {x chosen : Tensor F} {count : Nat} (hx : x.shape = [count, k])
    (h : ParallelLMHead.selected numericalMode context allPositions x = .ok chosen) :
    ∃ picked, chosen.shape = [picked, k] := by
  unfold ParallelLMHead.selected at h
  by_cases hrows : context.isPrefill ∧ ¬ allPositions
  · rw [if_pos hrows] at h
    exact ⟨_, indexRows_shape hx h⟩
  · rw [if_neg hrows] at h
    obtain rfl := Except.ok.inj h
    exact ⟨count, hx⟩

theorem tableLoaded_logits (htp : 0 < tp) (hshape : W.shape = [n * tp, k]) :
    HeadLogits tp k W (tableLoaded tp n k W) := by
  intro numericalMode context allPositions leftover x chosen count hx hchosen
  obtain ⟨picked, hpicked⟩ := selected_shape hx hchosen
  have hlead : chosen.shape = [picked] ++ [k] := hpicked
  let out : Nat → Tensor F := fun r =>
    affine n k chosen ((tableLoaded tp n k W r).weight.value (leftover r)) none
  have hlocal : ∀ r < tp, ParallelLMHead.localLogits numericalMode context allPositions
      (leftover r) (tableLoaded tp n k W r) x = .ok (out r) := by
    intro r _
    unfold ParallelLMHead.localLogits
    rw [Call.except_bind_of_ok hchosen]
    split
    · exact invariantLinear_ok rfl hlead
    · exact linear_ok rfl hlead (by simp)
  have hfull : linear chosen W none = .ok (affine (n * tp) k chosen W none) :=
    linear_ok hshape hlead (by simp)
  have hout : ∀ r < tp, (out r).shape = [picked] ++ [n] := fun r _ => affine_shape hlead
  have hentry : ∀ r < tp, ∀ j < n, ∀ ls, InRange [picked] ls →
      (out r).entry (ls ++ [0 + j])
        = (affine (n * tp) k chosen W none).entry (ls ++ [j + r * n]) := by
    intro r _ j hj ls _
    rw [Nat.zero_add, affine_entry, affine_entry]
    congr 1
    refine Finset.sum_congr rfl fun c hc => ?_
    have hin : InRange [n, k] [j, c] := ⟨hj, Finset.mem_range.mp hc, trivial⟩
    have hval := filled_value 0 r W (leftover r) hin
    simp only [List.modify_zero_cons, List.getD_cons_zero] at hval
    rw [tableLoaded, hval]
  by_cases hmany : tp > 1
  · obtain ⟨y, hy, hsame⟩ := cat_pieces out _ 0 htp hout (affine_shape hlead) hentry
    have hwhole : (List.range tp).map (fun r => (out r).slice 1 0 n)
        = (List.range tp).map out := by
      refine List.map_congr_left fun r hr => ?_
      have hset : (out r).shape.set 1 n = (out r).shape := by
        rw [hout r (List.mem_range.mp hr)]
        rfl
      have hfix : ∀ idx : List Nat, idx.modify 1 (fun i => i + 0) = idx :=
        fun idx => modify_of_fixed rfl
      simp only [Tensor.slice, hset, hfix]
    have hhead : (((List.range tp).map out).head?.map fun t => t.shape.length - 1).getD 0 = 1 := by
      obtain ⟨m, rfl⟩ : ∃ m, tp = m + 1 := ⟨tp - 1, by omega⟩
      rw [List.range_succ_eq_map, List.map_cons, List.head?_cons, Option.map_some,
        Option.getD_some, hout 0 (Nat.succ_pos m)]
      rfl
    refine ⟨out, y, _, (((List.range tp).map out).drop 1).map fun _ => none, hlocal, ?_, ?_,
      hfull, hsame⟩
    · have hcat : torchCat 1 ((List.range tp).map out) = .ok y := hwhole ▸ hy
      unfold ParallelLMHead.gathered
      rw [if_pos hmany]
      simp only [hhead]
      rw [Call.except_bind_of_ok hcat]
      rfl
    · intro other hother
      obtain ⟨-, -, rfl⟩ := List.mem_map.mp hother
      rfl
  · obtain rfl : tp = 1 := by omega
    refine ⟨out, out 0, _, [], hlocal, ?_, by simp, hfull, ?_⟩
    · unfold ParallelLMHead.gathered
      rw [if_neg hmany]
      rfl
    · have hshape1 : (affine (n * 1) k chosen W none).shape = [picked] ++ [n] := by
        rw [affine_shape hlead, Nat.mul_one]
      refine ⟨(hout 0 Nat.one_pos).trans hshape1.symm, fun idx hidx => ?_⟩
      rw [hout 0 Nat.one_pos] at hidx
      obtain ⟨ls, c, rfl, hls, hc⟩ := inRange_last hidx
      have hat := hentry 0 Nat.one_pos c hc ls hls
      simpa using hat

end Head

end NanoVllm
