/- module: NanoVllm/Sharding/Tiling
   layer: refinement
   digest: Sub-matrices that tile one rank's rows, the storage their loaders leave, and the outputs
     of all ranks laid side by side. -/

import NanoVllm.Sharding.Loading

set_option autoImplicit false
set_option relaxedAutoImplicit false

open NanoVllm.Library

namespace NanoVllm

/-- Where the sub-matrices of one parameter start in a rank's rows, and their local sizes. -/
structure Layout (ι : Type) where
  ids : List ι
  offset : ι → Nat
  size : ι → Nat

/-- A layout over the local rows `0..rows`: every row lies in exactly one sub-matrix. -/
structure Tiling (ι : Type) (rows : Nat) extends Layout ι where
  nodup : ids.Nodup
  fits : ∀ i ∈ ids, offset i + size i ≤ rows
  covers : ∀ l < rows, ∃! i, i ∈ ids ∧ offset i ≤ l ∧ l < offset i + size i

variable {F ι : Type} {rows : Nat}

def Storage.Once (p : Storage F) : Prop :=
  ∀ idx, InRange p.shape idx → (p.entry idx).length = 1

/-- Row `l` of sub-matrix `i` on rank `rank` is global row `rank * size + l` of its tensor. -/
def Layout.Holds (T : Layout ι) (rank : Nat) (p : Storage F) (W : ι → Tensor F) : Prop :=
  ∀ i ∈ T.ids, ∀ l rest, InRange p.shape (l :: rest) → T.offset i ≤ l →
    l < T.offset i + T.size i →
      p.entry (l :: rest) = [(W i).entry ((l - T.offset i + rank * T.size i) :: rest)]

theorem Layout.home (T : Layout ι) {tp g : Nat} {i : ι} (hg : g < T.size i * tp) :
    ∃! at_ : Nat × Nat, at_.1 < tp ∧ T.offset i ≤ at_.2 ∧ at_.2 < T.offset i + T.size i
      ∧ g = at_.2 - T.offset i + at_.1 * T.size i := by
  have hpos : 0 < T.size i := Nat.pos_of_ne_zero fun h => by simp [h] at hg
  have hmod := Nat.mod_lt g hpos
  have hsplit := Nat.mod_add_div' g (T.size i)
  refine ⟨(g / T.size i, T.offset i + g % T.size i), ⟨?_, ?_, ?_, ?_⟩, ?_⟩
  · exact Nat.div_lt_of_lt_mul hg
  · exact Nat.le_add_right _ _
  · exact Nat.add_lt_add_left hmod _
  · rw [Nat.add_sub_cancel_left, hsplit]
  · rintro ⟨r, l⟩ ⟨-, hlow, hhigh, hl⟩
    have hrow : l - T.offset i < T.size i := by omega
    have hr : g / T.size i = r := by
      rw [hl, Nat.add_mul_div_right _ _ hpos, Nat.div_eq_of_lt hrow, Nat.zero_add]
    have hrem : g % T.size i = l - T.offset i := by
      rw [hl, Nat.add_mul_mod_self_right, Nat.mod_eq_of_lt hrow]
    refine Prod.ext hr.symm ?_
    show l = T.offset i + g % T.size i
    rw [hrem]
    omega

def loadShards (loader : Storage F → Tensor F → ι → Except Raised (Storage F)) (W : ι → Tensor F)
    (order : List ι) (p : Storage F) : Except Raised (Storage F) :=
  order.foldlM (fun p i => loader p (W i) i) p

section Loads

variable {loader : Storage F → Tensor F → ι → Except Raised (Storage F)} {W : ι → Tensor F}
  {shape : List Nat} {rank : Nat} {offset size : ι → Nat}

def covering (shape : List Nat) (offset size : ι → Nat) (idx : List Nat) (i : ι) : Bool :=
  InRange shape idx ∧ offset i ≤ coordinate 0 idx ∧ coordinate 0 idx < offset i + size i

theorem loadShards_ok {order : List ι}
    (hgood : ∀ i ∈ order, ∀ p : Storage F, p.shape = shape →
      loader p (W i) i = .ok (landed 0 rank (offset i) (size i) p (W i)))
    (p : Storage F) (hp : p.shape = shape) :
    loadShards loader W order p = .ok
      { shape := shape
        entry := fun idx => p.entry idx ++
          (order.filter (covering shape offset size idx)).map fun i =>
            (W i).entry (idx.modify 0 fun l => l - offset i + rank * size i) } := by
  induction order generalizing p with
  | nil =>
    subst hp
    simp only [loadShards, List.foldlM_nil, List.filter_nil, List.map_nil, List.append_nil]
    rfl
  | cons i order ih =>
    have hhead := hgood i List.mem_cons_self p hp
    have hrest := ih (fun j hj => hgood j (List.mem_cons_of_mem i hj))
      (landed 0 rank (offset i) (size i) p (W i)) hp
    unfold loadShards at hrest ⊢
    rw [List.foldlM_cons, Call.except_bind_of_ok hhead, hrest]
    congr 2
    funext idx
    by_cases hcover : covering shape offset size idx i = true
    · have hcell := hcover
      simp only [covering, decide_eq_true_eq] at hcell
      rw [List.filter_cons_of_pos hcover, List.map_cons]
      simp only [landed, hp, if_pos hcell, List.append_assoc, List.singleton_append]
    · have hcell := hcover
      simp only [covering, decide_eq_true_eq] at hcell
      rw [List.filter_cons_of_neg hcover]
      simp only [landed, hp, if_neg hcell]

theorem loadShards_error (good : ι → Prop) {order : List ι}
    (hgood : ∀ i ∈ order, good i → ∀ p : Storage F, p.shape = shape →
      ∃ after, loader p (W i) i = .ok after ∧ after.shape = shape)
    (hbad : ∀ i ∈ order, ¬ good i → ∀ p : Storage F, p.shape = shape →
      ∃ e, loader p (W i) i = .error e)
    (hsome : ∃ i ∈ order, ¬ good i) (p : Storage F) (hp : p.shape = shape) :
    ∃ e, loadShards loader W order p = .error e := by
  induction order generalizing p with
  | nil => simp at hsome
  | cons i order ih =>
    by_cases hi : good i
    · obtain ⟨j, hj, hnot⟩ := hsome
      have hne : j ≠ i := fun h => hnot (h ▸ hi)
      have hj' : j ∈ order := (List.mem_cons.mp hj).resolve_left hne
      obtain ⟨after, hhead, hafter⟩ := hgood i List.mem_cons_self hi p hp
      obtain ⟨e, he⟩ := ih (fun k hk => hgood k (List.mem_cons_of_mem i hk))
        (fun k hk => hbad k (List.mem_cons_of_mem i hk)) ⟨j, hj', hnot⟩ after hafter
      refine ⟨e, ?_⟩
      unfold loadShards at he ⊢
      rw [List.foldlM_cons, Call.except_bind_of_ok hhead, he]
    · obtain ⟨e, he⟩ := hbad i List.mem_cons_self hi p hp
      refine ⟨e, ?_⟩
      unfold loadShards
      rw [List.foldlM_cons, he]
      rfl

end Loads

section Tiled

variable {order : List ι} {rest : List Nat}

private theorem filter_eq_singleton {P : ι → Bool} {l : List ι} {i : ι} (hl : l.Nodup) (hi : i ∈ l)
    (hP : P i = true) (huniq : ∀ j ∈ l, P j = true → j = i) : l.filter P = [i] := by
  have hnodup : (l.filter P).Nodup := hl.filter P
  have hmem : ∀ j, j ∈ l.filter P ↔ j = i := by
    intro j
    rw [List.mem_filter]
    constructor
    · rintro ⟨hj, hPj⟩
      exact huniq j hj hPj
    · rintro rfl
      exact ⟨hi, hP⟩
  exact List.perm_singleton.mp
    ((List.perm_ext_iff_of_nodup hnodup (List.nodup_singleton i)).mpr (by simpa using hmem))

private theorem Tiling.covering_eq (T : Tiling ι rows) (horder : order.Perm T.ids) {i : ι}
    (hi : i ∈ T.ids) {l : Nat} {tail : List Nat} (hidx : InRange (rows :: rest) (l :: tail))
    (hlow : T.offset i ≤ l) (hhigh : l < T.offset i + T.size i) :
    order.filter (covering (rows :: rest) T.offset T.size (l :: tail)) = [i] := by
  refine filter_eq_singleton (horder.nodup_iff.mpr T.nodup) (horder.mem_iff.mpr hi) ?_ ?_
  · simp only [covering, decide_eq_true_eq]
    exact ⟨hidx, hlow, hhigh⟩
  · intro j hj hcover
    simp only [covering, decide_eq_true_eq] at hcover
    have hother : j ∈ T.ids ∧ T.offset j ≤ l ∧ l < T.offset j + T.size j :=
      ⟨horder.mem_iff.mp hj, hcover.2⟩
    exact (T.covers l hidx.1).unique hother ⟨hi, hlow, hhigh⟩

/-- Loading every shard once, in any order, writes every cell once, with its own row. -/
theorem Tiling.loaded {loader : Storage F → Tensor F → ι → Except Raised (Storage F)}
    (T : Tiling ι rows) (W : ι → Tensor F) (rank : Nat) (horder : order.Perm T.ids)
    (hgood : ∀ i ∈ T.ids, ∀ p : Storage F, p.shape = rows :: rest →
      loader p (W i) i = .ok (landed 0 rank (T.offset i) (T.size i) p (W i))) :
    ∃ p, loadShards loader W order (.empty (rows :: rest)) = .ok p
      ∧ p.shape = rows :: rest ∧ p.Once ∧ T.Holds rank p W := by
  have hload := loadShards_ok (fun i hi => hgood i (horder.mem_iff.mp hi))
    (.empty (rows :: rest)) rfl
  refine ⟨_, hload, rfl, ?_, ?_⟩
  · intro idx hidx
    cases idx with
    | nil => exact hidx.elim
    | cons l tail =>
      obtain ⟨i, ⟨hi, hlow, hhigh⟩, -⟩ := T.covers l hidx.1
      have hfilter := T.covering_eq horder hi hidx hlow hhigh
      simp only [Storage.empty, List.nil_append, List.length_map, hfilter,
        List.length_singleton]
  · intro i hi l tail hidx hlow hhigh
    have hfilter := T.covering_eq horder hi hidx hlow hhigh
    simp only [Storage.empty, List.nil_append, hfilter, List.map_cons, List.map_nil,
      List.modify_zero_cons]

end Tiled

section Blocks

theorem blocks_cover (sizes : List Nat) {l : Nat} (hl : l < sizes.sum) :
    ∃! i, i ∈ List.range sizes.length ∧ (sizes.take i).sum ≤ l
      ∧ l < (sizes.take i).sum + sizes.getD i 0 := by
  induction sizes generalizing l with
  | nil => simp at hl
  | cons n sizes ih =>
    rw [List.sum_cons] at hl
    by_cases hn : l < n
    · refine ⟨0, by simp [hn], ?_⟩
      rintro i ⟨-, hlow, -⟩
      cases i with
      | zero => rfl
      | succ i =>
        rw [List.take_succ_cons, List.sum_cons] at hlow
        omega
    · obtain ⟨i, ⟨hi, hlow, hhigh⟩, huniq⟩ := @ih (l - n) (by omega)
      rw [List.mem_range] at hi
      refine ⟨i + 1, ⟨by simpa using hi, ?_, ?_⟩, ?_⟩
      · rw [List.take_succ_cons, List.sum_cons]
        omega
      · rw [List.take_succ_cons, List.sum_cons, List.getD_cons_succ]
        omega
      · rintro j ⟨hj, hlow', hhigh'⟩
        cases j with
        | zero =>
          simp only [List.take_zero, List.sum_nil, List.getD_cons_zero] at hhigh'
          omega
        | succ j =>
          rw [List.take_succ_cons, List.sum_cons] at hlow' hhigh'
          rw [List.getD_cons_succ] at hhigh'
          have hj' : j < sizes.length := by simpa using hj
          exact congrArg Nat.succ
            (huniq j ⟨List.mem_range.mpr hj', by omega, by omega⟩)

theorem blocks_fit (sizes : List Nat) (i : Nat) (hi : i < sizes.length) :
    (sizes.take i).sum + sizes.getD i 0 ≤ sizes.sum := by
  have hsplit := List.sum_take_add_sum_drop sizes (i + 1)
  rw [List.take_add_one, List.sum_append] at hsplit
  simp only [List.getElem?_eq_getElem hi, Option.toList_some, List.sum_singleton] at hsplit
  rw [List.getD_eq_getElem _ _ hi]
  omega

end Blocks

end NanoVllm
