/- module: NanoVllm/Inputs/Slots
   layer: refinement
   source: the slot computations of nanovllm/engine/model_runner.py and target_logits
   digest: Every prepare function maps a position to the one slot its table gives it. -/

import Mathlib.Data.List.GetD
import NanoVllm.Engine.ModelInputs
import NanoVllm.Library.Call
import NanoVllm.Library.Paging

set_option autoImplicit false
set_option relaxedAutoImplicit false

namespace NanoVllm

open Library

variable {bs : Nat} {table : List Nat} {start stop count i n p : Nat}

def slotAt (bs : Nat) (table : List Nat) (p : Nat) : Nat :=
  table.getD (p / bs) 0 * bs + p % bs

def rangeSlots (bs : Nat) (table : List Nat) (start count : Nat) : List Int :=
  (List.range' start count).map fun p => (slotAt bs table p : Int)

theorem length_rangeSlots : (rangeSlots bs table start count).length = count := by
  unfold rangeSlots
  rw [List.length_map, List.length_range']

private theorem rangeSlots_append {m : Nat} : rangeSlots bs table start count ++
    rangeSlots bs table (start + count) m = rangeSlots bs table start (count + m) := by
  unfold rangeSlots
  rw [← List.map_append, List.range'_append_1]

theorem length_positionRange : (positionRange start count).length = count := by
  unfold positionRange
  rw [List.length_map, List.length_range']

theorem pyGet_natCast {α : Type} {values : List α} {k : Nat} (h : k < values.length) (d : α) :
    pyGet values (k : Int) = .ok (values.getD k d) := by
  have hnot : ¬ (k : Int) < 0 := by omega
  unfold pyGet
  dsimp only
  rw [if_neg hnot, if_neg hnot, Int.toNat_natCast, List.getElem?_eq_getElem h,
    List.getD_eq_getElem _ _ h]

theorem pyGet_neg_one {α : Type} {values : List α} (h : values ≠ []) (d : α) :
    pyGet values (-1) = .ok (values.getD (values.length - 1) d) := by
  have hpos : 0 < values.length := List.length_pos_iff.mpr h
  have hindex : (-1 : Int) + values.length = ((values.length - 1 : Nat) : Int) := by omega
  rw [← pyGet_natCast (by omega) d, ← hindex]
  unfold pyGet
  dsimp only
  have hnot : ¬ (-1 : Int) + (values.length : Int) < 0 := by omega
  rw [if_pos (show (-1 : Int) < 0 by omega), if_neg hnot, if_neg hnot, if_neg hnot]

private theorem lt_of_pyGet {α : Type} {values : List α} {index : Int} {a : α} (hindex : 0 ≤ index)
    (h : pyGet values index = .ok a) : index.toNat < values.length := by
  have hnot : ¬ index < 0 := by omega
  unfold pyGet at h
  dsimp only at h
  rw [if_neg hnot, if_neg hnot] at h
  by_contra hge
  rw [List.getElem?_eq_none (Nat.not_lt.mp hge)] at h
  exact nomatch h

theorem lt_of_positionSlot {position slot : Int} (hbs : 0 < bs) (hpos : 0 ≤ position)
    (h : positionSlot bs table position = .ok slot) :
    position.toNat < table.length * bs := by
  obtain ⟨p, rfl⟩ := Int.eq_ofNat_of_zero_le hpos
  obtain ⟨b, hget, -⟩ := Call.except_bind_ok h
  have hlt := lt_of_pyGet (Int.ediv_nonneg (Int.natCast_nonneg p) (Int.natCast_nonneg bs)) hget
  have hpage : ((p : Int) / bs).toNat = p / bs := by
    rw [← Int.natCast_ediv, Int.toNat_natCast]
  rw [hpage] at hlt
  rw [Int.toNat_natCast]
  exact (Nat.div_lt_iff_lt_mul hbs).mp hlt

theorem positionSlot_eq (hp : p < table.length * bs) :
    positionSlot bs table (p : Int) = .ok (slotAt bs table p : Int) := by
  have hpage : pyGet table ((p : Int) / bs) = .ok (table.getD (p / bs) 0) :=
    pyGet_natCast (div_lt_of_lt_mul hp) 0
  refine (Call.except_bind_of_ok hpage).trans ?_
  unfold slotAt
  push_cast
  rfl

theorem positionSlots_range (h : start + count ≤ table.length * bs) :
    (positionRange start count).mapM (positionSlot bs table) =
      .ok (rangeSlots bs table start count) := by
  have hmap := Call.except_mapM_of_ok (f := positionSlot bs table)
    (g := fun p => (slotAt bs table p.toNat : Int)) (l := positionRange start count) <| by
      intro p hp
      obtain ⟨q, hq, rfl⟩ := List.mem_map.mp hp
      obtain ⟨hlow, hhigh⟩ := List.mem_range'_1.mp hq
      exact positionSlot_eq (by omega)
  rw [hmap]
  unfold positionRange rangeSlots
  rw [List.map_map]
  rfl

private theorem range'_block (hr : i + count ≤ bs) :
    positionRange (table.getD n 0 * bs + i) count = rangeSlots bs table (n * bs + i) count := by
  unfold positionRange rangeSlots
  rw [List.range'_eq_map_range, List.range'_eq_map_range, List.map_map, List.map_map]
  refine List.map_congr_left fun k hk => ?_
  have hlt : i + k < bs := by
    have hk' := List.mem_range.mp hk
    omega
  have hbs : 0 < bs := by omega
  have hp : n * bs + i + k = i + k + n * bs := by omega
  have hdiv : (n * bs + i + k) / bs = n := by
    rw [hp, Nat.add_mul_div_right _ _ hbs, Nat.div_eq_of_lt hlt, Nat.zero_add]
  have hmod : (n * bs + i + k) % bs = i + k := by
    rw [hp, Nat.add_mul_mod_self_right, Nat.mod_eq_of_lt hlt]
  dsimp only [Function.comp_apply]
  unfold slotAt
  rw [hdiv, hmod]
  congr 1
  omega

/-- The loop from block `i` on yields the slots of the positions left in the range. -/
private theorem raggedSlots_range (hbs : 0 < bs) (hcov : stop ≤ table.length * bs)
    (hstart : start / bs ≤ i) (hend : i + n = pagesFor bs stop) :
    raggedSlots bs table start stop (List.range' i n) =
      .ok (rangeSlots bs table (max start (i * bs)) (stop - max start (i * bs))) := by
  induction n generalizing i with
  | zero =>
    have hstop : stop ≤ i * bs := by
      rw [← pagesFor_le_iff hbs]
      omega
    have hzero : stop - max start (i * bs) = 0 := by omega
    rw [hzero]
    rfl
  | succ n ih =>
    have hlt : i * bs < stop := by
      rw [← lt_pagesFor_iff hbs]
      omega
    have hi : i < table.length := by
      by_contra hge
      exact absurd (hcov.trans (Nat.mul_le_mul_right bs (Nat.not_lt.mp hge))) (by omega)
    have hrest := ih (i := i + 1) (by omega) (by omega)
    have hnext : start ≤ (i + 1) * bs := by
      have hdiv := Nat.lt_of_lt_of_le (Nat.lt_succ_self _) (Nat.succ_le_succ hstart)
      exact (Nat.div_lt_iff_lt_mul hbs).mp (Nat.lt_succ_of_le hstart) |>.le
    obtain ⟨offset, hoffset⟩ : ∃ offset,
        offset = if i = start / bs then start % bs else 0 := ⟨_, rfl⟩
    have hlow : max start (i * bs) = i * bs + offset := by
      have hsplit := Nat.div_add_mod start bs
      rw [hoffset]
      by_cases hcase : i = start / bs
      · rw [if_pos hcase, hcase, Nat.mul_comm]
        omega
      · rw [if_neg hcase]
        have hle := (Nat.div_lt_iff_lt_mul hbs).mp (Nat.lt_of_le_of_ne hstart (Ne.symm hcase))
        omega
    have hoff : offset < bs := by
      rw [hoffset]
      split
      · exact Nat.mod_lt _ hbs
      · exact hbs
    have hsucc : (i + 1) * bs = i * bs + bs := Nat.succ_mul i bs
    unfold raggedSlots
    rw [List.range'_succ]
    dsimp only
    refine (Call.except_bind_of_ok (pyGet_natCast hi 0)).trans ?_
    refine (Call.except_bind_of_ok hrest).trans ?_
    rw [← hoffset, hlow]
    have hpages : (stop + bs - 1) / bs = i + (n + 1) := hend.symm
    rw [hpages]
    refine congrArg Except.ok ?_
    have hnextmax : max start ((i + 1) * bs) = i * bs + bs := by omega
    rw [hnextmax]
    by_cases hlast : n = 0
    · have hstop : stop ≤ i * bs + bs := by
        rw [← hsucc, ← pagesFor_le_iff hbs]
        omega
      have hcount : table.getD i 0 * bs + stop - i * bs - (table.getD i 0 * bs + offset) =
          stop - (i * bs + offset) := by omega
      have hcut : stop - (i * bs + bs) = 0 := by omega
      rw [if_neg (by omega), hcount, hcut, range'_block (by omega)]
      exact List.append_nil _
    · have hstop : i * bs + bs < stop := by
        rw [← hsucc, ← lt_pagesFor_iff hbs]
        omega
      have hcount : table.getD i 0 * bs + bs - (table.getD i 0 * bs + offset) =
          bs - offset := by omega
      have hjoin : i * bs + bs = i * bs + offset + (bs - offset) := by omega
      have htotal : stop - (i * bs + offset) = bs - offset + (stop - (i * bs + bs)) := by omega
      rw [if_pos (by omega), hcount, range'_block (by omega), htotal, ← rangeSlots_append, ← hjoin]

theorem raggedSlots_eq (hbs : 0 < bs) (hcov : start + count ≤ table.length * bs) :
    raggedSlots bs table start (start + count) (raggedBlocks bs start (start + count)) =
      .ok (rangeSlots bs table start count) := by
  have hle : start / bs ≤ pagesFor bs (start + count) :=
    (div_le_pagesFor hbs start).trans (pagesFor_mono hbs (Nat.le_add_right start count))
  have hmul := Nat.div_mul_le_self start bs
  have hend : start / bs + (pagesFor bs (start + count) - start / bs) =
      pagesFor bs (start + count) := by omega
  have hloop := raggedSlots_range hbs hcov (le_refl (start / bs)) hend
  rw [Nat.max_eq_left hmul, Nat.add_sub_cancel_left] at hloop
  exact hloop

/-- Counting back from the end of a tight table gives the slot of the last position. -/
theorem decodeSlot_eq {row : RunnerRow} (hbs : 0 < bs) (hpos : 0 < row.numTokens)
    (htight : row.blockTable.length = pagesFor bs row.numTokens) :
    decodeSlot bs row = .ok (slotAt bs row.blockTable (row.numTokens - 1) : Int) := by
  obtain ⟨last, hlast⟩ : ∃ last, row.blockTable.length = last + 1 := by
    refine Nat.exists_eq_succ_of_ne_zero ?_
    rw [htight, Ne, pagesFor_eq_zero hbs]
    omega
  have hlow : last * bs < row.numTokens := by
    rw [← lt_pagesFor_iff hbs, ← htight, hlast]
    exact Nat.lt_succ_self last
  have hhigh : row.numTokens ≤ last * bs + bs := by
    rw [← Nat.succ_mul, ← pagesFor_le_iff hbs, ← htight, hlast]
  obtain ⟨off, hoff⟩ : ∃ off, row.numTokens - 1 = off + last * bs :=
    ⟨row.numTokens - 1 - last * bs, by omega⟩
  have hofflt : off < bs := by omega
  have hdiv : (row.numTokens - 1) / bs = last := by
    rw [hoff, Nat.add_mul_div_right _ _ hbs, Nat.div_eq_of_lt hofflt, Nat.zero_add]
  have hmod : (row.numTokens - 1) % bs = off := by
    rw [hoff, Nat.add_mul_mod_self_right, Nat.mod_eq_of_lt hofflt]
  have hget := pyGet_neg_one (List.ne_nil_of_length_eq_add_one hlast) 0
  rw [hlast, Nat.add_sub_cancel] at hget
  refine (Call.except_bind_of_ok hget).trans ?_
  unfold slotAt
  rw [hdiv, hmod, hlast]
  refine congrArg Except.ok ?_
  have hlen : (row.numTokens : Int) = off + last * bs + 1 := by
    have hnat : row.numTokens = off + last * bs + 1 := by omega
    rw [hnat]
    push_cast
    rfl
  rw [hlen]
  push_cast
  ring

end NanoVllm
