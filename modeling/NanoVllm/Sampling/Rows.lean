/- module: NanoVllm/Sampling/Rows
   layer: refinement
   digest: The filters row by row: gathered rows, chunks and rows copied back do not mix. -/

import NanoVllm.Layers.Sampler
import NanoVllm.Library.Call

set_option autoImplicit false
set_option relaxedAutoImplicit false

open NanoVllm.Library

namespace NanoVllm

section Gather

variable {α : Type}

theorem indexSelect_ok {t : List α} {rows : List Nat} (hrows : ∀ r ∈ rows, r < t.length) :
    ∃ out, indexSelect t rows = .ok out ∧ out.length = rows.length ∧
      ∀ (j r : Nat), rows[j]? = some r → out[j]? = t[r]? := by
  induction rows with
  | nil => exact ⟨[], rfl, rfl, by simp⟩
  | cons row rows ih =>
    obtain ⟨out, hout, hlen, hget⟩ := ih fun r hr => hrows r (List.mem_cons_of_mem row hr)
    have hlt : row < t.length := hrows row List.mem_cons_self
    have hrow := List.getElem?_eq_getElem hlt
    refine ⟨t[row] :: out, ?_, by simp [hlen], ?_⟩
    · unfold indexSelect at hout ⊢
      rw [List.mapM_cons, hrow]
      simp only [hout]
      rfl
    · intro j r hj
      cases j with
      | zero =>
        obtain rfl : row = r := by simpa using hj
        rw [hrow]
        rfl
      | succ j => exact hget j r (by simpa using hj)

private theorem length_foldl_set (pairs : List (Nat × α)) (t : List α) :
    (pairs.foldl (fun t copied => t.set copied.1 copied.2) t).length = t.length := by
  induction pairs generalizing t with
  | nil => rfl
  | cons pair pairs ih => rw [List.foldl_cons, ih, List.length_set]

theorem length_indexCopy (t : List α) (rows : List Nat) (values : List α) :
    (indexCopy t rows values).length = t.length :=
  length_foldl_set _ t

theorem indexCopy_getElem?_of_notMem {t : List α} {rows : List Nat} {values : List α} {r : Nat}
    (hr : r ∉ rows) : (indexCopy t rows values)[r]? = t[r]? := by
  induction rows generalizing t values with
  | nil => rfl
  | cons row rows ih =>
    rw [List.mem_cons, not_or] at hr
    cases values with
    | nil => rfl
    | cons value values =>
      have hrest := @ih (t.set row value) values hr.2
      unfold indexCopy at hrest ⊢
      rw [List.zip_cons_cons, List.foldl_cons, hrest, List.getElem?_set_ne (Ne.symm hr.1)]

theorem indexCopy_getElem? {t : List α} {rows : List Nat} {values : List α} (hnodup : rows.Nodup)
    (hlen : values.length = rows.length) {j r : Nat} (hj : rows[j]? = some r)
    (hr : r < t.length) : (indexCopy t rows values)[r]? = values[j]? := by
  induction rows generalizing t values j with
  | nil => simp at hj
  | cons row rows ih =>
    cases values with
    | nil => simp at hlen
    | cons value values =>
      rw [List.nodup_cons] at hnodup
      cases j with
      | zero =>
        obtain rfl : row = r := by simpa using hj
        have hrest := @indexCopy_getElem?_of_notMem _ (t.set row value) rows values row hnodup.1
        unfold indexCopy at hrest ⊢
        rw [List.zip_cons_cons, List.foldl_cons, hrest, List.getElem?_set_self hr]
        rfl
      | succ j =>
        have hrest := @ih (t.set row value) values hnodup.2 (by simpa using hlen) j
          (by simpa using hj) (by simpa using hr)
        unfold indexCopy at hrest ⊢
        rw [List.zip_cons_cons, List.foldl_cons, hrest]
        rfl

end Gather

section Chunks

variable {V : Nat} {F : Type} [Field F] [LinearOrder F]
  (sort : AscendingSort V F) (softmax : LogitRow V F → Fin V → F)

def filteredRows (temperatures cutoffs : List F) (active : List (LogitRow V F)) :
    List (LogitRow V F) :=
  List.zipWith (fun row (own : F × F) => filterTopPRow sort softmax own.1 own.2 row) active
    (temperatures.zip cutoffs)

variable {temperatures cutoffs : List F} {active : List (LogitRow V F)}

private theorem length_filteredRows (ht : temperatures.length = active.length)
    (hc : cutoffs.length = active.length) :
    (filteredRows sort softmax temperatures cutoffs active).length = active.length := by
  simp [filteredRows, ht, hc]

private theorem filterTopPChunk_prefix (ht : temperatures.length = active.length)
    (hc : cutoffs.length = active.length) {start : Nat} (hstart : start ≤ active.length) :
    filterTopPChunk sort softmax temperatures cutoffs
        ((filteredRows sort softmax temperatures cutoffs active).take start ++ active.drop start)
        start
      = (filteredRows sort softmax temperatures cutoffs active).take
          (min (start + topPChunkSize) active.length)
        ++ active.drop (min (start + topPChunkSize) active.length) := by
  have hlenAll := length_filteredRows sort softmax ht hc
  set all := filteredRows sort softmax temperatures cutoffs active with hall
  have hhead : (all.take start).length = start := by rw [List.length_take]; omega
  set stop := min (start + topPChunkSize) active.length with hstop
  have hle : start ≤ stop := by omega
  have hlen : (all.take start ++ active.drop start).length = active.length := by
    rw [List.length_append, hhead, List.length_drop]
    omega
  have hchunk : ((all.take start ++ active.drop start).take stop).drop start
      = (active.take stop).drop start := by
    rw [List.take_append, List.drop_append, hhead]
    have hzero : start - ((all.take start).take stop).length = 0 := by
      rw [List.length_take, hhead]
      omega
    have hgone : ((all.take start).take stop).drop start = [] := by
      apply List.drop_eq_nil_of_le
      rw [List.length_take, hhead]
      omega
    rw [hgone, hzero, List.drop_zero, List.nil_append, ← List.drop_take]
  have hfiltered : List.zipWith
      (fun row (own : F × F) => filterTopPRow sort softmax own.1 own.2 row)
      ((active.take stop).drop start) (((temperatures.zip cutoffs).take stop).drop start)
      = (all.take stop).drop start := by
    simp only [hall, filteredRows, List.take_zipWith, List.drop_zipWith]
  have htake : (all.take start ++ active.drop start).take start = all.take start := by
    rw [List.take_append, hhead, Nat.sub_self, List.take_zero, List.append_nil, List.take_take,
      Nat.min_self]
  have hdrop : (all.take start ++ active.drop start).drop stop = active.drop stop := by
    rw [List.drop_append, hhead, List.drop_drop]
    have hgone : (all.take start).drop stop = [] :=
      List.drop_eq_nil_of_le (by rw [hhead]; exact hle)
    rw [hgone, List.nil_append]
    congr 1
    omega
  have hjoin : all.take start ++ (all.take stop).drop start = all.take stop := by
    have hsplit := List.take_append_drop start (all.take stop)
    rwa [List.take_take, Nat.min_eq_left hle] at hsplit
  unfold filterTopPChunk
  simp only [hlen, ← hstop]
  rw [htake, hchunk, hfiltered, hdrop, hjoin]

private theorem filterTopPChunks_eq (ht : temperatures.length = active.length)
    (hc : cutoffs.length = active.length) :
    filterTopPChunks sort softmax temperatures cutoffs active
      = filteredRows sort softmax temperatures cutoffs active := by
  have hfront : ∀ m, m ≤ (active.length + topPChunkSize - 1) / topPChunkSize →
      (List.range m).foldl (fun rows i =>
        filterTopPChunk sort softmax temperatures cutoffs rows (i * topPChunkSize)) active
      = (filteredRows sort softmax temperatures cutoffs active).take
          (min (m * topPChunkSize) active.length)
        ++ active.drop (min (m * topPChunkSize) active.length) := by
    intro m
    induction m with
    | zero => intro _; simp
    | succ m ih =>
      intro hm
      have hstart : m * topPChunkSize ≤ active.length := by
        unfold topPChunkSize at hm ⊢
        omega
      have hmin : min (m * topPChunkSize) active.length = m * topPChunkSize :=
        Nat.min_eq_left hstart
      rw [List.range_succ, List.foldl_append, ih (by omega), hmin, List.foldl_cons,
        List.foldl_nil, filterTopPChunk_prefix sort softmax ht hc hstart, Nat.succ_mul]
  have hall := length_filteredRows sort softmax ht hc
  unfold filterTopPChunks
  rw [hfront _ le_rfl]
  have hend : min ((active.length + topPChunkSize - 1) / topPChunkSize * topPChunkSize)
      active.length = active.length := by
    unfold topPChunkSize
    omega
  rw [hend, List.drop_length, List.append_nil, List.take_of_length_le hall.le]

end Chunks

section RowByRow

variable {V : Nat} {F : Type} [Field F] [LinearOrder F]

/-- The active rows of a batch: all of it, or distinct rows in range. -/
def ActiveRows (batch : Nat) : Option (List Nat) → List Nat → Prop
  | none, active => active = List.range batch
  | some rows, active => active = rows ∧ rows.Nodup ∧ ∀ r ∈ rows, r < batch

omit [Field F] in
/-- `filter_top_k` filters each active row on its own and leaves the others alone. -/
theorem filterTopK_ok {logits : List (LogitRow V F)} {rows : Option (List Nat)}
    {active : List Nat} (hactive : ActiveRows logits.length rows active) {topK : Nat}
    (hk : 1 ≤ topK) (hkV : topK ≤ V) :
    ∃ out, filterTopK logits rows topK = .ok out ∧ out.length = logits.length ∧
      (∀ r ∈ active, out[r]? = logits[r]?.map (filterTopKRow topK)) ∧
      ∀ r, r ∉ active → out[r]? = logits[r]? := by
  have hrange : ¬ (topK < 1 ∨ V < topK) := by omega
  unfold filterTopK
  rw [if_neg hrange]
  cases rows with
  | none =>
    obtain rfl : active = List.range logits.length := hactive
    refine ⟨_, rfl, by simp, fun r _ => by simp, fun r hr => ?_⟩
    rw [List.mem_range, not_lt] at hr
    rw [List.getElem?_eq_none (by simpa using hr), List.getElem?_eq_none hr]
  | some rows =>
    obtain ⟨rfl, hnodup, hlt⟩ := hactive
    obtain ⟨selected, hselected, hlen, hget⟩ := indexSelect_ok hlt
    refine ⟨indexCopy logits active (selected.map (filterTopKRow topK)), ?_,
      length_indexCopy _ _ _, fun r hr => ?_, fun r hr => indexCopy_getElem?_of_notMem hr⟩
    · exact (Call.except_bind_of_ok hselected).trans rfl
    · obtain ⟨j, hj⟩ := List.getElem?_of_mem hr
      rw [indexCopy_getElem? hnodup (by simpa using hlen) hj (hlt r hr), List.getElem?_map,
        hget j r hj]

/-- `filter_top_p` filters each active row with its own temperature and cutoff, whatever chunk it
falls in, and leaves the others alone. -/
theorem filterTopP_ok (sort : AscendingSort V F) (softmax : LogitRow V F → Fin V → F)
    {logits : List (LogitRow V F)} {temperatures : List F} {rows : Option (List Nat)}
    {active : List Nat} {cutoffs : List F} (htemps : temperatures.length = logits.length)
    (hactive : ActiveRows logits.length rows active) (hcutoffs : cutoffs.length = active.length) :
    ∃ out, filterTopP sort softmax logits temperatures rows cutoffs = .ok out ∧
      out.length = logits.length ∧
      (∀ (j r : Nat) (temperature cutoff : F) (row : LogitRow V F), active[j]? = some r →
        temperatures[r]? = some temperature → cutoffs[j]? = some cutoff →
        logits[r]? = some row →
        out[r]? = some (filterTopPRow sort softmax temperature cutoff row)) ∧
      ∀ r, r ∉ active → out[r]? = logits[r]? := by
  cases rows with
  | none =>
    obtain rfl : active = List.range logits.length := hactive
    rw [List.length_range] at hcutoffs
    have hguard : ¬ (temperatures.length ≠ logits.length ∨ cutoffs.length ≠ logits.length) := by
      omega
    have hall := length_filteredRows sort softmax htemps hcutoffs
    refine ⟨filteredRows sort softmax temperatures cutoffs logits, ?_, hall, ?_, ?_⟩
    · unfold filterTopP
      simp only [pure_bind]
      exact Call.except_guard_of_not hguard
        (congrArg Except.ok (filterTopPChunks_eq sort softmax htemps hcutoffs))
    · intro j r temperature cutoff row hj htemp hcut hrow
      have hjr : j = r := by
        have hlt : j < logits.length := by
          by_contra hge
          rw [List.getElem?_eq_none (by simpa using hge)] at hj
          cases hj
        rw [List.getElem?_range hlt] at hj
        exact Option.some.inj hj
      subst hjr
      have hown : (temperatures.zip cutoffs)[j]? = some (temperature, cutoff) :=
        List.getElem?_zip_eq_some.mpr ⟨htemp, hcut⟩
      rw [filteredRows, List.getElem?_zipWith, hrow, hown]
    · intro r hr
      rw [List.mem_range, not_lt] at hr
      rw [List.getElem?_eq_none (hall.trans_le hr), List.getElem?_eq_none hr]
  | some rows =>
    obtain ⟨rfl, hnodup, hlt⟩ := hactive
    obtain ⟨selected, hselected, hlen, hget⟩ := indexSelect_ok hlt
    obtain ⟨selectedT, hselectedT, hlenT, hgetT⟩ := indexSelect_ok (t := temperatures)
      fun r hr => htemps ▸ hlt r hr
    have ht : selectedT.length = selected.length := hlenT.trans hlen.symm
    have hc : cutoffs.length = selected.length := hcutoffs.trans hlen.symm
    have hguard : ¬ (selectedT.length ≠ selected.length ∨ cutoffs.length ≠ selected.length) := by
      omega
    have hall := length_filteredRows sort softmax ht hc
    refine ⟨indexCopy logits active (filteredRows sort softmax selectedT cutoffs selected), ?_,
      length_indexCopy _ _ _, ?_, fun r hr => indexCopy_getElem?_of_notMem hr⟩
    · unfold filterTopP
      refine (Call.except_bind_of_ok hselected).trans ?_
      refine (Call.except_bind_of_ok hselectedT).trans ?_
      refine Call.except_guard_of_not hguard ?_
      rw [filterTopPChunks_eq sort softmax ht hc]
      rfl
    · intro j r temperature cutoff row hj htemp hcut hrow
      have hr : r ∈ active := List.mem_of_getElem? hj
      rw [indexCopy_getElem? hnodup (hall.trans hlen) hj (hlt r hr)]
      have hown : (selectedT.zip cutoffs)[j]? = some (temperature, cutoff) :=
        List.getElem?_zip_eq_some.mpr ⟨(hgetT j r hj).trans htemp, hcut⟩
      rw [filteredRows, List.getElem?_zipWith, hget j r hj, hrow, hown]

end RowByRow

end NanoVllm
