/- module: NanoVllm/Cancellation/Removal
   layer: refinement
   source: nanovllm/engine/scheduler.py, the removal loops of cancel
   digest: A removal depends on the set of removed requests only, up to the free list's order. -/

import NanoVllm.Content.Moves

set_option autoImplicit false
set_option relaxedAutoImplicit false

namespace NanoVllm

open Library

variable {cfg : Config} {s t u : State} {xs ys : List Nat} {x : Nat}

theorem Sequence.cancelled_cancelled (q : Sequence) : q.cancelled.cancelled = q.cancelled := rfl

/-- `t` is `s` without the requests `xs`; the pool counts, the free list and the history are
left open. -/
structure Removes (xs : List Nat) (s t : State) : Prop where
  seqs : ∀ x, t.seqs x = if x ∈ xs then (s.seqs x).cancelled else s.seqs x
  content : ∀ b, SameContent s t b
  index : t.hashToBlockId = s.hashToBlockId
  control : t.control = { s.control with
    running := s.running.filter (· ∉ xs)
    waiting := s.waiting.filter (· ∉ xs)
    midChunkSeq := s.midChunkSeq.filter (· ∉ xs)
    history := t.history }

namespace Removes

theorem running (h : Removes xs s t) : t.running = s.running.filter (· ∉ xs) :=
  congrArg Control.running h.control

theorem waiting (h : Removes xs s t) : t.waiting = s.waiting.filter (· ∉ xs) :=
  congrArg Control.waiting h.control

theorem seqs_in (h : Removes xs s t) (hx : x ∈ xs) : t.seqs x = (s.seqs x).cancelled := by
  rw [h.seqs, if_pos hx]

theorem seqs_out (h : Removes xs s t) (hx : x ∉ xs) : t.seqs x = s.seqs x := by
  rw [h.seqs, if_neg hx]

theorem nil (s : State) : Removes [] s s where
  seqs := by simp
  content := .refl s
  index := rfl
  control := by
    have hmid : s.midChunkSeq.filter (· ∉ ([] : List Nat)) = s.midChunkSeq := by
      cases s.midChunkSeq <;> simp [Option.filter]
    rw [hmid]
    simp only [List.not_mem_nil, not_false_eq_true, decide_true, List.filter_true]
    rfl

theorem trans (h : Removes xs s t) (h' : Removes ys t u) : Removes (xs ++ ys) s u where
  seqs := by
    intro x
    rw [h'.seqs, h.seqs]
    by_cases hx : x ∈ xs <;> by_cases hy : x ∈ ys <;>
      simp [hx, hy, Sequence.cancelled_cancelled]
  content := fun b => (h.content b).trans (h'.content b)
  index := h'.index.trans h.index
  control := by
    have hmid : t.midChunkSeq = s.midChunkSeq.filter (· ∉ xs) :=
      congrArg Control.midChunkSeq h.control
    rw [h'.control, h.control, h.running, h.waiting, hmid, List.filter_filter,
      List.filter_filter, Option.filter_filter]
    simp only [List.mem_append, not_or, Bool.decide_and, Bool.and_comm]

theorem congr (h : Removes xs s t) (hmem : ∀ x, x ∈ xs ↔ x ∈ ys) : Removes ys s t where
  seqs := by
    intro x
    rw [h.seqs]
    simp only [hmem]
  content := h.content
  index := h.index
  control := by
    rw [h.control]
    simp only [hmem]

end Removes

private theorem Removes.forget (hr : s.running.Nodup) (hw : s.waiting.Nodup) (x : Nat) :
    Removes [x] s (s.forget x) where
  seqs := by
    intro y
    rw [s.forget_row x]
    by_cases hyx : y = x
    · rw [hyx, Function.update_self, if_pos (by simp)]
    · rw [Function.update_of_ne hyx, if_neg (by simpa using hyx)]
  content := fun b => (s.forget_empties x).same b (by simp)
  index := s.forget_index x
  control := by
    have hmid : (if s.midChunkSeq = some x then none else s.midChunkSeq) =
        s.midChunkSeq.filter (· ∉ [x]) := by
      cases s.midChunkSeq with
      | none => rfl
      | some y => by_cases hyx : y = x <;> simp [hyx, Option.filter]
    have hhist : (s.forget x).history = s.history ++ [.cancelled x] :=
      congrArg Control.history (s.forget_control x)
    rw [s.forget_control x, hr.erase_eq_filter, hw.erase_eq_filter, hmid, hhist]
    simp only [List.mem_singleton, bne, decide_not]
    rfl

private theorem Removes.forgetAll : ∀ (xs : List Nat) {s : State}, s.running.Nodup → s.waiting.Nodup →
    Removes xs s (s.forgetAll xs) := by
  intro xs
  induction xs with
  | nil => exact fun _ _ => .nil _
  | cons x xs ih =>
    intro s hr hw
    have hone : Removes [x] s (s.forget x) := .forget hr hw x
    refine hone.trans (ih ?_ ?_)
    · rw [hone.running]
      exact hr.filter _
    · rw [hone.waiting]
      exact hw.filter _

theorem Removes.drop (h : Core cfg [] s) (targets : List Nat) :
    Removes (s.queued targets) s (s.drop targets) := by
  have hlive := h.own.live_nodup
  rw [List.nil_append, List.nodup_append] at hlive
  rw [s.drop_eq targets]
  exact .forgetAll _ hlive.1 hlive.2.1

/-- Equal in all but the order of the free list and the recorded history. -/
structure SameButFreeOrder (s t : State) : Prop where
  seqs : t.seqs = s.seqs
  blocks : t.blocks = s.blocks
  index : t.hashToBlockId = s.hashToBlockId
  free : t.freeBlockIds.Perm s.freeBlockIds
  used : t.usedBlockIds = s.usedBlockIds
  control : t.control = { s.control with history := t.history }

theorem SameButFreeOrder.refl (s : State) : SameButFreeOrder s s :=
  ⟨rfl, rfl, rfl, .refl _, rfl, rfl⟩

theorem Removes.agree (ht : Removes xs s t) (hu : Removes xs s u) (hct : Core cfg [] t)
    (hcu : Core cfg [] u) : SameButFreeOrder t u := by
  have hseqs : u.seqs = t.seqs := by
    funext x
    rw [ht.seqs, hu.seqs]
  have hrun : u.running = t.running := hu.running.trans ht.running.symm
  have hwait : u.waiting = t.waiting := hu.waiting.trans ht.waiting.symm
  have href : ∀ b, (u.blocks b).refCount = (t.blocks b).refCount := by
    intro b
    have htable : u.table = t.table := by
      funext x
      rw [State.table, State.table, hseqs]
    rw [hct.own.ref_eq, hcu.own.ref_eq, hrun, hwait, htable]
  have hused : ∀ b, b ∈ u.usedBlockIds ↔ b ∈ t.usedBlockIds := by
    intro b
    rw [hct.own.mem_used, hcu.own.mem_used, href]
  refine ⟨hseqs, ?_, hu.index.trans ht.index.symm, ?_, Finset.ext hused, ?_⟩
  · funext b
    have htc := ht.content b
    have huc := hu.content b
    have hhash : (u.blocks b).hash = (t.blocks b).hash := huc.hash.trans htc.hash.symm
    have htok : (u.blocks b).tokenIds = (t.blocks b).tokenIds :=
      huc.tokenIds.trans htc.tokenIds.symm
    have hupdates : (u.blocks b).updates = (t.blocks b).updates :=
      huc.updates.trans htc.updates.symm
    have hcount := href b
    cases hub : u.blocks b
    cases htb : t.blocks b
    rw [hub, htb] at hhash htok hupdates hcount
    simp only at hhash htok hupdates hcount
    rw [hhash, htok, hupdates, hcount]
  · refine (List.perm_ext_iff_of_nodup hcu.own.free_nodup hct.own.free_nodup).mpr fun b => ?_
    rw [hct.own.mem_free, hcu.own.mem_free, hused]
  · rw [hu.control, ht.control]

end NanoVllm
