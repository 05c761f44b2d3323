/- module: NanoVllm/Ownership/Core
   layer: invariant
   source: nanovllm/engine/scheduler.py, schedule, preempt and _check_mid_chunk_invariant
   digest: Ownership over both queues, with the coverage facts every scheduler call keeps. -/

import NanoVllm.Ownership.Allocation
import NanoVllm.Engine.Scheduler

set_option autoImplicit false
set_option relaxedAutoImplicit false

namespace NanoVllm

open Library

/-- `seq.num_cached_tokens // block_size`. -/
def State.coverage (s : State) (cfg : Config) (x : Nat) : Nat :=
  (s.seqs x).numCachedTokens / cfg.kvcacheBlockSize

structure Started (cfg : Config) (seq : Sequence) : Prop where
  scheduled_le : seq.numCachedTokens + seq.numScheduledTokens ≤ seq.numTokens
  within : seq.numCachedTokens + seq.numScheduledTokens
    ≤ seq.blockTable.length * cfg.kvcacheBlockSize
  cached_lt : seq.numCachedTokens < seq.numTokens
  roomy : seq.numTokens ≤ seq.blockTable.length * cfg.kvcacheBlockSize + 1

structure Chunked (cfg : Config) (seq : Sequence) : Prop where
  scheduled_lt : seq.numCachedTokens + seq.numScheduledTokens < seq.numTokens
  within : seq.numCachedTokens + seq.numScheduledTokens
    ≤ seq.blockTable.length * cfg.kvcacheBlockSize

/-- What every scheduler call keeps. The rows of `held` are live but in neither
queue: the decode rows `schedule` has taken so far. -/
structure Core (cfg : Config) (held : List Nat) (s : State) : Prop where
  own : OwnIf cfg.CollisionFree cfg (held ++ s.running ++ s.waiting) s.table (s.coverage cfg) s
  mid_owner : ∀ w ∈ s.waiting, s.table w ≠ [] → s.midChunkSeq = some w
  mid_head : ∀ w, s.midChunkSeq = some w → s.waiting.head? = some w ∧ s.table w ≠ []
  started : ∀ x ∈ held ++ s.running, Started cfg (s.seqs x)
  chunked : ∀ w ∈ s.waiting, s.table w ≠ [] → Chunked cfg (s.seqs w)
  nonempty : ∀ x ∈ s.waiting, 0 < (s.seqs x).numTokens
  known : ∀ x ∈ held ++ s.running ++ s.waiting, x < s.nextSeqId
  dead : ∀ x, x ∉ held ++ s.running ++ s.waiting → s.table x = []

theorem Config.blockSize_pos (cfg : Config) : 0 < cfg.kvcacheBlockSize :=
  lt_of_lt_of_le (by decide) cfg.blockSize_ge

theorem Core.init (cfg : Config) : Core cfg [] (State.init cfg) where
  own := OwnIf.init cfg _ _
  mid_owner := by simp [State.init]
  mid_head := by simp [State.init]
  started := by simp [State.init]
  chunked := by simp [State.init]
  nonempty := by simp [State.init]
  known := by simp [State.init]
  dead := by simp [State.init, State.table, Sequence.blank, Sequence.new]

structure State.Calm (s : State) : Prop extends s.Quiet where
  transaction : s.activeSpecTransaction = none
  discard : s.activeDraftDiscard = none
  pending : s.pendingDraftCoveragePlan = none

theorem State.Calm.of_control {s t : State} (h : s.Calm) (hc : t.control = s.control) :
    t.Calm where
  toQuiet := h.toQuiet.of_control hc
  transaction := (congrArg Control.activeSpecTransaction hc).trans h.transaction
  discard := (congrArg Control.activeDraftDiscard hc).trans h.discard
  pending := (congrArg Control.pendingDraftCoveragePlan hc).trans h.pending

variable {cfg : Config} {held : List Nat} {s : State} {x : Nat}

theorem Core.record (h : Core cfg held s) (e : QueueEvent Nat) : Core cfg held (s.record e) where
  own := h.own.congr_pool rfl rfl rfl rfl
  mid_owner := h.mid_owner
  mid_head := h.mid_head
  started := h.started
  chunked := h.chunked
  nonempty := h.nonempty
  known := h.known
  dead := h.dead

theorem State.Calm.record (h : s.Calm) (e : QueueEvent Nat) : (s.record e).Calm where
  reservation := h.reservation
  progress := h.progress
  internal := h.internal
  fault := h.fault
  transaction := h.transaction
  discard := h.discard
  pending := h.pending

variable (cfg) in
theorem abortSpeculativeStep_idle (h : s.activeSpecTransaction = none) :
    abortSpeculativeStep cfg s = .ok false s := by
  simp [abortSpeculativeStep, h]

theorem rollbackActiveDraftDiscard_idle (h : s.activeDraftDiscard = none) :
    rollbackActiveDraftDiscard s = .ok ⟨⟩ s := by
  simp [rollbackActiveDraftDiscard, h]

theorem State.dropPendingCoverage_idle (h : s.pendingDraftCoveragePlan = none)
    (targets : List Nat) : s.dropPendingCoverage targets = s := by
  simp [State.dropPendingCoverage, h]

theorem State.setSeq_self {seq : Sequence} (h : s.seqs x = seq) : s.setSeq x seq = s := by
  rw [← h, State.setSeq, Function.update_eq_self]

def State.evict (s : State) (x : Nat) : State :=
  let t := ((s.clearMid x).setSeq x
    { s.seqs x with status := .waiting, isPrefill := true }).release x
  (t.withWaiting (t.waiting ++ [x])).record (.preempted x t.waiting)

theorem State.clearMid_seqs (s : State) (x : Nat) : (s.clearMid x).seqs = s.seqs := by
  unfold State.clearMid
  split <;> rfl

theorem State.clearMid_pool (s : State) (x : Nat) :
    (s.clearMid x).blocks = s.blocks ∧ (s.clearMid x).hashToBlockId = s.hashToBlockId ∧
      (s.clearMid x).freeBlockIds = s.freeBlockIds ∧
      (s.clearMid x).usedBlockIds = s.usedBlockIds := by
  unfold State.clearMid
  split <;> exact ⟨rfl, rfl, rfl, rfl⟩

theorem State.clearMid_control (s : State) (x : Nat) :
    (s.clearMid x).control = { s.control with
      midChunkSeq := if s.midChunkSeq = some x then none else s.midChunkSeq } := by
  unfold State.clearMid
  split <;> rfl

theorem State.evict_control (s : State) (x : Nat) :
    (s.evict x).control = { s.control with
      midChunkSeq := if s.midChunkSeq = some x then none else s.midChunkSeq
      waiting := s.waiting ++ [x]
      history := s.history ++ [.preempted x s.waiting] } := by
  have hrel : (((s.clearMid x).setSeq x
      { s.seqs x with status := .waiting, isPrefill := true }).release x).control =
        { s.control with
          midChunkSeq := if s.midChunkSeq = some x then none else s.midChunkSeq } := by
    rw [State.release_control, State.setSeq_control, State.clearMid_control]
  have hstep : ∀ t : State,
      ((t.withWaiting (t.waiting ++ [x])).record (.preempted x t.waiting)).control =
        { t.control with
          waiting := t.control.waiting ++ [x]
          history := t.control.history ++ [.preempted x t.control.waiting] } := fun t => rfl
  unfold State.evict
  refine (hstep _).trans ?_
  rw [hrel]
  rfl

theorem State.evict_running (s : State) (x : Nat) : (s.evict x).running = s.running :=
  congrArg Control.running (s.evict_control x)

theorem State.evict_waiting (s : State) (x : Nat) : (s.evict x).waiting = s.waiting ++ [x] :=
  congrArg Control.waiting (s.evict_control x)

theorem State.evict_mid (h : s.midChunkSeq = none ∨ s.midChunkSeq = some x) :
    (s.evict x).midChunkSeq = none := by
  refine (congrArg Control.midChunkSeq (s.evict_control x)).trans ?_
  change (if s.midChunkSeq = some x then none else s.midChunkSeq) = none
  rcases h with h | h <;> simp [h]

theorem State.evict_seqs (s : State) (x : Nat) :
    (s.evict x).seqs = Function.update s.seqs x
      { s.seqs x with
        status := .waiting
        isPrefill := true
        numCachedTokens := 0
        numDraftCachedTokens := 0
        blockTable := [] } := by
  change (((s.clearMid x).setSeq x _).release x).seqs = _
  rw [State.release_seqs, State.setSeq_seqs, Function.update_idem, Function.update_self,
    State.clearMid_seqs]

theorem State.evict_table (s : State) (x : Nat) :
    (s.evict x).table = Function.update s.table x [] := by
  funext y
  rw [State.table, State.evict_seqs]
  by_cases hyx : y = x
  · subst hyx
    simp
  · simp [hyx, State.table]

@[simp] theorem State.evict_index (s : State) (x : Nat) :
    (s.evict x).hashToBlockId = s.hashToBlockId := by
  change (((s.clearMid x).setSeq x _).release x).hashToBlockId = _
  rw [State.release_index]
  exact (s.clearMid_pool x).2.1

theorem State.Calm.evict (h : s.Calm) : (s.evict x).Calm := by
  have hc := s.evict_control x
  exact
    { reservation := (congrArg Control.activeReservation hc).trans h.reservation
      progress := (congrArg Control.reservationInProgress hc).trans h.progress
      internal := (congrArg Control.internalAllocation hc).trans h.internal
      fault := (congrArg Control.fault hc).trans h.fault
      transaction := (congrArg Control.activeSpecTransaction hc).trans h.transaction
      discard := (congrArg Control.activeDraftDiscard hc).trans h.discard
      pending := (congrArg Control.pendingDraftCoveragePlan hc).trans h.pending }

section Evict

variable {live : List Nat} {cov : Nat → Nat}

private theorem OwnIf.parked (h : OwnIf cfg.CollisionFree cfg live s.table cov s) :
    OwnIf cfg.CollisionFree cfg live ((s.clearMid x).setSeq x
      { s.seqs x with status := .waiting, isPrefill := true }).table cov
      ((s.clearMid x).setSeq x { s.seqs x with status := .waiting, isPrefill := true }) := by
  obtain ⟨hblocks, hindex, hfree, hused⟩ := s.clearMid_pool x
  have htab : ((s.clearMid x).setSeq x
      { s.seqs x with status := .waiting, isPrefill := true }).table = s.table := by
    funext y
    rw [State.table, State.setSeq_seqs, State.clearMid_seqs]
    by_cases hyx : y = x
    · subst hyx
      simp [State.table]
    · simp [hyx, State.table]
  rw [htab]
  exact h.congr_pool hblocks hindex hfree hused

private theorem OwnIf.evict (h : OwnIf cfg.CollisionFree cfg live s.table cov s) (hx : x ∈ live) :
    OwnIf cfg.CollisionFree cfg live (s.evict x).table cov (s.evict x) :=
  (h.parked.release hx).congr_pool rfl rfl rfl rfl

theorem preempt_calm (hc : s.Calm) (h : OwnIf cfg.CollisionFree cfg live s.table cov s)
    (hx : x ∈ live) :
    preempt cfg x s = checkMidChunkInvariant (s.evict x) := by
  have hq : ((s.clearMid x).setSeq x
      { s.seqs x with status := .waiting, isPrefill := true }).Quiet := by
    have hctl := s.clearMid_control x
    exact
      { reservation := (congrArg Control.activeReservation hctl).trans hc.reservation
        progress := (congrArg Control.reservationInProgress hctl).trans hc.progress
        internal := (congrArg Control.internalAllocation hctl).trans hc.internal
        fault := (congrArg Control.fault hctl).trans hc.fault }
  have hdealloc := deallocate_quiet hq h.parked hx
  have hdraft : ∀ t : State, (t.release x).setSeq x
      { (t.release x).seqs x with numDraftCachedTokens := 0 } = t.release x := by
    intro t
    apply State.setSeq_self
    simp [State.release_seqs]
  simp only [preempt, Call.bind_apply, abortSpeculativeStep_idle _ hc.transaction,
    rollbackActiveDraftDiscard_idle hc.discard, Call.modify_apply,
    State.dropPendingCoverage_idle hc.pending, modifySeq]
  rw [State.clearMid_seqs, hdealloc]
  simp only [hdraft]
  rfl

end Evict

/-- A preemption of the mid-chunk row, or of any live row when there is none, keeps
the invariant and leaves no row mid-chunk. -/
theorem Core.evict (h : Core cfg held s) {held' r w : List Nat}
    (hmid : s.midChunkSeq = none ∨ s.midChunkSeq = some x)
    (hperm : (held' ++ r ++ w ++ [x]).Perm (held ++ s.running ++ s.waiting))
    (hrun : ∀ y ∈ held' ++ r, y ∈ held ++ s.running) (hwait : ∀ y ∈ w, y ∈ s.waiting)
    (hpos : 0 < (s.seqs x).numTokens) :
    Core cfg held' (((s.withRunning r).withWaiting w).evict x) ∧
      (((s.withRunning r).withWaiting w).evict x).midChunkSeq = none := by
  set q := (s.withRunning r).withWaiting w with hq
  set t := q.evict x with ht
  have hrunning : t.running = r := q.evict_running x
  have hwaiting : t.waiting = w ++ [x] := q.evict_waiting x
  have hnext : t.nextSeqId = s.nextSeqId := congrArg Control.nextSeqId (q.evict_control x)
  have hnone : t.midChunkSeq = none := State.evict_mid hmid
  have hseqs : t.seqs = Function.update s.seqs x _ := q.evict_seqs x
  have htable : t.table = Function.update s.table x [] := q.evict_table x
  have hlive : (held' ++ t.running ++ t.waiting).Perm (held ++ s.running ++ s.waiting) := by
    rw [hrunning, hwaiting, ← List.append_assoc]
    exact hperm
  have hxlive : x ∈ held ++ s.running ++ s.waiting := hperm.mem_iff.mp (by simp)
  have hnd : (held' ++ r ++ w ++ [x]).Nodup := hperm.nodup_iff.mpr h.own.live_nodup
  have hxout : x ∉ held' ++ r ++ w := by
    intro hmem
    exact (List.nodup_append.mp hnd).2.2 x hmem x (by simp) rfl
  have hqueues : OwnIf cfg.CollisionFree cfg (held ++ s.running ++ s.waiting) q.table (s.coverage cfg) q :=
    h.own.congr_pool rfl rfl rfl rfl
  have hown := hqueues.evict hxlive
  rw [← ht] at hown
  refine ⟨⟨?_, ?_, ?_, ?_, ?_, ?_, ?_, ?_⟩, hnone⟩
  · apply (hown.perm hlive).set_cov
    intro y _
    by_cases hyx : y = x
    · subst hyx
      left
      rw [htable, Function.update_self]
      simp
    · right
      simp only [State.coverage, hseqs, Function.update_of_ne hyx, le_refl]
  · intro y hy htab
    rw [hwaiting] at hy
    rw [htable] at htab
    rcases List.mem_append.mp hy with hy | hy
    · have hyx : y ≠ x := fun heq => hxout (by rw [← heq]; simp [hy])
      rw [Function.update_of_ne hyx] at htab
      have := h.mid_owner y (hwait y hy) htab
      rcases hmid with hmid | hmid
      · rw [hmid] at this
        exact absurd this (by simp)
      · rw [hmid] at this
        exact absurd (Option.some.inj this).symm hyx
    · rw [List.mem_singleton.mp hy, Function.update_self] at htab
      exact absurd rfl htab
  · intro y hy
    rw [hnone] at hy
    exact absurd hy (by simp)
  · intro y hy
    rw [hrunning] at hy
    have hyx : y ≠ x := by
      intro heq
      rw [heq] at hy
      exact hxout (List.mem_append_left w hy)
    rw [hseqs, Function.update_of_ne hyx]
    exact h.started y (hrun y hy)
  · intro y hy htab
    rw [hwaiting] at hy
    rw [htable] at htab
    by_cases hyx : y = x
    · rw [hyx, Function.update_self] at htab
      exact absurd rfl htab
    · rw [Function.update_of_ne hyx] at htab
      have hyw : y ∈ w := by simpa [hyx] using hy
      rw [hseqs, Function.update_of_ne hyx]
      exact h.chunked y (hwait y hyw) htab
  · intro y hy
    rw [hwaiting] at hy
    rw [hseqs]
    by_cases hyx : y = x
    · subst hyx
      rw [Function.update_self]
      exact hpos
    · have hyw : y ∈ w := by simpa [hyx] using hy
      rw [Function.update_of_ne hyx]
      exact h.nonempty y (hwait y hyw)
  · intro y hy
    rw [hnext]
    exact h.known y (hlive.mem_iff.mp hy)
  · intro y hy
    rw [htable]
    by_cases hyx : y = x
    · rw [hyx, Function.update_self]
    · rw [Function.update_of_ne hyx]
      exact h.dead y fun hmem => hy (hlive.mem_iff.mpr hmem)

end NanoVllm
