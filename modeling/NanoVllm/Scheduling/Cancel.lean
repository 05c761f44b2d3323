/- module: NanoVllm/Scheduling/Cancel
   layer: refinement
   source: nanovllm/engine/scheduler.py, Scheduler.add and Scheduler.cancel
   digest: Admission to the waiting queue and targeted removal as functions of the state. -/

import NanoVllm.Scheduling.Postprocess

set_option autoImplicit false
set_option relaxedAutoImplicit false

namespace NanoVllm

open Library

variable {cfg : Config} {s : State} {x : Nat}

/-- The state after one cancelled target: it is in one queue only, so erasing it
from both is what the source does. -/
def State.forget (s : State) (x : Nat) : State :=
  let t := if s.table x = [] then s else s.release x
  ((((t.withRunning (s.running.erase x)).withWaiting (s.waiting.erase x)).clearMid x).setSeq x
    { t.seqs x with
      numScheduledTokens := 0
      numDraftCachedTokens := 0
      status := .cancelled }).record (.cancelled x)

def State.forgetAll (s : State) (xs : List Nat) : State := xs.foldl State.forget s

def State.drop (s : State) (targets : List Nat) : State :=
  (s.forgetAll (s.waiting.filter (· ∈ targets))).forgetAll (s.running.filter (· ∈ targets))

def State.queued (s : State) (targets : List Nat) : List Nat :=
  s.waiting.filter (· ∈ targets) ++ s.running.filter (· ∈ targets)

theorem State.drop_eq (s : State) (targets : List Nat) :
    s.drop targets = s.forgetAll (s.queued targets) :=
  (List.foldl_append).symm

def Sequence.cancelled (q : Sequence) : Sequence :=
  { q with
    status := .cancelled
    numCachedTokens := if q.blockTable = [] then q.numCachedTokens else 0
    numDraftCachedTokens := 0
    numScheduledTokens := 0
    blockTable := [] }

theorem State.forget_row (s : State) (x : Nat) :
    (s.forget x).seqs = Function.update s.seqs x (s.seqs x).cancelled := by
  unfold State.forget Sequence.cancelled
  by_cases htab : s.table x = []
  · have htab' : (s.seqs x).blockTable = [] := htab
    simp [htab, State.clearMid_seqs, State.record, ← htab']
  · have htab' : (s.seqs x).blockTable ≠ [] := htab
    simp [htab, htab', State.clearMid_seqs, State.release_seqs, State.record]

theorem State.forget_seqs (s : State) (x : Nat) :
    ∃ cached, (s.forget x).seqs = Function.update s.seqs x { s.seqs x with
      status := .cancelled
      numCachedTokens := cached
      numDraftCachedTokens := 0
      numScheduledTokens := 0
      blockTable := [] } :=
  ⟨_, s.forget_row x⟩

theorem State.forget_control (s : State) (x : Nat) :
    (s.forget x).control = { s.control with
      running := s.running.erase x
      waiting := s.waiting.erase x
      midChunkSeq := if s.midChunkSeq = some x then none else s.midChunkSeq
      history := s.history ++ [.cancelled x] } := by
  have hrecord : ∀ u : State, (u.record (.cancelled x)).control =
      { u.control with history := u.control.history ++ [.cancelled x] } := fun _ => rfl
  have hstep : ∀ (u : State) (r w : List Nat), ((u.withRunning r).withWaiting w).control =
      { u.control with running := r, waiting := w } := fun u r w => rfl
  have hmid : ∀ (u : State) (r w : List Nat), ((u.withRunning r).withWaiting w).midChunkSeq =
      u.midChunkSeq := fun u r w => rfl
  unfold State.forget
  by_cases htab : s.table x = []
  · simp only [htab, ↓reduceIte, hrecord, State.setSeq_control, State.clearMid_control, hstep,
      hmid]
    rfl
  · have hrel := s.release_control x
    have hrelmid : (s.release x).midChunkSeq = s.midChunkSeq := congrArg Control.midChunkSeq hrel
    simp only [htab, ↓reduceIte, hrecord, State.setSeq_control, State.clearMid_control, hstep,
      hmid, hrel, hrelmid]
    rfl

theorem State.forget_index (s : State) (x : Nat) :
    (s.forget x).hashToBlockId = s.hashToBlockId := by
  have hstep : ∀ t : State, (((((t.withRunning (s.running.erase x)).withWaiting
      (s.waiting.erase x)).clearMid x).setSeq x { t.seqs x with
        numScheduledTokens := 0
        numDraftCachedTokens := 0
        status := .cancelled }).record (.cancelled x)).hashToBlockId = t.hashToBlockId :=
    fun t => (((t.withRunning (s.running.erase x)).withWaiting
      (s.waiting.erase x)).clearMid_pool x).2.1
  unfold State.forget
  split
  · exact hstep s
  · exact (hstep _).trans (s.release_index x)

theorem State.forgetAll_control (s : State) (xs : List Nat) :
    (s.forgetAll xs).control = { s.control with
      running := (s.forgetAll xs).running
      waiting := (s.forgetAll xs).waiting
      midChunkSeq := (s.forgetAll xs).midChunkSeq
      history := (s.forgetAll xs).history } := by
  induction xs generalizing s with
  | nil => rfl
  | cons x xs ih =>
    change ((s.forget x).forgetAll xs).control = _
    rw [ih, s.forget_control x]
    rfl

theorem State.forgetAll_running (s : State) {xs : List Nat} (h : ∀ x ∈ xs, x ∉ s.running) :
    (s.forgetAll xs).running = s.running := by
  induction xs generalizing s with
  | nil => rfl
  | cons x xs ih =>
    have hrun : (s.forget x).running = s.running :=
      (congrArg Control.running (s.forget_control x)).trans
        (List.erase_of_not_mem (h x (by simp)))
    change ((s.forget x).forgetAll xs).running = _
    rw [ih, hrun]
    rw [hrun]
    exact fun y hy => h y (List.mem_cons_of_mem x hy)

private theorem OwnIf.forget {live : List Nat} {cov : Nat → Nat}
    (h : OwnIf cfg.CollisionFree cfg live s.table cov s)
    (hx : x ∈ live) : OwnIf cfg.CollisionFree cfg live (s.forget x).table cov (s.forget x) := by
  have hrest : ∀ (t : State), OwnIf cfg.CollisionFree cfg live t.table cov t → t.table x = [] →
      OwnIf cfg.CollisionFree cfg live
        ((((t.withRunning (s.running.erase x)).withWaiting (s.waiting.erase x)).clearMid x).setSeq
          x { t.seqs x with
            numScheduledTokens := 0
            numDraftCachedTokens := 0
            status := .cancelled }).table cov
        ((((t.withRunning (s.running.erase x)).withWaiting (s.waiting.erase x)).clearMid x).setSeq
          x { t.seqs x with
            numScheduledTokens := 0
            numDraftCachedTokens := 0
            status := .cancelled }) := by
    intro t ht htab
    obtain ⟨hblocks, hindex, hfree, hused⟩ :=
      ((t.withRunning (s.running.erase x)).withWaiting (s.waiting.erase x)).clearMid_pool x
    have hclear : OwnIf cfg.CollisionFree cfg live
        (((t.withRunning (s.running.erase x)).withWaiting (s.waiting.erase x)).clearMid x).table cov
        (((t.withRunning (s.running.erase x)).withWaiting (s.waiting.erase x)).clearMid x) := by
      have htable : (((t.withRunning (s.running.erase x)).withWaiting
          (s.waiting.erase x)).clearMid x).table = t.table := by
        funext y
        rw [State.table, State.clearMid_seqs]
        rfl
      rw [htable]
      exact ht.congr_pool hblocks hindex hfree hused
    apply hclear.setRow
    rw [State.table, State.clearMid_seqs]
    rfl
  unfold State.forget
  by_cases htab : s.table x = []
  · simp only [htab, ↓reduceIte]
    exact (hrest s h htab).congr_pool rfl rfl rfl rfl
  · simp only [htab, ↓reduceIte]
    refine (hrest (s.release x) (h.release hx) ?_).congr_pool rfl rfl rfl rfl
    rw [State.table, State.release_seqs, Function.update_self]

theorem Core.forget (h : Core cfg [] s) (hx : x ∈ s.running ++ s.waiting) :
    Core cfg [] (s.forget x) := by
  have hctl := s.forget_control x
  obtain ⟨cached, hseqs⟩ := s.forget_seqs x
  apply h.remove hx hseqs rfl
  · exact congrArg Control.running hctl
  · exact congrArg Control.waiting hctl
  · exact congrArg Control.midChunkSeq hctl
  · exact congrArg Control.nextSeqId hctl
  · exact h.own.forget (x := x) hx

theorem State.Quiet.forget (hq : s.Quiet) (x : Nat) : (s.forget x).Quiet := by
  have hctl := s.forget_control x
  exact ⟨(congrArg Control.activeReservation hctl).trans hq.reservation,
    (congrArg Control.reservationInProgress hctl).trans hq.progress,
    (congrArg Control.internalAllocation hctl).trans hq.internal,
    (congrArg Control.fault hctl).trans hq.fault⟩

private theorem cancelOne_quiet (hq : s.Quiet) (h : Core cfg [] s) (hx : x ∈ s.running ++ s.waiting)
    {f : State → State}
    (hf : ∀ t : State, t.control = s.control →
      f t = (t.withRunning (s.running.erase x)).withWaiting (s.waiting.erase x)) :
    cancelOne f x s = .ok ⟨⟩ (s.forget x) := by
  by_cases htab : s.table x = []
  · have htab' : (s.seqs x).blockTable = [] := htab
    simp [cancelOne, htab', hf s rfl, modifySeq_apply, State.clearMid_seqs, State.forget,
      htab]
  · have htab' : (s.seqs x).blockTable ≠ [] := htab
    have hdealloc := deallocate_quiet hq h.own (x := x) hx
    simp [cancelOne, htab', hdealloc, hf (s.release x) (s.release_control x),
      modifySeq_apply, State.clearMid_seqs, State.forget, htab]

theorem forgetAll_mem {xs : List Nat} : ∀ {s : State}, xs.Nodup →
    (∀ x ∈ xs, x ∈ s.running ++ s.waiting) → Core cfg [] s → s.Quiet →
      Core cfg [] (s.forgetAll xs) ∧ (s.forgetAll xs).Quiet := by
  induction xs with
  | nil => exact fun _ _ h hq => ⟨h, hq⟩
  | cons x xs ih =>
    intro s hnd hmem h hq
    obtain ⟨hx, hnd'⟩ := List.nodup_cons.mp hnd
    have hctl := s.forget_control x
    apply ih hnd' _ (h.forget (hmem x (by simp))) (hq.forget x)
    intro y hy
    have hyx : y ≠ x := fun heq => hx (heq ▸ hy)
    rw [show (s.forget x).running = s.running.erase x from congrArg Control.running hctl,
      show (s.forget x).waiting = s.waiting.erase x from congrArg Control.waiting hctl,
      List.mem_append, List.mem_erase_of_ne hyx, List.mem_erase_of_ne hyx, ← List.mem_append]
    exact hmem y (by simp [hy])

theorem cancelWaiting_quiet {xs : List Nat} : ∀ {s : State}, xs.Nodup →
    (∀ x ∈ xs, x ∈ s.waiting) → Core cfg [] s → s.Quiet →
      cancelWaiting xs s = .ok ⟨⟩ (s.forgetAll xs) := by
  induction xs with
  | nil => exact fun _ _ _ _ => rfl
  | cons x xs ih =>
    intro s hnd hmem h hq
    obtain ⟨hx, hnd'⟩ := List.nodup_cons.mp hnd
    have hxw : x ∈ s.waiting := hmem x (by simp)
    have hxq : x ∈ s.running ++ s.waiting := List.mem_append_right _ hxw
    have hxr : x ∉ s.running := fun hmem' =>
      (List.nodup_append.mp h.own.live_nodup).2.2 x hmem' x hxw rfl
    have hone := cancelOne_quiet hq h hxq (f := fun t => t.withWaiting (t.waiting.erase x))
      (by
        intro t ht
        have hr : t.running = s.running := congrArg Control.running ht
        have hw : t.waiting = s.waiting := congrArg Control.waiting ht
        rw [List.erase_of_not_mem hxr, hw, ← hr]
        rfl)
    have hrec := ih (s := s.forget x) hnd' (by
      intro y hy
      have hyx : y ≠ x := fun heq => hx (heq ▸ hy)
      rw [show (s.forget x).waiting = s.waiting.erase x from
        congrArg Control.waiting (s.forget_control x), List.mem_erase_of_ne hyx]
      exact hmem y (by simp [hy])) (h.forget hxq) (hq.forget x)
    simp [cancelWaiting, hone, hrec, State.forgetAll]

theorem cancelRunning_quiet {xs : List Nat} : ∀ {s : State}, xs.Nodup →
    (∀ x ∈ xs, x ∈ s.running) → Core cfg [] s → s.Quiet →
      cancelRunning xs s = .ok ⟨⟩ (s.forgetAll xs) := by
  induction xs with
  | nil => exact fun _ _ _ _ => rfl
  | cons x xs ih =>
    intro s hnd hmem h hq
    obtain ⟨hx, hnd'⟩ := List.nodup_cons.mp hnd
    have hxr : x ∈ s.running := hmem x (by simp)
    have hxq : x ∈ s.running ++ s.waiting := List.mem_append_left _ hxr
    have hxw : x ∉ s.waiting := fun hmem' =>
      (List.nodup_append.mp h.own.live_nodup).2.2 x hxr x hmem' rfl
    have hone := cancelOne_quiet hq h hxq (f := fun t => t.withRunning (t.running.erase x))
      (by
        intro t ht
        have hr : t.running = s.running := congrArg Control.running ht
        have hw : t.waiting = s.waiting := congrArg Control.waiting ht
        rw [List.erase_of_not_mem hxw, hr, ← hw]
        rfl)
    have hrec := ih (s := s.forget x) hnd' (by
      intro y hy
      have hyx : y ≠ x := fun heq => hx (heq ▸ hy)
      rw [show (s.forget x).running = s.running.erase x from
        congrArg Control.running (s.forget_control x), List.mem_erase_of_ne hyx]
      exact hmem y (by simp [hy])) (h.forget hxq) (hq.forget x)
    simp [cancelRunning, hone, hrec, State.forgetAll]

def State.created (s : State) (tokenIds : List Nat) (maxTokens : Nat) (ignoreEos : Bool) : State :=
  { s.setSeq s.nextSeqId (Sequence.new tokenIds maxTokens ignoreEos) with
    nextSeqId := s.nextSeqId + 1 }

def State.enqueue (s : State) (tokenIds : List Nat) (maxTokens : Nat) (ignoreEos : Bool) : State :=
  ((s.created tokenIds maxTokens ignoreEos).withWaiting (s.waiting ++ [s.nextSeqId])).record
    (.admitted s.nextSeqId)

theorem requireCapacity_apply (cfg : Config) (n : Nat) (s : State) :
    requireCapacity cfg n s =
      if cfg.maxNumSeqs < s.waiting.length + s.running.length + n then
        .error (.schedulerCapacityError n
          (cfg.maxNumSeqs - (s.waiting.length + s.running.length)) cfg.maxNumSeqs) s
      else .ok ⟨⟩ s := by
  unfold requireCapacity
  rw [Call.bind_of_ok (Call.get_apply s)]
  by_cases hfull : cfg.maxNumSeqs < s.waiting.length + s.running.length + n
  · rw [if_pos hfull, if_pos hfull]
    rfl
  · rw [if_neg hfull, if_neg hfull]
    rfl

section Add

variable {tokenIds : List Nat} {maxTokens : Nat} {ignoreEos : Bool}

/-- `add` refuses an empty prompt untouched, drops the new object when the queues are
full, and otherwise queues it. -/
theorem add_cases (cfg : Config) (s : State) (tokenIds : List Nat) (maxTokens : Nat)
    (ignoreEos : Bool) :
    (tokenIds = [] ∧ ∃ e, add cfg tokenIds maxTokens ignoreEos s = .error e s) ∨
    (tokenIds ≠ [] ∧ cfg.maxNumSeqs < s.waiting.length + s.running.length + 1 ∧
      ∃ e, add cfg tokenIds maxTokens ignoreEos s =
        .error e (s.created tokenIds maxTokens ignoreEos)) ∨
    (tokenIds ≠ [] ∧ s.waiting.length + s.running.length + 1 ≤ cfg.maxNumSeqs ∧
      add cfg tokenIds maxTokens ignoreEos s =
        .ok s.nextSeqId (s.enqueue tokenIds maxTokens ignoreEos)) := by
  by_cases hnil : tokenIds = []
  · exact Or.inl ⟨hnil, _, by simp [add, hnil]; rfl⟩
  · right
    by_cases hfull : cfg.maxNumSeqs < s.waiting.length + s.running.length + 1
    · left
      refine ⟨hnil, hfull, .schedulerCapacityError 1
        (cfg.maxNumSeqs - (s.waiting.length + s.running.length)) cfg.maxNumSeqs, ?_⟩
      have hcheck := (requireCapacity_apply cfg 1 (s.created tokenIds maxTokens ignoreEos)).trans
        (if_pos hfull)
      unfold add
      rw [if_neg hnil]
      refine (Call.bind_of_ok (Call.get_apply s)).trans ?_
      refine (Call.bind_of_ok (Call.set_apply s _)).trans ?_
      exact Call.bind_of_error hcheck
    · right
      refine ⟨hnil, by omega, ?_⟩
      have hcheck := (requireCapacity_apply cfg 1 (s.created tokenIds maxTokens ignoreEos)).trans
        (if_neg hfull)
      unfold add
      rw [if_neg hnil]
      refine (Call.bind_of_ok (Call.get_apply s)).trans ?_
      refine (Call.bind_of_ok (Call.set_apply s _)).trans ?_
      exact Call.bind_of_ok hcheck

theorem Core.created (h : Core cfg [] s) :
    Core cfg [] (s.created tokenIds maxTokens ignoreEos) := by
  have hnot : s.nextSeqId ∉ [] ++ s.running ++ s.waiting := fun hmem =>
    absurd (h.known _ hmem) (lt_irrefl _)
  have hbare := h.updateBare (x := s.nextSeqId) (q := Sequence.new tokenIds maxTokens ignoreEos)
    (fun hmem => hnot (List.mem_append_left _ hmem)) (h.dead _ hnot) rfl
    (fun hmem => absurd (List.mem_append_right _ hmem) hnot)
  exact
    { own := hbare.own.congr_pool rfl rfl rfl rfl
      mid_owner := hbare.mid_owner
      mid_head := hbare.mid_head
      started := hbare.started
      chunked := hbare.chunked
      nonempty := hbare.nonempty
      known := fun y hy => Nat.lt_succ_of_lt (hbare.known y hy)
      dead := hbare.dead }

theorem Core.enqueue (h : Core cfg [] s) (hne : tokenIds ≠ []) :
    Core cfg [] (s.enqueue tokenIds maxTokens ignoreEos) := by
  have hc : Core cfg [] (s.created tokenIds maxTokens ignoreEos) := h.created
  set c := s.created tokenIds maxTokens ignoreEos with hcdef
  have hnot : s.nextSeqId ∉ [] ++ c.running ++ c.waiting := fun hmem =>
    absurd (h.known _ hmem) (lt_irrefl _)
  have htab : c.table s.nextSeqId = [] := by
    simp [hcdef, State.table, State.created, Sequence.new]
  have hlist : [] ++ (c.withWaiting (s.waiting ++ [s.nextSeqId])).running ++
      (c.withWaiting (s.waiting ++ [s.nextSeqId])).waiting =
        [] ++ c.running ++ c.waiting ++ [s.nextSeqId] := by
    change [] ++ s.running ++ (s.waiting ++ [s.nextSeqId]) =
      [] ++ s.running ++ s.waiting ++ [s.nextSeqId]
    simp
  have hperm : ([] ++ c.running ++ c.waiting ++ [s.nextSeqId]).Perm
      (s.nextSeqId :: ([] ++ c.running ++ c.waiting)) := List.perm_append_singleton _ _
  suffices h : Core cfg [] (c.withWaiting (s.waiting ++ [s.nextSeqId])) from h.record _
  refine ⟨?_, ?_, ?_, hc.started, ?_, ?_, ?_, ?_⟩
  · rw [hlist]
    exact ((hc.own.cons hnot htab).perm hperm).congr_pool rfl rfl rfl rfl
  · intro w hw hne'
    rcases List.mem_append.mp hw with hw | hw
    · exact hc.mid_owner w hw hne'
    · rw [List.mem_singleton.mp hw] at hne'
      exact absurd htab hne'
  · intro w hw
    obtain ⟨hhead, hne'⟩ := hc.mid_head w hw
    refine ⟨?_, hne'⟩
    change (s.waiting ++ [s.nextSeqId]).head? = some w
    rw [List.head?_append, show s.waiting.head? = some w from hhead]
    rfl
  · intro w hw hne'
    rcases List.mem_append.mp hw with hw | hw
    · exact hc.chunked w hw hne'
    · rw [List.mem_singleton.mp hw] at hne'
      exact absurd htab hne'
  · intro w hw
    rcases List.mem_append.mp hw with hw | hw
    · exact hc.nonempty w hw
    · rw [List.mem_singleton.mp hw]
      change 0 < ((s.created tokenIds maxTokens ignoreEos).seqs s.nextSeqId).numTokens
      simpa [State.created, Sequence.new, Sequence.numTokens] using List.length_pos_iff.mpr hne
  · intro y hy
    rw [hlist] at hy
    rcases List.mem_append.mp hy with hy | hy
    · exact hc.known y hy
    · rw [List.mem_singleton.mp hy]
      exact Nat.lt_succ_self s.nextSeqId
  · intro y hy
    rw [hlist] at hy
    exact hc.dead y fun hmem => hy (List.mem_append_left _ hmem)

end Add

end NanoVllm
