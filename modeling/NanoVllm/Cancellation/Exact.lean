/- module: NanoVllm/Cancellation/Exact
   layer: main result
   source: nanovllm/engine/scheduler.py, cancel and abort_speculative_step
   digest: What a cancellation changes, and the states in which it returns. -/

import NanoVllm.Cancellation.Before
import NanoVllm.Cancellation.Removal
import NanoVllm.Routing.Policy

set_option autoImplicit false
set_option relaxedAutoImplicit false

namespace NanoVllm

open Library

variable {cfg : Config} {s t u v w : State} {targets others ids : List Nat} {x y b : Nat}
  {before : Nat → List Nat}

private theorem abort_returns (h : Protocol cfg s) (ha : Attached cfg s)
    (hblank : s.unleased.BlankUnhashed) :
    (∃ aborted w, abortSpeculativeStep cfg s = .ok aborted w) ↔
      s.activeSpecTransaction = none ∨ s.OneSpare cfg := by
  cases htr : s.activeSpecTransaction with
  | none => exact iff_of_true ⟨_, _, abortSpeculativeStep_idle cfg htr⟩ (Or.inl rfl)
  | some tr =>
    rw [abort_returns_iff h ha htr hblank]
    simp

/-- Temporary lease aside, the row has the blocks that all its tokens need, and no other. -/
def State.ExactPages (s : State) (cfg : Config) (x : Nat) : Prop :=
  (s.unleased.table x).length = pagesFor cfg.kvcacheBlockSize (s.seqs x).numTokens

/-- The blocks that a row of the batch fills are its table before the schedule exactly when its
only other block is the one that the schedule granted. -/
private theorem filled_before_iff (h : Protocol cfg s) (ha : Attached cfg s) (hg : Granted cfg before s)
    (hopen : s.activeSpecTransaction ≠ none) (hx : x ∈ s.running) :
    s.filled cfg x = before x ↔ s.ExactPages cfg x := by
  obtain ⟨tr, htr⟩ := Option.ne_none_iff_exists'.mp hopen
  obtain ⟨hseq, -, hunchanged⟩ := ha.rows tr htr
  have hmem := hx
  rw [← hseq] at hmem
  obtain ⟨row, hrow, rfl⟩ := List.mem_map.mp hmem
  obtain ⟨-, hpre, hsched, htokens, hcached, hsucc, -⟩ :=
    rollbackRowUnchanged_iff.mp (hunchanged row hrow)
  obtain ⟨table, hsame⟩ := h.unleased_row row.sequence
  obtain ⟨more, htab, hmore⟩ := hg.grown row.sequence hx (by rw [hsame]; exact hpre)
    (by rw [hsame]; exact hsched)
  obtain ⟨lent, hlent⟩ := h.unleased_prefix row.sequence
  -- the cached tokens and the token of the chunk are all tokens
  have hall : (s.unleased.seqs row.sequence).numTokens = row.targetCachedTokens + 1 := by
    rw [hsame, hsucc, ← htokens]
    rfl
  have hpages : pagesFor cfg.kvcacheBlockSize row.targetCachedTokens +
      appendNeed cfg (row.targetCachedTokens + 1) =
        pagesFor cfg.kvcacheBlockSize (row.targetCachedTokens + 1) := pagesFor_append _
  rw [hall] at hmore
  have hwithin : pagesFor cfg.kvcacheBlockSize row.targetCachedTokens ≤
      (before row.sequence ++ more).length := by
    have hlen := h.unleased_core.filled_length (x := row.sequence)
      (by rwa [show s.unleased.running = s.running from congrArg Control.running h.unleased_control])
    have hc : (s.unleased.seqs row.sequence).numCachedTokens = row.targetCachedTokens := by
      rw [hsame, ← hcached]
    rw [State.filled, hc, List.length_take, htab] at hlen
    omega
  have hfilled : s.filled cfg row.sequence = (before row.sequence ++ more).take
      (pagesFor cfg.kvcacheBlockSize row.targetCachedTokens) := by
    rw [State.filled, hcached, hlent, htab, List.take_append_of_le_length hwithin]
  rw [hfilled, State.ExactPages, htab, htokens, ← hsucc, ← hpages]
  rw [List.length_append] at hwithin ⊢
  constructor
  · intro heq
    have hlen := congrArg List.length heq
    rw [List.length_take, List.length_append] at hlen
    omega
  · intro heq
    exact List.take_left' (by omega)

private theorem State.mem_queued : x ∈ s.queued targets ↔ x ∈ s.running ++ s.waiting ∧ x ∈ targets := by
  simp only [State.queued, List.mem_append, List.mem_filter, decide_eq_true_eq]
  tauto

private theorem Core.queued_nodup (h : Core cfg [] s) (targets : List Nat) :
    (s.queued targets).Nodup := by
  have hlive := h.own.live_nodup
  rw [List.nil_append, List.nodup_append] at hlive
  refine List.nodup_append.mpr ⟨hlive.2.1.filter _, hlive.1.filter _, ?_⟩
  intro x hx y hy hxy
  exact hlive.2.2 y (List.mem_filter.mp hy).1 x (List.mem_filter.mp hx).1 hxy.symm

private theorem SameQueues.queued (h : SameQueues s w) (targets : List Nat) :
    w.queued targets = s.queued targets := by
  rw [State.queued, State.queued, h.waiting, h.running]

/-- With a queued target, the abort decides; its result does not depend on the targets. -/
private theorem cancel_of_abort (h : Protocol cfg s) (ha : Attached cfg s)
    (hsome : s.queued targets ≠ []) :
    (∃ e u, abortSpeculativeStep cfg s = .error e u ∧ cancel cfg targets s = .error e u) ∨
    ∃ aborted w, abortSpeculativeStep cfg s = .ok aborted w ∧ Returned cfg s w ∧
      Protocol cfg (w.drop targets) ∧ Removes (s.queued targets) w (w.drop targets) ∧
      cancel cfg targets s = .ok (s.queued targets) (w.drop targets) := by
  rcases h.cancel_steps targets with ⟨hnone, -⟩ | ⟨-, hfail | ⟨aborted, w, hw, hdrop, hres⟩⟩
  · exact absurd hnone hsome
  · exact Or.inl hfail
  · have hret := Returned.of_ok h ha hw
    have hidle : w.dropPendingCoverage targets = w := by
      rw [State.dropPendingCoverage, hret.pending]
    rw [hidle] at hdrop hres
    have hremoves := Removes.drop (hret.protocol.idle
      (hret.protocol.closed hret.transaction)).2 targets
    rw [hret.queues.queued] at hremoves
    exact Or.inr ⟨aborted, w, hw, hret, hdrop, hremoves, hres⟩

private theorem cancel_nothing (h : Protocol cfg s) (hnone : s.queued targets = []) :
    cancel cfg targets s = .ok [] s := by
  rcases h.cancel_steps targets with ⟨-, hres⟩ | ⟨hsome, -⟩
  · exact hres
  · exact absurd hnone hsome

private theorem cancel_closed (h : Protocol cfg s) (ha : Attached cfg s)
    (htr : s.activeSpecTransaction = none) (targets : List Nat) :
    Protocol cfg (s.drop targets) ∧ Removes (s.queued targets) s (s.drop targets) ∧
      cancel cfg targets s = .ok (s.queued targets) (s.drop targets) := by
  by_cases hnone : s.queued targets = []
  · have hdrop : s.drop targets = s := by
      rw [s.drop_eq targets, hnone]
      rfl
    rw [hdrop, hnone]
    exact ⟨h, .nil s, cancel_nothing h hnone⟩
  · have hidle := abortSpeculativeStep_idle cfg htr
    rcases cancel_of_abort h ha hnone with ⟨e, u, hu, -⟩ | ⟨aborted, w, hw, -, hp, hrem, hres⟩
    · rw [hidle] at hu
      exact absurd hu (by simp)
    · rw [hidle] at hw
      obtain ⟨-, rfl⟩ := EStateM.Result.ok.inj hw
      exact ⟨hp, hrem, hres⟩

/-- Both calls returned the same requests and left the same state, or both raised alike. The
first one follows a call that returned `ids`. -/
def SameCancel (ids : List Nat) :
    EStateM.Result Raised State (List Nat) → EStateM.Result Raised State (List Nat) → Prop
  | .ok second u, .ok all v => all.Perm (ids ++ second) ∧ SameButFreeOrder u v
  | .error e u, .error e' v => e = e' ∧ u = v
  | _, _ => False

/-- `cancel targets` from `s` returned `ids` and left `t`, and touched its targets only. Rows
of an aborted batch have their tables `before` the schedule again. -/
structure CancelsOnly (cfg : Config) (before : Nat → List Nat) (s : State)
    (targets ids : List Nat) (t : State) : Prop where
  ids_nodup : ids.Nodup
  ids_mem : ∀ x, x ∈ ids ↔ x ∈ s.running ++ s.waiting ∧ x ∈ targets
  running : t.running = s.running.filter (· ∉ targets)
  waiting : t.waiting = s.waiting.filter (· ∉ targets)
  marked : ∀ x ∈ ids, ∃ cached, t.seqs x = { s.seqs x with
    status := .cancelled
    numCachedTokens := cached
    numDraftCachedTokens := 0
    numScheduledTokens := 0
    blockTable := [] }
  batch : ids ≠ [] → s.activeSpecTransaction ≠ none → ∀ x ∈ s.running, x ∉ ids →
    t.seqs x = { s.seqs x with
      blockTable := before x
      numScheduledTokens := 0 }
  others : ∀ x, x ∉ ids → ids = [] ∨ s.activeSpecTransaction = none ∨ x ∉ s.running →
    t.seqs x = s.seqs x
  refCount : ∀ b, (t.blocks b).refCount =
    ((t.running ++ t.waiting).map fun x => (t.seqs x).blockTable.count b).sum
  used : ∀ b, b ∈ t.usedBlockIds ↔ ∃ x ∈ t.running ++ t.waiting, b ∈ (t.seqs x).blockTable
  free : ∀ b, b ∈ t.freeBlockIds ↔ b < cfg.numKvcacheBlocks ∧ b ∉ t.usedBlockIds
  ended : ids ≠ [] → t.activeSpecTransaction = none ∧ t.activeDraftDiscard = none ∧
    t.activeReservation = none ∧ t.pendingDraftCoveragePlan = none
  owned : Owned cfg t
  table_nodup : ∀ x ∈ t.running ++ t.waiting, (s.seqs x).blockTable.Nodup →
    (t.seqs x).blockTable.Nodup
  mid : checkMidChunkInvariant t = .ok ⟨⟩ t
  again : cancel cfg targets t = .ok [] t
  union : ∀ more, SameCancel ids (cancel cfg more t) (cancel cfg (targets ++ more) s)

section Owes

private theorem cancel_skip (h : Protocol cfg s) (ha : Attached cfg s) (hnone : s.queued targets = [])
    (more : List Nat) : cancel cfg (targets ++ more) s = cancel cfg more s := by
  have hmem : ∀ x ∈ s.running ++ s.waiting, x ∉ targets := by
    intro x hx ht
    have hq : x ∈ s.queued targets := State.mem_queued.mpr ⟨hx, ht⟩
    rw [hnone] at hq
    exact absurd hq (by simp)
  have hqueued : s.queued (targets ++ more) = s.queued more := by
    unfold State.queued
    congr 1 <;>
      · refine List.filter_congr fun x hx => ?_
        have hnot := hmem x (by simp [hx])
        simp [hnot]
  by_cases hmore : s.queued more = []
  · rw [cancel_nothing h hmore, cancel_nothing h (hqueued.trans hmore)]
  rcases cancel_of_abort h ha hmore with ⟨e, u, hu, hres⟩ | ⟨aborted, w, hw, hret, -, -, hres⟩
  · rcases cancel_of_abort h ha (hqueued ▸ hmore) with
      ⟨e', u', hu', hres'⟩ | ⟨aborted', w', hw', -⟩
    · rw [hu] at hu'
      obtain ⟨rfl, rfl⟩ := EStateM.Result.error.inj hu'
      rw [hres, hres']
    · rw [hu] at hw'
      exact absurd hw' (by simp)
  · rcases cancel_of_abort h ha (hqueued ▸ hmore) with
      ⟨e', u', hu', -⟩ | ⟨aborted', w', hw', -, -, -, hres'⟩
    · rw [hw] at hu'
      exact absurd hu' (by simp)
    · rw [hw] at hw'
      obtain ⟨-, rfl⟩ := EStateM.Result.ok.inj hw'
      rw [hres, hres', w.drop_eq more, w.drop_eq (targets ++ more), hret.queues.queued,
        hret.queues.queued, hqueued]

private theorem SameCancel.refl (r : EStateM.Result Raised State (List Nat)) : SameCancel [] r r := by
  cases r with
  | ok ids u => exact ⟨by simp, .refl u⟩
  | error e u => exact ⟨rfl, rfl⟩

private theorem Core.used_iff (h : Core cfg [] s) (b : Nat) :
    b ∈ s.usedBlockIds ↔ ∃ x ∈ s.running ++ s.waiting, b ∈ (s.seqs x).blockTable := by
  have hown := h.own
  rw [List.nil_append] at hown
  rw [hown.mem_used, hown.ref_eq, references_pos]
  rfl

private theorem CancelsOnly.of_nothing (h : Protocol cfg s) (ha : Attached cfg s)
    (hnone : s.queued targets = []) : CancelsOnly cfg before s targets [] s := by
  have hcore := h.core
  have hkeep : ∀ x ∈ s.running ++ s.waiting, x ∉ targets := by
    intro x hx ht
    have hq : x ∈ s.queued targets := State.mem_queued.mpr ⟨hx, ht⟩
    rw [hnone] at hq
    exact absurd hq (by simp)
  refine
    { ids_nodup := List.nodup_nil
      ids_mem := fun x => iff_of_false (by simp) fun hx => hkeep x hx.1 hx.2
      running := ?_
      waiting := ?_
      marked := by simp
      batch := fun hne => absurd rfl hne
      others := fun _ _ _ => rfl
      refCount := ?_
      used := hcore.used_iff
      free := hcore.own.mem_free
      ended := fun hne => absurd rfl hne
      owned := h.core.owned
      table_nodup := fun _ _ hnodup => hnodup
      mid := checkMidChunkInvariant_core hcore
      again := cancel_nothing h hnone
      union := ?_ }
  · exact (List.filter_eq_self.mpr fun x hx => by simpa using hkeep x (by simp [hx])).symm
  · exact (List.filter_eq_self.mpr fun x hx => by simpa using hkeep x (by simp [hx])).symm
  · exact hcore.own.ref_eq
  · intro more
    rw [cancel_skip h ha hnone more]
    exact .refl _

section Dropped

variable (hret : Returned cfg s w) (hp : Protocol cfg (w.drop targets))
  (hrem : Removes (s.queued targets) w (w.drop targets))

include hret hrem

private theorem drop_running : (w.drop targets).running = s.running.filter (· ∉ targets) := by
  rw [hrem.running, hret.queues.running]
  refine List.filter_congr fun x hx => ?_
  have hiff : x ∈ s.queued targets ↔ x ∈ targets := by
    rw [State.mem_queued]
    exact and_iff_right (by simp [hx])
  rw [decide_eq_decide]
  exact not_congr hiff

private theorem drop_waiting : (w.drop targets).waiting = s.waiting.filter (· ∉ targets) := by
  rw [hrem.waiting, hret.queues.waiting]
  refine List.filter_congr fun x hx => ?_
  have hiff : x ∈ s.queued targets ↔ x ∈ targets := by
    rw [State.mem_queued]
    exact and_iff_right (by simp [hx])
  rw [decide_eq_decide]
  exact not_congr hiff

private theorem drop_closed : (w.drop targets).activeSpecTransaction = none ∧
    (w.drop targets).pendingDraftCoveragePlan = none :=
  ⟨(congrArg Control.activeSpecTransaction hrem.control).trans hret.transaction,
    (congrArg Control.pendingDraftCoveragePlan hrem.control).trans hret.pending⟩

private theorem drop_row (hx : x ∈ s.queued targets) : ∃ cached,
    (w.drop targets).seqs x = { s.seqs x with
      status := .cancelled
      numCachedTokens := cached
      numDraftCachedTokens := 0
      numScheduledTokens := 0
      blockTable := [] } := by
  rw [hrem.seqs_in hx]
  by_cases hbatch : s.activeSpecTransaction ≠ none ∧ x ∈ s.running
  · rw [hret.batch hbatch.1 x hbatch.2]
    exact ⟨_, rfl⟩
  · rw [hret.others x (by
      by_contra hno
      obtain ⟨htr, hrun⟩ := not_or.mp hno
      exact hbatch ⟨htr, not_not.mp hrun⟩)]
    exact ⟨_, rfl⟩

private theorem drop_queued (more : List Nat) (hx : x ∈ (w.drop targets).queued more) :
    x ∉ s.queued targets := by
  intro hq
  have hlive := (State.mem_queued.mp hx).1
  rw [drop_running hret hrem, drop_waiting hret hrem, ← List.filter_append] at hlive
  exact absurd (State.mem_queued.mp hq).2 (by simpa using (List.mem_filter.mp hlive).2)

private theorem drop_queued_iff (more : List Nat) (x : Nat) : x ∈ s.queued (targets ++ more) ↔
    x ∈ s.queued targets ++ (w.drop targets).queued more := by
  rw [List.mem_append, State.mem_queued, State.mem_queued, State.mem_queued,
    drop_running hret hrem, drop_waiting hret hrem, ← List.filter_append, List.mem_filter,
    decide_eq_true_eq, List.mem_append (s := targets)]
  tauto

include hp

private theorem drop_union (h : Protocol cfg s) (ha : Attached cfg s) {aborted : Bool}
    (hw : abortSpeculativeStep cfg s = .ok aborted w) (hsome : s.queued targets ≠ [])
    (hat : Attached cfg (w.drop targets)) (more : List Nat) :
    SameCancel (s.queued targets) (cancel cfg more (w.drop targets))
      (cancel cfg (targets ++ more) s) := by
  obtain ⟨hp₂, hrem₂, hres₂⟩ := cancel_closed hp hat (drop_closed hret hrem).1 more
  have hall : s.queued (targets ++ more) ≠ [] := by
    intro hnil
    obtain ⟨x, hx⟩ := List.exists_mem_of_ne_nil _ hsome
    have hmem := (drop_queued_iff hret hrem more x).mpr (List.mem_append_left _ hx)
    rw [hnil] at hmem
    exact absurd hmem (by simp)
  rcases cancel_of_abort h ha hall with ⟨e, u, hu, -⟩ | ⟨aborted', w', hw', -, hp₁, hrem₁, hres₁⟩
  · rw [hw] at hu
    exact absurd hu (by simp)
  rw [hw] at hw'
  obtain ⟨-, rfl⟩ := EStateM.Result.ok.inj hw'
  rw [hres₁, hres₂]
  have hiff := drop_queued_iff hret hrem more
  refine ⟨?_, ?_⟩
  · refine (List.perm_ext_iff_of_nodup (h.core.queued_nodup _) ?_).mpr hiff
    refine List.nodup_append.mpr ⟨h.core.queued_nodup _, hp.core.queued_nodup _, ?_⟩
    rintro x hx y hy rfl
    exact drop_queued hret hrem more hy hx
  · have htwice := hrem.trans hrem₂
    exact (htwice.congr fun x => (hiff x).symm).agree hrem₁ hp₂.core hp₁.core

end Dropped

/-- A row of the aborted batch that is no target keeps the blocks that its cached tokens
fill. -/
private theorem cancel_kept_row (h : Protocol cfg s) (ha : Attached cfg s)
    (hres : cancel cfg targets s = .ok ids t) (hids : ids ≠ [])
    (hopen : s.activeSpecTransaction ≠ none) (hx : x ∈ s.running) (hout : x ∉ ids) :
    t.seqs x = { s.seqs x with
      blockTable := s.filled cfg x
      numScheduledTokens := 0 } := by
  have hsome : s.queued targets ≠ [] := by
    intro hnone
    rw [cancel_nothing h hnone] at hres
    exact hids (EStateM.Result.ok.inj hres).1.symm
  rcases cancel_of_abort h ha hsome with ⟨e, u, -, hfail⟩ | ⟨aborted, w, -, hret, -, hrem, hok⟩
  · rw [hfail] at hres
    exact absurd hres (by simp)
  · rw [hok] at hres
    obtain ⟨rfl, rfl⟩ := EStateM.Result.ok.inj hres
    rw [hrem.seqs_out hout, hret.batch hopen x hx]

private theorem CancelsOnly.of_ok (h : Protocol cfg s) (ha : Attached cfg s)
    (hres : cancel cfg targets s = .ok ids t)
    (hbefore : s.activeSpecTransaction ≠ none → ∀ x ∈ s.running, x ∉ ids →
      s.filled cfg x = before x) : CancelsOnly cfg before s targets ids t := by
  by_cases hnone : s.queued targets = []
  · rw [cancel_nothing h hnone] at hres
    obtain ⟨rfl, rfl⟩ := EStateM.Result.ok.inj hres
    exact .of_nothing h ha hnone
  rcases cancel_of_abort h ha hnone with
    ⟨e, u, -, hfail⟩ | ⟨aborted, w, hw, hret, hp, hrem, hok⟩
  · rw [hfail] at hres
    exact absurd hres (by simp)
  have hkept := fun x => cancel_kept_row (x := x) h ha hok hnone
  have hat := ha.leaves_cancel h targets
  unfold Call.Leaves at hat
  rw [hok] at hres hat
  obtain ⟨rfl, rfl⟩ := EStateM.Result.ok.inj hres
  obtain ⟨htr, hpend⟩ := drop_closed hret hrem
  have hd := hp.closed htr
  have hcore := (hp.idle hd).2
  refine
    { ids_nodup := h.core.queued_nodup targets
      ids_mem := fun x => State.mem_queued
      running := drop_running hret hrem
      waiting := drop_waiting hret hrem
      marked := fun x hx => drop_row hret hrem hx
      batch := ?_
      others := ?_
      refCount := ?_
      used := hcore.used_iff
      free := hcore.own.mem_free
      ended := fun _ => ⟨htr, hd, (hp.idle hd).1, hpend⟩
      owned := hcore.owned
      table_nodup := ?_
      mid := checkMidChunkInvariant_core hcore
      again := ?_
      union := drop_union hret hp hrem h ha hw hnone hat }
  · intro _ hopen x hx hout
    rw [hkept x hopen hx hout, hbefore hopen x hx hout]
  · rintro x hout (hnil | hrest)
    · exact absurd hnil hnone
    · rw [hrem.seqs_out hout, hret.others x hrest]
  · exact hcore.own.ref_eq
  · intro x hx hnodup
    have hlive : x ∈ s.running ++ s.waiting ∧ x ∉ s.queued targets := by
      rw [hrem.running, hrem.waiting, ← List.filter_append, hret.queues.running,
        hret.queues.waiting] at hx
      exact ⟨(List.mem_filter.mp hx).1, by simpa using (List.mem_filter.mp hx).2⟩
    have hrow := hrem.seqs_out hlive.2
    rw [hrow]
    exact hnodup.sublist (hret.sublist x)
  · refine cancel_nothing hp ?_
    refine List.eq_nil_iff_forall_not_mem.mpr fun x hx => ?_
    have hmem := (drop_queued_iff hret hrem targets x).mpr (List.mem_append_right _ hx)
    refine drop_queued hret hrem targets hx (State.mem_queued.mpr ?_)
    rw [State.mem_queued] at hmem
    simpa using hmem

/-- In every run, a cancellation returns and touches its targets only exactly when it meets
no queued target, no open transaction, or a batch with one block to take back from each row,
where no row that stays keeps a block from an earlier failed step. -/
theorem cancels_only_iff (turns : List Turn) (targets : List Nat) :
    (∃ ids t, cancel cfg targets (runTurns cfg turns) = .ok ids t ∧
      CancelsOnly cfg (tablesBefore cfg turns) (runTurns cfg turns) targets ids t) ↔
    (∀ x ∈ targets, x ∉ (runTurns cfg turns).running ++ (runTurns cfg turns).waiting) ∨
      (runTurns cfg turns).activeSpecTransaction = none ∨
      ((runTurns cfg turns).OneSpare cfg ∧
        ∀ x ∈ (runTurns cfg turns).running, x ∉ targets →
          (runTurns cfg turns).ExactPages cfg x) := by
  obtain ⟨h, ha⟩ := (Attached.companion cfg).stable.runTurns turns
  have hblank := (State.BlankUnhashed.lasting cfg).companion.runTurns turns
  have hg := Granted.runTurns cfg turns
  obtain ⟨s, hs⟩ : ∃ s, s = runTurns cfg turns := ⟨_, rfl⟩
  rw [← hs] at h ha hblank hg ⊢
  have hqueued : (∀ x ∈ targets, x ∉ s.running ++ s.waiting) ↔ s.queued targets = [] := by
    rw [List.eq_nil_iff_forall_not_mem]
    refine forall_congr' fun x => ?_
    rw [State.mem_queued]
    tauto
  rw [hqueued]
  constructor
  · rintro ⟨ids, t, hres, honly⟩
    by_cases hnone : s.queued targets = []
    · exact Or.inl hnone
    rcases cancel_of_abort h ha hnone with ⟨e, u, -, hfail⟩ | ⟨aborted, w, hw, -, -, -, hok⟩
    · rw [hfail] at hres
      exact absurd hres (by simp)
    rw [hok] at hres
    obtain ⟨rfl, rfl⟩ := EStateM.Result.ok.inj hres
    by_cases hopen : s.activeSpecTransaction = none
    · exact Or.inr (Or.inl hopen)
    have hone := ((abort_returns h ha hblank).mp ⟨aborted, w, hw⟩).resolve_left hopen
    refine Or.inr (Or.inr ⟨hone, fun x hx hout => ?_⟩)
    have hids : x ∉ s.queued targets := fun hq => hout (State.mem_queued.mp hq).2
    have hkept := cancel_kept_row h ha hok hnone hopen hx hids
    rw [honly.batch hnone hopen x hx hids] at hkept
    rw [← filled_before_iff h ha hg hopen hx]
    exact (congrArg Sequence.blockTable hkept).symm
  · intro hcond
    have hreturns : ∃ ids t, cancel cfg targets s = .ok ids t := by
      by_cases hnone : s.queued targets = []
      · exact ⟨_, _, cancel_nothing h hnone⟩
      obtain ⟨aborted, w, hw⟩ := (abort_returns h ha hblank).mpr
        ((hcond.resolve_left hnone).imp_right And.left)
      rcases cancel_of_abort h ha hnone with ⟨e, u, hu, -⟩ | ⟨aborted', w', -, -, -, -, hres⟩
      · rw [hw] at hu
        exact absurd hu (by simp)
      · exact ⟨_, _, hres⟩
    obtain ⟨ids, t, hres⟩ := hreturns
    by_cases hnone : s.queued targets = []
    · rw [cancel_nothing h hnone] at hres
      obtain ⟨rfl, rfl⟩ := EStateM.Result.ok.inj hres
      exact ⟨[], s, cancel_nothing h hnone, .of_nothing h ha hnone⟩
    refine ⟨ids, t, hres, .of_ok h ha hres fun hopen x hx hout => ?_⟩
    obtain ⟨-, hexact⟩ := (hcond.resolve_left hnone).resolve_left hopen
    refine (filled_before_iff h ha hg hopen hx).mpr (hexact x hx fun ht => hout ?_)
    rcases cancel_of_abort h ha hnone with ⟨e, u, -, hfail⟩ | ⟨aborted, w, -, -, -, -, hok⟩
    · rw [hfail] at hres
      exact absurd hres (by simp)
    · rw [hok] at hres
      obtain ⟨rfl, -⟩ := EStateM.Result.ok.inj hres
      exact State.mem_queued.mpr ⟨List.mem_append_left _ hx, ht⟩

/-- The mixed step of requests 0 and 1 fails and is not undone; the decode step that follows
appends a second block to request 0 and opens a transaction. -/
def retriedTurns : List Turn :=
  [.call (.add [3, 4] 4 true), .step (.sample (.ok [5])), .call (.add [6] 4 true),
    .step (.sample (.error (.external "runner"))), .call (.cancel [1]), .call .schedule,
    .call (.plan (SpeculativeMemoryPlan.sample.workspace .sample "fast") [0]
      (some { DraftRouteAdmission.sample with catchupTokens := 2 }) none)]

def raisedWith {α : Type} (message : String) : EStateM.Result Raised State α → Bool
  | .error (.runtimeError m) _ => m == message
  | _ => false

theorem cancel_raises_after_retry :
    0 ∈ (runTurns Config.sample retriedTurns).running ∧
    ¬ ∃ ids t, cancel Config.sample [0] (runTurns Config.sample retriedTurns) = .ok ids t ∧
      CancelsOnly Config.sample (tablesBefore Config.sample retriedTurns)
        (runTurns Config.sample retriedTurns) [0] ids t := by
  have hraise : raisedWith
      "uncommitted append rollback requires exactly one suffix block per changed row"
      (cancel Config.sample [0] (runTurns Config.sample retriedTurns)) = true := by
    decide +kernel
  refine ⟨by decide +kernel, ?_⟩
  rintro ⟨ids, t, hres, -⟩
  rw [hres] at hraise
  exact absurd hraise (by simp [raisedWith])

end Owes

end NanoVllm
