/- module: NanoVllm/Cancellation/Abort
   layer: refinement
   source: nanovllm/engine/scheduler.py, abort_speculative_step
   digest: When an abort returns, and what it takes back from the running rows. -/

import NanoVllm.Cancellation.Attached
import NanoVllm.Content.Hashes

set_option autoImplicit false
set_option relaxedAutoImplicit false

namespace NanoVllm

open Library

variable {cfg : Config} {s t v w : State} {x y b : Nat}

def State.spare (v : State) (cfg : Config) (x : Nat) : List Nat :=
  (v.table x).drop (pagesFor cfg.kvcacheBlockSize (v.seqs x).numCachedTokens)

def State.filled (v : State) (cfg : Config) (x : Nat) : List Nat :=
  (v.table x).take (pagesFor cfg.kvcacheBlockSize (v.seqs x).numCachedTokens)

private theorem State.filled_append (v : State) (cfg : Config) (x : Nat) :
    v.table x = v.filled cfg x ++ v.spare cfg x :=
  (List.take_append_drop _ _).symm

theorem Core.filled_length (h : Core cfg [] v) (hx : x ∈ v.running) :
    (v.filled cfg x).length = pagesFor cfg.kvcacheBlockSize (v.seqs x).numCachedTokens := by
  rw [State.filled, List.length_take, Nat.min_eq_left]
  rw [pagesFor_le_iff cfg.blockSize_pos]
  exact (Nat.le_add_right _ _).trans (h.started x (by simpa using hx)).within

/-- A spare block has one owner, one place in its table, no digest, and is in use. -/
structure Spare (cfg : Config) (v : State) (x b : Nat) : Prop where
  refCount : (v.blocks b).refCount = 1
  hash : (v.blocks b).hash = none
  bounded : b < cfg.numKvcacheBlocks
  used : b ∈ v.usedBlockIds
  notFree : b ∉ v.freeBlockIds
  place : ∀ y ∈ v.running ++ v.waiting, b ∈ v.table y → y = x
  notFilled : b ∉ v.filled cfg x

private theorem Core.spare (h : Core cfg [] v) (hx : x ∈ v.running) (hb : b ∈ v.spare cfg x) :
    Spare cfg v x b := by
  have hlive : x ∈ v.running ++ v.waiting := List.mem_append_left _ hx
  obtain ⟨i, hi⟩ := List.mem_iff_getElem?.mp hb
  rw [State.spare, List.getElem?_drop] at hi
  have hcov : v.coverage cfg x ≤
      pagesFor cfg.kvcacheBlockSize (v.seqs x).numCachedTokens + i :=
    (div_le_pagesFor cfg.blockSize_pos _).trans (Nat.le_add_right _ _)
  obtain ⟨href, hhash⟩ := h.owns.high x hlive _ b hi hcov
  have hmem := List.mem_of_getElem? hi
  have hused := h.owns.mem_used_of_mem_table hlive hmem
  refine ⟨href, hhash, h.owns.lt_of_mem_table hlive hmem, hused, ?_, ?_, ?_⟩
  · exact fun hfree => ((h.owns.mem_free b).mp hfree).2 hused
  · intro y hy hby
    obtain ⟨k, hk⟩ := List.mem_iff_getElem?.mp hby
    exact (uncovered_place h.owns hlive hcov hi hy hk).1
  · intro hfilled
    obtain ⟨k, hk⟩ := List.mem_iff_getElem?.mp hfilled
    rw [State.filled, List.getElem?_take] at hk
    split at hk <;> rename_i hlt
    · have := (uncovered_place h.owns hlive hcov hi hlive hk).2
      omega
    · exact absurd hk (by simp)

def State.spares (v : State) (cfg : Config) (xs : List Nat) : List (Nat × List Nat) :=
  xs.map fun x => (x, v.spare cfg x)

private theorem State.spares_fst (v : State) (cfg : Config) (xs : List Nat) :
    (v.spares cfg xs).map Prod.fst = xs := by
  rw [State.spares, List.map_map]
  exact List.map_id xs

section Undo

variable (h : Core cfg [] v) (hblank : v.BlankUnhashed) {xs : List Nat}
  (hrun : ∀ x ∈ xs, x ∈ v.running) (hone : ∀ x ∈ xs, (v.spare cfg x).length ≤ 1)

include h hrun hone

private theorem spares_nodup (hnd : xs.Nodup) : (lentBlocks (v.spares cfg xs)).Nodup := by
  induction xs with
  | nil => exact List.nodup_nil
  | cons x xs ih =>
    obtain ⟨hx, hnd'⟩ := List.nodup_cons.mp hnd
    have hrest := ih (fun y hy => hrun y (List.mem_cons_of_mem x hy))
      (fun y hy => hone y (List.mem_cons_of_mem x hy)) hnd'
    rw [State.spares, List.map_cons, lentBlocks_cons]
    refine List.nodup_append.mpr ⟨?_, hrest, ?_⟩
    · have hlen := hone x (by simp)
      rcases hsp : v.spare cfg x with _ | ⟨b, more⟩
      · exact List.nodup_nil
      · rw [hsp, List.length_cons] at hlen
        obtain rfl : more = [] := List.length_eq_zero_iff.mp (by omega)
        exact List.nodup_singleton b
    · rintro b hb c hc rfl
      obtain ⟨e, he, hbe⟩ := List.mem_flatMap.mp hc
      obtain ⟨y, hy, rfl⟩ := List.mem_map.mp he
      have hplace := (h.spare (hrun x (by simp)) hb).place y
        (List.mem_append_left _ (hrun y (List.mem_cons_of_mem x hy))) (List.mem_of_mem_drop hbe)
      exact hx (hplace ▸ hy)

include hblank

private theorem spares_takeable {e : Nat × List Nat} (he : e ∈ v.spares cfg xs) :
    Takeable cfg v e (pagesFor cfg.kvcacheBlockSize (v.seqs e.1).numCachedTokens) := by
  obtain ⟨x, hx, rfl⟩ := List.mem_map.mp he
  have hspare := fun b hb => h.spare (b := b) (hrun x hx) hb
  refine ⟨hone x hx, ⟨v.filled cfg x, v.filled_append cfg x, h.filled_length (hrun x hx),
    fun b hb => (hspare b hb).notFilled⟩, fun b hb => (hspare b hb).bounded,
    fun b hb => ⟨(hspare b hb).used, (hspare b hb).notFree⟩, fun b hb => ?_⟩
  obtain ⟨hhash, htokens, hupdates⟩ := hblank b (hspare b hb).hash
  have href := (hspare b hb).refCount
  cases hblock : v.blocks b
  rw [hblock] at href hhash htokens hupdates
  simp only at href hhash htokens hupdates
  rw [href, hhash, htokens, hupdates]
  rfl

private theorem spares_validate (hnd : xs.Nodup) : validateUncommittedRows cfg v
    (xs.map fun x => (x, pagesFor cfg.kvcacheBlockSize (v.seqs x).numCachedTokens)) [] [] =
      .ok (tails (v.spares cfg xs)) := by
  have hwanted : (xs.map fun x => (x, pagesFor cfg.kvcacheBlockSize (v.seqs x).numCachedTokens)) =
      (v.spares cfg xs).map fun e =>
        (e.1, pagesFor cfg.kvcacheBlockSize (v.seqs e.1).numCachedTokens) := by
    rw [State.spares, List.map_map]
    rfl
  rw [hwanted]
  apply validateUncommittedRows_take
    (fun x => pagesFor cfg.kvcacheBlockSize (v.seqs x).numCachedTokens)
  · exact fun e he => spares_takeable h hblank hrun hone he
  · rw [State.spares_fst]
    exact hnd
  · simp
  · exact spares_nodup h hrun hone hnd
  · simp

omit hblank in
private theorem spares_apart : ((tails (v.spares cfg xs)).any fun e =>
    (if e.2.isSome then (v.seqs e.1).blockTable.dropLast else (v.seqs e.1).blockTable).any
      (· ∈ (tails (v.spares cfg xs)).filterMap Prod.snd)) = false := by
  have hshort : ∀ e ∈ v.spares cfg xs, e.2.length ≤ 1 := by
    intro e he
    obtain ⟨x, hx, rfl⟩ := List.mem_map.mp he
    exact hone x hx
  rw [List.any_eq_false]
  intro w hw
  obtain ⟨e, he, rfl⟩ := List.mem_map.mp hw
  obtain ⟨x, hx, rfl⟩ := List.mem_map.mp he
  have htab : (v.seqs x).blockTable = v.filled cfg x ++ v.spare cfg x := v.filled_append cfg x
  have hfront : (if (v.spare cfg x).head?.isSome then (v.seqs x).blockTable.dropLast
      else (v.seqs x).blockTable) = v.filled cfg x := by
    have hlen := hone x hx
    rw [htab]
    cases hids : v.spare cfg x with
    | nil => simp
    | cons b more =>
      rw [hids] at hlen
      have hmore : more = [] := List.length_eq_zero_iff.mp (by simpa using hlen)
      simp [hmore]
  dsimp only
  rw [hfront, tails_snd hshort]
  simp only [List.any_eq_true, decide_eq_true_eq, not_exists, not_and]
  intro b hb hlent
  obtain ⟨f, hf, hbf⟩ := List.mem_flatMap.mp hlent
  obtain ⟨y, hy, rfl⟩ := List.mem_map.mp hf
  have hspare := h.spare (hrun y hy) hbf
  have hin : b ∈ v.table x := by
    rw [v.filled_append cfg x]
    exact List.mem_append_left _ hb
  obtain rfl := hspare.place x (List.mem_append_left _ (hrun x hx)) hin
  exact hspare.notFilled hb

end Undo

/-- The undo of an open transaction returns when no row has two blocks to give back. -/
private theorem Attached.undo_returns (h : Protocol cfg v) (ha : Attached cfg v)
    {tr : ActiveSpecTransaction} (htr : v.activeSpecTransaction = some tr)
    (hd : v.activeDraftDiscard = none) (hp : v.pendingDraftCoveragePlan = none)
    (hblank : v.BlankUnhashed) (hone : ∀ x ∈ v.running, (v.spare cfg x).length ≤ 1) :
    ∃ changed w, rollbackFailedDecodeSchedule cfg tr.baselineDecodeRollback v =
      .ok changed w := by
  obtain ⟨hnone, hcore⟩ := h.idle hd
  obtain ⟨hseq, -, hunchanged⟩ := ha.rows tr htr
  have hnd : v.running.Nodup := by
    have hlive := hcore.own.live_nodup
    rw [List.nil_append] at hlive
    exact (List.nodup_append.mp hlive).1
  have hwanted : (tr.baselineDecodeRollback.map fun row =>
      (row.sequence, row.expectedBlockCount)) =
      v.running.map fun x =>
        (x, pagesFor cfg.kvcacheBlockSize (v.seqs x).numCachedTokens) := by
    rw [← hseq, List.map_map]
    refine List.map_congr_left fun row hrow => ?_
    obtain ⟨-, -, -, -, hcached, -⟩ := rollbackRowUnchanged_iff.mp (hunchanged row hrow)
    rw [(h.linked tr htr).1 row hrow, ← hcached]
    rfl
  have hfind : tr.baselineDecodeRollback.find? (fun row => !rollbackRowUnchanged v row) = none := by
    rw [List.find?_eq_none]
    intro row hrow
    simp [hunchanged row hrow]
  have hfence : assertAllocatorMutationAllowed "rollback uncommitted appends" false v =
      .ok ⟨⟩ v := by
    simp [assertAllocatorMutationAllowed, hnone, h.progress]
  have hcall : ∃ changed w, rollbackUncommittedAppends cfg
      (tr.baselineDecodeRollback.map fun row => (row.sequence, row.expectedBlockCount)) v =
        .ok changed w := by
    unfold rollbackUncommittedAppends
    rw [Call.bind_of_ok hfence, Call.bind_of_ok (Call.get_apply v), hwanted,
      spares_validate hcore hblank (fun _ hx => hx) hone hnd,
      Call.bind_of_ok (liftExcept_ok _ v)]
    dsimp only
    rw [if_neg (by rw [spares_apart hcore (fun _ hx => hx) hone]; simp)]
    exact ⟨_, _, rfl⟩
  obtain ⟨changed, w, hcall⟩ := hcall
  unfold rollbackFailedDecodeSchedule
  rw [Call.bind_of_ok (Call.get_apply v), if_neg (by simp [hd]), if_neg (by simp [hp]), hfind]
  refine ⟨changed,
    w.clearScheduled (tr.baselineDecodeRollback.map DecodeScheduleRollbackRow.sequence), ?_⟩
  change (rollbackUncommittedAppends cfg _ >>= _) v = _
  rw [Call.bind_of_ok hcall]
  rfl

theorem Protocol.unleased_prefix (h : Protocol cfg s) (x : Nat) :
    ∃ more, s.table x = s.unleased.table x ++ more := by
  rcases h.lease with ⟨hd, -, -⟩ | ⟨base, rows, plan, r, hd, hleased, -, -⟩
  · rw [State.unleased_idle hd]
    exact ⟨[], by simp⟩
  · rw [hleased.unleased hd]
    exact ⟨lentTo rows x, by rw [State.table, hleased.seqs_eq]; rfl⟩

private theorem Protocol.unleased_out (h : Protocol cfg s) (hx : x ∉ s.running) :
    s.unleased.seqs x = s.seqs x := by
  rcases h.lease with ⟨hd, -, -⟩ | ⟨base, rows, plan, r, hd, hleased, -, hrows⟩
  · rw [State.unleased_idle hd]
  · rw [hleased.unleased hd, hleased.seqs_eq]
    have hnot : x ∉ rows.map Prod.fst := by
      intro hmem
      obtain ⟨e, he, rfl⟩ := List.mem_map.mp hmem
      refine hx ?_
      rw [← show base.running = s.running from congrArg Control.running hleased.control]
      exact hrows e he
    have hself : (base.lend rows).seqs x = { base.seqs x with
        blockTable := base.table x ++ lentTo rows x } := rfl
    rw [hself, lentTo_eq_nil hnot, List.append_nil]
    rfl

/-- Temporary lease aside, each running row holds at most one block more than its cached
tokens fill. -/
def State.OneSpare (s : State) (cfg : Config) : Prop :=
  ∀ x ∈ s.running, (s.unleased.table x).length ≤
    pagesFor cfg.kvcacheBlockSize (s.seqs x).numCachedTokens + 1

structure Aborts (cfg : Config) (s w : State) : Prop where
  protocol : Protocol cfg w
  queues : SameQueues s w
  transaction : w.activeSpecTransaction = none
  pending : w.pendingDraftCoveragePlan = none
  rows : ∀ x ∈ s.running, w.seqs x = { s.seqs x with
    blockTable := s.filled cfg x
    numScheduledTokens := 0 }
  others : ∀ x, x ∉ s.running → w.seqs x = s.seqs x

section Abort

variable (h : Protocol cfg s) (ha : Attached cfg s) {tr : ActiveSpecTransaction}
  (htr : s.activeSpecTransaction = some tr)

include h

private theorem State.letGo_table (x : Nat) : s.letGo.table x = s.unleased.table x ∧
    SameButTable s s.letGo x := by
  have hrow := h.unleased_row x
  refine ⟨by rw [State.table, State.letGo_seqs]; rfl, ?_⟩
  obtain ⟨table, htable⟩ := hrow
  exact ⟨table, by rw [State.letGo_seqs, htable]⟩

private theorem letGo_oneSpare_iff : (∀ x ∈ s.letGo.running, (s.letGo.spare cfg x).length ≤ 1) ↔
    s.OneSpare cfg := by
  have hqueues := State.letGo_queues h
  rw [hqueues.running]
  refine forall₂_congr fun x _ => ?_
  obtain ⟨htab, table, hrow⟩ := State.letGo_table h x
  have hcached : (s.letGo.seqs x).numCachedTokens = (s.seqs x).numCachedTokens := by
    rw [hrow]
  rw [State.spare, List.length_drop, htab, hcached]
  omega

include ha htr

theorem abort_returns_iff (hblank : s.unleased.BlankUnhashed) :
    (∃ aborted w, abortSpeculativeStep cfg s = .ok aborted w) ↔ s.OneSpare cfg := by
  have hgo := h.letGo htr
  have hgoa := ha.letGo h
  have hgotr := State.letGo_transaction h htr
  have hgop := State.letGo_pending h
  rw [← letGo_oneSpare_iff h]
  constructor
  · rintro ⟨aborted, w, hok⟩ x hx
    rcases abort_cases h ha htr with ⟨e, hres⟩ | ⟨validated, -, hundone⟩
    · rw [hres] at hok
      exact absurd hok (by simp)
    · obtain ⟨hseq, -, hunchanged⟩ := hgoa.rows tr hgotr
      rw [← hseq] at hx
      obtain ⟨row, hrow, rfl⟩ := List.mem_map.mp hx
      obtain ⟨found, -, htail⟩ := hundone.entry hrow
      have hpages := (hgo.linked tr hgotr).1 row hrow
      obtain ⟨-, -, -, -, hcached, -⟩ := rollbackRowUnchanged_iff.mp (hunchanged row hrow)
      rw [State.spare, List.length_drop, hcached, ← hpages]
      cases hf : found with
      | none =>
        rw [htail.bare hf]
        omega
      | some b =>
        rw [(htail.tail b hf).2.1]
        omega
  · intro hone
    have hblank' : s.letGo.BlankUnhashed := by
      intro b hb
      rw [s.letGo_blocks] at hb
      exact (hblank b hb).congr s.letGo_blocks
    obtain ⟨changed, w, hres⟩ := hgoa.undo_returns hgo hgotr s.letGo_discard hgop hblank' hone
    rw [abort_eq h ha htr, Call.bind_of_ok hres, Call.bind_of_ok (Call.modify_apply _ _)]
    exact ⟨true, _, rfl⟩

private theorem Aborts.of_ok {aborted : Bool} {w : State}
    (hok : abortSpeculativeStep cfg s = .ok aborted w) : Aborts cfg s w := by
  obtain ⟨hleaves, hclosed⟩ := h.leaves_abort
  have haw := ha.leaves_abort h
  unfold Call.Leaves at hleaves haw
  have hwtr := hclosed aborted w hok
  rw [hok] at hleaves haw
  obtain ⟨hw, hqueues⟩ := hleaves
  have haw' : Attached cfg w := haw
  refine ⟨hw, hqueues, hwtr, haw'.pending_none hwtr, ?_, ?_⟩
  all_goals
    rcases abort_cases h ha htr with ⟨e, hres⟩ | ⟨validated, hres, hundone⟩
    · rw [hres] at hok
      exact absurd hok (by simp)
    rw [hres] at hok
    obtain ⟨-, rfl⟩ := EStateM.Result.ok.inj hok
  · intro x hx
    have hgotr := State.letGo_transaction h htr
    obtain ⟨hseq, -, hunchanged⟩ := (ha.letGo h).rows tr hgotr
    have hx' := hx
    rw [← (State.letGo_queues h).running, ← hseq] at hx'
    obtain ⟨row, hrow, rfl⟩ := List.mem_map.mp hx'
    obtain ⟨table, hseqs, hlen, more, hmore⟩ := hundone.row hrow
    obtain ⟨htab, changed, hsame⟩ := State.letGo_table h row.sequence
    obtain ⟨lent, hlent⟩ := h.unleased_prefix row.sequence
    obtain ⟨-, -, -, -, hcached, -⟩ := rollbackRowUnchanged_iff.mp (hunchanged row hrow)
    have hpages := ((h.letGo htr).linked tr hgotr).1 row hrow
    have htable : table = s.filled cfg row.sequence := by
      have hc : (s.seqs row.sequence).numCachedTokens = row.targetCachedTokens := by
        rw [← hcached, hsame]
      rw [State.filled, hlent, ← htab, hmore, List.append_assoc, hc, ← hpages, ← hlen,
        List.take_left]
    have hwithout : ((s.letGo.undone tr.baselineDecodeRollback validated).withoutTransaction).seqs =
        (s.letGo.undone tr.baselineDecodeRollback validated).seqs := rfl
    rw [hwithout, hseqs, hsame, htable]
  · intro x hx
    have hgotr := State.letGo_transaction h htr
    obtain ⟨hseq, -, -⟩ := (ha.letGo h).rows tr hgotr
    have hx' : x ∉ tr.baselineDecodeRollback.map DecodeScheduleRollbackRow.sequence := by
      rwa [hseq, (State.letGo_queues h).running]
    have hout := State.undone_seqs_out (s := s.letGo) hundone.fst hx'
    refine (show _ = (s.letGo.undone tr.baselineDecodeRollback validated).seqs x from rfl).trans ?_
    rw [hout, s.letGo_seqs]
    exact h.unleased_out hx

end Abort

/-- What an abort leaves of the running rows when a transaction was open, and of all rows. -/
structure Returned (cfg : Config) (s w : State) : Prop where
  protocol : Protocol cfg w
  queues : SameQueues s w
  transaction : w.activeSpecTransaction = none
  pending : w.pendingDraftCoveragePlan = none
  batch : s.activeSpecTransaction ≠ none → ∀ x ∈ s.running, w.seqs x = { s.seqs x with
    blockTable := s.filled cfg x
    numScheduledTokens := 0 }
  others : ∀ x, s.activeSpecTransaction = none ∨ x ∉ s.running → w.seqs x = s.seqs x

theorem Returned.of_ok (h : Protocol cfg s) (ha : Attached cfg s) {aborted : Bool}
    (hok : abortSpeculativeStep cfg s = .ok aborted w) : Returned cfg s w := by
  cases htr : s.activeSpecTransaction with
  | none =>
    rw [abortSpeculativeStep_idle cfg htr] at hok
    obtain ⟨-, rfl⟩ := EStateM.Result.ok.inj hok
    exact ⟨h, .refl s, htr, ha.pending_none htr, fun hne => absurd htr hne, fun _ _ => rfl⟩
  | some tr =>
    have hw := Aborts.of_ok h ha htr hok
    refine ⟨hw.protocol, hw.queues, hw.transaction, hw.pending, fun _ => hw.rows, ?_⟩
    rintro x (hnone | hout)
    · rw [htr] at hnone
      exact absurd hnone (by simp)
    · exact hw.others x hout

theorem Returned.sublist (h : Returned cfg s w) (x : Nat) :
    (w.table x).Sublist (s.table x) := by
  by_cases hbatch : s.activeSpecTransaction ≠ none ∧ x ∈ s.running
  · have hrow := h.batch hbatch.1 x hbatch.2
    rw [State.table, hrow]
    exact List.take_sublist _ _
  · have hrow := h.others x (by
      by_contra hno
      obtain ⟨htr, hrun⟩ := not_or.mp hno
      exact hbatch ⟨htr, not_not.mp hrun⟩)
    rw [State.table, hrow]
    exact List.Sublist.refl _

end NanoVllm
