/- module: NanoVllm/Cancellation/Before
   layer: invariant
   source: nanovllm/engine/scheduler.py, schedule and the calls until the batch is committed
   digest: A decode row keeps its table before the schedule and the block it was granted. -/

import NanoVllm.Cancellation.Abort
import NanoVllm.Runs.Flags
import NanoVllm.Scheduling.Rest

set_option autoImplicit false
set_option relaxedAutoImplicit false

namespace NanoVllm

open Library

variable {cfg : Config} {s t u base : State} {x y : Nat} {before : Nat → List Nat}

/-- The decode loop so far: granted rows grew by the block that their next position needs, and
rows still to come have the tables of `base`. -/
structure Cursor.Grew (cfg : Config) (base : State) (c : Cursor) : Prop where
  granted : ∀ x ∈ c.done, ∃ more, c.st.table x = base.table x ++ more ∧
    more.length = appendNeed cfg (c.st.seqs x).numTokens
  coming : ∀ x ∈ c.hand.toList ++ c.st.running, c.st.table x = base.table x
  count : (c.rows ++ c.st.running).length ≤ base.running.length

private theorem evict_other (s : State) (r w : List Nat) {v : Nat} (hxv : x ≠ v) :
    (((s.withRunning r).withWaiting w).evict v).seqs x = s.seqs x := by
  rw [State.evict_seqs, Function.update_of_ne hxv]
  rfl

/-- Preempting a row that is neither granted nor to come keeps the tables of those. -/
private theorem Cursor.Grew.evict {done r w : List Nat} {hand hand' : Option Nat} {v : Nat}
    (h : Cursor.Grew cfg base ⟨done, hand, s⟩) (hdone : v ∉ done)
    (hcoming : ∀ x ∈ hand'.toList ++ r, x ∈ hand.toList ++ s.running ∧ x ≠ v)
    (hcount : (done ++ hand'.toList ++ r).length ≤ (done ++ hand.toList ++ s.running).length) :
    Cursor.Grew cfg base ⟨done, hand', ((s.withRunning r).withWaiting w).evict v⟩ where
  granted := by
    intro x hx
    have hrow := evict_other s r w (x := x) (v := v) fun heq => hdone (heq ▸ hx)
    obtain ⟨more, hmore, hlen⟩ := h.granted x hx
    refine ⟨more, ?_, ?_⟩
    · rw [State.table, hrow]
      exact hmore
    · rw [hrow]
      exact hlen
  coming := by
    intro x hx
    rw [State.evict_running] at hx
    obtain ⟨hold, hne⟩ := hcoming x hx
    rw [State.table, evict_other s r w hne]
    exact h.coming x hold
  count := by
    rw [State.evict_running]
    exact hcount.trans h.count

private theorem DecodeMove.grew {c c' : Cursor} (hm : DecodeMove cfg c c') (hgood : c.Good cfg)
    (h : c.Grew cfg base) : c'.Grew cfg base := by
  have hnd := hgood.2.own.live_nodup
  cases hm with
  | @take done rest x s hrun hcap =>
    refine ⟨h.granted, ?_, ?_⟩
    · intro y hy
      refine h.coming y ?_
      change y ∈ s.running
      rw [hrun]
      exact hy
    · have hcount := h.count
      simp only [Cursor.rows, hrun, Option.toList_none, List.append_nil] at hcount
      simpa [Cursor.rows] using hcount
  | @evictMid done rest x v s hfull hmid hwait =>
    have hnot := hgood.live_not_done (x := v) (by simp [hwait])
    refine h.evict (r := s.running) (w := rest) hnot (fun y hy => ⟨hy, ?_⟩) le_rfl
    rintro rfl
    refine (List.nodup_append.mp hnd).2.2 y ?_ y (by simp [hwait]) rfl
    simp only [Cursor.rows, List.mem_append] at hy ⊢
    tauto
  | @evictLast done rest x v s hfull hmid hrun =>
    have hnot := hgood.live_not_done (x := v) (by simp [hrun])
    refine h.evict (r := rest) (w := s.waiting) hnot (fun y hy => ⟨?_, ?_⟩) ?_
    · rw [hrun]
      simp only [List.mem_append] at hy ⊢
      tauto
    · rintro rfl
      have hleft := (List.nodup_append.mp hnd).1
      rw [show (⟨done, some x, s⟩ : Cursor).st.running = rest ++ [y] from hrun,
        ← List.append_assoc] at hleft
      refine (List.nodup_append.mp hleft).2.2 y ?_ y (by simp) rfl
      simp only [Cursor.rows, List.mem_append] at hy ⊢
      tauto
    · simp [hrun]
  | @evictSelf done x s hfull hmid hrun =>
    refine h.evict (r := s.running) (w := s.waiting) hgood.hand_not_done (fun y hy => ?_) ?_
    · rw [hrun] at hy
      exact absurd hy (by simp)
    · simp [hrun]
  | @grant done x s hroom =>
    have hother : ∀ y, y ≠ x → (s.grant cfg x).seqs y = s.seqs y := by
      intro y hyx
      rw [State.grant_seqs, Function.update_of_ne hyx]
    have hrunning : (s.grant cfg x).running = s.running :=
      congrArg Control.running (s.grant_control cfg x)
    refine ⟨?_, ?_, ?_⟩
    · intro y hy
      change ∃ more, ((s.grant cfg x).seqs y).blockTable = base.table y ++ more ∧
        more.length = appendNeed cfg ((s.grant cfg x).seqs y).numTokens
      by_cases hyx : y = x
      · rw [hyx, State.grant_seqs, Function.update_self]
        refine ⟨s.freeBlockIds.take (appendNeed cfg (s.seqs x).numTokens), ?_, ?_⟩
        · rw [← h.coming x (by simp)]
        · rw [List.length_take, Nat.min_eq_left ((canAppend_iff cfg s x).mp hroom)]
          rfl
      · rw [hother y hyx]
        refine h.granted y ?_
        simpa [hyx] using hy
    · intro y hy
      change y ∈ (s.grant cfg x).running at hy
      rw [hrunning] at hy
      have hyx : y ≠ x := by
        rintro rfl
        have hleft := (List.nodup_append.mp hnd).1
        exact (List.nodup_append.mp hleft).2.2 y (by simp [Cursor.rows]) y hy rfl
      change ((s.grant cfg x).seqs y).blockTable = base.table y
      rw [hother y hyx]
      exact h.coming y (by simp [hy])
    · have hcount := h.count
      change (Cursor.rows ⟨done ++ [x], none, s⟩ ++ (s.grant cfg x).running).length ≤ _
      rw [hrunning]
      simpa [Cursor.rows] using hcount

private theorem DecodeWalk.grew {c c' : Cursor} (hw : DecodeWalk cfg c c') (hgood : c.Good cfg)
    (h : c.Grew cfg base) : c'.Grew cfg base := by
  induction hw with
  | refl => exact h
  | tail hw hm ih => exact hm.grew (DecodeWalk.good hw hgood) ih

/-- The queue bound, and the tables of the rows scheduled for one decode token: the table
before the schedule and the block that the next position needs, lease aside. -/
structure Granted (cfg : Config) (before : Nat → List Nat) (s : State) : Prop where
  count : s.running.length ≤ cfg.maxNumSeqs
  grown : ∀ x ∈ s.running, (s.unleased.seqs x).isPrefill = false →
    (s.unleased.seqs x).numScheduledTokens = 1 → ∃ more, s.unleased.table x = before x ++ more ∧
      more.length = appendNeed cfg (s.unleased.seqs x).numTokens

section Schedules

variable {done batch : List Nat} (hs : Schedules cfg s done t batch u) (hready : s.Ready cfg)
  (hcount : s.running.length ≤ cfg.maxNumSeqs)

include hs hready

private theorem Schedules.grew : Cursor.Grew cfg s ⟨done, none, t⟩ :=
  DecodeWalk.grew hs.walk hready.good ⟨by simp, fun _ _ => rfl, by simp [Cursor.rows]⟩

include hcount

private theorem Schedules.served_all : t.running = [] := by
  rcases hs.served with hnil | hfull
  · exact hnil
  · have hlen := (Schedules.grew hs hready).count
    simp only [Cursor.rows, Option.toList_none, List.append_nil, List.length_append] at hlen
    exact List.length_eq_zero_iff.mp (by omega)

private theorem Schedules.running_batched {prefills : List Nat} (hbatch : batch = done ++ prefills) :
    (∀ x ∈ u.running, x ∈ done ∨ x ∈ prefills) ∧ u.running.length ≤ batch.length := by
  have hjoin := Cursor.Good.rejoin (DecodeWalk.good hs.walk hready.good)
  obtain ⟨more, hfilled⟩ := hs.fills.filled hjoin
  obtain rfl : prefills = more := List.append_cancel_left (hbatch.symm.trans hfilled.batch)
  have hrunning : (t.withRunning (done ++ t.running)).running = done := by
    rw [State.withRunning_running, Schedules.served_all hs hready hcount, List.append_nil]
  rw [hbatch]
  rcases hfilled.rows with hrun | ⟨front, w, hfront, hrun, -⟩ <;> rw [hrun, hrunning]
  · exact ⟨fun x hx => List.mem_append.mp hx, by simp⟩
  · rw [hfront]
    refine ⟨fun x hx => ?_, by simp⟩
    rcases List.mem_append.mp hx with hx | hx
    · exact Or.inl hx
    · exact Or.inr (List.mem_append_left _ hx)

private theorem Granted.of_schedules (hflag : Flagged s) : Granted cfg s.table u := by
  have hgood := DecodeWalk.good hs.walk hready.good
  obtain ⟨prefills, hbatch, hout⟩ := hs.batched hready hflag
  obtain ⟨more, hfilled⟩ := hs.fills.filled (Cursor.Good.rejoin hgood)
  obtain rfl : prefills = more := List.append_cancel_left (hbatch.symm.trans hfilled.batch)
  obtain ⟨hrows, hlen⟩ := Schedules.running_batched hs hready hcount hbatch
  rw [hbatch] at hlen
  refine ⟨hlen.trans hout.capacity, fun x hx hpre _ => ?_⟩
  rw [State.unleased_idle hout.ready.1.discard] at hpre ⊢
  rcases hrows x hx with hx | hx
  · have hnot : x ∉ t.waiting := fun hw => hgood.live_not_done (List.mem_append_right _ hw) hx
    have hsame : u.seqs x = t.seqs x := hfilled.frame x hnot
    rw [State.table, hsame]
    exact (Schedules.grew hs hready).granted x hx
  · have hmarked : (u.seqs x).isPrefill = true := hout.chunks.prefill x hx
    rw [hpre] at hmarked
    exact absurd hmarked (by simp)

end Schedules

/-- Rows that are running in `t` were so in `s`, and unless their chunk is gone, they are as
before up to their draft coverage, lease aside. -/
def Undisturbed (s t : State) : Prop :=
  ∀ x ∈ t.running, x ∈ s.running ∧ ((t.unleased.seqs x).numScheduledTokens ≠ 0 →
    ∃ draft, t.unleased.seqs x = { s.unleased.seqs x with numDraftCachedTokens := draft })

private theorem Undisturbed.of_rows (hrun : ∀ x ∈ t.running, x ∈ s.running)
    (hrow : ∀ x ∈ t.running, (t.unleased.seqs x).numScheduledTokens ≠ 0 →
      t.unleased.seqs x = s.unleased.seqs x) : Undisturbed s t :=
  fun x hx => ⟨hrun x hx, fun hne => ⟨(s.unleased.seqs x).numDraftCachedTokens, hrow x hx hne⟩⟩

private theorem Undisturbed.refl (s : State) : Undisturbed s s :=
  .of_rows (fun _ hx => hx) fun _ _ _ => rfl

private theorem Undisturbed.trans (h : Undisturbed s t) (h' : Undisturbed t u) : Undisturbed s u := by
  intro x hx
  obtain ⟨ht, hrow'⟩ := h' x hx
  obtain ⟨hs, hrow⟩ := h x ht
  refine ⟨hs, fun hne => ?_⟩
  obtain ⟨draft', hu⟩ := hrow' hne
  rw [hu] at hne
  obtain ⟨draft, ht'⟩ := hrow hne
  exact ⟨draft', by rw [hu, ht']⟩

private theorem Granted.undisturbed (h : Granted cfg before s) (ht : Protocol cfg t)
    (hst : Undisturbed s t) : Granted cfg before t where
  count := by
    have hlive := ht.core.own.live_nodup
    rw [List.nil_append, List.nodup_append] at hlive
    exact (hlive.1.subperm fun x hx => (hst x hx).1).length_le.trans h.count
  grown := by
    intro x hx hpre hsched
    obtain ⟨hs, hrow⟩ := hst x hx
    obtain ⟨draft, hsame⟩ := hrow (by rw [hsched]; exact one_ne_zero)
    rw [hsame] at hpre hsched
    rw [State.table, hsame]
    exact h.grown x hs hpre hsched

/-- A row of the state without its lease is a function of the row and of the lease. -/
private theorem restoreRows_row (rows : List TemporaryReservationRow) : ∀ {s t : State},
    t.seqs x = s.seqs x → (t.restoreRows rows).seqs x = (s.restoreRows rows).seqs x := by
  induction rows with
  | nil => exact fun h => h
  | cons row rows ih =>
    intro s t h
    refine ih (s := s.restoreRow row) (t := t.restoreRow row) ?_
    unfold State.restoreRow
    rw [State.setSeq_seqs, State.setSeq_seqs]
    by_cases hx : x = row.sequence
    · rw [← hx, Function.update_self, Function.update_self, h]
    · rw [Function.update_of_ne hx, Function.update_of_ne hx, h]

private theorem restoreBlocks_seqs (states : List (Nat × Block)) : ∀ s : State,
    (s.restoreBlocks states).seqs = s.seqs := by
  induction states with
  | nil => exact fun _ => rfl
  | cons e states ih => exact fun s => ih (s.setBlock e.1 e.2)

private theorem State.unleased_row (hd : t.activeDraftDiscard = s.activeDraftDiscard)
    (hrow : t.seqs x = s.seqs x) : t.unleased.seqs x = s.unleased.seqs x := by
  unfold State.unleased
  rw [hd]
  cases s.activeDraftDiscard with
  | none => exact hrow
  | some d =>
    have hrest := restoreRows_row d.2.rows hrow
    rw [← restoreBlocks_seqs d.2.blockStatesBefore, ← restoreBlocks_seqs d.2.blockStatesBefore
      (s.restoreRows d.2.rows)] at hrest
    exact hrest

private theorem Undisturbed.of_same (hd : t.activeDraftDiscard = s.activeDraftDiscard)
    (hrun : t.running = s.running) (hrow : ∀ x ∈ s.running, t.seqs x = s.seqs x) :
    Undisturbed s t :=
  .of_rows (fun _ hx => hrun ▸ hx) fun x hx _ => State.unleased_row hd (hrow x (hrun ▸ hx))

private theorem Undisturbed.of_idle (hd : t.activeDraftDiscard = none)
    (hrow : ∀ x ∈ t.running, x ∈ s.running ∧ ((t.seqs x).numScheduledTokens = 0 ∨
      t.seqs x = s.unleased.seqs x)) : Undisturbed s t := by
  refine .of_rows (fun x hx => (hrow x hx).1) fun x hx hne => ?_
  rw [State.unleased_idle hd] at hne ⊢
  exact (hrow x hx).2.resolve_left hne

namespace Undisturbed

private theorem postRow_scheduled (cfg : Config) (s : State) (x tokenId : Nat) :
    ((s.postRow cfg x tokenId).seqs x).numScheduledTokens = 0 := by
  unfold State.postRow
  split
  · rw [State.advance_seqs, Function.update_self]
  split
  · rw [State.retire_seqs, Function.update_self, State.appended_seqs, Function.update_self]
    rfl
  · rw [State.appended_seqs, Function.update_self]
    rfl

private theorem leaves_postprocessRow (h : Core cfg [] s) (hq : s.Quiet) (x tokenId : Nat) :
    Call.Leaves (postprocessRow cfg x tokenId) s fun t => ∀ y ∈ t.running,
      y ∈ s.running ∧ ((t.seqs y).numScheduledTokens = 0 ∨ t.seqs y = s.seqs y) := by
  have hpost : ∀ y ∈ (s.postRow cfg x tokenId).running, y ∈ s.running ∧
      (((s.postRow cfg x tokenId).seqs y).numScheduledTokens = 0 ∨
        (s.postRow cfg x tokenId).seqs y = s.seqs y) := by
    intro y hy
    refine ⟨(s.postRow_running cfg x tokenId).subset hy, ?_⟩
    by_cases hyx : y = x
    · exact Or.inl (hyx ▸ postRow_scheduled cfg s x tokenId)
    · exact Or.inr (s.postRow_other cfg tokenId hyx)
  unfold Call.Leaves
  by_cases hrun : x ∈ s.running
  · rw [postprocessRow_running hq h hrun, Call.after_ok]
    exact hpost
  · by_cases htab : s.table x = []
    · obtain ⟨row, hafter, -, -⟩ := postprocessRow_bare cfg hq htab hrun tokenId
      rw [hafter]
      intro y hy
      refine ⟨hy, Or.inr (Function.update_of_ne ?_ _ _)⟩
      rintro rfl
      exact hrun hy
    · have hwait : x ∈ s.waiting := by
        by_contra hnot
        exact htab (h.dead x (by simp [hrun, hnot]))
      have hrow := h.chunked x hwait htab
      rw [postprocessRow_part hq hrow.within hrow.scheduled_lt, Call.after_ok]
      exact hpost

private theorem leaves_postprocessRows : ∀ (rows : List (Nat × Nat)) {s : State}, Core cfg [] s →
    s.Quiet → Call.Leaves (postprocessRows cfg rows) s fun t => ∀ y ∈ t.running,
      y ∈ s.running ∧ ((t.seqs y).numScheduledTokens = 0 ∨ t.seqs y = s.seqs y) := by
  intro rows
  induction rows with
  | nil => exact fun _ _ y hy => ⟨hy, Or.inr rfl⟩
  | cons row rows ih =>
    intro s h hq
    obtain ⟨x, tokenId⟩ := row
    have hkeep := h.leaves_postprocessRow hq x tokenId
    have hfirst := leaves_postprocessRow h hq x tokenId
    unfold Call.Leaves at hkeep hfirst ⊢
    unfold postprocessRows
    cases hres : postprocessRow cfg x tokenId s with
    | error e t =>
      rw [hres] at hfirst
      rw [Call.bind_of_error hres]
      exact hfirst
    | ok events t =>
      rw [hres] at hkeep hfirst
      rw [Call.bind_of_ok hres]
      obtain ⟨hctl, -, hcore⟩ := hkeep
      have hctl' : SameControl s t := hctl
      have hfirst' : ∀ y ∈ t.running, y ∈ s.running ∧
        ((t.seqs y).numScheduledTokens = 0 ∨ t.seqs y = s.seqs y) := hfirst
      have hstep : ∀ u : State, (∀ y ∈ u.running, y ∈ t.running ∧
          ((u.seqs y).numScheduledTokens = 0 ∨ u.seqs y = t.seqs y)) →
          ∀ y ∈ u.running, y ∈ s.running ∧
            ((u.seqs y).numScheduledTokens = 0 ∨ u.seqs y = s.seqs y) := by
        intro u hu y hy
        obtain ⟨ht, hrow⟩ := hu y hy
        obtain ⟨hs, hold⟩ := hfirst' y ht
        refine ⟨hs, hrow.elim Or.inl fun hsame => ?_⟩
        rw [hsame]
        exact hold
      have hcore' : Core cfg [] t := hcore
      have hnext := ih hcore' (hctl'.quiet hq)
      unfold Call.Leaves at hnext
      rw [Call.bind_apply]
      cases hmore : postprocessRows cfg rows t with
      | error e u =>
        rw [hmore] at hnext
        exact hstep u hnext
      | ok more u =>
        rw [hmore] at hnext
        exact hstep u hnext

private theorem leaves_postprocess (h : Protocol cfg s) (batch tokenIds : List Nat) :
    Call.Leaves (postprocess cfg batch tokenIds) s (Undisturbed s) := by
  unfold Call.Leaves postprocess
  rw [Call.bind_of_ok (Call.get_apply s)]
  cases hchecks : postprocessChecks cfg s batch tokenIds with
  | error e =>
    rw [Call.bind_of_error (liftExcept_error e s)]
    exact .refl s
  | ok u =>
    rw [Call.bind_of_ok (liftExcept_ok u s)]
    have hd := (postprocessChecks_ok hchecks).discard
    have hcore := (h.idle hd).2
    have hkeep := hcore.leaves_postprocessRows (batch.zip tokenIds) (h.quiet hd)
    have hrows := leaves_postprocessRows (batch.zip tokenIds) hcore (h.quiet hd)
    unfold Call.Leaves at hkeep hrows
    have hstep : ∀ v, SameControl s v → (∀ y ∈ v.running, y ∈ s.running ∧
        ((v.seqs y).numScheduledTokens = 0 ∨ v.seqs y = s.seqs y)) → Undisturbed s v := by
      intro v hctl hv
      refine of_idle ((congrArg Control.activeDraftDiscard hctl).trans hd) ?_
      rwa [State.unleased_idle hd]
    cases hres : postprocessRows cfg (batch.zip tokenIds) s with
    | error e v =>
      rw [hres] at hkeep hrows
      rw [Call.bind_of_error hres]
      exact hstep v hkeep.1 hrows
    | ok events v =>
      rw [hres] at hkeep hrows
      rw [Call.bind_of_ok hres, Call.bind_of_ok (Call.modify_apply _ _)]
      have hctl : SameControl s v := hkeep.1
      have hclose := v.closeHandoff_control s batch
      have hvd : v.activeDraftDiscard = none :=
        (congrArg Control.activeDraftDiscard hctl).trans hd
      have hcd : (v.closeHandoff s batch).activeDraftDiscard = none :=
        (congrArg Control.activeDraftDiscard hclose).trans hvd
      have hrun : (v.closeHandoff s batch).running = v.running :=
        congrArg Control.running hclose
      have hlast : Undisturbed v (v.closeHandoff s batch) := by
        refine fun y hy => ⟨hrun ▸ hy, fun _ => ?_⟩
        rw [State.unleased_idle hcd, State.unleased_idle hvd]
        exact v.closeHandoff_row s batch y
      exact (hstep v hctl hrows).trans hlast

private theorem leaves_commit (h : Protocol cfg s) (plan : SpecStepPlan)
    (result : SpecExecutionResult) :
    Call.Leaves (commitSpeculative cfg plan result) s (Undisturbed s) := by
  unfold Call.Leaves
  rcases h.lease with ⟨hd, hnone, hcore⟩ | ⟨base, rows, plan', r, hd, hleased, hcore, hrows⟩
  · obtain ⟨e, hres⟩ := Protocol.commit_unleased cfg h.fault hnone
    rw [hres]
    exact .refl s
  · cases htr : s.activeSpecTransaction with
    | none =>
      rw [h.closed htr] at hd
      exact absurd hd (by simp)
    | some tr =>
      obtain ⟨rfl, rfl⟩ := Prod.mk.inj ((h.linked tr htr).2 _ hd)
      rcases commitSpeculative_cases plan result hleased hcore htr h.progress h.internal with
        ⟨e, f, hres⟩ | ⟨events, u, hres, hquiet⟩
      · rw [hres]
        exact of_same rfl rfl fun _ _ => rfl
      · rw [hres]
        obtain ⟨prepared, desired, hc, -, -, rfl⟩ := hquiet h.fault
        refine of_idle rfl fun y hy => ?_
        have hs : y ∈ s.running := by
          rw [← show base.running = s.running from congrArg Control.running hleased.control]
          exact (State.commitAll_running_sublist cfg prepared (base.lend (keptRows desired))).subset hy
        refine ⟨hs, Or.inl (State.commitAll_idle cfg _ ?_)⟩
        rw [hc.distinct hleased, ← hleased.sequences, hc.lease]
        exact hs

private theorem leaves_plan (h : Protocol cfg s) (workspace : SpeculativeWorkspace) (batch : List Nat)
    (admission : Option DraftRouteAdmission) (baseline : Option (List DecodeScheduleRollbackRow)) :
    Call.Leaves (planSpeculativeStep cfg workspace batch admission baseline) s
      (Undisturbed s) := by
  have huntouched : ∀ t, Untouched s t → Undisturbed s t := by
    rintro t ⟨f, n, c, rfl⟩
    exact of_same rfl rfl fun _ _ => rfl
  unfold Call.Leaves
  cases htr : s.activeSpecTransaction with
  | some tr =>
    have hres : planSpeculativeStep cfg workspace batch admission baseline s =
        .error (.runtimeError "a speculative transaction is already active") s := by
      unfold planSpeculativeStep
      rw [Call.bind_of_ok (tick_quiet h.fault), Call.bind_of_ok (Call.get_apply s)]
      simp [htr]
    rw [hres]
    exact .refl s
  | none =>
    have hd := h.closed htr
    obtain ⟨hnone, hcore⟩ := h.idle hd
    rcases planSpeculativeStep_cases cfg hnone h.progress h.internal hcore.own.poolOk
      workspace batch admission baseline with
      ⟨e, t, hres, ht⟩ | ⟨plan, t, hres, -, ht⟩ | ⟨plan, rollback, base, rows, r, t, hres, ho⟩
    · rw [hres]
      exact huntouched t ht
    · rw [hres]
      exact huntouched t ht
    · rw [hres]
      obtain ⟨u, ⟨f, n, c, rfl⟩, hbase⟩ := ho.base_eq
      have hbd : base.activeDraftDiscard = some (plan, r) := by
        rw [hbase]
        rfl
      have htd : t.activeDraftDiscard = some (plan, r) :=
        (congrArg Control.activeDraftDiscard ho.leased.control).symm.trans hbd
      refine of_rows (fun y hy => ?_) fun y _ _ => ?_
      · have hrun : base.running = t.running := congrArg Control.running ho.leased.control
        have hy' : y ∈ t.running := hy
        rw [← hrun, hbase] at hy'
        exact hy'
      · rw [Call.after_ok, ho.leased.unleased htd, State.unleased_idle hd, hbase]
        rfl

private theorem leaves_prepare (h : Protocol cfg s) (plan : SpecStepPlan) :
    Call.Leaves (prepareSpeculativeTargetWrites plan) s (Undisturbed s) := by
  unfold Call.Leaves prepareSpeculativeTargetWrites
  rw [Call.bind_of_ok (Call.get_apply s)]
  cases htr : s.activeSpecTransaction with
  | none => exact .refl s
  | some tr =>
    dsimp only
    split
    · exact .refl s
    split
    · exact .refl s
    rcases h.lease with ⟨hd, hnone, hcore⟩ | ⟨base, rows, plan', r, hd, hleased, hcore, hrows⟩
    · obtain ⟨e, hres⟩ := prepareTemporaryTargetWrites_unleased h.fault hnone tr.reservation
      rw [Call.bind_of_error hres]
      exact .refl s
    · obtain ⟨rfl, rfl⟩ := Prod.mk.inj ((h.linked tr htr).2 _ hd)
      rcases hleased.prepare hcore.own.poolOk with hres | ⟨f, hres, hnew⟩
      · rw [Call.bind_of_error hres]
        exact of_same rfl rfl fun _ _ => rfl
      · rw [Call.bind_of_ok hres, Call.modify_apply, Call.after_ok]
        obtain ⟨w, hw⟩ : ∃ w, w = writableRecord tr.reservation := ⟨_, rfl⟩
        rw [← hw] at hnew ⊢
        obtain ⟨u, hu⟩ : ∃ u : State, u = { s with activeReservation := some w }.withFault f :=
          ⟨_, rfl⟩
        rw [← hu] at hnew ⊢
        have hopen := hnew.withControl (c := (u.replaceLease tr w).control) (by rw [hu]; rfl)
        have hactive : (u.replaceLease tr w).activeDraftDiscard = some (tr.plan, w) := rfl
        have hbase : (u.replaceLease tr w).unleased = _ := hopen.unleased hactive
        refine of_rows (fun y hy => ?_) fun y _ _ => ?_
        · change y ∈ u.running at hy
          rwa [hu] at hy
        · rw [hbase, hleased.unleased hd]
          rfl

private theorem of_letGo (h : Protocol cfg s) (hd : t.activeDraftDiscard = none)
    (hrun : t.running = s.unleased.running) (hseqs : t.seqs = s.unleased.seqs) :
    Undisturbed s t := by
  refine of_idle hd fun y hy => ⟨?_, Or.inr (congrFun hseqs y)⟩
  rw [hrun] at hy
  rwa [← show s.unleased.running = s.running from congrArg Control.running h.unleased_control]

private theorem leaves_handoff (h : Protocol cfg s) (plan : SpecStepPlan) :
    Call.Leaves (handoffDraftDiscard plan) s (Undisturbed s) := by
  unfold Call.Leaves handoffDraftDiscard
  rw [Call.bind_of_ok (tick_quiet h.fault), Call.bind_of_ok (Call.get_apply s)]
  cases hchecks : handoffChecks s plan with
  | error e =>
    rw [Call.bind_of_error (liftExcept_error e s)]
    exact .refl s
  | ok u =>
    rw [Call.bind_of_ok (liftExcept_ok u s)]
    unfold handoffChecks at hchecks
    obtain ⟨-, hchecks⟩ := Call.except_guard hchecks
    obtain ⟨-, hchecks⟩ := Call.except_guard hchecks
    have hactive : s.activeDraftDiscard.map Prod.fst = some plan := by
      by_contra hne
      rw [if_pos hne] at hchecks
      exact absurd hchecks (by simp [throw, throwThe, MonadExceptOf.throw])
    obtain ⟨d, hd, rfl⟩ := Option.map_eq_some_iff.mp hactive
    cases htr : s.activeSpecTransaction with
    | none =>
      rw [h.closed htr] at hd
      exact absurd hd (by simp)
    | some tr =>
      rw [(h.linked tr htr).2 d hd]
      obtain ⟨released, hrel⟩ := h.releaseDiscard_eq htr
      rw [Call.bind_of_ok hrel]
      split
      · have hfault : s.unleased.withoutDiscard.fault = none :=
          (congrArg Control.fault h.unleased_control).trans h.fault
        rw [Call.bind_of_ok (tick_quiet hfault), Call.modify_apply, Call.after_ok]
        exact of_letGo h rfl rfl rfl
      · exact of_letGo h rfl rfl rfl

private theorem leaves_stage (h : Protocol cfg s) (plan : SpecStepPlan) (batch : List Nat)
    (coverage : List (Nat × Nat)) :
    Call.Leaves (stageDraftCoverage plan batch coverage) s (Undisturbed s) := by
  unfold Call.Leaves stageDraftCoverage
  rw [Call.bind_of_ok (tick_quiet h.fault), Call.bind_of_ok (Call.get_apply s)]
  cases hchecks : stageChecks s plan batch coverage with
  | error e =>
    rw [Call.bind_of_error (liftExcept_error e s)]
    exact .refl s
  | ok u =>
    rw [Call.bind_of_ok (liftExcept_ok u s), Call.set_apply, Call.after_ok]
    exact of_same rfl rfl fun _ _ => rfl

private theorem of_undone {rollback : List DecodeScheduleRollbackRow}
    {validated : List (Nat × Option Nat)} (hu : Undone cfg s rollback validated) :
    Undisturbed s (s.undone rollback validated) := by
  have hctl := s.undone_control rollback validated
  have hrun : (s.undone rollback validated).running = s.running := congrArg Control.running hctl
  refine of_idle ((congrArg Control.activeDraftDiscard hctl).trans hu.discard) fun y hy => ?_
  refine ⟨hrun ▸ hy, ?_⟩
  rw [State.unleased_idle hu.discard]
  by_cases hin : y ∈ rollback.map DecodeScheduleRollbackRow.sequence
  · obtain ⟨row, hrow, rfl⟩ := List.mem_map.mp hin
    obtain ⟨table, hseqs, -⟩ := hu.row hrow
    left
    rw [hseqs]
  · exact Or.inr (State.undone_seqs_out hu.fst hin)

private theorem of_go (h : Protocol cfg s) : Undisturbed s s.letGo :=
  of_letGo h s.letGo_discard ((State.letGo_queues h).running.trans
    (show s.unleased.running = s.running from
      congrArg Control.running h.unleased_control).symm) s.letGo_seqs

private theorem leaves_abort (h : Protocol cfg s) (ha : Attached cfg s) :
    Call.Leaves (abortSpeculativeStep cfg) s (Undisturbed s) := by
  unfold Call.Leaves
  cases htr : s.activeSpecTransaction with
  | none =>
    rw [abortSpeculativeStep_idle cfg htr]
    exact .refl s
  | some tr =>
    rcases abort_cases h ha htr with ⟨e, hres⟩ | ⟨validated, hres, hundone⟩
    · rw [hres]
      exact of_go h
    · rw [hres]
      exact ((of_go h).trans (of_undone hundone)).trans (of_same rfl rfl fun _ _ => rfl)

private theorem forgetAll (xs : List Nat) : ∀ {s : State}, s.activeDraftDiscard = none →
    s.running.Nodup → Undisturbed s (s.forgetAll xs) := by
  induction xs with
  | nil => exact fun {s} _ _ => .refl s
  | cons x xs ih =>
    intro s hd hnd
    have hctl := s.forget_control x
    have hrun : (s.forget x).running = s.running.erase x := congrArg Control.running hctl
    have hfd : (s.forget x).activeDraftDiscard = none :=
      (congrArg Control.activeDraftDiscard hctl).trans hd
    have hone : Undisturbed s (s.forget x) := by
      refine of_idle hfd fun y hy => ?_
      rw [hrun, hnd.mem_erase_iff] at hy
      rw [State.unleased_idle hd, s.forget_row x, Function.update_of_ne hy.1]
      exact ⟨hy.2, Or.inr rfl⟩
    exact hone.trans (ih hfd (hrun ▸ hnd.erase x))

private theorem leaves_cancel (h : Protocol cfg s) (ha : Attached cfg s) (targets : List Nat) :
    Call.Leaves (cancel cfg targets) s (Undisturbed s) := by
  have habort := leaves_abort h ha
  unfold Call.Leaves at habort ⊢
  rcases h.cancel_steps targets with ⟨-, hres⟩ | ⟨-, ⟨e, u, hu, hres⟩ | ⟨aborted, u, hu, -, hres⟩⟩
  · rw [hres]
    exact .refl s
  · rw [hu] at habort
    rw [hres]
    exact habort
  · have hret := Returned.of_ok h ha hu
    have hidle : u.dropPendingCoverage targets = u := by
      rw [State.dropPendingCoverage, hret.pending]
    have hd := hret.protocol.closed hret.transaction
    have hlive := hret.protocol.core.own.live_nodup
    rw [List.nil_append, List.nodup_append] at hlive
    have hfirst := u.forgetAll_control (u.waiting.filter (· ∈ targets))
    rw [hu] at habort
    rw [hres, hidle, Call.after_ok, State.drop]
    have hau : Undisturbed s u := habort
    refine (hau.trans (forgetAll _ hd hlive.1)).trans (forgetAll _ ?_ ?_)
    · exact (congrArg Control.activeDraftDiscard hfirst).trans hd
    · rw [State.forgetAll_running u fun y hy hrun =>
        hlive.2.2 y hrun y (List.mem_filter.mp hy).1 rfl]
      exact hlive.1

private theorem leaves_add (h : Protocol cfg s) (tokenIds : List Nat) (maxTokens : Nat)
    (ignoreEos : Bool) :
    Call.Leaves (add cfg tokenIds maxTokens ignoreEos) s (Undisturbed s) := by
  have hold : ∀ x ∈ s.running,
      (s.created tokenIds maxTokens ignoreEos).seqs x = s.seqs x := by
    intro x hx
    refine Function.update_of_ne ?_ _ _
    rintro rfl
    exact absurd (h.core.known _ (by simp [hx])) (lt_irrefl _)
  unfold Call.Leaves
  rcases add_cases cfg s tokenIds maxTokens ignoreEos with
    ⟨-, e, hres⟩ | ⟨-, -, e, hres⟩ | ⟨-, -, hres⟩ <;> rw [hres]
  · exact .refl s
  · exact of_same rfl rfl hold
  · exact of_same rfl rfl hold

private theorem leaves_coverage (plan : SpecStepPlan) (s : State) :
    Call.Leaves (abortDraftCoverage plan) s (Undisturbed s) := by
  unfold Call.Leaves
  rcases abortDraftCoverage_cases plan s with ⟨-, hres⟩ | ⟨-, hres⟩ | ⟨e, -, -, hres⟩ <;>
    rw [hres] <;> exact of_same rfl rfl fun _ _ => rfl

private theorem leaves_undo (rows : List DecodeScheduleRollbackRow) :
    Call.Leaves (rollbackFailedDecodeSchedule cfg rows) s (Undisturbed s) := by
  unfold Call.Leaves
  rcases rollbackFailedDecodeSchedule_cases rows with
    ⟨e, hres⟩ | ⟨changed, validated, hres, hundone⟩ <;> rw [hres]
  · exact .refl s
  · exact of_undone hundone

end Undisturbed

/-- Only a schedule gives rows a chunk, and only it changes the table of a row that keeps one. -/
private theorem Granted.companionCalls (cfg : Config) (before : Nat → List Nat) :
    CompanionCalls cfg fun s => Attached cfg s ∧ Granted cfg before s := by
  have hattached := (Attached.companion cfg).toCompanionCalls
  have hserved : ∀ {α : Type} {c : Call α} {s : State}, Call.Leaves c s (Protocol cfg) →
      Call.Leaves c s (Attached cfg) → Call.Leaves c s (Undisturbed s) → Granted cfg before s →
        Call.Leaves c s fun t => Attached cfg t ∧ Granted cfg before t :=
    fun hp ha hu hg => ⟨ha, hg.undisturbed hp hu⟩
  constructor
  case add =>
    intro s h hs tokenIds maxTokens ignoreEos
    exact hserved (h.leaves_add tokenIds maxTokens ignoreEos)
      (hattached.add s h hs.1 tokenIds maxTokens ignoreEos)
      (Undisturbed.leaves_add h tokenIds maxTokens ignoreEos) hs.2
  case postprocess =>
    intro s h hs batch tokenIds
    exact hserved (h.leaves_postprocess batch tokenIds).1
      (hattached.postprocess s h hs.1 batch tokenIds)
      (Undisturbed.leaves_postprocess h batch tokenIds) hs.2
  case plan =>
    intro s h hs workspace batch admission baseline
    exact hserved (h.leaves_plan workspace batch admission baseline).1
      (hattached.plan s h hs.1 workspace batch admission baseline)
      (Undisturbed.leaves_plan h workspace batch admission baseline) hs.2
  case prepare =>
    intro s h hs plan
    exact hserved (h.leaves_prepare plan).1 (hattached.prepare s h hs.1 plan)
      (Undisturbed.leaves_prepare h plan) hs.2
  case commit =>
    intro s h hs plan result
    exact hserved (h.leaves_commit plan result).1 (hattached.commit s h hs.1 plan result)
      (Undisturbed.leaves_commit h plan result) hs.2
  case abort =>
    intro s h hs
    exact hserved h.leaves_abort.1.1 (hattached.abort s h hs.1)
      (Undisturbed.leaves_abort h hs.1) hs.2
  case handoff =>
    intro s h hs plan
    exact hserved (h.leaves_handoff plan).1 (hattached.handoff s h hs.1 plan)
      (Undisturbed.leaves_handoff h plan) hs.2
  case stage =>
    intro s h hs plan batch coverage
    exact hserved (h.leaves_stage plan batch coverage).1
      (hattached.stage s h hs.1 plan batch coverage)
      (Undisturbed.leaves_stage h plan batch coverage) hs.2
  case cancel =>
    intro s h hs targets
    exact hserved (h.leaves_cancel targets) (hattached.cancel s h hs.1 targets)
      (Undisturbed.leaves_cancel h hs.1 targets) hs.2
  case discard =>
    intro s h htr hs plan
    unfold Call.Leaves
    rw [rollbackDraftDiscard_idle plan (h.closed htr)]
    exact hs
  case coverage =>
    intro s h htr hs plan
    exact hserved (serves_abortDraftCoverage plan s h).1 (hattached.coverage s h htr hs.1 plan)
      (Undisturbed.leaves_coverage plan s) hs.2
  case undo =>
    intro s h htr hs rows hpages
    exact hserved (serves_rollbackFailed hpages s h).1
      (hattached.undo s h htr hs.1 rows hpages) (Undisturbed.leaves_undo rows) hs.2

def Turn.schedules (cfg : Config) (s : State) : Turn → Bool
  | .call .schedule | .step _ => match schedule cfg s with
    | .ok _ _ => true
    | .error _ _ => false
  | _ => false

/-- The state after the turns, and the tables that its last returned schedule found. -/
def runTraced (cfg : Config) (turns : List Turn) : State × (Nat → List Nat) :=
  turns.foldl
    (fun run turn => (turn.apply cfg run.1,
      if turn.schedules cfg run.1 then run.1.table else run.2))
    (State.init cfg, fun _ => [])

/-- The tables before the last schedule that returned. -/
def tablesBefore (cfg : Config) (turns : List Turn) : Nat → List Nat := (runTraced cfg turns).2

private theorem runTraced_fst (cfg : Config) (turns : List Turn) :
    (runTraced cfg turns).1 = runTurns cfg turns := by
  induction turns using List.reverseRecOn with
  | nil => rfl
  | append_singleton turns turn ih =>
    rw [runTurns_concat, ← ih]
    simp [runTraced]

private theorem tablesBefore_concat (cfg : Config) (turns : List Turn) (turn : Turn) :
    tablesBefore cfg (turns ++ [turn]) =
      if turn.schedules cfg (runTurns cfg turns) then (runTurns cfg turns).table
      else tablesBefore cfg turns := by
  rw [← runTraced_fst, tablesBefore, runTraced, List.foldl_append]
  rfl

private theorem Granted.leaves_schedule (h : Protocol cfg s) (hflag : Flagged s)
    (hg : Granted cfg before s) :
    match schedule cfg s with
    | .ok _ u => Granted cfg s.table u
    | .error _ u => Granted cfg before u := by
  rcases h.schedule_start with ⟨e, hres⟩ | hready
  · rw [hres]
    exact hg
  · obtain ⟨done, t, batch, u, hs, -, hok, herr⟩ := schedule_trace hready
    by_cases hnil : batch = []
    · obtain ⟨message, hres⟩ := herr hnil
      have hrun : u.running = [] := by
        refine List.eq_nil_iff_forall_not_mem.mpr fun x hx => ?_
        obtain ⟨prefills, hbatch, -⟩ := hs.batched hready hflag
        have hmem := (hs.running_batched hready hg.count hbatch).1 x hx
        rw [← List.mem_append, ← hbatch, hnil] at hmem
        exact absurd hmem (by simp)
      rw [hres]
      exact ⟨by simp [hrun], by simp [hrun]⟩
    · rw [hok hnil]
      exact .of_schedules hs hready hg.count hflag

/-- In every run, decode rows hold their tables before the last schedule and its grant. -/
theorem Granted.runTurns (cfg : Config) (turns : List Turn) :
    Granted cfg (tablesBefore cfg turns) (runTurns cfg turns) := by
  induction turns using List.reverseRecOn with
  | nil => exact ⟨Nat.zero_le _, by simp [NanoVllm.runTurns, State.init]⟩
  | append_singleton turns turn ih =>
    obtain ⟨h, ha⟩ := (Attached.companion cfg).stable.runTurns turns
    have hflag := (Flagged.companion cfg).runTurns turns
    have hsched := Granted.leaves_schedule h hflag ih
    have hcalls := fun before => (Granted.companionCalls cfg before).stable
    rw [runTurns_concat, tablesBefore_concat]
    cases turn with
    | arrive request =>
      exact ((hcalls _).admitRequest request _ ⟨h, ha, ih⟩).2.2
    | call op =>
      by_cases hop : op = .schedule
      · subst hop
        change Granted cfg _ (Call.after (schedule cfg _))
        cases hres : schedule cfg (NanoVllm.runTurns cfg turns) with
        | error e u =>
          rw [hres] at hsched
          rw [if_neg (by simp [Turn.schedules, hres])]
          exact hsched
        | ok outcome u =>
          rw [hres] at hsched
          rw [if_pos (by simp [Turn.schedules, hres])]
          exact hsched
      · have hnot : Turn.schedules cfg (NanoVllm.runTurns cfg turns) (.call op) = false := by
          cases op <;> first | rfl | exact absurd rfl hop
        rw [hnot]
        exact ((hcalls _).op hop ⟨h, ha, ih⟩).2.2
    | step answers =>
      have hat := (Attached.companion cfg).schedule _ h ha
      have hpt := h.leaves_schedule
      change Granted cfg _ (Call.after (stepUnlocked cfg answers _))
      rw [stepUnlocked_after]
      unfold Call.Leaves at hat hpt
      cases hres : schedule cfg (NanoVllm.runTurns cfg turns) with
      | error e u =>
        rw [hres] at hsched
        rw [if_neg (by simp [Turn.schedules, hres])]
        exact hsched
      | ok outcome u =>
        rw [hres] at hsched hat hpt
        rw [if_pos (by simp [Turn.schedules, hres])]
        exact ((hcalls _).executeStep answers outcome.1 outcome.2 u ⟨hpt, hat, hsched⟩).2.2

end NanoVllm
