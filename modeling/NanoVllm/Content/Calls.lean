/- module: NanoVllm/Content/Calls
   layer: invariant
   source: nanovllm/engine/scheduler.py, the public operations of Scheduler
   digest: Every scheduler call, returned or raised, carries and hashes and does nothing else. -/

import NanoVllm.Content.Lasting

set_option autoImplicit false
set_option relaxedAutoImplicit false

namespace NanoVllm

open Library

variable {cfg : Config} {s t base : State} {rows : List (Nat × List Nat)}
  {r : TemporaryBlockReservation} {x : Nat} {J : State → Prop}

namespace Lasting

variable (hJ : Lasting cfg J)

include hJ

private theorem postRow (h : Core cfg [] s) (hq : s.Quiet) (hj : J s) (hx : x ∈ s.running)
    (tokenId : Nat) : J (s.postRow cfg x tokenId) := by
  have hrow := h.started x hx
  have hlive : x ∈ s.running ++ s.waiting := List.mem_append_left _ hx
  have hadv := hJ.advance s x h.owns hq hj hlive hrow.within hrow.scheduled_le
  have hown : Owns cfg (s.advance cfg x) := by
    have hctl := s.advance_control cfg x
    have hnew := h.owns.advance hlive hrow.within hrow.scheduled_le
    rwa [Owns, show (s.advance cfg x).running = s.running from congrArg Control.running hctl,
      show (s.advance cfg x).waiting = s.waiting from congrArg Control.waiting hctl]
  unfold State.postRow
  split <;> rename_i hpart
  · exact hadv
  · have hfull : (s.seqs x).numCachedTokens + (s.seqs x).numScheduledTokens =
        (s.seqs x).numTokens := by
      have := hrow.scheduled_le
      omega
    have happ : J (s.appended cfg x tokenId) :=
      hJ.carried _ _ hown hadv (.appendTokens hown (List.prefix_append _ _) rfl rfl)
    split
    · exact hJ.carried _ _ (h.appended hx hfull tokenId).owns happ
        (.retire (h.appended hx hfull tokenId).owns x)
    · exact happ

private theorem leaves_postprocessRow (h : Core cfg [] s) (hq : s.Quiet) (hj : J s) (x tokenId : Nat) :
    Call.Leaves (postprocessRow cfg x tokenId) s J := by
  unfold Call.Leaves
  by_cases hrun : x ∈ s.running
  · rw [postprocessRow_running hq h hrun, Call.after_ok]
    exact hJ.postRow h hq hj hrun tokenId
  · by_cases htab : s.table x = []
    · obtain ⟨row, hafter, hrow, -⟩ := postprocessRow_bare cfg hq htab hrun tokenId
      rw [hafter]
      refine hJ.carried s _ h.owns hj ?_
      have hempties : Empties [] s (s.setSeq x row) := .of_eq rfl rfl
      refine hempties.released h.owns (x := x) ?_ ?_ fun _ hy => hy
      · rw [State.setSeq_table, Function.update_self]
        exact hrow
      · intro y hyx
        rw [State.setSeq_seqs, Function.update_of_ne hyx]
    · have hwait : x ∈ s.waiting := by
        by_contra hnot
        exact htab (h.dead x (by simp [hrun, hnot]))
      have hrow := h.chunked x hwait htab
      rw [postprocessRow_part hq hrow.within hrow.scheduled_lt, Call.after_ok, State.postRow,
        if_pos hrow.scheduled_lt]
      exact hJ.advance s x h.owns hq hj (List.mem_append_right _ hwait) hrow.within
        hrow.scheduled_lt.le

private theorem leaves_postprocessRows : ∀ (rows : List (Nat × Nat)) {s : State}, Core cfg [] s →
    s.Quiet → J s → Call.Leaves (postprocessRows cfg rows) s J := by
  intro rows
  induction rows with
  | nil => exact fun _ _ hj => hj
  | cons row rows ih =>
    intro s h hq hj
    obtain ⟨x, tokenId⟩ := row
    have hkeep := h.leaves_postprocessRow hq x tokenId
    have hfirst := hJ.leaves_postprocessRow h hq hj x tokenId
    unfold Call.Leaves at hkeep hfirst ⊢
    unfold postprocessRows
    cases hres : postprocessRow cfg x tokenId s with
    | error e t =>
      rw [hres] at hfirst
      rw [Call.bind_of_error hres]
      exact hfirst
    | ok events t =>
      rw [hres] at hkeep hfirst
      rw [Call.bind_of_ok hres]
      obtain ⟨hctl, -, hcore⟩ := hkeep
      have hctl' : SameControl s t := hctl
      exact (ih hcore (hctl'.quiet hq) hfirst).bind fun _ u _ hu => hu

end Lasting

private theorem State.commitCoverage_row (coverage : List (Nat × Nat)) :
    ∀ (batch : List Nat) (s : State),
    (s.commitCoverage coverage batch).blocks = s.blocks ∧
      (s.commitCoverage coverage batch).hashToBlockId = s.hashToBlockId ∧
      ∀ y, ∃ draft, (s.commitCoverage coverage batch).seqs y =
        { s.seqs y with numDraftCachedTokens := draft } := by
  intro batch
  induction batch with
  | nil => exact fun s => ⟨rfl, rfl, fun y => ⟨(s.seqs y).numDraftCachedTokens, rfl⟩⟩
  | cons x batch ih =>
    intro s
    obtain ⟨u, hu⟩ : ∃ u, u = (if (s.seqs x).status = .running then
      s.setSeq x { s.seqs x with numDraftCachedTokens := coverageOf coverage x } else s) := ⟨_, rfl⟩
    have hstep : s.commitCoverage coverage (x :: batch) = u.commitCoverage coverage batch := by
      rw [hu]
      rfl
    obtain ⟨hblocks, hindex, hrow⟩ := ih u
    have hone : u.blocks = s.blocks ∧ u.hashToBlockId = s.hashToBlockId ∧
        ∀ y, ∃ draft, u.seqs y = { s.seqs y with numDraftCachedTokens := draft } := by
      rw [hu]
      split
      · refine ⟨rfl, rfl, fun y => ?_⟩
        rw [State.setSeq_seqs]
        by_cases hyx : y = x
        · subst hyx
          rw [Function.update_self]
          exact ⟨_, rfl⟩
        · rw [Function.update_of_ne hyx]
          exact ⟨(s.seqs y).numDraftCachedTokens, rfl⟩
      · exact ⟨rfl, rfl, fun y => ⟨(s.seqs y).numDraftCachedTokens, rfl⟩⟩
    rw [hstep]
    refine ⟨hblocks.trans hone.1, hindex.trans hone.2.1, fun y => ?_⟩
    obtain ⟨draft, hlast⟩ := hrow y
    obtain ⟨draft', hfirst⟩ := hone.2.2 y
    exact ⟨draft, by rw [hlast, hfirst]⟩

theorem State.closeHandoff_row (t s : State) (batch : List Nat) (y : Nat) : ∃ draft,
    (t.closeHandoff s batch).seqs y = { t.seqs y with numDraftCachedTokens := draft } := by
  have hrow := (t.commitCoverage_row (s.pendingDraftCoverage.getD []) batch).2.2 y
  unfold State.closeHandoff
  cases s.pendingDraftCoveragePlan with
  | none => cases s.activeSpecTransaction <;> exact ⟨(t.seqs y).numDraftCachedTokens, rfl⟩
  | some _ => cases s.activeSpecTransaction <;> exact hrow

theorem Carries.closeHandoff (t s : State) (batch : List Nat) :
    Carries cfg t (t.closeHandoff s batch) := by
  obtain ⟨hblocks, hindex, -⟩ := t.commitCoverage_row (s.pendingDraftCoverage.getD []) batch
  have hctl := t.closeHandoff_control s batch
  have hrun : (t.closeHandoff s batch).running = t.running := congrArg Control.running hctl
  have hwait : (t.closeHandoff s batch).waiting = t.waiting := congrArg Control.waiting hctl
  have hsame : (t.closeHandoff s batch).blocks = t.blocks ∧
      (t.closeHandoff s batch).hashToBlockId = t.hashToBlockId := by
    unfold State.closeHandoff
    cases s.pendingDraftCoveragePlan with
    | none => cases s.activeSpecTransaction <;> exact ⟨rfl, rfl⟩
    | some _ => cases s.activeSpecTransaction <;> exact ⟨hblocks, hindex⟩
  refine .sameRows hsame.1 hsame.2 (fun y => ?_) (fun y hy => hrun ▸ hy) hwait
  obtain ⟨draft, hrow⟩ := t.closeHandoff_row s batch y
  rw [hrow]
  exact ⟨rfl, rfl, rfl, rfl⟩

private theorem unleased_of_idle (hd : t.activeDraftDiscard = none) (hj : J t) : J t.unleased := by
  rwa [State.unleased_idle hd]

namespace Lasting

variable (hJ : Lasting cfg J)

include hJ

private theorem leaves_postprocess (h : Protocol cfg s) (hj : J s.unleased)
    (batch tokenIds : List Nat) :
    Call.Leaves (postprocess cfg batch tokenIds) s fun t => J t.unleased := by
  unfold Call.Leaves postprocess
  rw [Call.bind_of_ok (Call.get_apply s)]
  cases hchecks : postprocessChecks cfg s batch tokenIds with
  | error e =>
    rw [Call.bind_of_error (liftExcept_error e s)]
    exact hj
  | ok u =>
    rw [Call.bind_of_ok (liftExcept_ok u s)]
    have hd := (postprocessChecks_ok hchecks).discard
    have hcore := (h.idle hd).2
    have hq := h.quiet hd
    rw [State.unleased_idle hd] at hj
    have hkeep := hcore.leaves_postprocessRows (batch.zip tokenIds) hq
    have hrows := hJ.leaves_postprocessRows (batch.zip tokenIds) hcore hq hj
    unfold Call.Leaves at hkeep hrows
    cases hres : postprocessRows cfg (batch.zip tokenIds) s with
    | error e v =>
      rw [hres] at hkeep hrows
      rw [Call.bind_of_error hres]
      exact unleased_of_idle ((congrArg Control.activeDraftDiscard hkeep.1).trans hd) hrows
    | ok events v =>
      rw [hres] at hkeep hrows
      rw [Call.bind_of_ok hres, Call.bind_of_ok (Call.modify_apply _ _)]
      obtain ⟨hctl, -, hv⟩ := hkeep
      have hclose := v.closeHandoff_control s batch
      have hvd : (v.closeHandoff s batch).activeDraftDiscard = none :=
        (congrArg Control.activeDraftDiscard hclose).trans
          ((congrArg Control.activeDraftDiscard hctl).trans hd)
      have hv' : Core cfg [] v := hv
      exact unleased_of_idle hvd (hJ.carried v _ hv'.owns hrows (.closeHandoff v s batch))

theorem commitOne {row : PreparedRow} (h : Core cfg [] s) (hq : s.Quiet) (hj : J s)
    (hx : row.sequence ∈ s.running) (hfit : Fits cfg (s.seqs row.sequence) row) :
    J (s.commitOne cfg row) := by
  have happ : Core cfg [] (s.appendBurst row) := h.appendBurst hx hfit
  have hburst := h.burst hx hfit
  have hlive : row.sequence ∈ s.running ++ s.waiting := List.mem_append_left _ hx
  have hja : J (s.appendBurst row) :=
    hJ.carried s _ h.owns hj (.appendTokens h.owns (List.prefix_append _ _) rfl rfl)
  have hrow := happ.started row.sequence hx
  have hadv := hJ.advance _ row.sequence happ.owns (hq.of_control rfl) hja hlive hrow.within
    hrow.scheduled_le
  have hjb : J (s.burst cfg row) := by
    obtain ⟨u, hu⟩ : ∃ u, u = (s.appendBurst row).advance cfg row.sequence := ⟨_, rfl⟩
    have hctl := (s.appendBurst row).advance_control cfg row.sequence
    have hown := happ.owns.advance hlive hrow.within hrow.scheduled_le
    rw [State.burst_eq_advance hfit, ← hu]
    rw [← hu] at hadv hctl hown
    have howns : Owns cfg u := by
      rwa [Owns, show u.running = (s.appendBurst row).running from congrArg Control.running hctl,
        show u.waiting = (s.appendBurst row).waiting from congrArg Control.waiting hctl]
    exact hJ.carried u _ howns hadv (.appendTokens howns (List.prefix_refl _) rfl rfl)
  unfold State.commitOne
  split
  · exact hJ.carried _ _ hburst.owns hjb (.retire hburst.owns row.sequence)
  · exact hjb

private theorem commitAll {prepared : List PreparedRow} : ∀ {s : State}, Core cfg [] s → s.Quiet → J s →
    Bursts cfg s prepared → J (s.commitAll cfg prepared) := by
  induction prepared with
  | nil => exact fun _ _ hj _ => hj
  | cons row prepared ih =>
    intro s h hq hj hb
    have hx := hb.running row (by simp)
    have hfit := hb.fits row (by simp)
    exact ih (h.commitOne hx hfit) ((s.commitOne_control cfg row).quiet hq)
      (hJ.commitOne h hq hj hx hfit) hb.tail

theorem lend (h : Core cfg [] s) (hj : J s) (hrows : ∀ e ∈ rows, e.1 ∈ s.running)
    (hfree : ∀ b ∈ lentBlocks rows, b ∈ s.freeBlockIds) : J (s.lend rows) := by
  refine hJ.carried s _ h.owns hj (.lend h.owns hfree fun y _ hne => ?_)
  have hy : y ∈ s.running := by
    by_contra hnot
    refine hne (lentTo_eq_nil fun hmem => hnot ?_)
    obtain ⟨e, he, rfl⟩ := List.mem_map.mp hmem
    exact hrows e he
  exact (Nat.le_add_right _ _).trans (h.started y (List.mem_append_right _ hy)).within

private theorem leaves_commit (h : Protocol cfg s) (hj : J s.unleased) (plan : SpecStepPlan)
    (result : SpecExecutionResult) :
    Call.Leaves (commitSpeculative cfg plan result) s fun t => J t.unleased := by
  have hunarmed : Call.Leaves (commitSpeculative cfg plan result) s State.Unarmed :=
    unarmed.commitSpeculative plan result s h.fault
  unfold Call.Leaves at hunarmed ⊢
  rcases h.lease with ⟨hd, hnone, hcore⟩ | ⟨base, rows, plan', r, hd, hleased, hcore, hrows⟩
  · obtain ⟨e, hres⟩ := Protocol.commit_unleased cfg h.fault hnone
    rw [hres]
    exact hj
  · cases htr : s.activeSpecTransaction with
    | none =>
      rw [h.closed htr] at hd
      exact absurd hd (by simp)
    | some tr =>
      obtain ⟨-, hlink⟩ := h.linked tr htr
      obtain ⟨rfl, rfl⟩ := Prod.mk.inj (hlink _ hd)
      rw [hleased.unleased hd] at hj
      rcases commitSpeculative_cases plan result hleased hcore htr h.progress
        h.internal with ⟨e, f, hres⟩ | ⟨events, u, hres, hquiet⟩
      · rw [hres] at hunarmed ⊢
        have hf : f = none := hunarmed
        have hself : s.withFault f = s := by
          rw [hf, ← h.fault]
          exact s.withFault_self
        rw [Call.after_error, hself]
        change J s.unleased
        rwa [hleased.unleased hd]
      · rw [hres]
        obtain ⟨prepared, desired, hc, hdes, -, rfl⟩ := hquiet h.fault
        obtain ⟨-, hfree⟩ := hleased.kept_free hcore.own.poolOk (desiredRetention_ok hdes).1
        have hkept := hleased.kept_core hcore (desiredRetention_ok hdes).1 hrows
        have hin : ∀ e ∈ keptRows desired, e.1 ∈ base.running := by
          intro e he
          have hmem : e.1 ∈ (keptRows desired).map Prod.fst := List.mem_map_of_mem he
          rw [keptRows_fst, (desiredRetention_ok hdes).1, hleased.sequences] at hmem
          obtain ⟨q, hq, heq⟩ := List.mem_map.mp hmem
          exact heq ▸ hrows q hq
        have hq : (base.lend (keptRows desired)).Quiet :=
          { reservation := (congrArg Control.activeReservation hleased.control).trans rfl
            progress := (congrArg Control.reservationInProgress hleased.control).trans h.progress
            internal := (congrArg Control.internalAllocation hleased.control).trans h.internal
            fault := (congrArg Control.fault hleased.control).trans h.fault }
        have hb := hc.bursts hleased hcore hdes
        have hall := hJ.commitAll hkept hq (hJ.lend hcore hj hin hfree) hb
        have hcall := hkept.commitAll hb
        refine unleased_of_idle rfl (hJ.carried _ _ hcall.owns hall ?_)
        exact .sameRows rfl rfl (fun _ => .refl _) (fun _ hy => hy) rfl

private theorem withControl (h : Core cfg [] s) (hj : J s) {c : Control} (hrun : c.running = s.running)
    (hwait : c.waiting = s.waiting) : J (s.withControl c) :=
  hJ.carried s _ h.owns hj (.withControl hrun hwait)

private theorem untouched (h : Core cfg [] s) (hj : J s) (hd : s.activeDraftDiscard = none)
    (ht : Untouched s t) : J t.unleased := by
  obtain ⟨f, n, c, rfl⟩ := ht
  exact unleased_of_idle hd (hJ.withControl (c := (s.retouch f n c).control) h hj rfl rfl)

private theorem leaves_plan (h : Protocol cfg s) (hj : J s.unleased) (workspace : SpeculativeWorkspace)
    (batch : List Nat) (admission : Option DraftRouteAdmission)
    (baseline : Option (List DecodeScheduleRollbackRow)) :
    Call.Leaves (planSpeculativeStep cfg workspace batch admission baseline) s
      fun t => J t.unleased := by
  unfold Call.Leaves
  cases htr : s.activeSpecTransaction with
  | some tr =>
    have hres : planSpeculativeStep cfg workspace batch admission baseline s =
        .error (.runtimeError "a speculative transaction is already active") s := by
      unfold planSpeculativeStep
      rw [Call.bind_of_ok (tick_quiet h.fault), Call.bind_of_ok (Call.get_apply s)]
      simp [htr]
    rw [hres]
    exact hj
  | none =>
    have hd := h.closed htr
    obtain ⟨hnone, hcore⟩ := h.idle hd
    rw [State.unleased_idle hd] at hj
    rcases planSpeculativeStep_cases cfg hnone h.progress h.internal hcore.own.poolOk
      workspace batch admission baseline with
      ⟨e, t, hres, ht⟩ | ⟨plan, t, hres, -, ht⟩ | ⟨plan, rollback, base, rows, r, t, hres, ho⟩
    · rw [hres]
      exact hJ.untouched hcore hj hd ht
    · rw [hres]
      exact hJ.untouched hcore hj hd ht
    · rw [hres]
      change J t.unleased
      obtain ⟨u, ⟨f, n, c, rfl⟩, hbase⟩ := ho.base_eq
      have hbd : base.activeDraftDiscard = some (plan, r) := by
        rw [hbase]
        rfl
      have htd : t.activeDraftDiscard = some (plan, r) :=
        (congrArg Control.activeDraftDiscard ho.leased.control).symm.trans hbd
      rw [ho.leased.unleased htd, hbase]
      exact hJ.withControl
        (c := ((s.retouch f n c).openTransaction plan r rollback).control) hcore hj rfl rfl

private theorem leaves_prepare (h : Protocol cfg s) (hj : J s.unleased) (plan : SpecStepPlan) :
    Call.Leaves (prepareSpeculativeTargetWrites plan) s fun t => J t.unleased := by
  unfold Call.Leaves prepareSpeculativeTargetWrites
  rw [Call.bind_of_ok (Call.get_apply s)]
  cases htr : s.activeSpecTransaction with
  | none => exact hj
  | some tr =>
    dsimp only
    split
    · exact hj
    split
    · exact hj
    obtain ⟨-, hlink⟩ := h.linked tr htr
    rcases h.lease with ⟨hd, hnone, hcore⟩ | ⟨base, rows, plan', r, hd, hleased, hcore, hrows⟩
    · obtain ⟨e, hres⟩ := prepareTemporaryTargetWrites_unleased h.fault hnone tr.reservation
      rw [Call.bind_of_error hres]
      exact hj
    · obtain ⟨rfl, rfl⟩ := Prod.mk.inj (hlink _ hd)
      have hunarmed := unarmed.prepareTemporaryTargetWrites tr.reservation s h.fault
      unfold Call.Leaves at hunarmed
      rcases hleased.prepare hcore.own.poolOk with hres | ⟨f, hres, hnew⟩
      · have hself : s.withFault none = s := by
          rw [← h.fault]
          exact s.withFault_self
        rw [Call.bind_of_error hres, hself]
        exact hj
      · rw [hres] at hunarmed
        have hf : f = none := hunarmed
        subst hf
        rw [Call.bind_of_ok hres, Call.modify_apply, Call.after_ok]
        rw [hleased.unleased hd] at hj
        obtain ⟨w, hw⟩ : ∃ w, w = writableRecord tr.reservation := ⟨_, rfl⟩
        rw [← hw] at hnew ⊢
        obtain ⟨u, hu⟩ : ∃ u : State, u = { s with activeReservation := some w }.withFault none :=
          ⟨_, rfl⟩
        rw [← hu] at hnew ⊢
        have hopen := hnew.withControl (c := (u.replaceLease tr w).control) (by rw [hu]; rfl)
        have hactive : (u.replaceLease tr w).activeDraftDiscard = some (tr.plan, w) := rfl
        have hbase : (u.replaceLease tr w).unleased = _ := hopen.unleased hactive
        change J (u.replaceLease tr w).unleased
        rw [hbase]
        have hwiped := (base.wipe_empties (lentBlocks rows)).congr
          (u := ((base.wipe (lentBlocks rows)).withFault none).withControl
            { (u.replaceLease tr w).control with activeReservation := none }) rfl rfl
        have hsub : ∀ b ∈ lentBlocks rows, b ∈ base.freeBlockIds := by
          intro b hb
          rw [hleased.front] at hb
          exact List.mem_of_mem_take hb
        refine hJ.carried base _ hcore.owns hj (hwiped.carried fun y hy => Or.inl ⟨?_, ?_⟩)
        · change y ∈ u.running ++ u.waiting at hy
          rw [hu] at hy
          rwa [show base.running = s.running from congrArg Control.running hleased.control,
            show base.waiting = s.waiting from congrArg Control.waiting hleased.control]
        · have hy' : y ∈ base.running ++ base.waiting := by
            change y ∈ u.running ++ u.waiting at hy
            rw [hu] at hy
            rwa [show base.running = s.running from congrArg Control.running hleased.control,
              show base.waiting = s.waiting from congrArg Control.waiting hleased.control]
          exact hwiped.kept hcore.owns hsub hy' (List.prefix_refl _) rfl fun _ _ _ hi => hi

private theorem discard (h : Protocol cfg s) (hj : J s.unleased) (plan : SpecStepPlan) :
    Call.Leaves (rollbackDraftDiscard plan) s fun t => J t.unleased := by
  unfold Call.Leaves
  rcases h.lease with ⟨hd, -, hcore⟩ | ⟨base, rows, plan', r, hd, hleased, hcore, hrows⟩
  · rw [rollbackDraftDiscard_idle plan hd]
    exact hj
  · by_cases hplan : plan' = plan
    · subst hplan
      rw [hleased.rollbackDiscard hcore.own.poolOk hd]
      rw [hleased.unleased hd] at hj
      exact unleased_of_idle rfl
        (hJ.withControl (c := base.withoutDiscard.control) hcore hj rfl rfl)
    · have hres : rollbackDraftDiscard plan s =
          .error (.runtimeError "draft-discard plan identity mismatch") s := by
        unfold rollbackDraftDiscard
        rw [Call.bind_of_ok (Call.get_apply s), hd]
        simp only [ne_eq, hplan, not_false_eq_true, ↓reduceIte]
        exact Call.bind_of_error (Call.throw_apply _ _)
      rw [hres]
      exact hj

private theorem recontrolled (h : Protocol cfg s) (hj : J s.unleased) {c : Control}
    (hres : c.activeReservation = s.activeReservation)
    (hdis : c.activeDraftDiscard = s.activeDraftDiscard) (hrun : c.running = s.running)
    (hwait : c.waiting = s.waiting) : J (s.withControl c).unleased := by
  rcases h.lease with ⟨hd, -, hcore⟩ | ⟨base, rows, plan, r, hd, hleased, hcore, -⟩
  · rw [State.unleased_idle hd] at hj
    exact unleased_of_idle (hdis.trans hd) (hJ.withControl hcore hj hrun hwait)
  · rw [hleased.unleased hd] at hj
    have hnew := hleased.withControl (c := c) (hres.trans hleased.active)
    rw [hnew.unleased (hdis.trans hd)]
    refine hJ.withControl hcore hj ?_ ?_
    · exact hrun.trans (congrArg Control.running hleased.control).symm
    · exact hwait.trans (congrArg Control.waiting hleased.control).symm

private theorem coverage (h : Protocol cfg s) (hj : J s.unleased) (plan : SpecStepPlan) :
    Call.Leaves (abortDraftCoverage plan) s fun t => J t.unleased := by
  unfold Call.Leaves
  rcases abortDraftCoverage_cases plan s with ⟨-, hres⟩ | ⟨-, hres⟩ | ⟨e, -, -, hres⟩
  · rw [hres]
    exact hj
  · rw [hres]
    exact hJ.recontrolled (c := s.withoutPending.control) h hj rfl rfl rfl rfl
  · rw [hres]
    exact hj

end Lasting

/-- Taking back appended blocks hashes nothing: each row keeps a prefix of its table. -/
private theorem Carries.undone (h : Core cfg [] s) {rollback : List DecodeScheduleRollbackRow}
    {validated : List (Nat × Option Nat)} (hu : Undone cfg s rollback validated) :
    Carries cfg s (s.undone rollback validated) := by
  have hctl := s.undone_control rollback validated
  have hblocks : (s.undone rollback validated).blocks = (s.dropAllAppended validated).blocks := by
    unfold State.undone
    rw [State.clearScheduled_eq]
  have hindex : (s.undone rollback validated).hashToBlockId =
      (s.dropAllAppended validated).hashToBlockId := by
    unfold State.undone
    rw [State.clearScheduled_eq]
  have hempties : Empties [] s (s.undone rollback validated) := by
    refine .of_content (fun b => ?_) (hindex.trans (s.dropAllAppended_index validated))
    have hblock := congrFun (s.dropAllAppended_blocks validated) b
    rw [← hblocks] at hblock
    refine ⟨?_, ?_, ?_⟩ <;> rw [hblock] <;> split <;> rfl
  refine hempties.carried fun y hy => Or.inl ?_
  rw [show (s.undone rollback validated).running = s.running from congrArg Control.running hctl,
    show (s.undone rollback validated).waiting = s.waiting from congrArg Control.waiting hctl] at hy
  by_cases hin : y ∈ rollback.map DecodeScheduleRollbackRow.sequence
  · obtain ⟨row, hrow, rfl⟩ := List.mem_map.mp hin
    obtain ⟨table, hseqs, -, more, hmore⟩ := hu.row hrow
    refine ⟨hy, hempties.kept h.owns (by simp) hy ?_ ?_ ?_⟩
    · rw [hseqs]
    · rw [hseqs]
    · intro i b _ hi
      rw [State.table, hseqs] at hi
      have hlt : i < table.length := (List.getElem?_eq_some_iff.mp hi).1
      rw [hmore, List.getElem?_append_left hlt]
      exact hi
  · have hsame := State.undone_seqs_out (s := s) hu.fst hin
    refine ⟨hy, hempties.kept h.owns (by simp) hy ?_ ?_ ?_⟩
    · rw [hsame]
    · rw [hsame]
    · intro i b _ hi
      rwa [State.table, hsame] at hi

namespace Lasting

variable (hJ : Lasting cfg J)

include hJ

private theorem undo (h : Protocol cfg s) (hj : J s.unleased)
    (rollback : List DecodeScheduleRollbackRow) :
    Call.Leaves (rollbackFailedDecodeSchedule cfg rollback) s fun t => J t.unleased := by
  unfold Call.Leaves
  cases hd : s.activeDraftDiscard with
  | some d =>
    have hres : rollbackFailedDecodeSchedule cfg rollback s =
        .error (.runtimeError "temporary draft reservation is still active") s := by
      unfold rollbackFailedDecodeSchedule
      rw [Call.bind_of_ok (Call.get_apply s), hd]
      rfl
    rw [hres]
    exact hj
  | none =>
    obtain ⟨-, hcore⟩ := h.idle hd
    rw [State.unleased_idle hd] at hj
    rcases rollbackFailedDecodeSchedule_cases rollback with
      ⟨e, hres⟩ | ⟨changed, validated, hres, hundone⟩
    · rw [hres]
      exact unleased_of_idle hd hj
    · rw [hres]
      have hctl := s.undone_control rollback validated
      exact unleased_of_idle ((congrArg Control.activeDraftDiscard hctl).trans hd)
        (hJ.carried s _ hcore.owns hj (.undone hcore hundone))

private theorem closed (h : Protocol cfg s) (hj : J s.unleased) : J s.withoutTransaction.unleased :=
  hJ.recontrolled (c := s.withoutTransaction.control) h hj rfl rfl rfl rfl

private theorem leaves_abort (h : Protocol cfg s) (hj : J s.unleased) :
    Call.Leaves (abortSpeculativeStep cfg) s fun t => J t.unleased := by
  cases htr : s.activeSpecTransaction with
  | none =>
    unfold Call.Leaves
    rw [abortSpeculativeStep_idle cfg htr]
    exact hj
  | some tr =>
    obtain ⟨released, u, hrel, hu, hud, -, -, -⟩ := h.releaseDiscard htr
    have hpages := (h.linked tr htr).1
    have hju := hJ.discard h hj tr.plan
    unfold Call.Leaves at hju ⊢
    rw [hrel] at hju
    have htail : ∀ v : State, Protocol cfg v → v.activeDraftDiscard = none → J v.unleased →
        Call.Leaves (do
          let _ ← rollbackFailedDecodeSchedule cfg tr.baselineDecodeRollback
          modify State.withoutTransaction
          pure true : Call Bool) v fun t => J t.unleased := by
      intro v hv hvd hjv
      have hroll := hv.leaves_rollbackFailed hvd hpages
      have hjw := hJ.undo hv hjv tr.baselineDecodeRollback
      unfold Call.Leaves at hroll hjw ⊢
      cases hres : rollbackFailedDecodeSchedule cfg tr.baselineDecodeRollback v with
      | error e w =>
        rw [hres] at hjw
        rw [Call.bind_of_error hres]
        exact hjw
      | ok changed w =>
        rw [hres] at hroll hjw
        rw [Call.bind_of_ok hres, Call.bind_of_ok (Call.modify_apply _ _)]
        exact hJ.closed hroll.1 hjw
    unfold abortSpeculativeStep
    rw [Call.bind_of_ok (Call.get_apply s), htr]
    dsimp only
    rw [Call.bind_of_ok hrel]
    rcases abortDraftCoverage_cases tr.plan u with ⟨-, hp⟩ | ⟨-, hp⟩ | ⟨e, -, -, hp⟩
    · rw [Call.bind_of_ok hp]
      exact htail u hu hud hju
    · rw [Call.bind_of_ok hp]
      refine htail _ (hu.withoutPending hud) hud ?_
      exact hJ.recontrolled (c := u.withoutPending.control) hu hju rfl rfl rfl rfl
    · rw [Call.bind_of_error hp]
      exact hju

private theorem leaves_handoff (h : Protocol cfg s) (hj : J s.unleased) (plan : SpecStepPlan) :
    Call.Leaves (handoffDraftDiscard plan) s fun t => J t.unleased := by
  unfold Call.Leaves handoffDraftDiscard
  rw [Call.bind_of_ok (tick_quiet h.fault), Call.bind_of_ok (Call.get_apply s)]
  cases hchecks : handoffChecks s plan with
  | error e =>
    rw [Call.bind_of_error (liftExcept_error e s)]
    exact hj
  | ok u =>
    rw [Call.bind_of_ok (liftExcept_ok u s)]
    unfold handoffChecks at hchecks
    obtain ⟨-, hchecks⟩ := Call.except_guard hchecks
    obtain ⟨-, hchecks⟩ := Call.except_guard hchecks
    have hactive : s.activeDraftDiscard.map Prod.fst = some plan := by
      by_contra hne
      rw [if_pos hne] at hchecks
      exact absurd hchecks (by simp [throw, throwThe, MonadExceptOf.throw])
    obtain ⟨d, hd, rfl⟩ := Option.map_eq_some_iff.mp hactive
    cases htr : s.activeSpecTransaction with
    | none =>
      rw [h.closed htr] at hd
      exact absurd hd (by simp)
    | some tr =>
      have hdeq := (h.linked tr htr).2 d hd
      rw [hdeq]
      obtain ⟨released, v, hrel, hv, hvd, -, -, -⟩ := h.releaseDiscard htr
      have hjv := hJ.discard h hj tr.plan
      unfold Call.Leaves at hjv
      rw [hrel] at hjv
      rw [Call.bind_of_ok hrel]
      split
      · rw [Call.bind_of_ok (tick_quiet hv.fault), Call.modify_apply, Call.after_ok]
        obtain ⟨w, hw⟩ : ∃ w : State, w = { v with
            pendingDraftCoveragePlan := some tr.plan
            pendingDraftCoverage := none } := ⟨_, rfl⟩
        rw [← hw]
        have hmoved : w = v.withControl w.control := by
          rw [hw]
          rfl
        rw [hmoved]
        exact hJ.recontrolled hv hjv (by rw [hw]; rfl) (by rw [hw]; rfl) (by rw [hw]; rfl)
          (by rw [hw]; rfl)
      · exact hjv

private theorem leaves_stage (h : Protocol cfg s) (hj : J s.unleased) (plan : SpecStepPlan)
    (batch : List Nat) (coverage : List (Nat × Nat)) :
    Call.Leaves (stageDraftCoverage plan batch coverage) s fun t => J t.unleased := by
  unfold Call.Leaves stageDraftCoverage
  rw [Call.bind_of_ok (tick_quiet h.fault), Call.bind_of_ok (Call.get_apply s)]
  cases hchecks : stageChecks s plan batch coverage with
  | error e =>
    rw [Call.bind_of_error (liftExcept_error e s)]
    exact hj
  | ok u =>
    rw [Call.bind_of_ok (liftExcept_ok u s), Call.set_apply, Call.after_ok]
    obtain ⟨w, hw⟩ : ∃ w : State, w = { s with
        pendingDraftCoverage := some ((plan.rows.map SpecPlanRow.seqId).map fun y =>
          (y, coverageOf coverage y)) } := ⟨_, rfl⟩
    rw [← hw]
    have hmoved : w = s.withControl w.control := by
      rw [hw]
      rfl
    rw [hmoved]
    exact hJ.recontrolled h hj (by rw [hw]; rfl) (by rw [hw]; rfl) (by rw [hw]; rfl)
      (by rw [hw]; rfl)

end Lasting

private theorem State.created_table (s : State) (tokenIds : List Nat) (maxTokens : Nat)
    (ignoreEos : Bool) : (s.created tokenIds maxTokens ignoreEos).table =
      Function.update s.table s.nextSeqId [] := by
  funext y
  change (Function.update s.seqs s.nextSeqId _ y).blockTable = _
  by_cases hy : y = s.nextSeqId
  · subst hy
    rw [Function.update_self, Function.update_self]
    rfl
  · rw [Function.update_of_ne hy, Function.update_of_ne hy]
    rfl

theorem Carries.created (h : Core cfg [] s) (tokenIds : List Nat) (maxTokens : Nat)
    (ignoreEos : Bool) : Carries cfg s (s.created tokenIds maxTokens ignoreEos) := by
  refine .recast rfl rfl fun y hy => ⟨hy, ?_⟩
  have hne : y ≠ s.nextSeqId := by
    rintro rfl
    exact absurd (h.known _ (by rwa [List.nil_append])) (lt_irrefl _)
  have hsame : (s.created tokenIds maxTokens ignoreEos).seqs y = s.seqs y :=
    Function.update_of_ne hne _ _
  rw [State.table, hsame]
  exact ⟨rfl, rfl, rfl⟩

theorem Carries.enqueue (h : Core cfg [] s) (tokenIds : List Nat) (maxTokens : Nat)
    (ignoreEos : Bool) : Carries cfg s (s.enqueue tokenIds maxTokens ignoreEos) := by
  have hcreated := Carries.created h tokenIds maxTokens ignoreEos
  have hmore : Carried cfg (s.running ++ s.waiting) s (s.running ++ (s.waiting ++ [s.nextSeqId]))
      (s.created tokenIds maxTokens ignoreEos) := by
    refine ⟨hcreated.index, hcreated.content, fun y hy => ?_⟩
    by_cases hyx : y = s.nextSeqId
    · subst hyx
      refine Or.inr (.of_bare ?_)
      rw [State.created_table, Function.update_self]
    · refine hcreated.rows y ?_
      change y ∈ s.running ++ s.waiting
      simpa [hyx] using hy
  exact hmore.congr rfl rfl rfl rfl rfl rfl

private theorem Carries.forgetAll {xs : List Nat} : ∀ {s : State}, xs.Nodup →
    (∀ x ∈ xs, x ∈ s.running ++ s.waiting) → Core cfg [] s → s.Quiet →
      Carries cfg s (s.forgetAll xs) := by
  induction xs with
  | nil => exact fun _ _ _ _ => .refl cfg _ _
  | cons x xs ih =>
    intro s hnd hmem h hq
    obtain ⟨hx, hnd'⟩ := List.nodup_cons.mp hnd
    have hctl := s.forget_control x
    have hrun : (s.forget x).running = s.running.erase x := congrArg Control.running hctl
    have hwait : (s.forget x).waiting = s.waiting.erase x := congrArg Control.waiting hctl
    have hone : Carries cfg s (s.forget x) := by
      refine .forget h.owns x fun y hy => ?_
      rw [hrun, hwait] at hy
      rcases List.mem_append.mp hy with hy | hy
      · exact List.mem_append_left _ (List.mem_of_mem_erase hy)
      · exact List.mem_append_right _ (List.mem_of_mem_erase hy)
    refine hone.trans h.owns (ih hnd' (fun y hy => ?_) (h.forget (hmem x (by simp))) (hq.forget x))
    have hyx : y ≠ x := by
      rintro rfl
      exact hx hy
    rw [hrun, hwait]
    rcases List.mem_append.mp (hmem y (by simp [hy])) with hy' | hy'
    · exact List.mem_append_left _ ((List.mem_erase_of_ne hyx).mpr hy')
    · exact List.mem_append_right _ ((List.mem_erase_of_ne hyx).mpr hy')

theorem Carries.drop (h : Core cfg [] s) (hq : s.Quiet) (targets : List Nat) :
    Carries cfg s (s.drop targets) := by
  have hlive := h.own.live_nodup
  rw [List.nil_append, List.nodup_append] at hlive
  have hwn : (s.waiting.filter (· ∈ targets)).Nodup := hlive.2.1.filter _
  have hrn : (s.running.filter (· ∈ targets)).Nodup := hlive.1.filter _
  have hwmem : ∀ x ∈ s.waiting.filter (· ∈ targets), x ∈ s.running ++ s.waiting := fun x hx =>
    List.mem_append_right _ (List.mem_filter.mp hx).1
  obtain ⟨hcore', hq'⟩ := forgetAll_mem hwn hwmem h hq
  have hwait := Carries.forgetAll hwn hwmem h hq
  obtain ⟨u, hu⟩ : ∃ u, u = s.forgetAll (s.waiting.filter (· ∈ targets)) := ⟨_, rfl⟩
  rw [State.drop, ← hu]
  rw [← hu] at hcore' hq' hwait
  refine hwait.trans h.owns (Carries.forgetAll hrn (fun x hx => ?_) hcore' hq')
  refine List.mem_append_left _ ?_
  rw [hu, State.forgetAll_running]
  · exact (List.mem_filter.mp hx).1
  · intro y hy hyr
    exact hlive.2.2 y hyr y (List.mem_filter.mp hy).1 rfl

namespace Lasting

variable (hJ : Lasting cfg J)

include hJ

private theorem leaves_add (h : Protocol cfg s) (hj : J s.unleased) (tokenIds : List Nat)
    (maxTokens : Nat) (ignoreEos : Bool) :
    Call.Leaves (add cfg tokenIds maxTokens ignoreEos) s fun t => J t.unleased := by
  have hcreated : J (s.created tokenIds maxTokens ignoreEos).unleased := by
    rcases h.lease with ⟨hd, -, hcore⟩ | ⟨base, rows, plan, r, hd, hleased, hcore, hrows⟩
    · rw [State.unleased_idle hd] at hj
      exact unleased_of_idle hd (hJ.carried s _ hcore.owns hj (.created hcore _ _ _))
    · rw [hleased.unleased hd] at hj
      have hnew := Protocol.leased_created hleased hcore hrows tokenIds maxTokens ignoreEos
      have hnewd : (s.created tokenIds maxTokens ignoreEos).activeDraftDiscard = some (plan, r) := hd
      rw [hnew.unleased hnewd]
      exact hJ.carried base _ hcore.owns hj (.created hcore _ _ _)
  unfold Call.Leaves
  rcases add_cases cfg s tokenIds maxTokens ignoreEos with
    ⟨-, e, hres⟩ | ⟨-, -, e, hres⟩ | ⟨-, -, hres⟩
  · rw [hres]
    exact hj
  · rw [hres]
    exact hcreated
  · rw [hres]
    change J (s.enqueue tokenIds maxTokens ignoreEos).unleased
    rcases h.lease with ⟨hd, -, hcore⟩ | ⟨base, rows, plan, r, hd, hleased, hcore, hrows⟩
    · rw [State.unleased_idle hd] at hj
      exact unleased_of_idle hd (hJ.carried s _ hcore.owns hj (.enqueue hcore _ _ _))
    · rw [hleased.unleased hd] at hj
      have hnew := Protocol.leased_enqueue hleased hcore hrows tokenIds maxTokens ignoreEos
      have hnewd : (s.enqueue tokenIds maxTokens ignoreEos).activeDraftDiscard = some (plan, r) := hd
      rw [hnew.unleased hnewd]
      exact hJ.carried base _ hcore.owns hj (.enqueue hcore _ _ _)

private theorem leaves_schedule (h : Protocol cfg s) (hj : J s.unleased) :
    Call.Leaves (schedule cfg) s fun t => J t.unleased := by
  unfold Call.Leaves
  rcases h.schedule_start with ⟨e, hres⟩ | hready
  · rw [hres]
    exact hj
  · rw [State.unleased_idle hready.1.discard] at hj
    obtain ⟨done, u, batch, v, hs, hv, hok, herr⟩ := schedule_trace hready
    have hjv := hJ.carried s v hready.2.owns hj (hs.carried hready)
    have hunleased := unleased_of_idle hv.1.discard hjv
    by_cases hbatch : batch = []
    · obtain ⟨message, hres⟩ := herr hbatch
      rw [hres]
      exact hunleased
    · rw [hok hbatch]
      exact hunleased

private theorem dropPendingCoverage (h : Protocol cfg s) (hj : J s.unleased) (targets : List Nat) :
    J (s.dropPendingCoverage targets).unleased := by
  unfold State.dropPendingCoverage
  split
  · exact hj
  split
  · exact hJ.recontrolled (c := s.withoutPending.control) h hj rfl rfl rfl rfl
  · exact hj

private theorem leaves_cancel (h : Protocol cfg s) (hj : J s.unleased) (targets : List Nat) :
    Call.Leaves (cancel cfg targets) s fun t => J t.unleased := by
  obtain ⟨hkeep, hclosed⟩ := h.leaves_abort
  have habort := hJ.leaves_abort h hj
  unfold Call.Leaves at hkeep habort ⊢
  rcases h.cancel_steps targets with
    ⟨-, hres⟩ | ⟨-, ⟨e, u, hu, hres⟩ | ⟨aborted, u, hu, -, hres⟩⟩
  · rw [hres]
    exact hj
  · rw [hu] at habort
    rw [hres]
    exact habort
  · have hutr := hclosed aborted u hu
    rw [hu] at hkeep habort
    rw [hres]
    have hp : Protocol cfg u := hkeep.1
    have hud := hp.closed hutr
    obtain ⟨hpend, -, hpd, -⟩ := hp.dropPendingCoverage hud targets
    have hju := hJ.dropPendingCoverage hp habort targets
    obtain ⟨v, hv⟩ : ∃ v, v = u.dropPendingCoverage targets := ⟨_, rfl⟩
    rw [← hv] at hpend hpd hju ⊢
    rw [State.unleased_idle hpd] at hju
    have hcore := (hpend.idle hpd).2
    have hq := hpend.quiet hpd
    refine unleased_of_idle ?_ (hJ.carried v _ hcore.owns hju (.drop hcore hq targets))
    have hfirst := State.forgetAll_control v (v.waiting.filter (· ∈ targets))
    have hsecond := State.forgetAll_control (v.forgetAll (v.waiting.filter (· ∈ targets)))
      (v.running.filter (· ∈ targets))
    exact (congrArg Control.activeDraftDiscard hsecond).trans
      ((congrArg Control.activeDraftDiscard hfirst).trans hpd)

theorem companion : Companion cfg fun s => J s.unleased where
  init := unleased_of_idle rfl hJ.init
  add := fun _ h hj => hJ.leaves_add h hj
  schedule := fun _ h hj => hJ.leaves_schedule h hj
  postprocess := fun _ h hj => hJ.leaves_postprocess h hj
  plan := fun _ h hj => hJ.leaves_plan h hj
  prepare := fun _ h hj => hJ.leaves_prepare h hj
  commit := fun _ h hj => hJ.leaves_commit h hj
  abort := fun _ h hj => hJ.leaves_abort h hj
  handoff := fun _ h hj => hJ.leaves_handoff h hj
  stage := fun _ h hj => hJ.leaves_stage h hj
  cancel := fun _ h hj => hJ.leaves_cancel h hj
  discard := fun _ h _ hj => hJ.discard h hj
  coverage := fun _ h _ hj => hJ.coverage h hj
  undo := fun _ h _ hj rows _ => hJ.undo h hj rows

end Lasting

end NanoVllm
