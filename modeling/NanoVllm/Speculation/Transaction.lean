/- module: NanoVllm/Speculation/Transaction
   layer: refinement
   source: nanovllm/engine/scheduler.py, prepare_speculative_target_writes, handoff_draft_discard,
     stage_draft_coverage, abort_speculative_step
   digest: What each transaction call leaves behind, whether it returns or raises. -/

import NanoVllm.Speculation.CommitCall
import NanoVllm.Speculation.Undo

set_option autoImplicit false
set_option relaxedAutoImplicit false

namespace NanoVllm

open Library

variable {cfg : Config} {held : List Nat} {s t base : State} {rows : List (Nat × List Nat)}
  {r : TemporaryBlockReservation} {x : Nat}

structure Sequence.SameRow (a b : Sequence) : Prop where
  tokenIds : a.tokenIds = b.tokenIds
  cached : a.numCachedTokens = b.numCachedTokens
  scheduled : a.numScheduledTokens = b.numScheduledTokens
  table : a.blockTable = b.blockTable

theorem Sequence.SameRow.refl (a : Sequence) : a.SameRow a := ⟨rfl, rfl, rfl, rfl⟩

theorem Core.recast (h : Core cfg held s) (hrow : ∀ y, (t.seqs y).SameRow (s.seqs y))
    (hblocks : t.blocks = s.blocks) (hindex : t.hashToBlockId = s.hashToBlockId)
    (hfree : t.freeBlockIds = s.freeBlockIds) (hused : t.usedBlockIds = s.usedBlockIds)
    (hrun : t.running = s.running) (hwait : t.waiting = s.waiting)
    (hmid : t.midChunkSeq = s.midChunkSeq) (hnext : t.nextSeqId = s.nextSeqId) :
    Core cfg held t := by
  have htable : t.table = s.table := funext fun y => (hrow y).table
  have hcov : t.coverage cfg = s.coverage cfg := by
    funext y
    simp only [State.coverage, (hrow y).cached]
  have hnum : ∀ y, (t.seqs y).numTokens = (s.seqs y).numTokens :=
    fun y => congrArg List.length (hrow y).tokenIds
  refine ⟨?_, ?_, ?_, ?_, ?_, ?_, ?_, ?_⟩
  · rw [htable, hcov, hrun, hwait]
    exact h.own.congr_pool hblocks hindex hfree hused
  · rw [htable, hwait, hmid]
    exact h.mid_owner
  · rw [htable, hwait, hmid]
    exact h.mid_head
  · intro y hy
    rw [hrun] at hy
    have hold := h.started y hy
    exact ⟨by rw [(hrow y).cached, (hrow y).scheduled, hnum]; exact hold.scheduled_le,
      by rw [(hrow y).cached, (hrow y).scheduled, (hrow y).table]; exact hold.within,
      by rw [(hrow y).cached, hnum]; exact hold.cached_lt,
      by rw [(hrow y).table, hnum]; exact hold.roomy⟩
  · intro y hy hne
    rw [hwait] at hy
    rw [htable] at hne
    have hold := h.chunked y hy hne
    exact ⟨by rw [(hrow y).cached, (hrow y).scheduled, hnum]; exact hold.scheduled_lt,
      by rw [(hrow y).cached, (hrow y).scheduled, (hrow y).table]; exact hold.within⟩
  · intro y hy
    rw [hwait] at hy
    rw [hnum]
    exact h.nonempty y hy
  · rw [hrun, hwait, hnext]
    exact h.known
  · rw [hrun, hwait, htable]
    exact h.dead

theorem Core.withControl (h : Core cfg held s) {c : Control} (hrun : c.running = s.running)
    (hwait : c.waiting = s.waiting) (hmid : c.midChunkSeq = s.midChunkSeq)
    (hnext : c.nextSeqId = s.nextSeqId) : Core cfg held (s.withControl c) :=
  h.recast (fun _ => .refl _) rfl rfl rfl rfl hrun hwait hmid hnext

theorem Leased.setSeq (h : Leased base rows t r) (hx : x ∉ rows.map Prod.fst) (seq : Sequence) :
    Leased (base.setSeq x seq) rows (t.setSeq x seq) r where
  pool := by
    apply State.ext_control
    · funext y
      have hy := congrFun h.seqs_eq y
      change Function.update t.seqs x seq y = { (Function.update base.seqs x seq y) with
        blockTable := (Function.update base.seqs x seq y).blockTable ++ lentTo rows y }
      by_cases hyx : y = x
      · subst hyx
        rw [Function.update_self, Function.update_self, lentTo_eq_nil hx, List.append_nil]
      · rw [Function.update_of_ne hyx, Function.update_of_ne hyx]
        exact hy
    · exact h.blocks_eq
    · exact h.index_eq
    · exact h.free_eq
    · exact h.used_eq
    · rfl
  record := by
    have hne : ∀ e ∈ rows, (base.setSeq x seq).seqs e.1 = base.seqs e.1 := by
      intro e he
      rw [State.setSeq_seqs, Function.update_of_ne]
      exact fun heq => hx (heq ▸ List.mem_map_of_mem he)
    have hrows : leaseRecordRows (base.setSeq x seq) rows = leaseRecordRows base rows := by
      apply List.map_congr_left
      intro e he
      unfold snapshotRow
      rw [hne e he]
    have htables : (rows.flatMap fun e => (base.setSeq x seq).table e.1) =
        rows.flatMap fun e => base.table e.1 := by
      apply List.flatMap_congr
      intro e he
      unfold State.table
      rw [hne e he]
    have hrec : leaseRecord (base.setSeq x seq) rows r.reservationId r.generation =
        leaseRecord base rows r.reservationId r.generation := by
      unfold leaseRecord
      rw [hrows, htables]
      rfl
    rw [hrec]
    exact h.record
  active := h.active
  control := h.control
  distinct := h.distinct
  front := h.front

private theorem Leased.core (h : Leased base rows t r) (hcore : Core cfg [] base)
    (hrows : ∀ e ∈ rows, e.1 ∈ base.running) : Core cfg [] t := by
  have hsub : (lentBlocks rows).Sublist base.freeBlockIds := by
    rw [h.front]
    exact List.take_sublist _ _
  have hlend := hcore.lend hrows (hcore.own.free_nodup.sublist hsub)
    fun b hb => hsub.subset hb
  rw [h.pool]
  exact hlend.withControl (congrArg Control.running h.control).symm
    (congrArg Control.waiting h.control).symm (congrArg Control.midChunkSeq h.control).symm
    (congrArg Control.nextSeqId h.control).symm

/-- What holds between two calls on the scheduler, whatever their order and arguments. -/
structure Protocol (cfg : Config) (s : State) : Prop where
  progress : s.reservationInProgress = false
  internal : s.internalAllocation = false
  fault : s.fault = none
  lease : (s.activeDraftDiscard = none ∧ s.activeReservation = none ∧ Core cfg [] s) ∨
    ∃ base rows plan r, s.activeDraftDiscard = some (plan, r) ∧ Leased base rows s r ∧
      Core cfg [] base ∧ ∀ e ∈ rows, e.1 ∈ base.running
  linked : ∀ tr, s.activeSpecTransaction = some tr →
    CountsPages cfg tr.baselineDecodeRollback ∧
      ∀ d, s.activeDraftDiscard = some d → d = (tr.plan, tr.reservation)
  closed : s.activeSpecTransaction = none → s.activeDraftDiscard = none

namespace Protocol

theorem core (h : Protocol cfg s) : Core cfg [] s := by
  rcases h.lease with ⟨-, -, hcore⟩ | ⟨base, rows, plan, r, -, hleased, hcore, hrows⟩
  · exact hcore
  · exact hleased.core hcore hrows

theorem init (cfg : Config) : Protocol cfg (State.init cfg) where
  progress := rfl
  internal := rfl
  fault := rfl
  lease := Or.inl ⟨rfl, rfl, Core.init cfg⟩
  linked := by simp [State.init]
  closed := fun _ => rfl

theorem idle (h : Protocol cfg s) (hdis : s.activeDraftDiscard = none) :
    s.activeReservation = none ∧ Core cfg [] s := by
  rcases h.lease with ⟨-, hnone, hcore⟩ | ⟨base, rows, plan, r, hd, -⟩
  · exact ⟨hnone, hcore⟩
  · rw [hdis] at hd
    exact absurd hd (by simp)

theorem quiet (h : Protocol cfg s) (hdis : s.activeDraftDiscard = none) : s.Quiet where
  reservation := (h.idle hdis).1
  progress := h.progress
  internal := h.internal
  fault := h.fault

theorem of_core (hq : s.Quiet) (hcore : Core cfg [] s) (hdis : s.activeDraftDiscard = none)
    (htr : ∀ tr, s.activeSpecTransaction = some tr →
      CountsPages cfg tr.baselineDecodeRollback) : Protocol cfg s where
  progress := hq.progress
  internal := hq.internal
  fault := hq.fault
  lease := Or.inl ⟨hdis, hq.reservation, hcore⟩
  linked := by
    intro tr heq
    refine ⟨htr tr heq, ?_⟩
    intro d hd
    rw [hdis] at hd
    exact absurd hd (by simp)
  closed := fun _ => hdis

end Protocol

def State.withoutDiscard (s : State) : State := { s with activeDraftDiscard := none }

def State.withoutPending (s : State) : State :=
  { s with pendingDraftCoveragePlan := none, pendingDraftCoverage := none }

def State.withoutTransaction (s : State) : State := { s with activeSpecTransaction := none }

theorem Leased.rollbackDiscard {plan : SpecStepPlan} (h : Leased base rows t r)
    (hok : PoolOk base) (hd : t.activeDraftDiscard = some (plan, r)) :
    rollbackDraftDiscard plan t = .ok true base.withoutDiscard := by
  unfold rollbackDraftDiscard
  rw [Call.bind_of_ok (Call.get_apply t), hd]
  simp only [ne_eq, not_true_eq_false, ↓reduceIte]
  rw [Call.bind_of_ok (h.rollback hok)]
  rfl

theorem rollbackDraftDiscard_idle (plan : SpecStepPlan) (hd : s.activeDraftDiscard = none) :
    rollbackDraftDiscard plan s = .ok false s := by
  unfold rollbackDraftDiscard
  rw [Call.bind_of_ok (Call.get_apply s), hd]
  rfl

theorem abortDraftCoverage_cases (plan : SpecStepPlan) (s : State) :
    (s.pendingDraftCoveragePlan = none ∧ abortDraftCoverage plan s = .ok false s) ∨
    (s.pendingDraftCoveragePlan = some plan ∧
      abortDraftCoverage plan s = .ok true s.withoutPending) ∨
    (∃ e, s.pendingDraftCoveragePlan ≠ none ∧ s.pendingDraftCoveragePlan ≠ some plan ∧
      abortDraftCoverage plan s = .error e s) := by
  unfold abortDraftCoverage
  rw [Call.bind_of_ok (Call.get_apply s)]
  cases hp : s.pendingDraftCoveragePlan with
  | none => exact Or.inl ⟨rfl, rfl⟩
  | some pending =>
    by_cases heq : pending = plan
    · subst heq
      right; left
      refine ⟨rfl, ?_⟩
      simp [State.withoutPending]
    · right; right
      refine ⟨.runtimeError "pending draft-coverage plan identity mismatch", by simp,
        by simpa using heq, ?_⟩
      simp only [ne_eq, heq, not_false_eq_true, ↓reduceIte]
      exact Call.bind_of_error (Call.throw_apply _ _)

/-- The queues, their history and the identifiers in use did not change. -/
structure SameQueues (s t : State) : Prop where
  running : t.running = s.running
  waiting : t.waiting = s.waiting
  mid : t.midChunkSeq = s.midChunkSeq
  nextSeqId : t.nextSeqId = s.nextSeqId
  history : t.history = s.history

theorem SameQueues.refl (s : State) : SameQueues s s := ⟨rfl, rfl, rfl, rfl, rfl⟩

theorem SameQueues.trans {u : State} (h : SameQueues s t) (h' : SameQueues t u) :
    SameQueues s u :=
  ⟨h'.running.trans h.running, h'.waiting.trans h.waiting, h'.mid.trans h.mid,
    h'.nextSeqId.trans h.nextSeqId, h'.history.trans h.history⟩

theorem SameQueues.of_control {c : Control} (h : t.control = c) (hrun : c.running = s.running)
    (hwait : c.waiting = s.waiting) (hmid : c.midChunkSeq = s.midChunkSeq)
    (hnext : c.nextSeqId = s.nextSeqId) (hhist : c.history = s.history) : SameQueues s t :=
  ⟨(congrArg Control.running h).trans hrun, (congrArg Control.waiting h).trans hwait,
    (congrArg Control.midChunkSeq h).trans hmid, (congrArg Control.nextSeqId h).trans hnext,
    (congrArg Control.history h).trans hhist⟩

theorem SameQueues.of_untouched (h : Untouched s t) : SameQueues s t := by
  obtain ⟨f, n, c, rfl⟩ := h
  exact ⟨rfl, rfl, rfl, rfl, rfl⟩

structure FewerRunning (s t : State) : Prop where
  running : t.running.Sublist s.running
  waiting : t.waiting = s.waiting
  mid : t.midChunkSeq = s.midChunkSeq
  nextSeqId : t.nextSeqId = s.nextSeqId
  history : t.history = s.history

theorem SameQueues.fewerRunning (h : SameQueues s t) : FewerRunning s t where
  running := by rw [h.running]
  waiting := h.waiting
  mid := h.mid
  nextSeqId := h.nextSeqId
  history := h.history

theorem FewerRunning.trans {u : State} (h : FewerRunning s t) (h' : FewerRunning t u) :
    FewerRunning s u :=
  ⟨h'.running.trans h.running, h'.waiting.trans h.waiting, h'.mid.trans h.mid,
    h'.nextSeqId.trans h.nextSeqId, h'.history.trans h.history⟩

theorem FewerRunning.of_sameControl (h : SameControl s t)
    (hrun : t.running.Sublist s.running) : FewerRunning s t :=
  ⟨hrun, congrArg Control.waiting h, congrArg Control.midChunkSeq h,
    congrArg Control.nextSeqId h, congrArg Control.history h⟩

namespace Protocol

variable {tr : ActiveSpecTransaction}

theorem releaseDiscard (h : Protocol cfg s) (htr : s.activeSpecTransaction = some tr) :
    ∃ released u, rollbackDraftDiscard tr.plan s = .ok released u ∧ Protocol cfg u ∧
      u.activeDraftDiscard = none ∧ u.activeSpecTransaction = some tr ∧
      u.pendingDraftCoveragePlan = s.pendingDraftCoveragePlan ∧ SameQueues s u := by
  obtain ⟨hpages, hlink⟩ := h.linked tr htr
  rcases h.lease with ⟨hd, hnone, hcore⟩ | ⟨base, rows, plan, r, hd, hleased, hcore, hrows⟩
  · exact ⟨false, s, rollbackDraftDiscard_idle _ hd, h, hd, htr, rfl, .refl s⟩
  · have heq := hlink _ hd
    have hplan : plan = tr.plan := congrArg Prod.fst heq
    subst hplan
    have hctl := hleased.control
    refine ⟨true, _, hleased.rollbackDiscard hcore.own.poolOk hd, ?_, rfl,
      (congrArg Control.activeSpecTransaction hctl).trans htr,
      congrArg Control.pendingDraftCoveragePlan hctl,
      ⟨congrArg Control.running hctl, congrArg Control.waiting hctl,
        congrArg Control.midChunkSeq hctl, congrArg Control.nextSeqId hctl,
        congrArg Control.history hctl⟩⟩
    refine .of_core ⟨?_, ?_, ?_, ?_⟩ (hcore.withControl (c := base.withoutDiscard.control) rfl rfl
      rfl rfl) rfl ?_
    · exact (congrArg Control.activeReservation hctl).trans rfl
    · exact (congrArg Control.reservationInProgress hctl).trans h.progress
    · exact (congrArg Control.internalAllocation hctl).trans h.internal
    · exact (congrArg Control.fault hctl).trans h.fault
    · intro tr' htr'
      have hsame : base.activeSpecTransaction = some tr :=
        (congrArg Control.activeSpecTransaction hctl).trans htr
      have heq' : base.activeSpecTransaction = some tr' := htr'
      rw [hsame] at heq'
      rw [← Option.some.inj heq']
      exact hpages

theorem leaves_rollbackFailed (h : Protocol cfg s) (hd : s.activeDraftDiscard = none)
    {rollback : List DecodeScheduleRollbackRow} (hpages : CountsPages cfg rollback) :
    Call.Leaves (rollbackFailedDecodeSchedule cfg rollback) s
      fun t => Protocol cfg t ∧ t.control = s.control := by
  obtain ⟨-, hcore⟩ := h.idle hd
  unfold Call.Leaves
  rcases rollbackFailedDecodeSchedule_cases rollback with
    ⟨e, hres⟩ | ⟨changed, validated, hres, hundone⟩
  · rw [hres]
    exact ⟨h, rfl⟩
  · rw [hres]
    have hctl := s.undone_control rollback validated
    refine ⟨.of_core ((h.quiet hd).of_control hctl) (hcore.undone hundone hpages)
      ((congrArg Control.activeDraftDiscard hctl).trans hd) ?_, hctl⟩
    intro tr' htr'
    exact (h.linked tr' ((congrArg Control.activeSpecTransaction hctl).symm.trans htr')).1

theorem withoutPending (h : Protocol cfg s) (hd : s.activeDraftDiscard = none) :
    Protocol cfg s.withoutPending := by
  have hq := h.quiet hd
  exact .of_core ⟨hq.reservation, hq.progress, hq.internal, hq.fault⟩
    ((h.idle hd).2.withControl (c := s.withoutPending.control) rfl rfl rfl rfl) hd
    fun tr htr => (h.linked tr htr).1

private theorem withoutTransaction (h : Protocol cfg s) (hd : s.activeDraftDiscard = none) :
    Protocol cfg s.withoutTransaction := by
  have hq := h.quiet hd
  exact .of_core ⟨hq.reservation, hq.progress, hq.internal, hq.fault⟩
    ((h.idle hd).2.withControl (c := s.withoutTransaction.control) rfl rfl rfl rfl) hd
    fun tr htr => absurd htr (by simp [State.withoutTransaction])

theorem leaves_abort (h : Protocol cfg s) :
    Call.Leaves (abortSpeculativeStep cfg) s (fun t => Protocol cfg t ∧ SameQueues s t) ∧
      ∀ aborted t, abortSpeculativeStep cfg s = .ok aborted t → t.activeSpecTransaction = none := by
  cases htr : s.activeSpecTransaction with
  | none =>
    have hidle := abortSpeculativeStep_idle cfg htr
    refine ⟨?_, ?_⟩
    · unfold Call.Leaves
      rw [hidle]
      exact ⟨h, .refl s⟩
    · intro aborted t ht
      rw [hidle] at ht
      rw [← (EStateM.Result.ok.inj ht).2]
      exact htr
  | some tr =>
    obtain ⟨released, u, hrel, hu, hud, hutr, -, hqueues⟩ := h.releaseDiscard htr
    have hpages := (h.linked tr htr).1
    have hstart : abortSpeculativeStep cfg s = (do
        let _ ← abortDraftCoverage tr.plan
        let _ ← rollbackFailedDecodeSchedule cfg tr.baselineDecodeRollback
        modify State.withoutTransaction
        pure true : Call Bool) u := by
      unfold abortSpeculativeStep
      rw [Call.bind_of_ok (Call.get_apply s), htr]
      exact Call.bind_of_ok hrel
    -- From a state without a lease the tail of the abort undoes the schedule.
    have htail : ∀ v : State, Protocol cfg v → v.activeDraftDiscard = none → SameQueues s v →
        Call.Leaves (do
          let _ ← rollbackFailedDecodeSchedule cfg tr.baselineDecodeRollback
          modify State.withoutTransaction
          pure true : Call Bool) v (fun t => Protocol cfg t ∧ SameQueues s t) ∧
        ∀ aborted t, (do
          let _ ← rollbackFailedDecodeSchedule cfg tr.baselineDecodeRollback
          modify State.withoutTransaction
          pure true : Call Bool) v = .ok aborted t → t.activeSpecTransaction = none := by
      intro v hv hvd hvq
      have hroll := hv.leaves_rollbackFailed hvd hpages
      unfold Call.Leaves at hroll ⊢
      cases hres : rollbackFailedDecodeSchedule cfg tr.baselineDecodeRollback v with
      | error e w =>
        rw [hres] at hroll
        rw [Call.bind_of_error hres]
        exact ⟨⟨hroll.1, hvq.trans (.of_control hroll.2 rfl rfl rfl rfl rfl)⟩, by simp⟩
      | ok changed w =>
        rw [hres] at hroll
        obtain ⟨hw, hwctl⟩ := hroll
        have hwctl' : w.control = v.control := hwctl
        rw [Call.bind_of_ok hres, Call.bind_of_ok (Call.modify_apply _ _)]
        refine ⟨⟨Protocol.withoutTransaction hw
          ((congrArg Control.activeDraftDiscard hwctl').trans hvd), hvq.trans
          (.trans (.of_control hwctl' rfl rfl rfl rfl rfl) ⟨rfl, rfl, rfl, rfl, rfl⟩)⟩, ?_⟩
        intro aborted t ht
        rw [← (EStateM.Result.ok.inj ht).2]
        rfl
    rw [hstart]
    unfold Call.Leaves
    rw [hstart]
    rcases abortDraftCoverage_cases tr.plan u with ⟨-, hp⟩ | ⟨-, hp⟩ | ⟨e, -, -, hp⟩
    · rw [Call.bind_of_ok hp]
      exact htail u hu hud hqueues
    · rw [Call.bind_of_ok hp]
      exact htail _ (hu.withoutPending hud) hud (hqueues.trans ⟨rfl, rfl, rfl, rfl, rfl⟩)
    · rw [Call.bind_of_error hp]
      exact ⟨⟨hu, hqueues⟩, by simp⟩

end Protocol

end NanoVllm
