/- module: NanoVllm/Runs/Undo
   layer: main result
   source: nanovllm/engine/llm_engine.py, the error handling of _step_unlocked;
     nanovllm/engine/scheduler.py, rollback_failed_decode_schedule
   digest: A failed decode step leaves the schedule's preemptions and nothing else. -/

import NanoVllm.Cancellation.Exact
import NanoVllm.Runs.BetweenSteps

set_option autoImplicit false
set_option relaxedAutoImplicit false

namespace NanoVllm

open Library

variable {cfg : Config} {s t u v w q : State} {rows : List (Nat × List Nat)}
  {batch victims : List Nat} {x : Nat}

section Failure

variable {answers : StepAnswers}

private theorem Grown.withFault (h : Grown cfg v rows batch u) (f : Option Nat) :
    Grown cfg v rows batch (u.withFault f) :=
  h.of_pool ⟨rfl, rfl, rfl, rfl, rfl⟩

private theorem State.Unheld.withFault (h : u.Unheld) (f : Option Nat) : (u.withFault f).Unheld :=
  ⟨h.transaction, h.reservation, h.progress, h.internal, h.discard, h.pending⟩

/-- The call of the target model reaches a commit: its tokens pass every check of
`postprocess`, or `commit_speculative` accepts its result. -/
def TargetCall.commits (cfg : Config) (answers : StepAnswers) : TargetCall → Bool
  | .run batch isPrefill t => match answers.run batch isPrefill with
    | .ok tokenIds => (postprocessChecks cfg t batch tokenIds).isOk
    | .error _ => false
  | .verify plan _ t => match answers.runSpeculative plan with
    | .ok result => match commitSpeculative cfg plan result t with
      | .ok _ _ => true
      | .error _ _ => false
    | .error _ => false

/-- The decode step on `batch` begins a commit. -/
def commitBegins (cfg : Config) (answers : StepAnswers) (batch : List Nat) (s : State) : Bool :=
  match executeTarget cfg answers batch false s with
  | some call => call.commits cfg answers
  | none => false

private theorem Grown.target_failed (hg : Grown cfg v rows batch u) (hun : u.Unheld) {ids : List Nat}
    (hin : InStep u (batch.map (undoRow cfg v)) ids q) {draftCycle : Option SpecStepPlan}
    (hdraft : draftCycle ≠ none → q.activeSpecTransaction ≠ none) {e : Raised}
    (hres : decodeTarget cfg answers batch (batch.map (undoRow cfg v)) draftCycle q = .error e w)
    (hcommit : (TargetCall.run batch false q).commits cfg answers = false) :
    ∃ ids, Recovered v batch u ids w := by
  obtain ⟨w', hrec, hw⟩ := hg.recoverStep hun hin draftCycle hdraft
  have hback : ∀ {e' : Raised}, decodeTarget cfg answers batch (batch.map (undoRow cfg v))
      draftCycle q = .error e' w' → ∃ ids, Recovered v batch u ids w := by
    intro e' hres'
    rw [hres] at hres'
    obtain ⟨-, rfl⟩ := EStateM.Result.error.inj hres'
    exact ⟨_, hw⟩
  unfold TargetCall.commits at hcommit
  cases hrun : answers.run batch false with
  | error e' =>
    refine @hback e' ?_
    unfold decodeTarget
    rw [hrun]
    exact recover_throw (Call.bind_of_error (liftExcept_error e' q)) hrec
  | ok tokenIds =>
    cases hchecks : postprocessChecks cfg q batch tokenIds with
    | error e' =>
      refine @hback e' ?_
      unfold decodeTarget
      rw [hrun]
      refine recover_throw ((Call.bind_of_ok (liftExcept_ok tokenIds q)).trans ?_) hrec
      unfold postprocess
      rw [Call.bind_of_ok (Call.get_apply q), hchecks]
      exact Call.bind_of_error (liftExcept_error e' q)
    | ok a =>
      simp only [hrun, hchecks, Except.isOk, Except.toBool] at hcommit
      exact absurd hcommit (by simp)

private theorem Grown.step_failed (hg : Grown cfg v rows batch u) (hun : u.Unheld)
    (hcore : Core cfg [] u) (hne : batch ≠ []) (hspec : cfg.speculationEnabled = true) {e : Raised}
    (hres : executeStep cfg answers batch false u = .error e w)
    (hbegins : commitBegins cfg answers batch u = false) : ∃ ids, Recovered v batch u ids w := by
  have hcapture := hg.capture hne
  have hend := speculation_end hg hun hcore hne hspec answers
  rw [executeStep_decode hspec hcapture] at hres
  unfold commitBegins at hbegins
  rw [executeTarget_eq cfg answers batch u hspec] at hbegins
  rw [hcapture] at hend hbegins
  obtain ⟨verified, hverified⟩ : ∃ verified, verified = (if answers.verifierReady then
    verifiedCall cfg answers batch (some (batch.map (undoRow cfg v))) u else none) := ⟨_, rfl⟩
  rw [← hverified] at hend hbegins
  -- Before the target call, the handler undoes whatever the cycle had done.
  have hback : ∀ {e' : Raised} {t : State} {ids : List Nat}, executeSpeculation cfg answers batch
      false (some (batch.map (undoRow cfg v))) u = .error e' t →
      InStep u (batch.map (undoRow cfg v)) ids t → ∃ ids, Recovered v batch u ids w := by
    intro e' t ids hspecres hin
    obtain ⟨w', hrec, hw⟩ := hg.recoverStep hun hin none (fun h => absurd rfl h)
    rw [Call.bind_of_error (recover_throw hspecres hrec)] at hres
    obtain ⟨-, rfl⟩ := EStateM.Result.error.inj hres
    exact ⟨_, hw⟩
  cases hspecres : executeSpeculation cfg answers batch false (some (batch.map (undoRow cfg v)))
      u with
  | error e' t =>
    rw [hspecres] at hend hbegins
    cases hend with
    | failed hin => exact hback hspecres hin
    | rejected _ hin => exact hback hspecres hin
    | unobserved _ hrun hcommit _ =>
      simp only [targetOf, TargetCall.commits, hrun, hcommit] at hbegins
      exact absurd hbegins (by simp)
  | ok outcome t =>
    rw [hspecres] at hend hbegins
    rw [Call.bind_of_ok (Call.tryCatch_of_ok hspecres)] at hres
    cases hend with
    | bypassed h =>
      exact hg.target_failed hun (.untouched h) (fun hne => absurd rfl hne) hres hbegins
    | staged hr _ h _ _ =>
      exact hg.target_failed hun (.handedOff hr h) (fun _ => by rw [h.transaction]; simp) hres
        hbegins
    | committed _ _ _ _ => exact absurd hres (by simp [Call.pure_apply])

end Failure

/-- `w` is `v` with the decode marks of `batch` taken off, and without the prefix metadata of
some blocks that were free. -/
structure StepUndone (cfg : Config) (v : State) (batch : List Nat) (w : State) : Prop where
  outside : ∀ x, x ∉ batch → w.seqs x = v.seqs x
  rows : ∀ x ∈ batch, w.seqs x = { v.seqs x with numScheduledTokens := 0, isPrefill := false }
  pages : ∀ x ∈ batch, (w.seqs x).blockTable.length =
    pagesFor cfg.kvcacheBlockSize (w.seqs x).numCachedTokens
  queues : w.running = v.running ∧ w.waiting = v.waiting ∧ w.midChunkSeq = v.midChunkSeq
  free : w.freeBlockIds = v.freeBlockIds
  used : w.usedBlockIds = v.usedBlockIds
  refs : ∀ b, (w.blocks b).refCount = (v.blocks b).refCount
  metadata : ∃ ids : List Nat, (∀ b ∈ ids, b ∈ v.freeBlockIds) ∧ (∀ b, b ∉ ids → w.blocks b = v.blocks b) ∧
    ∀ h b, w.hashToBlockId.lookup h = some b ↔ v.hashToBlockId.lookup h = some b ∧ b ∉ ids
  closed : w.activeSpecTransaction = none ∧ w.activeReservation = none ∧
    w.activeDraftDiscard = none ∧ w.pendingDraftCoveragePlan = none

private theorem Recovered.undone {ids : List Nat} (h : Recovered v batch u ids w)
    (hrep : Replay cfg s victims rows batch [] u)
    (hv : v = s.preemptAll victims) (hout : BatchOut cfg batch [] u) : StepUndone cfg v batch w := by
  have hcalm := hout.ready.1
  have hqueue : u.running = v.running := by
    rw [hv]
    exact hrep.queue
  have hctl : u.control = { v.control with running := u.running, history := u.history } := by
    rw [hv]
    exact hrep.control
  have hset : v.Settled cfg := by
    rw [hv]
    exact hrep.settled
  have hids := h.free
  have hpool := h.pool
  have hrow : ∀ x, w.seqs x = if x ∈ batch then
      { v.seqs x with numScheduledTokens := 0, isPrefill := false } else v.seqs x :=
    fun x => congrFun hpool.seqs x
  have hin : ∀ x ∈ batch, w.seqs x =
      { v.seqs x with numScheduledTokens := 0, isPrefill := false } := by
    intro x hx
    rw [hrow, if_pos hx]
  refine ⟨fun x hx => by rw [hrow, if_neg hx], hin, fun x hx => ?_, ?_, hpool.free, hpool.used,
    fun b => ?_, ⟨ids, hids, fun b hb => ?_, fun k b => ?_⟩, ?_⟩
  · have hlive : x ∈ v.running := by
      rw [← hqueue, hout.pure_decode]
      exact hx
    have hpages := (hset.betweenSteps.running x hlive).2.2
    rw [hin x hx]
    exact hpages
  · exact ⟨(congrArg Control.running h.control).trans hqueue,
      (congrArg Control.waiting h.control).trans (congrArg Control.waiting hctl),
      (congrArg Control.midChunkSeq h.control).trans (congrArg Control.midChunkSeq hctl)⟩
  · rw [hpool.blocks]
    exact v.wipe_refCount ids b
  · rw [hpool.blocks]
    exact if_neg hb
  · rw [hpool.index]
    change (restrict (· ∉ ids) v.hashToBlockId).lookup k = some b ↔ _
    rw [lookup_restrict_eq_some, decide_eq_true_iff]
  · exact ⟨(congrArg Control.activeSpecTransaction h.control).trans hcalm.transaction,
      (congrArg Control.activeReservation h.control).trans hcalm.reservation,
      (congrArg Control.activeDraftDiscard h.control).trans hcalm.discard,
      (congrArg Control.pendingDraftCoveragePlan h.control).trans hcalm.pending⟩

private theorem State.Settled.failed_step (h : s.Settled cfg) (hspec : cfg.speculationEnabled = true)
    (hcall : schedule cfg s = .ok (batch, false) u) (point : Option Nat) {answers : StepAnswers}
    {e : Raised} (hres : executeStep cfg answers batch false (u.withFault point) = .error e w)
    (hbefore : commitBegins cfg answers batch (u.withFault point) = false) :
    ∃ victims events, u.history = s.history ++ events ∧ preemptedIn events = victims ∧
      StepUndone cfg (s.preemptAll victims) batch w := by
  obtain ⟨hne, hout, victims, rows, hrep⟩ := h.schedule_decode hcall
  obtain ⟨events, hhistory, hpre⟩ := hrep.history
  have hcore : Core cfg [] (u.withFault point) :=
    hout.ready.2.recast (fun _ => .refl _) rfl rfl rfl rfl rfl rfl rfl rfl
  obtain ⟨ids, h⟩ := ((hrep.grown hout).withFault point).step_failed
    (hout.ready.1.unheld.withFault point) hcore hne hspec hres hbefore
  have hfrom : Recovered (s.preemptAll victims) batch u ids w := ⟨h.free, h.pool, h.control⟩
  exact ⟨victims, events, hhistory, hpre, hfrom.undone hrep rfl hout⟩

/-- In every steady run with speculation enabled, a decode step that fails, at whatever point
and whatever armed failure, before a commit began leaves exactly the state of the schedule's
preemptions: no append, lease, transaction or mark remains. -/
theorem failed_decode_step_undone {turns : List Turn}
    (hsteady : SteadyFrom cfg (State.init cfg) turns) (hspec : cfg.speculationEnabled = true)
    (hcall : schedule cfg (runTurns cfg turns) = .ok (batch, false) u) (point : Option Nat)
    {answers : StepAnswers} {e : Raised}
    (hres : executeStep cfg answers batch false (u.withFault point) = .error e w)
    (hbefore : commitBegins cfg answers batch (u.withFault point) = false) :
    ∃ victims events, u.history = (runTurns cfg turns).history ++ events ∧
      preemptedIn events = victims ∧
      StepUndone cfg ((runTurns cfg turns).preemptAll victims) batch w :=
  (settled_runTurns hsteady).failed_step hspec hcall point hres hbefore

/-- Two requests decode until the next token of the first one needs the blocks of the second. -/
def crowdedTurns : List Turn :=
  [.call (.add [3, 4] 6 true), .call (.add [6, 7] 6 true), .step (.sample (.ok [5, 8])),
    .step (.sample (.ok [6, 9])), .step (.sample (.ok [7, 10]))]

def StepAnswers.shadow : StepAnswers :=
  { StepAnswers.sample (.ok [6]) with
    verifierReady := false
    resolveRoutes := .ok (some { DraftRouteAdmission.sample with catchupTokens := 4 })
    runDiscard := fun plan => .ok (plan.rows.map fun row => (row.seqId, 5)) }

def failedDecode (cfg : Config) (turns : List Turn) (point : Option Nat) (answers : StepAnswers) :
    Option (List Nat × State × Raised × State) :=
  match schedule cfg (runTurns cfg turns) with
  | .ok (batch, false) u => match executeStep cfg answers batch false (u.withFault point) with
    | .error e w => some (batch, u, e, w)
    | .ok _ _ => none
  | _ => none

private theorem failedDecode_eq_some {turns : List Turn} {point : Option Nat} {answers : StepAnswers}
    {e : Raised} (h : failedDecode cfg turns point answers = some (batch, u, e, w)) :
    schedule cfg (runTurns cfg turns) = .ok (batch, false) u ∧
      executeStep cfg answers batch false (u.withFault point) = .error e w := by
  unfold failedDecode at h
  split at h
  · rename_i hsched
    split at h
    · rename_i hstep
      obtain ⟨rfl, rfl, rfl, rfl⟩ := Prod.mk.inj (Option.some.inj h)
      exact ⟨hsched, hstep⟩
    · exact absurd h (by simp)
  · exact absurd h (by simp)

/-- The schedule preempts the second request for the first one, whose shadow cycle then fails at
its last point; its two blocks before the schedule are what it keeps. -/
theorem failed_decode_step_undone_sample :
    ∃ u w, schedule Config.sample (runTurns Config.sample crowdedTurns) = .ok ([0], false) u ∧
      executeStep Config.sample .shadow [0] false (u.withFault (some 7)) = .error .injected w ∧
      u.table 0 = [0, 2, 3] ∧ w.table 0 = [0, 2] ∧ w.freeBlockIds = [3, 1] ∧ w.waiting = [1] ∧
      StepUndone Config.sample ((runTurns Config.sample crowdedTurns).preemptAll [1]) [0] w := by
  have hrun : (failedDecode Config.sample crowdedTurns (some 7) .shadow).any
      (fun (batch, u, e, w) => decide (batch = [0] ∧ e = .injected ∧
        preemptedIn (u.history.drop (runTurns Config.sample crowdedTurns).history.length) = [1] ∧
        commitBegins Config.sample .shadow [0] (u.withFault (some 7)) = false ∧
        u.table 0 = [0, 2, 3] ∧ w.table 0 = [0, 2] ∧ w.freeBlockIds = [3, 1] ∧
        w.waiting = [1])) = true := by
    decide +kernel
  rw [Option.any_eq_true] at hrun
  obtain ⟨⟨batch, u, e, w⟩, hfailed, hrun⟩ := hrun
  obtain ⟨rfl, rfl, hvictims, hbefore, hgrown, hback, hfree, hwait⟩ := of_decide_eq_true hrun
  obtain ⟨hcall, hres⟩ := failedDecode_eq_some hfailed
  obtain ⟨victims, events, hhistory, hpre, hundone⟩ := failed_decode_step_undone
    (show SteadyFrom Config.sample (State.init Config.sample) crowdedTurns by decide +kernel)
    rfl hcall (some 7) hres hbefore
  rw [hhistory, List.drop_left, hpre] at hvictims
  exact ⟨u, w, hcall, hres, hgrown, hback, hfree, hwait, hvictims ▸ hundone⟩

/-- In every run, whatever failed in it: if the state before a step is one between steps, and the
step decodes with speculation enabled, a failure at any single point before its tokens are committed
leaves the state of the schedule's preemptions without its appends. -/
theorem speculative_failure_undone {turns : List Turn}
    (hbetween : BetweenSteps cfg (runTurns cfg turns)) (hspec : cfg.speculationEnabled = true)
    (hcall : schedule cfg (runTurns cfg turns) = .ok (batch, false) u) (point : Option Nat)
    {answers : StepAnswers} {e : Raised}
    (hres : executeStep cfg answers batch false (u.withFault point) = .error e w)
    (hbefore : commitBegins cfg answers batch (u.withFault point) = false) :
    ∃ victims events, u.history = (runTurns cfg turns).history ++ events ∧
      preemptedIn events = victims ∧
      StepUndone cfg ((runTurns cfg turns).preemptAll victims) batch w :=
  (hbetween.settled (.runTurns cfg turns)).failed_step hspec hcall point hres hbefore

/-- The decode step of a request beside the prefill of another fails and is not undone. The next
decode step grows the first request a second time, has no record to undo, and fails as well: its
rows stay grown and scheduled. -/
theorem stale_decode_step_not_undone : ∃ u w,
    schedule Config.sample (runTurns Config.sample (growingTurns ++ [.step lostStep])) =
      .ok ([0, 1], false) u ∧
    executeStep Config.sample lostStep [0, 1] false u = .error (.external "model") w ∧
    commitBegins Config.sample lostStep [0, 1] u = false ∧
    (runTurns Config.sample (growingTurns ++ [.step lostStep])).table 0 = [0, 1] ∧
    w.table 0 = [0, 1, 3] ∧ (w.seqs 0).numScheduledTokens = 1 ∧
    ¬ ∃ victims events, u.history =
        (runTurns Config.sample (growingTurns ++ [.step lostStep])).history ++ events ∧
      preemptedIn events = victims ∧
      StepUndone Config.sample ((runTurns Config.sample
        (growingTurns ++ [.step lostStep])).preemptAll victims) [0, 1] w := by
  have hrun : (failedDecode Config.sample (growingTurns ++ [.step lostStep]) none lostStep).any
      (fun (batch, u, e, w) => decide (batch = [0, 1] ∧ e = .external "model" ∧
        u.fault = none ∧ commitBegins Config.sample lostStep [0, 1] (u.withFault none) = false ∧
        w.table 0 = [0, 1, 3] ∧ (w.seqs 0).numScheduledTokens = 1)) = true := by
    decide +kernel
  rw [Option.any_eq_true] at hrun
  obtain ⟨⟨batch, u, e, w⟩, hfailed, hrun⟩ := hrun
  obtain ⟨rfl, rfl, hfault, hbefore, htable, hscheduled⟩ := of_decide_eq_true hrun
  obtain ⟨hcall, hres⟩ := failedDecode_eq_some hfailed
  have hsame : u.withFault none = u := by
    rw [← hfault]
    rfl
  rw [hsame] at hres hbefore
  refine ⟨u, w, hcall, hres, hbefore, by decide +kernel, htable, hscheduled, ?_⟩
  rintro ⟨victims, events, -, -, h⟩
  rw [h.rows 0 (by simp)] at hscheduled
  exact absurd hscheduled (by simp)

/-- Behind the failed mixed step both requests are cancelled and a third one starts to decode. -/
def recoveredTurns : List Turn :=
  growingTurns ++ [.step lostStep, .call (.cancel [0, 1]), .call (.add [3, 4] 6 true),
    .step (.sample (.ok [5]))]

private theorem recoveredTurns_between :
    BetweenSteps Config.sample (runTurns Config.sample recoveredTurns) where
  queued_once := by decide +kernel
  room := by decide +kernel
  running := by decide +kernel
  waiting := by decide +kernel
  bare := by decide +kernel
  mid_chunk x := by
    rw [show (runTurns Config.sample recoveredTurns).midChunkSeq = none by decide +kernel,
      show (runTurns Config.sample recoveredTurns).waiting = [] by decide +kernel]
    simp
  chunked := by decide +kernel
  draft_le := by decide +kernel
  unscheduled := by decide +kernel
  closed := by decide +kernel

def StepAnswers.recached : StepAnswers :=
  { StepAnswers.shadow with
    resolveRoutes := .ok (some { DraftRouteAdmission.sample with catchupTokens := 2 }) }

/-- A shadow cycle of the third request fails at its last point. -/
theorem speculative_failure_undone_sample :
    ∃ u w, schedule Config.sample (runTurns Config.sample recoveredTurns) = .ok ([2], false) u ∧
      executeStep Config.sample .recached [2] false (u.withFault (some 9)) = .error .injected w ∧
      u.table 2 = [3, 1] ∧ w.table 2 = [3] ∧ w.freeBlockIds = [1, 0, 2] ∧
      StepUndone Config.sample ((runTurns Config.sample recoveredTurns).preemptAll []) [2] w := by
  have hrun : (failedDecode Config.sample recoveredTurns (some 9) .recached).any
      (fun (batch, u, e, w) => decide (batch = [2] ∧ e = .injected ∧
        preemptedIn (u.history.drop (runTurns Config.sample recoveredTurns).history.length) = [] ∧
        commitBegins Config.sample .recached [2] (u.withFault (some 9)) = false ∧
        u.table 2 = [3, 1] ∧ w.table 2 = [3] ∧ w.freeBlockIds = [1, 0, 2])) = true := by
    decide +kernel
  rw [Option.any_eq_true] at hrun
  obtain ⟨⟨batch, u, e, w⟩, hfailed, hrun⟩ := hrun
  obtain ⟨rfl, rfl, hvictims, hbefore, hgrown, hback, hfree⟩ := of_decide_eq_true hrun
  obtain ⟨hcall, hres⟩ := failedDecode_eq_some hfailed
  obtain ⟨victims, events, hhistory, hpre, hundone⟩ := speculative_failure_undone
    recoveredTurns_between rfl hcall (some 9) hres hbefore
  rw [hhistory, List.drop_left, hpre] at hvictims
  exact ⟨u, w, hcall, hres, hgrown, hback, hfree, hvictims ▸ hundone⟩

/-- `rollback_failed_decode_schedule` on the record captured behind a decode schedule takes exactly
the appends back, from every state between two steps that a run reaches. In every state at all,
`rollback_uncommitted_appends` raises with nothing changed, or has checked that every row of its
list is distinct and has its length or one fresh block more. -/
theorem captured_rollback_inverts_schedule :
    (∀ turns batch u, BetweenSteps cfg (runTurns cfg turns) →
      schedule cfg (runTurns cfg turns) = .ok (batch, false) u →
      ∃ victims events rollback changed w, u.history = (runTurns cfg turns).history ++ events ∧
        preemptedIn events = victims ∧
        captureDecodeScheduleRollback cfg u batch false = some rollback ∧
        rollbackFailedDecodeSchedule cfg rollback u = .ok changed w ∧
        StepUndone cfg ((runTurns cfg turns).preemptAll victims) batch w) ∧
    ∀ s rows, (∃ e, rollbackUncommittedAppends cfg rows s = .error e s) ∨
      ∃ changed validated, rollbackUncommittedAppends cfg rows s =
          .ok changed (s.dropAllAppended validated) ∧ (rows.map Prod.fst).Nodup ∧
        List.Forall₂ (fun row found => found.1 = row.1 ∧ AppendedTail s row.1 row.2 found.2)
          rows validated := by
  constructor
  · intro turns batch u hbetween hcall
    have hset := hbetween.settled (.runTurns cfg turns)
    obtain ⟨hne, hout, victims, rows, hrep⟩ := hset.schedule_decode hcall
    obtain ⟨events, hhistory, hpre⟩ := hrep.history
    have hgrown := hrep.grown hout
    have hcalm := hout.ready.1
    have hrecovered : Recovered ((runTurns cfg turns).preemptAll victims) batch u (lentBlocks rows)
        (((((runTurns cfg turns).preemptAll victims).wipe (lentBlocks rows)).decoded
          batch).withControl u.control) :=
      ⟨fun _ hb => hgrown.lent_free hb, .withControl _ _, rfl⟩
    exact ⟨victims, events, _, _, _, hhistory, hpre, hgrown.capture hne,
      hgrown.rollback hcalm.reservation hcalm.progress hcalm.discard hcalm.pending,
      hrecovered.undone hrep rfl hout⟩
  · intro s rows
    rcases rollbackUncommittedAppends_cases cfg s rows with h | ⟨changed, validated, hres, hvalid⟩
    · exact Or.inl h
    · obtain ⟨hrel, hnd, -⟩ := validateUncommittedRows_ok hvalid
      exact Or.inr ⟨changed, validated, hres, hnd, hrel⟩

/-- Behind a failed mixed step the record of the next decode schedule cannot be undone. -/
theorem stale_record_not_undone : ∃ u rollback e,
    schedule Config.sample (runTurns Config.sample
      (growingTurns ++ [.step lostStep, .call (.cancel [1])])) = .ok ([0], false) u ∧
    captureDecodeScheduleRollback Config.sample u [0] false = some rollback ∧
    rollbackFailedDecodeSchedule Config.sample rollback u = .error e u ∧
    (runTurns Config.sample (growingTurns ++ [.step lostStep, .call (.cancel [1])])).table 0 =
      [0, 1] ∧
    u.table 0 = [0, 1, 3] ∧ (u.seqs 0).numCachedTokens = 2 :=
  ⟨_, _, _, rfl, rfl, rfl, rfl, rfl, rfl⟩

theorem captured_rollback_inverts_schedule_sample : ∃ u rollback changed w,
    schedule Config.sample (runTurns Config.sample recoveredTurns) = .ok ([2], false) u ∧
      captureDecodeScheduleRollback Config.sample u [2] false = some rollback ∧
      rollbackFailedDecodeSchedule Config.sample rollback u = .ok changed w ∧
      u.table 2 = [3, 1] ∧ (w.table 2).length = 1 ∧ w.freeBlockIds = [1, 0, 2] := by
  obtain ⟨u, hcall, htable, hhistory⟩ : ∃ u,
      schedule Config.sample (runTurns Config.sample recoveredTurns) = .ok ([2], false) u ∧
      u.table 2 = [3, 1] ∧
      preemptedIn (u.history.drop (runTurns Config.sample recoveredTurns).history.length) = [] :=
    ⟨_, rfl, rfl, rfl⟩
  obtain ⟨victims, events, rollback, changed, w, hmore, hpre, hcapture, hres, hundone⟩ :=
    captured_rollback_inverts_schedule.1 recoveredTurns [2] u recoveredTurns_between hcall
  rw [hmore, List.drop_left, hpre] at hhistory
  subst hhistory
  have hpages := hundone.pages 2 (by simp)
  rw [hundone.rows 2 (by simp)] at hpages
  refine ⟨u, rollback, changed, w, hcall, hcapture, hres, htable, ?_, hundone.free⟩
  unfold State.table
  rw [hundone.rows 2 (by simp)]
  exact hpages

end NanoVllm
