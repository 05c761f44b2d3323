/- module: NanoVllm/Runs/Invariants
   layer: invariant
   source: nanovllm/engine/llm_engine.py, _execute_step and its error handling
   digest: What every scheduler call keeps holds in every state of every run. -/

import NanoVllm.Runs.Turns

set_option autoImplicit false
set_option relaxedAutoImplicit false

namespace NanoVllm

open Library

variable {cfg : Config} {P : State → Prop} {α : Type}

/-- `P` with no transaction open: what the handler of a failed step finds when it undoes the
step by itself. -/
def Idle (P : State → Prop) (s : State) : Prop := P s ∧ s.activeSpecTransaction = none

/-- Each call but `schedule` keeps `P`, returned or raised. The last fields are the calls that
the handler of a failed step makes by themselves. -/
structure StableCalls (cfg : Config) (P : State → Prop) : Prop where
  add : ∀ tokenIds maxTokens ignoreEos, Call.Keeps P (add cfg tokenIds maxTokens ignoreEos)
  postprocess : ∀ batch tokenIds, Call.Keeps P (postprocess cfg batch tokenIds)
  plan : ∀ workspace batch admission baseline,
    Call.Keeps P (planSpeculativeStep cfg workspace batch admission baseline)
  prepare : ∀ plan, Call.Keeps P (prepareSpeculativeTargetWrites plan)
  commit : ∀ plan result, Call.Keeps P (commitSpeculative cfg plan result)
  abort : Call.Keeps P (abortSpeculativeStep cfg)
  handoff : ∀ plan, Call.Keeps P (handoffDraftDiscard plan)
  stage : ∀ plan batch coverage, Call.Keeps P (stageDraftCoverage plan batch coverage)
  cancel : ∀ targets, Call.Keeps P (cancel cfg targets)
  discard : ∀ plan, Call.Keeps (Idle P) (rollbackDraftDiscard plan)
  coverage : ∀ plan, Call.Keeps (Idle P) (abortDraftCoverage plan)
  undo : ∀ rows, CountsPages cfg rows →
    Call.Keeps (Idle P) (rollbackFailedDecodeSchedule cfg rows)

structure Stable (cfg : Config) (P : State → Prop) : Prop extends StableCalls cfg P where
  init : P (State.init cfg)
  schedule : Call.Keeps P (schedule cfg)

private theorem keeps_liftExcept (x : Except Raised α) : Call.Keeps P (liftExcept x) := by
  cases x with
  | ok a => exact .pure a
  | error e => exact .throw e

private theorem keeps_quietly {c : Call α} (hc : Call.Keeps P c) : Call.Keeps P (quietly c) :=
  (hc.bind fun _ => .pure _).tryCatch fun _ => .pure _

namespace StableCalls

variable (h : StableCalls cfg P)

include h

private theorem undoSchedule (rollback : Option (List DecodeScheduleRollbackRow)) :
    (∀ rows, rollback = some rows → CountsPages cfg rows) →
      Call.Keeps (Idle P) (match rollback with
        | none => pure ()
        | some rows => quietly (rollbackFailedDecodeSchedule cfg rows) : Call Unit) := by
  intro hpages
  cases rollback with
  | none => exact .pure _
  | some rows => exact keeps_quietly (h.undo rows (hpages rows rfl))

private theorem recoverStep (draftCycle : Option SpecStepPlan)
    {rollback : Option (List DecodeScheduleRollbackRow)}
    (hpages : ∀ rows, rollback = some rows → CountsPages cfg rows) :
    Call.Keeps P (recoverStep cfg draftCycle rollback) := by
  have hundo := h.undoSchedule rollback hpages
  intro s hs
  unfold Call.Leaves NanoVllm.recoverStep
  rw [Call.bind_of_ok (Call.get_apply s)]
  split
  · exact keeps_quietly h.abort s hs
  · rename_i htr
    have hidle : Idle P s := ⟨hs, by simpa using htr⟩
    cases draftCycle with
    | none => exact (hundo s hidle).1
    | some plan =>
      exact (((keeps_quietly (h.discard plan)).bind fun _ =>
        (keeps_quietly (h.coverage plan)).bind fun _ => hundo) s hidle).1

private theorem executeSpeculativeVerified (answers : StepAnswers) (batch : List Nat)
    (rollback : Option (List DecodeScheduleRollbackRow)) :
    Call.Keeps P (executeSpeculativeVerified cfg answers batch rollback) := by
  refine (keeps_liftExcept _).bind fun choice => ?_
  cases choice with
  | none => exact .pure _
  | some admission =>
    refine (h.plan _ _ _ _).bind fun plan => ?_
    split
    · refine (h.prepare plan).bind fun _ => (keeps_liftExcept _).bind fun _ => ?_
      refine (keeps_liftExcept _).bind fun result => (h.commit plan result).bind fun _ => ?_
      exact (keeps_liftExcept _).bind fun _ => .pure _
    · exact .pure _

private theorem executeSpeculativeShadow (answers : StepAnswers) (batch : List Nat)
    (rollback : Option (List DecodeScheduleRollbackRow)) :
    Call.Keeps P (executeSpeculativeShadow cfg answers batch rollback) := by
  refine (keeps_liftExcept _).bind fun admission => (h.plan _ _ _ _).bind fun plan => ?_
  split
  · refine (keeps_liftExcept _).bind fun coverage => (h.handoff plan).bind fun _ => ?_
    exact (h.stage plan batch coverage).bind fun _ => .pure _
  · exact .pure _

private theorem executeSpeculation (answers : StepAnswers) (batch : List Nat) (isPrefill : Bool)
    (rollback : Option (List DecodeScheduleRollbackRow)) :
    Call.Keeps P (executeSpeculation cfg answers batch isPrefill rollback) := by
  unfold NanoVllm.executeSpeculation
  split
  · exact .pure _
  split
  · exact (h.executeSpeculativeVerified answers batch rollback).bind fun _ => .pure _
  · exact (h.executeSpeculativeShadow answers batch rollback).bind fun _ => .pure _

theorem executeStep (answers : StepAnswers) (batch : List Nat) (isPrefill : Bool) :
    Call.Keeps P (executeStep cfg answers batch isPrefill) := by
  refine .get_bind fun s _ => ?_
  have hpages : ∀ rows, (if isPrefill || !cfg.speculationEnabled then none
      else captureDecodeScheduleRollback cfg s batch isPrefill) = some rows →
      CountsPages cfg rows := by
    intro rows hrows
    split at hrows
    · exact absurd hrows (by simp)
    · exact capture_pages hrows
  obtain ⟨rollback, hrollback⟩ : ∃ rollback, rollback = if isPrefill || !cfg.speculationEnabled
      then none else captureDecodeScheduleRollback cfg s batch isPrefill := ⟨_, rfl⟩
  rw [← hrollback] at hpages ⊢
  have hspec := @Call.Keeps.tryCatch _ _ _ P _
    (fun e => do
      NanoVllm.recoverStep cfg none rollback
      throw e)
    (h.executeSpeculation answers batch isPrefill rollback)
    fun e => (h.recoverStep none hpages).bind fun _ => .throw e
  refine hspec.bind fun outcome => ?_
  obtain ⟨events, draftCycle⟩ := outcome
  cases events with
  | some events => exact .pure _
  | none =>
    refine Call.Keeps.tryCatch ?_ fun e => (h.recoverStep draftCycle hpages).bind fun _ => .throw e
    exact (keeps_liftExcept _).bind fun tokenIds => h.postprocess batch tokenIds

theorem op {op : Op} (hop : op ≠ .schedule) {s : State} (hs : P s) : P (op.apply cfg s) := by
  cases op with
  | add tokenIds maxTokens ignoreEos => exact h.add tokenIds maxTokens ignoreEos s hs
  | schedule => exact absurd rfl hop
  | postprocess batch tokenIds => exact h.postprocess batch tokenIds s hs
  | plan workspace batch admission baseline => exact h.plan workspace batch admission baseline s hs
  | prepare plan => exact h.prepare plan s hs
  | commit plan result => exact h.commit plan result s hs
  | abort => exact h.abort s hs
  | handoff plan => exact h.handoff plan s hs
  | stage plan batch coverage => exact h.stage plan batch coverage s hs
  | cancel targets => exact h.cancel targets s hs

theorem admitRequest (request : Request) : Call.Keeps P (admitRequest cfg request) := by
  intro s hs
  unfold Call.Leaves
  rcases admitRequest_cases cfg request s with ⟨e, hres⟩ | ⟨promptIds, -, -, -, hres⟩
  · rw [hres]
    exact hs
  · rw [hres]
    exact h.add promptIds request.maxTokens request.ignoreEos s hs

end StableCalls

namespace Stable

variable (h : Stable cfg P)

include h

private theorem stepUnlocked (answers : StepAnswers) : Call.Keeps P (stepUnlocked cfg answers) := by
  refine h.schedule.bind fun outcome => .get_bind fun s _ => ?_
  exact (h.executeStep answers outcome.1 outcome.2).bind fun _ => .get_bind fun t _ => .pure _

private theorem turn (turn : Turn) {s : State} (hs : P s) : P (turn.apply cfg s) := by
  cases turn with
  | call op =>
    by_cases hop : op = .schedule
    · subst hop
      exact h.schedule s hs
    · exact h.op hop hs
  | arrive request => exact h.admitRequest request s hs
  | step answers => exact h.stepUnlocked answers s hs

theorem runTurns (turns : List Turn) : P (runTurns cfg turns) := by
  induction turns using List.reverseRecOn with
  | nil => exact h.init
  | append_singleton turns turn ih =>
    rw [runTurns_concat]
    exact h.turn turn ih

end Stable

/-- Between calls the protocol holds, and under it each call but `schedule` keeps `Q`. -/
structure CompanionCalls (cfg : Config) (Q : State → Prop) : Prop where
  add : ∀ s, Protocol cfg s → Q s → ∀ tokenIds maxTokens ignoreEos,
    Call.Leaves (add cfg tokenIds maxTokens ignoreEos) s Q
  postprocess : ∀ s, Protocol cfg s → Q s → ∀ batch tokenIds,
    Call.Leaves (postprocess cfg batch tokenIds) s Q
  plan : ∀ s, Protocol cfg s → Q s → ∀ workspace batch admission baseline,
    Call.Leaves (planSpeculativeStep cfg workspace batch admission baseline) s Q
  prepare : ∀ s, Protocol cfg s → Q s → ∀ plan,
    Call.Leaves (prepareSpeculativeTargetWrites plan) s Q
  commit : ∀ s, Protocol cfg s → Q s → ∀ plan result,
    Call.Leaves (commitSpeculative cfg plan result) s Q
  abort : ∀ s, Protocol cfg s → Q s → Call.Leaves (abortSpeculativeStep cfg) s Q
  handoff : ∀ s, Protocol cfg s → Q s → ∀ plan, Call.Leaves (handoffDraftDiscard plan) s Q
  stage : ∀ s, Protocol cfg s → Q s → ∀ plan batch coverage,
    Call.Leaves (stageDraftCoverage plan batch coverage) s Q
  cancel : ∀ s, Protocol cfg s → Q s → ∀ targets, Call.Leaves (cancel cfg targets) s Q
  discard : ∀ s, Protocol cfg s → s.activeSpecTransaction = none → Q s → ∀ plan,
    Call.Leaves (rollbackDraftDiscard plan) s Q
  coverage : ∀ s, Protocol cfg s → s.activeSpecTransaction = none → Q s → ∀ plan,
    Call.Leaves (abortDraftCoverage plan) s Q
  undo : ∀ s, Protocol cfg s → s.activeSpecTransaction = none → Q s → ∀ rows,
    CountsPages cfg rows → Call.Leaves (rollbackFailedDecodeSchedule cfg rows) s Q

structure Companion (cfg : Config) (Q : State → Prop) : Prop extends CompanionCalls cfg Q where
  init : Q (State.init cfg)
  schedule : ∀ s, Protocol cfg s → Q s → Call.Leaves (schedule cfg) s Q

namespace Protocol

variable {s : State}

/-! Without a transaction the calls of the handler open none. -/

private theorem coverage_closed (htr : s.activeSpecTransaction = none) (plan : SpecStepPlan) :
    Call.Leaves (abortDraftCoverage plan) s fun t => t.activeSpecTransaction = none := by
  unfold Call.Leaves
  rcases abortDraftCoverage_cases plan s with ⟨-, hres⟩ | ⟨-, hres⟩ | ⟨e, -, -, hres⟩ <;>
    rw [hres] <;> exact htr

private theorem undo_closed (h : Protocol cfg s) (htr : s.activeSpecTransaction = none)
    {rows : List DecodeScheduleRollbackRow} (hpages : CountsPages cfg rows) :
    Call.Leaves (rollbackFailedDecodeSchedule cfg rows) s
      fun t => t.activeSpecTransaction = none := by
  have hroll := h.leaves_rollbackFailed (h.closed htr) hpages
  unfold Call.Leaves at hroll ⊢
  exact (congrArg Control.activeSpecTransaction hroll.2).trans htr

end Protocol

theorem CompanionCalls.stable {Q : State → Prop} (h : CompanionCalls cfg Q) :
    StableCalls cfg fun s => Protocol cfg s ∧ Q s where
  add := fun tokenIds maxTokens ignoreEos s hs =>
    ⟨hs.1.leaves_add tokenIds maxTokens ignoreEos, h.add s hs.1 hs.2 tokenIds maxTokens ignoreEos⟩
  postprocess := fun batch tokenIds s hs =>
    ⟨(hs.1.leaves_postprocess batch tokenIds).1, h.postprocess s hs.1 hs.2 batch tokenIds⟩
  plan := fun workspace batch admission baseline s hs =>
    ⟨(hs.1.leaves_plan workspace batch admission baseline).1,
      h.plan s hs.1 hs.2 workspace batch admission baseline⟩
  prepare := fun plan s hs => ⟨(hs.1.leaves_prepare plan).1, h.prepare s hs.1 hs.2 plan⟩
  commit := fun plan result s hs =>
    ⟨(hs.1.leaves_commit plan result).1, h.commit s hs.1 hs.2 plan result⟩
  abort := fun s hs => ⟨hs.1.leaves_abort.1.1, h.abort s hs.1 hs.2⟩
  handoff := fun plan s hs => ⟨(hs.1.leaves_handoff plan).1, h.handoff s hs.1 hs.2 plan⟩
  stage := fun plan batch coverage s hs =>
    ⟨(hs.1.leaves_stage plan batch coverage).1, h.stage s hs.1 hs.2 plan batch coverage⟩
  cancel := fun targets s hs =>
    ⟨hs.1.leaves_cancel targets, h.cancel s hs.1 hs.2 targets⟩
  discard := fun plan s ⟨hs, htr⟩ => by
    have hres : rollbackDraftDiscard plan s = .ok false s :=
      rollbackDraftDiscard_idle plan (hs.1.closed htr)
    unfold Call.Leaves
    rw [hres]
    exact ⟨hs, htr⟩
  coverage := fun plan s ⟨hs, htr⟩ =>
    ⟨⟨(serves_abortDraftCoverage plan s hs.1).1, h.coverage s hs.1 htr hs.2 plan⟩,
      Protocol.coverage_closed htr plan⟩
  undo := fun rows hpages s ⟨hs, htr⟩ =>
    ⟨⟨(serves_rollbackFailed hpages s hs.1).1, h.undo s hs.1 htr hs.2 rows hpages⟩,
      hs.1.undo_closed htr hpages⟩

theorem Companion.stable {Q : State → Prop} (h : Companion cfg Q) :
    Stable cfg fun s => Protocol cfg s ∧ Q s where
  toStableCalls := h.toCompanionCalls.stable
  init := ⟨Protocol.init cfg, h.init⟩
  schedule := fun s hs => ⟨hs.1.leaves_schedule, h.schedule s hs.1 hs.2⟩

theorem Companion.runTurns {Q : State → Prop} (h : Companion cfg Q) (turns : List Turn) :
    Q (runTurns cfg turns) :=
  (h.stable.runTurns turns).2

end NanoVllm
