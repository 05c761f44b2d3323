/- module: NanoVllm/Runs/Turns
   layer: invariant
   source: nanovllm/engine/llm_engine.py, _admit_request and _step_unlocked
   digest: Runs of scheduler calls, admissions and engine steps, whatever fails in between. -/

import NanoVllm.Engine.LlmEngine
import NanoVllm.Engine.SpeculativeMemory
import NanoVllm.Speculation.Protocol

set_option autoImplicit false
set_option relaxedAutoImplicit false

namespace NanoVllm

open Library

variable {cfg : Config} {s t base : State} {α β : Type}

/-- From any state between calls, the call keeps the protocol and at most takes rows out of
`running`, whether it returns or raises. -/
def Serves (cfg : Config) (c : Call α) : Prop :=
  ∀ s, Protocol cfg s → Call.Leaves c s fun t => Protocol cfg t ∧ FewerRunning s t

private theorem Serves.of_same {c : Call α} (h : ∀ s, Protocol cfg s →
    Call.Leaves c s fun t => Protocol cfg t ∧ SameQueues s t) : Serves cfg c :=
  fun s hs => ⟨(h s hs).1, (h s hs).2.fewerRunning⟩

private theorem Serves.bind {c : Call α} {k : α → Call β} (hc : Serves cfg c)
    (hk : ∀ a, Serves cfg (k a)) : Serves cfg (c >>= k) := by
  intro s hs
  apply (hc s hs).bind
  intro a t _ ht
  obtain ⟨hp, hq⟩ := hk a t ht.1
  exact ⟨hp, ht.2.trans hq⟩

private theorem Serves.pure (a : α) : Serves cfg (pure a : Call α) :=
  fun s hs => ⟨hs, (SameQueues.refl s).fewerRunning⟩

private theorem Serves.throw (e : Raised) : Serves cfg (throw e : Call α) :=
  fun s hs => ⟨hs, (SameQueues.refl s).fewerRunning⟩

private theorem Serves.liftExcept (x : Except Raised α) : Serves cfg (liftExcept x) := by
  cases x with
  | ok a => exact .pure a
  | error e => exact .throw e

private theorem Serves.tryCatch {c : Call α} {handler : Raised → Call α} (hc : Serves cfg c)
    (hh : ∀ e, Serves cfg (handler e)) : Serves cfg (tryCatch c handler) := by
  intro s hs
  have hafter := hc s hs
  unfold Call.Leaves at hafter ⊢
  rw [Call.tryCatch_apply]
  cases hres : c s with
  | ok a t =>
    rw [hres] at hafter
    exact hafter
  | error e t =>
    rw [hres] at hafter
    obtain ⟨hp, hq⟩ := hh e t hafter.1
    exact ⟨hp, hafter.2.trans hq⟩

private theorem Serves.quietly {c : Call α} (hc : Serves cfg c) : Serves cfg (quietly c) :=
  (hc.bind fun _ => .pure _).tryCatch fun _ => .pure _

private theorem Serves.get_bind {k : State → Call β}
    (hk : ∀ s, Protocol cfg s →
      Call.Leaves (k s) s fun t => Protocol cfg t ∧ FewerRunning s t) :
    Serves cfg (get >>= k) := by
  intro s hs
  unfold Call.Leaves
  rw [Call.bind_of_ok (Call.get_apply s)]
  exact hk s hs

private theorem Protocol.dropsPending (h : Protocol cfg s) : Protocol cfg s.withoutPending := by
  refine ⟨h.progress, h.internal, h.fault, ?_, h.linked, h.closed⟩
  rcases h.lease with ⟨hd, hnone, hcore⟩ | ⟨base, rows, plan, r, hd, hleased, hcore, hrows⟩
  · exact Or.inl ⟨hd, hnone, hcore.withControl (c := s.withoutPending.control) rfl rfl rfl rfl⟩
  · have hnew := hleased.withControl (c := s.withoutPending.control) hleased.active
    exact Or.inr ⟨_, rows, plan, r, hd, hnew, hcore.withControl
      (congrArg Control.running hleased.control).symm
      (congrArg Control.waiting hleased.control).symm
      (congrArg Control.midChunkSeq hleased.control).symm
      (congrArg Control.nextSeqId hleased.control).symm,
      fun e he => (congrArg Control.running hleased.control) ▸ hrows e he⟩

theorem serves_abortDraftCoverage (plan : SpecStepPlan) :
    Serves cfg (abortDraftCoverage plan) := by
  refine .of_same fun s hs => ?_
  unfold Call.Leaves
  rcases abortDraftCoverage_cases plan s with ⟨-, hres⟩ | ⟨-, hres⟩ | ⟨e, -, -, hres⟩
  · rw [hres]
    exact ⟨hs, .refl s⟩
  · rw [hres]
    exact ⟨hs.dropsPending, ⟨rfl, rfl, rfl, rfl, rfl⟩⟩
  · rw [hres]
    exact ⟨hs, .refl s⟩

private theorem serves_rollbackDraftDiscard (plan : SpecStepPlan) :
    Serves cfg (rollbackDraftDiscard plan) := by
  refine .of_same fun s hs => ?_
  unfold Call.Leaves
  cases hd : s.activeDraftDiscard with
  | none =>
    rw [rollbackDraftDiscard_idle plan hd]
    exact ⟨hs, .refl s⟩
  | some d =>
    obtain ⟨tr, htr⟩ : ∃ tr, s.activeSpecTransaction = some tr := by
      rw [← Option.ne_none_iff_exists']
      intro hnone
      rw [hs.closed hnone] at hd
      exact absurd hd (by simp)
    have hdeq := (hs.linked tr htr).2 d hd
    by_cases hplan : plan = tr.plan
    · obtain ⟨released, u, hres, hu, -, -, -, hqueues⟩ := hs.releaseDiscard htr
      rw [hplan, hres]
      exact ⟨hu, hqueues⟩
    · have hres : rollbackDraftDiscard plan s =
          .error (.runtimeError "draft-discard plan identity mismatch") s := by
        have hne : ¬ tr.plan = plan := fun heq => hplan heq.symm
        unfold rollbackDraftDiscard
        rw [Call.bind_of_ok (Call.get_apply s), hd, hdeq]
        simp only [ne_eq, hne, not_false_eq_true, ↓reduceIte]
        exact Call.bind_of_error (Call.throw_apply _ _)
      rw [hres]
      exact ⟨hs, .refl s⟩

theorem serves_rollbackFailed {rollback : List DecodeScheduleRollbackRow}
    (hpages : CountsPages cfg rollback) :
    Serves cfg (rollbackFailedDecodeSchedule cfg rollback) := by
  refine .of_same fun s hs => ?_
  cases hd : s.activeDraftDiscard with
  | none =>
    obtain ⟨hp, hctl⟩ := hs.leaves_rollbackFailed hd hpages
    exact ⟨hp, .of_control hctl rfl rfl rfl rfl rfl⟩
  | some d =>
    have hres : rollbackFailedDecodeSchedule cfg rollback s =
        .error (.runtimeError "temporary draft reservation is still active") s := by
      unfold rollbackFailedDecodeSchedule
      rw [Call.bind_of_ok (Call.get_apply s), hd]
      rfl
    unfold Call.Leaves
    rw [hres]
    exact ⟨hs, .refl s⟩

private theorem serves_undoSchedule (rollback : Option (List DecodeScheduleRollbackRow)) :
    (∀ rows, rollback = some rows → CountsPages cfg rows) →
      Serves cfg (match rollback with
        | none => pure ()
        | some rows => quietly (rollbackFailedDecodeSchedule cfg rows) : Call Unit) := by
  intro hpages
  cases rollback with
  | none => exact .pure _
  | some rows => exact (serves_rollbackFailed (hpages rows rfl)).quietly

private theorem serves_recoverStep (draftCycle : Option SpecStepPlan)
    {rollback : Option (List DecodeScheduleRollbackRow)}
    (hpages : ∀ rows, rollback = some rows → CountsPages cfg rows) :
    Serves cfg (recoverStep cfg draftCycle rollback) := by
  have hundo := serves_undoSchedule rollback hpages
  refine .get_bind fun s hs => ?_
  split
  · exact Serves.quietly (.of_same fun u hu => hu.leaves_abort.1) s hs
  · cases draftCycle with
    | none => exact hundo s hs
    | some plan =>
      exact (serves_rollbackDraftDiscard plan).quietly.bind
        (fun _ => (serves_abortDraftCoverage plan).quietly.bind fun _ => hundo) s hs

private theorem serves_executeSpeculativeVerified (answers : StepAnswers) (batch : List Nat)
    (rollback : Option (List DecodeScheduleRollbackRow)) :
    Serves cfg (executeSpeculativeVerified cfg answers batch rollback) := by
  refine (Serves.liftExcept _).bind fun choice => ?_
  cases choice with
  | none => exact .pure _
  | some admission =>
    refine (Serves.of_same fun s hs => hs.leaves_plan _ _ _ _).bind fun plan => ?_
    split
    · refine (Serves.of_same fun s hs => hs.leaves_prepare plan).bind fun _ => ?_
      refine (Serves.liftExcept _).bind fun _ => (Serves.liftExcept _).bind fun result => ?_
      refine Serves.bind (fun s hs => hs.leaves_commit plan result) fun events => ?_
      exact (Serves.liftExcept _).bind fun _ => .pure _
    · exact .pure _

private theorem serves_executeSpeculativeShadow (answers : StepAnswers) (batch : List Nat)
    (rollback : Option (List DecodeScheduleRollbackRow)) :
    Serves cfg (executeSpeculativeShadow cfg answers batch rollback) := by
  refine (Serves.liftExcept _).bind fun admission => ?_
  refine (Serves.of_same fun s hs => hs.leaves_plan _ _ _ _).bind fun plan => ?_
  split
  · refine (Serves.liftExcept _).bind fun coverage => ?_
    refine (Serves.of_same fun s hs => hs.leaves_handoff plan).bind fun _ => ?_
    exact (Serves.of_same fun s hs => hs.leaves_stage plan batch coverage).bind fun _ => .pure _
  · exact .pure _

theorem serves_executeSpeculation (answers : StepAnswers) (batch : List Nat) (isPrefill : Bool)
    (rollback : Option (List DecodeScheduleRollbackRow)) :
    Serves cfg (executeSpeculation cfg answers batch isPrefill rollback) := by
  unfold executeSpeculation
  split
  · exact .pure _
  split
  · exact (serves_executeSpeculativeVerified answers batch rollback).bind fun _ => .pure _
  · exact (serves_executeSpeculativeShadow answers batch rollback).bind fun _ => .pure _

theorem serves_executeStep (answers : StepAnswers) (batch : List Nat) (isPrefill : Bool) :
    Serves cfg (executeStep cfg answers batch isPrefill) := by
  refine .get_bind fun s hs => ?_
  have hpages : ∀ rows, (if isPrefill || !cfg.speculationEnabled then none
      else captureDecodeScheduleRollback cfg s batch isPrefill) = some rows →
      CountsPages cfg rows := by
    intro rows hrows
    split at hrows
    · exact absurd hrows (by simp)
    · exact capture_pages hrows
  obtain ⟨rollback, hrollback⟩ : ∃ rollback, rollback = if isPrefill || !cfg.speculationEnabled
      then none else captureDecodeScheduleRollback cfg s batch isPrefill := ⟨_, rfl⟩
  rw [← hrollback] at hpages ⊢
  have hspec := @Serves.tryCatch cfg _ _
    (fun e => do
      recoverStep cfg none rollback
      throw e)
    (serves_executeSpeculation answers batch isPrefill rollback)
    fun e => (serves_recoverStep none hpages).bind fun _ => .throw e
  refine (hspec.bind fun outcome => ?_) s hs
  obtain ⟨events, draftCycle⟩ := outcome
  cases events with
  | some events => exact .pure _
  | none =>
    refine Serves.tryCatch ?_ fun e => (serves_recoverStep draftCycle hpages).bind fun _ => .throw e
    exact (Serves.liftExcept _).bind fun tokenIds u hu => hu.leaves_postprocess batch tokenIds

/-- An admission is refused before it changes anything, or adds the checked prompt. -/
theorem admitRequest_cases (cfg : Config) (request : Request) (s : State) :
    (∃ e, admitRequest cfg request s = .error e s) ∨
    ∃ promptIds, request.prompt = .ok promptIds ∧ 1 ≤ request.maxTokens ∧
      admissionChecks cfg promptIds request.maxTokens = .ok ⟨⟩ ∧
      admitRequest cfg request s = add cfg promptIds request.maxTokens request.ignoreEos s := by
  unfold admitRequest
  rcases em (cfg.maxNumSeqs < s.waiting.length + s.running.length + 1) with hfull | hroom
  · exact Or.inl ⟨_, Call.bind_of_error ((requireCapacity_apply cfg 1 s).trans (if_pos hfull))⟩
  rw [Call.bind_of_ok ((requireCapacity_apply cfg 1 s).trans (if_neg hroom))]
  cases hsampling : request.samplingChecks with
  | error e => exact Or.inl ⟨e, Call.bind_of_error (liftExcept_error e s)⟩
  | ok u =>
    rw [Call.bind_of_ok (liftExcept_ok u s)]
    cases hprompt : request.prompt with
    | error e => exact Or.inl ⟨e, Call.bind_of_error (liftExcept_error e s)⟩
    | ok promptIds =>
      rw [Call.bind_of_ok (liftExcept_ok promptIds s)]
      cases hchecks : admissionChecks cfg promptIds request.maxTokens with
      | error e => exact Or.inl ⟨e, Call.bind_of_error (liftExcept_error e s)⟩
      | ok v =>
        refine Or.inr ⟨promptIds, rfl, ?_, hchecks, Call.bind_of_ok (liftExcept_ok v s)⟩
        unfold Request.samplingChecks at hsampling
        obtain ⟨-, -, hsampling⟩ := Call.except_bind_ok hsampling
        by_contra hlt
        rw [if_pos (by omega)] at hsampling
        exact absurd hsampling (by simp [throw, throwThe, MonadExceptOf.throw])

private theorem Protocol.leaves_admit (h : Protocol cfg s) (request : Request) :
    Call.Leaves (admitRequest cfg request) s (Protocol cfg) := by
  rcases admitRequest_cases cfg request s with ⟨e, hres⟩ | ⟨promptIds, -, -, -, hres⟩
  · unfold Call.Leaves
    rw [hres]
    exact h
  · unfold Call.Leaves
    rw [hres]
    exact h.leaves_add promptIds request.maxTokens request.ignoreEos

/-- One turn of a run: a call on the scheduler, an admission or an engine step. -/
inductive Turn
  | call (op : Op)
  | arrive (request : Request)
  | step (answers : StepAnswers)

def Turn.apply (cfg : Config) (s : State) : Turn → State
  | .call op => op.apply cfg s
  | .arrive request => Call.after (admitRequest cfg request s)
  | .step answers => Call.after (stepUnlocked cfg answers s)

theorem stepUnlocked_after (cfg : Config) (answers : StepAnswers) (s : State) :
    Call.after (stepUnlocked cfg answers s) = match schedule cfg s with
      | .error _ u => u
      | .ok (batch, isPrefill) u => Call.after (executeStep cfg answers batch isPrefill u) := by
  unfold stepUnlocked
  rw [Call.bind_apply]
  cases schedule cfg s with
  | error e u => rfl
  | ok outcome u =>
    obtain ⟨batch, isPrefill⟩ := outcome
    dsimp only
    rw [Call.bind_of_ok (Call.get_apply u)]
    cases hres : executeStep cfg answers batch isPrefill u with
    | error e v =>
      rw [Call.bind_of_error hres]
      rfl
    | ok events v =>
      rw [Call.bind_of_ok hres]
      rfl

theorem Protocol.leaves_step (h : Protocol cfg s)
    (answers : StepAnswers) : Protocol cfg (Call.after (stepUnlocked cfg answers s)) := by
  have hsched := leaves_schedule h
  unfold Call.Leaves at hsched
  rw [stepUnlocked_after]
  cases hres : schedule cfg s with
  | error e u =>
    rw [hres] at hsched
    exact hsched
  | ok outcome u =>
    rw [hres] at hsched
    exact (serves_executeStep answers outcome.1 outcome.2 u hsched).1

private theorem Protocol.turn (h : Protocol cfg s) (turn : Turn) :
    Protocol cfg (turn.apply cfg s) := by
  cases turn with
  | call op => exact h.apply op
  | arrive request => exact h.leaves_admit request
  | step answers => exact h.leaves_step answers

/-- The state a sequence of turns leaves, from an empty scheduler. -/
def runTurns (cfg : Config) (turns : List Turn) : State :=
  turns.foldl (fun s turn => turn.apply cfg s) (State.init cfg)

theorem runTurns_concat (cfg : Config) (turns : List Turn) (turn : Turn) :
    runTurns cfg (turns ++ [turn]) = turn.apply cfg (runTurns cfg turns) := by
  simp [runTurns]

theorem Protocol.runTurns (cfg : Config) (turns : List Turn) :
    Protocol cfg (runTurns cfg turns) := by
  induction turns using List.reverseRecOn with
  | nil => exact Protocol.init cfg
  | append_singleton turns turn ih =>
    rw [runTurns_concat]
    exact ih.turn turn

def StepAnswers.sample (tokens : Except Raised (List Nat)) : StepAnswers where
  workspace := SpeculativeMemoryPlan.sample.workspace .sample "fast"
  verifierReady := true
  resolveRoutes := .ok none
  verifierRouteReady := fun _ => true
  choose := none
  snapshotRng := .ok ⟨⟩
  runSpeculative := fun _ => .error (.external "unused")
  observe := .ok ⟨⟩
  runDiscard := fun _ => .error (.external "unused")
  run := fun _ _ => tokens

end NanoVllm
