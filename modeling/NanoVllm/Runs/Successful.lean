/- module: NanoVllm/Runs/Successful
   layer: main result
   source: nanovllm/engine/scheduler.py, schedule, postprocess, commit_speculative and cancel;
     _step_unlocked of nanovllm/engine/llm_engine.py
   digest: The state machine of the scheduler in runs whose steps all return. -/

import NanoVllm.Runs.Cached

set_option autoImplicit false
set_option relaxedAutoImplicit false

namespace NanoVllm

open Library

variable {cfg : Config} {s : State}

/-- An admission, a cancellation, or an engine step that returns. -/
def Turn.Succeeds (cfg : Config) (s : State) : Turn → Prop
  | .call (.add _ _ _) => True
  | .call (.cancel _) => True
  | .call _ => False
  | .arrive _ => True
  | .step answers => ∃ output t, stepUnlocked cfg answers s = .ok output t

instance Turn.decidableSucceeds (cfg : Config) (s : State) :
    (turn : Turn) → Decidable (turn.Succeeds cfg s)
  | .call (.add _ _ _) | .call (.cancel _) | .arrive _ => .isTrue trivial
  | .call .schedule | .call (.postprocess _ _) | .call (.plan _ _ _ _) | .call (.prepare _)
  | .call (.commit _ _) | .call .abort | .call (.handoff _) | .call (.stage _ _ _) => .isFalse id
  | .step answers => match hstep : stepUnlocked cfg answers s with
    | .ok output t => .isTrue ⟨output, t, hstep⟩
    | .error _ _ => .isFalse fun ⟨_, _, hok⟩ => by simp [hstep] at hok

/-- Every turn from `s` on succeeds. -/
def SucceedsFrom (cfg : Config) : State → List Turn → Prop
  | _, [] => True
  | s, turn :: turns => turn.Succeeds cfg s ∧ SucceedsFrom cfg (turn.apply cfg s) turns

instance SucceedsFrom.decidable (cfg : Config) : (s : State) → (turns : List Turn) →
    Decidable (SucceedsFrom cfg s turns)
  | _, [] => .isTrue trivial
  | s, turn :: turns => @instDecidableAnd _ _ (turn.decidableSucceeds cfg s)
    (SucceedsFrom.decidable cfg (turn.apply cfg s) turns)

theorem Turn.Succeeds.steady {turn : Turn} (h : turn.Succeeds cfg s) :
    turn.Steady cfg s := by
  cases turn with
  | call op =>
    cases op with
    | add tokenIds maxTokens ignoreEos => trivial
    | cancel targets => trivial
    | schedule => exact h.elim
    | postprocess batch tokenIds => exact h.elim
    | plan workspace batch admission baseline => exact h.elim
    | prepare plan => exact h.elim
    | commit plan result => exact h.elim
    | abort => exact h.elim
    | handoff plan => exact h.elim
    | stage plan batch coverage => exact h.elim
  | arrive request => trivial
  | step answers =>
    obtain ⟨output, t, hstep⟩ := h
    unfold Turn.Steady
    cases hsched : schedule cfg s with
    | error e u => trivial
    | ok outcome u =>
      obtain ⟨batch, isPrefill⟩ := outcome
      dsimp only
      cases hexec : executeStep cfg answers batch isPrefill u with
      | ok events v => trivial
      | error e v =>
        -- an error of the step would be one of the turn
        have hraised : stepUnlocked cfg answers s = .error e v := by
          unfold stepUnlocked
          rw [Call.bind_of_ok hsched]
          dsimp only
          rw [Call.bind_of_ok (Call.get_apply u), Call.bind_of_error hexec]
        rw [hstep] at hraised
        exact absurd hraised (by simp)

theorem SucceedsFrom.steady (turns : List Turn) (h : SucceedsFrom cfg s turns) :
    SteadyFrom cfg s turns := by
  induction turns generalizing s with
  | nil => trivial
  | cons turn turns ih => exact ⟨h.1.steady, ih h.2⟩

end NanoVllm
