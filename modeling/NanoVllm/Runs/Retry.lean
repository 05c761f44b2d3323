/- module: NanoVllm/Runs/Retry
   layer: main result
   source: nanovllm/engine/llm_engine.py, the handler of _step_unlocked; nanovllm/engine/scheduler.py,
     rollback_failed_decode_schedule; nanovllm/engine/model_runner.py, prepare_decode
   digest: A step whose target run raised can be retried exactly if its schedule was undone. -/

import NanoVllm.Runs.Reference

set_option autoImplicit false
set_option relaxedAutoImplicit false

namespace NanoVllm

open Library

variable {cfg : Config} {s t u q : State} {batch : List Nat} {answers : StepAnswers}

/-- The rows of a call with the tokens it feeds them. -/
def TargetCall.chunks (proposals : List (List Nat)) : TargetCall → List (Nat × List Nat)
  | .run batch _ s => s.batchChunks batch
  | .verify _ batch s => s.verifyChunks batch proposals

def TargetCall.state : TargetCall → State
  | .run _ _ s => s
  | .verify _ _ s => s

/-- What the draft may hand to the call. -/
def TargetCall.Proposes (proposals : List (List Nat)) : TargetCall → Prop
  | .run _ _ _ => True
  | .verify plan batch _ => proposals.length = batch.length ∧
      ∀ drafted ∈ proposals, drafted.length = plan.effectiveK

/-- The call writes each token it feeds to the slot that the table of its row has for the position
of the token, behind the slots of the positions before it, and writes nothing else. -/
def TargetCall.Addressed (cfg : Config) (call : TargetCall) : Prop :=
  ∀ sequential proposals, call.Proposes proposals → ∀ query,
    query ∈ call.queries cfg sequential proposals ↔ ∃ c ∈ call.chunks proposals,
      query ∈ chunkQueries cfg.kvcacheBlockSize (call.state.table c.1)
        (call.state.seqs c.1).numCachedTokens c.2

private theorem Batched.run_addressed {decodes prefills : List Nat}
    (h : Batched cfg decodes prefills u) (hst : Staged cfg [] (decodes ++ prefills) u)
    (hne : decodes ++ prefills ≠ []) (hseqs : q.seqs = u.seqs) :
    (TargetCall.run (decodes ++ prefills) (decide (prefills ≠ [])) q).Addressed cfg := by
  intro sequential proposals _ query
  have hchunks : q.batchChunks (decodes ++ prefills) = u.batchChunks (decodes ++ prefills) := by
    unfold State.batchChunks
    rw [hseqs]
  have htable : ∀ x, q.table x = u.table x := by
    intro x
    unfold State.table
    rw [hseqs]
  rw [h.run_queries hst hne hseqs, (h.feeding hst).mem_queries]
  show _ ↔ ∃ c ∈ q.batchChunks (decodes ++ prefills), query ∈ chunkQueries _ (q.table c.1) _ c.2
  rw [hchunks]
  refine exists_congr fun c => and_congr_right fun _ => ?_
  rw [htable, ← hseqs]
  rfl

private theorem State.Settled.call_addressed (h : s.Settled cfg) {call : TargetCall}
    (hcall : stepTarget cfg answers s = some call) : call.Addressed cfg := by
  cases h.turn_end answers with
  | unscheduled hsched _ =>
    unfold stepTarget at hcall
    rw [hsched] at hcall
    exact absurd hcall (by simp)
  | @plain decodes prefills u hout hne hsched hplain =>
    rw [stepTarget_of_schedule hsched, executeTarget_plain _ hplain] at hcall
    obtain rfl := Option.some.inj hcall
    have hst := hout.staged
    obtain ⟨decodes', prefills', hbatch, hpre, hbatched⟩ := h.batched hsched
    rw [hpre]
    rw [hbatch] at hst hne ⊢
    exact hbatched.run_addressed hst hne rfl
  | @decode batch victims rows u hout hne hsched hrep hspec hend =>
    rw [stepTarget_of_schedule hsched] at hcall
    obtain ⟨decodes, prefills, hbatch, hpre, hbatched⟩ := h.batched hsched
    obtain rfl : prefills = [] := by simpa using hpre.symm
    rw [List.append_nil] at hbatch
    subst hbatch
    obtain ⟨ids, hinside⟩ := hend.call_inside
    rw [hcall] at hinside
    cases hinside with
    | run hseqs =>
      have hrun := hbatched.run_addressed hout.staged (by rwa [List.append_nil]) hseqs
      rwa [List.append_nil] at hrun
    | verify hv hsub =>
      rintro sequential proposals ⟨hlen, hk⟩ query
      obtain ⟨feds, hqueries, hfeeding⟩ := hv.feeding hout hlen hk hne sequential
      rw [hqueries]
      exact hfeeding.mem_queries _

/-- Behind the turns `turns` and the step `failing`, whose target run raised: the state is one
between two steps with every cached position written, every later call of every steady run goes on
writing each position to its own slot, and every request gets the output it gets alone, which is
the one of every run from the state before the failure. -/
structure Retryable (cfg : Config) (turns : List Turn) (failing : StepAnswers) : Prop where
  order : BetweenSteps cfg (runTurns cfg (turns ++ [.step failing]))
  written : ∀ cached : List (CachedTurn Bool),
    cached.map CachedTurn.turn = turns ++ [.step failing] →
    (∀ turn ∈ cached, turn.torn = fun _ => false) →
    ∀ x ∈ (runTurns cfg (turns ++ [.step failing])).running,
      ∀ p < ((runTurns cfg (turns ++ [.step failing])).seqs x).numCachedTokens,
        (runCached cfg (fun _ _ => true) (fun _ => false) cached).2 (rowSlot cfg.kvcacheBlockSize
          ((runTurns cfg (turns ++ [.step failing])).table x) p) = true
  addressed : ∀ later, SteadyFrom cfg (runTurns cfg (turns ++ [.step failing])) later →
    ∀ answers call, stepTarget cfg answers (runTurns cfg (turns ++ [.step failing] ++ later)) =
      some call → call.Addressed cfg
  outputs : ∀ later more, SteadyFrom cfg (runTurns cfg (turns ++ [.step failing])) (later ++ more) →
    ∀ T, AnsweredFrom cfg T (State.init cfg) (turns ++ [.step failing] ++ (later ++ more)) →
    ∀ x < (runTurns cfg (turns ++ [.step failing] ++ later)).nextSeqId,
      ((runTurns cfg (turns ++ [.step failing] ++ later)).seqs x).tokenIds <+:
        ((runTurns cfg (turns ++ [.step failing] ++ (later ++ more))).seqs x).tokenIds ∧
      ((runTurns cfg (turns ++ [.step failing] ++ (later ++ more))).seqs x).tokenIds <+:
        ((runTurns cfg (turns ++ [.step failing] ++ later)).seqs x).reference cfg T ∧
      (((runTurns cfg (turns ++ [.step failing] ++ (later ++ more))).seqs x).status = .finished →
        ((runTurns cfg (turns ++ [.step failing] ++ (later ++ more))).seqs x).tokenIds =
          ((runTurns cfg (turns ++ [.step failing] ++ later)).seqs x).reference cfg T)
  unharmed : ∀ later instead,
    SteadyFrom cfg (runTurns cfg (turns ++ [.step failing])) later →
    SteadyFrom cfg (runTurns cfg turns) instead →
    ∀ T, AnsweredFrom cfg T (State.init cfg) (turns ++ [.step failing] ++ later) →
    AnsweredFrom cfg T (State.init cfg) (turns ++ instead) →
    ∀ x < (runTurns cfg turns).nextSeqId,
      ((runTurns cfg (turns ++ [.step failing] ++ later)).seqs x).status = .finished →
      ((runTurns cfg (turns ++ instead)).seqs x).status = .finished →
      ((runTurns cfg (turns ++ [.step failing] ++ later)).seqs x).tokenIds =
        ((runTurns cfg (turns ++ instead)).seqs x).tokenIds

private theorem retryable_of_steady {turns : List Turn} {failing : StepAnswers}
    (hsteady : SteadyFrom cfg (State.init cfg) (turns ++ [.step failing])) :
    Retryable cfg turns failing where
  order := (settled_runTurns hsteady).betweenSteps
  written := by
    intro cached hcached _ x hx p hp
    rw [← hcached] at hsteady hx hp ⊢
    have hsettled := settled_runTurns hsteady
    have hs : Sound cfg (fun _ _ => true) _ _ :=
      sound_runCached (cfg.resolves_const true) hsteady fun _ => false
    rw [runCached_fst] at hs
    have hlive := List.mem_append_left
      (runTurns cfg (cached.map CachedTurn.turn)).waiting hx
    have hfilled := hs.filled hlive (hsettled.2.cached_within hsettled.1.2 hlive)
    have hcell := hfilled p hp
    rw [entriesOf_const, List.getElem?_replicate_of_lt (hp.trans_le hfilled.le_length)] at hcell
    exact (Option.some.inj hcell).symm
  addressed := by
    intro later hlater answers call hcall
    have hall := (steadyFrom_append _).mpr ⟨hsteady, hlater⟩
    exact (settled_runTurns hall).call_addressed hcall
  outputs := by
    intro later more hlater T hanswered x hx
    have hall := (steadyFrom_append _).mpr ⟨hsteady, hlater⟩
    rw [← List.append_assoc] at hall hanswered ⊢
    obtain ⟨hmid, hon⟩ := onCourse_runTurns hall hanswered
    exact (hmid.follows hon hx).2
  unharmed := by
    intro later instead hlater hinstead T hanswered hanswered' x hx hdone hdone'
    have hall := (steadyFrom_append _).mpr ⟨hsteady, hlater⟩
    have hbefore := ((steadyFrom_append _).mp hsteady).1
    rw [List.append_assoc] at hall hanswered hdone ⊢
    obtain ⟨hmid, hon⟩ := onCourse_runTurns hall hanswered
    obtain ⟨-, hon'⟩ := onCourse_runTurns ((steadyFrom_append _).mpr ⟨hbefore, hinstead⟩) hanswered'
    exact ((hmid.follows hon hx).2.2.2 hdone).trans ((hmid.follows hon' hx).2.2.2 hdone').symm

/-- In every steady run, a step whose target run raises before a commit leaves what can be retried
if and only if it was a decode step with speculation enabled, the only one whose schedule is
undone. -/
theorem failed_run_retryable_iff {turns : List Turn} {isPrefill : Bool} {e : Raised}
    (hsteady : SteadyFrom cfg (State.init cfg) turns)
    (hsched : schedule cfg (runTurns cfg turns) = .ok (batch, isPrefill) u)
    (hcall : executeTarget cfg answers batch isPrefill u = some (.run batch isPrefill q))
    (hfail : answers.run batch isPrefill = .error e) :
    Retryable cfg turns answers ↔ isPrefill = false ∧ cfg.speculationEnabled = true := by
  constructor
  · intro hretry
    cases (settled_runTurns hsteady).turn_end answers with
    | unscheduled hnone _ => exact absurd (hnone.symm.trans hsched) (by simp)
    | plain hout hne hplainly hplain =>
      obtain ⟨hb, rfl⟩ := EStateM.Result.ok.inj (hsched.symm.trans hplainly)
      obtain ⟨rfl, rfl⟩ := Prod.mk.inj hb
      rcases hout.plain_end hplain answers with ⟨e', hres⟩ | ⟨tokenIds, hrun, -⟩
      · -- the rows of the batch are still scheduled
        have hleft : runTurns cfg (turns ++ [.step answers]) = u := by
          rw [runTurns_concat]
          show Call.after (stepUnlocked cfg answers (runTurns cfg turns)) = u
          rw [stepUnlocked_after, hsched]
          dsimp only
          rw [hres]
          rfl
        have hafter := hretry.order.unscheduled
        rw [hleft] at hafter
        obtain ⟨x, hx⟩ := List.exists_mem_of_ne_nil _ hne
        obtain ⟨hlive, hbusy⟩ := hout.staged.busy x hx
        rw [List.nil_append] at hlive
        exact absurd (hafter x hlive) hbusy.ne'
      · exact absurd (hfail.symm.trans hrun) (by simp)
    | decode _ _ hdecode _ hspec _ =>
      obtain ⟨hb, -⟩ := EStateM.Result.ok.inj (hsched.symm.trans hdecode)
      exact ⟨(Prod.mk.inj hb).2, hspec⟩
  · rintro ⟨rfl, hspec⟩
    refine retryable_of_steady ((steadyFrom_append _).mpr ⟨hsteady, ?_, trivial⟩)
    show (Turn.step answers).Steady cfg (runTurns cfg turns)
    unfold Turn.Steady
    dsimp only
    rw [hsched]
    dsimp only
    split
    · exact ⟨rfl, hspec⟩
    · trivial

/-- The decode step of a request beside the prefill of another fails and leaves both scheduled. The
retry grows the first request a second time and writes its position `2` to slot `4`, where the
other request has its position `0`, instead of slot `2`. -/
theorem failed_mixed_step_misdirects :
    SteadyFrom Config.sample (State.init Config.sample) growingTurns ∧
      ¬ Retryable Config.sample growingTurns lostStep ∧
      ∃ u v, schedule Config.sample (runTurns Config.sample growingTurns) = .ok ([0, 1], true) u ∧
        executeTarget Config.sample lostStep [0, 1] true u = some (.run [0, 1] true u) ∧
        schedule Config.sample (runTurns Config.sample (growingTurns ++ [.step lostStep])) =
          .ok ([0, 1], false) v ∧
        v.table 0 = [0, 1, 3] ∧ v.table 1 = [2] ∧ (v.seqs 0).numCachedTokens = 2 ∧
        rowSlot 2 (v.table 0) 2 = 2 ∧
        ((TargetCall.run [0, 1] false v).queries Config.sample false []).map Query.slot = [4, 5] := by
  refine ⟨by decide +kernel, fun h => ?_, _, _, rfl, rfl, rfl, rfl, rfl, rfl, rfl, rfl⟩
  have hrow := h.order.unscheduled 0 (by decide +kernel)
  exact absurd hrow (by decide +kernel)

/-- A decode step that fails can be retried: position `2` is written to slot `2` then. -/
theorem failed_run_retryable_iff_sample :
    Retryable Config.sample (growingTurns.take 2) lostStep ∧
      ∃ v, schedule Config.sample
          (runTurns Config.sample (growingTurns.take 2 ++ [.step lostStep])) = .ok ([0], false) v ∧
        v.table 0 = [0, 1] ∧
        ((TargetCall.run [0] false v).queries Config.sample false []).map Query.slot = [2] := by
  have hsteady : SteadyFrom Config.sample (State.init Config.sample) (growingTurns.take 2) := by
    decide +kernel
  exact ⟨(failed_run_retryable_iff hsteady rfl rfl rfl).mpr ⟨rfl, rfl⟩, _, rfl, rfl, rfl⟩

end NanoVllm
