/- module: NanoVllm/Runs/Reference
   layer: main result
   source: nanovllm/engine/llm_engine.py, _step_unlocked; nanovllm/engine/scheduler.py;
     nanovllm/engine/speculative_execution.py, the all-greedy acceptance of execute
   digest: In every steady run each request gets the output it would get alone. -/

import NanoVllm.Reference.Course
import NanoVllm.Runs.Cached

set_option autoImplicit false
set_option relaxedAutoImplicit false

namespace NanoVllm

open Library

variable {cfg : Config} {T : List Nat → Nat} {s t u q base : State} {x : Nat}
  {known : Nat} {start : Nat → Sequence} {batch decodes prefills victims ids : List Nat}
  {rows leased : List (Nat × List Nat)}

/-- Row by row, the call was answered with the token that `T` puts behind the tokens of the row;
a verification with the greedy acceptance of whatever was proposed. -/
def TargetCall.AnsweredBy (T : List Nat → Nat) (answers : StepAnswers) : TargetCall → Prop
  | .run batch isPrefill s => ∀ tokenIds, answers.run batch isPrefill = .ok tokenIds →
    ∀ row ∈ batch.zip tokenIds, (s.seqs row.1).Complete → row.2 = T (s.seqs row.1).tokenIds
  | .verify plan batch s => ∀ result, answers.runSpeculative plan = .ok result →
    ∃ proposals : List (List Nat), result.rows = (batch.zip proposals).map fun row =>
      greedyResult row.1 (targetTokens T (s.seqs row.1).tokenIds row.2) row.2

private theorem zip_snd_zip {α β : Type} (xs : List α) :
    ∀ ys : List β, xs.zip ((xs.zip ys).map Prod.snd) = xs.zip ys := by
  induction xs with
  | nil => exact fun _ => rfl
  | cons x xs ih =>
    intro ys
    cases ys with
    | nil => rfl
    | cons y ys => exact congrArg ((x, y) :: ·) (ih ys)

private theorem TargetCall.answeredBy_verify_iff {answers : StepAnswers} {plan : SpecStepPlan}
    {result : SpecExecutionResult} (hrun : answers.runSpeculative plan = .ok result) :
    (TargetCall.verify plan batch s).AnsweredBy T answers ↔
      result.rows = (batch.zip (result.rows.map SpecRowResult.proposedTokenIds)).map fun row =>
        greedyResult row.1 (targetTokens T (s.seqs row.1).tokenIds row.2) row.2 := by
  constructor
  · intro h
    obtain ⟨proposals, hrows⟩ := h result hrun
    have hproposed : result.rows.map SpecRowResult.proposedTokenIds =
        (batch.zip proposals).map Prod.snd := by
      rw [hrows, List.map_map]
      rfl
    rw [hproposed, zip_snd_zip]
    exact hrows
  · intro h result' hrun'
    rw [hrun] at hrun'
    obtain rfl := Except.ok.inj hrun'
    exact ⟨_, h⟩

instance TargetCall.decidableAnsweredBy (T : List Nat → Nat) (answers : StepAnswers) :
    (call : TargetCall) → Decidable (call.AnsweredBy T answers)
  | .run batch isPrefill s => match hrun : answers.run batch isPrefill with
    | .error _ => .isTrue (by simp [TargetCall.AnsweredBy, hrun])
    | .ok tokenIds => decidable_of_iff (∀ row ∈ batch.zip tokenIds, (s.seqs row.1).Complete →
        row.2 = T (s.seqs row.1).tokenIds) (by simp [TargetCall.AnsweredBy, hrun])
  | .verify plan _ _ => match hrun : answers.runSpeculative plan with
    | .error _ => .isTrue (by simp [TargetCall.AnsweredBy, hrun])
    | .ok _ => decidable_of_iff _ (TargetCall.answeredBy_verify_iff hrun).symm

def Turn.AnsweredBy (cfg : Config) (T : List Nat → Nat) (s : State) : Turn → Prop
  | .step answers => ∀ call, stepTarget cfg answers s = some call → call.AnsweredBy T answers
  | .call _ => True
  | .arrive _ => True

instance Turn.decidableAnsweredBy (cfg : Config) (T : List Nat → Nat) (s : State) :
    (turn : Turn) → Decidable (turn.AnsweredBy cfg T s)
  | .step answers => inferInstanceAs
      (Decidable (∀ call ∈ stepTarget cfg answers s, call.AnsweredBy T answers))
  | .call _ | .arrive _ => .isTrue trivial

/-- Every target call from `s` on is answered by `T`. -/
def AnsweredFrom (cfg : Config) (T : List Nat → Nat) : State → List Turn → Prop
  | _, [] => True
  | s, turn :: turns => turn.AnsweredBy cfg T s ∧ AnsweredFrom cfg T (turn.apply cfg s) turns

instance AnsweredFrom.decidable (cfg : Config) (T : List Nat → Nat) : (s : State) →
    (turns : List Turn) → Decidable (AnsweredFrom cfg T s turns)
  | _, [] => .isTrue trivial
  | s, turn :: turns => @instDecidableAnd _ _ (turn.decidableAnsweredBy cfg T s)
    (AnsweredFrom.decidable cfg T (turn.apply cfg s) turns)

section Calls

variable (h : OnCourse cfg T known start s)

include h

private theorem OnCourse.created (tokenIds : List Nat) (maxTokens : Nat)
    (ignoreEos : Bool) (t : State) (hseqs : t.seqs = (s.created tokenIds maxTokens ignoreEos).seqs)
    (hnext : t.nextSeqId = s.nextSeqId + 1)
    (hlive : ∀ y ∈ t.running ++ t.waiting, y ≠ s.nextSeqId → y ∈ s.running ++ s.waiting) :
    OnCourse cfg T known start t := by
  have hnew : (Sequence.new tokenIds maxTokens ignoreEos).goal cfg T =
      (Sequence.new tokenIds maxTokens ignoreEos).reference cfg T := by
    unfold Sequence.goal Sequence.reference Sequence.numCompletionTokens Sequence.numTokens
      Sequence.new
    dsimp only
    rw [Nat.sub_self, Nat.sub_zero, List.take_length]
  refine h.replace hseqs (hnext.ge.trans' (Nat.le_succ _)) hlive (fun hx => ?_) le_rfl ?_
    (fun _ => hnew) fun hstatus => absurd hstatus SequenceStatus.noConfusion
  · exact absurd (hx.trans_le h.issued) (lt_irrefl _)
  · rw [← hnew]
    exact Sequence.goal_reached _

private theorem OnCourse.leaves_add (tokenIds : List Nat) (maxTokens : Nat)
    (ignoreEos : Bool) :
    OnCourse cfg T known start (Call.after (add cfg tokenIds maxTokens ignoreEos s)) := by
  rcases add_cases cfg s tokenIds maxTokens ignoreEos with
    ⟨-, e, hres⟩ | ⟨-, -, e, hres⟩ | ⟨-, -, hres⟩ <;> rw [hres]
  · exact h
  · exact h.created tokenIds maxTokens ignoreEos _ rfl rfl fun y hy _ => hy
  · refine h.created tokenIds maxTokens ignoreEos _ rfl rfl fun y hy hne => ?_
    change y ∈ s.running ++ (s.waiting ++ [s.nextSeqId]) at hy
    simpa [hne] using hy

private theorem OnCourse.leaves_cancel (hset : s.Settled cfg) (targets : List Nat) :
    OnCourse cfg T known start (Call.after (cancel cfg targets s)) := by
  have hidle := abortSpeculativeStep_idle cfg hset.1.1.transaction
  rcases (Protocol.of_ready hset.1).cancel_steps targets with
    ⟨-, hres⟩ | ⟨-, ⟨e, u, hu, hres⟩ | ⟨aborted, u, hu, hdrop, hres⟩⟩
  · rw [hres]
    exact h
  · rw [hidle] at hu
    exact absurd hu (by simp)
  · rw [hidle] at hu
    obtain ⟨-, rfl⟩ := EStateM.Result.ok.inj hu
    rw [State.dropPendingCoverage_idle hset.1.1.pending] at hres
    rw [hres]
    exact h.silent (s.drop_silent targets)

end Calls

/-- The commit of an ordinary call, in a state `q` with the rows of the scheduled batch. -/
private theorem BatchOut.commit_onCourse (hout : BatchOut cfg decodes prefills u)
    (h : OnCourse cfg T known start u)
    (hseqs : q.seqs = u.seqs) (hqueues : q.running = u.running ∧ q.waiting = u.waiting)
    (hnext : q.nextSeqId = u.nextSeqId) (hcore : Core cfg [] q) (hquiet : q.Quiet)
    {answers : StepAnswers} {isPrefill : Bool}
    (hanswered : (TargetCall.run (decodes ++ prefills) isPrefill q).AnsweredBy T answers)
    {tokenIds : List Nat} (hrun : answers.run (decodes ++ prefills) isPrefill = .ok tokenIds)
    (hlen : tokenIds.length = (decodes ++ prefills).length) :
    OnCourse cfg T known start
      ((State.postRows cfg q ((decodes ++ prefills).zip tokenIds)).closeHandoff q
        (decodes ++ prefills)) := by
  have hst := hout.staged
  have hfst : ((decodes ++ prefills).zip tokenIds).map Prod.fst = decodes ++ prefills :=
    List.map_fst_zip hlen.ge
  have hq : OnCourse cfg T known start q := h.silent (.of_eq hseqs hnext fun y hy => by
    rwa [hqueues.1, hqueues.2] at hy)
  have hnd : (((decodes ++ prefills).zip tokenIds).map Prod.fst).Nodup := by
    rw [hfst]
    exact hst.distinct
  have hall := hq.postRows hnd hcore hquiet (fun row hrow => ?_) (hanswered tokenIds hrun)
  · exact hall.silent (State.closeHandoff_silent _ q (decodes ++ prefills))
  · have hrow' := hst.out (List.of_mem_zip hrow).1
    refine ⟨?_, ?_⟩
    · rw [hqueues.1, hqueues.2, hseqs]
      exact hrow'.row
    · rw [hseqs]
      exact hrow'.scheduled

private theorem Verifying.commit_onCourse {rollback : List DecodeScheduleRollbackRow}
    {tr : ActiveSpecTransaction} {result : SpecExecutionResult} {prepared : List PreparedRow}
    {desired : List (TemporaryReservationRow × Nat)} {answers : StepAnswers}
    (h : Verifying cfg u rollback ids base leased tr q) (hout : BatchOut cfg batch [] u)
    (hc : Committed cfg base leased tr q result prepared desired t)
    (hon : OnCourse cfg T known start u)
    (hanswered : (TargetCall.verify tr.plan batch q).AnsweredBy T answers)
    (hrun : answers.runSpeculative tr.plan = .ok result) : OnCourse cfg T known start t := by
  have hcommit := hc.committable
  have hbase := h.holding.core hout.ready.2
  have hfst := (desiredRetention_ok hc.desired_ok).1
  have hbursts := hcommit.bursts h.holding.lease hbase hc.desired_ok
  have hpcore : Core cfg [] (base.lend (keptRows desired)) :=
    h.holding.lease.kept_core hbase hfst fun e he => by
      rw [h.base_queues.1]
      exact h.leased_rows e he
  have htext : ∀ y, (q.seqs y).SameText ((base.lend (keptRows desired)).seqs y) := by
    intro y
    rw [congrFun h.holding.lease.seqs_eq y]
    exact ⟨rfl, rfl, rfl, rfl, id⟩
  have hstart := hon.silent (h.silent (keptRows desired))
  have hall := hstart.commitAll hpcore hbursts (fun row hrow => ?_) fun row hrow => ?_
  · rw [hc.after]
    exact hall.silent (.of_eq rfl rfl fun _ hy => hy)
  · -- a verified row is running
    rw [hcommit.prepared_eq] at hrow
    obtain ⟨res, hres, rfl⟩ := List.mem_map.mp hrow
    obtain ⟨snapshot, -, hacc⟩ := hcommit.accepted res hres
    intro hfinished
    have hstatus : ((base.lend (keptRows desired)).seqs res.seqId).status =
        (q.seqs res.seqId).status := by
      rw [congrFun h.holding.lease.seqs_eq res.seqId]
      rfl
    change ((base.lend (keptRows desired)).seqs res.seqId).status = _ at hfinished
    rw [hstatus, hacc.status] at hfinished
    exact SequenceStatus.noConfusion hfinished
  · obtain ⟨proposals, hrows⟩ := hanswered result hrun
    rw [hcommit.prepared_eq, hrows, List.map_map] at hrow
    obtain ⟨e, he, rfl⟩ := List.mem_map.mp hrow
    have htext' := htext e.1
    refine ⟨(greedyResult e.1 (targetTokens T (q.seqs e.1).tokenIds e.2) e.2).committedTokenIds,
      ?_, ?_⟩
    · show Follows T ((base.lend (keptRows desired)).seqs e.1).tokenIds _
      rw [← htext'.tokenIds]
      exact greedyResult_follows T e.1 e.2 _
    · have hdone : (q.seqs e.1).numCompletionTokens =
          ((base.lend (keptRows desired)).seqs e.1).numCompletionTokens := by
        unfold Sequence.numCompletionTokens Sequence.numTokens
        rw [htext'.tokenIds, htext'.prompt]
      show committedBurst cfg (q.seqs e.1) _ (q.seqs e.1).numCompletionTokens = committedBurst cfg
        ((base.lend (keptRows desired)).seqs e.1) _
        ((base.lend (keptRows desired)).seqs e.1).numCompletionTokens
      rw [hdone]
      exact committedBurst_congr htext'.maxTokens htext'.ignoreEos _ _

private theorem StepEnd.onCourse {answers : StepAnswers} {call : Option TargetCall}
    {result : EStateM.Result Raised State (List StreamOutput)}
    (h : StepEnd cfg (s.preemptAll victims) rows batch u answers call result)
    (hrep : Replay cfg s victims rows batch [] u) (hout : BatchOut cfg batch [] u)
    (hon : OnCourse cfg T known start u)
    (hanswered : ∀ one, call = some one → one.AnsweredBy T answers) :
    OnCourse cfg T known start (Call.after result) := by
  have hordinary : ∀ {q : State} {tokenIds : List Nat}, q.seqs = u.seqs →
      q.running = u.running ∧ q.waiting = u.waiting → q.nextSeqId = u.nextSeqId →
      q.activeDraftDiscard = none →
      Protocol cfg q → (TargetCall.run batch false q).AnsweredBy T answers →
      answers.run batch false = .ok tokenIds → tokenIds.length = batch.length →
      OnCourse cfg T known start
        ((State.postRows cfg q (batch.zip tokenIds)).closeHandoff q batch) := by
    intro q tokenIds hseqs hqueues hnext hdis hp hans hrun hlen
    have hqcore := hp.unleased_core
    rw [State.unleased_idle hdis] at hqcore
    have hans' : (TargetCall.run (batch ++ []) false q).AnsweredBy T answers := by
      rwa [List.append_nil]
    have hrun' : answers.run (batch ++ []) false = .ok tokenIds := by rwa [List.append_nil]
    have hlen' : tokenIds.length = (batch ++ []).length := by rwa [List.append_nil]
    have hdone := hout.commit_onCourse hon hseqs hqueues hnext hqcore (hp.quiet hdis) hans' hrun'
      hlen'
    rwa [List.append_nil] at hdone
  cases h with
  | undone h happ hcall => exact hon.silent (h.silent hrep)
  | ordinary h hp hrun hlen _ _ =>
    obtain ⟨f, n, c, rfl⟩ := h
    exact hordinary rfl ⟨rfl, rfl⟩ rfl hout.ready.1.discard hp (hanswered _ rfl) hrun hlen
  | shadowed _ h hp _ hrun hlen _ _ =>
    exact hordinary h.pool.seqs ⟨congrArg Control.running h.control,
      congrArg Control.waiting h.control⟩ (congrArg Control.nextSeqId h.control) h.discard hp
      (hanswered _ rfl) hrun hlen
  | committed h _ hrun hc _ _ => exact h.commit_onCourse hout hc hon (hanswered _ rfl) hrun
  | unobserved h _ hrun hc _ _ => exact h.commit_onCourse hout hc hon (hanswered _ rfl) hrun

private theorem OnCourse.step (h : OnCourse cfg T known start s) (hset : s.Settled cfg)
    {answers : StepAnswers}
    (hanswered : (Turn.step answers).AnsweredBy cfg T s) :
    OnCourse cfg T known start (Call.after (stepUnlocked cfg answers s)) := by
  have hu := h.silent (hset.1.schedule_silent)
  rw [stepUnlocked_after]
  cases hset.turn_end answers with
  | unscheduled hsched _ =>
    rw [hsched] at hu ⊢
    exact hu
  | @plain decodes prefills u hout hne hsched hplain =>
    have hcall := hanswered (.run (decodes ++ prefills) (decide (prefills ≠ [])) u)
    rw [stepTarget_of_schedule hsched] at hcall
    rw [hsched] at hu ⊢
    dsimp only
    rcases hout.plain_end hplain answers with ⟨e, hres⟩ | ⟨tokenIds, hrun, hlen, -, hres, -⟩
    · rw [hres]
      exact hu
    · rw [hres]
      exact hout.commit_onCourse hu rfl ⟨rfl, rfl⟩ rfl hout.ready.2 hout.ready.1.toQuiet
        (hcall (executeTarget_plain _ hplain)) hrun hlen
  | @decode batch victims rows u hout hne hsched hrep hspec hend =>
    have hcall : ∀ one, executeTarget cfg answers batch false u = some one →
        one.AnsweredBy T answers := by
      intro one hone
      refine hanswered one ?_
      rw [stepTarget_of_schedule hsched]
      exact hone
    rw [hsched] at hu ⊢
    exact hend.onCourse hrep hout hu hcall

private theorem OnCourse.turn (h : OnCourse cfg T known start s) (hset : s.Settled cfg) {turn : Turn}
    (hsteady : turn.Steady cfg s) (hanswered : turn.AnsweredBy cfg T s) :
    OnCourse cfg T known start (turn.apply cfg s) := by
  cases turn with
  | call op =>
    cases op with
    | add tokenIds maxTokens ignoreEos => exact h.leaves_add tokenIds maxTokens ignoreEos
    | cancel targets => exact h.leaves_cancel hset targets
    | schedule => exact hsteady.elim
    | postprocess batch tokenIds => exact hsteady.elim
    | plan workspace batch admission baseline => exact hsteady.elim
    | prepare plan => exact hsteady.elim
    | commit plan result => exact hsteady.elim
    | abort => exact hsteady.elim
    | handoff plan => exact hsteady.elim
    | stage plan batch coverage => exact hsteady.elim
  | arrive request =>
    change OnCourse cfg T known start (Call.after (admitRequest cfg request s))
    rcases admitRequest_cases cfg request s with ⟨e, hres⟩ | ⟨promptIds, -, -, -, hres⟩
    · rw [hres]
      exact h
    · rw [hres]
      exact h.leaves_add promptIds request.maxTokens request.ignoreEos
  | step answers => exact h.step hset hanswered

private theorem OnCourse.init (cfg : Config) (T : List Nat → Nat) :
    OnCourse cfg T 0 (State.init cfg).seqs (State.init cfg) where
  issued := Nat.zero_le _
  asked _ hx := absurd hx (Nat.not_lt_zero _)
  prompt _ := le_rfl
  reached _ := prefix_unroll _ _ _ _
  queued _ hx := absurd hx (by simp [State.init])
  finished _ hx := absurd hx SequenceStatus.noConfusion

private theorem OnCourse.rebase (h : OnCourse cfg T known start s) :
    OnCourse cfg T s.nextSeqId s.seqs s where
  issued := le_rfl
  asked _ _ := ⟨[], (List.append_nil _).symm, rfl, rfl, rfl⟩
  prompt := h.prompt
  reached := h.reached
  queued := h.queued
  finished := h.finished

private theorem OnCourse.steadyFrom (turns : List Turn) (h : OnCourse cfg T known start s)
    (hset : s.Settled cfg) (hsteady : SteadyFrom cfg s turns) (hanswered : AnsweredFrom cfg T s turns) :
    OnCourse cfg T known start (turns.foldl (fun s turn => turn.apply cfg s) s) := by
  induction turns generalizing s with
  | nil => exact h
  | cons turn turns ih =>
    exact ih (h.turn hset hsteady.1 hanswered.1) (hset.turn hsteady.1) hsteady.2 hanswered.2

private theorem AnsweredFrom.append (before : List Turn) {after : List Turn}
    (h : AnsweredFrom cfg T s (before ++ after)) : AnsweredFrom cfg T s before ∧
      AnsweredFrom cfg T (before.foldl (fun s turn => turn.apply cfg s) s) after := by
  induction before generalizing s with
  | nil => exact ⟨trivial, h⟩
  | cons turn before ih => exact ⟨⟨h.1, (ih h.2).1⟩, (ih h.2).2⟩

theorem onCourse_runTurns {before after : List Turn}
    (hsteady : SteadyFrom cfg (State.init cfg) (before ++ after))
    (hanswered : AnsweredFrom cfg T (State.init cfg) (before ++ after)) :
    OnCourse cfg T 0 (State.init cfg).seqs (runTurns cfg before) ∧
      OnCourse cfg T (runTurns cfg before).nextSeqId (runTurns cfg before).seqs
        (runTurns cfg (before ++ after)) := by
  obtain ⟨hsteady, hsteady'⟩ := (steadyFrom_append before).mp hsteady
  obtain ⟨hanswered, hanswered'⟩ := hanswered.append before
  have hmid := (OnCourse.init cfg T).steadyFrom before (State.Settled.init cfg) hsteady hanswered
  have hend := hmid.rebase.steadyFrom after (settled_runTurns hsteady) hsteady' hanswered'
  have hfold : runTurns cfg (before ++ after) =
      after.foldl (fun s turn => turn.apply cfg s) (runTurns cfg before) := List.foldl_append
  rw [hfold]
  exact ⟨hmid, hend⟩

/-- The request `x` of `s` is in `t` on the way to the output of its prompt in `s`. -/
theorem OnCourse.follows {earlier : Nat → Sequence} (h : OnCourse cfg T known earlier s)
    (hon : OnCourse cfg T s.nextSeqId s.seqs t) (hx : x < s.nextSeqId) :
    (s.seqs x).numPromptTokens ≤ (s.seqs x).numTokens ∧
      (s.seqs x).tokenIds <+: (t.seqs x).tokenIds ∧
      (t.seqs x).tokenIds <+: (s.seqs x).reference cfg T ∧
      ((t.seqs x).status = .finished → (t.seqs x).tokenIds = (s.seqs x).reference cfg T) := by
  obtain ⟨tokens, hgains⟩ := hon.asked x hx
  have hprompt := h.prompt x
  have hkept : (s.seqs x).tokenIds <+: (t.seqs x).tokenIds := by
    rw [hgains.tokenIds]
    exact List.prefix_append _ _
  rw [← hgains.reference hprompt]
  exact ⟨hprompt, hkept, hon.reached x, hon.finished x⟩

/-- In every steady run whose target calls answer each row with the token that `T` puts behind its
tokens, however the requests are batched, chunked, preempted, speculated on and rolled back: a
request issued by some point of the run keeps the prompt and the other tokens it had there in
front, has in the end a part of the output that `T` made of its prompt alone, and all of it once
it is finished. -/
theorem outputs_follow_reference (before after : List Turn)
    (hsteady : SteadyFrom cfg (State.init cfg) (before ++ after))
    (hanswered : AnsweredFrom cfg T (State.init cfg) (before ++ after))
    (hx : x < (runTurns cfg before).nextSeqId) :
    ((runTurns cfg before).seqs x).numPromptTokens ≤ ((runTurns cfg before).seqs x).numTokens ∧
      ((runTurns cfg before).seqs x).tokenIds <+:
        ((runTurns cfg (before ++ after)).seqs x).tokenIds ∧
      ((runTurns cfg (before ++ after)).seqs x).tokenIds <+:
        ((runTurns cfg before).seqs x).reference cfg T ∧
      (((runTurns cfg (before ++ after)).seqs x).status = .finished →
        ((runTurns cfg (before ++ after)).seqs x).tokenIds =
          ((runTurns cfg before).seqs x).reference cfg T) := by
  obtain ⟨hmid, hon⟩ := onCourse_runTurns hsteady hanswered
  exact hmid.follows hon hx

def nextNumber (tokens : List Nat) : Nat := tokens.getLastD 0 + 1

private theorem verifiedTurns_answered :
    AnsweredFrom Config.roomy nextNumber (State.init Config.roomy) verifiedTurns := by
  decide +kernel

theorem outputs_follow_reference_sample :
    ∃ s, runTurns Config.roomy verifiedTurns = s ∧
      (s.seqs 0).tokenIds =
        unroll nextNumber (fun token => !true && decide ((token : Int) = Config.roomy.eos)) 3
          [3, 4, 5] ∧
      (s.seqs 1).tokenIds = [3, 4, 9, 10, 11] ∧ [3, 4, 9] <+: (s.seqs 1).tokenIds ∧
      (s.seqs 1).tokenIds <+:
        unroll nextNumber (fun token => !true && decide ((token : Int) = Config.roomy.eos)) 3
          [3, 4, 9] := by
  obtain ⟨-, -, -, hfinished⟩ := outputs_follow_reference (x := 0) (verifiedTurns.take 1)
    (verifiedTurns.drop 1) verifiedTurns_steady verifiedTurns_answered (by decide)
  obtain ⟨-, hprompt, hreached, -⟩ := outputs_follow_reference (x := 1) (verifiedTurns.take 3)
    (verifiedTurns.drop 3) verifiedTurns_steady verifiedTurns_answered (by decide +kernel)
  rw [List.take_append_drop] at hfinished hprompt hreached
  have hadded : (runTurns Config.roomy (verifiedTurns.take 3)).seqs 1 =
      .new [3, 4, 9] 4 true := by decide +kernel
  have hend : ((runTurns Config.roomy verifiedTurns).seqs 0).status = .finished ∧
      ((runTurns Config.roomy verifiedTurns).seqs 1).tokenIds = [3, 4, 9, 10, 11] := by
    decide +kernel
  rw [hadded] at hprompt hreached
  obtain ⟨s, hs⟩ : ∃ s, runTurns Config.roomy verifiedTurns = s := ⟨_, rfl⟩
  rw [hs] at hfinished hprompt hreached hend
  refine ⟨s, hs, ?_, hend.2, hprompt, ?_⟩
  · exact (hfinished hend.1).trans (Sequence.reference_new Config.roomy nextNumber [3, 4, 5] 4 true)
  · rwa [Sequence.reference_new] at hreached

end NanoVllm
