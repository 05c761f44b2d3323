/- module: NanoVllm/Runs/Unrolled
   layer: main result
   source: nanovllm/engine/llm_engine.py, _step_unlocked; nanovllm/engine/scheduler.py, schedule,
     postprocess and commit_speculative; nanovllm/engine/speculative_execution.py
   digest: Every finished request has the output of one loop over its prompt, and streamed it. -/

import NanoVllm.Reference.Events
import NanoVllm.Runs.Greedy
import NanoVllm.Runs.Ownership
import NanoVllm.Runs.Successful
import NanoVllm.Runs.Tagged

set_option autoImplicit false
set_option relaxedAutoImplicit false

namespace NanoVllm

open Library

variable {κ : Type} {cfg : Config} {T : List Nat → Nat} {entry : List κ → Nat → κ}
  {reply : List κ → Nat → Nat} {s t u q base v : State} {x : Nat}
  {outputs earlier : List StreamOutput} {batch decodes prefills ids victims prompt : List Nat}
  {rows leased : List (Nat × List Nat)} {answers : StepAnswers} {maxTokens : Nat} {ignoreEos : Bool}

def Turn.events (cfg : Config) (s : State) : Turn → List StreamOutput
  | .step answers => match stepUnlocked cfg answers s with
    | .ok output _ => output.events
    | .error _ _ => []
  | .call _ => []
  | .arrive _ => []

/-- The outputs that the steps of a run return, in order. -/
def eventsFrom (cfg : Config) : State → List Turn → List StreamOutput
  | _, [] => []
  | s, turn :: turns => turn.events cfg s ++ eventsFrom cfg (turn.apply cfg s) turns

private theorem BatchOut.commit_told (hout : BatchOut cfg decodes prefills u) (h : Told earlier u)
    (hseqs : q.seqs = u.seqs) (hqueues : q.running = u.running ∧ q.waiting = u.waiting)
    (hnext : q.nextSeqId = u.nextSeqId) (hcore : Core cfg [] q) (hquiet : q.Quiet)
    {tokenIds : List Nat} (hlen : tokenIds.length = (decodes ++ prefills).length) :
    Told (earlier ++ State.rowsEvents cfg q ((decodes ++ prefills).zip tokenIds))
      ((State.postRows cfg q ((decodes ++ prefills).zip tokenIds)).closeHandoff q
        (decodes ++ prefills)) := by
  have hst := hout.staged
  have hnd : (((decodes ++ prefills).zip tokenIds).map Prod.fst).Nodup := by
    rw [List.map_fst_zip hlen.ge]
    exact hst.distinct
  have hq : Told earlier q := h.silent (.of_eq hseqs hnext fun y hy => by
    rwa [hqueues.1, hqueues.2] at hy)
  refine (hq.postRows hnd hcore hquiet fun row hrow => ?_).silent
    (State.closeHandoff_silent _ q (decodes ++ prefills))
  have hrow' := hst.out (List.of_mem_zip hrow).1
  refine ⟨?_, ?_⟩
  · rw [hqueues.1, hqueues.2, hseqs]
    exact hrow'.row
  · rw [hseqs]
    exact hrow'.scheduled

private theorem Verifying.commit_told {rollback : List DecodeScheduleRollbackRow}
    {tr : ActiveSpecTransaction} {result : SpecExecutionResult} {prepared : List PreparedRow}
    {desired : List (TemporaryReservationRow × Nat)}
    (h : Verifying cfg u rollback ids base leased tr q) (hout : BatchOut cfg batch [] u)
    (hc : Committed cfg base leased tr q result prepared desired t) (htold : Told earlier u) :
    Told (earlier ++ State.commitEvents cfg (base.lend (keptRows desired)) prepared) t := by
  have hcommit := hc.committable
  have hbase := h.holding.core hout.ready.2
  have hfst := (desiredRetention_ok hc.desired_ok).1
  have hpcore : Core cfg [] (base.lend (keptRows desired)) :=
    h.holding.lease.kept_core hbase hfst fun e he => by
      rw [h.base_queues.1]
      exact h.leased_rows e he
  have hbursts := hcommit.bursts h.holding.lease hbase hc.desired_ok
  rw [hc.after]
  refine ((htold.silent (h.silent (keptRows desired))).commitAll hpcore hbursts
    fun row hrow => ?_).silent (.of_eq rfl rfl fun _ hy => hy)
  -- a verified row is running
  rw [hcommit.prepared_eq] at hrow
  obtain ⟨res, hres, rfl⟩ := List.mem_map.mp hrow
  obtain ⟨snapshot, -, hacc⟩ := hcommit.accepted res hres
  have hstatus : ((base.lend (keptRows desired)).seqs res.seqId).status =
      (q.seqs res.seqId).status := by
    rw [congrFun h.holding.lease.seqs_eq res.seqId]
    rfl
  change ((base.lend (keptRows desired)).seqs res.seqId).status ≠ _
  rw [hstatus, hacc.status]
  exact SequenceStatus.noConfusion

private theorem StepEnd.told {call : Option TargetCall}
    (h : StepEnd cfg v rows batch u answers call (.ok outputs t)) (hout : BatchOut cfg batch [] u)
    (htold : Told earlier u) : Told (earlier ++ outputs) t := by
  have hordinary : ∀ {q : State} {tokenIds : List Nat}, q.seqs = u.seqs →
      q.running = u.running ∧ q.waiting = u.waiting → q.nextSeqId = u.nextSeqId →
      q.activeDraftDiscard = none → Protocol cfg q → tokenIds.length = batch.length →
      Told (earlier ++ State.rowsEvents cfg q (batch.zip tokenIds))
        ((State.postRows cfg q (batch.zip tokenIds)).closeHandoff q batch) := by
    intro q tokenIds hseqs hqueues hnext hdis hp hlen
    have hqcore := hp.unleased_core
    rw [State.unleased_idle hdis] at hqcore
    have hlen' : tokenIds.length = (batch ++ []).length := by rwa [List.append_nil]
    have hdone := hout.commit_told htold hseqs hqueues hnext hqcore (hp.quiet hdis) hlen'
    rwa [List.append_nil] at hdone
  cases h with
  | ordinary h hp hrun hlen _ _ =>
    obtain ⟨f, n, c, rfl⟩ := h
    exact hordinary rfl ⟨rfl, rfl⟩ rfl hout.ready.1.discard hp hlen
  | shadowed _ h hp _ hrun hlen _ _ =>
    exact hordinary h.pool.seqs ⟨congrArg Control.running h.control,
      congrArg Control.waiting h.control⟩ (congrArg Control.nextSeqId h.control) h.discard hp hlen
  | committed h _ _ hc _ _ => exact h.commit_told hout hc htold

private theorem stepUnlocked_ok {output : StepOutput}
    (h : stepUnlocked cfg answers s = .ok output t) : ∃ batch isPrefill u,
      schedule cfg s = .ok (batch, isPrefill) u ∧
        executeStep cfg answers batch isPrefill u = .ok output.events t := by
  unfold stepUnlocked at h
  obtain ⟨⟨batch, isPrefill⟩, u, hsched, h⟩ := Call.bind_ok h
  dsimp only at h
  rw [Call.bind_of_ok (Call.get_apply u)] at h
  obtain ⟨events, v, hstep, h⟩ := Call.bind_ok h
  rw [Call.bind_of_ok (Call.get_apply v)] at h
  obtain ⟨rfl, rfl⟩ := EStateM.Result.ok.inj h
  exact ⟨batch, isPrefill, u, hsched, hstep⟩

private theorem Told.step (h : Told earlier s) (hset : s.Settled cfg) {output : StepOutput}
    (hok : stepUnlocked cfg answers s = .ok output t) : Told (earlier ++ output.events) t := by
  have hu := h.silent hset.1.schedule_silent
  obtain ⟨batch, isPrefill, u, hsched, hstep⟩ := stepUnlocked_ok hok
  cases hset.turn_end answers with
  | unscheduled hfail _ =>
    rw [hsched] at hfail
    exact absurd hfail (by simp)
  | plain hout hne hsched' hplain =>
    rw [hsched] at hsched' hu
    obtain ⟨hbatch, rfl⟩ := EStateM.Result.ok.inj hsched'
    obtain ⟨rfl, rfl⟩ := Prod.mk.inj hbatch
    rcases hout.plain_end hplain answers with ⟨e, hres⟩ | ⟨tokenIds, -, hlen, -, hres, -⟩
    · rw [hstep] at hres
      exact absurd hres (by simp)
    · rw [hstep] at hres
      obtain ⟨hevents, rfl⟩ := EStateM.Result.ok.inj hres
      rw [hevents]
      exact hout.commit_told hu rfl ⟨rfl, rfl⟩ rfl hout.ready.2 hout.ready.1.toQuiet hlen
  | decode hout hne hsched' hrep hspec hend =>
    rw [hsched] at hsched' hu
    obtain ⟨hbatch, rfl⟩ := EStateM.Result.ok.inj hsched'
    obtain ⟨rfl, rfl⟩ := Prod.mk.inj hbatch
    rw [hstep] at hend
    exact hend.told hout hu

private theorem Told.created (h : Told earlier s) (hnew : t.seqs = Function.update s.seqs s.nextSeqId
      (.new prompt maxTokens ignoreEos)) (hnext : t.nextSeqId = s.nextSeqId + 1)
    (hlive : ∀ y ∈ t.running ++ t.waiting, y ≠ s.nextSeqId → y ∈ s.running ++ s.waiting) :
    Told earlier t := by
  refine ⟨fun y => ?_, fun e he => ?_, fun y => ?_⟩
  · rw [hnew]
    by_cases hy : y = s.nextSeqId
    · subst hy
      rw [Function.update_self]
      exact le_rfl
    · rw [Function.update_of_ne hy]
      exact h.prompt y
  · rw [hnext]
    exact Nat.lt_succ_of_lt (h.issued _ he)
  · by_cases hy : y = s.nextSeqId
    · subst hy
      refine ⟨false, ?_, fun _ => rfl, fun hdone => ?_⟩
      · rw [hnew, Function.update_self, List.filter_eq_nil_iff.mpr]
        · exact (congrArg (streamOf _ · false) (List.drop_length (l := prompt))).symm
        · intro e he
          simpa using (h.issued e he).ne
      · rw [hnew, Function.update_self] at hdone
        exact absurd hdone SequenceStatus.noConfusion
    · obtain ⟨finished, hown, hqueued, hfinished⟩ := h.own y
      rw [hnew, Function.update_of_ne hy]
      exact ⟨finished, hown, fun hin => hqueued (hlive y hin hy), hfinished⟩

private theorem Told.leaves_add (h : Told earlier s) (tokenIds : List Nat) (maxTokens : Nat)
    (ignoreEos : Bool) : Told earlier (Call.after (add cfg tokenIds maxTokens ignoreEos s)) := by
  rcases add_cases cfg s tokenIds maxTokens ignoreEos with
    ⟨-, e, hres⟩ | ⟨-, -, e, hres⟩ | ⟨-, -, hres⟩ <;> rw [hres]
  · exact h
  · exact h.created rfl rfl fun y hy _ => hy
  · refine h.created rfl rfl fun y hy hne => ?_
    change y ∈ s.running ++ (s.waiting ++ [s.nextSeqId]) at hy
    simpa [hne] using hy

private theorem Told.leaves_cancel (h : Told earlier s) (hset : s.Settled cfg) (targets : List Nat) :
    Told earlier (Call.after (cancel cfg targets s)) := by
  have hidle := abortSpeculativeStep_idle cfg hset.1.1.transaction
  rcases (Protocol.of_ready hset.1).cancel_steps targets with
    ⟨-, hres⟩ | ⟨-, ⟨e, u, hu, hres⟩ | ⟨aborted, u, hu, hdrop, hres⟩⟩
  · rw [hres]
    exact h
  · rw [hidle] at hu
    exact absurd hu (by simp)
  · rw [hidle] at hu
    obtain ⟨-, rfl⟩ := EStateM.Result.ok.inj hu
    rw [State.dropPendingCoverage_idle hset.1.1.pending] at hres
    rw [hres]
    exact h.silent (s.drop_silent targets)

private theorem Told.turn (h : Told earlier s) (hset : s.Settled cfg) {turn : Turn}
    (hsucceeds : turn.Succeeds cfg s) :
    Told (earlier ++ turn.events cfg s) (turn.apply cfg s) := by
  cases turn with
  | call op =>
    rw [Turn.events, List.append_nil]
    cases op with
    | add tokenIds maxTokens ignoreEos => exact h.leaves_add tokenIds maxTokens ignoreEos
    | cancel targets => exact h.leaves_cancel hset targets
    | schedule => exact hsucceeds.elim
    | postprocess batch tokenIds => exact hsucceeds.elim
    | plan workspace batch admission baseline => exact hsucceeds.elim
    | prepare plan => exact hsucceeds.elim
    | commit plan result => exact hsucceeds.elim
    | abort => exact hsucceeds.elim
    | handoff plan => exact hsucceeds.elim
    | stage plan batch coverage => exact hsucceeds.elim
  | arrive request =>
    rw [Turn.events, List.append_nil]
    change Told earlier (Call.after (admitRequest cfg request s))
    rcases admitRequest_cases cfg request s with ⟨e, hres⟩ | ⟨promptIds, -, -, -, hres⟩
    · rw [hres]
      exact h
    · rw [hres]
      exact h.leaves_add promptIds request.maxTokens request.ignoreEos
  | step answers =>
    obtain ⟨output, t, hok⟩ := hsucceeds
    rw [Turn.events, hok]
    change Told _ (Call.after (stepUnlocked cfg answers s))
    rw [hok]
    exact h.step hset hok

private theorem Told.succeedsFrom (turns : List Turn) (h : Told earlier s) (hset : s.Settled cfg)
    (hsucceeds : SucceedsFrom cfg s turns) : Told (earlier ++ eventsFrom cfg s turns)
      (turns.foldl (fun s turn => turn.apply cfg s) s) := by
  induction turns generalizing s earlier with
  | nil =>
    rw [eventsFrom, List.append_nil]
    exact h
  | cons turn turns ih =>
    rw [eventsFrom, ← List.append_assoc]
    exact ih (h.turn hset hsucceeds.1) (hset.turn hsucceeds.1.steady) hsucceeds.2

private theorem Told.init (cfg : Config) : Told [] (State.init cfg) where
  prompt _ := le_rfl
  issued _ he := absurd he List.not_mem_nil
  own _ := ⟨false, rfl, fun _ => rfl, fun hdone => absurd hdone SequenceStatus.noConfusion⟩

/-- The target call of a step, run or verification, returns the replies to its queries over the
cache, accepted greedily. -/
def CachedTurn.Replied (cfg : Config) (entry : List κ → Nat → κ) (reply : List κ → Nat → Nat)
    (c : State × (Int → κ)) (turn : CachedTurn κ) : Prop :=
  match turn.turn with
  | .step answers => ∀ call, stepTarget cfg answers c.1 = some call →
    call.Greedy cfg entry reply c.2 answers
  | .call _ => True
  | .arrive _ => True

instance CachedTurn.decidableReplied (cfg : Config) (entry : List κ → Nat → κ)
    (reply : List κ → Nat → Nat) (c : State × (Int → κ)) :
    (turn : CachedTurn κ) → Decidable (turn.Replied cfg entry reply c)
  | ⟨.step answers, _, _⟩ => inferInstanceAs (Decidable (∀ call ∈ stepTarget cfg answers c.1,
      call.Greedy cfg entry reply c.2 answers))
  | ⟨.call _, _, _⟩ | ⟨.arrive _, _, _⟩ => .isTrue trivial

def RepliedFrom (cfg : Config) (entry : List κ → Nat → κ) (reply : List κ → Nat → Nat) :
    State × (Int → κ) → List (CachedTurn κ) → Prop
  | _, [] => True
  | c, turn :: turns => turn.Replied cfg entry reply c ∧
    RepliedFrom cfg entry reply (turn.apply cfg entry c) turns

instance RepliedFrom.decidable (cfg : Config) (entry : List κ → Nat → κ)
    (reply : List κ → Nat → Nat) : (c : State × (Int → κ)) → (turns : List (CachedTurn κ)) →
    Decidable (RepliedFrom cfg entry reply c turns)
  | _, [] => .isTrue trivial
  | c, turn :: turns => @instDecidableAnd _ _ (turn.decidableReplied cfg entry reply c)
    (RepliedFrom.decidable cfg entry reply (turn.apply cfg entry c) turns)

private theorem RepliedFrom.answeredFrom (hdigest : cfg.Resolves entry) (turns : List (CachedTurn κ))
    {c : State × (Int → κ)} (hset : c.1.Settled cfg) (hs : Sound cfg entry c.1 c.2)
    (hsteady : SteadyFrom cfg c.1 (turns.map CachedTurn.turn))
    (hreplied : RepliedFrom cfg entry reply c turns) :
    AnsweredFrom cfg (nextOf entry reply) c.1 (turns.map CachedTurn.turn) := by
  induction turns generalizing c with
  | nil => trivial
  | cons turn turns ih =>
    refine ⟨?_, ih (hset.turn hsteady.1) (hs.turn hset hdigest hsteady.1) hsteady.2 hreplied.2⟩
    have hfirst := hreplied.1
    unfold CachedTurn.Replied at hfirst
    cases hturn : turn.turn with
    | call op => trivial
    | arrive request => trivial
    | step answers =>
      rw [hturn] at hfirst
      exact hs.answeredBy hset hdigest hfirst

private theorem unroll_nextOf (hreply : ∀ words word,
    reply (entriesOf entry words) word = T (words ++ [word])) (stop : Nat → Bool) (n : Nat)
    (hne : prompt ≠ []) : unroll (nextOf entry reply) stop n prompt = unroll T stop n prompt := by
  refine unroll_congr _ _ fun more => ?_
  have hmore : prompt ++ more ≠ [] := List.append_ne_nil_of_left_ne_nil hne more
  rw [← List.dropLast_append_getLast hmore, nextOf_concat]
  exact hreply _ _

def repeatedTurns : List (CachedTurn (List Nat)) :=
  [⟨.call (.add [16, 2714613518493327716, 5] 3 true), false, fun _ => []⟩,
    ⟨.step (.unspeculated [3]), false, fun _ => []⟩,
    ⟨.call (.add [16, 2714613518493327716, 16, 2714613518493327716, 7] 1 true), false, fun _ => []⟩,
    ⟨.step (.unspeculated [4, 3]), false, fun _ => []⟩]

end NanoVllm
