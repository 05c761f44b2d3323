/- module: NanoVllm/Runs/Greedy
   layer: main result
   source: nanovllm/engine/llm_engine.py, _step_unlocked; nanovllm/engine/model_runner.py, run;
     nanovllm/engine/speculative_execution.py, target_logits and the all-greedy acceptance of
     execute; nanovllm/layers/attention.py
   digest: Greedy requests served from the shared cache get the output they would get alone. -/

import NanoVllm.Content.Replies
import NanoVllm.Runs.Reference

set_option autoImplicit false
set_option relaxedAutoImplicit false

namespace NanoVllm

open Library

variable {κ : Type} {cfg : Config} {s u q base : State} {entry : List κ → Nat → κ}
  {reply : List κ → Nat → Nat} {cache : Int → κ} {answers : StepAnswers} {x : Nat}
  {batch decodes prefills ids : List Nat} {rows leased : List (Nat × List Nat)}

/-- The argmax tokens of a call under invariant numerics, one for each query in their order:
`reply` makes one of the entries that the query reads and of its word. -/
def TargetCall.argmax (cfg : Config) (entry : List κ → Nat → κ) (reply : List κ → Nat → Nat)
    (cache : Int → κ) (proposals : List (List Nat)) (call : TargetCall) : List Nat :=
  replies entry reply cache (call.queries cfg false proposals)

/-- `run` takes the argmax token at the last query of each complete row, `execute` accepts greedily
over those of all positions. -/
def TargetCall.Greedy (cfg : Config) (entry : List κ → Nat → κ) (reply : List κ → Nat → Nat)
    (cache : Int → κ) (answers : StepAnswers) (call : TargetCall) : Prop :=
  match call with
  | .run batch isPrefill s => ∀ tokenIds, answers.run batch isPrefill = .ok tokenIds →
    ∀ i x tokenId, (batch.zip tokenIds)[i]? = some (x, tokenId) → (s.seqs x).Complete →
      tokenId = (call.argmax cfg entry reply cache []).getD
        (lastQuery isPrefill (s.runnerRows batch) i) 0
  | .verify plan batch _ => ∀ result, answers.runSpeculative plan = .ok result →
    ∃ proposals : List (List Nat), proposals.length = batch.length ∧
      (∀ drafted ∈ proposals, drafted.length = plan.effectiveK) ∧
      result.rows = greedyResults plan.effectiveK (call.argmax cfg entry reply cache proposals)
        batch proposals

private theorem greedyResults_proposed (k : Nat) (targetTokenIds : List Nat) {batch : List Nat}
    {proposals : List (List Nat)} (hlen : proposals.length = batch.length) :
    (greedyResults k targetTokenIds batch proposals).map SpecRowResult.proposedTokenIds =
      proposals := by
  unfold greedyResults
  rw [List.map_map]
  show (batch.zip proposals).zipIdx.map (Prod.snd ∘ Prod.fst) = proposals
  rw [← List.map_map, List.zipIdx_map_fst, List.map_snd_zip hlen.le]

private theorem TargetCall.greedy_verify_iff {plan : SpecStepPlan} {result : SpecExecutionResult}
    (hrun : answers.runSpeculative plan = .ok result) :
    (TargetCall.verify plan batch s).Greedy cfg entry reply cache answers ↔
      (result.rows.map SpecRowResult.proposedTokenIds).length = batch.length ∧
      (∀ drafted ∈ result.rows.map SpecRowResult.proposedTokenIds,
        drafted.length = plan.effectiveK) ∧
      result.rows = greedyResults plan.effectiveK ((TargetCall.verify plan batch s).argmax cfg entry
        reply cache (result.rows.map SpecRowResult.proposedTokenIds)) batch
        (result.rows.map SpecRowResult.proposedTokenIds) := by
  constructor
  · intro h
    obtain ⟨proposals, hlen, hwidth, hrows⟩ := h result hrun
    have hproposed := congrArg (List.map SpecRowResult.proposedTokenIds) hrows
    rw [greedyResults_proposed _ _ hlen] at hproposed
    rw [hproposed]
    exact ⟨hlen, hwidth, hrows⟩
  · intro h result' hrun'
    rw [hrun] at hrun'
    obtain rfl := Except.ok.inj hrun'
    exact ⟨_, h⟩

private theorem TargetCall.greedy_run_iff {isPrefill : Bool} {tokenIds : List Nat}
    (hrun : answers.run batch isPrefill = .ok tokenIds) :
    (TargetCall.run batch isPrefill s).Greedy cfg entry reply cache answers ↔
      ∀ e ∈ (batch.zip tokenIds).zipIdx, (s.seqs e.1.1).Complete →
        e.1.2 = ((TargetCall.run batch isPrefill s).argmax cfg entry reply cache []).getD
          (lastQuery isPrefill (s.runnerRows batch) e.2) 0 := by
  constructor
  · rintro h ⟨⟨x, tokenId⟩, i⟩ he
    exact h tokenIds hrun i x tokenId (List.mem_zipIdx_iff_getElem?.mp he)
  · intro h tokenIds' hrun' i x tokenId hi
    rw [hrun] at hrun'
    obtain rfl := Except.ok.inj hrun'
    exact h ((x, tokenId), i) (List.mem_zipIdx_iff_getElem?.mpr hi)

instance TargetCall.decidableGreedy (cfg : Config) (entry : List κ → Nat → κ)
    (reply : List κ → Nat → Nat) (cache : Int → κ) (answers : StepAnswers) :
    (call : TargetCall) → Decidable (call.Greedy cfg entry reply cache answers)
  | .run batch isPrefill _ => match hrun : answers.run batch isPrefill with
    | .error _ => .isTrue (by simp [TargetCall.Greedy, hrun])
    | .ok _ => decidable_of_iff _ (TargetCall.greedy_run_iff hrun).symm
  | .verify plan _ _ => match hrun : answers.runSpeculative plan with
    | .error _ => .isTrue (by simp [TargetCall.Greedy, hrun])
    | .ok _ => decidable_of_iff _ (TargetCall.greedy_verify_iff hrun).symm

/-- A step whose target call is greedy; its verification takes the lane of invariant numerics. -/
def CachedTurn.Greedy (cfg : Config) (entry : List κ → Nat → κ) (reply : List κ → Nat → Nat)
    (c : State × (Int → κ)) (turn : CachedTurn κ) : Prop :=
  match turn.turn with
  | .step answers => turn.sequential = false ∧
    ∀ call, stepTarget cfg answers c.1 = some call → call.Greedy cfg entry reply c.2 answers
  | .call _ => True
  | .arrive _ => True

instance CachedTurn.decidableGreedy (cfg : Config) (entry : List κ → Nat → κ)
    (reply : List κ → Nat → Nat) (c : State × (Int → κ)) :
    (turn : CachedTurn κ) → Decidable (turn.Greedy cfg entry reply c)
  | ⟨.step answers, sequential, _⟩ => inferInstanceAs (Decidable (sequential = false ∧
      ∀ call ∈ stepTarget cfg answers c.1, call.Greedy cfg entry reply c.2 answers))
  | ⟨.call _, _, _⟩ | ⟨.arrive _, _, _⟩ => .isTrue trivial

def GreedyFrom (cfg : Config) (entry : List κ → Nat → κ) (reply : List κ → Nat → Nat) :
    State × (Int → κ) → List (CachedTurn κ) → Prop
  | _, [] => True
  | c, turn :: turns => turn.Greedy cfg entry reply c ∧
    GreedyFrom cfg entry reply (turn.apply cfg entry c) turns

instance GreedyFrom.decidable (cfg : Config) (entry : List κ → Nat → κ)
    (reply : List κ → Nat → Nat) : (c : State × (Int → κ)) → (turns : List (CachedTurn κ)) →
    Decidable (GreedyFrom cfg entry reply c turns)
  | _, [] => .isTrue trivial
  | c, turn :: turns => @instDecidableAnd _ _ (turn.decidableGreedy cfg entry reply c)
    (GreedyFrom.decidable cfg entry reply (turn.apply cfg entry c) turns)

section Runner

variable {V : Nat} {F : Type} [Field F] [LinearOrder F] [NeZero V] {kernels : StepKernels V F}
  {runner : CapturedGraphs cfg}

/-- The kernels compute the model: behind a pass, eager or replayed, the largest logit of each query
is the reply to it. -/
def StepKernels.Computes (kernels : StepKernels V F) (runner : CapturedGraphs cfg)
    (entry : List κ → Nat → κ) (reply : List κ → Nat → Nat) (cache : Int → κ) : Prop :=
  ∀ (inputs : ModelInputs) (hidden : List (List Nat → F)),
    (runModel kernels.model runner.toTargetGraphs inputs inputs.context.isPrefill = .ok hidden ∨
      runModelAllPositions kernels.model runner.toTargetGraphs inputs = .ok hidden) →
    ∀ i < inputs.inputIds.length, (argmax (queryLogits kernels hidden i)).val =
      (replies entry reply cache (inputs.queries cfg.kvcacheBlockSize)).getD i 0

theorem Batched.run_greedy (h : Batched cfg decodes prefills u) (hne : decodes ++ prefills ≠ [])
    (hmodel : kernels.model.RowPerInput) (hcomputes : kernels.Computes runner entry reply cache)
    (numericalMode : String) (backend : TopPBackend) (noise : Nat → Fin V → F)
    {params : Nat → RowSampling F}
    (hvalid : ∀ x ∈ decodes ++ prefills, (params x).Valid)
    (hgreedy : ∀ x ∈ decodes ++ prefills, (params x).temperature = 0)
    (hanswers : answers.run (decodes ++ prefills) (decide (prefills ≠ [])) =
      run kernels runner.toTargetGraphs cfg.kvcacheBlockSize numericalMode backend noise
        (u.sampledRows params (decodes ++ prefills)) (decide (prefills ≠ []))) :
    (TargetCall.run (decodes ++ prefills) (decide (prefills ≠ [])) u).Greedy cfg entry reply cache
      answers := by
  intro tokenIds hrun i x tokenId hi hfull
  obtain ⟨inputs, hinputs, hctx, hstep⟩ :=
    h.run_own hne hmodel runner numericalMode backend noise hvalid
  rw [hanswers] at hrun
  split at hstep
  · rw [hstep.2] at hrun
    cases hrun
  obtain ⟨hidden, tokenIds', hpass, -, -, hrun', hemits, hown⟩ := hstep
  rw [hrun'] at hrun
  obtain rfl := Except.ok.inj hrun
  obtain ⟨hx, htoken⟩ := List.getElem?_zip_eq_some.mp hi
  dsimp only at hx htoken
  have hmem := List.mem_of_getElem? hx
  have hrow : (u.runnerRows (decodes ++ prefills))[i]? = some (.sequence (u.seqs x)) := by
    unfold State.runnerRows
    rw [List.getElem?_map, hx]
    rfl
  have hentry : (u.sampledRows params (decodes ++ prefills))[i]? =
      some (.sequence (u.seqs x), params x) := by
    unfold State.sampledRows
    rw [List.getElem?_map, hx]
    rfl
  obtain ⟨j, hj⟩ := List.getElem?_of_mem
    (mem_emittingIndices numericalMode (decide (prefills ≠ [])) hrow hfull)
  have hemitted := hemits.own
  rw [u.sampledRows_fst params] at hemitted
  have hsampled := hemitted j i _ hj hentry
  rw [ownToken_greedy kernels _ (hgreedy x hmem), htoken, Option.some.injEq] at hsampled
  have hlt := (List.getElem?_eq_some_iff.mp (hown i x hx hfull).token).1
  have hcall : (TargetCall.run (decodes ++ prefills) (decide (prefills ≠ [])) u).inputs
      cfg.kvcacheBlockSize false [] = .ok [inputs] := by
    by_cases hpure : prefills = []
    · rw [if_pos hpure] at hinputs
      rw [decide_eq_false (not_not.mpr hpure)]
      exact Call.except_bind_of_ok hinputs
    · rw [if_neg hpure] at hinputs
      rw [decide_eq_true hpure]
      exact Call.except_bind_of_ok hinputs
  rw [hsampled, hcomputes inputs hidden (.inl (hctx.symm ▸ hpass)) _ hlt]
  show _ = (replies entry reply cache (TargetCall.queries cfg false [] _)).getD _ 0
  rw [TargetCall.queries_of_inputs hcall, List.flatMap_singleton]

/-- The all-greedy branch of `execute`, with kernels that compute the model, accepts over its
replies. -/
theorem Verifying.execute_greedy {rollback : List DecodeScheduleRollbackRow}
    {tr : ActiveSpecTransaction} (h : Verifying cfg u rollback ids base leased tr q)
    (hout : BatchOut cfg batch [] u) (hne : batch ≠ []) (hmodel : kernels.model.RowPerInput)
    (hcomputes : kernels.Computes runner entry reply cache) {proposals : List (List Nat)}
    (hlen : proposals.length = batch.length)
    (hk : ∀ drafted ∈ proposals, drafted.length = tr.plan.effectiveK) :
    executeGreedy kernels runner.toTargetGraphs cfg.kvcacheBlockSize tr.plan.effectiveK
      (batch.map q.cycleRow) proposals =
        .ok (greedyResults tr.plan.effectiveK ((TargetCall.verify tr.plan batch q).argmax cfg entry
          reply cache proposals) batch proposals) := by
  have hverifies := h.verifies hout
  have hlen' : proposals.length = (batch.map q.cycleRow).length := by simpa using hlen
  obtain ⟨inputs, hinputs⟩ : ∃ inputs, inputs = verifyInputs cfg.kvcacheBlockSize
    tr.plan.effectiveK (batch.map q.cycleRow) proposals := ⟨_, rfl⟩
  have hprepare := prepareTargetLogits_eq (by simpa using hne) hlen' hverifies
  rw [← hinputs] at hprepare
  have hcall : (TargetCall.verify tr.plan batch q).inputs cfg.kvcacheBlockSize false proposals =
      .ok [inputs] := Call.except_bind_of_ok hprepare
  have hqueries : (TargetCall.verify tr.plan batch q).queries cfg false proposals =
      inputs.queries cfg.kvcacheBlockSize := by
    rw [TargetCall.queries_of_inputs hcall, List.flatMap_singleton]
  have hsize : (inputs.queries cfg.kvcacheBlockSize).length = inputs.inputIds.length := by
    rw [hinputs, verifyInputs_queries hlen' hk hverifies]
    show _ = (List.zipWith _ _ _).flatten.length
    rw [← List.map_uncurry_zip_eq_zipWith, ← List.flatMap_def, List.length_flatMap, List.length_flatMap]
    refine congrArg List.sum (List.map_congr_left fun e _ => ?_)
    unfold DraftCycleRow.queries chunkQueries
    rw [List.length_map, List.length_zipIdx]
    rfl
  obtain ⟨hidden, hpass, hrows⟩ := runModelAllPositions_ok hmodel runner cfg.blockSize_pos hverifies
    proposals
  rw [← hinputs] at hpass hrows
  have hlogits : targetLogits kernels runner.toTargetGraphs cfg.kvcacheBlockSize tr.plan.effectiveK
      "invariant" (batch.map q.cycleRow) proposals =
        .ok ((List.range inputs.inputIds.length).map (queryLogits kernels hidden)) := by
    refine (Call.except_bind_of_ok hprepare).trans ((Call.except_bind_of_ok hpass).trans ?_)
    rw [← hrows]
    exact computeLogits_all kernels "invariant" (fun hboth => hboth.2 rfl) hidden
  refine (Call.except_bind_of_ok hlogits).trans ?_
  have htokens : ((List.range inputs.inputIds.length).map (queryLogits kernels hidden)).map
      (fun row => (argmax row).val) =
        (TargetCall.verify tr.plan batch q).argmax cfg entry reply cache proposals := by
    unfold TargetCall.argmax
    rw [hqueries, List.map_map]
    refine List.ext_getElem (by simp [length_replies, hsize]) fun i hi hi' => ?_
    have hlt : i < inputs.inputIds.length := by simpa using hi
    rw [List.getElem_map, List.getElem_range]
    exact (hcomputes inputs hidden (.inr hpass) i hlt).trans (List.getD_eq_getElem _ _ hi')
  have hids : (batch.map q.cycleRow).map DraftCycleRow.seqId = batch := by
    rw [List.map_map]
    exact List.map_id batch
  rw [htokens, hids]
  rfl

end Runner

private theorem Batched.greedy_answeredBy (h : Batched cfg decodes prefills u)
    (hst : Staged cfg [] (decodes ++ prefills) u) (hne : decodes ++ prefills ≠ [])
    (hq : q.seqs = u.seqs) (hs : Sound cfg entry u cache)
    (hgreedy : (TargetCall.run (decodes ++ prefills) (decide (prefills ≠ [])) q).Greedy cfg entry
      reply cache answers) :
    (TargetCall.run (decodes ++ prefills) (decide (prefills ≠ [])) q).AnsweredBy
      (nextOf entry reply) answers := by
  intro tokenIds hrun row hrow hfull
  obtain ⟨i, hi⟩ := List.getElem?_of_mem hrow
  have hx : (decodes ++ prefills)[i]? = some row.1 := (List.getElem?_zip_eq_some.mp hi).1
  have htoken := hgreedy tokenIds hrun i row.1 row.2 hi hfull
  rw [hq] at hfull ⊢
  exact htoken.trans (h.run_answer hst reply hne hq hs false [] hx hfull)

private theorem Verifying.greedy_answeredBy {rollback : List DecodeScheduleRollbackRow}
    {tr : ActiveSpecTransaction} (h : Verifying cfg u rollback ids base leased tr q)
    (hout : BatchOut cfg batch [] u) (hdigest : cfg.Resolves entry) (hs : Sound cfg entry u cache)
    (hne : batch ≠ []) (hgreedy : (TargetCall.verify tr.plan batch q).Greedy cfg entry reply cache
      answers) :
    (TargetCall.verify tr.plan batch q).AnsweredBy (nextOf entry reply) answers := by
  intro result hrun
  obtain ⟨proposals, hlen, hk, hrows⟩ := hgreedy result hrun
  exact ⟨proposals, hrows.trans (h.greedyResults_eq hout hdigest hs hne reply hlen hk)⟩

/-- Behind a sound cache a greedy step is answered by the next-token function of the model. -/
theorem Sound.answeredBy (hs : Sound cfg entry s cache) (hset : s.Settled cfg)
    (hdigest : cfg.Resolves entry) (hgreedy : ∀ call, stepTarget cfg answers s = some call →
      call.Greedy cfg entry reply cache answers) :
    (Turn.step answers).AnsweredBy cfg (nextOf entry reply) s := by
  intro call hcall
  have hu := hs.leaves_schedule hset hdigest
  have hone := hgreedy call hcall
  cases hset.turn_end answers with
  | unscheduled hsched _ =>
    unfold stepTarget at hcall
    rw [hsched] at hcall
    exact absurd hcall (by simp)
  | @plain decodes prefills u hout hne hsched hplain =>
    rw [hsched] at hu
    rw [stepTarget_of_schedule hsched, executeTarget_plain _ hplain] at hcall
    obtain rfl := Option.some.inj hcall
    have hst := hout.staged
    obtain ⟨decodes', prefills', hbatch, hpre, hbatched⟩ := hset.batched hsched
    rw [hpre] at hone ⊢
    rw [hbatch] at hst hne hone ⊢
    exact hbatched.greedy_answeredBy hst hne rfl hu hone
  | @decode batch victims rows u hout hne hsched hrep hspec hend =>
    rw [hsched] at hu
    rw [stepTarget_of_schedule hsched] at hcall
    obtain ⟨decodes, prefills, hbatch, hpre, hbatched⟩ := hset.batched hsched
    obtain rfl : prefills = [] := by simpa using hpre.symm
    rw [List.append_nil] at hbatch
    subst hbatch
    obtain ⟨ids, hinside⟩ := hend.call_inside
    rw [hcall] at hinside
    cases hinside with
    | @run q hseqs =>
      have hne' : batch ++ [] ≠ [] := by rwa [List.append_nil]
      have hans : (TargetCall.run (batch ++ []) false q).AnsweredBy (nextOf entry reply) answers :=
        hbatched.greedy_answeredBy hout.staged hne' hseqs hu (by rw [List.append_nil]; exact hone)
      rwa [List.append_nil] at hans
    | verify h hsub => exact h.greedy_answeredBy hout hdigest hu hne hone

/-- In a steady run every greedy call is answered by the next-token function of the model. -/
private theorem GreedyFrom.answeredFrom (hdigest : cfg.Resolves entry) (turns : List (CachedTurn κ))
    {c : State × (Int → κ)} (hset : c.1.Settled cfg) (hs : Sound cfg entry c.1 c.2)
    (hsteady : SteadyFrom cfg c.1 (turns.map CachedTurn.turn))
    (hgreedy : GreedyFrom cfg entry reply c turns) :
    AnsweredFrom cfg (nextOf entry reply) c.1 (turns.map CachedTurn.turn) := by
  induction turns generalizing c with
  | nil => trivial
  | cons turn turns ih =>
    refine ⟨?_, ih (hset.turn hsteady.1) (hs.turn hset hdigest hsteady.1) hsteady.2 hgreedy.2⟩
    have hfirst := hgreedy.1
    unfold CachedTurn.Greedy at hfirst
    cases hturn : turn.turn with
    | call op => trivial
    | arrive request => trivial
    | step answers =>
      rw [hturn] at hfirst
      exact hs.answeredBy hset hdigest hfirst.2

/-- In every steady run with greedy target calls under invariant numerics, whatever the cache held
at first and whatever the draft proposed: a request issued by some point of the run keeps the prompt
and the other tokens it had there in front, has in the end a part of the output that the model made
of its prompt alone, without a cache, and all of it once it is finished. -/
theorem greedy_outputs_exact (hfree : cfg.CollisionFree) (entry : List κ → Nat → κ)
    (reply : List κ → Nat → Nat) (before after : List (CachedTurn κ)) (cache : Int → κ)
    (hsteady : SteadyFrom cfg (State.init cfg) ((before ++ after).map CachedTurn.turn))
    (hgreedy : GreedyFrom cfg entry reply (State.init cfg, cache) (before ++ after))
    (hx : x < (runCached cfg entry cache before).1.nextSeqId) :
    ((runCached cfg entry cache before).1.seqs x).numPromptTokens ≤
        ((runCached cfg entry cache before).1.seqs x).numTokens ∧
      ((runCached cfg entry cache before).1.seqs x).tokenIds <+:
        ((runCached cfg entry cache (before ++ after)).1.seqs x).tokenIds ∧
      ((runCached cfg entry cache (before ++ after)).1.seqs x).tokenIds <+:
        ((runCached cfg entry cache before).1.seqs x).reference cfg (nextOf entry reply) ∧
      (((runCached cfg entry cache (before ++ after)).1.seqs x).status = .finished →
        ((runCached cfg entry cache (before ++ after)).1.seqs x).tokenIds =
          ((runCached cfg entry cache before).1.seqs x).reference cfg (nextOf entry reply)) := by
  have hset := State.Settled.init cfg
  have hs : Sound cfg entry (State.init cfg) cache := .init cfg entry cache
  have hanswered := GreedyFrom.answeredFrom (hfree.resolves entry) _ hset hs hsteady hgreedy
  rw [List.map_append] at hsteady hanswered
  obtain ⟨hmid, hon⟩ := onCourse_runTurns hsteady hanswered
  rw [runCached_fst] at hx ⊢
  rw [runCached_fst, List.map_append]
  exact hmid.follows hon hx

theorem greedy_outputs_exact_sample :
    ∃ s, (runCached Config.roomy prefixTag (fun _ => []) taggedTurns).1 = s ∧
      (s.seqs 0).tokenIds =
        unroll (nextOf prefixTag fun _ word => word + 1)
          (fun token => !true && decide ((token : Int) = Config.roomy.eos)) 3 [3, 4, 5] ∧
      (s.seqs 1).tokenIds = [3, 4, 9, 10, 11] ∧ [3, 4, 9] <+: (s.seqs 1).tokenIds ∧
      (s.seqs 1).tokenIds <+:
        unroll (nextOf prefixTag fun _ word => word + 1)
          (fun token => !true && decide ((token : Int) = Config.roomy.eos)) 3 [3, 4, 9] := by
  have hfree : Config.roomy.CollisionFree := Config.sample_collisionFree
  have hsteady : SteadyFrom Config.roomy (State.init Config.roomy)
      (taggedTurns.map CachedTurn.turn) := verifiedTurns_steady
  have hgreedy : GreedyFrom Config.roomy prefixTag (fun _ word => word + 1)
      (State.init Config.roomy, fun _ => []) taggedTurns := by
    decide +kernel
  obtain ⟨-, -, -, hfinished⟩ := greedy_outputs_exact hfree prefixTag (fun _ word => word + 1)
    (x := 0) (taggedTurns.take 1) (taggedTurns.drop 1) (fun _ => []) hsteady hgreedy (by decide)
  obtain ⟨-, hprompt, hreached, -⟩ := greedy_outputs_exact hfree prefixTag
    (fun _ word => word + 1) (x := 1) (taggedTurns.take 3) (taggedTurns.drop 3) (fun _ => [])
    hsteady hgreedy (by decide +kernel)
  rw [List.take_append_drop] at hfinished hprompt hreached
  have hadded : (runCached Config.roomy prefixTag (fun _ => []) (taggedTurns.take 3)).1.seqs 1 =
      .new [3, 4, 9] 4 true := by decide +kernel
  have hend : ((runTurns Config.roomy verifiedTurns).seqs 0).status = .finished ∧
      ((runTurns Config.roomy verifiedTurns).seqs 1).tokenIds = [3, 4, 9, 10, 11] := by
    decide +kernel
  rw [show runTurns Config.roomy verifiedTurns = _ from
    (runCached_fst Config.roomy prefixTag (fun _ => []) taggedTurns).symm] at hend
  rw [hadded] at hprompt hreached
  obtain ⟨s, hs⟩ : ∃ s, (runCached Config.roomy prefixTag (fun _ => []) taggedTurns).1 = s :=
    ⟨_, rfl⟩
  rw [hs] at hfinished hprompt hreached hend
  refine ⟨s, hs, ?_, hend.2, hprompt, ?_⟩
  · exact (hfinished hend.1).trans (Sequence.reference_new Config.roomy _ [3, 4, 5] 4 true)
  · rwa [Sequence.reference_new] at hreached

end NanoVllm
