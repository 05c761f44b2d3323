/- module: NanoVllm/Runs/Addresses
   layer: main result
   source: nanovllm/engine/model_runner.py, the prepare functions; nanovllm/engine/
     speculative_execution.py, target_logits; nanovllm/engine/scheduler.py, schedule
   digest: Every prepare function uses one slot translation, and between two steps no slot of a
     batch is used twice or shared. -/

import NanoVllm.Runs.Retry

set_option autoImplicit false
set_option relaxedAutoImplicit false

namespace NanoVllm

open Library

variable {cfg : Config} {s u q : State} {batch : List Nat}

/-- Every prepare function gives a position of a row the slot that the table of the row holds for
it, one slot for each token, in the order of the tokens. -/
structure OneTranslation (bs : Nat) : Prop where
  ragged : ∀ seqs, seqs ≠ [] → (∀ row ∈ seqs, row.Covered bs) →
    (∀ row ∈ seqs, row.inputTokens.length = row.numScheduledTokens) →
    ∃ inputs, prepareRagged bs seqs = .ok inputs ∧
      Aligned bs (seqs.map RunnerRow.chunk) inputs
  decode : ∀ seqs, seqs ≠ [] → (∀ row ∈ seqs, 0 < row.numTokens) → (∀ row ∈ seqs, row.Tight bs) →
    ∃ inputs, prepareDecode bs seqs = .ok inputs ∧
      Aligned bs (seqs.map RunnerRow.lastChunk) inputs
  catchup : ∀ rows, (∃ row ∈ rows, row.Lags) →
    (∀ row ∈ rows, row.Lags → row.committedLen ≤ row.tokenIds.length ∧
      row.committedLen - 1 ≤ row.blockTable.length * bs) →
    ∃ inputs, prepareDraftCatchup bs rows = .ok (some inputs) ∧
      Aligned bs ((rows.filter fun row => row.draftCachedTokens < row.committedLen - 1).map
        DraftCycleRow.laggingChunk) inputs
  draft : ∀ rows ids (step : Int), rows ≠ [] → ids.length = rows.length →
    (∀ row ∈ rows, row.Holds bs step) →
    ∃ inputs, prepareDraftDecode bs rows ids step = .ok inputs ∧
      Aligned bs ((rows.zip ids).map fun e => e.1.draftChunk step e.2) inputs
  verify : ∀ k rows proposals, rows ≠ [] → proposals.length = rows.length →
    (∀ drafted ∈ proposals, drafted.length = k) → (∀ row ∈ rows, row.Verifies bs k) →
    ∃ inputs, prepareTargetLogits bs k rows proposals = .ok inputs ∧
      Aligned bs ((rows.zip proposals).map fun e => e.1.verifyChunk e.2) inputs
  agree : ∀ seqs, seqs ≠ [] → (∀ row ∈ seqs, row.Decoding ∧ row.Tight bs) →
    ∃ decode ragged, prepareDecode bs seqs = .ok decode ∧ prepareRagged bs seqs = .ok ragged ∧
      decode.inputIds = ragged.inputIds ∧ decode.positions = ragged.positions ∧
      decode.context.slotMapping = ragged.context.slotMapping ∧
      decode.context.contextLens = ragged.context.queryContextLengths

private theorem RunnerRow.Tight.covered {bs : Nat} {row : RunnerRow} (hbs : 0 < bs)
    (h : row.Tight bs) (hdecode : row.Decoding) : row.Covered bs := by
  have hcached := hdecode.cached
  have hone := hdecode.scheduled
  unfold RunnerRow.Covered RunnerRow.stop
  rw [hone, hcached, ← pagesFor_le_iff hbs, h]

private theorem one_translation {bs : Nat} (hbs : 0 < bs) : OneTranslation bs where
  ragged _ hne hcov hfed := ⟨_, prepareRagged_eq hbs hne hcov, raggedInputs_aligned hfed⟩
  decode _ hne hpos htight := ⟨_, prepareDecode_eq hbs hne hpos htight, decodeInputs_aligned hpos⟩
  catchup _ hlag h := ⟨_, prepareDraftCatchup_eq hlag h,
    catchupInputs_aligned fun row hrow hrowlag => (h row hrow hrowlag).1⟩
  draft _ _ _ hne hlen h := ⟨_, prepareDraftDecode_eq hne _ h,
    draftInputs_aligned hlen fun row hrow => (h row hrow).1⟩
  verify _ _ _ hne hlen hk h := ⟨_, prepareTargetLogits_eq hne hlen h, verifyInputs_aligned hlen hk h⟩
  agree seqs hne h := by
    have hpos : ∀ row ∈ seqs, 0 < row.numTokens := by
      intro row hrow
      have hcached := (h row hrow).1.cached
      omega
    have hcov : ∀ row ∈ seqs, row.Covered bs :=
      fun row hrow => (h row hrow).2.covered hbs (h row hrow).1
    exact ⟨_, _, prepareDecode_eq hbs hne hpos fun row hrow => (h row hrow).2,
      prepareRagged_eq hbs hne hcov, decodeInputs_eq_raggedInputs fun row hrow => (h row hrow).1⟩

/-- No slot occurs twice, and each lies in a block that one table has once. -/
structure Exclusive (cfg : Config) (s : State) (slots : List Int) : Prop where
  distinct : slots.Nodup
  owned : ∀ slot ∈ slots, ∃ b offset : Nat, offset < cfg.kvcacheBlockSize ∧
    slot = ((b * cfg.kvcacheBlockSize + offset : Nat) : Int) ∧ (s.blocks b).refCount = 1

private theorem Feeding.exclusive {chunks : List (Nat × List Nat)} {feds : List FedWord}
    (h : Feeding cfg s chunks feds) (hown : Owns cfg s) :
    Exclusive cfg s ((feds.map (FedWord.query cfg.kvcacheBlockSize s)).map Query.slot) where
  distinct := by
    unfold List.Nodup
    rw [List.pairwise_map]
    exact (h.causal hown).later.imp fun hlater => hlater.1.symm
  owned := by
    intro slot hslot
    obtain ⟨query, hquery, rfl⟩ := List.mem_map.mp hslot
    obtain ⟨fed, hfed, rfl⟩ := List.mem_map.mp hquery
    obtain ⟨hlive, huncached, hcov⟩ := h.bounds hfed
    obtain ⟨b, hb⟩ := getElem?_of_position hcov
    have hhigh := hown.high _ hlive _ b hb (Nat.div_le_div_right huncached)
    exact ⟨b, _, Nat.mod_lt _ cfg.blockSize_pos, rowSlot_eq hb, hhigh.1⟩

private theorem queries_slots {inputs : List ModelInputs} {bs : Nat}
    (h : ∀ one ∈ inputs, ∃ chunks, Aligned bs chunks one) :
    (inputs.flatMap (ModelInputs.queries bs)).map Query.slot =
      inputs.flatMap fun one => one.context.slotMapping := by
  rw [List.map_flatMap]
  refine List.flatMap_congr fun one hone => ?_
  obtain ⟨chunks, haligned⟩ := h one hone
  exact haligned.queries_slots

/-- The slots that the scheduled batch `batch` of `u` writes. -/
structure BatchAddressed (cfg : Config) (batch : List Nat) (isPrefill : Bool) (u : State) : Prop where
  inputs : ∃ inputs,
    (TargetCall.run batch isPrefill u).inputs cfg.kvcacheBlockSize false [] = .ok [inputs] ∧
      Aligned cfg.kvcacheBlockSize ((u.runnerRows batch).map RunnerRow.chunk) inputs ∧
      Exclusive cfg u inputs.context.slotMapping
  decoding : isPrefill = false →
    ∀ row ∈ u.runnerRows batch, row.Decoding ∧ row.Tight cfg.kvcacheBlockSize

private theorem State.Settled.batch_addressed (h : s.Settled cfg) {isPrefill : Bool}
    (hsched : schedule cfg s = .ok (batch, isPrefill) u) : BatchAddressed cfg batch isPrefill u := by
  rcases h.schedule_cases with ⟨message, v, hnone, -⟩ | ⟨decodes', prefills', v, hne, hout, hok⟩
  · exact absurd (hnone.symm.trans hsched) (by simp)
  obtain ⟨hpair, rfl⟩ := EStateM.Result.ok.inj (hok.symm.trans hsched)
  obtain ⟨rfl, -⟩ := Prod.mk.inj hpair
  have hst := hout.staged
  obtain ⟨decodes, prefills, hbatch, rfl, hbatched⟩ := h.batched hsched
  rw [hbatch] at hst hne ⊢
  obtain ⟨inputs, hinputs, haligned, hqueries⟩ := hbatched.run_inputs hst hne rfl false []
  refine ⟨⟨inputs, hinputs, haligned, ?_⟩, fun hpure row hrow => ?_⟩
  · have hexclusive := (hbatched.feeding hst).exclusive hbatched.ready.2.owns
    have hrun := hbatched.run_queries hst hne rfl false []
    rw [TargetCall.queries_of_inputs hinputs, List.flatMap_singleton] at hrun
    rw [← haligned.queries_slots, hrun]
    exact hexclusive
  · obtain rfl : prefills = [] := by simpa using hpure
    obtain ⟨x, hx, rfl⟩ := List.mem_map.mp hrow
    rw [List.append_nil] at hx
    exact hbatched.decoding_tight hst hx

private theorem State.Settled.verify_addressed (h : s.Settled cfg) {answers : StepAnswers}
    {plan : SpecStepPlan} (hcall : stepTarget cfg answers s = some (.verify plan batch q))
    (sequential : Bool) {proposals : List (List Nat)} (hlen : proposals.length = batch.length)
    (hk : ∀ drafted ∈ proposals, drafted.length = plan.effectiveK) :
    ∃ inputs, (TargetCall.verify plan batch q).inputs cfg.kvcacheBlockSize sequential proposals =
      .ok inputs ∧ Exclusive cfg q (inputs.flatMap fun one => one.context.slotMapping) := by
  cases h.turn_end answers with
  | unscheduled hsched _ =>
    unfold stepTarget at hcall
    rw [hsched] at hcall
    exact absurd hcall (by simp)
  | plain _ _ hsched hplain =>
    rw [stepTarget_of_schedule hsched, executeTarget_plain _ hplain] at hcall
    exact absurd (Option.some.inj hcall) (by simp)
  | decode hout hne hsched _ _ hend =>
    rw [stepTarget_of_schedule hsched] at hcall
    obtain ⟨ids, hinside⟩ := hend.call_inside
    rw [hcall] at hinside
    cases hinside with
    | verify hv _ =>
      obtain ⟨inputs, hinputs, haligned⟩ := hv.inputs_aligned hout hlen hk hne sequential
      obtain ⟨feds, hqueries, hfeeding⟩ := hv.feeding hout hlen hk hne sequential
      refine ⟨inputs, hinputs, ?_⟩
      rw [TargetCall.queries_of_inputs hinputs] at hqueries
      rw [← queries_slots haligned, hqueries]
      exact hfeeding.exclusive (hv.core hout.ready.2).owns

/-- The slots that a run writes between two steps: every prepare function translates positions in
one way, and neither a scheduled batch nor a verification uses a slot twice or shares a block. -/
theorem slots_exclusive_between_steps {turns : List Turn}
    (hbetween : BetweenSteps cfg (runTurns cfg turns)) :
    (∀ bs, 0 < bs → OneTranslation bs) ∧
      (∀ batch isPrefill u, schedule cfg (runTurns cfg turns) = .ok (batch, isPrefill) u →
        BatchAddressed cfg batch isPrefill u) ∧
      ∀ answers plan batch q,
        stepTarget cfg answers (runTurns cfg turns) = some (.verify plan batch q) →
        ∀ sequential proposals, proposals.length = batch.length →
        (∀ drafted ∈ proposals, drafted.length = plan.effectiveK) →
        ∃ inputs, (TargetCall.verify plan batch q).inputs cfg.kvcacheBlockSize sequential
            proposals = .ok inputs ∧
          Exclusive cfg q (inputs.flatMap fun one => one.context.slotMapping) := by
  have hsettled := hbetween.settled (.runTurns cfg turns)
  exact ⟨fun _ => one_translation, fun _ _ _ => hsettled.batch_addressed,
    fun _ _ _ _ hcall sequential _ => hsettled.verify_addressed hcall sequential⟩

/-- A prefill beside a decode row; and the verification of two rows that share a block. -/
theorem slots_exclusive_between_steps_sample :
    (∃ u inputs, schedule Config.sample (runTurns Config.sample growingTurns) =
        .ok ([0, 1], true) u ∧
      (TargetCall.run [0, 1] true u).inputs 2 false [] = .ok [inputs] ∧
      inputs.context.slotMapping = [2, 4, 5] ∧
      Exclusive Config.sample u inputs.context.slotMapping) ∧
    ∃ plan batch q inputs, stepTarget Config.roomy
        (.verified [greedyResult 0 [8, 9] [8], greedyResult 1 [11, 4] [3]])
        (runTurns Config.roomy (verifiedTurns.take 4)) = some (.verify plan batch q) ∧
      q.table 0 = [0, 1, 3] ∧ q.table 1 = [0, 2, 4] ∧
      (TargetCall.verify plan batch q).inputs 2 false [[8], [3]] = .ok inputs ∧
      inputs.flatMap (fun one => one.context.slotMapping) = [6, 7, 5, 8] ∧
      Exclusive Config.roomy q (inputs.flatMap fun one => one.context.slotMapping) := by
  constructor
  · have hsteady : SteadyFrom Config.sample (State.init Config.sample) growingTurns := by
      decide +kernel
    obtain ⟨u, hsched, hslots⟩ : ∃ u, schedule Config.sample (runTurns Config.sample growingTurns) =
        .ok ([0, 1], true) u ∧ ((TargetCall.run [0, 1] true u).inputs 2 false []).map
          (List.map fun one => one.context.slotMapping) = .ok [[2, 4, 5]] :=
      ⟨_, rfl, rfl⟩
    obtain ⟨inputs, hinputs, -, hexclusive⟩ := ((slots_exclusive_between_steps
      (settled_runTurns hsteady).betweenSteps).2.1 [0, 1] true u hsched).inputs
    rw [show (TargetCall.run [0, 1] true u).inputs 2 false [] = .ok [inputs] from hinputs] at hslots
    exact ⟨u, inputs, hsched, hinputs, List.singleton_inj.mp (Except.ok.inj hslots), hexclusive⟩
  · have hsteady : SteadyFrom Config.roomy (State.init Config.roomy) (verifiedTurns.take 4) := by
      decide +kernel
    have hslots : (stepTarget Config.roomy
        (.verified [greedyResult 0 [8, 9] [8], greedyResult 1 [11, 4] [3]])
        (runTurns Config.roomy (verifiedTurns.take 4))).map (fun call =>
          (call.blankProposals, call.state.table 0, call.state.table 1,
            (call.inputs 2 false [[8], [3]]).toOption.map fun inputs =>
              inputs.flatMap fun one => one.context.slotMapping)) =
        some ([[0], [0]], [0, 1, 3], [0, 2, 4], some [6, 7, 5, 8]) := by
      decide +kernel
    obtain ⟨call, hcall, hfields⟩ := Option.map_eq_some_iff.mp hslots
    simp only [Prod.mk.injEq] at hfields
    obtain ⟨hblank, h0, h1, hsome⟩ := hfields
    cases call with
    | run batch isPrefill q => exact absurd hblank (by simp [TargetCall.blankProposals])
    | verify plan batch q =>
      change batch.map (fun _ => List.replicate plan.effectiveK 0) = [[0], [0]] at hblank
      have hone : [0] ∈ batch.map fun _ => List.replicate plan.effectiveK 0 := by simp [hblank]
      obtain ⟨_, -, hk⟩ := List.mem_map.mp hone
      have hk' : plan.effectiveK = 1 := by simpa using congrArg List.length hk
      have hlen : batch.length = 2 := by simpa using congrArg List.length hblank
      obtain ⟨inputs, hinputs, hexclusive⟩ := (slots_exclusive_between_steps
        (settled_runTurns hsteady).betweenSteps).2.2 _ plan batch q hcall false [[8], [3]] hlen.symm
          (by simp [hk'])
      rw [show (TargetCall.verify plan batch q).inputs 2 false [[8], [3]] = .ok inputs from hinputs]
        at hsome
      exact ⟨plan, batch, q, inputs, hcall, h0, h1, hinputs, Option.some.inj hsome, hexclusive⟩

/-- After a failed step on a decode row beside a prompt that is cancelled then, the decode row grows
a second time, and its position `2` goes to slot `4`, in a block that no table has. -/
theorem failed_step_writes_free_block : ∃ u inputs,
    schedule Config.sample (runTurns Config.sample
      (growingTurns ++ [.step lostStep, .call (.cancel [1])])) = .ok ([0], false) u ∧
      u.table 0 = [0, 1, 3] ∧
      (TargetCall.run [0] false u).inputs 2 false [] = .ok [inputs] ∧
      inputs.positions = [2] ∧ inputs.context.slotMapping = [4] ∧ (u.blocks 2).refCount = 0 ∧
      ¬ Exclusive Config.sample u inputs.context.slotMapping := by
  refine ⟨_, ⟨[5], [2], decodeContext [4] [3] (paddedTables [[0, 1, 3]])⟩, rfl, rfl, rfl, rfl, rfl,
    rfl, fun h => ?_⟩
  obtain ⟨b, offset, hlt, hslot, hone⟩ := h.owned 4 (by simp [decodeContext])
  change offset < 2 at hlt
  change (4 : Int) = ((b * 2 + offset : Nat) : Int) at hslot
  obtain rfl : b = 2 := by omega
  exact absurd hone (by decide)

end NanoVllm
