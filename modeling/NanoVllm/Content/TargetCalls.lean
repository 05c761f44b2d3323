/- module: NanoVllm/Content/TargetCalls
   layer: invariant
   source: nanovllm/engine/model_runner.py, the inputs of run; nanovllm/engine/
     speculative_execution.py, target_logits and sequential_target_probabilities
   digest: The queries of a target call feed each row of its batch from its cached positions on. -/

import NanoVllm.Content.Passes
import NanoVllm.Runs.Emission
import NanoVllm.Speculation.StepEnd

set_option autoImplicit false
set_option relaxedAutoImplicit false

namespace NanoVllm

open Library

variable {κ : Type} {cfg : Config} {s t u q base : State} {entry : List κ → Nat → κ}
  {cache : Int → κ} {x : Nat} {batch decodes prefills : List Nat}

theorem TargetCall.queries_of_inputs {call : TargetCall} {sequential : Bool}
    {proposals : List (List Nat)} {inputs : List ModelInputs}
    (h : call.inputs cfg.kvcacheBlockSize sequential proposals = .ok inputs) :
    call.queries cfg sequential proposals =
      inputs.flatMap (ModelInputs.queries cfg.kvcacheBlockSize) := by
  unfold TargetCall.queries
  rw [h]

def State.batchChunks (u : State) (batch : List Nat) : List (Nat × List Nat) :=
  batch.map fun x => (x, (RunnerRow.sequence (u.seqs x)).inputTokens)

private theorem State.runnerRows_queries (u : State) (bs : Nat) (batch : List Nat) :
    (u.runnerRows batch).flatMap (RunnerRow.queries bs) =
      ((u.batchChunks batch).flatMap fun c => u.chunkFeds c.1 c.2).map (FedWord.query bs u) := by
  unfold State.runnerRows State.batchChunks
  rw [List.map_flatMap, List.flatMap_map, List.flatMap_map]
  exact List.flatMap_congr fun x _ => (u.chunkFeds_query bs x _).symm

section Batch

variable (h : Batched cfg decodes prefills u) (hst : Staged cfg [] (decodes ++ prefills) u)

include h hst

private theorem Batched.decode_row (hx : x ∈ decodes) : RunningRow cfg (u.seqs x) := by
  have hmem : x ∈ decodes ++ prefills := List.mem_append_left _ hx
  have hlive := (hst.busy x hmem).1
  rw [List.nil_append] at hlive
  rcases List.mem_append.mp hlive with hrun | hwait
  · exact hst.running x hrun
  · have hflag := (hst.waiting x hwait).prefill
    rw [(h.decode x hx).1] at hflag
    exact absurd hflag (by simp)

private theorem Batched.decoding (hx : x ∈ decodes) : (RunnerRow.sequence (u.seqs x)).Decoding where
  decode := (h.decode x hx).1
  cached := by
    have hone := (h.decode x hx).2
    have hfull := (h.decode_row hst hx).full (by omega)
    rw [hone] at hfull
    exact hfull
  scheduled := (h.decode x hx).2

private theorem Batched.tight (hx : x ∈ decodes) :
    (RunnerRow.sequence (u.seqs x)).Tight cfg.kvcacheBlockSize := by
  have hrow := h.decode_row hst hx
  have hone := (h.decode x hx).2
  have hpages := hrow.pages
  rw [hrow.full (by omega)] at hpages
  exact hpages

theorem Batched.inputTokens_eq (hx : x ∈ decodes ++ prefills) :
    (RunnerRow.sequence (u.seqs x)).inputTokens =
      ((u.seqs x).tokenIds.drop (u.seqs x).numCachedTokens).take
        (u.seqs x).numScheduledTokens := by
  unfold RunnerRow.inputTokens
  rcases List.mem_append.mp hx with hdecode | hprefill
  · have hdec := h.decoding hst hdecode
    have hcached : (u.seqs x).numCachedTokens + 1 = (u.seqs x).tokenIds.length := hdec.cached
    have hlt : (u.seqs x).numCachedTokens < (u.seqs x).tokenIds.length := by omega
    have hlast : (u.seqs x).lastToken = (u.seqs x).tokenIds[(u.seqs x).numCachedTokens] := by
      have hindex : (u.seqs x).tokenIds.length - 1 = (u.seqs x).numCachedTokens := by omega
      unfold Sequence.lastToken
      rw [List.getLastD_eq_getLast?, List.getLast?_eq_getElem?, hindex,
        List.getElem?_eq_getElem hlt]
      rfl
    rw [if_neg (by simp [hdec.decode])]
    show [(u.seqs x).lastToken] = _
    rw [(h.decode x hdecode).2, List.drop_eq_getElem_cons hlt, List.take_succ_cons, List.take_zero,
      hlast]
  · rw [if_pos (show (RunnerRow.sequence (u.seqs x)).isPrefill = true from
      h.chunks.prefill x hprefill)]
    rfl

theorem Batched.decoding_tight (hx : x ∈ decodes) : (RunnerRow.sequence (u.seqs x)).Decoding ∧
    (RunnerRow.sequence (u.seqs x)).Tight cfg.kvcacheBlockSize :=
  ⟨h.decoding hst hx, h.tight hst hx⟩

/-- The inputs of `run` hold the scheduled tokens of each row. -/
theorem Batched.run_inputs (hne : decodes ++ prefills ≠ []) (hq : q.seqs = u.seqs)
    (sequential : Bool) (proposals : List (List Nat)) : ∃ inputs,
    (TargetCall.run (decodes ++ prefills) (decide (prefills ≠ [])) q).inputs cfg.kvcacheBlockSize
      sequential proposals = .ok [inputs] ∧
    Aligned cfg.kvcacheBlockSize ((u.runnerRows (decodes ++ prefills)).map RunnerRow.chunk) inputs ∧
    inputs.queries cfg.kvcacheBlockSize =
      (u.runnerRows (decodes ++ prefills)).flatMap (RunnerRow.queries cfg.kvcacheBlockSize) := by
  have hfeeds := h.feeds_rows
  have hrowsne : u.runnerRows (decodes ++ prefills) ≠ [] := by
    unfold State.runnerRows
    simpa using hne
  have hrows : q.runnerRows (decodes ++ prefills) = u.runnerRows (decodes ++ prefills) := by
    unfold State.runnerRows
    rw [hq]
  by_cases hpure : prefills = []
  · subst hpure
    rw [List.append_nil] at hfeeds hrowsne hrows ⊢
    have htight : ∀ row ∈ u.runnerRows decodes, row.Tight cfg.kvcacheBlockSize := by
      intro row hrow
      obtain ⟨x, hx, rfl⟩ := List.mem_map.mp hrow
      exact h.tight hst hx
    have hdecoding : ∀ row ∈ u.runnerRows decodes, row.Decoding := by
      intro row hrow
      obtain ⟨x, hx, rfl⟩ := List.mem_map.mp hrow
      exact h.decoding hst hx
    have hpos : ∀ row ∈ u.runnerRows decodes, 0 < row.numTokens := by
      intro row hrow
      have hcached := (hdecoding row hrow).cached
      omega
    have hprepare := prepareDecode_eq cfg.blockSize_pos hrowsne hpos htight
    rw [← hrows] at hprepare
    have haligned : Aligned cfg.kvcacheBlockSize _ _ := decodeInputs_aligned hpos
    rw [List.map_congr_left fun row hrow => (hdecoding row hrow).chunk_eq] at haligned
    rw [← hrows] at haligned hfeeds hdecoding ⊢
    exact ⟨_, Call.except_bind_of_ok hprepare, haligned, decodeInputs_queries hfeeds hdecoding⟩
  · have hprepare := prepareRagged_eq cfg.blockSize_pos hrowsne
      fun row hrow => (hfeeds row hrow).covered
    have haligned : Aligned cfg.kvcacheBlockSize _ _ := raggedInputs_aligned
      fun row hrow => (hfeeds row hrow).inputs
    rw [decide_eq_true hpure]
    rw [← hrows] at haligned hfeeds hrowsne hprepare ⊢
    exact ⟨_, Call.except_bind_of_ok hprepare, haligned, raggedInputs_queries hrowsne hfeeds⟩

theorem Batched.run_queries (hne : decodes ++ prefills ≠ []) (hq : q.seqs = u.seqs)
    (sequential : Bool) (proposals : List (List Nat)) :
    (TargetCall.run (decodes ++ prefills) (decide (prefills ≠ [])) q).queries cfg sequential
        proposals = ((u.batchChunks (decodes ++ prefills)).flatMap fun c =>
          u.chunkFeds c.1 c.2).map (FedWord.query cfg.kvcacheBlockSize u) := by
  obtain ⟨inputs, hinputs, -, hqueries⟩ := h.run_inputs hst hne hq sequential proposals
  rw [← State.runnerRows_queries, TargetCall.queries_of_inputs hinputs, List.flatMap_singleton,
    hqueries]

theorem Batched.feeding : Feeding cfg u (u.batchChunks (decodes ++ prefills))
    ((u.batchChunks (decodes ++ prefills)).flatMap fun c => u.chunkFeds c.1 c.2) := by
  refine feeding_chunks ?_ (fun c hc => ?_) fun c hc => ?_
  · unfold State.batchChunks
    rw [List.map_map]
    simpa [Function.comp_def] using h.distinct
  · obtain ⟨x, hx, rfl⟩ := List.mem_map.mp hc
    have hlive := (hst.busy x hx).1
    rwa [List.nil_append] at hlive
  · obtain ⟨x, hx, rfl⟩ := List.mem_map.mp hc
    have hlen : (RunnerRow.sequence (u.seqs x)).inputTokens.length =
        (u.seqs x).numScheduledTokens := (h.feeds hx).inputs
    dsimp only
    rw [hlen]
    exact h.within hx

theorem Batched.ahead (hs : Sound cfg entry u cache) (hx : x ∈ decodes ++ prefills) :
    u.Ahead cfg entry (pass entry cache (((u.batchChunks (decodes ++ prefills)).flatMap fun c =>
      u.chunkFeds c.1 c.2).map (FedWord.query cfg.kvcacheBlockSize u))) x := by
  have hfilled := (h.feeding hst).populated h.ready.2.owns hs (List.mem_map_of_mem hx)
  have hlen : (RunnerRow.sequence (u.seqs x)).inputTokens.length =
      (u.seqs x).numScheduledTokens := (h.feeds hx).inputs
  rw [hlen, h.inputTokens_eq hst hx, ← List.take_add] at hfilled
  refine hfilled.reword ?_
  rw [List.take_take, Nat.min_self]

end Batch

section Verification

variable {rollback : List DecodeScheduleRollbackRow} {ids : List Nat}
  {leased : List (Nat × List Nat)} {tr : ActiveSpecTransaction}
  (h : Verifying cfg u rollback ids base leased tr q)

include h

theorem Verifying.row (x : Nat) :
    q.seqs x = { u.seqs x with blockTable := u.table x ++ lentTo leased x } := by
  have hbase : base.seqs = u.seqs := h.holding.pool.seqs
  rw [h.holding.lease.seqs_eq]
  change { base.seqs x with blockTable := base.table x ++ lentTo leased x } = _
  unfold State.table
  rw [hbase]

theorem Verifying.queues : q.running = u.running ∧ q.waiting = u.waiting :=
  ⟨congrArg Control.running h.holding.control, congrArg Control.waiting h.holding.control⟩

theorem Verifying.leased_rows : ∀ e ∈ leased, e.1 ∈ u.running := by
  obtain ⟨base', r, t, hopen⟩ := h.opened
  intro e he
  have hmem := List.mem_map_of_mem (f := Prod.fst) he
  rw [hopen.rows_eq, leaseSlices_fst, List.map_map] at hmem
  simpa [Function.comp_def] using hmem

theorem Verifying.core (hcore : Core cfg [] u) : Core cfg [] q := by
  have hbase := h.holding.core hcore
  have hlease := h.holding.lease
  have hrun : base.running = u.running :=
    (congrArg Control.running hlease.control).trans h.queues.1
  have hnd : (lentBlocks leased).Nodup := by
    rw [hlease.front]
    exact h.holding.ok.nodup.sublist (List.take_sublist _ _)
  have hfree : ∀ b ∈ lentBlocks leased, b ∈ base.freeBlockIds := by
    intro b hb
    rw [hlease.front] at hb
    exact List.mem_of_mem_take hb
  have hrows : ∀ e ∈ leased, e.1 ∈ [] ++ base.running := by
    intro e he
    rw [List.nil_append, hrun]
    exact h.leased_rows e he
  have hlent := hbase.lend hrows hnd hfree
  have hctl : ∀ {α : Type} (f : Control → α), f { q.control with activeReservation := none } =
      f (base.lend leased).control := fun f => (congrArg f hlease.control).symm
  exact hlent.recast (fun y => congrFun hlease.seqs_eq y ▸ .refl _) hlease.blocks_eq
    hlease.index_eq hlease.free_eq hlease.used_eq (hctl Control.running) (hctl Control.waiting)
    (hctl Control.midChunkSeq) (hctl Control.nextSeqId)

private theorem Verifying.reach (hx : x ∈ u.running) : (u.seqs x).numTokens + tr.plan.effectiveK ≤
    (q.table x).length * cfg.kvcacheBlockSize := by
  obtain ⟨base', r, t, hopen⟩ := h.opened
  have htable : q.table x = u.table x ++ lentTo leased x := by
    unfold State.table
    rw [h.row x]
    rfl
  rw [htable, List.length_append]
  exact hopen.reach hx

omit h in
private theorem BatchOut.cached_succ (hout : BatchOut cfg batch [] u) (hx : x ∈ batch) :
    (u.seqs x).numCachedTokens + 1 = (u.seqs x).numTokens := by
  have hst := hout.staged
  rw [List.append_nil] at hst
  have hone := (hout.decode x hx).2
  have hrow := hst.running x (by simpa [hout.pure_decode] using hx)
  have hfull := hrow.full (by omega)
  rwa [hone] at hfull

/-- The chunks that a verification feeds: the last token of each row and its proposals. -/
def State.verifyChunks (s : State) (batch : List Nat) (proposals : List (List Nat)) :
    List (Nat × List Nat) :=
  (batch.zip proposals).map fun e =>
    (e.1, (s.seqs e.1).tokenIds.getD ((s.seqs e.1).tokenIds.length - 1) 0 :: e.2)

section Batch

variable (hout : BatchOut cfg batch [] u)

include hout

theorem Verifying.verifies :
    ∀ row ∈ batch.map q.cycleRow, row.Verifies cfg.kvcacheBlockSize tr.plan.effectiveK := by
  intro row hrow
  obtain ⟨x, hx, rfl⟩ := List.mem_map.mp hrow
  have hcached := hout.cached_succ hx
  have htokens : (q.seqs x).tokenIds = (u.seqs x).tokenIds := by rw [h.row x]
  have hlen : (u.seqs x).tokenIds.length = (u.seqs x).numTokens := rfl
  refine ⟨?_, ?_, ?_⟩
  · show 0 < (q.seqs x).tokenIds.length
    rw [htokens]
    omega
  · show (q.seqs x).tokenIds ≠ []
    rw [htokens]
    exact List.ne_nil_of_length_pos (by omega)
  · show (q.seqs x).tokenIds.length + _ ≤ _
    rw [htokens]
    exact h.reach (by rwa [hout.pure_decode])

theorem Verifying.cached_succ (hx : x ∈ batch) :
    (q.seqs x).numCachedTokens + 1 = (q.seqs x).numTokens := by
  have hcached := hout.cached_succ hx
  rw [h.row x]
  exact hcached

theorem Verifying.verifyChunks_live (proposals : List (List Nat)) :
    ∀ c ∈ q.verifyChunks batch proposals, c.1 ∈ q.running ++ q.waiting := by
  intro c hc
  obtain ⟨e, he, rfl⟩ := List.mem_map.mp hc
  rw [h.queues.1, hout.pure_decode]
  exact List.mem_append_left _ (List.of_mem_zip he).1

section Chunks

variable {proposals : List (List Nat)} (hlen : proposals.length = batch.length)
  (hk : ∀ drafted ∈ proposals, drafted.length = tr.plan.effectiveK)

omit h in
include hlen in
theorem BatchOut.verifyChunks_nodup : ((q.verifyChunks batch proposals).map Prod.fst).Nodup := by
  have hfst : (q.verifyChunks batch proposals).map Prod.fst = batch := by
    unfold State.verifyChunks
    rw [List.map_map]
    exact List.map_fst_zip hlen.ge
  have hdistinct := hout.staged.distinct
  rwa [hfst, ← List.append_nil batch]

omit h hout in
include hk in
theorem State.verifyChunks_size (q : State) :
    ∀ c ∈ q.verifyChunks batch proposals, c.2.length = tr.plan.effectiveK + 1 := by
  intro c hc
  obtain ⟨e, he, rfl⟩ := List.mem_map.mp hc
  rw [List.length_cons, hk e.2 (List.of_mem_zip he).2]

include hk in
theorem Verifying.verifyChunks_fit : ∀ c ∈ q.verifyChunks batch proposals,
    (q.seqs c.1).numCachedTokens + c.2.length ≤ (q.table c.1).length * cfg.kvcacheBlockSize := by
  intro c hc
  rw [State.verifyChunks_size hk q c hc]
  obtain ⟨e, he, rfl⟩ := List.mem_map.mp hc
  have hx := (List.of_mem_zip he).1
  have hreach := (h.verifies hout _ (List.mem_map_of_mem hx)).covered
  have hcached := h.cached_succ hout hx
  change (q.seqs e.1).numTokens + _ ≤ (q.table e.1).length * _ at hreach
  show (q.seqs e.1).numCachedTokens + _ ≤ (q.table e.1).length * _
  omega

variable (hne : batch ≠ [])

include hlen hk hne

omit hk in
private theorem Verifying.gathered_inputs :
    (TargetCall.verify tr.plan batch q).inputs cfg.kvcacheBlockSize false proposals =
      .ok [verifyInputs cfg.kvcacheBlockSize tr.plan.effectiveK (batch.map q.cycleRow)
        proposals] :=
  Call.except_bind_of_ok (prepareTargetLogits_eq (by simpa using hne) (by simpa using hlen)
    (h.verifies hout))

theorem Verifying.gathered_queries :
    (TargetCall.verify tr.plan batch q).queries cfg false proposals =
      ((q.verifyChunks batch proposals).flatMap fun c => q.chunkFeds c.1 c.2).map
        (FedWord.query cfg.kvcacheBlockSize q) := by
  rw [TargetCall.queries_of_inputs (h.gathered_inputs hout hlen hne), List.flatMap_singleton,
    verifyInputs_queries (by simpa using hlen) hk (h.verifies hout), List.map_flatMap]
  unfold State.verifyChunks
  rw [List.flatMap_map, List.zip_map_left, List.flatMap_map]
  refine List.flatMap_congr fun e he => ?_
  rw [q.chunkFeds_query]
  have hcached := h.cached_succ hout (List.of_mem_zip he).1
  unfold DraftCycleRow.queries
  show chunkQueries _ (q.table e.1) ((q.seqs e.1).numTokens - 1) _ = _
  rw [← hcached, Nat.add_sub_cancel]
  rfl

/-- The ids that verification step `step` feeds. -/
def State.stepIds (s : State) (batch : List Nat) (proposals : List (List Nat)) (step : Nat) :
    List Nat :=
  (batch.zip proposals).map fun e =>
    ((s.seqs e.1).tokenIds.getD ((s.seqs e.1).tokenIds.length - 1) 0 :: e.2).getD step 0

omit hk in
private theorem Verifying.stepped_inputs :
    (TargetCall.verify tr.plan batch q).inputs cfg.kvcacheBlockSize true proposals =
      .ok ((List.range (tr.plan.effectiveK + 1)).map fun step =>
        draftInputs cfg.kvcacheBlockSize (batch.map q.cycleRow)
          (q.stepIds batch proposals step) step) := by
  have hverifies := h.verifies hout
  have hrows : batch.map q.cycleRow = (batch.zip proposals).map fun e => q.cycleRow e.1 := by
    nth_rewrite 1 [← List.map_fst_zip hlen.ge]
    rw [List.map_map]
    rfl
  have htail : (batch.map q.cycleRow).mapM (fun row => pyGet row.tokenIds (-1)) =
      .ok ((batch.map q.cycleRow).map fun row =>
        row.tokenIds.getD (row.tokenIds.length - 1) 0) :=
    Call.except_mapM_of_ok fun row hrow => pyGet_neg_one (hverifies row hrow).tokens 0
  have hids : ∀ step : Nat, (if step = 0 then (batch.map q.cycleRow).map fun row =>
      row.tokenIds.getD (row.tokenIds.length - 1) 0
      else proposals.map fun drafted => drafted.getD (step - 1) 0) =
        q.stepIds batch proposals step := by
    intro step
    unfold State.stepIds
    cases step with
    | zero =>
      rw [if_pos rfl, hrows, List.map_map]
      rfl
    | succ step =>
      rw [if_neg (Nat.succ_ne_zero step)]
      nth_rewrite 1 [← List.map_snd_zip hlen.le]
      rw [List.map_map]
      rfl
  refine (Call.except_bind_of_ok htail).trans (Call.except_mapM_of_ok fun step hstep => ?_)
  rw [hids step]
  exact prepareDraftDecode_eq (by simpa using hne) _ fun row hrow =>
    (hverifies row hrow).holds (Nat.lt_succ_iff.mp (List.mem_range.mp hstep))

omit hk in
private theorem Verifying.stepped_queries :
    (TargetCall.verify tr.plan batch q).queries cfg true proposals =
      (q.stepFeds (q.verifyChunks batch proposals) (tr.plan.effectiveK + 1)).map
        (FedWord.query cfg.kvcacheBlockSize q) := by
  have hverifies := h.verifies hout
  have hrows : batch.map q.cycleRow = (batch.zip proposals).map fun e => q.cycleRow e.1 := by
    nth_rewrite 1 [← List.map_fst_zip hlen.ge]
    rw [List.map_map]
    rfl
  rw [TargetCall.queries_of_inputs (h.stepped_inputs hout hlen hne), List.flatMap_map]
  unfold State.stepFeds
  rw [List.map_flatMap]
  refine List.flatMap_congr fun step hstep => ?_
  have hpos : ∀ row ∈ batch.map q.cycleRow, 0 < row.committedLen :=
    fun row hrow => (hverifies row hrow).committed_pos
  have hholds : ∀ row ∈ batch.map q.cycleRow, row.Holds cfg.kvcacheBlockSize (step : Nat) :=
    fun row hrow => (hverifies row hrow).holds (Nat.lt_succ_iff.mp (List.mem_range.mp hstep))
  have hids : (q.stepIds batch proposals step).length = (batch.map q.cycleRow).length := by
    simp [State.stepIds, hlen]
  rw [draftInputs_queries hids hpos hholds, hrows]
  unfold State.stepIds
  rw [List.zip_map', List.flatMap_map]
  unfold State.verifyChunks
  rw [List.map_map, List.map_map, List.map_eq_flatMap]
  refine List.flatMap_congr fun e he => ?_
  have hcached := h.cached_succ hout (List.of_mem_zip he).1
  show chunkQueries _ (q.table e.1) ((q.seqs e.1).numTokens - 1 + step) [_] = _
  rw [← hcached, Nat.add_sub_cancel]
  rfl

/-- Either lane prepares inputs, and every one of them is that of some chunks. -/
theorem Verifying.inputs_aligned (sequential : Bool) : ∃ inputs,
    (TargetCall.verify tr.plan batch q).inputs cfg.kvcacheBlockSize sequential proposals =
      .ok inputs ∧ ∀ one ∈ inputs, ∃ chunks, Aligned cfg.kvcacheBlockSize chunks one := by
  cases sequential with
  | false =>
    refine ⟨_, h.gathered_inputs hout hlen hne, fun one hone => ?_⟩
    obtain rfl := List.mem_singleton.mp hone
    exact ⟨_, verifyInputs_aligned (by simpa using hlen) hk (h.verifies hout)⟩
  | true =>
    refine ⟨_, h.stepped_inputs hout hlen hne, fun one hone => ?_⟩
    obtain ⟨step, hstep, rfl⟩ := List.mem_map.mp hone
    have hle := Nat.lt_succ_iff.mp (List.mem_range.mp hstep)
    exact ⟨_, draftInputs_aligned (by simp [State.stepIds, hlen]) fun row hrow =>
      ((h.verifies hout row hrow).holds hle).1⟩

/-- Both lanes of a verification feed the last token of every row and its proposals. -/
theorem Verifying.feeding (sequential : Bool) :
    ∃ feds, (TargetCall.verify tr.plan batch q).queries cfg sequential proposals =
        feds.map (FedWord.query cfg.kvcacheBlockSize q) ∧
      Feeding cfg q (q.verifyChunks batch proposals) feds := by
  have hnd := hout.verifyChunks_nodup (q := q) hlen
  have hlive := h.verifyChunks_live hout proposals
  have hfit := h.verifyChunks_fit hout hk
  cases sequential with
  | false =>
    exact ⟨_, h.gathered_queries hout hlen hk hne, feeding_chunks hnd hlive hfit⟩
  | true =>
    exact ⟨_, h.stepped_queries hout hlen hne,
      feeding_steps hnd (State.verifyChunks_size hk q) hlive hfit⟩

end Chunks

/-- Whatever was proposed, a verification fills positions from the last token of a row on. -/
private theorem Verifying.slots (hne : batch ≠ []) (sequential : Bool) (proposals : List (List Nat))
    {query : Query Int Nat}
    (hquery : query ∈ (TargetCall.verify tr.plan batch q).queries cfg sequential proposals) :
    ∃ x ∈ batch, ∃ i ≤ tr.plan.effectiveK, query.slot =
      rowSlot cfg.kvcacheBlockSize (q.table x) ((q.seqs x).numTokens - 1 + i) := by
  have hverifies := h.verifies hout
  cases hinputs : (TargetCall.verify tr.plan batch q).inputs cfg.kvcacheBlockSize sequential
      proposals with
  | error e =>
    unfold TargetCall.queries at hquery
    rw [hinputs] at hquery
    exact absurd hquery (by simp)
  | ok inputs =>
    rw [TargetCall.queries_of_inputs hinputs] at hquery
    obtain ⟨one, hone, hquery⟩ := List.mem_flatMap.mp hquery
    have hslot := ModelInputs.slot_mem hquery
    cases sequential with
    | false =>
      obtain ⟨verify, hprepare, hinputs⟩ := Call.except_bind_ok hinputs
      obtain rfl := Except.ok.inj hinputs
      obtain rfl := List.mem_singleton.mp hone
      rw [prepareTargetLogits_slots hverifies hprepare] at hslot
      obtain ⟨row, hrow, hslot⟩ := List.mem_flatMap.mp hslot
      obtain ⟨x, hx, rfl⟩ := List.mem_map.mp hrow
      obtain ⟨p, hp, heq⟩ := List.mem_map.mp hslot
      obtain ⟨hle, hlt⟩ := List.mem_range'_1.mp hp
      change (q.seqs x).numTokens - 1 ≤ p at hle
      change p < (q.seqs x).numTokens - 1 + (tr.plan.effectiveK + 1) at hlt
      refine ⟨x, hx, p - ((q.seqs x).numTokens - 1), by omega, ?_⟩
      rw [Nat.add_sub_cancel' hle]
      exact heq.symm
    | true =>
      obtain ⟨tail, -, hinputs⟩ := Call.except_bind_ok hinputs
      obtain ⟨step, hstep, hprepare⟩ := Call.except_mapM_mem hinputs hone
      have hlt := List.mem_range.mp hstep
      rw [prepareDraftDecode_eq (by simpa using hne) _ fun row hrow =>
        (hverifies row hrow).holds (Nat.lt_succ_iff.mp hlt)] at hprepare
      obtain rfl := Except.ok.inj hprepare
      obtain ⟨row, hrow, heq⟩ := List.mem_map.mp hslot
      obtain ⟨x, hx, rfl⟩ := List.mem_map.mp hrow
      have hpos : 0 < (q.seqs x).numTokens := (hverifies _ (List.mem_map_of_mem hx)).committed_pos
      refine ⟨x, hx, step, Nat.lt_succ_iff.mp hlt, heq.symm.trans ?_⟩
      have hposition : ((q.cycleRow x).draftPosition step).toNat =
          (q.seqs x).numTokens - 1 + step := by
        show (((q.seqs x).numTokens : Int) - 1 + step).toNat = _
        omega
      rw [hposition]
      rfl

theorem Verifying.spare (hne : batch ≠ []) (hcore : Core cfg [] u) (sequential : Bool)
    (proposals : List (List Nat)) : ∀ query ∈
      (TargetCall.verify tr.plan batch q).queries cfg sequential proposals,
      SpareSlot cfg q query.slot := by
  intro query hquery
  obtain ⟨x, hx, i, hi, heq⟩ := h.slots hout hne sequential proposals hquery
  have hreach := (h.verifies hout _ (List.mem_map_of_mem hx)).covered
  change (q.seqs x).numTokens + _ ≤ (q.table x).length * _ at hreach
  have hcached := h.cached_succ hout hx
  have hposition : (q.seqs x).numTokens - 1 + i < (q.table x).length * cfg.kvcacheBlockSize := by
    omega
  obtain ⟨b, hb⟩ := getElem?_of_position hposition
  rw [heq, rowSlot_eq hb]
  refine spare_of_uncached (h.core hcore).owns ?_ (by omega) hb
  rw [h.queues.1, hout.pure_decode]
  exact List.mem_append_left _ hx

end Batch

end Verification

end NanoVllm
