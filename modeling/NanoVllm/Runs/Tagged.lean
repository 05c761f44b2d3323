/- module: NanoVllm/Runs/Tagged
   layer: main result
   source: nanovllm/engine/block_manager.py and scheduler.py; nanovllm/engine/llm_engine.py,
     _step_unlocked
   digest: Tags of the prefixes that were last written: the cached slots of a row hold its own. -/

import NanoVllm.Runs.Cached

set_option autoImplicit false
set_option relaxedAutoImplicit false

namespace NanoVllm

open Library

variable {cfg : Config} {s t u q w base : State} {x : Nat} {words batch decodes prefills : List Nat}
  {ids victims : List Nat} {rows leased : List (Nat × List Nat)} {tags : Int → List Nat}
  {answers : StepAnswers} {chunks : List (Nat × List Nat)} {feds : List FedWord}

theorem getLastD_entriesOf_prefixTag (words : List Nat) :
    (entriesOf prefixTag words).getLastD [] = words := by
  induction words using List.reverseRecOn with
  | nil => rfl
  | append_singleton words word ih =>
    rw [entriesOf_concat, List.getLastD_concat, prefixTag, ih]

private theorem getElem?_entriesOf_prefixTag {p : Nat} (hp : p < words.length) :
    (entriesOf prefixTag words)[p]? = some (words.take (p + 1)) := by
  have hword := List.getElem?_eq_getElem hp
  rw [entriesOf_getElem? prefixTag hword, prefixTag, getLastD_entriesOf_prefixTag, List.take_add_one,
    hword]
  rfl

/-- The slots of `count` positions of a row from `start` on, with the prefixes that end there. -/
def State.prefixWrites (s : State) (bs x : Nat) (words : List Nat) (start count : Nat) :
    List (Int × List Nat) :=
  (List.range' start count).map fun p => (rowSlot bs (s.table x) p, words.take (p + 1))

/-- What a call writes: a scheduled row its scheduled positions, a verified one those from its last
token to its last proposal. -/
def TargetCall.writes (cfg : Config) (proposals : List (List Nat)) :
    TargetCall → List (Int × List Nat)
  | .run batch _ s => batch.flatMap fun x => s.prefixWrites cfg.kvcacheBlockSize x
      (s.seqs x).tokenIds (s.seqs x).numCachedTokens (s.seqs x).numScheduledTokens
  | .verify plan batch s => (batch.zip proposals).flatMap fun row =>
      s.prefixWrites cfg.kvcacheBlockSize row.1 ((s.seqs row.1).tokenIds ++ row.2)
        ((s.seqs row.1).numTokens - 1) (plan.effectiveK + 1)

section Tags

variable (cfg : Config) (answers : StepAnswers) (torn tags : Int → List Nat)

/-- The tags behind a call; where it raised, anything at all in the slots it was to fill. -/
def TargetCall.tagsAfter (call : TargetCall) : Int → List Nat :=
  match call.proposals answers with
  | some proposals => overwrite tags (call.writes cfg proposals)
  | none => fun slot =>
    if slot ∈ (call.writes cfg call.blankProposals).map Prod.fst then torn slot else tags slot

def callTags (call : Option TargetCall) : Int → List Nat :=
  match call with
  | some call => call.tagsAfter cfg answers torn tags
  | none => tags

def stepTags (s : State) : Int → List Nat :=
  callTags cfg answers torn tags (stepTarget cfg answers s)

end Tags

private theorem TargetCall.tagsAfter_confined {call : TargetCall} {torn : Int → List Nat}
    {p : Int → Prop} (h : ∀ proposals, ∀ write ∈ call.writes cfg proposals, p write.1) {slot : Int}
    (hne : call.tagsAfter cfg answers torn tags slot ≠ tags slot) : p slot := by
  have hin : ∃ proposals, slot ∈ (call.writes cfg proposals).map Prod.fst := by
    by_contra hout
    refine hne ?_
    unfold TargetCall.tagsAfter
    cases call.proposals answers with
    | some proposals => exact overwrite_outside (fun hmem => hout ⟨proposals, hmem⟩) tags
    | none => exact if_neg fun hmem => hout ⟨_, hmem⟩
  obtain ⟨proposals, hmem⟩ := hin
  obtain ⟨write, hwrite, rfl⟩ := List.mem_map.mp hmem
  exact h proposals write hwrite

/-- Over sound tags, a pass that tags each fed position from the tags it reads writes the prefixes
of the rows themselves. -/
private theorem Feeding.overwrite_tags (h : Feeding cfg s chunks feds) (hown : Owns cfg s)
    (hs : Sound cfg prefixTag s tags) :
    overwrite tags (chunks.flatMap fun c => s.prefixWrites cfg.kvcacheBlockSize c.1
      ((s.seqs c.1).tokenIds.take (s.seqs c.1).numCachedTokens ++ c.2) (s.seqs c.1).numCachedTokens
      c.2.length) = pass prefixTag tags (feds.map (FedWord.query cfg.kvcacheBlockSize s)) := by
  refine overwrite_eq (fun write hwrite => ?_) fun slot hslot => ?_
  · obtain ⟨⟨x, words⟩, hc, hwrite⟩ := List.mem_flatMap.mp hwrite
    obtain ⟨p, hp, rfl⟩ := List.mem_map.mp hwrite
    have hfilled := h.populated hown hs hc
    have hlt := (List.mem_range'_1.mp hp).2
    have hcell := hfilled p hlt
    rw [getElem?_entriesOf_prefixTag (hlt.trans_le hfilled.le_length)] at hcell
    exact (Option.some.inj hcell).symm
  · refine pass_outside prefixTag (fun hin => hslot ?_) tags
    obtain ⟨query, hquery, rfl⟩ := List.mem_map.mp hin
    obtain ⟨fed, hfed, rfl⟩ := List.mem_map.mp hquery
    obtain ⟨c, hc, i, hrow, hpos, hword⟩ := (h.mem fed).mp hfed
    have hi := (List.getElem?_eq_some_iff.mp hword).1
    refine List.mem_map.mpr ⟨(rowSlot cfg.kvcacheBlockSize (s.table c.1) fed.position, _),
      List.mem_flatMap.mpr ⟨c, hc, List.mem_map.mpr ⟨fed.position, ?_, rfl⟩⟩, ?_⟩
    · rw [List.mem_range'_1, hpos]
      omega
    · rw [← hrow]
      rfl

section Batch

variable (h : Batched cfg decodes prefills u) (hst : Staged cfg [] (decodes ++ prefills) u)

include h hst

private theorem Batched.overwrite_run (hne : decodes ++ prefills ≠ []) (hq : q.seqs = u.seqs)
    (hs : Sound cfg prefixTag u tags) (sequential : Bool) (proposals : List (List Nat)) :
    overwrite tags ((TargetCall.run (decodes ++ prefills) (decide (prefills ≠ [])) q).writes cfg
      proposals) = pass prefixTag tags ((TargetCall.run (decodes ++ prefills)
        (decide (prefills ≠ [])) q).queries cfg sequential proposals) := by
  rw [h.run_queries hst hne hq, ← (h.feeding hst).overwrite_tags h.ready.2.owns hs]
  congr 1
  unfold TargetCall.writes State.batchChunks
  dsimp only
  rw [List.flatMap_map]
  refine List.flatMap_congr fun x hx => ?_
  have hlen : (RunnerRow.sequence (u.seqs x)).inputTokens.length =
      (u.seqs x).numScheduledTokens := (h.feeds hx).inputs
  unfold State.prefixWrites State.table
  dsimp only
  rw [hlen, hq, h.inputTokens_eq hst hx, ← List.take_add]
  refine List.map_congr_left fun p hp => ?_
  have hlt := (List.mem_range'_1.mp hp).2
  rw [List.take_take, Nat.min_eq_left hlt]

private theorem Batched.writes_spare (hq : q.seqs = u.seqs) (isPrefill : Bool)
    (proposals : List (List Nat)) : ∀ write ∈
      (TargetCall.run (decodes ++ prefills) isPrefill q).writes cfg proposals,
      SpareSlot cfg u write.1 := by
  intro write hwrite
  obtain ⟨x, hx, hwrite⟩ := List.mem_flatMap.mp hwrite
  obtain ⟨p, hp, rfl⟩ := List.mem_map.mp hwrite
  rw [hq] at hp
  obtain ⟨hle, hlt⟩ := List.mem_range'_1.mp hp
  have hlive := (hst.busy x hx).1
  rw [List.nil_append] at hlive
  obtain ⟨b, hb⟩ := getElem?_of_position (hlt.trans_le (h.within hx))
  unfold State.table
  rw [hq]
  show SpareSlot cfg u (rowSlot _ (u.table x) p)
  rw [rowSlot_eq hb]
  exact spare_of_uncached h.ready.2.owns hlive hle hb

end Batch

section Verification

variable {rollback : List DecodeScheduleRollbackRow} {tr : ActiveSpecTransaction}
  (h : Verifying cfg u rollback ids base leased tr q) (hout : BatchOut cfg batch [] u)

include h hout

private theorem Verifying.overwrite_verify (hne : batch ≠ []) (hs : Sound cfg prefixTag q tags)
    {proposals : List (List Nat)} (hlen : proposals.length = batch.length)
    (hk : ∀ drafted ∈ proposals, drafted.length = tr.plan.effectiveK) (sequential : Bool) :
    overwrite tags ((TargetCall.verify tr.plan batch q).writes cfg proposals) =
      pass prefixTag tags
        ((TargetCall.verify tr.plan batch q).queries cfg sequential proposals) := by
  obtain ⟨feds, hqueries, hfeeding⟩ := h.feeding hout hlen hk hne sequential
  rw [hqueries, ← hfeeding.overwrite_tags (h.core hout.ready.2).owns hs]
  congr 1
  unfold TargetCall.writes State.verifyChunks
  dsimp only
  rw [List.flatMap_map]
  refine List.flatMap_congr fun e he => ?_
  have hcached := h.cached_succ hout (List.of_mem_zip he).1
  rw [Sequence.take_cached_append e.2 hcached, List.length_cons, hk e.2 (List.of_mem_zip he).2,
    ← hcached, Nat.add_sub_cancel]

private theorem Verifying.writes_spare (proposals : List (List Nat)) : ∀ write ∈
    (TargetCall.verify tr.plan batch q).writes cfg proposals, SpareSlot cfg q write.1 := by
  intro write hwrite
  obtain ⟨e, he, hwrite⟩ := List.mem_flatMap.mp hwrite
  obtain ⟨p, hp, rfl⟩ := List.mem_map.mp hwrite
  obtain ⟨hle, hlt⟩ := List.mem_range'_1.mp hp
  have hx := (List.of_mem_zip he).1
  have hcached := h.cached_succ hout hx
  have hreach := (h.verifies hout _ (List.mem_map_of_mem hx)).covered
  change (q.seqs e.1).numTokens + _ ≤ (q.table e.1).length * _ at hreach
  have hposition : p < (q.table e.1).length * cfg.kvcacheBlockSize := by omega
  obtain ⟨b, hb⟩ := getElem?_of_position hposition
  show SpareSlot cfg q (rowSlot _ (q.table e.1) p)
  rw [rowSlot_eq hb]
  refine spare_of_uncached (h.core hout.ready.2).owns ?_ (by omega) hb
  rw [h.queues.1, hout.pure_decode]
  exact List.mem_append_left _ hx

end Verification

section Step

/-- What a call makes of sound tags: those of a run hold in the scheduled state, those of a
verification in the prepared one, before and after it. -/
private theorem CallInside.sound_tags {call : TargetCall}
    (hcall : CallInside cfg u batch ids (some call)) (hout : BatchOut cfg batch [] u)
    (hbatched : Batched cfg batch [] u) (hdigest : cfg.Resolves prefixTag) (hs : Sound cfg prefixTag u tags)
    (answers : StepAnswers) (torn : Int → List Nat) : match call with
      | .run _ _ _ => Sound cfg prefixTag u (call.tagsAfter cfg answers torn tags)
      | .verify _ _ q => Sound cfg prefixTag q tags ∧
          Sound cfg prefixTag q (call.tagsAfter cfg answers torn tags) := by
  cases hcall with
  | run hseqs =>
    refine hs.overwrite fun slot hne =>
      TargetCall.tagsAfter_confined (fun proposals write hwrite => ?_) hne
    refine hbatched.writes_spare hout.staged hseqs false proposals write ?_
    rwa [List.append_nil]
  | verify hv hsub =>
    have hq := hs.carried hdigest hout.ready.2.owns (hv.carries hout.ready.2)
    exact ⟨hq, hq.overwrite fun slot hne =>
      TargetCall.tagsAfter_confined (hv.writes_spare hout) hne⟩

private theorem Recovered.tagged {call : Option TargetCall}
    (h : Recovered (s.preemptAll victims) batch u ids w) (happ : ∀ b ∈ lentBlocks rows, b ∈ ids)
    (hcall : CallInside cfg u batch ids call) (hrep : Replay cfg s victims rows batch [] u)
    (hout : BatchOut cfg batch [] u) (hbatched : Batched cfg batch [] u)
    (hdigest : cfg.Resolves prefixTag) (hs : Sound cfg prefixTag u tags) (torn : Int → List Nat) :
    Sound cfg prefixTag w (callTags cfg answers torn tags call) := by
  have hcore := hout.ready.2
  have hown := hrep.settled.1.2.owns
  have hover := hrep.over happ
  have hback : Carries cfg u w := h.carries hown hover hover
  cases call with
  | none => exact hs.carried hdigest hcore.owns hback
  | some call =>
    have htags := hcall.sound_tags hout hbatched hdigest hs answers torn
    cases hcall with
    | run hseqs => exact Sound.carried hdigest hcore.owns htags hback
    | verify hv hsub =>
      exact Sound.carried hdigest (hv.core hcore).owns htags.2
        (h.carries hown hover (hv.over hsub hover))

private theorem Batched.callTags_run (h : Batched cfg decodes prefills u)
    (hst : Staged cfg [] (decodes ++ prefills) u) (hne : decodes ++ prefills ≠ [])
    (hseqs : q.seqs = u.seqs) (hs : Sound cfg prefixTag u tags) {tokenIds : List Nat}
    (hrun : answers.run (decodes ++ prefills) (decide (prefills ≠ [])) = .ok tokenIds)
    (sequential : Bool) (torn : Int → List Nat) :
    callTags cfg answers torn tags (some (.run (decodes ++ prefills) (decide (prefills ≠ [])) q)) =
      callCache cfg prefixTag answers sequential torn tags
        (some (.run (decodes ++ prefills) (decide (prefills ≠ [])) q)) := by
  have hproposals : (TargetCall.run (decodes ++ prefills) (decide (prefills ≠ [])) q).proposals
      answers = some [] := by
    unfold TargetCall.proposals
    dsimp only
    rw [hrun]
    rfl
  unfold callTags callCache TargetCall.tagsAfter TargetCall.cacheAfter
  dsimp only
  rw [hproposals]
  exact h.overwrite_run hst hne hseqs hs sequential []

private theorem Verifying.callTags_verify {rollback : List DecodeScheduleRollbackRow}
    {tr : ActiveSpecTransaction} {desired : List (TemporaryReservationRow × Nat)}
    {prepared : List PreparedRow} {result : SpecExecutionResult}
    (h : Verifying cfg u rollback ids base leased tr q) (hout : BatchOut cfg batch [] u)
    (hc : Committed cfg base leased tr q result prepared desired t)
    (hrun : answers.runSpeculative tr.plan = .ok result) (hne : batch ≠ []) (hdigest : cfg.Resolves prefixTag)
    (hs : Sound cfg prefixTag u tags) (sequential : Bool) (torn : Int → List Nat) :
    callTags cfg answers torn tags (some (.verify tr.plan batch q)) =
      callCache cfg prefixTag answers sequential torn tags (some (.verify tr.plan batch q)) := by
  have hq := hs.carried hdigest hout.ready.2.owns (h.carries hout.ready.2)
  have hlen : (result.rows.map SpecRowResult.proposedTokenIds).length = batch.length := by
    rw [← h.results hout hc, List.length_map, List.length_map]
  have hproposals : (TargetCall.verify tr.plan batch q).proposals answers =
      some (result.rows.map SpecRowResult.proposedTokenIds) := by
    unfold TargetCall.proposals
    dsimp only
    rw [hrun]
    rfl
  unfold callTags callCache TargetCall.tagsAfter TargetCall.cacheAfter
  dsimp only
  rw [hproposals]
  exact h.overwrite_verify hout hne hq hlen hc.proposals_length sequential

private theorem StepEnd.tagged {call : Option TargetCall}
    {result : EStateM.Result Raised State (List StreamOutput)}
    (h : StepEnd cfg (s.preemptAll victims) rows batch u answers call result)
    (hrep : Replay cfg s victims rows batch [] u) (hout : BatchOut cfg batch [] u)
    (hbatched : Batched cfg batch [] u) (hne : batch ≠ []) (hdigest : cfg.Resolves prefixTag)
    (hs : Sound cfg prefixTag u tags) (torn : Int → List Nat) :
    Sound cfg prefixTag (Call.after result) (callTags cfg answers torn tags call) := by
  have hsound := h.sound hrep hout hbatched hne hdigest hs false torn
  have hordinary : ∀ {q : State} {tokenIds : List Nat}, q.seqs = u.seqs →
      answers.run batch false = .ok tokenIds →
      callTags cfg answers torn tags (some (.run batch false q)) =
        callCache cfg prefixTag answers false torn tags (some (.run batch false q)) := by
    intro q tokenIds hseqs hrun
    have hsame : callTags cfg answers torn tags (some (.run (batch ++ []) false q)) =
        callCache cfg prefixTag answers false torn tags (some (.run (batch ++ []) false q)) :=
      hbatched.callTags_run hout.staged (by rwa [List.append_nil]) hseqs hs
        (by rwa [List.append_nil]) false torn
    rwa [List.append_nil] at hsame
  cases h with
  | undone h happ hcall => exact h.tagged happ hcall hrep hout hbatched hdigest hs torn
  | @ordinary q _ h hp hrun hlen _ _ =>
    have hseqs : q.seqs = u.seqs := by
      obtain ⟨f, n, c, rfl⟩ := h
      rfl
    rwa [hordinary hseqs hrun]
  | shadowed _ h hp _ hrun hlen _ _ => rwa [hordinary h.pool.seqs hrun]
  | committed h _ hrun hc _ _ => rwa [h.callTags_verify hout hc hrun hne hdigest hs false torn]
  | unobserved h _ hrun hc _ _ => rwa [h.callTags_verify hout hc hrun hne hdigest hs false torn]

private theorem Sound.tagged_step (h : s.Settled cfg) (hdigest : cfg.Resolves prefixTag)
    (hs : Sound cfg prefixTag s tags) (hsteady : (Turn.step answers).Steady cfg s)
    (torn : Int → List Nat) : Sound cfg prefixTag (Call.after (stepUnlocked cfg answers s))
      (stepTags cfg answers torn tags s) := by
  have hsound : Sound cfg prefixTag (Call.after (stepUnlocked cfg answers s))
      (stepCache cfg prefixTag answers false torn tags s) :=
    hs.turn h hdigest (show (CachedTurn.mk (.step answers) false torn).turn.Steady cfg s from hsteady)
  have hu := hs.leaves_schedule h hdigest
  unfold Turn.Steady at hsteady
  unfold stepCache at hsound
  unfold stepTags
  cases h.turn_end answers with
  | unscheduled hsched _ =>
    have hnone : stepTarget cfg answers s = none := by
      unfold stepTarget
      rw [hsched]
    rwa [hnone] at hsound ⊢
  | @plain decodes prefills u hout hne hsched hplain =>
    rw [stepTarget_of_schedule hsched] at hsound ⊢
    rw [hsched] at hu hsteady
    dsimp only at hsteady
    rw [executeTarget_plain _ hplain] at hsound ⊢
    rcases hout.plain_end hplain answers with ⟨e, hres⟩ | ⟨tokenIds, hrun, hlen, -, hres, -⟩
    · rw [hres] at hsteady
      obtain ⟨hflag, hspec⟩ := hsteady
      rcases hplain with hpre | hdis
      · exact absurd hflag (by simp [hpre])
      · exact absurd hdis (by simp [hspec])
    · have hst := hout.staged
      obtain ⟨decodes', prefills', hbatch, hpre, hbatched⟩ := h.batched hsched
      rw [hpre] at hrun hsound ⊢
      rw [hbatch] at hst hne hrun hsound ⊢
      rwa [hbatched.callTags_run hst hne rfl hu hrun false torn]
  | @decode batch victims rows u hout hne hsched hrep hspec hend =>
    rw [stepUnlocked_after, stepTarget_of_schedule hsched]
    rw [hsched] at hu ⊢
    obtain ⟨decodes, prefills, hbatch, hpre, hbatched⟩ := h.batched hsched
    obtain rfl : prefills = [] := by simpa using hpre.symm
    rw [List.append_nil] at hbatch
    subst hbatch
    exact hend.tagged hrep hout hbatched hne hdigest hu torn

end Step

/-- A turn, with what a target call that raises in it leaves in the slots it was to fill. -/
structure TaggedTurn where
  turn : Turn
  torn : Int → List Nat

def TaggedTurn.apply (cfg : Config) (c : State × (Int → List Nat)) (turn : TaggedTurn) :
    State × (Int → List Nat) :=
  (turn.turn.apply cfg c.1, match turn.turn with
    | .step answers => stepTags cfg answers turn.torn c.2 c.1
    | .call _ => c.2
    | .arrive _ => c.2)

def runTagged (cfg : Config) (tags : Int → List Nat) (turns : List TaggedTurn) :
    State × (Int → List Nat) :=
  turns.foldl (TaggedTurn.apply cfg) (State.init cfg, tags)

private theorem foldl_tagged_fst (cfg : Config) (turns : List TaggedTurn) :
    ∀ c : State × (Int → List Nat), (turns.foldl (TaggedTurn.apply cfg) c).1 =
      (turns.map TaggedTurn.turn).foldl (fun s turn => turn.apply cfg s) c.1 := by
  induction turns with
  | nil => exact fun _ => rfl
  | cons turn turns ih => exact fun c => ih (turn.apply cfg c)

private theorem Sound.tagged_turn (h : s.Settled cfg) (hdigest : cfg.Resolves prefixTag)
    (hs : Sound cfg prefixTag s tags) {turn : TaggedTurn} (hsteady : turn.turn.Steady cfg s) :
    Sound cfg prefixTag (turn.apply cfg (s, tags)).1 (turn.apply cfg (s, tags)).2 := by
  obtain ⟨turn, torn⟩ := turn
  cases turn with
  | call op =>
    exact hs.turn h hdigest (show (CachedTurn.mk (.call op) false torn).turn.Steady cfg s from hsteady)
  | arrive request =>
    exact hs.turn h hdigest
      (show (CachedTurn.mk (.arrive request) false torn).turn.Steady cfg s from hsteady)
  | step answers => exact hs.tagged_step h hdigest hsteady torn

private theorem Sound.taggedFrom (hdigest : cfg.Resolves prefixTag) (turns : List TaggedTurn)
    {c : State × (Int → List Nat)} (h : c.1.Settled cfg) (hs : Sound cfg prefixTag c.1 c.2)
    (hsteady : SteadyFrom cfg c.1 (turns.map TaggedTurn.turn)) :
    Sound cfg prefixTag (turns.foldl (TaggedTurn.apply cfg) c).1
      (turns.foldl (TaggedTurn.apply cfg) c).2 := by
  induction turns generalizing c with
  | nil => exact hs
  | cons turn turns ih =>
    exact ih (h.turn hsteady.1) (hs.tagged_turn h hdigest hsteady.1) hsteady.2

/-- Every cached position of a live row has its slot tagged with the row's own prefix, and the slots
of every indexed block are tagged with the successive prefixes of one token list with its digest. -/
structure PrefixTagged (cfg : Config) (s : State) (tags : Int → List Nat) : Prop where
  rows : ∀ x ∈ s.running ++ s.waiting, ∀ i < (s.seqs x).numCachedTokens,
    i < (s.table x).length * cfg.kvcacheBlockSize ∧ i < (s.seqs x).numTokens ∧
      tags (rowSlot cfg.kvcacheBlockSize (s.table x) i) = (s.seqs x).tokenIds.take (i + 1)
  index : ∀ h b, s.hashToBlockId.lookup h = some b → ∃ words k,
    chainHash cfg words (k + 1) = some h ∧ (k + 1) * cfg.kvcacheBlockSize ≤ words.length ∧
      ∀ o < cfg.kvcacheBlockSize, tags ((b * cfg.kvcacheBlockSize + o : Nat) : Int) =
        words.take (k * cfg.kvcacheBlockSize + o + 1)

private theorem Sound.prefixTagged (hs : Sound cfg prefixTag s tags)
    (hcov : ∀ x ∈ s.running ++ s.waiting,
      (s.seqs x).numCachedTokens ≤ (s.table x).length * cfg.kvcacheBlockSize) :
    PrefixTagged cfg s tags where
  rows x hx i hi := by
    have hfilled := hs.filled hx (hcov x hx)
    have hlt : i < (s.seqs x).tokenIds.length := hi.trans_le hfilled.le_length
    have hcell := hfilled i hi
    rw [getElem?_entriesOf_prefixTag hlt] at hcell
    exact ⟨hi.trans_le (hcov x hx), hlt, (Option.some.inj hcell).symm⟩
  index h b hb := by
    obtain ⟨words, k, hchain, hlen, hcells⟩ := hs.index h b hb
    refine ⟨words, k, hchain, hlen, fun o ho => ?_⟩
    have hmod : (k * cfg.kvcacheBlockSize + o) % cfg.kvcacheBlockSize = o := by
      rw [Nat.mul_add_mod', Nat.mod_eq_of_lt ho]
    have hdiv : (k * cfg.kvcacheBlockSize + o) / cfg.kvcacheBlockSize = k := by
      rw [Nat.mul_comm, Nat.mul_add_div cfg.blockSize_pos, Nat.div_eq_of_lt ho, Nat.add_zero]
    have hlt : k * cfg.kvcacheBlockSize + o < words.length := by
      rw [Nat.succ_mul] at hlen
      omega
    have hcell := hcells _ hdiv
    rw [getElem?_entriesOf_prefixTag hlt] at hcell
    unfold blockSlot at hcell
    rw [hmod] at hcell
    exact (Option.some.inj hcell).symm

/-- The tags around a call of the target model: a run leaves the scheduled state tagged; a
verification finds the prepared state tagged, and leaves it so. -/
def TargetCall.Tagged (cfg : Config) (u : State) (tags tags' : Int → List Nat) : TargetCall → Prop
  | .run _ _ _ => PrefixTagged cfg u tags'
  | .verify _ _ q => PrefixTagged cfg q tags ∧ PrefixTagged cfg q tags'

private theorem Verifying.cached_within {rollback : List DecodeScheduleRollbackRow}
    {tr : ActiveSpecTransaction} (h : Verifying cfg u rollback ids base leased tr q)
    (hout : BatchOut cfg batch [] u) : ∀ x ∈ q.running ++ q.waiting,
      (q.seqs x).numCachedTokens ≤ (q.table x).length * cfg.kvcacheBlockSize := by
  intro x hx
  rw [h.queues.1, h.queues.2] at hx
  have hu := hout.staged.cached_within hout.ready.2 hx
  have htable : (u.table x).length ≤ (q.table x).length := by
    unfold State.table
    rw [h.row x]
    exact (List.prefix_append _ _).length_le
  rw [show (q.seqs x).numCachedTokens = (u.seqs x).numCachedTokens by rw [h.row x]]
  exact hu.trans (Nat.mul_le_mul_right _ htable)

private theorem State.Settled.call_tagged (h : s.Settled cfg) (hdigest : cfg.Resolves prefixTag)
    (hs : Sound cfg prefixTag s tags) {isPrefill : Bool}
    (hsched : schedule cfg s = .ok (batch, isPrefill) u) : PrefixTagged cfg u tags ∧
      ∀ answers torn call, executeTarget cfg answers batch isPrefill u = some call →
        call.Tagged cfg u tags (call.tagsAfter cfg answers torn tags) := by
  have hu := hs.leaves_schedule h hdigest
  rw [hsched] at hu
  obtain ⟨decodes, prefills, hbatch, hpre, hbatched⟩ := h.batched hsched
  refine ⟨?_, fun answers torn call hcall => ?_⟩
  · rcases h.schedule_cases with ⟨message, v, hfail, -⟩ | ⟨decodes, prefills, v, -, hout, hsched'⟩
    · exact absurd (hfail.symm.trans hsched) (by simp)
    · obtain ⟨-, rfl⟩ := EStateM.Result.ok.inj (hsched.symm.trans hsched')
      exact hu.prefixTagged fun x => hout.staged.cached_within hout.ready.2
  · cases h.turn_end answers with
    | unscheduled hfail _ => exact absurd (hfail.symm.trans hsched) (by simp)
    | plain hout hne hsched' hplain =>
      obtain ⟨hb, rfl⟩ := EStateM.Result.ok.inj (hsched.symm.trans hsched')
      obtain ⟨rfl, rfl⟩ := Prod.mk.inj hb
      rw [executeTarget_plain _ hplain] at hcall
      obtain rfl := Option.some.inj hcall
      have hst := hout.staged
      rw [hbatch] at hst
      rw [hbatch, hpre]
      have htags : Sound cfg prefixTag u ((TargetCall.run (decodes ++ prefills)
          (decide (prefills ≠ [])) u).tagsAfter cfg answers torn tags) :=
        hu.overwrite fun slot hne =>
          TargetCall.tagsAfter_confined (hbatched.writes_spare hst rfl _) hne
      exact htags.prefixTagged fun x => hst.cached_within hout.ready.2
    | decode hout hne hsched' hrep hspec hend =>
      obtain ⟨hb, rfl⟩ := EStateM.Result.ok.inj (hsched.symm.trans hsched')
      obtain ⟨rfl, rfl⟩ := Prod.mk.inj hb
      obtain rfl : prefills = [] := by simpa using hpre.symm
      rw [List.append_nil] at hbatch
      subst hbatch
      obtain ⟨ids, hinside⟩ := hend.call_inside
      rw [hcall] at hinside
      have htags := hinside.sound_tags hout hbatched hdigest hu answers torn
      cases hinside with
      | run hseqs =>
        exact Sound.prefixTagged htags fun x => hout.staged.cached_within hout.ready.2
      | verify hv hsub =>
        exact ⟨htags.1.prefixTagged (hv.cached_within hout),
          htags.2.prefixTagged (hv.cached_within hout)⟩

/-- In every run of admissions, cancellations and engine steps that commit, cannot be scheduled or
are undone, whatever the slots held at first: between two steps, behind every schedule and around
every call of the target model, each cached position of a live request has its slot tagged with the
request's own prefix, and each indexed block holds those of a token list with its digest. -/
theorem slots_hold_own_prefixes (hfree : cfg.CollisionFree) {turns : List TaggedTurn}
    (hsteady : SteadyFrom cfg (State.init cfg) (turns.map TaggedTurn.turn)) (tags : Int → List Nat) :
    PrefixTagged cfg (runTagged cfg tags turns).1 (runTagged cfg tags turns).2 ∧
      ∀ batch isPrefill u, schedule cfg (runTagged cfg tags turns).1 = .ok (batch, isPrefill) u →
        PrefixTagged cfg u (runTagged cfg tags turns).2 ∧
          ∀ answers torn call, executeTarget cfg answers batch isPrefill u = some call →
            call.Tagged cfg u (runTagged cfg tags turns).2
              (call.tagsAfter cfg answers torn (runTagged cfg tags turns).2) := by
  have hdigest := hfree.resolves prefixTag
  have hs : Sound cfg prefixTag (runTagged cfg tags turns).1 (runTagged cfg tags turns).2 :=
    Sound.taggedFrom hdigest turns (State.Settled.init cfg) (.init cfg prefixTag tags) hsteady
  have hset := settled_runTurns hsteady
  have hfst : (runTagged cfg tags turns).1 = runTurns cfg (turns.map TaggedTurn.turn) :=
    foldl_tagged_fst cfg turns _
  rw [← hfst] at hset
  exact ⟨hs.prefixTagged fun x => hset.2.cached_within hset.1.2,
    fun batch isPrefill u hsched => hset.call_tagged hdigest hs hsched⟩

/-- Behind the verification the second request finds its own prefixes in the block it shares, and in
the one where the rejected proposal was. -/
theorem slots_hold_own_prefixes_sample :
    ∃ s tags, runTagged Config.roomy (fun _ => [])
        (verifiedTurns.map fun turn => ⟨turn, fun _ => []⟩) = (s, tags) ∧
      s.running = [1] ∧ (s.seqs 1).tokenIds = [3, 4, 9, 10, 11] ∧
      (s.seqs 1).numCachedTokens = 4 ∧ s.table 1 = [0, 2] ∧ tags 1 = [3, 4] ∧
      tags 5 = [3, 4, 9, 10] := by
  obtain ⟨turns, hturns⟩ : ∃ turns : List TaggedTurn,
      turns = verifiedTurns.map fun turn => ⟨turn, fun _ => []⟩ := ⟨_, rfl⟩
  have hmap : turns.map TaggedTurn.turn = verifiedTurns := by
    rw [hturns, List.map_map]
    exact List.map_id verifiedTurns
  obtain ⟨⟨hrows, -⟩, -⟩ := slots_hold_own_prefixes
    (show Config.roomy.CollisionFree from Config.sample_collisionFree)
    (hmap ▸ verifiedTurns_steady : SteadyFrom Config.roomy (State.init Config.roomy)
      (turns.map TaggedTurn.turn)) fun _ => []
  have hfst : (runTagged Config.roomy (fun _ => []) turns).1 = runTurns Config.roomy verifiedTurns :=
    hmap ▸ foldl_tagged_fst Config.roomy turns _
  rw [← hturns]
  obtain ⟨⟨s, tags⟩, hrun⟩ : ∃ c, c = runTagged Config.roomy (fun _ => []) turns := ⟨_, rfl⟩
  rw [← hrun] at hrows hfst ⊢
  dsimp only at hrows hfst
  have hstate : s.running = [1] ∧ (s.seqs 1).tokenIds = [3, 4, 9, 10, 11] ∧
      (s.seqs 1).numCachedTokens = 4 ∧ s.table 1 = [0, 2] := by
    rw [hfst]
    decide +kernel
  obtain ⟨hrunning, htokens, hcached, htable⟩ := hstate
  have hrow := hrows 1 (by rw [hrunning]; simp)
  rw [htokens, hcached, htable] at hrow
  exact ⟨s, tags, rfl, hrunning, htokens, hcached, htable, (hrow 1 (by decide)).2.2,
    (hrow 3 (by decide)).2.2⟩

end NanoVllm
