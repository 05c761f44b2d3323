/- module: NanoVllm/Content/StepCache
   layer: invariant
   source: nanovllm/engine/llm_engine.py, _step_unlocked, and the cache behind it
   digest: However a step ends, every cached position still holds the entry of its own prefix. -/

import NanoVllm.Content.Calls
import NanoVllm.Content.TargetCalls
import NanoVllm.Runs.BetweenSteps

set_option autoImplicit false
set_option relaxedAutoImplicit false

namespace NanoVllm

open Library

variable {κ : Type} {cfg : Config} {s t u v w q base : State} {entry : List κ → Nat → κ}
  {cache : Int → κ} {x : Nat} {batch decodes prefills ids emptied victims : List Nat}
  {rows leased : List (Nat × List Nat)} {tr : ActiveSpecTransaction}

private theorem Empties.shrunk (h : Empties emptied s t)
    (hlive : ∀ x ∈ t.running ++ t.waiting, x ∈ s.running ++ s.waiting)
    (htokens : ∀ x, (t.seqs x).tokenIds = (s.seqs x).tokenIds)
    (hcached : ∀ x, (t.seqs x).numCachedTokens = (s.seqs x).numCachedTokens)
    (htable : ∀ x, t.table x <+: s.table x)
    (hapart : ∀ x ∈ t.running ++ t.waiting, ∀ i b,
      i * cfg.kvcacheBlockSize < (t.seqs x).numCachedTokens → (t.table x)[i]? = some b →
        b ∉ emptied) : Carries cfg s t := by
  refine h.carried fun x hx => Or.inl ⟨hlive x hx, ?_, hcached x, fun p b hb => ?_⟩
  · rw [htokens x]
  · obtain ⟨more, hmore⟩ := htable x
    have hlt : p / cfg.kvcacheBlockSize * cfg.kvcacheBlockSize < (t.seqs x).numCachedTokens :=
      (Nat.div_mul_le_self _ _).trans_lt hb.cached
    refine ⟨⟨(hcached x) ▸ hb.cached, ?_⟩, h.same b (hapart x hx _ b hlt hb.entry)⟩
    rw [← hmore]
    have hpage := (List.getElem?_eq_some_iff.mp hb.entry).1
    rw [List.getElem?_append_left hpage]
    exact hb.entry

private theorem Carries.wiped (hown : Owns cfg u) (hfree : ∀ b ∈ ids, b ∈ u.freeBlockIds)
    (hpool : SamePool q (u.wipe ids)) (hrun : q.running = u.running)
    (hwait : q.waiting = u.waiting) : Carries cfg u q := by
  have hempties := (u.wipe_empties ids).congr hpool.blocks hpool.index
  refine hempties.carried fun y hy => Or.inl ⟨by rwa [hrun, hwait] at hy, ?_⟩
  have hrow : q.seqs y = u.seqs y := congrFun hpool.seqs y
  refine hempties.kept hown hfree (by rwa [hrun, hwait] at hy) ?_ ?_ fun i b _ hb => ?_
  · rw [hrow]
  · rw [hrow]
  · unfold State.table at hb
    rwa [hrow] at hb

private theorem Untouched.carries (h : Untouched u q) : Carries cfg u q := by
  obtain ⟨f, n, c, rfl⟩ := h
  exact .sameRows rfl rfl (fun _ => .refl _) (fun _ hy => hy) rfl

private theorem HandedOff.carries (h : HandedOff u ids tr q) (hown : Owns cfg u) : Carries cfg u q :=
  .wiped hown h.free h.pool (congrArg Control.running h.control)
    (congrArg Control.waiting h.control)

section Verification

variable {rollback : List DecodeScheduleRollbackRow}
  (h : Verifying cfg u rollback ids base leased tr q) (hcore : Core cfg [] u)

include h

theorem Verifying.base_queues : base.running = u.running ∧ base.waiting = u.waiting :=
  ⟨(congrArg Control.running h.holding.lease.control).trans h.queues.1,
    (congrArg Control.waiting h.holding.lease.control).trans h.queues.2⟩

include hcore

theorem Verifying.carries : Carries cfg u q := by
  have hlease := h.holding.lease
  have hbase : Carries cfg u base :=
    .wiped hcore.owns h.holding.free h.holding.pool h.base_queues.1 h.base_queues.2
  have hbcore := h.holding.core hcore
  have hlend : Carries cfg base (base.lend leased) := by
    refine .lend hbcore.owns (fun b hb => ?_) fun y hy hne => ?_
    · rw [hlease.front] at hb
      exact List.mem_of_mem_take hb
    · have hin : y ∈ base.running := by
        by_contra hout
        refine hne (lentTo_eq_nil fun hmem => hout ?_)
        obtain ⟨e, he, rfl⟩ := List.mem_map.mp hmem
        rw [h.base_queues.1]
        exact h.leased_rows e he
      exact (Nat.le_add_right _ _).trans (hbcore.started y hin).within
  have hq : Carries cfg base q := by
    refine (hlend.congr rfl rfl rfl hlease.seqs_eq hlease.blocks_eq hlease.index_eq).perm
      (fun y hy => hy) fun y hy => ?_
    rw [h.queues.1, h.queues.2, ← h.base_queues.1, ← h.base_queues.2] at hy
    exact hy
  exact hbase.trans hcore.owns hq

end Verification

structure Over (v : State) (ids : List Nat) (q : State) : Prop where
  tokens : ∀ x, (q.seqs x).tokenIds = (v.seqs x).tokenIds
  cached : ∀ x, (q.seqs x).numCachedTokens = (v.seqs x).numCachedTokens
  table : ∀ x, v.table x <+: q.table x
  blocks : ∀ b, b ∉ ids → q.blocks b = v.blocks b
  index : ∀ k b, v.hashToBlockId.lookup k = some b → b ∉ ids → q.hashToBlockId.lookup k = some b
  running : q.running = v.running
  waiting : q.waiting = v.waiting

theorem Replay.over (h : Replay cfg s victims rows batch [] u)
    (happ : ∀ b ∈ lentBlocks rows, b ∈ ids) : Over (s.preemptAll victims) ids u := by
  obtain ⟨v, hv⟩ : ∃ v, v = s.preemptAll victims := ⟨_, rfl⟩
  have hpool := h.pool
  have hctl := h.control
  have hqueue := h.queue
  rw [← hv] at hpool hctl hqueue ⊢
  have hrow : ∀ x, u.seqs x = { (v.markDecode batch).seqs x with
      blockTable := (v.markDecode batch).table x ++ lentTo rows x } :=
    fun x => congrFun hpool.seqs x
  have hmark : ∀ x, ((v.markDecode batch).seqs x).tokenIds = (v.seqs x).tokenIds ∧
      ((v.markDecode batch).seqs x).numCachedTokens = (v.seqs x).numCachedTokens ∧
      ((v.markDecode batch).seqs x).blockTable = (v.seqs x).blockTable := by
    intro x
    unfold State.markDecode
    dsimp only
    split <;> exact ⟨rfl, rfl, rfl⟩
  refine ⟨fun x => ?_, fun x => ?_, fun x => ?_, fun b hb => ?_, fun k b hk hb => ?_, hqueue,
    congrArg Control.waiting hctl⟩
  · rw [hrow x]
    exact (hmark x).1
  · rw [hrow x]
    exact (hmark x).2.1
  · unfold State.table
    rw [hrow x, ← (hmark x).2.2]
    exact List.prefix_append _ _
  · rw [hpool.blocks]
    exact if_neg fun hin => hb (happ b hin)
  · rw [hpool.index]
    refine (lookup_restrict_eq_some _ _ _ _).mpr ⟨hk, ?_⟩
    simpa using fun hin => hb (happ b hin)

theorem Verifying.over {ids' : List Nat} {rollback : List DecodeScheduleRollbackRow}
    (h : Verifying cfg u rollback ids' base leased tr q) (hsub : ∀ b ∈ ids', b ∈ ids)
    (hu : Over v ids u) : Over v ids q where
  tokens x := by
    rw [h.row x]
    exact hu.tokens x
  cached x := by
    rw [h.row x]
    exact hu.cached x
  table x := by
    unfold State.table
    rw [h.row x]
    exact (hu.table x).trans (List.prefix_append _ _)
  blocks b hb := by
    have hwiped : b ∉ ids' := fun hin => hb (hsub b hin)
    have hleased : b ∉ lentBlocks leased := fun hin => hwiped (h.prepared b hin)
    rw [h.holding.lease.blocks_eq, ← hu.blocks b hb]
    refine (if_neg hleased).trans ?_
    rw [h.holding.pool.blocks]
    exact if_neg hwiped
  index k b hk hb := by
    have hwiped : b ∉ ids' := fun hin => hb (hsub b hin)
    have hleased : b ∉ lentBlocks leased := fun hin => hwiped (h.prepared b hin)
    rw [h.holding.lease.index_eq, lookup_restrict_eq_some, h.holding.pool.index]
    refine ⟨(lookup_restrict_eq_some _ _ _ _).mpr ⟨hu.index k b hk hb, ?_⟩, ?_⟩
    · simpa using hwiped
    · simpa using hleased
  running := h.queues.1.trans hu.running
  waiting := h.queues.2.trans hu.waiting

theorem Recovered.carries (h : Recovered v batch u ids w) (hown : Owns cfg v)
    (hu : Over v ids u) (hq : Over v ids q) : Carries cfg q w := by
  have hpool := h.pool
  have hrow : ∀ x, (w.seqs x).tokenIds = (v.seqs x).tokenIds ∧
      (w.seqs x).numCachedTokens = (v.seqs x).numCachedTokens ∧
      (w.seqs x).blockTable = (v.seqs x).blockTable := by
    intro x
    have hseq : w.seqs x = if x ∈ batch then
        { v.seqs x with numScheduledTokens := 0, isPrefill := false } else v.seqs x :=
      congrFun hpool.seqs x
    rw [hseq]
    split <;> exact ⟨rfl, rfl, rfl⟩
  have hrun : w.running = v.running := (congrArg Control.running h.control).trans hu.running
  have hwait : w.waiting = v.waiting := (congrArg Control.waiting h.control).trans hu.waiting
  have hempties : Empties ids q w := by
    refine ⟨fun b hb => ?_, fun b hb => ?_, fun k b hk => ?_⟩
    · have hblock : w.blocks b = v.blocks b := by
        rw [hpool.blocks]
        exact if_neg hb
      exact .of_block (hblock.trans (hq.blocks b hb).symm)
    · have hblock : w.blocks b =
          { v.blocks b with hash := none, tokenIds := [], updates := 0 } := by
        rw [hpool.blocks]
        exact if_pos hb
      exact ⟨by rw [hblock], by rw [hblock], by rw [hblock]⟩
    · rw [hpool.index] at hk
      change (restrict (· ∉ ids) v.hashToBlockId).lookup k = some b at hk
      obtain ⟨hold, hout⟩ := (lookup_restrict_eq_some _ _ _ _).mp hk
      have hout' : b ∉ ids := by simpa using hout
      exact ⟨hq.index k b hold hout', hout'⟩
  refine hempties.shrunk (fun x hx => ?_) (fun x => ?_) (fun x => ?_) (fun x => ?_)
    fun x hx i b _ hb hin => ?_
  · rwa [hrun, hwait, ← hq.running, ← hq.waiting] at hx
  · rw [(hrow x).1, hq.tokens x]
  · rw [(hrow x).2.1, hq.cached x]
  · have htable := hq.table x
    unfold State.table at htable ⊢
    rwa [(hrow x).2.2]
  · rw [hrun, hwait] at hx
    have hmem : b ∈ v.table x := by
      unfold State.table at hb ⊢
      rw [(hrow x).2.2] at hb
      exact List.mem_of_getElem? hb
    exact hown.not_mem_table_of_mem_free (h.free b hin) hx hmem

section Commit

variable {desired : List (TemporaryReservationRow × Nat)} {r : TemporaryBlockReservation}

private theorem Verifying.trim {rollback : List DecodeScheduleRollbackRow}
    (h : Verifying cfg u rollback ids base leased tr q) (hcore : Core cfg [] u)
    (hfst : desired.map Prod.fst = tr.reservation.rows) :
    Carries cfg q (base.lend (keptRows desired)) := by
  have hlease := h.holding.lease
  have hpool := h.holding.pool
  have hbcore := h.holding.core hcore
  have hsub := (hlease.kept_sublist hfst).subset
  have hseqs : ∀ x, q.seqs x = { base.seqs x with
      blockTable := base.table x ++ lentTo leased x } := fun x => congrFun hlease.seqs_eq x
  have hempties : Empties ids q (base.lend (keptRows desired)) := by
    refine ⟨fun b hb => ?_, fun b hb => ?_, fun k b hk => ?_⟩
    · have hleased : b ∉ lentBlocks leased := fun hin => hb (h.prepared b hin)
      have hq : q.blocks b = base.blocks b := by
        rw [hlease.blocks_eq]
        exact if_neg hleased
      have hp : (base.lend (keptRows desired)).blocks b = base.blocks b :=
        if_neg fun hin => hleased (hsub hin)
      exact .of_block (hp.trans hq.symm)
    · by_cases hkept : b ∈ lentBlocks (keptRows desired)
      · have hp : (base.lend (keptRows desired)).blocks b = Block.fresh := if_pos hkept
        exact ⟨by rw [hp]; rfl, by rw [hp]; rfl, by rw [hp]; rfl⟩
      · have hp : (base.lend (keptRows desired)).blocks b = base.blocks b := if_neg hkept
        have hwiped : base.blocks b =
            { u.blocks b with hash := none, tokenIds := [], updates := 0 } := by
          rw [hpool.blocks]
          exact if_pos hb
        exact ⟨by rw [hp, hwiped], by rw [hp, hwiped], by rw [hp, hwiped]⟩
    · obtain ⟨hold, -⟩ := (lookup_restrict_eq_some _ _ _ _).mp hk
      have hindex := hold
      rw [hpool.index] at hindex
      have hout : b ∉ ids := by simpa using ((lookup_restrict_eq_some _ _ _ _).mp hindex).2
      refine ⟨?_, hout⟩
      rw [hlease.index_eq]
      refine (lookup_restrict_eq_some _ _ _ _).mpr ⟨hold, ?_⟩
      simpa using fun hin => hout (h.prepared b hin)
  refine hempties.shrunk (fun x hx => ?_) (fun x => ?_) (fun x => ?_) (fun x => ?_)
    fun x hx i b hi hb hin => ?_
  · change x ∈ base.running ++ base.waiting at hx
    rwa [h.base_queues.1, h.base_queues.2, ← h.queues.1, ← h.queues.2] at hx
  · rw [hseqs x]
    rfl
  · rw [hseqs x]
    rfl
  · unfold State.table
    rw [hseqs x]
    exact (List.prefix_append_right_inj _).mpr (hlease.kept_prefix hfst x)
  · change i * _ < (base.seqs x).numCachedTokens at hi
    have hmem : b ∈ base.table x := by
      by_cases hnil : lentTo (keptRows desired) x = []
      · rw [State.lend_table, hnil, List.append_nil] at hb
        exact List.mem_of_getElem? hb
      · have hrun : x ∈ base.running := by
          by_contra hout
          refine hnil (lentTo_eq_nil fun hmem => hout ?_)
          rw [keptRows_fst, hfst, hlease.sequences] at hmem
          obtain ⟨e, he, rfl⟩ := List.mem_map.mp hmem
          rw [h.base_queues.1]
          exact h.leased_rows e he
        have hcov := (Nat.le_add_right _ _).trans (hbcore.started x hrun).within
        exact List.mem_of_getElem? (getElem?_of_covered hcov hi hb)
    have hfree : b ∈ base.freeBlockIds := by
      rw [hpool.free]
      exact h.holding.free b hin
    exact hbcore.owns.not_mem_table_of_mem_free hfree hx hmem

private theorem committedBurst_prefix (cfg : Config) (seq : Sequence) (tokens : List Nat) :
    ∀ done : Nat, committedBurst cfg seq tokens done <+: tokens := by
  induction tokens with
  | nil => exact fun _ => List.prefix_refl _
  | cons token rest ih =>
    intro done
    unfold committedBurst
    split
    · exact List.nil_prefix
    · split
      · exact (List.cons_prefix_cons).mpr ⟨rfl, List.nil_prefix⟩
      · exact (List.cons_prefix_cons).mpr ⟨rfl, ih _⟩

private theorem Accepted.drafted {k : Nat} {snapshot : SpecPlanRow} {result : SpecRowResult}
    (h : Accepted cfg q k snapshot result) {tokens : List Nat}
    (hcut : tokens <+: result.committedTokenIds) :
    tokens.length ≤ k + 1 ∧
      tokens.take (tokens.length - 1) = result.proposedTokenIds.take (tokens.length - 1) := by
  have hle := hcut.length_le
  have hacc := h.accepted_le
  rw [h.committed] at hle
  refine ⟨by omega, ?_⟩
  have htake : tokens.take (tokens.length - 1) =
      result.committedTokenIds.take (tokens.length - 1) := by
    obtain ⟨rest, hrest⟩ := hcut
    rw [← hrest, List.take_append_of_le_length (Nat.sub_le _ _)]
  have hsmall : tokens.length - 1 ≤ result.acceptedDraftTokens := by omega
  calc tokens.take (tokens.length - 1)
      = (result.committedTokenIds.take result.acceptedDraftTokens).take (tokens.length - 1) := by
        rw [htake, List.take_take, Nat.min_eq_left hsmall]
    _ = result.proposedTokenIds.take (tokens.length - 1) := by
        rw [h.agrees, List.take_take, Nat.min_eq_left hsmall]

private theorem rowSlot_longer {table more : List Nat} {bs p : Nat} (h : table <+: more)
    (hp : p < table.length * bs) : rowSlot bs table p = rowSlot bs more p := by
  obtain ⟨b, hb⟩ := getElem?_of_position hp
  obtain ⟨rest, rfl⟩ := h
  rw [rowSlot_eq hb, rowSlot_eq (b := b)]
  rw [List.getElem?_append_left (List.getElem?_eq_some_iff.mp hb).1]
  exact hb

variable {rollback : List DecodeScheduleRollbackRow} {result : SpecExecutionResult}
  {prepared : List PreparedRow}

/-- The chunk of a verified row continues its tokens: the last token ends the cached ones. -/
theorem Sequence.take_cached_append {seq : Sequence} (more : List Nat)
    (h : seq.numCachedTokens + 1 = seq.tokenIds.length) :
    seq.tokenIds.take seq.numCachedTokens ++
        seq.tokenIds.getD (seq.tokenIds.length - 1) 0 :: more = seq.tokenIds ++ more := by
  have hlt : seq.numCachedTokens < seq.tokenIds.length := by omega
  have hlast : seq.tokenIds.length - 1 = seq.numCachedTokens := by omega
  have hcut := List.take_append_drop seq.numCachedTokens seq.tokenIds
  rw [List.drop_eq_getElem_cons hlt, List.drop_of_length_le (by omega)] at hcut
  rw [hlast, List.getD_eq_getElem _ _ hlt, ← List.singleton_append, ← List.append_assoc, hcut]

section Verified

variable (h : Verifying cfg u rollback ids base leased tr q) (hout : BatchOut cfg batch [] u)
  (hc : Committed cfg base leased tr q result prepared desired t)

include h hout hc

theorem Verifying.results : result.rows.map SpecRowResult.seqId = batch := by
  rw [hc.committable.results, h.queues.1, hout.pure_decode]

omit h hout in
theorem Committed.proposals_length : ∀ drafted ∈
    result.rows.map SpecRowResult.proposedTokenIds, drafted.length = tr.plan.effectiveK := by
  intro drafted hdrafted
  obtain ⟨row, hrow, rfl⟩ := List.mem_map.mp hdrafted
  obtain ⟨snapshot, -, hacc⟩ := hc.committable.accepted row hrow
  exact hacc.proposed

/-- A filled verification holds the entries of a committed burst, all but its last token. -/
private theorem Verifying.burst_filled {feds : List FedWord} (hs : Sound cfg entry q cache)
    (hcore : Core cfg [] u) (hfeeding : Feeding cfg q (q.verifyChunks batch
      (result.rows.map SpecRowResult.proposedTokenIds)) feds)
    {res : SpecRowResult} (hres : res ∈ result.rows) {burst : List Nat} (hne : burst ≠ [])
    (hcut : burst <+: res.committedTokenIds) :
    Populated entry (pass entry cache (feds.map (FedWord.query cfg.kvcacheBlockSize q)))
      (rowSlot cfg.kvcacheBlockSize (q.table res.seqId))
      ((q.seqs res.seqId).tokenIds ++ burst)
      ((q.seqs res.seqId).numTokens + burst.length - 1) := by
  obtain ⟨snapshot, -, hacc⟩ := hc.committable.accepted res hres
  have hbatch := h.results hout hc
  obtain ⟨x, hx⟩ : ∃ x, x = res.seqId := ⟨_, rfl⟩
  have hxb : x ∈ batch := by
    rw [hx, ← hbatch]
    exact List.mem_map_of_mem hres
  obtain ⟨hshort, hdrafted⟩ := hacc.drafted hcut
  have hchunk : (x, (q.seqs x).tokenIds.getD ((q.seqs x).tokenIds.length - 1) 0 ::
      res.proposedTokenIds) ∈
        q.verifyChunks batch (result.rows.map SpecRowResult.proposedTokenIds) := by
    refine List.mem_map.mpr ⟨(x, res.proposedTokenIds), ?_, rfl⟩
    rw [← hbatch, List.zip_map']
    exact List.mem_map.mpr ⟨res, hres, by rw [hx]⟩
  have hcached : (q.seqs x).numCachedTokens + 1 = (q.seqs x).tokenIds.length :=
    h.cached_succ hout hxb
  have hfilled := hfeeding.populated (h.core hcore).owns hs hchunk
  rw [Sequence.take_cached_append _ hcached, List.length_cons, hacc.proposed] at hfilled
  have hend : (q.seqs x).numTokens + burst.length - 1 ≤
      (q.seqs x).numCachedTokens + (tr.plan.effectiveK + 1) := by
    show (q.seqs x).tokenIds.length + _ - 1 ≤ _
    omega
  have hreword : ((q.seqs x).tokenIds ++ burst).take ((q.seqs x).numTokens + burst.length - 1) =
      ((q.seqs x).tokenIds ++ res.proposedTokenIds).take
        ((q.seqs x).numTokens + burst.length - 1) := by
    have hpos : 0 < burst.length := List.length_pos_of_ne_nil hne
    have hsplit : (q.seqs x).numTokens + burst.length - 1 =
        (q.seqs x).tokenIds.length + (burst.length - 1) := by
      show (q.seqs x).tokenIds.length + _ - 1 = _
      omega
    rw [hsplit, List.take_length_add_append, List.take_length_add_append, hdrafted]
  rw [← hx]
  exact (hfilled.mono hend).reword hreword

/-- A verification whose commit was accepted fills the positions of every committed burst. -/
private theorem Verifying.committed (hne : batch ≠ []) (hdigest : cfg.Resolves entry)
    (hs : Sound cfg entry u cache) (sequential : Bool) :
    Sound cfg entry t (pass entry cache ((TargetCall.verify tr.plan batch q).queries cfg sequential
      (result.rows.map SpecRowResult.proposedTokenIds))) := by
  have hcore := hout.ready.2
  have hcommit := hc.committable
  have hlen : (result.rows.map SpecRowResult.proposedTokenIds).length = batch.length := by
    rw [← h.results hout hc, List.length_map, List.length_map]
  obtain ⟨feds, hqueries, hfeeding⟩ := h.feeding hout hlen hc.proposals_length hne sequential
  rw [hqueries]
  have hqcore := h.core hcore
  have hsq : Sound cfg entry q cache := hs.carried hdigest hcore.owns (h.carries hcore)
  have hfst := (desiredRetention_ok hc.desired_ok).1
  have hbase := h.holding.core hcore
  have hsp : Sound cfg entry (base.lend (keptRows desired)) (pass entry cache
      (feds.map (FedWord.query cfg.kvcacheBlockSize q))) :=
    (hsq.pass fun query hquery => hfeeding.spare hqcore.owns hquery).carried hdigest hqcore.owns
      (h.trim hcore hfst)
  have hbursts := hcommit.bursts h.holding.lease hbase hc.desired_ok
  have hpcore : Core cfg [] (base.lend (keptRows desired)) :=
    h.holding.lease.kept_core hbase hfst fun e he => by
      rw [h.base_queues.1]
      exact h.leased_rows e he
  have hall := hsp.commitAll hdigest hpcore hbursts fun row hrow => ?_
  · rw [hc.after]
    refine hall.carried hdigest (hpcore.commitAll hbursts).owns ?_
    exact .sameRows rfl rfl (fun _ => .refl _) (fun _ hy => hy) rfl
  have hfits := hbursts.fits row hrow
  rw [hcommit.prepared_eq] at hrow
  obtain ⟨res, hres, rfl⟩ := List.mem_map.mp hrow
  obtain ⟨burst, hburst⟩ : ∃ burst, burst = committedBurst cfg (q.seqs res.seqId)
    res.committedTokenIds (q.seqs res.seqId).numCompletionTokens := ⟨_, rfl⟩
  have hnonempty : burst ≠ [] := hburst ▸ hfits.nonempty
  have hcut : burst <+: res.committedTokenIds := hburst ▸ committedBurst_prefix cfg _ _ _
  have hfilled := h.burst_filled hout hc hsq hcore hfeeding hres hnonempty hcut
  have htable : (base.lend (keptRows desired)).table res.seqId <+: q.table res.seqId := by
    unfold State.table
    rw [congrFun h.holding.lease.seqs_eq res.seqId]
    exact (List.prefix_append_right_inj _).mpr (h.holding.lease.kept_prefix hfst res.seqId)
  have htokens : ((base.lend (keptRows desired)).seqs res.seqId).tokenIds =
      (q.seqs res.seqId).tokenIds := by
    rw [congrFun h.holding.lease.seqs_eq res.seqId]
    rfl
  have hwithin : (q.seqs res.seqId).numTokens + burst.length - 1 ≤
      ((base.lend (keptRows desired)).table res.seqId).length * cfg.kvcacheBlockSize :=
    hburst ▸ hfits.within
  show Populated entry _ (rowSlot _ ((base.lend (keptRows desired)).table res.seqId))
    (((base.lend (keptRows desired)).seqs res.seqId).tokenIds ++ committedBurst cfg
      (q.seqs res.seqId) res.committedTokenIds (q.seqs res.seqId).numCompletionTokens)
    ((q.seqs res.seqId).numTokens + (committedBurst cfg (q.seqs res.seqId) res.committedTokenIds
      (q.seqs res.seqId).numCompletionTokens).length - 1)
  rw [htokens, ← hburst]
  refine hfilled.congr fun p hp => ?_
  rw [rowSlot_longer htable (hp.trans_le hwithin)]

end Verified

end Commit

theorem Batched.commit_sound (h : Batched cfg decodes prefills u)
    (hst : Staged cfg [] (decodes ++ prefills) u) (hne : decodes ++ prefills ≠ [])
    (hdigest : cfg.Resolves entry) (hcarries : Carries cfg u q) (hseqs : q.seqs = u.seqs)
    (hqueues : q.running = u.running ∧ q.waiting = u.waiting) (hcore : Core cfg [] q)
    (hquiet : q.Quiet) (hs : Sound cfg entry u cache) (sequential : Bool)
    (proposals : List (List Nat)) {tokenIds : List Nat}
    (hlen : tokenIds.length = (decodes ++ prefills).length) :
    Sound cfg entry ((State.postRows cfg q ((decodes ++ prefills).zip tokenIds)).closeHandoff q
        (decodes ++ prefills))
      (pass entry cache ((TargetCall.run (decodes ++ prefills) (decide (prefills ≠ [])) q).queries
        cfg sequential proposals)) := by
  have hown := h.ready.2.owns
  have hfeeding := h.feeding hst
  have hahead : ∀ x ∈ decodes ++ prefills, u.Ahead cfg entry _ x :=
    fun x hx => h.ahead hst hs hx
  rw [h.run_queries hst hne hseqs]
  obtain ⟨batch, hbatch⟩ : ∃ batch, batch = decodes ++ prefills := ⟨_, rfl⟩
  have hfst : (batch.zip tokenIds).map Prod.fst = batch := List.map_fst_zip (hbatch ▸ hlen).ge
  have hnd : ((batch.zip tokenIds).map Prod.fst).Nodup := by
    rw [hfst, hbatch]
    exact h.distinct
  have hserved : ∀ row ∈ batch.zip tokenIds, q.Served row.1 := by
    intro row hrow
    have hrow' := h.owned row.1 (hbatch ▸ (List.of_mem_zip hrow).1)
    unfold State.Served State.table
    rw [hqueues.1, hqueues.2, hseqs]
    exact hrow'
  rw [← hbatch] at hfeeding hahead ⊢
  have hq := (hs.pass fun query hquery => hfeeding.spare hown hquery).carried hdigest hown hcarries
  have hrows := hq.postRows hdigest hnd hcore hquiet hserved fun row hrow =>
    (hahead row.1 (List.of_mem_zip hrow).1).congr (by rw [hseqs]; exact .refl _)
  obtain ⟨-, hcore', -⟩ := hcore.postprocessRows_served hnd hquiet hserved
  exact hrows.carried hdigest hcore'.owns (.closeHandoff _ _ _)

section Step

variable {answers : StepAnswers} {call : Option TargetCall}
  {result : EStateM.Result Raised State (List StreamOutput)}

private theorem Sound.targetCall (hs : Sound cfg entry q cache) (sequential : Bool) (torn : Int → κ)
    {call : TargetCall} (hspare : ∀ proposals, ∀ query ∈ call.queries cfg sequential proposals,
      SpareSlot cfg q query.slot) :
    Sound cfg entry q (call.cacheAfter cfg entry answers sequential torn cache) := by
  unfold TargetCall.cacheAfter
  split
  · exact hs.pass fun query hquery => hspare _ query hquery
  · refine hs.overwrite fun slot hne => ?_
    split at hne
    · rename_i hin
      obtain ⟨query, hquery, rfl⟩ := List.mem_map.mp hin
      exact hspare _ query hquery
    · exact absurd rfl hne

theorem StepEnd.call_inside {v : State} {call : Option TargetCall}
    {result : EStateM.Result Raised State (List StreamOutput)}
    (h : StepEnd cfg v rows batch u answers call result) :
    ∃ ids, CallInside cfg u batch ids call := by
  cases h with
  | undone _ _ hcall => exact ⟨_, hcall⟩
  | ordinary h _ _ _ _ _ =>
    obtain ⟨f, n, c, rfl⟩ := h
    exact ⟨[], .run rfl⟩
  | shadowed _ h _ _ _ _ _ _ => exact ⟨[], .run h.pool.seqs⟩
  | committed h _ _ _ _ _ => exact ⟨_, .verify h fun _ hb => hb⟩
  | unobserved h _ _ _ _ _ => exact ⟨_, .verify h fun _ hb => hb⟩

theorem StepEnd.sound (h : StepEnd cfg (s.preemptAll victims) rows batch u answers call result)
    (hrep : Replay cfg s victims rows batch [] u) (hout : BatchOut cfg batch [] u)
    (hbatched : Batched cfg batch [] u) (hne : batch ≠ []) (hdigest : cfg.Resolves entry)
    (hs : Sound cfg entry u cache) (sequential : Bool) (torn : Int → κ) :
    Sound cfg entry (Call.after result)
      (callCache cfg entry answers sequential torn cache call) := by
  have hcore := hout.ready.2
  have hcalm := hout.ready.1
  have hst := hout.staged
  have hne' : batch ++ [] ≠ [] := by simpa using hne
  have hcommit : ∀ {q : State} {tokenIds : List Nat}, Carries cfg u q → q.seqs = u.seqs →
      q.running = u.running → q.waiting = u.waiting → q.activeDraftDiscard = none →
      Protocol cfg q → answers.run batch false = .ok tokenIds →
      tokenIds.length = batch.length →
      Sound cfg entry ((State.postRows cfg q (batch.zip tokenIds)).closeHandoff q batch)
        (callCache cfg entry answers sequential torn cache (some (.run batch false q))) := by
    intro q tokenIds hcarries hseqs hrun hwait hdis hp hres hlen
    have hqcore := hp.unleased_core
    rw [State.unleased_idle hdis] at hqcore
    have hlen' : tokenIds.length = (batch ++ []).length := by simpa using hlen
    have hsound := hbatched.commit_sound hst hne' hdigest hcarries hseqs ⟨hrun, hwait⟩ hqcore
      (hp.quiet hdis) hs sequential [] hlen'
    rw [List.append_nil] at hsound
    have hproposals : (TargetCall.run batch false q).proposals answers = some [] := by
      unfold TargetCall.proposals
      dsimp only
      rw [hres]
      rfl
    unfold callCache TargetCall.cacheAfter
    dsimp only
    rw [hproposals]
    exact hsound
  cases h with
  | undone h happ hcall =>
    have hown := hrep.settled.1.2.owns
    have hover := hrep.over happ
    have hback : Carries cfg u _ := h.carries hown hover hover
    cases hcall with
    | none => exact hs.carried hdigest hcore.owns hback
    | run hseqs =>
      refine (hs.targetCall sequential torn fun proposals query hquery => ?_).carried hdigest
        hcore.owns hback
      have hqueries := hbatched.run_queries hst hne' hseqs sequential proposals
      rw [List.append_nil] at hqueries
      have hin := hqueries ▸ hquery
      have hfeeding := hbatched.feeding hst
      rw [List.append_nil] at hfeeding
      exact hfeeding.spare hcore.owns hin
    | verify hv hsub =>
      have hqcore := hv.core hcore
      have hq := hs.carried hdigest hcore.owns (hv.carries hcore)
      exact (hq.targetCall sequential torn (hv.spare hout hne hcore sequential)).carried hdigest
        hqcore.owns (h.carries hown hover (hv.over hsub hover))
  | ordinary h hp hrun hlen _ _ =>
    obtain ⟨f, n, c, rfl⟩ := h
    exact hcommit (Untouched.carries ⟨f, n, c, rfl⟩) rfl rfl rfl hcalm.discard hp hrun hlen
  | shadowed _ h hp _ hrun hlen _ _ =>
    exact hcommit (h.carries hcore.owns) h.pool.seqs (congrArg Control.running h.control)
      (congrArg Control.waiting h.control) h.discard hp hrun hlen
  | committed h _ hrun hc _ _ =>
    have hsound := h.committed hout hc hne hdigest hs sequential
    unfold callCache TargetCall.cacheAfter TargetCall.proposals
    dsimp only
    rw [hrun]
    exact hsound
  | unobserved h _ hrun hc _ _ =>
    have hsound := h.committed hout hc hne hdigest hs sequential
    unfold callCache TargetCall.cacheAfter TargetCall.proposals
    dsimp only
    rw [hrun]
    exact hsound

end Step

end NanoVllm
