/- module: NanoVllm/Runs/Commits
   layer: main result
   source: nanovllm/engine/scheduler.py, commit_speculative; nanovllm/engine/block_manager.py,
     finalize_temporary_append
   digest: A commit is exact where no table exceeds what its burst leaves cached, and atomic. -/

import NanoVllm.Cancellation.Attached
import NanoVllm.Content.Bursts
import NanoVllm.Routing.Policy
import NanoVllm.Runs.Cached

set_option autoImplicit false
set_option relaxedAutoImplicit false

namespace NanoVllm

open Library

variable {cfg : Config} {q u base : State} {rows : List (Nat × List Nat)}
  {tr : ActiveSpecTransaction} {result : SpecExecutionResult} {row : SpecRowResult} {x : Nat}

/-- `tr` is the active transaction of `q`: its writes are prepared and its lease is live. -/
structure ActiveSpecTransaction.Ready (tr : ActiveSpecTransaction) (q : State) : Prop where
  active : q.activeSpecTransaction = some tr
  writes : tr.targetWritesPrepared = true
  live : q.activeReservation = some tr.reservation

def Sequence.stopsOn (cfg : Config) (seq : Sequence) (token : Nat) : Bool :=
  !seq.ignoreEos && decide ((token : Int) = cfg.eos)

/-- How many of the offered tokens a row commits: those up to the first end-of-sequence token,
unless it is ignored, and no more than `max_tokens` leaves. -/
def Sequence.burstLength (cfg : Config) (seq : Sequence) (tokens : List Nat) : Nat :=
  min (min tokens.length (tokens.findIdx (seq.stopsOn cfg) + 1))
    (seq.maxTokens - seq.numCompletionTokens)

private theorem committedBurst_take (cfg : Config) (seq : Sequence) :
    ∀ (tokens : List Nat) (done : Nat), committedBurst cfg seq tokens done =
      tokens.take (min (min tokens.length (tokens.findIdx (seq.stopsOn cfg) + 1))
        (seq.maxTokens - done)) := by
  intro tokens
  induction tokens with
  | nil => simp [committedBurst]
  | cons token tokens ih =>
    intro done
    unfold committedBurst
    rw [List.findIdx_cons]
    by_cases hfull : seq.maxTokens ≤ done
    · rw [if_pos hfull, Nat.sub_eq_zero_of_le hfull, Nat.min_zero, List.take_zero]
    · have hpos : seq.maxTokens - done = seq.maxTokens - (done + 1) + 1 := by omega
      rw [if_neg hfull, hpos, List.length_cons, Nat.add_min_add_right, Nat.add_min_add_right,
        List.take_succ_cons]
      change (if seq.stopsOn cfg token = true then _ else _) = _
      cases seq.stopsOn cfg token with
      | true => simp
      | false => rw [if_neg (by simp), cond_false, ih]

theorem committedBurst_eq (cfg : Config) (seq : Sequence) (tokens : List Nat) :
    committedBurst cfg seq tokens seq.numCompletionTokens =
      tokens.take (seq.burstLength cfg tokens) :=
  committedBurst_take cfg seq tokens seq.numCompletionTokens

theorem Sequence.length_burst (cfg : Config) (seq : Sequence) (tokens : List Nat) :
    (tokens.take (seq.burstLength cfg tokens)).length = seq.burstLength cfg tokens := by
  rw [List.length_take]
  unfold Sequence.burstLength
  omega

/-- Only the last token of a burst may end it. -/
theorem Sequence.stopsOn_last (cfg : Config) (seq : Sequence) {tokens : List Nat}
    (hpos : 0 < seq.burstLength cfg tokens) :
    seq.stopsOn cfg ((tokens.take (seq.burstLength cfg tokens)).getLastD 0) = true ↔
      ∃ token ∈ tokens.take (seq.burstLength cfg tokens), seq.stopsOn cfg token = true := by
  have hlen := seq.length_burst cfg tokens
  obtain ⟨n, hn⟩ : ∃ n, n = seq.burstLength cfg tokens := ⟨_, rfl⟩
  have hle : n ≤ tokens.length ∧ n ≤ tokens.findIdx (seq.stopsOn cfg) + 1 := by
    rw [hn]
    unfold Sequence.burstLength
    omega
  rw [← hn] at hlen hpos ⊢
  have hne : tokens.take n ≠ [] := List.ne_nil_of_length_pos (by omega)
  have hlast : (tokens.take n).getLastD 0 = tokens[n - 1] := by
    rw [List.getLastD_eq_getLast?, List.getLast?_eq_getElem?, hlen,
      List.getElem?_take_of_lt (by omega), List.getElem?_eq_getElem (by omega)]
    rfl
  constructor
  · intro h
    refine ⟨_, ?_, h⟩
    rw [List.getLastD_eq_getLast?, List.getLast?_eq_some_getLast hne]
    exact List.getLast_mem hne
  · rintro ⟨token, hmem, htoken⟩
    obtain ⟨i, hi, rfl⟩ := List.getElem_of_mem hmem
    rw [List.getElem_take] at htoken
    have hfirst : tokens.findIdx (seq.stopsOn cfg) ≤ i := by
      by_contra hlt
      have hfalse := List.not_of_lt_findIdx (Nat.lt_of_not_le hlt)
      rw [htoken] at hfalse
      exact absurd hfalse (by simp)
    have hin : i = n - 1 := by omega
    rw [hlast]
    simpa [hin] using htoken

def State.burstLength (q : State) (cfg : Config) (row : SpecRowResult) : Nat :=
  (q.seqs row.seqId).burstLength cfg row.committedTokenIds

/-- What a row commits in `q` when its cycle verified `k` proposals. -/
def SpecRowResult.burst (cfg : Config) (q : State) (k : Nat) (row : SpecRowResult) :
    PreparedRow where
  sequence := row.seqId
  tokens := row.committedTokenIds.take (q.burstLength cfg row)
  cached := (q.seqs row.seqId).numTokens + q.burstLength cfg row - 1
  draftCached := min ((q.seqs row.seqId).numTokens + q.burstLength cfg row - 1)
    ((q.seqs row.seqId).numTokens + k - 1)

private theorem preparedOf_eq (cfg : Config) (q : State) (k : Nat) (row : SpecRowResult) :
    preparedOf cfg q k row = row.burst cfg q k := by
  unfold preparedOf SpecRowResult.burst State.burstLength
  simp only [committedBurst_eq, Sequence.length_burst]

private theorem prepared_eq (cfg : Config) (q : State) (k : Nat) (results : List SpecRowResult) :
    results.map (preparedOf cfg q k) = results.map (SpecRowResult.burst cfg q k) :=
  List.map_congr_left fun row _ => preparedOf_eq cfg q k row

/-- The request reached its end-of-sequence token or `max_tokens`. -/
def State.Ended (u : State) (cfg : Config) (q : State) (row : SpecRowResult) : Prop :=
  (∃ token ∈ row.committedTokenIds.take (q.burstLength cfg row),
    (q.seqs row.seqId).stopsOn cfg token = true) ∨
  (q.seqs row.seqId).maxTokens ≤ (u.seqs row.seqId).numCompletionTokens

/-- A row of the committed batch: `L` tokens before, `n` committed after `k` proposals. -/
structure RowCommitted (cfg : Config) (q : State) (k : Nat) (row : SpecRowResult) (u : State) :
    Prop where
  committed : 0 < q.burstLength cfg row
  tokens : (u.seqs row.seqId).tokenIds = (q.seqs row.seqId).tokenIds ++
    row.committedTokenIds.take (q.burstLength cfg row)
  length : (u.seqs row.seqId).numTokens = (q.seqs row.seqId).numTokens + q.burstLength cfg row
  going : ¬ u.Ended cfg q row → (u.seqs row.seqId).status = .running ∧
    (u.seqs row.seqId).numCachedTokens =
      (q.seqs row.seqId).numTokens + q.burstLength cfg row - 1 ∧
    (u.seqs row.seqId).numDraftCachedTokens =
      min ((q.seqs row.seqId).numTokens + q.burstLength cfg row - 1)
        ((q.seqs row.seqId).numTokens + k - 1) ∧
    (u.seqs row.seqId).numScheduledTokens = 0 ∧
    (u.table row.seqId) = (q.table row.seqId).take (pagesFor cfg.kvcacheBlockSize
      ((q.seqs row.seqId).numTokens + q.burstLength cfg row - 1)) ∧
    (u.table row.seqId).length = pagesFor cfg.kvcacheBlockSize
      ((q.seqs row.seqId).numTokens + q.burstLength cfg row - 1)
  ended : u.Ended cfg q row → (u.seqs row.seqId).status = .finished ∧ u.table row.seqId = []

/-- The commit of `result` in `q` left `u`. -/
structure CommitExact (cfg : Config) (q : State) (tr : ActiveSpecTransaction)
    (result : SpecExecutionResult) (u : State) : Prop where
  rows : ∀ row ∈ result.rows, RowCommitted cfg q tr.plan.effectiveK row u
  kept : ∀ row ∈ result.rows, ∀ lease ∈ tr.reservation.rows, lease.sequence = row.seqId →
    lease.blockTableBefore.length ≤ pagesFor cfg.kvcacheBlockSize
        ((q.seqs row.seqId).numTokens + q.burstLength cfg row - 1) ∧
      pagesFor cfg.kvcacheBlockSize ((q.seqs row.seqId).numTokens + q.burstLength cfg row - 1) ≤
        lease.blockTableBefore.length + lease.appendedBlockIds.length
  others : ∀ y, y ∉ q.running → u.seqs y = q.seqs y
  running : u.running = q.running.filter fun x => decide ((u.seqs x).status ≠ .finished)
  published : Publishes cfg q (result.rows.map (SpecRowResult.burst cfg q tr.plan.effectiveK)) u
  ordinary : ∀ row ∈ result.rows, ∀ i b,
    q.Completes cfg (row.burst cfg q tr.plan.effectiveK) i b → ∀ (turns : List Turn) (y c : Nat),
      y ∈ (runTurns cfg turns).running ++ (runTurns cfg turns).waiting →
      i < (runTurns cfg turns).coverage cfg y → ((runTurns cfg turns).table y)[i]? = some c →
      ((runTurns cfg turns).seqs y).tokenIds.take ((i + 1) * cfg.kvcacheBlockSize) =
        (u.seqs row.seqId).tokenIds.take ((i + 1) * cfg.kvcacheBlockSize) →
      ((runTurns cfg turns).blocks c).hash = (u.blocks b).hash
  owned : Owned cfg u
  control : u.control = { q.control with
    running := u.running
    activeReservation := none
    activeSpecTransaction := none
    activeDraftDiscard := none }

section Kept

variable {r : TemporaryBlockReservation} {desired : List (TemporaryReservationRow × Nat)}
  (hl : Leased base rows q r) (hblank : ∀ e ∈ r.blockStatesBefore, e.1 ∈ r.allocationOrder →
    e.2.hash = none ∧ e.2.tokenIds = [] ∧ e.2.updates = 0)

include hl hblank

private theorem Leased.blank {b : Nat} (hb : b ∈ lentBlocks rows) : base.Blank b := by
  have hin : (b, base.blocks b) ∈ r.blockStatesBefore := by
    rw [hl.record]
    exact List.mem_map_of_mem (f := fun b => (b, base.blocks b))
      (mem_sortedSet.mpr (List.mem_append_left _ hb))
  have horder : b ∈ r.allocationOrder := by
    rw [hl.record]
    exact hb
  obtain ⟨hhash, htok, hupd⟩ := hblank _ hin horder
  exact ⟨hhash, htok, hupd⟩

/-- Trimming a prepared lease leaves what the blocks and the index show. -/
private theorem Leased.kept_content (hfst : desired.map Prod.fst = r.rows)
    (hown : Owns cfg base) :
    (∀ b, SameContent q (base.lend (keptRows desired)) b) ∧
      (base.lend (keptRows desired)).hashToBlockId = q.hashToBlockId := by
  constructor
  · intro b
    have hq : q.blocks b = if b ∈ lentBlocks rows then Block.fresh else base.blocks b :=
      congrFun hl.blocks_eq b
    have hw : (base.lend (keptRows desired)).blocks b =
        if b ∈ lentBlocks (keptRows desired) then Block.fresh else base.blocks b := rfl
    by_cases hlent : b ∈ lentBlocks rows
    · have hgone := hl.blank hblank hlent
      rw [if_pos hlent] at hq
      by_cases hkept : b ∈ lentBlocks (keptRows desired)
      · rw [if_pos hkept] at hw
        exact .of_block (hw.trans hq.symm)
      · rw [if_neg hkept] at hw
        exact ⟨by rw [hw, hq]; exact hgone.hash, by rw [hw, hq]; exact hgone.tokenIds,
          by rw [hw, hq]; exact hgone.updates⟩
    · have hkept : b ∉ lentBlocks (keptRows desired) :=
        fun hmem => hlent ((hl.kept_sublist hfst).subset hmem)
      rw [if_neg hlent] at hq
      rw [if_neg hkept] at hw
      exact .of_block (hw.trans hq.symm)
  · have hnone : ∀ h b, base.hashToBlockId.lookup h = some b → b ∉ lentBlocks rows := by
      intro h b hb hmem
      have hhash := (hown.index h b hb).2.1
      rw [(hl.blank hblank hmem).hash] at hhash
      exact absurd hhash (by simp)
    have hw : (base.lend (keptRows desired)).hashToBlockId =
        restrict (· ∉ lentBlocks (keptRows desired)) base.hashToBlockId := rfl
    rw [hw, hl.index_eq]
    apply Finmap.ext_lookup
    intro h
    rw [lookup_restrict, lookup_restrict]
    cases hb : base.hashToBlockId.lookup h with
    | none => rfl
    | some b =>
      have hout := hnone h b hb
      have hout' : b ∉ lentBlocks (keptRows desired) :=
        fun hmem => hout ((hl.kept_sublist hfst).subset hmem)
      rw [Option.filter_some, Option.filter_some, if_pos (by simpa using hout'),
        if_pos (by simpa using hout)]

end Kept

private theorem Leased.kept_row {r : TemporaryBlockReservation} (hl : Leased base rows q r)
    (kept : List (Nat × List Nat)) (x : Nat) :
    (base.lend kept).seqs x = { q.seqs x with blockTable := (base.lend kept).table x } := by
  rw [hl.seqs_eq]
  rfl

private theorem Leased.lease_tables {r : TemporaryBlockReservation} (hl : Leased base rows q r)
    {lease : TemporaryReservationRow} (hlease : lease ∈ r.rows) :
    (q.table lease.sequence).length =
      lease.blockTableBefore.length + lease.appendedBlockIds.length := by
  rw [hl.record] at hlease
  obtain ⟨e, he, rfl⟩ := List.mem_map.mp hlease
  have hlent := lentTo_of_mem hl.distinct he
  unfold State.table
  rw [hl.seqs_eq, ← List.length_append]
  change (base.table e.1 ++ lentTo rows e.1).length = (base.table e.1 ++ e.2).length
  rw [hlent]

section Row

variable {k : Nat} {table : List Nat}

/-- The burst ends the request in the record it leaves. -/
private theorem burstEnds_iff (hpos : 0 < q.burstLength cfg row)
    (hrow : u.seqs row.seqId =
      ({ q.seqs row.seqId with blockTable := table } : Sequence).committed cfg
        (row.burst cfg q k)) :
    ({ q.seqs row.seqId with blockTable := table } : Sequence).burstEnds cfg (row.burst cfg q k) =
      true ↔ u.Ended cfg q row := by
  have hcount : (u.seqs row.seqId).numCompletionTokens =
      (({ q.seqs row.seqId with blockTable := table } : Sequence).burst
        (row.burst cfg q k)).numCompletionTokens := by
    rw [hrow]
    unfold Sequence.committed
    split <;> rfl
  have hlast := (q.seqs row.seqId).stopsOn_last cfg hpos
  unfold Sequence.burstEnds stopsAt State.Ended
  rw [hcount, Bool.or_eq_true, decide_eq_true_iff]
  exact or_congr hlast Iff.rfl

private theorem RowCommitted.of (hpos : 0 < q.burstLength cfg row)
    (hstatus : (q.seqs row.seqId).status = .running)
    (htable : table <+: q.table row.seqId)
    (hlen : table.length = pagesFor cfg.kvcacheBlockSize
      ((q.seqs row.seqId).numTokens + q.burstLength cfg row - 1))
    (hrow : u.seqs row.seqId =
      ({ q.seqs row.seqId with blockTable := table } : Sequence).committed cfg
        (row.burst cfg q k)) :
    RowCommitted cfg q k row u := by
  have hends := burstEnds_iff hpos hrow
  have htokens : (u.seqs row.seqId).tokenIds = (q.seqs row.seqId).tokenIds ++
      row.committedTokenIds.take (q.burstLength cfg row) := by
    rw [hrow]
    unfold Sequence.committed
    split <;> rfl
  have hlength := (q.seqs row.seqId).length_burst cfg row.committedTokenIds
  refine ⟨hpos, htokens, ?_, fun hgo => ?_, fun hend => ?_⟩
  · have hcount := congrArg List.length htokens
    rw [List.length_append] at hcount
    exact hcount.trans (congrArg _ hlength)
  · rw [← hends] at hgo
    have hopen : u.seqs row.seqId =
        ({ q.seqs row.seqId with blockTable := table } : Sequence).burst (row.burst cfg q k) := by
      rw [hrow]
      unfold Sequence.committed
      rw [if_neg hgo]
    have htab : u.table row.seqId = table := by
      unfold State.table
      rw [hopen]
      rfl
    rw [htab]
    refine ⟨by rw [hopen]; exact hstatus, by rw [hopen]; rfl, by rw [hopen]; rfl,
      by rw [hopen]; rfl, ?_, hlen⟩
    rw [← hlen]
    exact List.prefix_iff_eq_take.mp htable
  · rw [← hends] at hend
    have hdone := hrow
    unfold Sequence.committed at hdone
    rw [if_pos hend] at hdone
    refine ⟨by rw [hdone], ?_⟩
    unfold State.table
    rw [hdone]

end Row

private theorem Publishes.rebase {prepared : List PreparedRow} {w t : State}
    (h : Publishes cfg w prepared t) (hsame : ∀ b, SameContent q w b)
    (hindex : w.hashToBlockId = q.hashToBlockId)
    (htokens : ∀ row ∈ prepared, w.burstTokens row = q.burstTokens row)
    (hiff : ∀ row ∈ prepared, ∀ i b, w.Completes cfg row i b ↔ q.Completes cfg row i b) :
    Publishes cfg q prepared t where
  completed := by
    intro row hrow i b hc
    obtain ⟨hhash, htok, hupd⟩ := h.completed row hrow i b ((hiff row hrow i b).mpr hc)
    rw [htokens row hrow] at hhash htok
    exact ⟨hhash, htok, by rw [hupd, (hsame b).updates]⟩
  others := fun b hb => (hsame b).trans
    (h.others b fun row hrow i hc => hb row hrow i ((hiff row hrow i b).mp hc))
  index := by
    intro k
    rcases h.index k with ⟨hold, hnone⟩ | ⟨row, hrow, i, b, hc, hchain, hlook⟩
    · refine Or.inl ⟨by rw [hold, hindex], fun row hrow i b hc => ?_⟩
      rw [← htokens row hrow]
      exact hnone row hrow i b ((hiff row hrow i b).mpr hc)
    · rw [htokens row hrow] at hchain
      exact Or.inr ⟨row, hrow, i, b, (hiff row hrow i b).mp hc, hchain, hlook⟩

theorem ActiveSpecTransaction.Ready.leased (hr : tr.Ready q) (h : Protocol cfg q) :
    ∃ base rows, q.activeDraftDiscard = some (tr.plan, tr.reservation) ∧
      Leased base rows q tr.reservation ∧ Core cfg [] base ∧ ∀ e ∈ rows, e.1 ∈ base.running := by
  rcases h.lease with ⟨-, hnone, -⟩ | ⟨base, rows, plan, r, hd, hl, hcore, hrows⟩
  · rw [hr.live] at hnone
    exact absurd hnone (by simp)
  · obtain ⟨rfl, rfl⟩ := Prod.mk.inj ((h.linked tr hr.active).2 _ hd)
    exact ⟨base, rows, hd, hl, hcore, hrows⟩

private theorem sequences_eq (hl : Leased base rows q tr.reservation)
    (hvalid : validateResult cfg q tr.plan result
      (tr.reservation.rows.map TemporaryReservationRow.sequence) = .ok ⟨⟩) :
    (result.rows.map (SpecRowResult.burst cfg q tr.plan.effectiveK)).map PreparedRow.sequence =
      rows.map Prod.fst := by
  obtain ⟨hids, -, -⟩ := validateResult_ok hvalid
  rw [← hl.sequences, ← hids, List.map_map]
  rfl

/-- `w` is `q` with its lease trimmed to what the rows `prepared` need. -/
private structure Trims (cfg : Config) (q : State) (prepared : List PreparedRow) (w : State) :
    Prop where
  row : ∀ x, w.seqs x = { q.seqs x with blockTable := w.table x }
  table : ∀ x, w.table x <+: q.table x
  outside : ∀ x, x ∉ prepared.map PreparedRow.sequence → w.table x = q.table x
  length : ∀ p ∈ prepared, (w.table p.sequence).length = pagesFor cfg.kvcacheBlockSize p.cached
  content : ∀ b, SameContent q w b
  index : w.hashToBlockId = q.hashToBlockId
  control : w.control = { q.control with activeReservation := none }
  core : Core cfg [] w
  quiet : w.Quiet
  hashed : Hashed cfg w
  bursts : Bursts cfg w prepared

private theorem Committable.trims {desired : List (TemporaryReservationRow × Nat)}
    {prepared : List PreparedRow} (h : Protocol cfg q) (hl : Leased base rows q tr.reservation)
    (hcore : Core cfg [] base) (hrows : ∀ e ∈ rows, e.1 ∈ base.running) (hh : Hashed cfg base)
    (hsup : tr.Supported cfg) (hc : Committable cfg q tr tr.plan result prepared)
    (hdes : desiredRetention tr.reservation
      (List.zipWith (keepCount cfg) prepared tr.reservation.rows) = .ok desired) :
    Trims cfg q prepared (base.lend (keptRows desired)) := by
  have hfst := (desiredRetention_ok hdes).1
  have hseq := hc.distinct hl
  have hq : ∀ x, q.table x = base.table x ++ lentTo rows x := by
    intro x
    unfold State.table
    rw [hl.seqs_eq]
    rfl
  obtain ⟨hsame, hindex⟩ := hl.kept_content (hsup.blank hc.writes) hfst hcore.owns
  obtain ⟨-, hfree⟩ := hl.kept_free hcore.own.poolOk hfst
  have hkeys : (keptRows desired).map Prod.fst = rows.map Prod.fst := by
    rw [keptRows_fst, hfst, hl.sequences]
  have hin : ∀ e ∈ keptRows desired, e.1 ∈ base.running := by
    intro e he
    have hmem : e.1 ∈ (keptRows desired).map Prod.fst := List.mem_map_of_mem he
    rw [hkeys] at hmem
    obtain ⟨e', he', heq⟩ := List.mem_map.mp hmem
    exact heq ▸ hrows e' he'
  have hctl : ∀ {α : Type} (f : Control → α),
      f base.control = f { q.control with activeReservation := none } :=
    fun f => congrArg f hl.control
  exact {
    row := hl.kept_row (keptRows desired)
    table := fun x => by
      rw [hq, State.lend_table]
      exact (List.prefix_append_right_inj _).mpr (hl.kept_prefix hfst x)
    outside := fun x hx => by
      rw [hseq] at hx
      rw [hq, State.lend_table, lentTo_eq_nil hx, lentTo_eq_nil (by rwa [hkeys])]
    length := fun p hp => hl.kept_length hseq hdes hp
    content := hsame
    index := hindex
    control := hl.control
    core := hl.kept_core hcore hfst hrows
    quiet := ⟨hctl Control.activeReservation, (hctl Control.reservationInProgress).trans h.progress,
      (hctl Control.internalAllocation).trans h.internal, (hctl Control.fault).trans h.fault⟩
    hashed := (Hashed.lasting cfg).lend hcore hh hin hfree
    bursts := hc.bursts hl hcore hdes }

private theorem nodup_running (hcore : Core cfg [] base) (hl : Leased base rows q tr.reservation) :
    q.running.Nodup := by
  have hlive := hcore.own.live_nodup
  rw [List.nil_append] at hlive
  rw [← show base.running = q.running from congrArg Control.running hl.control]
  exact (List.nodup_append.mp hlive).1

private theorem any_sequence {prepared : List PreparedRow} {f : PreparedRow → Bool}
    {p : PreparedRow} (hnd : (prepared.map PreparedRow.sequence).Nodup) (hp : p ∈ prepared) :
    (prepared.any fun o => decide (o.sequence = p.sequence) && f o) = f p := by
  have hiff : (prepared.any fun o => decide (o.sequence = p.sequence) && f o) = true ↔
      f p = true := by
    rw [List.any_eq_true]
    constructor
    · rintro ⟨o, ho, hboth⟩
      rw [Bool.and_eq_true, decide_eq_true_iff] at hboth
      rw [← List.inj_on_of_nodup_map hnd ho hp hboth.1]
      exact hboth.2
    · exact fun h => ⟨p, hp, by simp [h]⟩
  exact Bool.eq_iff_iff.mpr hiff

namespace Trims

variable {prepared : List PreparedRow} {w : State} (h : Trims cfg q prepared w)

include h

private theorem published :
    Publishes cfg q prepared (w.commitAll cfg prepared).closeTransaction := by
  have hall := Publishes.commitAll h.core h.quiet h.hashed h.bursts
  have hclosed : Publishes cfg w prepared (w.commitAll cfg prepared).closeTransaction :=
    hall.congr (fun b => .of_block rfl) rfl
  refine hclosed.rebase h.content h.index (fun p _ => ?_) fun p hp i b => ?_
  · unfold State.burstTokens
    rw [h.row]
  · have hcov : w.coverage cfg p.sequence = q.coverage cfg p.sequence := by
      unfold State.coverage
      rw [h.row]
    have hpage : p.cached / cfg.kvcacheBlockSize ≤ (w.table p.sequence).length := by
      rw [h.length p hp]
      exact div_le_pagesFor cfg.blockSize_pos _
    obtain ⟨more, hmore⟩ := h.table p.sequence
    refine ⟨fun hc => ⟨hcov.symm.trans_le hc.uncovered, hc.reached, ?_⟩,
      fun hc => ⟨hcov.trans_le hc.uncovered, hc.reached, ?_⟩⟩
    · rw [← hmore, List.getElem?_append_left (hc.reached.trans_le hpage)]
      exact hc.entry
    · have hentry := hc.entry
      rwa [← hmore, List.getElem?_append_left (hc.reached.trans_le hpage)] at hentry

private theorem committed_row {p : PreparedRow} (hp : p ∈ prepared) :
    (w.commitAll cfg prepared).closeTransaction.seqs p.sequence =
      ({ q.seqs p.sequence with blockTable := w.table p.sequence } : Sequence).committed cfg p := by
  rw [← h.row]
  exact w.commitAll_row cfg h.bursts.distinct hp

private theorem other_row (hx : x ∉ prepared.map PreparedRow.sequence) :
    (w.commitAll cfg prepared).closeTransaction.seqs x = q.seqs x := by
  refine (w.commitAll_out cfg hx).trans ?_
  rw [h.row, h.outside x hx]
  rfl

/-- The queue keeps its order and loses the requests that ended. -/
private theorem queue (hnd : q.running.Nodup) :
    (w.commitAll cfg prepared).closeTransaction.running = q.running.filter fun x =>
      !(prepared.any fun p => decide (p.sequence = x) && (w.seqs x).burstEnds cfg p) := by
  have hrun : w.running = q.running := congrArg Control.running h.control
  rw [← hrun] at hnd ⊢
  exact w.commitAll_queue cfg h.bursts.distinct hnd

private theorem control_eq : (w.commitAll cfg prepared).closeTransaction.control = { q.control with
    running := (w.commitAll cfg prepared).running
    activeReservation := none
    activeSpecTransaction := none
    activeDraftDiscard := none } := by
  have hall : (w.commitAll cfg prepared).control =
      { w.control with running := (w.commitAll cfg prepared).running } :=
    State.commitAll_control cfg prepared w
  rw [h.control] at hall
  change { (w.commitAll cfg prepared).control with
    activeDraftDiscard := none
    activeSpecTransaction := none } = _
  rw [hall]

end Trims

section Commit

variable (h : Protocol cfg q) (ha : Attached cfg q) (hr : tr.Ready q)
  (hvalid : validateResult cfg q tr.plan result
    (tr.reservation.rows.map TemporaryReservationRow.sequence) = .ok ⟨⟩)

include ha hr hvalid

private theorem covers_running :
    tr.reservation.rows.map TemporaryReservationRow.sequence = q.running := by
  obtain ⟨-, hplanned, -⟩ := validateResult_ok hvalid
  exact hplanned.symm.trans (ha.rows tr hr.active).2.1

/-- Every row commits a token, and no more than its lease has slots for. -/
private theorem burst_bounds (hrow : row ∈ result.rows) : 0 < q.burstLength cfg row ∧
    (q.seqs row.seqId).numTokens + q.burstLength cfg row - 1 ≤
      (q.table row.seqId).length * cfg.kvcacheBlockSize := by
  obtain ⟨-, -, hall⟩ := validateResult_ok hvalid
  obtain ⟨snapshot, hmem, hacc⟩ := hall row hrow
  obtain ⟨hroom, hreach⟩ := (ha.supported tr hr.active).rows snapshot hmem
  have hremaining := hacc.remaining
  have hoffered := hacc.committed
  have haccepted := hacc.accepted_le
  have htable : q.table row.seqId = snapshot.blockTable := hacc.table
  rw [← hacc.numTokens, ← htable] at hreach
  unfold State.burstLength Sequence.burstLength
  omega

private theorem checks_ok : commitChecks cfg q tr tr.plan result =
    .ok (result.rows.map (SpecRowResult.burst cfg q tr.plan.effectiveK)) := by
  rw [← prepared_eq]
  refine commitChecks_of hr.writes (covers_running ha hr hvalid) hvalid fun row hrow => ?_
  rw [preparedOf_eq]
  have hpos := (burst_bounds ha hr hvalid hrow).1
  refine List.ne_nil_of_length_pos ?_
  change 0 < (row.committedTokenIds.take (q.burstLength cfg row)).length
  rw [show (row.committedTokenIds.take (q.burstLength cfg row)).length = q.burstLength cfg row from
    (q.seqs row.seqId).length_burst cfg row.committedTokenIds]
  exact hpos

include h

/-- The call returns exactly when no row had more blocks before the lease than it then needs. -/
private theorem returns_iff : (∃ events u, commitSpeculative cfg tr.plan result q = .ok events u) ↔
    ∀ row ∈ result.rows, ∀ lease ∈ tr.reservation.rows, lease.sequence = row.seqId →
      lease.blockTableBefore.length ≤ pagesFor cfg.kvcacheBlockSize
        ((q.seqs row.seqId).numTokens + q.burstLength cfg row - 1) := by
  obtain ⟨base, rows, -, hl, hcore, -⟩ := hr.leased h
  have hchecks := checks_ok ha hr hvalid
  have hseq := sequences_eq hl hvalid
  have hkeeps := hl.keeps_iff cfg hcore.own.poolOk hseq
  constructor
  · rintro ⟨events, u, hok⟩
    rcases commitSpeculative_cases tr.plan result hl hcore hr.active h.progress h.internal with
      ⟨e, f, hres⟩ | ⟨events', u', hres, hquiet⟩
    · rw [hok] at hres
      exact absurd hres (by simp)
    obtain ⟨prepared, desired, hc, hdes, -, -⟩ := hquiet h.fault
    rw [hc.prepared_eq, prepared_eq] at hdes
    intro row hrow lease hlease hsame
    exact (hkeeps.mp ⟨desired, hdes⟩ _ (List.mem_map_of_mem hrow) lease hlease hsame).1
  · intro hall
    obtain ⟨desired, hdes⟩ := hkeeps.mpr fun prepared hprepared lease hlease hsame => by
      obtain ⟨row, hrow, rfl⟩ := List.mem_map.mp hprepared
      refine ⟨hall row hrow lease hlease hsame, ?_⟩
      have hreach := (burst_bounds ha hr hvalid hrow).2
      rw [← hl.lease_tables hlease, show lease.sequence = row.seqId from hsame]
      exact (pagesFor_le_iff cfg.blockSize_pos).mpr hreach
    exact ⟨_, _, commitSpeculative_ok hl hcore hr.active h.progress h.internal h.fault hchecks hdes⟩

/-- Whenever the call returns, it did all it should. -/
private theorem commit_exact (hh : Hashed cfg q.unleased) {events : List StreamOutput}
    (hok : commitSpeculative cfg tr.plan result q = .ok events u) :
    CommitExact cfg q tr result u := by
  obtain ⟨base, rows, hd, hl, hcore, hrows⟩ := hr.leased h
  rw [hl.unleased hd] at hh
  have hreturns := (returns_iff h ha hr hvalid).mp ⟨events, u, hok⟩
  obtain ⟨hids, -, hall⟩ := validateResult_ok hvalid
  have hbatch := covers_running ha hr hvalid
  have hpu : Protocol cfg u := by
    have hleaves := (h.leaves_commit tr.plan result).1
    rwa [hok] at hleaves
  rcases commitSpeculative_cases tr.plan result hl hcore hr.active h.progress h.internal with
    ⟨e, f, hres⟩ | ⟨events', u', hres, hquiet⟩
  · rw [hok] at hres
    exact absurd hres (by simp)
  rw [hok] at hres
  obtain ⟨rfl, rfl⟩ := EStateM.Result.ok.inj hres
  obtain ⟨prepared, desired, hc, hdes, -, hafter⟩ := hquiet h.fault
  have htrim := hc.trims h hl hcore hrows hh (ha.supported tr hr.active) hdes
  obtain ⟨w, hw⟩ : ∃ w, w = base.lend (keptRows desired) := ⟨_, rfl⟩
  have hprep := hc.prepared_eq
  rw [prepared_eq] at hprep
  subst hprep
  rw [← hw] at htrim hafter
  have hcommitted : ∀ row ∈ result.rows, RowCommitted cfg q tr.plan.effectiveK row u ∧
      (u.Ended cfg q row ↔ (w.seqs row.seqId).burstEnds cfg (row.burst cfg q tr.plan.effectiveK) =
        true) := by
    intro row hrow
    obtain ⟨snapshot, -, hacc⟩ := hall row hrow
    have hpos := (burst_bounds ha hr hvalid hrow).1
    have hmem := List.mem_map_of_mem (f := SpecRowResult.burst cfg q tr.plan.effectiveK) hrow
    have hone := htrim.committed_row hmem
    rw [← hafter] at hone
    refine ⟨.of hpos hacc.status (htrim.table row.seqId) (htrim.length _ hmem) hone, ?_⟩
    rw [htrim.row]
    exact (burstEnds_iff hpos hone).symm
  have hpublished := htrim.published
  rw [← hafter] at hpublished
  have hsequences : (result.rows.map (SpecRowResult.burst cfg q tr.plan.effectiveK)).map
      PreparedRow.sequence = q.running := by
    rw [sequences_eq hl hvalid, ← hl.sequences, hbatch]
  exact {
    rows := fun row hrow => (hcommitted row hrow).1
    kept := fun row hrow lease hlease hsame => by
      refine ⟨hreturns row hrow lease hlease hsame, ?_⟩
      rw [← hl.lease_tables hlease, hsame]
      exact (pagesFor_le_iff cfg.blockSize_pos).mpr (burst_bounds ha hr hvalid hrow).2
    others := fun y hy => by
      rw [hafter]
      exact htrim.other_row fun hmem => hy (hsequences ▸ hmem)
    running := by
      have hqueue := htrim.queue (nodup_running hcore hl)
      rw [← hafter] at hqueue
      refine hqueue.trans (List.filter_congr fun x hx => ?_)
      rw [← hsequences] at hx
      obtain ⟨p, hp, rfl⟩ := List.mem_map.mp hx
      obtain ⟨row, hrow, rfl⟩ := List.mem_map.mp hp
      obtain ⟨hdone, hends⟩ := hcommitted row hrow
      rw [any_sequence htrim.bursts.distinct hp]
      change (!(w.seqs row.seqId).burstEnds cfg (row.burst cfg q tr.plan.effectiveK)) =
        decide ((u.seqs row.seqId).status ≠ .finished)
      by_cases hend : u.Ended cfg q row
      · rw [hends.mp hend, (hdone.ended hend).1]
        rfl
      · rw [Bool.eq_false_iff.mpr (mt hends.mpr hend), (hdone.going hend).1]
        rfl
    published := hpublished
    ordinary := fun row hrow i b hdone turns y c hy hcov hentry htokens => by
      have hshows := (hashed_runTurns cfg turns).chained y hy i c hcov hentry
      have hdigest := hpublished.completed _ (List.mem_map_of_mem hrow) i b hdone
      rw [(hcommitted row hrow).1.tokens] at htokens
      rw [hshows.hash, hdigest.hash, chainHash, chainHash, blocksBelow_congr htokens le_rfl]
      rfl
    owned := hpu.core.owned
    control := by
      rw [hafter]
      exact htrim.control_eq }

end Commit

/-- The turns, and the calls that open and prepare a transaction after them. -/
def preparedTurns (cfg : Config) (turns : List Turn) (batch : List Nat)
    (admission : DraftRouteAdmission) : List Turn :=
  let planned := turns ++ [.call .schedule, .call (.plan
    (SpeculativeMemoryPlan.sample.workspace .sample "fast") batch (some admission) none)]
  planned ++ (runTurns cfg planned).activeSpecTransaction.toList.map fun tr =>
    .call (.prepare tr.plan)

def readyFor (cfg : Config) (q : State) (rows : List SpecRowResult)
    (facts : ActiveSpecTransaction → Bool) : Bool :=
  q.activeSpecTransaction.any fun tr => tr.targetWritesPrepared &&
    decide (q.activeReservation = some tr.reservation) &&
    (validateResult cfg q tr.plan (tr.plan.answered rows)
      (tr.reservation.rows.map TemporaryReservationRow.sequence)).isOk && facts tr

private theorem ready_of {rows : List SpecRowResult} {facts : ActiveSpecTransaction → Bool}
    (h : readyFor cfg q rows facts = true) : ∃ tr : ActiveSpecTransaction, tr.Ready q ∧
      validateResult cfg q tr.plan (tr.plan.answered rows)
        (tr.reservation.rows.map TemporaryReservationRow.sequence) = .ok ⟨⟩ ∧ facts tr = true := by
  unfold readyFor at h
  obtain ⟨tr, htr⟩ : ∃ tr, q.activeSpecTransaction = some tr := by
    cases htr : q.activeSpecTransaction with
    | none => simp [htr] at h
    | some tr => exact ⟨tr, rfl⟩
  rw [htr, Option.any_some] at h
  simp only [Bool.and_eq_true, decide_eq_true_iff] at h
  obtain ⟨⟨⟨hwrites, hlive⟩, hvalid⟩, hfacts⟩ := h
  refine ⟨tr, ⟨htr, hwrites, hlive⟩, ?_, hfacts⟩
  cases hres : validateResult cfg q tr.plan (tr.plan.answered rows)
      (tr.reservation.rows.map TemporaryReservationRow.sequence) with
  | ok a => rfl
  | error e =>
    rw [hres] at hvalid
    exact absurd hvalid (by simp [Except.isOk, Except.toBool])

end NanoVllm
