/- module: NanoVllm/Speculation/CommitCall
   layer: refinement
   source: nanovllm/engine/scheduler.py, Scheduler.commit_speculative
   digest: A commit call returns the committed state, or raises with the transaction as it was. -/

import NanoVllm.Speculation.Commit
import NanoVllm.Ownership.Ledger

set_option autoImplicit false
set_option relaxedAutoImplicit false

namespace NanoVllm

open Library

variable {cfg : Config} {s t base : State} {rows : List (Nat × List Nat)}
  {r : TemporaryBlockReservation} {x : Nat} {xs : List Nat} {α β : Type}

/-- `t` differs from `s` in the pool, the rows `xs`, the running queue and the failure
countdown only. -/
structure Framed (xs : List Nat) (s t : State) : Prop where
  outside : ∀ y, y ∉ xs → t.seqs y = s.seqs y
  control : t.control = { s.control with running := t.running, fault := t.fault }

private theorem Framed.refl (xs : List Nat) (s : State) : Framed xs s s := ⟨fun _ _ => rfl, rfl⟩

private theorem Framed.trans {u : State} (h : Framed xs s t) (h' : Framed xs t u) : Framed xs s u where
  outside y hy := (h'.outside y hy).trans (h.outside y hy)
  control := by rw [h'.control, h.control]

private theorem Framed.of_control (hout : ∀ y, y ∉ xs → t.seqs y = s.seqs y)
    (hc : t.control = s.control) : Framed xs s t where
  outside := hout
  control := by
    rw [show t.running = s.running from congrArg Control.running hc,
      show t.fault = s.fault from congrArg Control.fault hc, hc]
    rfl

private theorem Framed.reservation (h : Framed xs s t) : t.activeReservation = s.activeReservation :=
  congrArg Control.activeReservation h.control

def Frames (xs : List Nat) (c : Call α) : Prop :=
  ∀ s : State, s.activeReservation = none → Call.Leaves c s (Framed xs s)

private theorem Frames.bind {c : Call α} {k : α → Call β} (hc : Frames xs c)
    (hk : ∀ a, Frames xs (k a)) :
    Frames xs (c >>= k) := by
  intro s hs
  refine (hc s hs).bind fun a t _ ht => ?_
  exact ht.trans (hk a t (ht.reservation.trans hs))

private theorem Frames.get_bind {k : State → Call β}
    (hk : ∀ s : State, s.activeReservation = none → Call.Leaves (k s) s (Framed xs s)) :
    Frames xs (get >>= k) := by
  intro s hs
  change Framed xs s (Call.after ((get >>= k) s))
  rw [Call.bind_of_ok (Call.get_apply s)]
  exact hk s hs

private theorem Framed.set_bind {u : State} {k : PUnit → Call β} (hu : Framed xs s u)
    (hk : Call.Leaves (k ⟨⟩) u (Framed xs u)) : Call.Leaves (set u >>= k) s (Framed xs s) := by
  change Framed xs s (Call.after ((set u >>= k) s))
  rw [Call.bind_of_ok (Call.set_apply s u)]
  exact hu.trans hk

private theorem Frames.pure (a : α) : Frames xs (pure a : Call α) := fun s _ => .refl xs s

private theorem Frames.modify {f : State → State} (hf : ∀ s, Framed xs s (f s)) :
    Frames xs (modify f : Call PUnit) := fun s _ => hf s

private theorem framed_setSeq (hx : x ∈ xs) (s : State) (seq : Sequence) :
    Framed xs s (s.setSeq x seq) := by
  refine .of_control (fun y hy => ?_) (s.setSeq_control x seq)
  rw [State.setSeq_seqs, Function.update_of_ne]
  exact fun heq => hy (heq ▸ hx)

private theorem Frames.modifySeq (hx : x ∈ xs) (f : Sequence → Sequence) :
    Frames xs (modifySeq x f) := .modify fun s => framed_setSeq hx s _

private theorem framed_withFault (s : State) (f : Option Nat) : Framed xs s (s.withFault f) :=
  ⟨fun _ _ => rfl, rfl⟩

private theorem Frames.tick : Frames xs tick := by
  intro s _
  change Framed xs s (Call.after (NanoVllm.tick s))
  rcases tick_cases s with ⟨f, hf⟩ | hf
  · rw [hf]
    exact framed_withFault s f
  · rw [hf]
    exact framed_withFault s none

private theorem Frames.assertAllowed (operation : String) (internal : Bool) :
    Frames xs (assertAllocatorMutationAllowed operation internal) := by
  unfold assertAllocatorMutationAllowed
  apply Frames.get_bind
  intro s _
  dsimp only
  split
  · exact .refl xs s
  · exact .refl xs s

private theorem Frames.removeRunning (x : Nat) : Frames xs (removeRunning x) := by
  unfold NanoVllm.removeRunning
  apply Frames.get_bind
  intro s _
  split
  · exact .refl xs s
  · exact ⟨fun _ _ => rfl, rfl⟩

private theorem Frames.hashBlocksLoop (x : Nat) : ∀ (is : List Nat) (parent : Option Nat),
    Frames xs (hashBlocksLoop cfg x is parent) := by
  intro is
  induction is with
  | nil => exact fun _ => .pure _
  | cons i is ih =>
    intro parent
    unfold NanoVllm.hashBlocksLoop
    apply Frames.tick.bind
    intro _
    apply Frames.get_bind
    intro s hs
    dsimp only
    split
    · exact .refl xs s
    · split
      · exact .refl xs s
      · rename_i b _ _
        obtain ⟨u, hu⟩ : ∃ u, u = s.publish b (cfg.computeHash ((s.seqs x).block cfg i) parent)
          ((s.seqs x).block cfg i) := ⟨_, rfl⟩
        have hframe : Framed xs s u := by
          rw [hu]
          exact .of_control (fun _ _ => rfl) rfl
        rw [← hu]
        exact hframe.set_bind (ih _ u (hframe.reservation.trans hs))

private theorem Frames.hashBlocks (x : Nat) : Frames xs (hashBlocks cfg x) := by
  unfold NanoVllm.hashBlocks
  apply (Frames.assertAllowed _ _).bind
  intro _
  apply Frames.get_bind
  intro s hs
  dsimp only
  split
  · exact .refl xs s
  · split
    · split
      · exact .refl xs s
      · exact Frames.hashBlocksLoop x _ _ s hs
    · exact Frames.hashBlocksLoop x _ _ s hs

private theorem Frames.deallocateBlock (b : Nat) : Frames xs (deallocateBlock b) := by
  unfold NanoVllm.deallocateBlock
  apply (Frames.assertAllowed _ _).bind
  intro _
  apply Frames.tick.bind
  intro _
  apply Frames.get_bind
  intro s _
  dsimp only
  split
  · exact .refl xs s
  · split
    · exact .refl xs s
    · exact .of_control (fun _ _ => rfl) rfl

private theorem Frames.releaseBlocks : ∀ ids : List Nat, Frames xs (releaseBlocks ids) := by
  intro ids
  induction ids with
  | nil => exact .pure _
  | cons b ids ih =>
    unfold NanoVllm.releaseBlocks
    refine Frames.bind (Frames.modify fun s => .of_control (fun _ _ => rfl) rfl) fun _ => ?_
    apply Frames.get_bind
    intro s hs
    dsimp only
    split
    · exact ((Frames.deallocateBlock b).bind fun _ => ih) s hs
    · exact ih s hs

private theorem Frames.deallocate (hx : x ∈ xs) : Frames xs (deallocate x) := by
  unfold NanoVllm.deallocate
  apply Frames.get_bind
  intro s hs
  rw [hs]
  dsimp only
  refine Frames.bind (Frames.assertAllowed _ _) (fun _ => Frames.get_bind fun t ht => ?_) s hs
  exact ((Frames.releaseBlocks _).bind fun _ => Frames.modifySeq hx _) t ht

private theorem Frames.commitRow {row : PreparedRow} (hx : row.sequence ∈ xs) :
    Frames xs (commitRow cfg row) := by
  unfold NanoVllm.commitRow
  apply Frames.tick.bind
  intro _
  apply (Frames.modifySeq hx _).bind
  intro _
  apply (Frames.hashBlocks _).bind
  intro _
  apply (Frames.modifySeq hx _).bind
  intro _
  apply Frames.get_bind
  intro s hs
  dsimp only
  split
  · exact ((Frames.modifySeq hx _).bind fun _ => (Frames.deallocate hx).bind fun _ =>
      (Frames.removeRunning _).bind fun _ => .pure _) s hs
  · exact .refl xs s

variable (cfg) in
private theorem Frames.commitRows : ∀ {prepared : List PreparedRow},
    (∀ row ∈ prepared, row.sequence ∈ xs) → Frames xs (commitRows cfg prepared) := by
  intro prepared
  induction prepared with
  | nil => exact fun _ => .pure _
  | cons row prepared ih =>
    intro h
    unfold NanoVllm.commitRows
    apply (Frames.commitRow (h row (by simp))).bind
    intro _
    exact (ih fun q hq => h q (List.mem_cons_of_mem row hq)).bind fun _ => .pure _

def preparedOf (cfg : Config) (s : State) (k : Nat) (row : SpecRowResult) : PreparedRow :=
  let seq := s.seqs row.seqId
  let tokens := committedBurst cfg seq row.committedTokenIds seq.numCompletionTokens
  { sequence := row.seqId
    tokens := tokens
    cached := seq.numTokens + tokens.length - 1
    draftCached := min (seq.numTokens + tokens.length - 1) (seq.numTokens + k - 1) }

structure Accepted (cfg : Config) (s : State) (k : Nat) (snapshot : SpecPlanRow)
    (row : SpecRowResult) : Prop where
  snapshot_id : snapshot.seqId = row.seqId
  numTokens : (s.seqs row.seqId).numTokens = snapshot.committedTokens
  cached : (s.seqs row.seqId).numCachedTokens = snapshot.targetCachedTokens
  draft : (s.seqs row.seqId).numDraftCachedTokens = snapshot.draftCachedTokens
  table : (s.seqs row.seqId).blockTable = snapshot.blockTable
  scheduled : (s.seqs row.seqId).numScheduledTokens = 1
  decode : (s.seqs row.seqId).isPrefill = false
  status : (s.seqs row.seqId).status = .running
  remaining : ((s.seqs row.seqId).maxTokens : Int) - (s.seqs row.seqId).numCompletionTokens =
    snapshot.remainingCompletionTokens
  accepted_le : row.acceptedDraftTokens ≤ k
  proposed : row.proposedTokenIds.length = k
  committed : row.committedTokenIds.length = row.acceptedDraftTokens + 1
  agrees : row.committedTokenIds.take row.acceptedDraftTokens =
    row.proposedTokenIds.take row.acceptedDraftTokens

private theorem validateResultRow_ok {k : Nat} {snapshot : SpecPlanRow} {row : SpecRowResult}
    (h : validateResultRow cfg s k snapshot row x = .ok ⟨⟩) :
    row.seqId = x ∧ Accepted cfg s k snapshot row := by
  unfold validateResultRow at h
  obtain ⟨hid, h⟩ := Call.except_guard h
  simp only [not_or, not_not] at hid
  obtain ⟨hsnap, rfl⟩ := hid
  obtain ⟨hseq, h⟩ := Call.except_guard h
  simp only [not_or, not_not, Bool.not_eq_true] at hseq
  obtain ⟨hnum, hcached, hdraft, htable, hsched, hpre, hstatus, hrem⟩ := hseq
  obtain ⟨hacc, h⟩ := Call.except_guard h
  obtain ⟨-, h⟩ := Call.except_guard h
  obtain ⟨-, h⟩ := Call.except_guard h
  obtain ⟨-, h⟩ := Call.except_guard h
  obtain ⟨hprop, h⟩ := Call.except_guard h
  obtain ⟨hcom, h⟩ := Call.except_guard h
  obtain ⟨hagree, -⟩ := Call.except_guard h
  exact ⟨rfl, hsnap.symm, hnum, hcached, hdraft, htable, hsched, hpre, hstatus, hrem,
    Nat.le_of_not_lt hacc, not_not.mp hprop, not_not.mp hcom, not_not.mp hagree⟩

private theorem validateResultRows_ok {k : Nat} : ∀ {snapshots : List SpecPlanRow}
    {results : List SpecRowResult} {xs : List Nat},
    validateResultRows cfg s k snapshots results xs = .ok ⟨⟩ →
      results.map SpecRowResult.seqId = xs ∧ snapshots.map SpecPlanRow.seqId = xs ∧
      ∀ row ∈ results, ∃ snapshot ∈ snapshots, Accepted cfg s k snapshot row := by
  intro snapshots
  induction snapshots with
  | nil =>
    intro results xs h
    cases results with
    | nil =>
      cases xs with
      | nil => exact ⟨rfl, rfl, by simp⟩
      | cons x xs => exact absurd h (by simp [validateResultRows, throw, throwThe,
          MonadExceptOf.throw])
    | cons row results => exact absurd h (by simp [validateResultRows, throw, throwThe,
        MonadExceptOf.throw])
  | cons snapshot snapshots ih =>
    intro results xs h
    cases results with
    | nil => exact absurd h (by simp [validateResultRows, throw, throwThe, MonadExceptOf.throw])
    | cons row results =>
      cases xs with
      | nil => exact absurd h (by simp [validateResultRows, throw, throwThe, MonadExceptOf.throw])
      | cons x xs =>
        obtain ⟨⟨⟩, hrow, h⟩ := Call.except_bind_ok h
        obtain ⟨hid, hacc⟩ := validateResultRow_ok hrow
        obtain ⟨hres, hsnap, hall⟩ := ih h
        refine ⟨by rw [List.map_cons, hid, hres], ?_, ?_⟩
        · rw [List.map_cons, hacc.snapshot_id, hid, hsnap]
        · intro q hq
          rcases List.mem_cons.mp hq with rfl | hq
          · exact ⟨snapshot, by simp, hacc⟩
          · obtain ⟨found, hfound, hq⟩ := hall q hq
            exact ⟨found, List.mem_cons_of_mem snapshot hfound, hq⟩

theorem validateResult_ok {plan : SpecStepPlan} {result : SpecExecutionResult}
    (h : validateResult cfg s plan result xs = .ok ⟨⟩) :
    result.rows.map SpecRowResult.seqId = xs ∧ plan.rows.map SpecPlanRow.seqId = xs ∧
      ∀ row ∈ result.rows, ∃ snapshot ∈ plan.rows,
        Accepted cfg s plan.effectiveK snapshot row := by
  unfold validateResult at h
  obtain ⟨-, h⟩ := Call.except_guard h
  obtain ⟨-, h⟩ := Call.except_guard h
  obtain ⟨-, h⟩ := Call.except_guard h
  obtain ⟨-, h⟩ := Call.except_guard h
  exact validateResultRows_ok h

private theorem prepareCommitRows_ok {k : Nat} : ∀ {results : List SpecRowResult}
    {prepared : List PreparedRow},
    prepareCommitRows cfg s k (results.map SpecRowResult.seqId) results = .ok prepared →
      prepared = results.map (preparedOf cfg s k) ∧
      ∀ row ∈ results, (preparedOf cfg s k row).tokens ≠ [] := by
  intro results
  induction results with
  | nil =>
    intro prepared h
    exact ⟨(Except.ok.inj h).symm, by simp⟩
  | cons row results ih =>
    intro prepared h
    obtain ⟨first, hfirst, h⟩ := Call.except_bind_ok h
    obtain ⟨more, hmore, h⟩ := Call.except_bind_ok h
    obtain ⟨hrest, hne⟩ := ih hmore
    have hprep : first = preparedOf cfg s k row ∧ (preparedOf cfg s k row).tokens ≠ [] := by
      unfold prepareCommitRow at hfirst
      dsimp only at hfirst
      split at hfirst
      · exact absurd hfirst (by simp [throw, throwThe, MonadExceptOf.throw])
      · rename_i htok
        exact ⟨(Except.ok.inj hfirst).symm, htok⟩
    refine ⟨?_, ?_⟩
    · rw [List.map_cons, ← hprep.1, ← hrest]
      exact (Except.ok.inj h).symm
    · intro q hq
      rcases List.mem_cons.mp hq with rfl | hq
      · exact hprep.2
      · exact hne q hq

structure Committable (cfg : Config) (s : State) (tr : ActiveSpecTransaction)
    (plan : SpecStepPlan) (result : SpecExecutionResult) (prepared : List PreparedRow) :
    Prop where
  plan_eq : tr.plan = plan
  writes : tr.targetWritesPrepared = true
  lease : tr.reservation.rows.map TemporaryReservationRow.sequence = s.running
  results : result.rows.map SpecRowResult.seqId = s.running
  planned : plan.rows.map SpecPlanRow.seqId = s.running
  prepared_eq : prepared = result.rows.map (preparedOf cfg s plan.effectiveK)
  accepted : ∀ row ∈ result.rows, ∃ snapshot ∈ plan.rows,
    Accepted cfg s plan.effectiveK snapshot row
  nonempty : ∀ row ∈ result.rows, (preparedOf cfg s plan.effectiveK row).tokens ≠ []

theorem commitChecks_ok {tr : ActiveSpecTransaction} {plan : SpecStepPlan}
    {result : SpecExecutionResult} {prepared : List PreparedRow}
    (h : commitChecks cfg s tr plan result = .ok prepared) :
    Committable cfg s tr plan result prepared := by
  unfold commitChecks at h
  obtain ⟨hplan, h⟩ := Call.except_guard h
  obtain ⟨hlease, h⟩ := Call.except_guard h
  obtain ⟨⟨⟩, hres, h⟩ := Call.except_bind_ok h
  obtain ⟨hids, hsnap, hacc⟩ := validateResult_ok hres
  simp only [not_or, not_not, Bool.not_eq_false] at hplan hlease
  rw [← hids] at h
  obtain ⟨hprep, hne⟩ := prepareCommitRows_ok h
  exact ⟨hplan.1, hplan.2, hlease, hids.trans hlease, hsnap.trans hlease, hprep, hacc, hne⟩

private theorem prepareCommitRows_of {k : Nat} {results : List SpecRowResult}
    (h : ∀ row ∈ results, (preparedOf cfg s k row).tokens ≠ []) :
    prepareCommitRows cfg s k (results.map SpecRowResult.seqId) results =
      .ok (results.map (preparedOf cfg s k)) := by
  induction results with
  | nil => rfl
  | cons row results ih =>
    have hfirst : prepareCommitRow cfg s k row.seqId row = .ok (preparedOf cfg s k row) := by
      exact if_neg (h row List.mem_cons_self)
    rw [List.map_cons, prepareCommitRows, hfirst, ih fun q hq => h q (List.mem_cons_of_mem row hq)]
    rfl

theorem commitChecks_of {tr : ActiveSpecTransaction} {result : SpecExecutionResult}
    (hwrites : tr.targetWritesPrepared = true)
    (hlease : tr.reservation.rows.map TemporaryReservationRow.sequence = s.running)
    (hvalid : validateResult cfg s tr.plan result
      (tr.reservation.rows.map TemporaryReservationRow.sequence) = .ok ⟨⟩)
    (hne : ∀ row ∈ result.rows, (preparedOf cfg s tr.plan.effectiveK row).tokens ≠ []) :
    commitChecks cfg s tr tr.plan result =
      .ok (result.rows.map (preparedOf cfg s tr.plan.effectiveK)) := by
  obtain ⟨hids, -, -⟩ := validateResult_ok hvalid
  unfold commitChecks
  rw [if_neg (by simp [hwrites]), if_neg (not_not.mpr hlease), hvalid, ← hids]
  exact prepareCommitRows_of hne

section Trim

variable {prepared : List PreparedRow} {desired : List (TemporaryReservationRow × Nat)}

private theorem keepCounts_fst (cfg : Config) : ∀ {prepared : List PreparedRow}
    {lease : List TemporaryReservationRow}, prepared.length = lease.length →
      (List.zipWith (keepCount cfg) prepared lease).map Prod.fst =
        prepared.map PreparedRow.sequence := by
  intro prepared
  induction prepared with
  | nil => exact fun _ => rfl
  | cons row prepared ih =>
    intro lease h
    cases lease with
    | nil => exact absurd h (by simp)
    | cons first lease =>
      rw [List.zipWith_cons_cons, List.map_cons, List.map_cons, ih (Nat.succ.inj h)]
      rfl

/-- The counts of a commit are one for each row, taken with the lease of that row. -/
private theorem mem_keepCounts {e : Nat × Int} : ∀ {prepared : List PreparedRow}
    {lease : List TemporaryReservationRow}, (prepared.map PreparedRow.sequence).Nodup →
    prepared.map PreparedRow.sequence = lease.map TemporaryReservationRow.sequence →
      (e ∈ List.zipWith (keepCount cfg) prepared lease ↔
        ∃ row ∈ prepared, ∃ l ∈ lease, l.sequence = row.sequence ∧ e = keepCount cfg row l) := by
  intro prepared
  induction prepared with
  | nil => simp
  | cons row prepared ih =>
    intro lease hnd hseq
    cases lease with
    | nil => exact absurd hseq (by simp)
    | cons first lease =>
      rw [List.map_cons, List.map_cons, List.cons.injEq] at hseq
      rw [List.map_cons, List.nodup_cons] at hnd
      have hout : ∀ l ∈ lease, l.sequence ≠ row.sequence := by
        intro l hl heq
        refine hnd.1 ?_
        rw [hseq.2, ← heq]
        exact List.mem_map_of_mem hl
      have hout' : ∀ q ∈ prepared, first.sequence ≠ q.sequence := by
        intro q hq heq
        refine hnd.1 ?_
        rw [hseq.1, heq]
        exact List.mem_map_of_mem hq
      rw [List.zipWith_cons_cons, List.mem_cons, ih hnd.2 hseq.2]
      constructor
      · rintro (rfl | ⟨q, hq, l, hl, hql, rfl⟩)
        · exact ⟨row, List.mem_cons_self, first, List.mem_cons_self, hseq.1.symm, rfl⟩
        · exact ⟨q, List.mem_cons_of_mem _ hq, l, List.mem_cons_of_mem _ hl, hql, rfl⟩
      · rintro ⟨q, hq, l, hl, hql, rfl⟩
        rcases List.mem_cons.mp hq with rfl | hq <;> rcases List.mem_cons.mp hl with rfl | hl
        · exact Or.inl rfl
        · exact absurd hql (hout l hl)
        · exact absurd hql (hout' q hq)
        · exact Or.inr ⟨q, hq, l, hl, hql, rfl⟩

theorem Leased.kept_length (h : Leased base rows t r)
    (hseq : prepared.map PreparedRow.sequence = rows.map Prod.fst)
    (hdes : desiredRetention r (List.zipWith (keepCount cfg) prepared r.rows) = .ok desired)
    {row : PreparedRow} (hrow : row ∈ prepared) :
    ((base.lend (keptRows desired)).table row.sequence).length =
      pagesFor cfg.kvcacheBlockSize row.cached := by
  obtain ⟨hfst, hcounts, -, -⟩ := desiredRetention_ok hdes
  have hlease := hseq.trans h.sequences.symm
  have hnd : (prepared.map PreparedRow.sequence).Nodup := by
    rw [hseq]
    exact h.distinct
  have hlen : prepared.length = r.rows.length := by simpa using congrArg List.length hlease
  obtain ⟨lease, hmem, hsame⟩ : ∃ lease ∈ r.rows, lease.sequence = row.sequence := by
    have hin := List.mem_map_of_mem (f := PreparedRow.sequence) hrow
    rw [hlease] at hin
    exact List.mem_map.mp hin
  have hkeep : keepCount cfg row lease ∈ List.zipWith (keepCount cfg) prepared r.rows :=
    (mem_keepCounts hnd hlease).mpr ⟨row, hrow, lease, hmem, hsame, rfl⟩
  have hfind := find_of_nodup (by rw [keepCounts_fst cfg hlen]; exact hnd) hkeep
  obtain ⟨e, he, hefst⟩ : ∃ e ∈ desired, e.1 = lease := by
    rw [← hfst] at hmem
    simpa using hmem
  have hcount := hcounts e he
  unfold retainedCount at hcount
  have hkey : (keepCount cfg row lease).1 = e.1.sequence := by
    rw [hefst, hsame]
    rfl
  rw [← hkey, hfind] at hcount
  dsimp only at hcount
  split at hcount
  · exact absurd hcount (by simp [throw, throwThe, MonadExceptOf.throw])
  · rename_i hrange
    have hnum := Except.ok.inj hcount
    have hbefore : lease.blockTableBefore = base.table row.sequence := by
      rw [← hsame]
      have hsaved : Saved base lease := leaseRecordRows_saved lease
        (by rw [h.record] at hmem; exact hmem)
      exact hsaved.table
    have hlent : lentTo (keptRows desired) row.sequence = retainRow e := by
      apply lentTo_of_mem
      · rw [keptRows_fst, hfst, h.sequences]
        exact h.distinct
      · rw [← hsame, ← hefst]
        exact List.mem_map_of_mem he
    rw [State.lend_table, hlent, List.length_append, retainRow, List.length_take, hefst, ← hbefore,
      ← hnum]
    rw [hefst] at hrange
    simp only [keepCount, not_or, not_lt] at hrange ⊢
    unfold pagesFor
    omega

variable (cfg) in
/-- A commit may trim its lease exactly when the table of each row, as it was before the lease
and with it, bounds what the row's burst leaves cached. -/
theorem Leased.keeps_iff (h : Leased base rows t r) (hok : PoolOk base)
    (hseq : prepared.map PreparedRow.sequence = rows.map Prod.fst) :
    (∃ desired, desiredRetention r (List.zipWith (keepCount cfg) prepared r.rows) = .ok desired) ↔
      ∀ row ∈ prepared, ∀ lease ∈ r.rows, lease.sequence = row.sequence →
        lease.blockTableBefore.length ≤ pagesFor cfg.kvcacheBlockSize row.cached ∧
        pagesFor cfg.kvcacheBlockSize row.cached ≤
          lease.blockTableBefore.length + lease.appendedBlockIds.length := by
  have hlease := hseq.trans h.sequences.symm
  have hnd : (prepared.map PreparedRow.sequence).Nodup := by
    rw [hseq]
    exact h.distinct
  have hlen : prepared.length = r.rows.length := by simpa using congrArg List.length hlease
  rw [h.desired_iff hok]
  constructor
  · rintro ⟨-, hwithin⟩ row hrow lease hl hsame
    have hmem : keepCount cfg row lease ∈ List.zipWith (keepCount cfg) prepared r.rows :=
      (mem_keepCounts hnd hlease).mpr ⟨row, hrow, lease, hl, hsame, rfl⟩
    have hpair : keepCount cfg row lease = (lease.sequence, (keepCount cfg row lease).2) := by
      rw [hsame]
      rfl
    rw [hpair] at hmem
    have hrange := hwithin lease hl _ hmem
    simp only [keepCount] at hrange
    unfold pagesFor
    omega
  · intro hall
    refine ⟨by rw [keepCounts_fst cfg hlen, hlease], fun lease hl n hn => ?_⟩
    obtain ⟨row, hrow, l, hl', hsame, heq⟩ := (mem_keepCounts hnd hlease).mp hn
    obtain ⟨hfst, rfl⟩ := Prod.mk.inj heq
    have hll : lease.sequence = l.sequence := hfst.trans hsame.symm
    have hunique : lease = l := by
      have hndl : (r.rows.map TemporaryReservationRow.sequence).Nodup := by
        rw [h.sequences]
        exact h.distinct
      exact List.inj_on_of_nodup_map hndl hl hl' hll
    have hrange := hall row hrow l hl' hsame
    rw [hunique]
    unfold pagesFor at hrange
    omega

theorem Leased.kept_core (h : Leased base rows t r) (hcore : Core cfg [] base)
    (hfst : desired.map Prod.fst = r.rows) (hrows : ∀ e ∈ rows, e.1 ∈ base.running) :
    Core cfg [] (base.lend (keptRows desired)) := by
  obtain ⟨hnd, hfree⟩ := h.kept_free hcore.own.poolOk hfst
  refine hcore.lend ?_ hnd hfree
  intro e he
  have hmem : e.1 ∈ (keptRows desired).map Prod.fst := List.mem_map_of_mem he
  rw [keptRows_fst, hfst, h.sequences] at hmem
  obtain ⟨q, hq, heq⟩ := List.mem_map.mp hmem
  rw [← heq]
  exact hrows q hq

theorem Committable.distinct {tr : ActiveSpecTransaction} {plan : SpecStepPlan}
    {result : SpecExecutionResult} (hc : Committable cfg t tr plan result prepared)
    (h : Leased base rows t tr.reservation) :
    prepared.map PreparedRow.sequence = rows.map Prod.fst := by
  rw [hc.prepared_eq, List.map_map, ← h.sequences, hc.lease, ← hc.results]
  rfl

theorem Committable.bursts {tr : ActiveSpecTransaction} {plan : SpecStepPlan}
    {result : SpecExecutionResult} (hc : Committable cfg t tr plan result prepared)
    (h : Leased base rows t tr.reservation) (hcore : Core cfg [] base)
    (hdes : desiredRetention tr.reservation
      (List.zipWith (keepCount cfg) prepared tr.reservation.rows) = .ok desired) :
    Bursts cfg (base.lend (keptRows desired)) prepared := by
  have hseq := hc.distinct h
  have hrunning : base.running = t.running := congrArg Control.running h.control
  refine ⟨by rw [hseq]; exact h.distinct, ?_, ?_⟩
  · intro row hrow
    change row.sequence ∈ base.running
    rw [hrunning, ← hc.lease, h.sequences, ← hseq]
    exact List.mem_map_of_mem hrow
  · intro row hrow
    have hlen := h.kept_length hseq hdes hrow
    have hin : row.sequence ∈ base.running := by
      rw [hrunning, ← hc.lease, h.sequences, ← hseq]
      exact List.mem_map_of_mem hrow
    have hstarted := hcore.started row.sequence (by simpa using hin)
    rw [hc.prepared_eq] at hrow
    obtain ⟨result', hresult, rfl⟩ := List.mem_map.mp hrow
    have hne := hc.nonempty result' hresult
    have hpos : 0 < (preparedOf cfg t plan.effectiveK result').tokens.length :=
      List.length_pos_of_ne_nil hne
    have hnum : ((base.lend (keptRows desired)).seqs result'.seqId).numTokens =
        (t.seqs result'.seqId).numTokens := by
      rw [h.seqs_eq]
      rfl
    have hcached : (preparedOf cfg t plan.effectiveK result').cached =
        (t.seqs result'.seqId).numTokens
          + (preparedOf cfg t plan.effectiveK result').tokens.length - 1 := rfl
    have hbasenum : (base.seqs result'.seqId).numTokens = (t.seqs result'.seqId).numTokens := by
      rw [h.seqs_eq]
      rfl
    have hlt := hstarted.cached_lt
    refine ⟨hne, ?_, ?_, ?_⟩
    · change (base.seqs result'.seqId).numCachedTokens ≤ _
      change (base.seqs result'.seqId).numCachedTokens < (base.seqs result'.seqId).numTokens at hlt
      omega
    · change _ = ((base.lend (keptRows desired)).seqs result'.seqId).numTokens + _
      omega
    · change _ ≤ ((base.lend (keptRows desired)).table result'.seqId).length * _
      change ((base.lend (keptRows desired)).table result'.seqId).length = _ at hlen
      rw [hlen]
      exact le_pagesFor_mul cfg.blockSize_pos _

end Trim

theorem State.restoreCommit_eq (hout : ∀ y, y ∉ xs → s.seqs y = t.seqs y)
    (hctl : s.control = { t.control with
      activeReservation := s.activeReservation
      running := s.running
      fault := s.fault }) :
    s.restoreCommit t xs = t.withFault s.fault := by
  apply State.ext_control
  · funext y
    change (if y ∈ xs then t.seqs y else s.seqs y) = t.seqs y
    split
    · rfl
    · rename_i hy
      exact hout y hy
  · rfl
  · rfl
  · rfl
  · rfl
  · have hrestored : (s.restoreCommit t xs).control = { s.control with
        activeReservation := t.activeReservation
        running := t.running
        waiting := t.waiting } := rfl
    rw [hrestored, hctl]
    rfl

section Call

variable {tr : ActiveSpecTransaction} {plan : SpecStepPlan} {result : SpecExecutionResult}
  {prepared : List PreparedRow}

private theorem Leased.commitRows_kept (h : Leased base rows t tr.reservation)
    (hcore : Core cfg [] base) (hc : Committable cfg t tr plan result prepared)
    {desired : List (TemporaryReservationRow × Nat)} (hdes : desiredRetention tr.reservation
      (List.zipWith (keepCount cfg) prepared tr.reservation.rows) = .ok desired)
    (hprog : t.reservationInProgress = false) (hint : t.internalAllocation = false)
    (hfault : t.fault = none) : commitRows cfg prepared (base.lend (keptRows desired)) =
      .ok (State.commitEvents cfg (base.lend (keptRows desired)) prepared)
        ((base.lend (keptRows desired)).commitAll cfg prepared) := by
  have hq : (base.lend (keptRows desired)).Quiet :=
    { reservation := (congrArg Control.activeReservation h.control).trans rfl
      progress := (congrArg Control.reservationInProgress h.control).trans hprog
      internal := (congrArg Control.internalAllocation h.control).trans hint
      fault := (congrArg Control.fault h.control).trans hfault }
  have hlend : Core cfg [] (base.lend (keptRows desired)) := by
    apply h.kept_core hcore (desiredRetention_ok hdes).1
    intro e he
    rw [show base.running = t.running from congrArg Control.running h.control, ← hc.lease,
      h.sequences]
    exact List.mem_map_of_mem he
  exact commitRows_quiet hq hlend (hc.bursts h hcore hdes)

private theorem applyCommit_cases (h : Leased base rows t tr.reservation) (hok : PoolOk base)
    (hc : Committable cfg t tr plan result prepared) :
    (∃ e f, applyCommit cfg t tr.reservation prepared t = .error e (t.withFault f)) ∨
    (∃ events u f desired,
      desiredRetention tr.reservation
        (List.zipWith (keepCount cfg) prepared tr.reservation.rows) = .ok desired ∧
      commitRows cfg prepared ((base.lend (keptRows desired)).withFault f) = .ok events u ∧
      applyCommit cfg t tr.reservation prepared t = .ok events u ∧
      (t.fault = none → f = none)) := by
  have hseq := hc.distinct h
  have hin : ∀ row ∈ prepared, row.sequence ∈
      tr.reservation.rows.map TemporaryReservationRow.sequence := by
    intro row hrow
    rw [h.sequences, ← hseq]
    exact List.mem_map_of_mem hrow
  unfold applyCommit
  rcases h.finalize hok (List.zipWith (keepCount cfg) prepared tr.reservation.rows) with
    ⟨e, f, hfin, -⟩ | ⟨f, desired, hdes, hfin⟩
  · left
    refine ⟨e, f, ?_⟩
    rw [Call.tryCatch_of_error (Call.bind_of_error hfin)]
    have hback : (t.withFault f).restoreCommit t
        (tr.reservation.rows.map TemporaryReservationRow.sequence) = t.withFault f :=
      State.restoreCommit_eq (fun _ _ => rfl) rfl
    rw [Call.bind_of_ok (Call.modify_apply _ _), hback]
    rfl
  · have hquiet : t.fault = none → f = none := by
      intro hfault
      have hunarmed := unarmed.finalizeTemporaryAppend tr.reservation
        (List.zipWith (keepCount cfg) prepared tr.reservation.rows) t hfault
      unfold Call.Leaves at hunarmed
      rw [hfin] at hunarmed
      exact hunarmed
    obtain ⟨v, hv⟩ : ∃ v, v = (base.lend (keptRows desired)).withFault f := ⟨_, rfl⟩
    have hbase : base.activeReservation = none :=
      (congrArg Control.activeReservation h.control).trans rfl
    have hvnone : v.activeReservation = none := by
      rw [hv]
      exact hbase
    have hframe := Frames.commitRows cfg hin v hvnone
    rw [← hv] at hfin
    unfold Call.Leaves at hframe
    cases hrows : commitRows cfg prepared v with
    | ok events u =>
      right
      refine ⟨events, u, f, desired, hdes, by rw [← hv]; exact hrows, ?_, hquiet⟩
      rw [Call.tryCatch_of_ok]
      rw [Call.bind_of_ok hfin]
      exact hrows
    | error e u =>
      left
      rw [hrows, Call.after_error] at hframe
      refine ⟨e, u.fault, ?_⟩
      have hbody : (finalizeTemporaryAppend tr.reservation
          (List.zipWith (keepCount cfg) prepared tr.reservation.rows) >>= fun finalized =>
            if finalized = true then commitRows cfg prepared
            else throw (.runtimeError "speculative commit did not finalize its lease")) t =
          .error e u := by
        rw [Call.bind_of_ok hfin]
        exact hrows
      have hback : u.restoreCommit t
          (tr.reservation.rows.map TemporaryReservationRow.sequence) = t.withFault u.fault := by
        apply State.restoreCommit_eq
        · intro y hy
          rw [hframe.outside y hy, h.seqs_out hy, hv]
          have hnil : lentTo (keptRows desired) y = [] := by
            apply lentTo_eq_nil
            rw [keptRows_fst, (desiredRetention_ok hdes).1]
            exact hy
          simp [State.lend, hnil, State.table]
        · have hvctl : v.control = { t.control with activeReservation := none, fault := f } := by
            have hlend : v.control = { base.control with fault := f } := by
              rw [hv]
              rfl
            rw [hlend, h.control]
          rw [hframe.control, hvctl]
          rw [show u.activeReservation = none from hframe.reservation.trans hvnone]
      rw [Call.tryCatch_of_error hbody, Call.bind_of_ok (Call.modify_apply _ _), hback]
      rfl

variable (plan result) in
/-- `commit_speculative` raises with the live transaction as it was, or returns; when no
failure point is armed the state it returns is the trimmed lease with every burst committed. -/
theorem commitSpeculative_cases (h : Leased base rows t tr.reservation) (hcore : Core cfg [] base)
    (htr : t.activeSpecTransaction = some tr) (hprog : t.reservationInProgress = false)
    (hint : t.internalAllocation = false) :
    (∃ e f, commitSpeculative cfg plan result t = .error e (t.withFault f)) ∨
    (∃ events u, commitSpeculative cfg plan result t = .ok events u ∧
      (t.fault = none → ∃ prepared desired, Committable cfg t tr plan result prepared ∧
        desiredRetention tr.reservation
          (List.zipWith (keepCount cfg) prepared tr.reservation.rows) = .ok desired ∧
        events = State.commitEvents cfg (base.lend (keptRows desired)) prepared ∧
        u = ((base.lend (keptRows desired)).commitAll cfg prepared).closeTransaction)) := by
  unfold commitSpeculative
  rcases tick_cases t with ⟨f, htick⟩ | htick
  swap
  · left
    exact ⟨_, none, Call.bind_of_error htick⟩
  rw [Call.bind_of_ok htick, Call.bind_of_ok (Call.get_apply _)]
  have htr' : (t.withFault f).activeSpecTransaction = some tr := htr
  rw [htr']
  dsimp only
  have h' := h.withFault f
  have hok' : PoolOk (base.withFault f) := hcore.own.poolOk.withFault f
  cases hchecks : commitChecks cfg (t.withFault f) tr plan result with
  | error e =>
    left
    exact ⟨e, f, Call.bind_of_error (liftExcept_error e _)⟩
  | ok prepared =>
    rw [Call.bind_of_ok (liftExcept_ok _ _)]
    have hc := commitChecks_ok hchecks
    rcases applyCommit_cases h' hok' hc with ⟨e, g, happ⟩ |
      ⟨events, u, g, desired, hdes, hrows, happ, hquiet⟩
    · left
      exact ⟨e, g, by rw [Call.bind_of_error happ, State.withFault_withFault]⟩
    · right
      rw [Call.bind_of_ok happ, Call.bind_of_ok (Call.modify_apply _ _)]
      refine ⟨events, u.closeTransaction, rfl, ?_⟩
      intro hfault
      have hf : f = none := by
        have hok : tick t = .ok ⟨⟩ t := tick_quiet hfault
        rw [htick] at hok
        have hst := EStateM.Result.ok.inj hok
        exact (congrArg State.fault hst.2).trans hfault
      subst hf
      have hself : t.withFault none = t := by
        rw [← hfault]
        exact t.withFault_self
      have hbfault : base.fault = none := (congrArg Control.fault h.control).trans hfault
      have hbself : base.withFault none = base := by
        rw [← hbfault]
        exact base.withFault_self
      rw [hself] at hc
      rw [hbself] at hrows
      have hg : g = none := hquiet rfl
      subst hg
      have hlself : (base.lend (keptRows desired)).withFault none =
          base.lend (keptRows desired) := by
        have hfl : (base.lend (keptRows desired)).fault = none := hbfault
        rw [← hfl]
        exact State.withFault_self _
      rw [hlself] at hrows
      have hrun := h.commitRows_kept hcore hc hdes hprog hint hfault
      rw [hrun] at hrows
      obtain ⟨hev, hst⟩ := EStateM.Result.ok.inj hrows
      exact ⟨prepared, desired, hc, hdes, hev.symm, by rw [hst]⟩

/-- With no failure point armed a commit that may trim its lease returns. -/
theorem commitSpeculative_ok (h : Leased base rows t tr.reservation) (hcore : Core cfg [] base)
    (htr : t.activeSpecTransaction = some tr) (hprog : t.reservationInProgress = false)
    (hint : t.internalAllocation = false) (hfault : t.fault = none)
    (hchecks : commitChecks cfg t tr plan result = .ok prepared)
    {desired : List (TemporaryReservationRow × Nat)} (hdes : desiredRetention tr.reservation
      (List.zipWith (keepCount cfg) prepared tr.reservation.rows) = .ok desired) :
    commitSpeculative cfg plan result t =
      .ok (State.commitEvents cfg (base.lend (keptRows desired)) prepared)
        ((base.lend (keptRows desired)).commitAll cfg prepared).closeTransaction := by
  have hrun := h.commitRows_kept hcore (commitChecks_ok hchecks) hdes hprog hint hfault
  have happly : applyCommit cfg t tr.reservation prepared t =
      .ok (State.commitEvents cfg (base.lend (keptRows desired)) prepared)
        ((base.lend (keptRows desired)).commitAll cfg prepared) := by
    rcases h.finalize hcore.own.poolOk
        (List.zipWith (keepCount cfg) prepared tr.reservation.rows) with
      ⟨e, f, -, hwhy⟩ | ⟨f, desired', hdes', hfin⟩
    · rcases hwhy with harmed | ⟨e', hrefused⟩
      · exact absurd hfault harmed
      · rw [hdes] at hrefused
        exact absurd hrefused (by simp)
    · rw [hdes] at hdes'
      obtain rfl := Except.ok.inj hdes'
      have hunarmed := unarmed.finalizeTemporaryAppend tr.reservation
        (List.zipWith (keepCount cfg) prepared tr.reservation.rows) t hfault
      unfold Call.Leaves at hunarmed
      rw [hfin] at hunarmed
      have hf : f = none := hunarmed
      have hself : (base.lend (keptRows desired)).withFault f = base.lend (keptRows desired) := by
        rw [hf, ← show (base.lend (keptRows desired)).fault = none from
          (congrArg Control.fault h.control).trans hfault]
        exact State.withFault_self _
      rw [hself] at hfin
      exact Call.tryCatch_of_ok ((Call.bind_of_ok hfin).trans hrun)
  unfold commitSpeculative
  rw [Call.bind_of_ok (tick_quiet hfault), Call.bind_of_ok (Call.get_apply _), htr]
  dsimp only
  rw [hchecks, Call.bind_of_ok (liftExcept_ok _ _), Call.bind_of_ok happly]
  rfl

end Call

end NanoVllm
