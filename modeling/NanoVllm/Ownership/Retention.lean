/- module: NanoVllm/Ownership/Retention
   layer: refinement
   source: nanovllm/engine/block_manager.py, rollback_temporary_append,
     prepare_temporary_target_writes and finalize_temporary_append
   digest: An open lease is rolled back, made writable, or trimmed to the blocks it keeps. -/

import NanoVllm.Ownership.Reservation

set_option autoImplicit false
set_option relaxedAutoImplicit false

namespace NanoVllm

open Library

variable {distinct : Prop} {cfg : Config} {s t base : State} {rows : List (Nat × List Nat)}
  {r : TemporaryBlockReservation}

theorem Leased.rollback (h : Leased base rows t r) (hok : PoolOk base) :
    rollbackTemporaryAppend r t = .ok true base := by
  have hstart : rollbackTemporaryAppend r t = _ := Call.bind_of_ok (Call.get_apply t)
  rw [hstart, h.active]
  simp only [ne_eq, not_true_eq_false, ↓reduceIte]
  rw [h.validate hok, Call.bind_of_ok (liftExcept_ok _ _), h.restore]
  rfl

theorem Leased.withFault (h : Leased base rows t r) (f : Option Nat) :
    Leased (base.withFault f) rows (t.withFault f) r where
  pool := by
    apply State.ext_control
    · exact h.seqs_eq
    · exact h.blocks_eq
    · exact h.index_eq
    · exact h.free_eq
    · exact h.used_eq
    · rfl
  record := h.record
  active := h.active
  control := by
    have hc := h.control
    change { base.control with fault := f } = _
    rw [hc]
    rfl
  distinct := h.distinct
  front := h.front

theorem Leased.withControl (h : Leased base rows t r) {c : Control}
    (hactive : c.activeReservation = some r) :
    Leased (base.withControl { c with activeReservation := none }) rows (t.withControl c) r where
  pool := by
    apply State.ext_control
    · exact h.seqs_eq
    · exact h.blocks_eq
    · exact h.index_eq
    · exact h.free_eq
    · exact h.used_eq
    · rfl
  record := h.record
  active := hactive
  control := rfl
  distinct := h.distinct
  front := h.front

def State.wipe (s : State) (ids : List Nat) : State :=
  { s with
    blocks := fun b => if b ∈ ids then { s.blocks b with hash := none, tokenIds := [], updates := 0 }
      else s.blocks b
    hashToBlockId := restrict (· ∉ ids) s.hashToBlockId }

theorem State.wipe_refCount (s : State) (ids : List Nat) (b : Nat) :
    ((s.wipe ids).blocks b).refCount = (s.blocks b).refCount := by
  unfold State.wipe
  simp only
  split <;> rfl

theorem PoolOk.wipe (h : PoolOk s) (ids : List Nat) : PoolOk (s.wipe ids) where
  nodup := h.nodup
  zero := by
    intro b hb
    rw [State.wipe_refCount]
    exact h.zero b hb
  indexed := by
    intro k b hb
    obtain ⟨hold, hout⟩ := (lookup_restrict_eq_some _ _ _ _).mp hb
    have hnot : b ∉ ids := by simpa using hout
    simp only [State.wipe, hnot, ↓reduceIte]
    exact h.indexed k b hold

theorem OwnIf.wipe {live : List Nat} {table : Nat → List Nat} {cov : Nat → Nat}
    (h : OwnIf distinct cfg live table cov s) (ids : List Nat) :
    OwnIf distinct cfg live table cov (s.wipe ids) where
  live_nodup := h.live_nodup
  free_nodup := h.free_nodup
  used_lt := h.used_lt
  mem_free := h.mem_free
  ref_eq := by
    intro b
    rw [State.wipe_refCount]
    exact h.ref_eq b
  mem_used := by
    intro b
    rw [State.wipe_refCount]
    exact h.mem_used b
  table_nodup := h.table_nodup
  high := by
    intro x hx i b hi hc
    obtain ⟨href, hhash⟩ := h.high x hx i b hi hc
    refine ⟨by rw [State.wipe_refCount]; exact href, ?_⟩
    unfold State.wipe
    simp only
    split
    · rfl
    · exact hhash
  index := by
    intro k b hb
    obtain ⟨hold, hout⟩ := (lookup_restrict_eq_some _ _ _ _).mp hb
    have hnot : b ∉ ids := by simpa using hout
    simp only [State.wipe, hnot, ↓reduceIte]
    exact h.index k b hold

private theorem State.wipe_lend (s : State) (rows : List (Nat × List Nat)) :
    (s.wipe (lentBlocks rows)).lend rows = s.lend rows := by
  apply State.ext_control <;> try rfl
  · funext b
    by_cases hb : b ∈ lentBlocks rows <;> simp [State.lend, State.wipe, hb]
  · apply Finmap.ext_lookup
    intro k
    simp only [State.lend, State.wipe, lookup_restrict]
    cases s.hashToBlockId.lookup k with
    | none => rfl
    | some b => by_cases hb : b ∈ lentBlocks rows <;> simp [Option.filter, hb]

private theorem writableRecord_eq (base : State) (rows : List (Nat × List Nat)) (id generation : Nat) :
    writableRecord (leaseRecord base rows id generation) =
      leaseRecord (base.wipe (lentBlocks rows)) rows id (generation + 1) := by
  have hstates : (leaseRecord base rows id generation).blockStatesBefore.map (fun e =>
      if e.1 ∈ lentBlocks rows then (e.1, { e.2 with hash := none, tokenIds := [], updates := 0 }) else e) =
      snapshotBlockStates (base.wipe (lentBlocks rows))
        (lentBlocks rows ++ rows.flatMap fun e => base.table e.1) := by
    unfold leaseRecord snapshotBlockStates
    rw [List.map_map]
    apply List.map_congr_left
    intro b _
    by_cases hb : b ∈ lentBlocks rows <;> simp [State.wipe, hb]
  unfold writableRecord
  change ({ leaseRecord base rows id generation with
    generation := generation + 1
    hashToBlockIdBefore := restrict (· ∉ lentBlocks rows) base.hashToBlockId
    blockStatesBefore := (leaseRecord base rows id generation).blockStatesBefore.map (fun e =>
      if e.1 ∈ lentBlocks rows then (e.1, { e.2 with hash := none, tokenIds := [], updates := 0 }) else e) } :
    TemporaryBlockReservation) = _
  rw [hstates]
  rfl

/-- Making the lease writable drops the lent blocks' hashes from the state it returns to. -/
theorem Leased.prepare (h : Leased base rows t r) (hok : PoolOk base) :
    prepareTemporaryTargetWrites r t = .error .injected (t.withFault none) ∨
    ∃ f, prepareTemporaryTargetWrites r t = .ok (writableRecord r)
        ({ t with activeReservation := some (writableRecord r) }.withFault f) ∧
      Leased ((base.wipe (lentBlocks rows)).withFault f) rows
        ({ t with activeReservation := some (writableRecord r) }.withFault f)
        (writableRecord r) := by
  rcases tick_cases t with ⟨f, htick⟩ | htick
  swap
  · left
    exact Call.bind_of_error htick
  right
  refine ⟨f, ?_, ?_⟩
  · have hvalid := (h.withFault f).validate (hok.withFault f)
    have hstart : prepareTemporaryTargetWrites r t = _ := (Call.bind_of_ok htick).trans
      (Call.bind_of_ok (Call.get_apply _))
    rw [hstart, hvalid, Call.bind_of_ok (liftExcept_ok _ _)]
    rfl
  · have hid : (writableRecord r).reservationId = r.reservationId := rfl
    have hgen : (writableRecord r).generation = r.generation + 1 := rfl
    refine ⟨?_, ?_, rfl, ?_, h.distinct, h.front⟩
    · rw [State.lend_withFault, State.wipe_lend]
      apply State.ext_control
      · exact h.seqs_eq
      · exact h.blocks_eq
      · exact h.index_eq
      · exact h.free_eq
      · exact h.used_eq
      · rfl
    · rw [hid, hgen]
      conv_lhs => rw [h.record]
      exact writableRecord_eq base rows _ _
    · change { base.control with fault := f } = _
      rw [h.control]
      rfl

def keptRows (desired : List (TemporaryReservationRow × Nat)) : List (Nat × List Nat) :=
  desired.map fun e => (e.1.sequence, retainRow e)

theorem lentBlocks_keptRows (desired : List (TemporaryReservationRow × Nat)) :
    lentBlocks (keptRows desired) = desired.flatMap retainRow := by
  unfold lentBlocks keptRows
  rw [List.flatMap_map]

theorem keptRows_fst (desired : List (TemporaryReservationRow × Nat)) :
    (keptRows desired).map Prod.fst =
      (desired.map Prod.fst).map TemporaryReservationRow.sequence := by
  unfold keptRows
  rw [List.map_map, List.map_map]
  rfl

theorem retainedRows_ok {keep : List (Nat × Int)} {lease : List TemporaryReservationRow} :
    ∀ {desired : List (TemporaryReservationRow × Nat)}, retainedRows keep lease = .ok desired →
      desired.map Prod.fst = lease ∧ ∀ e ∈ desired, retainedCount e.1 keep = .ok e.2 := by
  induction lease with
  | nil =>
    intro desired h
    obtain rfl : [] = desired := by simpa [retainedRows, pure, Except.pure] using h
    simp
  | cons row lease ih =>
    intro desired h
    obtain ⟨count, hcount, h⟩ := Call.except_bind_ok h
    obtain ⟨more, hmore, h⟩ := Call.except_bind_ok h
    obtain rfl : (row, count) :: more = desired := by simpa [pure, Except.pure] using h
    obtain ⟨hfst, hall⟩ := ih hmore
    refine ⟨by rw [List.map_cons, hfst], ?_⟩
    intro e he
    rcases List.mem_cons.mp he with rfl | he
    · exact hcount
    · exact hall e he

/-- An accepted retention splits every suffix into a kept front and a released rest. -/
theorem desiredRetention_ok {keep : List (Nat × Int)}
    {desired : List (TemporaryReservationRow × Nat)} (h : desiredRetention r keep = .ok desired) :
    desired.map Prod.fst = r.rows ∧ (∀ e ∈ desired, retainedCount e.1 keep = .ok e.2) ∧
      (∀ b ∈ desired.flatMap retainRow, b ∉ desired.flatMap releaseRow) ∧
      ∀ b, b ∈ desired.flatMap retainRow ∨ b ∈ desired.flatMap releaseRow ↔
        b ∈ r.allocationOrder := by
  unfold desiredRetention at h
  obtain ⟨-, h⟩ := Call.except_guard h
  obtain ⟨-, h⟩ := Call.except_guard h
  obtain ⟨-, h⟩ := Call.except_guard h
  obtain ⟨found, hfound, h⟩ := Call.except_bind_ok h
  obtain ⟨hfst, hall⟩ := retainedRows_ok hfound
  simp only at h
  by_cases hpart : (((found.flatMap retainRow).any fun b => b ∈ found.flatMap releaseRow) = true ∨
      (found.flatMap retainRow ++ found.flatMap releaseRow).toFinset ≠
        r.allocationOrder.toFinset)
  · rw [if_pos hpart] at h
    exact absurd h (by simp [bind, Except.bind, throw, throwThe, MonadExceptOf.throw])
  rw [if_neg hpart] at h
  obtain rfl : found = desired := by simpa [pure, Except.pure] using h
  rw [not_or] at hpart
  refine ⟨hfst, hall, ?_, ?_⟩
  · intro b hb hrel
    apply hpart.1
    rw [List.any_eq_true]
    exact ⟨b, hb, by simpa using hrel⟩
  · intro b
    have hset := not_not.mp hpart.2
    have hb := congrArg (fun u : Finset Nat => b ∈ u) hset
    simp only [List.mem_toFinset, List.mem_append, eq_iff_iff] at hb
    exact hb

private theorem State.retainTables_eq (base : State) {desired : List (TemporaryReservationRow × Nat)}
    (hsaved : ∀ e ∈ desired, e.1.blockTableBefore = base.table e.1.sequence)
    (hnd : ((desired.map Prod.fst).map TemporaryReservationRow.sequence).Nodup) (s : State)
    (hs : ∀ y, ∃ ids, s.seqs y = { base.seqs y with blockTable := ids })
    (hout : ∀ y, y ∉ (desired.map Prod.fst).map TemporaryReservationRow.sequence →
      s.seqs y = base.seqs y) :
    (s.retainTables desired).seqs = (base.lend (keptRows desired)).seqs ∧
      s.retainTables desired = { s with seqs := (s.retainTables desired).seqs } := by
  induction desired generalizing s base with
  | nil =>
    refine ⟨?_, rfl⟩
    change s.seqs = (base.lend []).seqs
    rw [State.lend_nil]
    funext y
    exact hout y (by simp)
  | cons e desired ih =>
    rw [List.map_cons, List.map_cons, List.nodup_cons] at hnd
    obtain ⟨ids, hids⟩ := hs e.1.sequence
    have hhead := hsaved e (by simp)
    have hstep : s.setSeq e.1.sequence
        { s.seqs e.1.sequence with blockTable := e.1.blockTableBefore ++ retainRow e } =
        s.setSeq e.1.sequence ((base.lend [(e.1.sequence, retainRow e)]).seqs e.1.sequence) := by
      congr 1
      rw [hids, hhead]
      simp [State.lend]
    obtain ⟨hseqs, hrest⟩ := ih (base.lend [(e.1.sequence, retainRow e)])
      (by
        intro d hd
        have hne : e.1.sequence ≠ d.1.sequence := by
          intro heq
          apply hnd.1
          rw [heq]
          exact List.mem_map_of_mem (List.mem_map_of_mem hd)
        rw [State.lend_table, lentTo_cons, if_neg hne, lentTo_nil, List.append_nil,
          List.append_nil]
        exact hsaved d (List.mem_cons_of_mem e hd))
      hnd.2
      (s.setSeq e.1.sequence { s.seqs e.1.sequence with
        blockTable := e.1.blockTableBefore ++ retainRow e })
      (by
        intro y
        by_cases hy : y = e.1.sequence
        · subst hy
          refine ⟨e.1.blockTableBefore ++ retainRow e, ?_⟩
          rw [State.setSeq_seqs, Function.update_self, hids]
          rfl
        · obtain ⟨ids', hids'⟩ := hs y
          refine ⟨ids', ?_⟩
          rw [State.setSeq_seqs, Function.update_of_ne hy, hids']
          rfl)
      (by
        intro y hy
        rw [hstep, State.setSeq_seqs]
        by_cases hye : y = e.1.sequence
        · subst hye
          rw [Function.update_self]
        · rw [Function.update_of_ne hye, hout y (by
            rw [List.map_cons, List.map_cons, List.mem_cons, not_or]
            exact ⟨hye, hy⟩)]
          simp [State.lend, State.table, Ne.symm hye])
    refine ⟨?_, ?_⟩
    · change ((s.setSeq e.1.sequence _).retainTables desired).seqs = _
      rw [hseqs, State.lend_lend]
      rfl
    · change (s.setSeq e.1.sequence _).retainTables desired = _
      rw [hrest]
      rfl

theorem find_of_nodup {ν : Type} {l : List (Nat × ν)} (hnd : (l.map Prod.fst).Nodup)
    {e : Nat × ν} (he : e ∈ l) : l.find? (fun q => q.1 = e.1) = some e := by
  induction l with
  | nil => exact absurd he (by simp)
  | cons a l ih =>
    rw [List.map_cons, List.nodup_cons] at hnd
    rcases List.mem_cons.mp he with rfl | he
    · simp
    · have hne : a.1 ≠ e.1 := fun heq => hnd.1 (heq ▸ List.mem_map_of_mem he)
      rw [List.find?_cons_of_neg (by simpa using hne)]
      exact ih hnd.2 he

section Finalize

variable {keep : List (Nat × Int)} {desired : List (TemporaryReservationRow × Nat)}

theorem Leased.sequences (h : Leased base rows t r) :
    r.rows.map TemporaryReservationRow.sequence = rows.map Prod.fst := by
  rw [h.record]
  exact leaseRecordRows_sequence base rows

theorem Leased.seqs_out (h : Leased base rows t r) {y : Nat}
    (hy : y ∉ r.rows.map TemporaryReservationRow.sequence) : t.seqs y = base.seqs y := by
  rw [h.sequences] at hy
  rw [h.seqs_eq]
  simp [State.lend, State.table, lentTo_eq_nil hy]

theorem Leased.desired_distinct (h : Leased base rows t r)
    (hfst : desired.map Prod.fst = r.rows) : ((keptRows desired).map Prod.fst).Nodup := by
  rw [keptRows_fst, hfst, h.sequences]
  exact h.distinct

private theorem Leased.desired_saved (h : Leased base rows t r) (hfst : desired.map Prod.fst = r.rows)
    {e : TemporaryReservationRow × Nat} (he : e ∈ desired) : Saved base e.1 := by
  have hmem : e.1 ∈ r.rows := by
    rw [← hfst]
    exact List.mem_map_of_mem he
  rw [h.record] at hmem
  exact leaseRecordRows_saved e.1 hmem

private theorem Leased.retainTables (h : Leased base rows t r) (hfst : desired.map Prod.fst = r.rows) :
    (t.retainTables desired).seqs = (base.lend (keptRows desired)).seqs ∧
      t.retainTables desired = { t with seqs := (t.retainTables desired).seqs } := by
  refine State.retainTables_eq base (fun e he => (h.desired_saved hfst he).table) ?_ t ?_ ?_
  · rw [← keptRows_fst]
    exact h.desired_distinct hfst
  · exact fun y => ⟨_, by rw [h.seqs_eq]; rfl⟩
  · exact fun y hy => h.seqs_out (by rwa [hfst] at hy)

private theorem Leased.retain_eq (h : Leased base rows t r)
    (hdes : desiredRetention r keep = .ok desired) :
    t.retain r desired = (base.lend (keptRows desired)).withControl t.control := by
  obtain ⟨hfst, _, hdisj, hpart⟩ := desiredRetention_ok hdes
  have hrec := h.record
  have halloc : r.allocationOrder = lentBlocks rows := by rw [hrec]; rfl
  obtain ⟨hseqs, hrest⟩ := h.retainTables hfst
  have hstates : ∀ e ∈ r.blockStatesBefore.filter (fun e => e.1 ∈ desired.flatMap releaseRow),
      e.2 = base.blocks e.1 := by
    intro e he
    have hmem := (List.mem_filter.mp he).1
    rw [hrec] at hmem
    exact snapshotBlockStates_snd hmem
  have hids : ∀ b, b ∈ (r.blockStatesBefore.filter
      (fun e => e.1 ∈ desired.flatMap releaseRow)).map Prod.fst ↔
        b ∈ desired.flatMap releaseRow := by
    intro b
    constructor
    · intro hb
      obtain ⟨e, he, rfl⟩ := List.mem_map.mp hb
      simpa using (List.mem_filter.mp he).2
    · intro hb
      have hlent : b ∈ lentBlocks rows := by
        rw [← halloc]
        exact (hpart b).mp (Or.inr hb)
      have hstate : b ∈ r.blockStatesBefore.map Prod.fst := by
        rw [hrec]
        change b ∈ (snapshotBlockStates base _).map Prod.fst
        rw [snapshotBlockStates_fst, mem_sortedSet]
        exact List.mem_append_left _ hlent
      obtain ⟨e, he, rfl⟩ := List.mem_map.mp hstate
      exact List.mem_map_of_mem (List.mem_filter.mpr ⟨he, by simpa using hb⟩)
  have hblocks := State.restoreBlocks_eq base hstates (t.retainTables desired)
  have hkept := lentBlocks_keptRows desired
  have hfree : r.freeBlockIdsBefore = base.freeBlockIds := by rw [hrec]; rfl
  have hused : r.usedBlockIdsBefore = base.usedBlockIds := by rw [hrec]; rfl
  have hindex : r.hashToBlockIdBefore = base.hashToBlockId := by rw [hrec]; rfl
  apply State.ext_control
  · exact (congrArg State.seqs hblocks).trans hseqs
  · refine (congrArg State.blocks hblocks).trans ?_
    funext b
    have hmeta : (t.retainTables desired).blocks = t.blocks :=
      (congrArg State.blocks hrest).trans rfl
    simp only [hmeta, hids, h.blocks_eq, State.lend, hkept, State.withControl]
    by_cases hrel : b ∈ desired.flatMap releaseRow
    · rw [if_pos hrel, if_neg fun hb => hdisj b hb hrel]
    · rw [if_neg hrel]
      by_cases hb : b ∈ desired.flatMap retainRow
      · rw [if_pos hb, if_pos]
        rw [← halloc]
        exact (hpart b).mp (Or.inl hb)
      · rw [if_neg hb, if_neg]
        rw [← halloc, ← hpart b]
        exact fun hor => hor.elim hb hrel
  · change restrict (· ∉ desired.flatMap retainRow) r.hashToBlockIdBefore =
      restrict (· ∉ lentBlocks (keptRows desired)) base.hashToBlockId
    rw [hkept, hindex]
  · change r.freeBlockIdsBefore.filter (· ∉ desired.flatMap retainRow) =
      base.freeBlockIds.filter (· ∉ lentBlocks (keptRows desired))
    rw [hkept, hfree]
  · change r.usedBlockIdsBefore ∪ (desired.flatMap retainRow).toFinset =
      base.usedBlockIds ∪ (lentBlocks (keptRows desired)).toFinset
    rw [hkept, hused]
  · have htables : (t.retainTables desired).control = t.control :=
      (congrArg State.control hrest).trans rfl
    exact (congrArg State.control hblocks).trans htables

/-- The restore of the except clause returns to the live lease from either side of
the mutation. -/
private theorem Leased.restore_live (h : Leased base rows t r)
    (hs : s.seqs = t.seqs ∨ s.seqs = (base.lend (keptRows desired)).seqs)
    (hb : s.blocks = t.blocks ∨ s.blocks = (base.lend (keptRows desired)).blocks)
    (hfst : desired.map Prod.fst = r.rows)
    (hkeep : ∀ b ∈ desired.flatMap retainRow, b ∈ r.allocationOrder)
    (hctl : { s.control with activeReservation := t.activeReservation } =
      { t.control with fault := s.fault }) :
    ({ s.restoreSnapshot (r.rows.map fun row => snapshotRow t row.sequence) t.freeBlockIds
        t.usedBlockIds t.hashToBlockId
        (snapshotBlockStates t (r.blockStatesBefore.map Prod.fst)) with
      activeReservation := t.activeReservation } : State) = t.withFault s.fault := by
  have hrec := h.record
  have halloc : r.allocationOrder = lentBlocks rows := by rw [hrec]; rfl
  have hxs : (r.rows.map fun row => snapshotRow t row.sequence).map
      TemporaryReservationRow.sequence = r.rows.map TemporaryReservationRow.sequence := by
    rw [List.map_map]
    rfl
  have hlent : ∀ b ∈ lentBlocks rows,
      b ∈ (snapshotBlockStates t (r.blockStatesBefore.map Prod.fst)).map Prod.fst := by
    intro b hmem
    rw [snapshotBlockStates_fst, mem_sortedSet, hrec]
    change b ∈ (snapshotBlockStates base _).map Prod.fst
    rw [snapshotBlockStates_fst, mem_sortedSet]
    exact List.mem_append_left _ hmem
  rw [State.restoreSnapshot_eq t]
  · apply State.ext_control <;> try rfl
    exact hctl
  · intro row hrow
    obtain ⟨q, _, rfl⟩ := List.mem_map.mp hrow
    exact saved_snapshotRow t q.sequence
  · exact fun e he => snapshotBlockStates_snd he
  · intro y _
    rcases hs with hs | hs
    · rw [hs]
      rfl
    · rw [hs, h.seqs_eq]
      rfl
  · intro y hy
    rw [hxs] at hy
    rcases hs with hs | hs
    · rw [hs]
    · rw [hs, h.seqs_out hy]
      have hnone : lentTo (keptRows desired) y = [] := by
        apply lentTo_eq_nil
        rw [keptRows_fst, hfst]
        exact hy
      simp [State.lend, State.table, hnone]
  · intro b hout
    rcases hb with hb | hb
    · rw [hb]
    · have hnot : b ∉ lentBlocks rows := fun hmem => hout (hlent b hmem)
      have hnk : b ∉ lentBlocks (keptRows desired) := by
        rw [lentBlocks_keptRows]
        intro hmem
        exact hnot (halloc ▸ hkeep b hmem)
      rw [hb, h.blocks_eq]
      simp [State.lend, hnot, hnk]

private theorem tick_modify_cases {α : Type} (g : State → State)
    (hg : ∀ f, g (s.withFault f) = (g s).withFault f) (k : Option Nat) (rest : Call α) :
    (∃ f, (do tick; modify g; rest) (s.withFault k) = rest ((g s).withFault f) ∧
      (f ≠ none → k ≠ none)) ∨
    ((do tick; modify g; rest) (s.withFault k) = .error .injected (s.withFault none) ∧
      k ≠ none) := by
  rcases tick_cases (s.withFault k) with ⟨f, htick⟩ | htick
  · left
    refine ⟨f, ?_, fun hf => armed_of_ok unarmed.tick htick hf⟩
    rw [Call.bind_of_ok htick, Call.bind_of_ok (Call.modify_apply _ _), State.withFault_withFault,
      hg]
  · exact Or.inr ⟨Call.bind_of_error htick, armed_of_tick_error htick⟩

structure Between (base t : State) (desired : List (TemporaryReservationRow × Nat)) (u : State) :
    Prop where
  seqs : u.seqs = t.seqs ∨ u.seqs = (base.lend (keptRows desired)).seqs
  blocks : u.blocks = t.blocks ∨ u.blocks = (base.lend (keptRows desired)).blocks
  control : { u.control with activeReservation := t.activeReservation } =
    { t.control with fault := u.fault }

private theorem Between.withFault {u : State} (h : Between base t desired u) (f : Option Nat) :
    Between base t desired (u.withFault f) :=
  ⟨h.seqs, h.blocks, (congrArg (fun c : Control => { c with fault := f }) h.control).trans rfl⟩

private theorem Between.start (base t : State) (desired : List (TemporaryReservationRow × Nat)) :
    Between base t desired t :=
  ⟨Or.inl rfl, Or.inl rfl, rfl⟩

private theorem Leased.between_retainTables (h : Leased base rows t r)
    (hfst : desired.map Prod.fst = r.rows) : Between base t desired (t.retainTables desired) := by
  obtain ⟨hseqs, hrest⟩ := h.retainTables hfst
  refine ⟨Or.inr hseqs, Or.inl ?_, ?_⟩
  · rw [hrest]
  · rw [hrest]
    rfl

private theorem Leased.between_retain (h : Leased base rows t r)
    (hdes : desiredRetention r keep = .ok desired) :
    Between base t desired (t.retain r desired) := by
  have hretain := h.retain_eq hdes
  refine ⟨Or.inr ?_, Or.inr ?_, ?_⟩ <;> rw [hretain] <;> rfl

private theorem State.retainTables_withFault (s : State)
    (desired : List (TemporaryReservationRow × Nat))
    (f : Option Nat) :
    (s.withFault f).retainTables desired = (s.retainTables desired).withFault f := by
  induction desired generalizing s with
  | nil => rfl
  | cons e desired ih => exact ih (s.setSeq e.1.sequence { s.seqs e.1.sequence with
      blockTable := e.1.blockTableBefore ++ retainRow e })

private theorem State.restoreBlocks_withFault (s : State) (states : List (Nat × Block))
    (f : Option Nat) :
    (s.withFault f).restoreBlocks states = (s.restoreBlocks states).withFault f := by
  induction states generalizing s with
  | nil => rfl
  | cons e states ih => exact ih (s.setBlock e.1 e.2)

private theorem Leased.validateRetained_ok (h : Leased base rows t r)
    (hdes : desiredRetention r keep = .ok desired) (c : Control) :
    validateRetained ((base.lend (keptRows desired)).withControl c) r desired = .ok ⟨⟩ := by
  obtain ⟨hfst, _, hdisj, _⟩ := desiredRetention_ok hdes
  have hkept := lentBlocks_keptRows desired
  have htable : ∀ e ∈ desired, (base.lend (keptRows desired)).table e.1.sequence =
      e.1.blockTableBefore ++ retainRow e := by
    intro e he
    have hmem : (e.1.sequence, retainRow e) ∈ keptRows desired :=
      List.mem_map_of_mem (f := fun e => (e.1.sequence, retainRow e)) he
    rw [State.lend_table, lentTo_of_mem (h.desired_distinct hfst) hmem,
      (h.desired_saved hfst he).table]
    rfl
  unfold validateRetained
  simp only
  rw [if_neg, if_neg, if_neg, if_neg]
  · rfl
  · rw [List.any_eq_true]
    rintro ⟨e, he, hbad⟩
    rw [decide_eq_true_eq] at hbad
    apply hbad.2
    have hout : e.1 ∉ lentBlocks (keptRows desired) := by
      rw [hkept]
      exact fun hk => hdisj e.1 hk hbad.1
    rw [h.record] at he
    rw [snapshotBlockStates_snd he]
    simp [State.lend, State.withControl, hout]
  · rw [List.any_eq_true]
    rintro ⟨b, hb, hbad⟩
    rw [decide_eq_true_eq] at hbad
    apply hbad
    rw [← hkept] at hb
    simp [State.lend, State.withControl, hb]
  · rw [List.any_eq_true]
    rintro ⟨e, he, hbad⟩
    rw [decide_eq_true_eq] at hbad
    have hsaved := h.desired_saved hfst he
    rcases hbad with hbad | hbad
    · exact hbad hsaved.cached.symm
    · exact hbad hsaved.draft.symm
  · rw [List.any_eq_true]
    rintro ⟨e, he, hbad⟩
    rw [decide_eq_true_eq] at hbad
    exact hbad (htable e he)

private theorem Leased.applyRetention_cases (h : Leased base rows t r)
    (hdes : desiredRetention r keep = .ok desired) :
    (∃ f, applyRetention t r desired t =
      .ok ⟨⟩ ((base.lend (keptRows desired)).withFault f)) ∨
    (∃ f, applyRetention t r desired t = .error .injected (t.withFault f) ∧ t.fault ≠ none) := by
  obtain ⟨hfst, _, _, hpart⟩ := desiredRetention_ok hdes
  have hkeep : ∀ b ∈ desired.flatMap retainRow, b ∈ r.allocationOrder :=
    fun b hb => (hpart b).mp (Or.inl hb)
  -- the except clause, from any point of the body
  have hundo : ∀ {body : Call Unit} {u : State}, body t = .error .injected u →
      Between base t desired u → tryCatch body (fun e => do
        modify fun t' => { t'.restoreSnapshot
            (r.rows.map fun row => snapshotRow t row.sequence)
            t.freeBlockIds t.usedBlockIds t.hashToBlockId
            (snapshotBlockStates t (r.blockStatesBefore.map Prod.fst)) with
          activeReservation := t.activeReservation }
        throw e) t = .error .injected (t.withFault u.fault) := by
    intro body u hbody hu
    rw [Call.tryCatch_of_error hbody, Call.bind_of_ok (Call.modify_apply _ _),
      h.restore_live hu.seqs hu.blocks hfst hkeep hu.control]
    rfl
  have hcalm := Between.start base t desired
  have htables := h.between_retainTables hfst
  have hretain := h.between_retain hdes
  obtain ⟨t₁, ht₁⟩ : ∃ t₁, t₁ = t.retainTables desired := ⟨_, rfl⟩
  obtain ⟨t₂, ht₂⟩ : ∃ t₂, t₂ = t₁.retainMetadata r desired := ⟨_, rfl⟩
  obtain ⟨t₃, ht₃⟩ : ∃ t₃, t₃ = t₂.retainMembership r desired := ⟨_, rfl⟩
  have hall : t₃ = t.retain r desired := by rw [ht₃, ht₂, ht₁]; rfl
  rw [← ht₁] at htables
  rw [← hall] at hretain
  have hmeta : Between base t desired t₂ := by
    rw [ht₃] at hretain
    exact ⟨hretain.seqs, hretain.blocks, hretain.control⟩
  unfold applyRetention
  rcases tick_modify_cases (s := t) (fun s => s.retainTables desired)
    (fun f => State.retainTables_withFault t desired f) t.fault _ with
    ⟨f₁, h₁, harm₁⟩ | ⟨h₁, harm₁⟩
  swap
  · exact Or.inr ⟨none, hundo h₁ (hcalm.withFault none), harm₁⟩
  rcases tick_modify_cases (s := t₁) (fun s => s.retainMetadata r desired)
    (fun f => State.restoreBlocks_withFault t₁ _ f) f₁ _ with
    ⟨f₂, h₂, harm₂⟩ | ⟨h₂, harm₂⟩
  swap
  · rw [ht₁] at h₂ htables
    exact Or.inr ⟨none, hundo (h₁.trans h₂) (htables.withFault none), harm₁ harm₂⟩
  rcases tick_modify_cases (s := t₂) (fun s => s.retainMembership r desired) (fun _ => rfl) f₂ _
    with ⟨f₃, h₃, harm₃⟩ | ⟨h₃, harm₃⟩
  swap
  · rw [ht₁] at h₂
    rw [ht₂, ht₁] at h₃ hmeta
    exact Or.inr ⟨none, hundo (h₁.trans (h₂.trans h₃)) (hmeta.withFault none),
      harm₁ (harm₂ harm₃)⟩
  rw [ht₁] at h₂
  rw [ht₂, ht₁] at h₃
  -- the mutations are done: what is left re-checks them and drops the record
  have hbody := h₁.trans (h₂.trans h₃)
  rw [← ht₁, ← ht₂, ← ht₃] at hbody
  have harmed : f₃ ≠ none → t.fault ≠ none := fun hf => harm₁ (harm₂ (harm₃ hf))
  rcases tick_cases (t₃.withFault f₃) with ⟨f₄, htick⟩ | htick
  swap
  · exact Or.inr ⟨none, hundo (hbody.trans (Call.bind_of_error htick)) (hretain.withFault none),
      harmed (armed_of_tick_error htick)⟩
  have hvalid : validateRetained (t₃.withFault f₄) r desired = .ok ⟨⟩ := by
    have hcheck := h.validateRetained_ok hdes (t₃.withFault f₄).control
    rw [hall, h.retain_eq hdes] at hcheck ⊢
    exact hcheck
  obtain ⟨t₄, ht₄⟩ : ∃ t₄ : State, t₄ = { t₃ with activeReservation := none } := ⟨_, rfl⟩
  have hdropped : Between base t desired t₄ := by
    rw [ht₄]
    exact ⟨hretain.seqs, hretain.blocks, hretain.control⟩
  have hchecked := Call.bind_of_ok (k := fun _ => do
      let s ← get
      liftExcept (validateRetained s r desired)
      tick
      modify fun t : State => { t with activeReservation := none }
      tick) htick
  rw [State.withFault_withFault, Call.bind_of_ok (Call.get_apply _), hvalid,
    Call.bind_of_ok (liftExcept_ok _ _)] at hchecked
  have hchecked' := hbody.trans hchecked
  rcases tick_modify_cases (s := t₃) (fun s => { s with activeReservation := none })
    (fun _ => rfl) f₄ tick with ⟨f₅, h₅, harm₅⟩ | ⟨h₅, harm₅⟩
  swap
  · exact Or.inr ⟨none, hundo (hchecked'.trans h₅) (hretain.withFault none),
      harmed (armed_of_ok unarmed.tick htick harm₅)⟩
  rw [← ht₄] at h₅
  rcases tick_cases (t₄.withFault f₅) with ⟨f₆, htick'⟩ | htick'
  swap
  · exact Or.inr ⟨none, hundo (hchecked'.trans (h₅.trans htick')) (hdropped.withFault none),
      harmed (armed_of_ok unarmed.tick htick (harm₅ (armed_of_tick_error htick')))⟩
  · left
    refine ⟨f₆, Call.tryCatch_of_ok (hchecked'.trans (h₅.trans (htick'.trans ?_)))⟩
    rw [State.withFault_withFault, ht₄, hall, h.retain_eq hdes]
    congr 1
    apply State.ext_control <;> try rfl
    change { t.control with activeReservation := none, fault := f₆ } =
      { (base.lend (keptRows desired)).control with fault := f₆ }
    rw [State.lend_control, h.control]

theorem Leased.finalize (h : Leased base rows t r) (hok : PoolOk base)
    (keep : List (Nat × Int)) :
    (∃ e f, finalizeTemporaryAppend r keep t = .error e (t.withFault f) ∧
      (t.fault ≠ none ∨ ∃ e', desiredRetention r keep = .error e')) ∨
    (∃ f desired, desiredRetention r keep = .ok desired ∧ finalizeTemporaryAppend r keep t =
      .ok true ((base.lend (keptRows desired)).withFault f)) := by
  have hstart : finalizeTemporaryAppend r keep t = _ := Call.bind_of_ok (Call.get_apply t)
  rw [hstart, h.active]
  simp only [ne_eq, not_true_eq_false, ↓reduceIte]
  rw [h.validate hok, Call.bind_of_ok (liftExcept_ok _ _)]
  cases hdes : desiredRetention r keep with
  | error e =>
    exact Or.inl ⟨e, t.fault, Call.bind_of_error (liftExcept_error e t), Or.inr ⟨e, rfl⟩⟩
  | ok desired =>
    rw [Call.bind_of_ok (liftExcept_ok _ _)]
    rcases h.applyRetention_cases hdes with ⟨f, hcall⟩ | ⟨f, hcall, harmed⟩
    · exact Or.inr ⟨f, desired, rfl, by rw [Call.bind_of_ok hcall]; rfl⟩
    · exact Or.inl ⟨.injected, f, Call.bind_of_error hcall, Or.inl harmed⟩

theorem flatMap_retainRow_sublist (desired : List (TemporaryReservationRow × Nat)) :
    (desired.flatMap retainRow).Sublist
      ((desired.map Prod.fst).flatMap TemporaryReservationRow.appendedBlockIds) := by
  induction desired with
  | nil => exact List.Sublist.refl _
  | cons e desired ih =>
    rw [List.flatMap_cons, List.map_cons, List.flatMap_cons]
    exact (List.take_sublist _ _).append ih

/-- Trimming keeps, of each row, a prefix of what it was lent. -/
theorem Leased.kept_prefix (h : Leased base rows t r) (hfst : desired.map Prod.fst = r.rows)
    (x : Nat) : lentTo (keptRows desired) x <+: lentTo rows x := by
  have hkeys : (keptRows desired).map Prod.fst = rows.map Prod.fst := by
    rw [keptRows_fst, hfst, h.sequences]
  by_cases hx : x ∈ rows.map Prod.fst
  · obtain ⟨e, he, rfl⟩ := List.mem_map.mp hx
    have hrow : ({ snapshotRow base e.1 with appendedBlockIds := e.2 } : TemporaryReservationRow) ∈
        desired.map Prod.fst := by
      rw [hfst, h.record]
      exact List.mem_map_of_mem he
    obtain ⟨kept, hkept, heq⟩ := List.mem_map.mp hrow
    have hentry : (e.1, e.2.take kept.2) ∈ keptRows desired := by
      refine List.mem_map.mpr ⟨kept, hkept, ?_⟩
      unfold retainRow
      rw [heq]
      rfl
    rw [lentTo_of_mem h.distinct he, lentTo_of_mem (by rw [hkeys]; exact h.distinct) hentry]
    exact List.take_prefix _ _
  · rw [lentTo_eq_nil hx, lentTo_eq_nil (by rwa [hkeys])]

theorem Leased.kept_sublist (h : Leased base rows t r) (hfst : desired.map Prod.fst = r.rows) :
    (lentBlocks (keptRows desired)).Sublist (lentBlocks rows) := by
  have hkept := flatMap_retainRow_sublist desired
  rw [hfst, h.record] at hkept
  change (desired.flatMap retainRow).Sublist ((leaseRecordRows base rows).flatMap _) at hkept
  rw [leaseRecordRows_appended] at hkept
  rwa [lentBlocks_keptRows]

theorem Leased.kept_free (h : Leased base rows t r) (hok : PoolOk base)
    (hfst : desired.map Prod.fst = r.rows) :
    (lentBlocks (keptRows desired)).Nodup ∧
      ∀ b ∈ lentBlocks (keptRows desired), b ∈ base.freeBlockIds := by
  have hsub : (lentBlocks (keptRows desired)).Sublist base.freeBlockIds := by
    have hkept := h.kept_sublist hfst
    rw [h.front] at hkept
    exact hkept.trans (List.take_sublist _ _)
  exact ⟨hok.nodup.sublist hsub, fun b hb => hsub.subset hb⟩

end Finalize

end NanoVllm
