/- module: NanoVllm/Ownership/Reservation
   layer: refinement
   source: nanovllm/engine/block_manager.py, reserve, rollback, prepare and finalize of the lease
   digest: The outcomes of the four lease calls, at any failure point. -/

import NanoVllm.Ownership.Lease

set_option autoImplicit false
set_option relaxedAutoImplicit false

namespace NanoVllm

open Library

variable {cfg : Config} {s t base : State} {rows : List (Nat × List Nat)}
  {r : TemporaryBlockReservation}

def State.retouch (s : State) (f : Option Nat) (reservationId cycleId : Nat) : State :=
  { s with fault := f, nextReservationId := reservationId, nextCycleId := cycleId }

/-- `t` differs from `s` in counters and the failure countdown only. -/
def Untouched (s t : State) : Prop := ∃ f n c, t = s.retouch f n c

theorem Untouched.refl (s : State) : Untouched s s := ⟨s.fault, s.nextReservationId, s.nextCycleId, rfl⟩

theorem Untouched.trans {u : State} (h : Untouched s t) (h' : Untouched t u) : Untouched s u := by
  obtain ⟨f, n, c, rfl⟩ := h
  obtain ⟨f', n', c', rfl⟩ := h'
  exact ⟨f', n', c', rfl⟩

theorem Untouched.withFault (s : State) (f : Option Nat) : Untouched s (s.withFault f) :=
  ⟨f, s.nextReservationId, s.nextCycleId, rfl⟩

theorem PoolOk.untouched (h : PoolOk s) (ht : Untouched s t) : PoolOk t := by
  obtain ⟨f, n, c, rfl⟩ := ht
  exact ⟨h.nodup, h.zero, h.indexed⟩

private theorem forM_ok {α : Type} {l : List α} {f : α → Except Raised Unit}
    (h : ∀ a ∈ l, f a = .ok ⟨⟩) : l.forM f = .ok ⟨⟩ := by
  induction l with
  | nil => rfl
  | cons a l ih =>
    have hrest := ih fun b hb => h b (List.mem_cons_of_mem a hb)
    change (f a >>= fun _ => l.forM f) = _
    rw [h a (by simp)]
    exact hrest

private theorem lookupState_snapshot (s : State) {ids : List Nat} {b : Nat} (hb : b ∈ ids) :
    lookupState (snapshotBlockStates s ids) b = some (s.blocks b) := by
  have hlist : ∀ l : List Nat, b ∈ l →
      ((l.map fun c => (c, s.blocks c)).find? fun e => e.1 = b) = some (b, s.blocks b) := by
    intro l hl
    induction l with
    | nil => simp at hl
    | cons c l ih =>
      by_cases hcb : c = b
      · subst hcb
        simp
      · have hl' : b ∈ l := by
          rcases List.mem_cons.mp hl with heq | hl'
          · exact absurd heq.symm hcb
          · exact hl'
        rw [List.map_cons, List.find?_cons_of_neg (by simpa using hcb)]
        exact ih hl'
  unfold lookupState snapshotBlockStates
  rw [hlist _ (mem_sortedSet.mpr hb)]
  rfl

/-- Dropping each listed block's own entry leaves the entries of the other blocks. -/
private theorem foldl_erase_own {f : Nat → Option Nat} {ids : List Nat} :
    ∀ {m : HashIndex}, (∀ k b, m.lookup k = some b → b ∈ ids → f b = some k) →
      ids.foldl (fun m b => match f b with
        | none => m
        | some h => if m.lookup h = some b then m.erase h else m) m = restrict (· ∉ ids) m := by
  induction ids with
  | nil =>
    intro m _
    simp [restrict_true]
  | cons c ids ih =>
    intro m hm
    rw [List.foldl_cons]
    have hstep : ∀ k b, (match f c with
        | none => m
        | some h => if m.lookup h = some c then m.erase h else m : HashIndex).lookup k = some b ↔
          m.lookup k = some b ∧ b ≠ c := by
      intro k b
      cases hc : f c with
      | none =>
        simp only
        constructor
        · intro hb
          refine ⟨hb, fun hbc => ?_⟩
          have := hm k b hb (by simp [hbc])
          rw [hbc, hc] at this
          exact absurd this (by simp)
        · exact fun hb => hb.1
      | some g =>
        simp only
        by_cases hg : m.lookup g = some c
        · rw [if_pos hg]
          by_cases hkg : k = g
          · subst hkg
            rw [Finmap.lookup_erase, hg]
            simp only [Option.some.injEq, reduceCtorEq, ne_eq, false_iff, not_and, not_not]
            exact fun hbc => hbc.symm
          · rw [Finmap.lookup_erase_ne hkg]
            constructor
            · intro hb
              refine ⟨hb, fun hbc => hkg ?_⟩
              have := hm k b hb (by simp [hbc])
              rw [hbc, hc] at this
              exact (Option.some.inj this).symm
            · exact fun hb => hb.1
        · rw [if_neg hg]
          constructor
          · intro hb
            refine ⟨hb, fun hbc => hg ?_⟩
            have := hm k b hb (by simp [hbc])
            rw [hbc, hc] at this
            rw [Option.some.inj this, hb, hbc]
          · exact fun hb => hb.1
    rw [ih fun k b hb hmem => hm k b ((hstep k b).mp hb).1 (List.mem_cons_of_mem c hmem)]
    apply Finmap.ext_lookup
    intro k
    apply Option.ext
    intro b
    rw [lookup_restrict_eq_some, lookup_restrict_eq_some, hstep]
    simp only [List.mem_cons, not_or, decide_eq_true_eq]
    tauto

private theorem foldl_congr_mem {α β : Type} {f g : β → α → β} {l : List α}
    (h : ∀ b, ∀ a ∈ l, f b a = g b a) (b : β) : l.foldl f b = l.foldl g b := by
  induction l generalizing b with
  | nil => rfl
  | cons a l ih =>
    rw [List.foldl_cons, List.foldl_cons, h b a (by simp)]
    exact ih (fun c d hd => h c d (List.mem_cons_of_mem a hd)) _

private theorem leaseRecord_expectedHashes (hok : PoolOk base) (rows : List (Nat × List Nat))
    (id generation : Nat) :
    (leaseRecord base rows id generation).expectedHashes =
      restrict (· ∉ lentBlocks rows) base.hashToBlockId := by
  unfold TemporaryBlockReservation.expectedHashes
  rw [← foldl_erase_own (f := fun b => (base.blocks b).hash)
    (fun k b hb _ => hok.indexed k b hb)]
  apply foldl_congr_mem
  intro m b hb
  have hlook : lookupState (leaseRecord base rows id generation).blockStatesBefore b =
      some (base.blocks b) :=
    lookupState_snapshot base (List.mem_append_left _ hb)
  rw [hlook]
  rfl

private theorem Leased.validateMetadata (h : Leased base rows t r) :
    ∀ e ∈ r.blockStatesBefore, validateLeaseMetadata t r e = .ok ⟨⟩ := by
  intro e he
  have hrec := h.record
  have halloc : r.allocationOrder = lentBlocks rows := by rw [hrec]; rfl
  have hstate : e.2 = base.blocks e.1 := by
    rw [hrec] at he
    exact snapshotBlockStates_snd he
  unfold validateLeaseMetadata
  rw [h.blocks_eq, halloc]
  by_cases hb : e.1 ∈ lentBlocks rows
  · simp [State.lend, hb, Block.fresh]
    rfl
  · simp [State.lend, hb, hstate]
    rfl

private theorem Leased.validateRows (h : Leased base rows t r) :
    ∀ row ∈ r.rows, validateLeaseRow t row = .ok ⟨⟩ := by
  intro row hrow
  rw [h.record] at hrow
  obtain ⟨e, he, rfl⟩ := List.mem_map.mp hrow
  have hto : lentTo rows e.1 = e.2 := lentTo_of_mem h.distinct (show (e.1, e.2) ∈ rows from he)
  unfold validateLeaseRow
  simp [h.seqs_eq, State.lend, snapshotRow, hto, State.table]
  rfl

theorem Leased.validate (h : Leased base rows t r) (hok : PoolOk base) :
    validateLiveReservation t r = .ok ⟨⟩ := by
  have hrec := h.record
  have halloc : r.allocationOrder = lentBlocks rows := by rw [hrec]; rfl
  have hids : r.blockStatesBefore.map Prod.fst = r.stateIds := by
    rw [hrec]
    unfold TemporaryBlockReservation.stateIds leaseRecord
    rw [snapshotBlockStates_fst, leaseRecordRows_tables]
  have hnd : r.allocationOrder.Nodup := by
    rw [halloc, h.front]
    exact hok.nodup.sublist (List.take_sublist _ _)
  have hfree : t.freeBlockIds = r.freeBlockIdsBefore.drop r.allocationOrder.length := by
    rw [halloc, h.free_eq, hrec]
    change _ = base.freeBlockIds.drop _
    conv_lhs => rw [h.front]
    exact filter_not_mem_take hok.nodup _
  have hused : t.usedBlockIds = r.usedBlockIdsBefore ∪ r.allocationOrder.toFinset := by
    rw [halloc, h.used_eq, hrec]
    rfl
  have hindex : t.hashToBlockId = r.expectedHashes := by
    rw [h.index_eq, hrec, leaseRecord_expectedHashes hok]
  have hflat : r.flattenedAppends = r.allocationOrder := by
    rw [hrec]
    exact leaseRecordRows_appended base rows
  unfold validateLiveReservation
  simp only [h.active, hids, hnd, hfree, hused, hindex, hflat, ne_eq, not_true_eq_false, ↓reduceIte,
    forM_ok h.validateMetadata, forM_ok h.validateRows]
  rfl

def leaseNeed (cfg : Config) (s : State) (x highest : Nat) : Nat :=
  max (highest / cfg.kvcacheBlockSize + 1) (s.table x).length - (s.table x).length

/-- The rows of a reservation are distinct and their tables name owned blocks. -/
structure Reservable (cfg : Config) (s : State) (wanted : List (Nat × Nat)) : Prop where
  distinct : (wanted.map Prod.fst).Nodup
  owned : ∀ e ∈ wanted, ∀ b ∈ s.table e.1,
    b < cfg.numKvcacheBlocks ∧ b ∈ s.usedBlockIds ∧ 0 < (s.blocks b).refCount

def PoolMembership (cfg : Config) (s : State) : Prop :=
  s.freeBlockIds.Nodup ∧ s.freeBlockIds.toFinset ∩ s.usedBlockIds = ∅ ∧
    s.freeBlockIds.toFinset ∪ s.usedBlockIds = Finset.range cfg.numKvcacheBlocks

private theorem reservationRowSpecs_ok {wanted : List (Nat × Nat)} : ∀ {seen : List Nat}
    {specs : List ReservationRowSpec}, reservationRowSpecs cfg s wanted seen = .ok specs →
      specs = wanted.map (fun e => ⟨e.1, leaseNeed cfg s e.1 e.2⟩) ∧
      Reservable cfg s wanted ∧ ∀ e ∈ wanted, e.1 ∉ seen := by
  induction wanted with
  | nil =>
    intro seen specs h
    obtain rfl : [] = specs := by simpa [reservationRowSpecs, pure, Except.pure] using h
    exact ⟨rfl, ⟨List.nodup_nil, by simp⟩, by simp⟩
  | cons e wanted ih =>
    intro seen specs h
    obtain ⟨x, highest⟩ := e
    unfold reservationRowSpecs at h
    by_cases hseen : x ∈ seen
    · simp [hseen, bind, Except.bind, throw, throwThe, MonadExceptOf.throw] at h
    · by_cases htab : (s.seqs x).blockTable.any fun b => ¬ (b < cfg.numKvcacheBlocks
          ∧ b ∈ s.usedBlockIds ∧ 0 < (s.blocks b).refCount)
      · simp only [hseen, htab, ↓reduceIte] at h
        exact absurd h (by simp [bind, Except.bind, throw, throwThe, MonadExceptOf.throw])
      · simp only [hseen, htab, ↓reduceIte] at h
        cases hmore : reservationRowSpecs cfg s wanted (x :: seen) with
        | error e =>
          rw [hmore] at h
          exact absurd h (by simp [bind, Except.bind])
        | ok more =>
          rw [hmore] at h
          obtain ⟨hspecs, ⟨hnd, hown⟩, hout⟩ := ih hmore
          have hx : x ∉ wanted.map Prod.fst := by
            intro hmem
            obtain ⟨e, he, hex⟩ := List.mem_map.mp hmem
            exact hout e he (by simp [hex])
          refine ⟨?_, ?_, ?_⟩
          · rw [List.map_cons, ← hspecs]
            simpa [bind, Except.bind, pure, Except.pure, leaseNeed, State.table] using h.symm
          · refine ⟨?_, ?_⟩
            · rw [List.map_cons, List.nodup_cons]
              exact ⟨hx, hnd⟩
            · intro e he b hb
              rcases List.mem_cons.mp he with rfl | he
              · by_contra hnot
                exact htab (List.any_eq_true.mpr ⟨b, hb, decide_eq_true hnot⟩)
              · exact hown e he b hb
          · intro e he
            rcases List.mem_cons.mp he with rfl | he
            · exact hseen
            · exact fun hin => hout e he (List.mem_cons_of_mem x hin)

private theorem Reservable.specs {wanted : List (Nat × Nat)} : ∀ seen : List Nat,
    Reservable cfg s wanted → (∀ e ∈ wanted, e.1 ∉ seen) →
      ∃ specs, reservationRowSpecs cfg s wanted seen = .ok specs := by
  induction wanted with
  | nil => exact fun _ _ _ => ⟨[], rfl⟩
  | cons e wanted ih =>
    intro seen h hseen
    obtain ⟨x, highest⟩ := e
    have hnd := h.distinct
    rw [List.map_cons, List.nodup_cons] at hnd
    have hx : x ∉ seen := hseen (x, highest) (by simp)
    have htab : ((s.seqs x).blockTable.any fun b => ¬ (b < cfg.numKvcacheBlocks
        ∧ b ∈ s.usedBlockIds ∧ 0 < (s.blocks b).refCount)) = false := by
      rw [List.any_eq_false]
      intro b hb
      have hown := h.owned (x, highest) (by simp) b hb
      simpa only [decide_eq_true_eq, not_not] using hown
    obtain ⟨more, hmore⟩ := ih (x :: seen)
      ⟨hnd.2, fun e he => h.owned e (List.mem_cons_of_mem _ he)⟩ (by
        intro e he hin
        rcases List.mem_cons.mp hin with heq | hin
        · exact hnd.1 (List.mem_map.mpr ⟨e, he, heq⟩)
        · exact hseen e (List.mem_cons_of_mem _ he) hin)
    refine ⟨⟨x, leaseNeed cfg s x highest⟩ :: more, ?_⟩
    unfold reservationRowSpecs
    simp only [hx, htab, Bool.false_eq_true, ↓reduceIte, hmore]
    rfl

def State.lease (base : State) (rows : List (Nat × List Nat)) (r : TemporaryBlockReservation) :
    State :=
  { base.lend rows with
    nextReservationId := base.nextReservationId + 1
    activeReservation := some r }

theorem State.lease_leased (hnone : s.activeReservation = none) (hnd : (rows.map Prod.fst).Nodup)
    (hfront : lentBlocks rows = s.freeBlockIds.take (lentBlocks rows).length)
    (id generation : Nat) :
    Leased { s with nextReservationId := s.nextReservationId + 1 } rows
      (s.lease rows (leaseRecord s rows id generation)) (leaseRecord s rows id generation) where
  pool := rfl
  record := rfl
  active := rfl
  control := by
    unfold State.control
    rw [hnone]
    rfl
  distinct := hnd
  front := hfront

private theorem leaseCandidates_cases (hl : Leasing s) (hok : PoolOk s)
    {specs : List ReservationRowSpec}
    (hroom : (specs.map ReservationRowSpec.newBlocks).sum ≤ s.freeBlockIds.length)
    {saved : List TemporaryReservationRow} {states : List (Nat × Block)}
    (hsaved : saved = specs.map fun spec => snapshotRow s spec.sequence)
    (hstates : states = snapshotBlockStates s
      (s.freeBlockIds.take (specs.map ReservationRowSpec.newBlocks).sum ++
        saved.flatMap TemporaryReservationRow.blockTableBefore)) :
    (∃ f, leaseCandidates s specs
        (s.freeBlockIds.take (specs.map ReservationRowSpec.newBlocks).sum) saved states s =
      .ok (leaseRecordRows s (leaseSlices s.freeBlockIds specs))
        ((s.lend (leaseSlices s.freeBlockIds specs)).withFault f)) ∨
    (∃ f, leaseCandidates s specs
        (s.freeBlockIds.take (specs.map ReservationRowSpec.newBlocks).sum) saved states s =
      .error .injected (s.withFault f) ∧ s.fault ≠ none) := by
  unfold leaseCandidates
  rcases leaseRows_cases s hl hok hroom with
    ⟨f, hrows⟩ | ⟨seqRows, blockRows, u, hrows, hstop, hmem, hsub, harmed⟩
  · left
    refine ⟨f, Call.tryCatch_of_ok ?_⟩
    rw [Call.bind_of_ok hrows, if_neg]
    · rfl
    · rw [leaseRecordRows_appended, lentBlocks_leaseSlices]
      exact not_not.mpr rfl
  · right
    refine ⟨u.fault, ?_, harmed⟩
    rw [Call.tryCatch_of_error (Call.bind_of_error hrows)]
    have hsnap := State.restoreSnapshot_lend s (s := u) saved states hstop.seqs hstop.blocks
      (by
        intro row hrow
        rw [hsaved] at hrow
        obtain ⟨spec, _, rfl⟩ := List.mem_map.mp hrow
        exact saved_snapshotRow s spec.sequence)
      (by
        intro e he
        rw [hstates] at he
        exact snapshotBlockStates_snd he)
      (by
        intro e he
        rw [hsaved, List.map_map]
        exact hmem e he)
      (by
        intro b hb
        rw [hstates, snapshotBlockStates_fst, mem_sortedSet]
        exact List.mem_append_left _ (hsub b hb))
    rw [Call.bind_of_ok (Call.modify_apply _ _), hsnap, hstop.control]
    rfl

private theorem State.restoreLease_lend (id : Nat)
    (hseqs : t.seqs = (s.lend rows).seqs) (hblocks : t.blocks = (s.lend rows).blocks) {n : Nat}
    (hctl : { t.control with activeReservation := none } =
      (s.retouch t.fault n s.nextCycleId).control) :
    t.restoreLease (leaseRecord s rows id 0) = s.retouch t.fault n s.nextCycleId := by
  have hsnap := State.restoreSnapshot_lend s (s := t) (leaseRecordRows s rows)
    (snapshotBlockStates s (lentBlocks rows ++ rows.flatMap fun e => s.table e.1)) hseqs hblocks
    leaseRecordRows_saved (fun e he => snapshotBlockStates_snd he)
    (by
      intro e he
      rw [leaseRecordRows_sequence]
      exact List.mem_map_of_mem he)
    (by
      intro b hb
      rw [snapshotBlockStates_fst, mem_sortedSet]
      exact List.mem_append_left _ hb)
  change ({ State.restoreSnapshot _ (leaseRecordRows s rows) s.freeBlockIds
    s.usedBlockIds s.hashToBlockId (snapshotBlockStates s
      (lentBlocks rows ++ rows.flatMap fun e => s.table e.1)) with
      activeReservation := none } : State) = _
  rw [hsnap]
  apply State.ext_control <;> try rfl
  exact hctl

private theorem publishLease_cases (hnone : s.activeReservation = none) (hok : PoolOk s)
    (hnd : (rows.map Prod.fst).Nodup)
    (hfront : lentBlocks rows = s.freeBlockIds.take (lentBlocks rows).length) (id : Nat) :
    (∃ f, publishLease (leaseRecord s rows id 0) (s.lend rows) =
      .ok ⟨⟩ ((s.lease rows (leaseRecord s rows id 0)).withFault f)) ∨
    (∃ f n, publishLease (leaseRecord s rows id 0) (s.lend rows) =
      .error .injected (s.retouch f n s.nextCycleId) ∧ s.fault ≠ none) := by
  have hcontrol : { s.control with activeReservation := none } = s.control := by
    unfold State.control
    rw [hnone]
  unfold publishLease
  rcases tick_cases (s.lend rows) with ⟨f, htick⟩ | htick
  swap
  · right
    refine ⟨none, s.nextReservationId, ?_, armed_of_tick_error (s := s.lend rows) htick⟩
    rw [Call.tryCatch_of_error (Call.bind_of_error htick), Call.bind_of_ok (Call.modify_apply _ _),
      State.restoreLease_lend (t := (s.lend rows).withFault none) id rfl rfl
        (n := s.nextReservationId)]
    · rfl
    · exact (congrArg (fun c : Control => { c with fault := none }) hcontrol).trans rfl
  obtain ⟨p, hp⟩ : ∃ p, p = s.withFault f := ⟨_, rfl⟩
  have hpub : ({ (s.lend rows).withFault f with
      nextReservationId := s.nextReservationId + 1
      activeReservation := some (leaseRecord s rows id 0) } : State) =
      p.lease rows (leaseRecord p rows id 0) := by
    rw [hp]
    rfl
  rcases tick_cases (p.lease rows (leaseRecord p rows id 0)) with ⟨g, htick'⟩ | htick'
  swap
  · right
    refine ⟨none, s.nextReservationId + 1, ?_, ?_⟩
    · rw [Call.tryCatch_of_error (e := .injected)
        (t := (p.lease rows (leaseRecord p rows id 0)).withFault none)]
      · rw [Call.bind_of_ok (Call.modify_apply _ _),
          State.restoreLease_lend id (by rw [hp]; rfl) (by rw [hp]; rfl)
            (n := s.nextReservationId + 1)]
        · rfl
        · rw [hp]
          exact (congrArg (fun c : Control => { c with
            fault := none, nextReservationId := s.nextReservationId + 1 }) hcontrol).trans rfl
      · rw [Call.bind_of_ok htick, Call.bind_of_ok (Call.modify_apply _ _)]
        exact (congrArg (tick >>= _) hpub).trans (Call.bind_of_error htick')
    · have harmed : (p.lease rows (leaseRecord p rows id 0)).fault ≠ none :=
        armed_of_tick_error htick'
      rw [hp] at harmed
      exact armed_of_ok (s := s.lend rows) unarmed.tick htick harmed
  left
  refine ⟨g, Call.tryCatch_of_ok ?_⟩
  obtain ⟨q, hq⟩ : ∃ q, q = s.withFault g := ⟨_, rfl⟩
  have hqok : PoolOk q := by rw [hq]; exact hok.withFault g
  have hleased := State.lease_leased (s := q) (by rw [hq]; exact hnone) hnd
    (by rw [hq]; exact hfront) id 0
  have hvalid := hleased.validate ⟨hqok.nodup, hqok.zero, hqok.indexed⟩
  have hstate : (p.lease rows (leaseRecord p rows id 0)).withFault g =
      q.lease rows (leaseRecord q rows id 0) := by
    rw [hp, hq]
    rfl
  rw [hstate] at htick'
  rw [Call.bind_of_ok htick, Call.bind_of_ok (Call.modify_apply _ _)]
  refine (congrArg (tick >>= _) hpub).trans ?_
  rw [Call.bind_of_ok htick', Call.bind_of_ok (Call.get_apply _)]
  have hrec : leaseRecord s rows id 0 = leaseRecord q rows id 0 := by
    rw [hq]
    rfl
  rw [hrec, hvalid, hq]
  rfl

variable (cfg) in
private theorem reserveBody_cases (hl : Leasing s) (hok : PoolOk s) (wanted : List (Nat × Nat)) :
    (∃ e f n, reserveBody cfg wanted s = .error e (s.retouch f n s.nextCycleId) ∧
      (s.fault ≠ none ∨ ¬ Reservable cfg s wanted ∨ ¬ PoolMembership cfg s)) ∨
    (∃ f, reserveBody cfg wanted s = .ok none (s.withFault f) ∧ Reservable cfg s wanted ∧
      s.freeBlockIds.length < (wanted.map fun e => leaseNeed cfg s e.1 e.2).sum) ∨
    (∃ f rows, reserveBody cfg wanted s =
        .ok (some (leaseRecord s rows s.nextReservationId 0))
          ((s.lease rows (leaseRecord s rows s.nextReservationId 0)).withFault f) ∧
      rows = leaseSlices s.freeBlockIds (wanted.map fun e => ⟨e.1, leaseNeed cfg s e.1 e.2⟩) ∧
      (rows.map Prod.fst).Nodup ∧ Reservable cfg s wanted ∧
      (wanted.map fun e => leaseNeed cfg s e.1 e.2).sum ≤ s.freeBlockIds.length) := by
  rcases tick_cases s with ⟨f, htick⟩ | htick
  swap
  · left
    exact ⟨.injected, none, s.nextReservationId, Call.bind_of_error htick,
      Or.inl (armed_of_tick_error htick)⟩
  have hunarmed : (s.withFault f).fault ≠ none → s.fault ≠ none :=
    fun hf => armed_of_ok unarmed.tick htick hf
  have hres : Reservable cfg (s.withFault f) wanted ↔ Reservable cfg s wanted :=
    ⟨fun h => ⟨h.distinct, h.owned⟩, fun h => ⟨h.distinct, h.owned⟩⟩
  obtain ⟨q, hq⟩ : ∃ q, q = s.withFault f := ⟨_, rfl⟩
  rw [← hq] at htick hunarmed hres
  have hqseqs : q.seqs = s.seqs := by rw [hq]; rfl
  have hqfree : q.freeBlockIds = s.freeBlockIds := by rw [hq]; rfl
  have hqneed : ∀ x h, leaseNeed cfg q x h = leaseNeed cfg s x h := by
    intro x h
    rw [hq]
    rfl
  have hstart : reserveBody cfg wanted s = _ := (Call.bind_of_ok htick).trans
    (Call.bind_of_ok (Call.get_apply q))
  cases hspecs : reservationRowSpecs cfg q wanted [] with
  | error e =>
    left
    refine ⟨e, f, s.nextReservationId, ?_, Or.inr (Or.inl fun hnot => ?_)⟩
    · rw [hstart, hspecs, Call.bind_of_error (liftExcept_error e q), hq]
      rfl
    · obtain ⟨specs, hok'⟩ := (hres.mpr hnot).specs [] (by simp)
      rw [hspecs] at hok'
      exact absurd hok' (by simp)
  | ok specs =>
    obtain ⟨hform, hable, _⟩ := reservationRowSpecs_ok hspecs
    have hnd := hable.distinct
    have hsum : specs.map ReservationRowSpec.newBlocks =
        wanted.map fun e => leaseNeed cfg s e.1 e.2 := by
      rw [hform, List.map_map]
      apply List.map_congr_left
      intro e _
      exact hqneed e.1 e.2
    rw [hstart, hspecs, Call.bind_of_ok (liftExcept_ok specs q)]
    by_cases hroom : q.freeBlockIds.length < (specs.map ReservationRowSpec.newBlocks).sum
    · right; left
      refine ⟨f, ?_, hres.mp hable, ?_⟩
      · rw [if_pos hroom, hq]
        rfl
      · rw [← hsum, ← hqfree]
        exact hroom
    rw [if_neg hroom]
    by_cases hmem : q.freeBlockIds.Nodup ∧ q.freeBlockIds.toFinset ∩ q.usedBlockIds = ∅
        ∧ q.freeBlockIds.toFinset ∪ q.usedBlockIds = Finset.range cfg.numKvcacheBlocks
    swap
    · left
      refine ⟨.runtimeError "allocator membership snapshot is invalid", f, s.nextReservationId, ?_,
        Or.inr (Or.inr fun hpool => hmem (by rw [hq]; exact hpool))⟩
      rw [if_pos hmem, hq]
      rfl
    rw [if_neg (not_not.mpr hmem)]
    by_cases hcand : ((q.freeBlockIds.take (specs.map ReservationRowSpec.newBlocks).sum).any
        fun b => (q.blocks b).refCount ≠ 0) = true
    · obtain ⟨b, hb, href⟩ := List.any_eq_true.mp hcand
      have hzero := (hok.withFault f).zero b (by
        rw [hq] at hb
        exact List.mem_of_mem_take hb)
      rw [hq] at href
      exact absurd hzero (by simpa using href)
    rw [if_neg hcand]
    have hqok : PoolOk q := by rw [hq]; exact hok.withFault f
    have hql : Leasing q := by rw [hq]; exact ⟨hl.reservation, hl.progress, hl.internal⟩
    rcases leaseCandidates_cases hql hqok (Nat.le_of_not_lt hroom) rfl rfl with
      ⟨g, hlease⟩ | ⟨g, hlease, harmed⟩
    swap
    · left
      refine ⟨.injected, g, s.nextReservationId, ?_, Or.inl (hunarmed harmed)⟩
      rw [Call.bind_of_error hlease, hq]
      rfl
    rw [Call.bind_of_ok hlease]
    obtain ⟨rows, hrows⟩ : ∃ rows, rows = leaseSlices q.freeBlockIds specs := ⟨_, rfl⟩
    obtain ⟨p, hp⟩ : ∃ p, p = q.withFault g := ⟨_, rfl⟩
    have hlent := lentBlocks_leaseSlices q.freeBlockIds specs
    have hrnd : (rows.map Prod.fst).Nodup := by
      rw [hrows, leaseSlices_fst, hform, List.map_map]
      exact hnd
    have hfront : lentBlocks rows = p.freeBlockIds.take (lentBlocks rows).length := by
      rw [hrows, hlent, List.length_take, Nat.min_eq_left (Nat.le_of_not_lt hroom), hp]
      rfl
    have hrec : ({
        reservationId := q.nextReservationId
        generation := 0
        rows := leaseRecordRows q rows
        allocationOrder :=
          (leaseRecordRows q rows).flatMap TemporaryReservationRow.appendedBlockIds
        freeBlockIdsBefore := q.freeBlockIds
        usedBlockIdsBefore := q.usedBlockIds
        hashToBlockIdBefore := q.hashToBlockId
        blockStatesBefore := snapshotBlockStates q
          (q.freeBlockIds.take (specs.map ReservationRowSpec.newBlocks).sum ++
            (specs.map fun spec => snapshotRow q spec.sequence).flatMap
              TemporaryReservationRow.blockTableBefore) } : TemporaryBlockReservation) =
        leaseRecord p rows p.nextReservationId 0 := by
      have htables : (specs.map fun spec => snapshotRow q spec.sequence).flatMap
          TemporaryReservationRow.blockTableBefore = rows.flatMap fun e => q.table e.1 := by
        have hfst : rows.map Prod.fst = specs.map ReservationRowSpec.sequence := by
          rw [hrows, leaseSlices_fst]
        calc (specs.map fun spec => snapshotRow q spec.sequence).flatMap
              TemporaryReservationRow.blockTableBefore
            = (specs.map ReservationRowSpec.sequence).flatMap q.table := by
              rw [List.flatMap_map, List.flatMap_map]
              rfl
          _ = rows.flatMap fun e => q.table e.1 := by
              rw [← hfst, List.flatMap_map]
      rw [leaseRecordRows_appended, htables, ← hlent, ← hrows, hp]
      rfl
    have hpub := publishLease_cases (s := p)
      (by rw [hp, hq]; exact hl.reservation) (by rw [hp]; exact hqok.withFault g) hrnd hfront
      p.nextReservationId
    have hstate : (q.lend rows).withFault g = p.lend rows := by rw [hp]; rfl
    rw [← hrows, hrec, hstate]
    rcases hpub with ⟨k, hpub⟩ | ⟨k, n, hpub, harmed⟩
    · right; right
      refine ⟨k, rows, ?_, ?_, hrnd, hres.mp hable, ?_⟩
      · rw [Call.bind_of_ok hpub, hp, hq]
        rfl
      · rw [hrows, hqfree, hform]
        congr 1
        apply List.map_congr_left
        intro e _
        rw [hqneed]
      · rw [← hsum, ← hqfree]
        exact Nat.le_of_not_lt hroom
    · left
      refine ⟨.injected, k, n, ?_, Or.inl (hunarmed ?_)⟩
      · rw [Call.bind_of_error hpub, hp, hq]
        rfl
      · rw [hp] at harmed
        exact armed_of_ok (unarmed.leaseCandidates _ _ _ _ _) hlease harmed

variable (cfg) in
/-- The call raises with the state as it was, finds too few blocks, or opens a lease. -/
theorem reserveTemporaryAppend_cases (hnone : s.activeReservation = none)
    (hprog : s.reservationInProgress = false) (hint : s.internalAllocation = false)
    (hok : PoolOk s) (wanted : List (Nat × Nat)) :
    (∃ e f n, reserveTemporaryAppend cfg wanted s = .error e (s.retouch f n s.nextCycleId) ∧
      (s.fault ≠ none ∨ ¬ Reservable cfg s wanted ∨ ¬ PoolMembership cfg s)) ∨
    (∃ f, reserveTemporaryAppend cfg wanted s = .ok none (s.withFault f) ∧
      Reservable cfg s wanted ∧
      s.freeBlockIds.length < (wanted.map fun e => leaseNeed cfg s e.1 e.2).sum) ∨
    (∃ f rows t, reserveTemporaryAppend cfg wanted s =
        .ok (some (leaseRecord s rows s.nextReservationId 0)) t ∧
      t = (s.lease rows (leaseRecord s rows s.nextReservationId 0)).withFault f ∧
      rows = leaseSlices s.freeBlockIds (wanted.map fun e => ⟨e.1, leaseNeed cfg s e.1 e.2⟩) ∧
      (rows.map Prod.fst).Nodup ∧ Reservable cfg s wanted ∧
      (wanted.map fun e => leaseNeed cfg s e.1 e.2).sum ≤ s.freeBlockIds.length) := by
  obtain ⟨q, hq⟩ : ∃ q : State, q = { s with reservationInProgress := true } := ⟨_, rfl⟩
  have hqres : Reservable cfg q wanted ↔ Reservable cfg s wanted := by
    rw [hq]
    exact ⟨fun h => ⟨h.distinct, h.owned⟩, fun h => ⟨h.distinct, h.owned⟩⟩
  have hql : Leasing q := by
    rw [hq]
    exact ⟨hnone, rfl, hint⟩
  have hqok : PoolOk q := by
    rw [hq]
    exact ⟨hok.nodup, hok.zero, hok.indexed⟩
  have hback : ∀ f n, (q.retouch f n q.nextCycleId).endReservation =
      s.retouch f n s.nextCycleId := by
    intro f n
    rw [hq]
    apply State.ext_control <;> try rfl
    unfold State.control State.retouch State.endReservation
    rw [hprog, hint]
  have hstart : reserveTemporaryAppend cfg wanted s = _ :=
    Call.bind_of_ok (Call.get_apply s)
  have hguard : (s.activeReservation.isSome || s.reservationInProgress) = false := by
    rw [hnone, hprog]
    rfl
  rw [hstart, if_neg (by rw [hguard]; simp), Call.bind_of_ok (Call.set_apply _ _), ← hq]
  rcases reserveBody_cases cfg hql hqok wanted with
    ⟨e, f, n, hbody, hwhy⟩ | ⟨f, hbody, hable, hroom⟩ | ⟨f, rows, hbody, hrows, hnd, hable, hroom⟩
  · left
    refine ⟨e, f, n, ?_, ?_⟩
    swap
    · rw [hqres] at hwhy
      rw [hq] at hwhy
      exact hwhy
    rw [Call.bind_of_error (t := s.retouch f n s.nextCycleId)]
    rw [Call.tryCatch_of_error hbody, Call.bind_of_ok (Call.modify_apply _ _), hback]
    rfl
  · right; left
    refine ⟨f, ?_, hqres.mp hable, ?_⟩
    · rw [Call.bind_of_ok (Call.tryCatch_of_ok hbody), Call.bind_of_ok (Call.modify_apply _ _)]
      exact congrArg (EStateM.Result.ok none) ((hback f q.nextReservationId).trans (by rw [hq]; rfl))
    · rw [hq] at hroom
      exact hroom
  · right; right
    refine ⟨f, rows, _, ?_, rfl, ?_, hnd, hqres.mp hable, ?_⟩
    · rw [Call.bind_of_ok (Call.tryCatch_of_ok hbody), Call.bind_of_ok (Call.modify_apply _ _)]
      rw [hq]
      change EStateM.Result.ok _ _ = _
      congr 1
      apply State.ext_control <;> try rfl
      unfold State.control State.withFault State.endReservation State.lease State.lend
      rw [hprog, hint]
      rfl
    · rw [hrows, hq]
      rfl
    · rw [hq] at hroom
      exact hroom

end NanoVllm
