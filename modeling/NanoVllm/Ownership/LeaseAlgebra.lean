/- module: NanoVllm/Ownership/LeaseAlgebra
   layer: main result
   source: nanovllm/engine/block_manager.py, the temporary lease
   digest: Reserve, roll back and finalize as operations on owned pools. -/

import NanoVllm.Ownership.AllocatorOps
import NanoVllm.Speculation.Lending

set_option autoImplicit false
set_option relaxedAutoImplicit false

namespace NanoVllm

open Library

variable {cfg : Config} {s t u v base : State} {live : List Nat} {cov : Nat → Nat}
  {rows : List (Nat × List Nat)} {r : TemporaryBlockReservation} {wanted : List (Nat × Nat)}

/-- The blocks a request needs beyond the tables of its rows. -/
def leaseDemand (cfg : Config) (s : State) (wanted : List (Nat × Nat)) : Nat :=
  (wanted.map fun e => e.2 / cfg.kvcacheBlockSize + 1 - (s.table e.1).length).sum

/-- No lease is open and no reservation is under way. -/
structure Unleased (s : State) : Prop where
  reservation : s.activeReservation = none
  progress : s.reservationInProgress = false
  internal : s.internalAllocation = false

/-- The lease `r` of `wanted` has been opened on `s`: the front of the free list is handed
out in row order, and nothing else about ownership changes. -/
structure LeaseOpened (cfg : Config) (s : State) (wanted : List (Nat × Nat))
    (r : TemporaryBlockReservation) (u : State) : Prop where
  order : r.allocationOrder = s.freeBlockIds.take (leaseDemand cfg s wanted)
  segments : ∃ segments : List (List Nat), segments.flatten = r.allocationOrder ∧
    List.Forall₂ (fun e segment => u.table e.1 = s.table e.1 ++ segment ∧
      (u.table e.1).length = max (e.2 / cfg.kvcacheBlockSize + 1) (s.table e.1).length)
      wanted segments
  others : ∀ y, y ∉ wanted.map Prod.fst → u.table y = s.table y
  seqs : ∀ y, u.seqs y = { s.seqs y with blockTable := u.table y }
  free : u.freeBlockIds = s.freeBlockIds.drop (leaseDemand cfg s wanted)
  used : u.usedBlockIds = s.usedBlockIds ∪ r.allocationOrder.toFinset
  fresh : ∀ b ∈ r.allocationOrder, u.blocks b = Block.fresh
  blocks : ∀ b, b ∉ r.allocationOrder → u.blocks b = s.blocks b
  index : u.hashToBlockId = restrict (· ∉ r.allocationOrder) s.hashToBlockId
  control : u.control = { s.control with
    activeReservation := some r
    nextReservationId := s.nextReservationId + 1
    fault := u.fault }

theorem leaseNeed_eq (cfg : Config) (s : State) (x highest : Nat) :
    leaseNeed cfg s x highest = highest / cfg.kvcacheBlockSize + 1 - (s.table x).length := by
  unfold leaseNeed
  omega

private theorem leaseDemand_eq (cfg : Config) (s : State) (wanted : List (Nat × Nat)) :
    (wanted.map fun e => leaseNeed cfg s e.1 e.2).sum = leaseDemand cfg s wanted := by
  unfold leaseDemand
  simp only [leaseNeed_eq]

private theorem OwnIf.poolMembership {table : Nat → List Nat} (h : Own cfg live table cov s) :
    PoolMembership cfg s := by
  refine ⟨h.free_nodup, ?_, ?_⟩
  · ext b
    simp only [Finset.mem_inter, List.mem_toFinset, Finset.notMem_empty, iff_false, not_and]
    exact fun hb => ((h.mem_free b).mp hb).2
  · ext b
    simp only [Finset.mem_union, List.mem_toFinset, Finset.mem_range]
    constructor
    · rintro (hb | hb)
      · exact ((h.mem_free b).mp hb).1
      · exact h.used_lt b hb
    · intro hb
      by_cases hused : b ∈ s.usedBlockIds
      · exact Or.inr hused
      · exact Or.inl ((h.mem_free b).mpr ⟨hb, hused⟩)

theorem leaseSlices_forall₂ : ∀ (specs : List ReservationRowSpec) (free : List Nat),
    (specs.map ReservationRowSpec.newBlocks).sum ≤ free.length →
      List.Forall₂ (fun spec slice => slice.1 = spec.sequence ∧
        slice.2.length = spec.newBlocks) specs (leaseSlices free specs) := by
  intro specs
  induction specs with
  | nil => exact fun _ _ => .nil
  | cons spec specs ih =>
    intro free hroom
    rw [List.map_cons, List.sum_cons] at hroom
    refine .cons ⟨rfl, ?_⟩ (ih _ ?_)
    · rw [List.length_take]
      omega
    · rw [List.length_drop]
      omega

theorem length_lentTo_leaseSlices {xs free : List Nat} {need : Nat → Nat} {x : Nat}
    (hnd : ((leaseSlices free (xs.map fun x => ⟨x, need x⟩)).map Prod.fst).Nodup)
    (hroom : (xs.map need).sum ≤ free.length) (hx : x ∈ xs) :
    (lentTo (leaseSlices free (xs.map fun x => ⟨x, need x⟩)) x).length = need x := by
  obtain ⟨slices, hslices⟩ : ∃ slices, slices =
    leaseSlices free (xs.map fun x => ⟨x, need x⟩) := ⟨_, rfl⟩
  have hall := leaseSlices_forall₂ (xs.map fun x => ⟨x, need x⟩) free (by
    rw [List.map_map]
    exact hroom)
  rw [List.forall₂_map_left_iff, ← hslices] at hall
  rw [← hslices] at hnd ⊢
  obtain ⟨i, hi, hget⟩ := List.getElem_of_mem hx
  have hin : i < slices.length := hi.trans_eq hall.length_eq
  obtain ⟨hseq, hlen⟩ := (List.forall₂_iff_get.mp hall).2 i hi hin
  rw [List.get_eq_getElem, List.get_eq_getElem, hget] at hseq hlen
  have hentry : (x, slices[i].2) ∈ slices := by
    rw [show (x, slices[i].2) = slices[i] from Prod.ext hseq.symm rfl]
    exact List.getElem_mem hin
  rw [lentTo_of_mem hnd hentry]
  exact hlen

variable (cfg) in
private theorem lease_opened (hok : PoolOk s)
    (hrows : rows = leaseSlices s.freeBlockIds
      (wanted.map fun e => ⟨e.1, leaseNeed cfg s e.1 e.2⟩))
    (hnd : (rows.map Prod.fst).Nodup)
    (hroom : (wanted.map fun e => leaseNeed cfg s e.1 e.2).sum ≤ s.freeBlockIds.length)
    (f : Option Nat) (id : Nat) :
    LeaseOpened cfg s wanted (leaseRecord s rows id 0)
      ((s.lease rows (leaseRecord s rows id 0)).withFault f) := by
  have hsum : ((wanted.map fun e => (⟨e.1, leaseNeed cfg s e.1 e.2⟩ : ReservationRowSpec)).map
      ReservationRowSpec.newBlocks).sum = leaseDemand cfg s wanted := by
    rw [List.map_map, ← leaseDemand_eq]
    rfl
  have hlent : lentBlocks rows = s.freeBlockIds.take (leaseDemand cfg s wanted) := by
    rw [hrows, lentBlocks_leaseSlices, hsum]
  have hslices := leaseSlices_forall₂
    (wanted.map fun e => ⟨e.1, leaseNeed cfg s e.1 e.2⟩) s.freeBlockIds (by
      rw [List.map_map]
      exact hroom)
  rw [← hrows, List.forall₂_map_left_iff] at hslices
  have htable : ∀ e ∈ rows, (s.lend rows).table e.1 = s.table e.1 ++ e.2 := by
    intro e he
    rw [State.lend_table, lentTo_of_mem hnd (show (e.1, e.2) ∈ rows from he)]
  have hfst : rows.map Prod.fst = wanted.map Prod.fst := by
    rw [hrows, leaseSlices_fst, List.map_map]
    rfl
  refine ⟨hlent, ⟨rows.map Prod.snd, ?_, ?_⟩, ?_, fun _ => rfl, ?_, rfl, ?_, ?_, rfl, ?_⟩
  · exact List.flatMap_def.symm
  · rw [List.forall₂_map_right_iff]
    have hmem : List.Forall₂ (fun e slice => slice ∈ rows ∧ slice.1 = e.1 ∧
        slice.2.length = leaseNeed cfg s e.1 e.2) wanted rows :=
      List.forall₂_iff_get.mpr ⟨hslices.length_eq, fun i h₁ h₂ =>
        ⟨List.get_mem rows ⟨i, h₂⟩, (List.forall₂_iff_get.mp hslices).2 i h₁ h₂⟩⟩
    refine hmem.imp fun e slice h => ?_
    obtain ⟨hin, heq, hlen⟩ := h
    have htab : (s.lend rows).table e.1 = s.table e.1 ++ slice.2 := by
      rw [← heq]
      exact htable slice hin
    refine ⟨htab, ?_⟩
    change ((s.lend rows).table e.1).length = _
    rw [htab, List.length_append, hlen]
    unfold leaseNeed
    omega
  · intro y hy
    change (s.lend rows).table y = _
    rw [State.lend_table, lentTo_eq_nil (by rw [hfst]; exact hy), List.append_nil]
  · change s.freeBlockIds.filter (· ∉ lentBlocks rows) = _
    rw [hlent]
    exact filter_not_mem_take hok.nodup _
  · intro b hb
    have hb' : b ∈ lentBlocks rows := hb
    simp [State.lease, State.lend, State.withFault, hb']
  · intro b hb
    have hb' : b ∉ lentBlocks rows := hb
    simp [State.lease, State.lend, State.withFault, hb']
  · unfold State.control State.lease
    rfl

/-- What the calls on an open lease do: `base` is the state it returns to. -/
structure LeaseCloses (base u : State) (r : TemporaryBlockReservation) : Prop where
  rollback : rollbackTemporaryAppend r u = .ok true (base.withFault u.fault)
  prepare : match prepareTemporaryTargetWrites r u with
    | .error _ v => v = u.withFault v.fault
    | .ok r' v => r'.reservationId = r.reservationId ∧
      rollbackTemporaryAppend r' v = .ok true ((base.wipe r.allocationOrder).withFault v.fault) ∧
      ∃ e, rollbackTemporaryAppend r v = .error e v

private theorem Leased.fault_eq (h : Leased base rows u r) : base.fault = u.fault :=
  (congrArg Control.fault h.control).trans rfl

private theorem rollback_replaced (hact : u.activeReservation = some (writableRecord r)) :
    ∃ e, rollbackTemporaryAppend r u = .error e u := by
  refine ⟨.runtimeError "temporary reservation identity mismatch", ?_⟩
  unfold rollbackTemporaryAppend
  have hid : (writableRecord r).reservationId = r.reservationId := rfl
  have hne : writableRecord r ≠ r := by
    intro heq
    have hgen : r.generation + 1 = r.generation :=
      congrArg TemporaryBlockReservation.generation heq
    omega
  rw [Call.bind_of_ok (Call.get_apply u), hact]
  simp only [hid, ne_eq, not_true_eq_false, ↓reduceIte, hne, not_false_eq_true]
  rfl

private theorem Leased.closes (h : Leased base rows u r) (hok : PoolOk base) :
    LeaseCloses base u r where
  rollback := by
    rw [h.rollback hok, ← h.fault_eq]
    rfl
  prepare := by
    have halloc : r.allocationOrder = lentBlocks rows := by rw [h.record]; rfl
    rcases h.prepare hok with hprep | ⟨f, hprep, hleased⟩
    · rw [hprep]
      rfl
    · rw [hprep]
      refine ⟨rfl, ?_, rollback_replaced rfl⟩
      rw [hleased.rollback ((hok.wipe _).withFault f), halloc]
      rfl

/-- The lease calls on an owned pool. A request that is refused, too large or stopped at any
failure point leaves the pool and every row alone; an opened lease can be undone exactly,
with or without writable blocks, and no lease is consumed twice. -/
theorem temporary_lease_algebra (hown : Own cfg live s.table cov s) (hs : Unleased s)
    (wanted : List (Nat × Nat)) :
    match reserveTemporaryAppend cfg wanted s with
    | .error _ u => Untouched s u ∧ (s.fault ≠ none ∨ ¬ Reservable cfg s wanted)
    | .ok none u => Untouched s u ∧ Reservable cfg s wanted ∧
      s.freeBlockIds.length < leaseDemand cfg s wanted
    | .ok (some r) u => Reservable cfg s wanted ∧
      leaseDemand cfg s wanted ≤ s.freeBlockIds.length ∧ LeaseOpened cfg s wanted r u ∧
      LeaseCloses { s with nextReservationId := s.nextReservationId + 1 } u r ∧
      ∀ (ops ops' : List (Option Nat × AllocatorOp)) (q q' : TemporaryBlockReservation)
        (keep keep' : List (Nat × Int)) (t : State),
        rollbackTemporaryAppend q (runAllocator cfg ops u) = .ok true t ∨
          finalizeTemporaryAppend q keep (runAllocator cfg ops u) = .ok true t →
        q'.reservationId = r.reservationId →
          rollbackTemporaryAppend q' (runAllocator cfg ops' t) =
              .ok false (runAllocator cfg ops' t) ∧
            finalizeTemporaryAppend q' keep' (runAllocator cfg ops' t) =
              .ok false (runAllocator cfg ops' t) := by
  have hok := hown.poolOk
  rcases reserveTemporaryAppend_cases cfg hs.reservation hs.progress hs.internal hok
    wanted with ⟨e, f, n, hres, hwhy⟩ | ⟨f, hres, hable, hroom⟩ |
      ⟨f, rows, u, hres, hu, hrows, hnd, hable, hroom⟩
  · rw [hres]
    refine ⟨⟨f, n, s.nextCycleId, rfl⟩, ?_⟩
    rcases hwhy with harmed | hnot | hpool
    · exact Or.inl harmed
    · exact Or.inr hnot
    · exact absurd hown.poolMembership hpool
  · rw [hres]
    refine ⟨.withFault s f, hable, ?_⟩
    rw [← leaseDemand_eq]
    exact hroom
  · rw [hres]
    obtain ⟨r, hr⟩ : ∃ r, r = leaseRecord s rows s.nextReservationId 0 := ⟨_, rfl⟩
    have hopened := lease_opened cfg hok hrows hnd hroom f s.nextReservationId
    have hfront : lentBlocks rows = s.freeBlockIds.take (lentBlocks rows).length := by
      have horder : lentBlocks rows = _ := hopened.order
      rw [horder, List.length_take, leaseDemand_eq] at *
      rw [Nat.min_eq_left hroom]
    have hleased := (State.lease_leased hs.reservation hnd hfront s.nextReservationId 0).withFault f
    rw [← hu] at hopened hleased
    rw [← hr] at hopened hleased ⊢
    have hbase : PoolOk (({ s with nextReservationId := s.nextReservationId + 1 } :
        State).withFault f) := ⟨hok.nodup, hok.zero, hok.indexed⟩
    have hcloses := hleased.closes hbase
    refine ⟨hable, ?_, hopened, ⟨hcloses.rollback, hcloses.prepare⟩, ?_⟩
    · rw [← leaseDemand_eq]
      exact hroom
    · intro ops ops' q q' keep keep' t hdone hid
      have hissued : Issued r.reservationId u := by
        rw [hr, hu]
        exact Nat.lt_succ_self _
      have hrun : Issued r.reservationId (runAllocator cfg ops u) :=
        (issued_ledgered r.reservationId).runAllocator (fun _ _ _ hs => hs) (fun _ _ hs => hs)
          ops hissued
      exact consumed_once hrun hdone ops' hid keep'

private theorem sharedPool_unleased : Unleased State.sharedPool := ⟨rfl, rfl, rfl⟩

/-- The lease takes the cached block that is free, and its rollback gives it back; a second one
does nothing. -/
theorem temporary_lease_algebra_sample : ∃ r u t,
    reserveTemporaryAppend Config.roomy [(0, 7), (1, 4)] State.sharedPool = .ok (some r) u ∧
      r.allocationOrder = [3, 4, 5] ∧ u.table 0 = [0, 1, 3, 4] ∧ u.table 1 = [0, 2, 5] ∧
      u.blocks 3 = .fresh ∧ t = { State.sharedPool with nextReservationId := 1 } ∧
      LeaseCloses t u r ∧ rollbackTemporaryAppend r u = .ok true t ∧
      finalizeTemporaryAppend r [(0, 1), (1, 0)] t = .ok false t := by
  obtain ⟨r, u, hres, hfault, -, -, horder, hfirst, hsecond, -⟩ := sharedPool_reserve
  obtain ⟨s, hs⟩ : ∃ s, s = State.sharedPool := ⟨_, rfl⟩
  have hown : Own Config.roomy [0, 1] s.table (fun _ => 1) s := hs ▸ sharedPool_own
  have hunleased : Unleased s := hs ▸ sharedPool_unleased
  have hidle : s.fault = none := by
    rw [hs]
    rfl
  rw [← hs] at hres ⊢
  have h := temporary_lease_algebra hown hunleased [(0, 7), (1, 4)]
  rw [hres] at h
  obtain ⟨-, -, hopened, hcloses, honce⟩ := h
  have hself : ({ s with nextReservationId := s.nextReservationId + 1 } : State).withFault u.fault =
      { s with nextReservationId := s.nextReservationId + 1 } := by
    rw [hfault, ← hidle]
    rfl
  have hroll := hcloses.rollback
  rw [hself] at hroll
  refine ⟨r, u, _, hres, horder, hfirst, hsecond, ?_, ?_, hcloses, hroll, ?_⟩
  · exact hopened.fresh 3 (by rw [horder]; simp)
  · rw [hs]
    rfl
  · exact (honce [] [] r r [] [(0, 1), (1, 0)] _ (.inl hroll) rfl).2

/-- An open lease of a pool `s`: one that was reserved there, the one that target-write
preparation put in its place (`written`), or either under other fields of the caller. -/
inductive LiveLease (cfg : Config) (s : State) : Bool → TemporaryBlockReservation → State → Prop
  | reserved {wanted : List (Nat × Nat)} {r : TemporaryBlockReservation} {u : State} :
      reserveTemporaryAppend cfg wanted s = .ok (some r) u → LiveLease cfg s false r u
  | prepared {written : Bool} {r r' : TemporaryBlockReservation} {u v : State} :
      LiveLease cfg s written r u → prepareTemporaryTargetWrites r u = .ok r' v →
        LiveLease cfg s true r' v
  | caller {written : Bool} {r : TemporaryBlockReservation} {u : State} {c : Control} :
      LiveLease cfg s written r u → c.activeReservation = some r →
        LiveLease cfg s written r (u.withControl c)

def State.returned (s : State) (written : Bool) (ids : List Nat) : State :=
  if written then s.wipe ids else s

private theorem State.wipe_wipe (s : State) (ids : List Nat) : (s.wipe ids).wipe ids = s.wipe ids := by
  apply State.ext_control <;> try rfl
  · funext b
    by_cases hb : b ∈ ids <;> simp [State.wipe, hb]
  · apply Finmap.ext_lookup
    intro k
    simp only [State.wipe, lookup_restrict]
    cases s.hashToBlockId.lookup k with
    | none => rfl
    | some b => by_cases hb : b ∈ ids <;> simp [Option.filter, hb]

private theorem State.returned_wipe (s : State) (written : Bool) (ids : List Nat) :
    (s.returned written ids).wipe ids = s.wipe ids := by
  cases written
  · rfl
  · exact s.wipe_wipe ids

private theorem PoolOk.returned (h : PoolOk s) (written : Bool) (ids : List Nat) :
    PoolOk (s.returned written ids) := by
  cases written
  · exact h
  · exact h.wipe ids

private theorem OwnIf.returned (h : Own cfg live s.table cov s) (written : Bool) (ids : List Nat) :
    Own cfg live s.table cov (s.returned written ids) := by
  cases written
  · exact h
  · exact h.wipe ids

@[simp] theorem State.returned_table (s : State) (written : Bool) (ids : List Nat) :
    (s.returned written ids).table = s.table := by
  cases written <;> rfl

private theorem PoolOk.withControl (h : PoolOk s) (c : Control) : PoolOk (s.withControl c) :=
  ⟨h.nodup, h.zero, h.indexed⟩

private theorem LiveLease.leased (hok : PoolOk s) (hs : Unleased s) {written : Bool}
    (h : LiveLease cfg s written r u) : ∃ (rows : List (Nat × List Nat)) (c : Control),
      Leased ((s.returned written (lentBlocks rows)).withControl c) rows u r := by
  induction h with
  | @reserved wanted r u hres =>
    rcases reserveTemporaryAppend_cases cfg hs.reservation hs.progress hs.internal hok
      wanted with ⟨e, f, n, hcase, -⟩ | ⟨f, hcase, -⟩ | ⟨f, rows, v, hcase, hv, hrows, hnd, -, hroom⟩
    · rw [hcase] at hres
      exact absurd hres (by simp)
    · rw [hcase] at hres
      exact absurd (EStateM.Result.ok.inj hres).1 (by simp)
    · rw [hcase] at hres
      obtain ⟨hr, rfl⟩ := EStateM.Result.ok.inj hres
      have hopened := lease_opened cfg hok hrows hnd hroom f s.nextReservationId
      have hfront : lentBlocks rows = s.freeBlockIds.take (lentBlocks rows).length := by
        have horder : lentBlocks rows = _ := hopened.order
        rw [horder, List.length_take, leaseDemand_eq] at *
        rw [Nat.min_eq_left hroom]
      have hleased := (State.lease_leased hs.reservation hnd hfront s.nextReservationId 0).withFault f
      rw [← hv, Option.some.inj hr] at hleased
      exact ⟨rows, { s.control with
        nextReservationId := s.nextReservationId + 1
        fault := f }, hleased⟩
  | @prepared written r r' u v _ hprep ih =>
    obtain ⟨rows, c, hleased⟩ := ih
    rcases hleased.prepare ((hok.returned _ _).withControl _) with hcase | ⟨f, hcase, hnew⟩
    · rw [hcase] at hprep
      exact absurd hprep (by simp)
    · rw [hcase] at hprep
      obtain ⟨rfl, rfl⟩ := EStateM.Result.ok.inj hprep
      refine ⟨rows, { c with fault := f }, ?_⟩
      have hpool : (((s.returned written (lentBlocks rows)).withControl c).wipe
          (lentBlocks rows)).withFault f =
          (s.returned true (lentBlocks rows)).withControl { c with fault := f } := by
        have hwipe := s.returned_wipe written (lentBlocks rows)
        change State.withControl ((s.returned written (lentBlocks rows)).wipe (lentBlocks rows))
          { c with fault := f } = _
        rw [hwipe]
        rfl
      rw [← hpool]
      exact hnew
  | @caller written r u c _ hactive ih =>
    obtain ⟨rows, c', hleased⟩ := ih
    exact ⟨rows, _, hleased.withControl hactive⟩

/-- `keep` names each leased row exactly once, with a count inside its own suffix. -/
structure NamesRows (r : TemporaryBlockReservation) (keep : List (Nat × Int)) : Prop where
  once : (keep.map Prod.fst).Perm (r.rows.map TemporaryReservationRow.sequence)
  within : ∀ row ∈ r.rows, ∀ n, (row.sequence, n) ∈ keep →
    0 ≤ n ∧ n ≤ row.appendedBlockIds.length

def keepOf (keep : List (Nat × Int)) (x : Nat) : Nat :=
  (((keep.find? fun e => e.1 = x).map Prod.snd).getD 0).toNat

def keptBlocks (r : TemporaryBlockReservation) (keep : List (Nat × Int)) : List Nat :=
  r.rows.flatMap fun row => row.appendedBlockIds.take (keepOf keep row.sequence)

/-- The lease `r` of `s`, open in `u`, has been trimmed to `keep`. -/
structure LeaseTrimmed (s : State) (written : Bool) (r : TemporaryBlockReservation)
    (keep : List (Nat × Int)) (u v : State) : Prop where
  rows : ∀ row ∈ r.rows, ∀ n, (row.sequence, n) ∈ keep →
    v.table row.sequence = s.table row.sequence ++ row.appendedBlockIds.take n.toNat
  others : ∀ y, y ∉ r.rows.map TemporaryReservationRow.sequence → v.table y = s.table y
  seqs : ∀ y, v.seqs y = { s.seqs y with blockTable := v.table y }
  free : v.freeBlockIds = s.freeBlockIds.filter (· ∉ keptBlocks r keep)
  used : v.usedBlockIds = s.usedBlockIds ∪ (keptBlocks r keep).toFinset
  index : v.hashToBlockId = restrict (· ∉ keptBlocks r keep)
    (if written then restrict (· ∉ r.allocationOrder) s.hashToBlockId else s.hashToBlockId)
  kept : ∀ b ∈ keptBlocks r keep, v.blocks b = Block.fresh
  released : ∀ b ∈ r.allocationOrder, b ∉ keptBlocks r keep → v.blocks b =
    if written then { s.blocks b with hash := none, tokenIds := [], updates := 0 } else s.blocks b
  blocks : ∀ b, b ∉ r.allocationOrder → v.blocks b = s.blocks b
  control : v.control = { u.control with activeReservation := none, fault := v.fault }

private theorem retainedRows_of (keep : List (Nat × Int)) (lease : List TemporaryReservationRow)
    (h : ∀ row ∈ lease, ∃ n, retainedCount row keep = .ok n) :
    ∃ desired, retainedRows keep lease = .ok desired := by
  induction lease with
  | nil => exact ⟨[], rfl⟩
  | cons row lease ih =>
    obtain ⟨n, hn⟩ := h row (by simp)
    obtain ⟨more, hmore⟩ := ih fun q hq => h q (List.mem_cons_of_mem row hq)
    refine ⟨(row, n) :: more, ?_⟩
    unfold retainedRows
    rw [hn, hmore]
    rfl

private theorem retainedCount_eq {keep : List (Nat × Int)} {row : TemporaryReservationRow} {n : Nat}
    (h : retainedCount row keep = .ok n) : n = keepOf keep row.sequence ∧
      ∃ c : Int, keep.find? (fun e => e.1 = row.sequence) = some (row.sequence, c) ∧
        0 ≤ c ∧ c ≤ row.appendedBlockIds.length := by
  unfold retainedCount at h
  cases hfind : keep.find? fun e => e.1 = row.sequence with
  | none =>
    rw [hfind] at h
    exact absurd h (by simp [throw, throwThe, MonadExceptOf.throw])
  | some e =>
    obtain ⟨x, c⟩ := e
    have hx : x = row.sequence := by simpa using List.find?_some hfind
    rw [hfind] at h
    dsimp only at h
    by_cases hout : c < 0 ∨ (row.appendedBlockIds.length : Int) < c
    · rw [if_pos hout] at h
      exact absurd h (by simp [throw, throwThe, MonadExceptOf.throw])
    · rw [if_neg hout] at h
      have hn : c.toNat = n := by simpa [pure, Except.pure] using h
      refine ⟨?_, c, by rw [hx], by omega, by omega⟩
      unfold keepOf
      rw [hfind]
      exact hn.symm

private theorem keptBlocks_eq {keep : List (Nat × Int)} {desired : List (TemporaryReservationRow × Nat)}
    (hdes : desiredRetention r keep = .ok desired) :
    desired.flatMap retainRow = keptBlocks r keep := by
  obtain ⟨hfst, hcounts, -, -⟩ := desiredRetention_ok hdes
  unfold keptBlocks
  rw [← hfst, List.flatMap_map]
  have hrow : ∀ e ∈ desired, retainRow e =
      e.1.appendedBlockIds.take (keepOf keep e.1.sequence) := by
    intro e he
    unfold retainRow
    rw [(retainedCount_eq (hcounts e he)).1]
  exact List.flatMap_congr hrow

private theorem retain_release_perm (desired : List (TemporaryReservationRow × Nat)) :
    (desired.flatMap retainRow ++ desired.flatMap releaseRow).Perm
      ((desired.map Prod.fst).flatMap TemporaryReservationRow.appendedBlockIds) := by
  induction desired with
  | nil => exact .refl _
  | cons e desired ih =>
    rw [List.flatMap_cons, List.flatMap_cons, List.map_cons, List.flatMap_cons]
    have hrow : e.1.appendedBlockIds = retainRow e ++ releaseRow e :=
      (List.take_append_drop e.2 e.1.appendedBlockIds).symm
    rw [hrow, List.append_assoc, List.append_assoc]
    refine List.Perm.append_left _ ?_
    calc desired.flatMap retainRow ++ (releaseRow e ++ desired.flatMap releaseRow)
        = (desired.flatMap retainRow ++ releaseRow e) ++ desired.flatMap releaseRow := by
          rw [List.append_assoc]
      _ |>.Perm ((releaseRow e ++ desired.flatMap retainRow) ++ desired.flatMap releaseRow) :=
          List.Perm.append_right _ List.perm_append_comm
      _ = releaseRow e ++ (desired.flatMap retainRow ++ desired.flatMap releaseRow) := by
          rw [List.append_assoc]
      _ |>.Perm _ := List.Perm.append_left _ ih

private theorem Leased.order_nodup (h : Leased base rows u r) (hok : PoolOk base) :
    r.allocationOrder.Nodup := by
  have halloc : r.allocationOrder = lentBlocks rows := by rw [h.record]; rfl
  rw [halloc, h.front]
  exact hok.nodup.sublist (List.take_sublist _ _)

private theorem Leased.appended_eq (h : Leased base rows u r) :
    r.rows.flatMap TemporaryReservationRow.appendedBlockIds = r.allocationOrder := by
  rw [h.record]
  exact leaseRecordRows_appended base rows

/-- The checks of a finalize accept exactly the mappings that name the rows of the lease. -/
theorem Leased.desired_iff (h : Leased base rows u r) (hok : PoolOk base)
    {keep : List (Nat × Int)} :
    (∃ desired, desiredRetention r keep = .ok desired) ↔ NamesRows r keep := by
  have hxs : (r.rows.map TemporaryReservationRow.sequence).Nodup := by
    rw [h.sequences]
    exact h.distinct
  constructor
  · rintro ⟨desired, hdes⟩
    obtain ⟨hfst, hcounts, -, -⟩ := desiredRetention_ok hdes
    unfold desiredRetention at hdes
    obtain ⟨hlen, hdes⟩ := Call.except_guard hdes
    obtain ⟨hnd, -⟩ := Call.except_guard hdes
    have hnd' := not_not.mp hnd
    have hfound : ∀ row ∈ r.rows, ∃ c : Int, keep.find? (fun e => e.1 = row.sequence) =
        some (row.sequence, c) ∧ 0 ≤ c ∧ c ≤ row.appendedBlockIds.length := by
      intro row hrow
      rw [← hfst] at hrow
      obtain ⟨e, he, rfl⟩ := List.mem_map.mp hrow
      exact (retainedCount_eq (hcounts e he)).2
    constructor
    · have hsub : r.rows.map TemporaryReservationRow.sequence ⊆ keep.map Prod.fst := by
        intro x hx
        obtain ⟨row, hrow, rfl⟩ := List.mem_map.mp hx
        obtain ⟨c, hc, -⟩ := hfound row hrow
        exact List.mem_map.mpr ⟨_, List.mem_of_find?_eq_some hc, rfl⟩
      refine ((hxs.subperm hsub).perm_of_length_le ?_).symm
      rw [List.length_map, List.length_map]
      exact (not_not.mp hlen).le
    · intro row hrow n hn
      obtain ⟨c, hc, hpos, hle⟩ := hfound row hrow
      have hn' := find_of_nodup hnd' hn
      rw [hc] at hn'
      have hcn : c = n := (Prod.mk.inj (Option.some.inj hn')).2
      rw [← hcn]
      exact ⟨hpos, hle⟩
  · intro hnames
    have hlen : keep.length = r.rows.length := by
      have := hnames.once.length_eq
      rwa [List.length_map, List.length_map] at this
    have hnd : (keep.map Prod.fst).Nodup := hnames.once.nodup_iff.mpr hxs
    have hset := List.toFinset_eq_of_perm _ _ hnames.once
    obtain ⟨desired, hrows⟩ := retainedRows_of keep r.rows (by
      intro row hrow
      have hmem : row.sequence ∈ keep.map Prod.fst :=
        hnames.once.mem_iff.mpr (List.mem_map_of_mem hrow)
      obtain ⟨⟨x, c⟩, he, hx⟩ := List.mem_map.mp hmem
      obtain rfl : x = row.sequence := hx
      obtain ⟨hpos, hle⟩ := hnames.within row hrow c he
      refine ⟨c.toNat, ?_⟩
      unfold retainedCount
      rw [find_of_nodup hnd he]
      dsimp only
      rw [if_neg (by omega)]
      rfl)
    obtain ⟨hfst, -⟩ := retainedRows_ok hrows
    have hperm := retain_release_perm desired
    rw [hfst, h.appended_eq] at hperm
    have hnodup := hperm.nodup_iff.mpr (h.order_nodup hok)
    refine ⟨desired, ?_⟩
    unfold desiredRetention
    rw [if_neg (not_not.mpr hlen), if_neg (not_not.mpr hnd), if_neg (not_not.mpr hset), hrows]
    change (if _ then _ else _ : Except Raised (List (TemporaryReservationRow × Nat))) = _
    rw [if_neg]
    · rfl
    · rw [not_or]
      constructor
      · rw [List.any_eq_true]
        rintro ⟨b, hb, hrel⟩
        exact (List.nodup_append.mp hnodup).2.2 b hb b (by simpa using hrel) rfl
      · rw [not_not]
        exact List.toFinset_eq_of_perm _ _ hperm

private theorem Leased.trimmed {written : Bool} {c : Control}
    (h : Leased ((s.returned written (lentBlocks rows)).withControl c) rows u r)
    (hok : PoolOk s) {keep : List (Nat × Int)} {desired : List (TemporaryReservationRow × Nat)}
    (hdes : desiredRetention r keep = .ok desired) (f : Option Nat) :
    LeaseTrimmed s written r keep u
      ((((s.returned written (lentBlocks rows)).withControl c).lend (keptRows desired)).withFault
        f) := by
  obtain ⟨hfst, hcounts, -, hpart⟩ := desiredRetention_ok hdes
  have halloc : r.allocationOrder = lentBlocks rows := by rw [h.record]; rfl
  have hkept : lentBlocks (keptRows desired) = keptBlocks r keep := by
    rw [lentBlocks_keptRows, keptBlocks_eq hdes]
  obtain ⟨base, hbase⟩ : ∃ base, base = (s.returned written (lentBlocks rows)).withControl c :=
    ⟨_, rfl⟩
  rw [← hbase] at h ⊢
  have hseqs : base.seqs = s.seqs := by
    rw [hbase]
    cases written <;> rfl
  have htable : base.table = s.table := by
    unfold State.table
    rw [hseqs]
  have hblocks : ∀ b, base.blocks b = if written ∧ b ∈ r.allocationOrder then
      { s.blocks b with hash := none, tokenIds := [], updates := 0 } else s.blocks b := by
    intro b
    rw [hbase, halloc]
    cases written
    · simp [State.returned, State.withControl]
    · by_cases hb : b ∈ lentBlocks rows <;>
        simp [State.returned, State.withControl, State.wipe, hb]
  constructor
  · intro row hrow n hn
    rw [← hfst] at hrow
    obtain ⟨e, he, rfl⟩ := List.mem_map.mp hrow
    have hmem : (e.1.sequence, retainRow e) ∈ keptRows desired :=
      List.mem_map_of_mem (f := fun e => (e.1.sequence, retainRow e)) he
    change (base.lend (keptRows desired)).table e.1.sequence = _
    rw [State.lend_table, lentTo_of_mem (h.desired_distinct hfst) hmem, htable]
    congr 1
    obtain ⟨hcount, d, hfind, -⟩ := retainedCount_eq (hcounts e he)
    have hnames := (h.desired_iff ?_).mp ⟨desired, hdes⟩
    · have hnd := hnames.once.nodup_iff.mpr (by rw [h.sequences]; exact h.distinct)
      have hn' := find_of_nodup hnd hn
      unfold retainRow
      rw [hcount]
      unfold keepOf
      rw [hn']
      rfl
    · rw [hbase]
      exact (hok.returned _ _).withControl c
  · intro y hy
    change (base.lend (keptRows desired)).table y = _
    rw [State.lend_table, lentTo_eq_nil, List.append_nil, htable]
    rw [keptRows_fst, hfst]
    exact hy
  · intro y
    rw [← hseqs]
    rfl
  · change base.freeBlockIds.filter (· ∉ lentBlocks (keptRows desired)) = _
    rw [hkept, hbase]
    cases written <;> rfl
  · change base.usedBlockIds ∪ (lentBlocks (keptRows desired)).toFinset = _
    rw [hkept, hbase]
    cases written <;> rfl
  · change restrict (· ∉ lentBlocks (keptRows desired)) base.hashToBlockId = _
    rw [hkept, hbase, halloc]
    cases written <;> rfl
  · intro b hb
    rw [← hkept] at hb
    simp [State.lend, State.withFault, hb]
  · intro b hb hout
    rw [← hkept] at hout
    have hlend : ((base.lend (keptRows desired)).withFault f).blocks b = base.blocks b := by
      simp [State.lend, State.withFault, hout]
    rw [hlend, hblocks]
    cases written <;> simp [hb]
  · intro b hb
    have hout : b ∉ lentBlocks (keptRows desired) := by
      rw [lentBlocks_keptRows]
      exact fun hmem => hb ((hpart b).mp (Or.inl hmem))
    have hlend : ((base.lend (keptRows desired)).withFault f).blocks b = base.blocks b := by
      simp [State.lend, State.withFault, hout]
    rw [hlend, hblocks]
    simp [hb]
  · change { base.control with fault := f } = _
    rw [h.control]
    rfl

private theorem retainRow_of_zero {keep : List (Nat × Int)}
    {desired : List (TemporaryReservationRow × Nat)}
    (hdes : desiredRetention r keep = .ok desired) (hzero : ∀ e ∈ keep, e.2 = 0)
    {e : TemporaryReservationRow × Nat} (he : e ∈ desired) : retainRow e = [] := by
  obtain ⟨-, hcounts, -, -⟩ := desiredRetention_ok hdes
  obtain ⟨hcount, c, hfind, -⟩ := retainedCount_eq (hcounts e he)
  have hc : c = 0 := hzero _ (List.mem_of_find?_eq_some hfind)
  have hcount0 : e.2 = 0 := by
    rw [hcount]
    unfold keepOf
    rw [hfind, hc]
    rfl
  unfold retainRow
  rw [hcount0, List.take_zero]

private theorem State.lend_empty {α : Type} (s : State) (xs : List α) (f : α → Nat) :
    s.lend (xs.map fun e => (f e, [])) = s := by
  have hblocks : lentBlocks (xs.map fun e => (f e, ([] : List Nat))) = [] := by
    unfold lentBlocks
    rw [List.flatMap_map]
    exact List.flatMap_eq_nil_iff.mpr fun _ _ => rfl
  have hto : ∀ x, lentTo (xs.map fun e => (f e, ([] : List Nat))) x = [] := by
    intro x
    unfold lentTo
    rw [List.flatMap_map]
    exact List.flatMap_eq_nil_iff.mpr fun _ _ => by simp
  rw [(State.lend_congr s hto hblocks : s.lend _ = s.lend []), State.lend_nil]

/-- Finalizing an open lease of an owned pool. A mapping that names every row once within its
suffix trims the lease to it; any other mapping, and a failure at any point, leaves the lease
as it was. Keeping no block is a rollback, and the trimmed pool is owned. -/
theorem finalize_temporary_append_spec (hown : Own cfg live s.table cov s) (hs : Unleased s)
    {written : Bool} (hl : LiveLease cfg s written r u) (keep : List (Nat × Int)) :
    match finalizeTemporaryAppend r keep u with
    | .error _ v => v = u.withFault v.fault ∧ v.activeReservation = some r ∧
      (u.fault ≠ none ∨ ¬ NamesRows r keep)
    | .ok done v => done = true ∧ NamesRows r keep ∧ LeaseTrimmed s written r keep u v ∧
      ((∀ e ∈ keep, e.2 = 0) → rollbackTemporaryAppend r u = .ok true (v.withFault u.fault)) ∧
      ((∀ row ∈ r.rows, row.sequence ∈ live) → Own cfg live v.table cov v) := by
  have hok := hown.poolOk
  obtain ⟨rows, c, hleased⟩ := hl.leased hok hs
  have hbase := (hok.returned written (lentBlocks rows)).withControl c
  rcases hleased.finalize hbase keep with ⟨e, f, hfin, hwhy⟩ | ⟨f, desired, hdes, hfin⟩
  · rw [hfin]
    refine ⟨rfl, hleased.active, hwhy.imp id ?_⟩
    rintro ⟨e', he'⟩ hnames
    obtain ⟨desired, hdes⟩ := (hleased.desired_iff hbase).mpr hnames
    rw [hdes] at he'
    exact absurd he' (by simp)
  · rw [hfin]
    refine ⟨rfl, (hleased.desired_iff hbase).mp ⟨desired, hdes⟩,
      hleased.trimmed hok hdes f, ?_, ?_⟩
    · intro hzero
      have hempty : keptRows desired = desired.map fun e => (e.1.sequence, []) :=
        List.map_congr_left fun e he => by
          rw [retainRow_of_zero hdes hzero he]
      rw [hempty, State.lend_empty, hleased.rollback hbase, State.withFault_withFault,
        ← hleased.fault_eq]
      rfl
    · intro hrows
      obtain ⟨hfst, -, -, -⟩ := desiredRetention_ok hdes
      obtain ⟨hnd, hfree⟩ := hleased.kept_free hbase hfst
      have hpool : Own cfg live ((s.returned written (lentBlocks rows)).withControl c).table cov
          ((s.returned written (lentBlocks rows)).withControl c) := by
        rw [State.withControl_table, State.returned_table]
        exact (hown.returned written (lentBlocks rows)).congr_pool rfl rfl rfl rfl
      refine (hpool.lend ?_ hnd hfree).congr_pool rfl rfl rfl rfl
      intro e he
      have hmem : e.1 ∈ (keptRows desired).map Prod.fst := List.mem_map_of_mem he
      rw [keptRows_fst, hfst] at hmem
      obtain ⟨row, hrow, hx⟩ := List.mem_map.mp hmem
      rw [← hx]
      exact hrows row hrow

/-- The second request keeps its block, the last one of the lease; the cached block in front of it
is free again with its words. -/
theorem finalize_temporary_append_spec_sample : ∃ r u v,
    LiveLease Config.roomy State.sharedPool false r u ∧
      finalizeTemporaryAppend r [(1, 1), (0, 0)] u = .ok true v ∧
      LeaseTrimmed State.sharedPool false r [(1, 1), (0, 0)] u v ∧
      v.table 1 = [0, 2, 5] ∧ v.freeBlockIds = [3, 4] ∧
      v.blocks 3 = ⟨0, some secondDigest, [5, 6], 1⟩ ∧
      v.hashToBlockId.lookup secondDigest = some 3 ∧
      Own Config.roomy [0, 1] v.table (fun _ => 1) v := by
  obtain ⟨r, u, hres, hunarmed, -, hrows, horder, -⟩ := sharedPool_reserve
  have hlive : LiveLease Config.roomy State.sharedPool false r u := .reserved hres
  have hkept : keptBlocks r [(1, 1), (0, 0)] = [5] := by
    unfold keptBlocks
    rw [hrows]
    rfl
  have h := finalize_temporary_append_spec sharedPool_own sharedPool_unleased hlive [(1, 1), (0, 0)]
  cases hfin : finalizeTemporaryAppend r [(1, 1), (0, 0)] u with
  | error e v =>
    rw [hfin] at h
    refine absurd h.2.2 (not_or.mpr ⟨not_not.mpr hunarmed, not_not.mpr ⟨?_, ?_⟩⟩)
    · rw [hrows]
      decide
    · rw [hrows]
      intro row hrow n hn
      simp only [List.mem_cons, List.not_mem_nil, or_false] at hrow
      rcases hrow with rfl | rfl <;> simp at hn <;> subst hn <;> decide
  | ok done v =>
    rw [hfin] at h
    obtain ⟨rfl, -, htrimmed, -, hown⟩ := h
    refine ⟨r, u, v, hlive, hfin, htrimmed, ?_, ?_, ?_, ?_, hown ?_⟩
    · exact htrimmed.rows ⟨1, [0, 2], [5], 2, 0⟩ (by rw [hrows]; simp) 1 (by simp)
    · rw [htrimmed.free, hkept]
      rfl
    · rw [htrimmed.released 3 (by rw [horder]; simp) (by rw [hkept]; simp)]
      rfl
    · rw [htrimmed.index, hkept, if_neg Bool.false_ne_true]
      decide +kernel
    · rw [hrows]
      decide

end NanoVllm
