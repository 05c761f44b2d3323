/- module: NanoVllm/Ownership/AllocatorOps
   layer: main result
   source: nanovllm/engine/block_manager.py, the mutating operations and their fence
   digest: Runs of allocator calls: the fence of an open lease and the end of a consumed one. -/

import NanoVllm.Ownership.Retention

set_option autoImplicit false
set_option relaxedAutoImplicit false

namespace NanoVllm

open Library

variable {cfg : Config} {s t : State} {a r : TemporaryBlockReservation} {id : Nat}

/-- A mutating allocator call; `touch` is a caller writing to a request object. -/
inductive AllocatorOp
  | allocate (x numCachedBlocks : Nat)
  | allocateIncremental (x numCachedBlocks throughTokens : Nat)
  | extend (x throughTokens : Nat)
  | mayAppend (x : Nat)
  | hashBlocks (x : Nat)
  | rollbackUncommittedAppends (rows : List (Nat × Nat))
  | deallocate (x : Nat)
  | reserve (rows : List (Nat × Nat))
  | rollback (r : TemporaryBlockReservation)
  | prepare (r : TemporaryBlockReservation)
  | finalize (r : TemporaryBlockReservation) (keep : List (Nat × Int))
  | touch (x : Nat) (f : Sequence → Sequence)

namespace AllocatorOp

def run (cfg : Config) : AllocatorOp → Call Unit
  | allocate x n => NanoVllm.allocate cfg x n
  | allocateIncremental x n through => do
    let _ ← NanoVllm.allocateIncremental cfg x n through
  | extend x through => do
    let _ ← NanoVllm.extend cfg x through
  | mayAppend x => NanoVllm.mayAppend cfg x
  | hashBlocks x => NanoVllm.hashBlocks cfg x
  | rollbackUncommittedAppends rows => do
    let _ ← NanoVllm.rollbackUncommittedAppends cfg rows
  | deallocate x => NanoVllm.deallocate x
  | reserve rows => do
    let _ ← reserveTemporaryAppend cfg rows
  | rollback r => do
    let _ ← rollbackTemporaryAppend r
  | prepare r => do
    let _ ← prepareTemporaryTargetWrites r
  | finalize r keep => do
    let _ ← finalizeTemporaryAppend r keep
  | touch x f => modifySeq x f

/-- The state the call leaves when it may fail at the given failure point. -/
def apply (cfg : Config) (s : State) (e : Option Nat × AllocatorOp) : State :=
  Call.after (e.2.run cfg (s.withFault e.1))

/-- The operations the fence of the lease `a` refuses: all but the lease's own calls and
the release of a participating row. -/
def Foreign (a : TemporaryBlockReservation) : AllocatorOp → Prop
  | allocate _ _ | allocateIncremental _ _ _ | extend _ _ | mayAppend _ | hashBlocks _
  | rollbackUncommittedAppends _ | reserve _ => True
  | deallocate x => x ∉ a.rows.map TemporaryReservationRow.sequence
  | rollback _ | prepare _ | finalize _ _ | touch _ _ => False

end AllocatorOp

def runAllocator (cfg : Config) (ops : List (Option Nat × AllocatorOp)) (s : State) : State :=
  ops.foldl (AllocatorOp.apply cfg) s

private theorem assertAllowed_active (hact : s.activeReservation = some a) (operation : String)
    (internal : Bool) : ∃ e, assertAllocatorMutationAllowed operation internal s = .error e s := by
  refine ⟨.runtimeError s!"cannot {operation} while a temporary reservation is active", ?_⟩
  unfold assertAllocatorMutationAllowed
  rw [Call.bind_of_ok (Call.get_apply s)]
  simp only [hact, Option.isSome_some, Option.isNone_some, Bool.and_false, Bool.not_false,
    Bool.true_or, Bool.and_true, ↓reduceIte]
  rfl

private theorem raises_of_assert {α : Type} {check : Call Unit} {rest : Unit → Call α}
    (h : ∃ e, check s = .error e s) : ∃ e, (check >>= rest) s = .error e s := by
  obtain ⟨e, he⟩ := h
  exact ⟨e, Call.bind_of_error he⟩

private theorem raises_discard {α : Type} {c : Call α} (h : ∃ e, c s = .error e s) :
    ∃ e, (c >>= fun _ => pure ()) s = (.error e s : EStateM.Result Raised State Unit) := by
  obtain ⟨e, he⟩ := h
  exact ⟨e, Call.bind_of_error he⟩

private theorem AllocatorOp.fenced (hact : s.activeReservation = some a) {op : AllocatorOp}
    (hop : op.Foreign a) : ∃ e, op.run cfg s = .error e s := by
  have hassert := fun name internal => assertAllowed_active hact name internal
  cases op with
  | allocate x n => exact raises_of_assert (hassert _ _)
  | allocateIncremental x n through => exact raises_discard (raises_of_assert (hassert _ _))
  | extend x through => exact raises_discard (raises_of_assert (hassert _ _))
  | mayAppend x => exact raises_of_assert (hassert _ _)
  | hashBlocks x => exact raises_of_assert (hassert _ _)
  | rollbackUncommittedAppends rows => exact raises_discard (raises_of_assert (hassert _ _))
  | deallocate x =>
    have hout : x ∉ a.rows.map TemporaryReservationRow.sequence := hop
    refine ⟨.runtimeError
      "cannot deallocate an unrelated sequence while a temporary reservation is active",
      (Call.bind_of_ok (Call.get_apply s)).trans ?_⟩
    rw [hact]
    dsimp only
    rw [if_pos hout]
    rfl
  | reserve rows =>
    refine raises_discard ⟨.runtimeError "a temporary reservation is already active",
      (Call.bind_of_ok (Call.get_apply s)).trans ?_⟩
    rw [hact, if_pos (by simp)]
    rfl
  | rollback r => exact hop.elim
  | prepare r => exact hop.elim
  | finalize r keep => exact hop.elim
  | touch x f => exact hop.elim

variable (cfg) in
private theorem runAllocator_fenced : ∀ {ops : List (Option Nat × AllocatorOp)} {s : State},
    s.activeReservation = some a → (∀ e ∈ ops, e.2.Foreign a) →
      ∃ f, runAllocator cfg ops s = s.withFault f := by
  intro ops
  induction ops with
  | nil => exact fun {s} _ _ => ⟨s.fault, rfl⟩
  | cons e ops ih =>
    intro s hact hops
    obtain ⟨err, hrun⟩ : ∃ err, e.2.run cfg (s.withFault e.1) = .error err (s.withFault e.1) :=
      AllocatorOp.fenced (s := s.withFault e.1) hact
      (hops e (by simp))
    have hstep : AllocatorOp.apply cfg s e = s.withFault e.1 := by
      unfold AllocatorOp.apply
      rw [hrun]
      rfl
    obtain ⟨f, hrest⟩ := ih (s := s.withFault e.1) hact
      fun d hd => hops d (List.mem_cons_of_mem e hd)
    refine ⟨f, ?_⟩
    change runAllocator cfg ops (AllocatorOp.apply cfg s e) = _
    rw [hstep, hrest]
    rfl

private theorem validateLiveReservation_withFault (s : State) (f : Option Nat)
    (r : TemporaryBlockReservation) :
    validateLiveReservation (s.withFault f) r = validateLiveReservation s r := rfl

def OnlySeq (x : Nat) (seqs : Nat → Sequence) (s : State) : Prop := ∀ y, y ≠ x → s.seqs y = seqs y

section OnlySeq

variable {x : Nat} {seqs : Nat → Sequence}

private theorem OnlySeq.tick : Call.Keeps (OnlySeq x seqs) tick := by
  intro s hs
  rcases tick_cases s with ⟨f, h⟩ | h
  · unfold Call.Leaves
    rw [h]
    exact hs
  · unfold Call.Leaves
    rw [h]
    exact hs

private theorem OnlySeq.deallocateBlock (b : Nat) :
    Call.Keeps (OnlySeq x seqs) (deallocateBlock b) := by
  refine (Ledgered.assertAllowed _ _).bind fun _ => OnlySeq.tick.bind fun _ =>
    .get_bind fun s hs => ?_
  refine .guard ?_
  split
  · exact .throw_bind _ _
  · exact .set hs

private theorem OnlySeq.releaseBlocks : ∀ ids : List Nat,
    Call.Keeps (OnlySeq x seqs) (releaseBlocks ids) := by
  intro ids
  induction ids with
  | nil => exact .pure _
  | cons b ids ih =>
    refine .bind (.modify fun _ hs => hs) fun _ => .get_bind fun s _ => ?_
    dsimp only
    split
    · exact (OnlySeq.deallocateBlock b).bind fun _ => ih
    · exact ih

private theorem deallocate_onlySeq (hnone : s.activeReservation = none) (x : Nat) :
    Call.Leaves (deallocate x) s (OnlySeq x s.seqs) := by
  unfold Call.Leaves deallocate
  rw [Call.bind_of_ok (Call.get_apply s), hnone]
  have htail : Call.Keeps (OnlySeq x s.seqs) (do
      assertAllocatorMutationAllowed "deallocate a sequence" false
      let t ← get
      NanoVllm.releaseBlocks (t.seqs x).blockTable.reverse
      modifySeq x fun row => { row with
        numCachedTokens := 0
        numDraftCachedTokens := 0
        blockTable := [] } : Call Unit) := by
    refine (Ledgered.assertAllowed _ _).bind fun _ => .get_bind fun t _ =>
      (OnlySeq.releaseBlocks _).bind fun _ => .modify fun u hu y hy => ?_
    rw [State.setSeq_seqs, Function.update_of_ne hy]
    exact hu y hy
  exact htail s fun _ _ => rfl

end OnlySeq

private theorem rollback_active_ok (hact : s.activeReservation = some a) {done : Bool}
    (h : rollbackTemporaryAppend a s = .ok done t) : done = true ∧ t = s.restoreLease a := by
  unfold rollbackTemporaryAppend at h
  rw [Call.bind_of_ok (Call.get_apply s), hact] at h
  simp only [ne_eq, not_true_eq_false, ↓reduceIte] at h
  cases hvalid : validateLiveReservation s a with
  | error e =>
    rw [hvalid, Call.bind_of_error (liftExcept_error e s)] at h
    exact absurd h (by simp)
  | ok u =>
    rw [hvalid, Call.bind_of_ok (liftExcept_ok u s)] at h
    obtain ⟨hdone, ht⟩ := EStateM.Result.ok.inj h
    exact ⟨hdone.symm, ht.symm⟩

private theorem State.restoreRows_out (rows : List TemporaryReservationRow) (s : State) {y : Nat}
    (hy : y ∉ rows.map TemporaryReservationRow.sequence) :
    (s.restoreRows rows).seqs y = s.seqs y := by
  induction rows generalizing s with
  | nil => rfl
  | cons row rows ih =>
    rw [List.map_cons, List.mem_cons, not_or] at hy
    change ((s.restoreRow row).restoreRows rows).seqs y = _
    rw [ih (s.restoreRow row) hy.2]
    unfold State.restoreRow
    rw [State.setSeq_seqs, Function.update_of_ne hy.1]

private theorem State.restoreRows_table {rows : List TemporaryReservationRow}
    (hnd : (rows.map TemporaryReservationRow.sequence).Nodup) (s : State)
    {row : TemporaryReservationRow} (hrow : row ∈ rows) :
    ((s.restoreRows rows).seqs row.sequence).blockTable = row.blockTableBefore := by
  induction rows generalizing s with
  | nil => exact absurd hrow (by simp)
  | cons first rows ih =>
    rw [List.map_cons, List.nodup_cons] at hnd
    change (((s.restoreRow first).restoreRows rows).seqs row.sequence).blockTable = _
    rcases List.mem_cons.mp hrow with rfl | hrow
    · rw [State.restoreRows_out rows _ hnd.1]
      unfold State.restoreRow
      rw [State.setSeq_seqs, Function.update_self]
    · exact ih hnd.2 (s.restoreRow first) hrow

theorem State.restoreBlocks_seqs (states : List (Nat × Block)) (s : State) :
    (s.restoreBlocks states).seqs = s.seqs := by
  induction states generalizing s with
  | nil => rfl
  | cons e states ih => exact ih (s.setBlock e.1 e.2)

private theorem State.restoreLease_table (hnd : (a.rows.map TemporaryReservationRow.sequence).Nodup)
    (s : State) {row : TemporaryReservationRow} (hrow : row ∈ a.rows) :
    (s.restoreLease a).table row.sequence = row.blockTableBefore := by
  have hseqs : (s.restoreLease a).seqs = (s.restoreRows a.rows).seqs :=
    State.restoreBlocks_seqs a.blockStatesBefore (s.restoreRows a.rows)
  unfold State.table
  rw [hseqs]
  exact State.restoreRows_table hnd s hrow

private theorem deallocate_participant (hact : s.activeReservation = some a) {x : Nat}
    (hx : x ∈ a.rows.map TemporaryReservationRow.sequence) :
    deallocate x s = (do
      let _ ← rollbackTemporaryAppend a
      deallocate x) s := by
  have hstart : deallocate x s = _ := Call.bind_of_ok (Call.get_apply s)
  rw [hstart, hact]
  dsimp only
  rw [if_neg (not_not.mpr hx)]
  cases hroll : rollbackTemporaryAppend a s with
  | error e u => rw [Call.bind_of_error hroll, Call.bind_of_error hroll]
  | ok done u =>
    rw [Call.bind_of_ok hroll, Call.bind_of_ok hroll]
    have hu : u.activeReservation = none := by
      rw [(rollback_active_ok hact hroll).2]
      rfl
    refine Eq.trans ?_ (Call.bind_of_ok (Call.get_apply u)).symm
    rw [hu]

/-- While a lease is open every other mutating call raises and changes nothing, in any
number and order; releasing a participating row rolls the lease back first, so the other
participants stand at their tables from before the lease. -/
theorem lease_fence (hact : s.activeReservation = some a) :
    (∀ op : AllocatorOp, op.Foreign a → ∃ e, op.run cfg s = .error e s) ∧
    (∀ ops : List (Option Nat × AllocatorOp), (∀ e ∈ ops, e.2.Foreign a) →
      ∃ f, runAllocator cfg ops s = s.withFault f ∧
        validateLiveReservation (runAllocator cfg ops s) a = validateLiveReservation s a) ∧
    (∀ x ∈ a.rows.map TemporaryReservationRow.sequence, deallocate x s = (do
      let _ ← rollbackTemporaryAppend a
      deallocate x) s) ∧
    ((a.rows.map TemporaryReservationRow.sequence).Nodup →
      ∀ x ∈ a.rows.map TemporaryReservationRow.sequence, ∀ u,
        rollbackTemporaryAppend a s = .ok true u → ∀ row ∈ a.rows, row.sequence ≠ x →
          (Call.after (deallocate x s)).table row.sequence = row.blockTableBefore) := by
  refine ⟨fun op hop => op.fenced hact hop, ?_, fun x hx => deallocate_participant hact hx, ?_⟩
  · intro ops hops
    obtain ⟨f, hrun⟩ := runAllocator_fenced cfg hact hops
    refine ⟨f, hrun, ?_⟩
    rw [hrun, validateLiveReservation_withFault]
  · intro hnd x hx u hroll row hrow hne
    obtain ⟨-, rfl⟩ := rollback_active_ok hact hroll
    have hrest := deallocate_onlySeq (s := s.restoreLease a) rfl x
    unfold Call.Leaves at hrest
    rw [deallocate_participant hact hx, Call.bind_of_ok hroll]
    unfold State.table
    rw [hrest row.sequence hne]
    exact State.restoreLease_table hnd s hrow

/-- Both running requests lease blocks up to the end of their cycles, the front of the free list
first. -/
theorem sharedPool_reserve : ∃ r u, reserveTemporaryAppend Config.roomy [(0, 7), (1, 4)]
    State.sharedPool = .ok (some r) u ∧ u.fault = none ∧ u.activeReservation = some r ∧
      r.rows = [⟨0, [0, 1], [3, 4], 4, 0⟩, ⟨1, [0, 2], [5], 2, 0⟩] ∧
      r.allocationOrder = [3, 4, 5] ∧ u.table 0 = [0, 1, 3, 4] ∧ u.table 1 = [0, 2, 5] ∧
      (validateLiveReservation u r).isOk = true ∧
      ∃ t, rollbackTemporaryAppend r u = .ok true t := by
  have hrun : (Call.returned (reserveTemporaryAppend Config.roomy [(0, 7), (1, 4)]
      State.sharedPool)).any (fun e => e.1.any fun r => decide (e.2.fault = none ∧
        e.2.activeReservation = some r ∧
        r.rows = [⟨0, [0, 1], [3, 4], 4, 0⟩, ⟨1, [0, 2], [5], 2, 0⟩] ∧
        r.allocationOrder = [3, 4, 5] ∧ e.2.table 0 = [0, 1, 3, 4] ∧ e.2.table 1 = [0, 2, 5] ∧
        (validateLiveReservation e.2 r).isOk = true ∧
        (Call.returned (rollbackTemporaryAppend r e.2)).any Prod.fst = true)) = true := by
    decide +kernel
  obtain ⟨lease, u, hres, hrun⟩ := Call.of_returned hrun
  obtain ⟨r, rfl, hrun⟩ := (Option.any_eq_true _ _).mp hrun
  obtain ⟨hfault, hact, hrows, horder, hfirst, hsecond, hlive, hroll⟩ := of_decide_eq_true hrun
  obtain ⟨done, t, hroll, rfl⟩ := Call.of_returned hroll
  exact ⟨r, u, hres, hfault, hact, hrows, horder, hfirst, hsecond, hlive, t, hroll⟩

theorem lease_fence_sample : ∃ r u,
    reserveTemporaryAppend Config.roomy [(0, 7), (1, 4)] State.sharedPool = .ok (some r) u ∧
      (∃ e, (AllocatorOp.mayAppend 0).run Config.roomy u = .error e u) ∧
      (∃ f, runAllocator Config.roomy [(none, .hashBlocks 0), (some 0, .deallocate 2),
        (none, .allocateIncremental 2 2 5)] u = u.withFault f) ∧
      (validateLiveReservation (runAllocator Config.roomy [(none, .hashBlocks 0),
        (some 0, .deallocate 2), (none, .allocateIncremental 2 2 5)] u) r).isOk = true ∧
      u.table 1 = [0, 2, 5] ∧ (Call.after (deallocate 0 u)).table 1 = [0, 2] := by
  obtain ⟨r, u, hres, -, hact, hrows, -, -, hsecond, hlive, t, hroll⟩ := sharedPool_reserve
  have hrow : r.rows.map TemporaryReservationRow.sequence = [0, 1] := by
    rw [hrows]
    rfl
  obtain ⟨hfence, hmany, -, hrelease⟩ := @lease_fence Config.roomy u r hact
  obtain ⟨f, hkept, hvalid⟩ := hmany [(none, .hashBlocks 0), (some 0, .deallocate 2),
    (none, .allocateIncremental 2 2 5)] (by simp [AllocatorOp.Foreign, hrow])
  refine ⟨r, u, hres, hfence (.mayAppend 0) trivial, ⟨f, hkept⟩, hvalid ▸ hlive, hsecond, ?_⟩
  exact hrelease (by rw [hrow]; decide) 0 (by rw [hrow]; decide) t hroll ⟨1, [0, 2], [5], 2, 0⟩
    (by rw [hrows]; simp) (by decide)

def Issued (id : Nat) (s : State) : Prop := id < s.nextReservationId

def Consumed (id : Nat) (s : State) : Prop :=
  Issued id s ∧ ∀ q, s.activeReservation = some q → q.reservationId ≠ id

theorem keeps_tick {P : State → Prop} (hP : ∀ s f, P s → P (s.withFault f)) :
    Call.Keeps P tick := by
  intro s hs
  unfold Call.Leaves
  rcases tick_cases s with ⟨f, h⟩ | h
  · rw [h]
    exact hP s f hs
  · rw [h]
    exact hP s none hs

theorem issued_ledgered (id : Nat) : Ledgered (Issued id) where
  frame := by
    intro s t hs hl
    have hn : t.nextReservationId = s.nextReservationId := congrArg Ledger.nextId hl
    unfold Issued
    rw [hn]
    exact hs
  tick := keeps_tick fun _ _ hs => hs
  release hs := hs
  publish _ hs _ := Nat.lt_succ_of_lt hs
  replace _ _ hs := hs
  restore _ hs hl _ := lt_of_lt_of_eq hs (congrArg Ledger.nextId hl).symm

private theorem consumed_ledgered (id : Nat) : Ledgered (Consumed id) where
  frame := by
    intro s t hs hl
    refine ⟨(issued_ledgered id).frame hs.1 hl, fun q hq => hs.2 q ?_⟩
    have ha : t.activeReservation = s.activeReservation := congrArg Ledger.active hl
    rw [← ha]
    exact hq
  tick := keeps_tick fun _ _ hs => hs
  release hs := ⟨hs.1, fun q hq => absurd hq (by simp)⟩
  publish := by
    intro before s r hbefore hs hid
    refine ⟨Nat.lt_succ_of_lt hs.1, fun q hq => ?_⟩
    obtain rfl := Option.some.inj hq
    rw [hid]
    exact Nat.ne_of_gt hbefore.1
  replace := by
    intro s r r' hactive hid hs
    refine ⟨hs.1, fun q hq => ?_⟩
    obtain rfl := Option.some.inj hq
    rw [hid]
    exact hs.2 r hactive
  restore := by
    intro live s t hlive hs hl _
    refine ⟨lt_of_lt_of_eq hs.1 (congrArg Ledger.nextId hl).symm, fun q hq => hlive.2 q ?_⟩
    rw [← hq]
    exact (congrArg Ledger.active hl).symm

private theorem Ledgered.run {P : State → Prop} (h : Ledgered P)
    (htouch : ∀ s x q, P s → P (s.setSeq x q)) (op : AllocatorOp) :
    Call.Keeps P (op.run cfg) := by
  cases op with
  | allocate x n => exact h.allocate x n
  | allocateIncremental x n through =>
    exact (h.allocateIncremental x n through).bind fun _ => .pure _
  | extend x through => exact (h.extend x through).bind fun _ => .pure _
  | mayAppend x => exact h.mayAppend x
  | hashBlocks x => exact h.hashBlocks x
  | rollbackUncommittedAppends rows =>
    exact (h.rollbackUncommittedAppends rows).bind fun _ => .pure _
  | deallocate x => exact h.deallocate x
  | reserve rows => exact (h.reserveTemporaryAppend rows).bind fun _ => .pure _
  | rollback r => exact (h.rollbackTemporaryAppend r).bind fun _ => .pure _
  | prepare r => exact (h.prepareTemporaryTargetWrites r).bind fun _ => .pure _
  | finalize r keep => exact (h.finalizeTemporaryAppend r keep).bind fun _ => .pure _
  | touch x f => exact .modify fun s hs => htouch s x (f (s.seqs x)) hs

/-- What survives a rearmed countdown holds in every state of a run of allocator calls. -/
theorem Ledgered.runAllocator {P : State → Prop} (h : Ledgered P)
    (htouch : ∀ s x q, P s → P (s.setSeq x q)) (harm : ∀ s f, P s → P (s.withFault f))
    (ops : List (Option Nat × AllocatorOp)) :
    ∀ {s : State}, P s → P (runAllocator cfg ops s) := by
  induction ops with
  | nil => exact fun hs => hs
  | cons e ops ih => exact fun {s} hs => ih (h.run htouch e.2 _ (harm s e.1 hs))

private theorem Consumed.rollback {id : Nat} (h : Consumed id s) (hr : r.reservationId = id) :
    rollbackTemporaryAppend r s = .ok false s := by
  unfold rollbackTemporaryAppend
  rw [Call.bind_of_ok (Call.get_apply s)]
  cases hact : s.activeReservation with
  | none => rfl
  | some q =>
    dsimp only
    rw [if_pos (by rw [hr]; exact h.2 q hact)]
    rfl

private theorem Consumed.finalize {id : Nat} (h : Consumed id s) (hr : r.reservationId = id)
    (keep : List (Nat × Int)) : finalizeTemporaryAppend r keep s = .ok false s := by
  unfold finalizeTemporaryAppend
  rw [Call.bind_of_ok (Call.get_apply s)]
  cases hact : s.activeReservation with
  | none => rfl
  | some q =>
    dsimp only
    rw [if_pos (by rw [hr]; exact h.2 q hact)]
    rfl

private theorem rollback_true (h : rollbackTemporaryAppend r s = .ok true t) :
    s.activeReservation = some r ∧ t.activeReservation = none := by
  have hstart := h
  unfold rollbackTemporaryAppend at h
  rw [Call.bind_of_ok (Call.get_apply s)] at h
  cases hact : s.activeReservation with
  | none =>
    rw [hact] at h
    obtain ⟨hfalse, -⟩ := EStateM.Result.ok.inj h
    exact absurd hfalse (by simp)
  | some q =>
    rw [hact] at h
    dsimp only at h
    split at h
    · obtain ⟨hfalse, -⟩ := EStateM.Result.ok.inj h
      exact absurd hfalse (by simp)
    · split at h
      · exact absurd h (by simp)
      · rename_i hq
        have hqr : q = r := not_not.mp hq
        rw [hqr] at hact
        refine ⟨congrArg some hqr, ?_⟩
        rw [(rollback_active_ok hact hstart).2]
        rfl

private theorem ok_of_tryCatch {α : Type} {x : Call α} {f : State → State}
    {a : α} (h : (tryCatch x fun e => do
      modify f
      throw e) s = .ok a t) : x s = .ok a t := by
  cases hx : x s with
  | ok b u =>
    rw [Call.tryCatch_of_ok hx] at h
    exact h
  | error e u =>
    rw [Call.tryCatch_of_error hx] at h
    exact absurd h (by simp)

private theorem finalize_true {keep : List (Nat × Int)}
    (h : finalizeTemporaryAppend r keep s = .ok true t) : t.activeReservation = none := by
  unfold finalizeTemporaryAppend at h
  rw [Call.bind_of_ok (Call.get_apply s)] at h
  cases hact : s.activeReservation with
  | none =>
    rw [hact] at h
    obtain ⟨hfalse, -⟩ := EStateM.Result.ok.inj h
    exact absurd hfalse (by simp)
  | some q =>
    rw [hact] at h
    dsimp only at h
    split at h
    · obtain ⟨hfalse, -⟩ := EStateM.Result.ok.inj h
      exact absurd hfalse (by simp)
    · split at h
      · exact absurd h (by simp)
      · obtain ⟨-, s₁, -, h⟩ := Call.bind_ok h
        obtain ⟨desired, s₂, -, h⟩ := Call.bind_ok h
        obtain ⟨⟨⟩, s₃, happly, h⟩ := Call.bind_ok h
        obtain ⟨-, rfl⟩ := EStateM.Result.ok.inj h
        have hbody := ok_of_tryCatch happly
        -- the countdowns, the three mutations and the re-check, down to the last write
        obtain ⟨_, _, -, hbody⟩ := Call.bind_ok hbody
        obtain ⟨_, _, -, hbody⟩ := Call.bind_ok hbody
        obtain ⟨_, _, -, hbody⟩ := Call.bind_ok hbody
        obtain ⟨_, _, -, hbody⟩ := Call.bind_ok hbody
        obtain ⟨_, _, -, hbody⟩ := Call.bind_ok hbody
        obtain ⟨_, _, -, hbody⟩ := Call.bind_ok hbody
        obtain ⟨_, _, -, hbody⟩ := Call.bind_ok hbody
        obtain ⟨_, _, -, hbody⟩ := Call.bind_ok hbody
        obtain ⟨_, _, -, hbody⟩ := Call.bind_ok hbody
        obtain ⟨_, u, -, hbody⟩ := Call.bind_ok hbody
        obtain ⟨_, _, hdrop, hbody⟩ := Call.bind_ok hbody
        rw [Call.modify_apply] at hdrop
        obtain ⟨-, rfl⟩ := EStateM.Result.ok.inj hdrop
        rcases tick_cases { u with activeReservation := none } with ⟨f, htick⟩ | htick
        · rw [htick] at hbody
          obtain ⟨-, rfl⟩ := EStateM.Result.ok.inj hbody
          rfl
        · rw [htick] at hbody
          exact absurd hbody (by simp)

/-- Once a lease has been rolled back or finalized, no later call consumes it again. -/
theorem consumed_once {id : Nat} (hissued : Issued id s) {q : TemporaryBlockReservation}
    {keep : List (Nat × Int)}
    (hdone : rollbackTemporaryAppend q s = .ok true t ∨
      finalizeTemporaryAppend q keep s = .ok true t)
    (ops : List (Option Nat × AllocatorOp)) (hr : r.reservationId = id)
    (keep' : List (Nat × Int)) :
    rollbackTemporaryAppend r (runAllocator cfg ops t) = .ok false (runAllocator cfg ops t) ∧
      finalizeTemporaryAppend r keep' (runAllocator cfg ops t) =
        .ok false (runAllocator cfg ops t) := by
  have hconsumed : Consumed id t := by
    rcases hdone with hdone | hdone
    · have hissued' := (issued_ledgered id).rollbackTemporaryAppend q s hissued
      unfold Call.Leaves at hissued'
      rw [hdone] at hissued'
      refine ⟨hissued', fun p hp => ?_⟩
      rw [(rollback_true hdone).2] at hp
      exact absurd hp (by simp)
    · have hissued' := (issued_ledgered id).finalizeTemporaryAppend q keep s hissued
      unfold Call.Leaves at hissued'
      rw [hdone] at hissued'
      refine ⟨hissued', fun p hp => ?_⟩
      rw [finalize_true hdone] at hp
      exact absurd hp (by simp)
  have hrun : Consumed id (runAllocator cfg ops _) := 
    (consumed_ledgered id).runAllocator (fun _ _ _ hs => hs) (fun _ _ hs => hs) ops hconsumed
  exact ⟨hrun.rollback hr, hrun.finalize hr keep'⟩

end NanoVllm
