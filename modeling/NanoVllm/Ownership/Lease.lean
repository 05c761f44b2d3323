/- module: NanoVllm/Ownership/Lease
   layer: refinement
   source: nanovllm/engine/block_manager.py, the temporary lease
   digest: A reservation lends a front segment of the free list or leaves no trace. -/

import NanoVllm.Ownership.Allocation
import NanoVllm.Ownership.Ledger

set_option autoImplicit false
set_option relaxedAutoImplicit false

namespace NanoVllm

open Library

variable {distinct : Prop} {cfg : Config} {s t before : State} {x : Nat}

theorem State.ext_control (hseqs : s.seqs = t.seqs) (hblocks : s.blocks = t.blocks)
    (hindex : s.hashToBlockId = t.hashToBlockId) (hfree : s.freeBlockIds = t.freeBlockIds)
    (hused : s.usedBlockIds = t.usedBlockIds) (hcontrol : s.control = t.control) : s = t := by
  cases s
  cases t
  simp only [State.control, Control.mk.injEq] at hcontrol
  simp_all

def State.withFault (s : State) (f : Option Nat) : State := { s with fault := f }

@[simp] theorem State.withFault_self (s : State) : s.withFault s.fault = s := rfl

@[simp] theorem State.withFault_withFault (s : State) (f g : Option Nat) :
    (s.withFault f).withFault g = s.withFault g := rfl

@[simp] theorem State.withFault_seqs (s : State) (f : Option Nat) :
    (s.withFault f).seqs = s.seqs := rfl

@[simp] theorem State.withFault_free (s : State) (f : Option Nat) :
    (s.withFault f).freeBlockIds = s.freeBlockIds := rfl

/-- A failure point either lets the call go on or raises, and touches nothing else. -/
theorem tick_cases (s : State) :
    (∃ f, tick s = .ok ⟨⟩ (s.withFault f)) ∨ tick s = .error .injected (s.withFault none) := by
  unfold tick
  cases hf : s.fault with
  | none =>
    left
    refine ⟨none, ?_⟩
    simp [hf, State.withFault]
    rw [← hf]
  | some n =>
    cases n with
    | zero =>
      right
      simp [hf, State.withFault]
    | succ n =>
      left
      refine ⟨some n, ?_⟩
      simp [hf, State.withFault]

theorem armed_of_tick_error {e : Raised} (h : tick s = .error e t) : s.fault ≠ none := by
  intro hf
  have hok : tick s = .ok ⟨⟩ s := by
    unfold tick
    rw [Call.bind_of_ok (Call.get_apply s), hf]
    rfl
  rw [hok] at h
  exact absurd h (by simp)

theorem armed_of_ok {α : Type} {c : Call α} (hc : Call.Keeps State.Unarmed c) {a : α}
    (h : c s = .ok a t) (ht : t.fault ≠ none) : s.fault ≠ none := by
  intro hf
  have hafter := hc s hf
  unfold Call.Leaves at hafter
  rw [h] at hafter
  exact ht hafter

def lentBlocks (rows : List (Nat × List Nat)) : List Nat := rows.flatMap Prod.snd

def lentTo (rows : List (Nat × List Nat)) (x : Nat) : List Nat :=
  rows.flatMap fun e => if e.1 = x then e.2 else []

@[simp] theorem lentBlocks_nil : lentBlocks [] = [] := rfl

@[simp] theorem lentBlocks_cons (e : Nat × List Nat) (rows : List (Nat × List Nat)) :
    lentBlocks (e :: rows) = e.2 ++ lentBlocks rows := rfl

@[simp] theorem lentTo_nil (x : Nat) : lentTo [] x = [] := rfl

@[simp] theorem lentTo_cons (e : Nat × List Nat) (rows : List (Nat × List Nat)) (x : Nat) :
    lentTo (e :: rows) x = (if e.1 = x then e.2 else []) ++ lentTo rows x := rfl

theorem lentBlocks_append (rows more : List (Nat × List Nat)) :
    lentBlocks (rows ++ more) = lentBlocks rows ++ lentBlocks more := by
  simp [lentBlocks]

private theorem lentTo_append (rows more : List (Nat × List Nat)) (x : Nat) :
    lentTo (rows ++ more) x = lentTo rows x ++ lentTo more x := by
  simp [lentTo]

theorem lentTo_eq_nil {rows : List (Nat × List Nat)} (h : x ∉ rows.map Prod.fst) :
    lentTo rows x = [] := by
  unfold lentTo
  rw [List.flatMap_eq_nil_iff]
  intro e he
  have hne : e.1 ≠ x := fun heq => h (heq ▸ List.mem_map_of_mem he)
  simp [hne]

theorem lentTo_of_mem {rows : List (Nat × List Nat)} (hnd : (rows.map Prod.fst).Nodup)
    {ids : List Nat} (h : (x, ids) ∈ rows) : lentTo rows x = ids := by
  induction rows with
  | nil => simp at h
  | cons e rows ih =>
    rw [List.map_cons, List.nodup_cons] at hnd
    rw [lentTo_cons]
    rcases List.mem_cons.mp h with rfl | h
    · rw [lentTo_eq_nil hnd.1]
      simp
    · have hne : e.1 ≠ x := fun heq => hnd.1 (heq ▸ List.mem_map_of_mem h)
      rw [ih hnd.2 h]
      simp [hne]

/-- `rows` take their blocks from the free list: each block becomes fresh, leaves the
hash index and ends the table it is handed to. -/
def State.lend (s : State) (rows : List (Nat × List Nat)) : State :=
  { s with
    seqs := fun x => { s.seqs x with blockTable := s.table x ++ lentTo rows x }
    blocks := fun b => if b ∈ lentBlocks rows then Block.fresh else s.blocks b
    hashToBlockId := restrict (· ∉ lentBlocks rows) s.hashToBlockId
    freeBlockIds := s.freeBlockIds.filter (· ∉ lentBlocks rows)
    usedBlockIds := s.usedBlockIds ∪ (lentBlocks rows).toFinset }

@[simp] theorem State.lend_control (s : State) (rows : List (Nat × List Nat)) :
    (s.lend rows).control = s.control := rfl

theorem State.lend_table (s : State) (rows : List (Nat × List Nat)) (x : Nat) :
    (s.lend rows).table x = s.table x ++ lentTo rows x := rfl

theorem State.lend_withFault (s : State) (rows : List (Nat × List Nat)) (f : Option Nat) :
    (s.withFault f).lend rows = (s.lend rows).withFault f := rfl

theorem State.lend_congr (s : State) {rows more : List (Nat × List Nat)}
    (hto : ∀ x, lentTo rows x = lentTo more x) (hblocks : lentBlocks rows = lentBlocks more) :
    s.lend rows = s.lend more := by
  have hseqs : (s.lend rows).seqs = (s.lend more).seqs := by
    funext x
    simp [State.lend, hto]
  apply State.ext_control hseqs
  · simp only [State.lend, hblocks]
  · simp only [State.lend, hblocks]
  · simp only [State.lend, hblocks]
  · simp only [State.lend, hblocks]
  · rfl

@[simp] theorem State.lend_nil (s : State) : s.lend [] = s := by
  apply State.ext_control
  · funext x
    simp [State.lend, State.table]
  · funext b
    simp [State.lend]
  · simp [State.lend, restrict_true]
  · simp [State.lend]
  · simp [State.lend]
  · rfl

theorem State.lend_lend (s : State) (rows more : List (Nat × List Nat)) :
    (s.lend rows).lend more = s.lend (rows ++ more) := by
  apply State.ext_control
  · funext x
    simp [State.lend, State.table, lentTo_append]
  · funext b
    simp only [State.lend, lentBlocks_append, List.mem_append]
    by_cases hr : b ∈ lentBlocks rows <;> by_cases hm : b ∈ lentBlocks more <;> simp [hr, hm]
  · apply Finmap.ext_lookup
    intro k
    simp only [State.lend, lookup_restrict, lentBlocks_append, List.mem_append]
    cases s.hashToBlockId.lookup k with
    | none => rfl
    | some b =>
      by_cases hr : b ∈ lentBlocks rows <;> by_cases hm : b ∈ lentBlocks more <;>
        simp [Option.filter, hr, hm]
  · simp only [State.lend, lentBlocks_append, List.filter_filter, List.mem_append]
    apply List.filter_congr
    intro b _
    by_cases hr : b ∈ lentBlocks rows <;> by_cases hm : b ∈ lentBlocks more <;> simp [hr, hm]
  · simp [State.lend, lentBlocks_append, Finset.union_assoc]
  · rfl

/-- The free list can be handed out and the index names each block by its own hash. -/
structure PoolOk (s : State) : Prop where
  nodup : s.freeBlockIds.Nodup
  zero : ∀ b ∈ s.freeBlockIds, (s.blocks b).refCount = 0
  indexed : ∀ h b, s.hashToBlockId.lookup h = some b → (s.blocks b).hash = some h

theorem OwnIf.poolOk {live : List Nat} {table : Nat → List Nat} {cov : Nat → Nat}
    (h : OwnIf distinct cfg live table cov s) : PoolOk s :=
  ⟨h.free_nodup, fun _ hb => h.ref_eq_zero_of_mem_free hb, fun k b hb => (h.index k b hb).2.1⟩

private theorem PoolOk.lend (h : PoolOk s) (rows : List (Nat × List Nat)) : PoolOk (s.lend rows) where
  nodup := h.nodup.filter _
  zero := by
    intro b hb
    obtain ⟨hmem, hout⟩ := List.mem_filter.mp hb
    have hnot : b ∉ lentBlocks rows := by simpa using hout
    change (if b ∈ lentBlocks rows then Block.fresh else s.blocks b).refCount = 0
    rw [if_neg hnot]
    exact h.zero b hmem
  indexed := by
    intro k b hb
    obtain ⟨hold, hout⟩ := (lookup_restrict_eq_some _ _ _ _).mp hb
    have hnot : b ∉ lentBlocks rows := by simpa using hout
    change (if b ∈ lentBlocks rows then Block.fresh else s.blocks b).hash = some k
    rw [if_neg hnot]
    exact h.indexed k b hold

theorem filter_not_mem_take {l : List Nat} (h : l.Nodup) (n : Nat) :
    l.filter (· ∉ l.take n) = l.drop n := by
  have hsplit : l.take n ++ l.drop n = l := List.take_append_drop n l
  have hdisj : ∀ b ∈ l.drop n, b ∉ l.take n := by
    intro b hd ht
    have hnd : (l.take n ++ l.drop n).Nodup := by rwa [hsplit]
    exact (List.nodup_append.mp hnd).2.2 b ht b hd rfl
  have htake : (l.take n).filter (· ∉ l.take n) = [] := by
    rw [List.filter_eq_nil_iff]
    intro b hb
    simp [hb]
  have hdrop : (l.drop n).filter (· ∉ l.take n) = l.drop n := by
    rw [List.filter_eq_self]
    intro b hb
    simp [hdisj b hb]
  calc l.filter (· ∉ l.take n)
      = (l.take n ++ l.drop n).filter (· ∉ l.take n) := by rw [hsplit]
    _ = l.drop n := by rw [List.filter_append, htake, hdrop, List.nil_append]

private theorem State.lend_take_free (h : PoolOk s) (x n : Nat) :
    (s.lend [(x, s.freeBlockIds.take n)]).freeBlockIds = s.freeBlockIds.drop n := by
  have hblocks : lentBlocks [(x, s.freeBlockIds.take n)] = s.freeBlockIds.take n := by simp
  change s.freeBlockIds.filter (· ∉ lentBlocks [(x, s.freeBlockIds.take n)]) = _
  rw [hblocks]
  exact filter_not_mem_take h.nodup n

private theorem State.takeBlock_eq_lend (h : PoolOk s) {b : Nat} {rest : List Nat}
    (hfree : s.freeBlockIds = b :: rest) (x : Nat) :
    ({ s with freeBlockIds := rest }.takeBlock b).appendBlock x b = s.lend [(x, [b])] := by
  apply State.ext_control
  · funext y
    by_cases hyx : y = x
    · subst hyx
      simp [State.appendBlock, State.takeBlock, State.lend, State.table]
    · simp [State.appendBlock, State.takeBlock, State.lend, State.table, hyx, Ne.symm hyx]
  · funext c
    by_cases hcb : c = b
    · subst hcb
      simp [State.appendBlock, State.takeBlock, State.lend, State.setSeq]
    · simp [State.appendBlock, State.takeBlock, State.lend, State.setSeq, hcb]
  · apply Finmap.ext_lookup
    intro k
    change ({ s with freeBlockIds := rest }.evictHash b).lookup k = _
    apply Option.ext
    intro c
    simp only [State.lend, lookup_restrict_eq_some, lentBlocks_cons, lentBlocks_nil]
    constructor
    · intro hc
      have hkeep := State.evictHash_lookup { s with freeBlockIds := rest } h.indexed hc
      exact ⟨hkeep.1, by simp [hkeep.2]⟩
    · rintro ⟨hc, hout⟩
      have hcb : c ≠ b := by simpa using hout
      unfold State.evictHash
      split <;> rename_i hhash
      · exact hc
      · rename_i g
        split
        · rename_i hg
          have hkg : k ≠ g := by
            intro heq
            subst heq
            exact hcb (Option.some.inj (hc.symm.trans hg))
          rw [Finmap.lookup_erase_ne hkg]
          exact hc
        · exact hc
  · have hnd := h.nodup
    rw [hfree] at hnd
    obtain ⟨hb, _⟩ := List.nodup_cons.mp hnd
    change rest = _
    simp only [State.lend, hfree, lentBlocks_cons, lentBlocks_nil, List.append_nil]
    rw [List.filter_cons_of_neg (by simp)]
    symm
    rw [List.filter_eq_self]
    intro c hc
    have hcb : c ≠ b := fun heq => hb (heq ▸ hc)
    simp [hcb]
  · ext c
    simp [State.appendBlock, State.takeBlock, State.lend, State.setSeq]
  · rfl

theorem State.claimN_eq_lend (h : PoolOk s) (x n : Nat) :
    s.claimN x n = s.lend [(x, s.freeBlockIds.take n)] := by
  induction n generalizing s with
  | zero =>
    rw [State.claimN, List.take_zero]
    exact s.lend_nil.symm.trans (s.lend_congr (by simp) (by simp))
  | succ n ih =>
    cases hfree : s.freeBlockIds with
    | nil =>
      have hclaim : s.claim x = s := by simp [State.claim, hfree]
      rw [State.claimN, hclaim, ih h, hfree, List.take_nil, List.take_nil]
    | cons b rest =>
      have hclaim : s.claim x = s.lend [(x, [b])] := by
        rw [← State.takeBlock_eq_lend h hfree x]
        simp [State.claim, hfree]
      have hdrop := State.lend_take_free h x 1
      rw [hfree, List.take_succ_cons, List.take_zero, List.drop_succ_cons, List.drop_zero] at hdrop
      rw [State.claimN, hclaim, ih (h.lend _), hdrop, State.lend_lend]
      apply State.lend_congr
      · intro y
        by_cases hyx : x = y <;> simp [hyx]
      · simp

structure Leasing (s : State) : Prop where
  reservation : s.activeReservation = none
  progress : s.reservationInProgress = true
  internal : s.internalAllocation = false

private theorem Leasing.lend (h : Leasing s) (rows : List (Nat × List Nat)) (f : Option Nat) :
    Leasing ((s.lend rows).withFault f) :=
  ⟨h.reservation, h.progress, h.internal⟩

theorem PoolOk.withFault (h : PoolOk s) (f : Option Nat) : PoolOk (s.withFault f) :=
  ⟨h.nodup, h.zero, h.indexed⟩

private theorem allocateInternal_cases (hl : Leasing s) {b : Nat} {rest : List Nat}
    (hfree : s.freeBlockIds = b :: rest) (href : (s.blocks b).refCount = 0) :
    (∃ f, allocateInternal s =
      .ok b (({ s with freeBlockIds := rest }.takeBlock b).withFault f)) ∨
    (∃ f, allocateInternal s = .error .injected (s.withFault f) ∧ s.fault ≠ none) := by
  obtain ⟨u, hu⟩ : ∃ u : State, u = { s with internalAllocation := true } := ⟨_, rfl⟩
  have hfence : assertAllocatorMutationAllowed "allocate a block" true u = .ok ⟨⟩ u := by
    simp [assertAllocatorMutationAllowed, hu, hl.reservation, hl.progress]
  have hufree : u.freeBlockIds = b :: rest := by rw [hu]; exact hfree
  have huref : (u.blocks b).refCount = 0 := by rw [hu]; exact href
  rcases tick_cases u with ⟨f, htick⟩ | htick
  · left
    refine ⟨f, ?_⟩
    have hblocks : (u.withFault f).blocks = u.blocks := rfl
    simp only [allocateInternal, allocateBlock, Call.bind_apply, Call.modify_apply, ← hu,
      Call.tryCatch_apply, hfence, htick, Call.get_apply, State.withFault_free, hufree,
      Call.set_apply, hblocks, huref, ne_eq, not_true_eq_false, ↓reduceIte, Call.pure_apply]
    apply congrArg
    rw [hu]
    apply State.ext_control <;> try rfl
    simp [State.control, State.takeBlock, State.withFault, hl.internal]
  · right
    have harmed : u.fault ≠ none := armed_of_tick_error htick
    rw [hu] at harmed
    refine ⟨none, ?_, harmed⟩
    simp only [allocateInternal, allocateBlock, Call.bind_apply, Call.modify_apply, ← hu,
      Call.tryCatch_apply, hfence, htick, Call.throw_apply]
    apply congrArg
    rw [hu]
    apply State.ext_control <;> try rfl
    simp [State.control, State.withFault, hl.internal]

/-- A call that stopped while it was lending: tables grew by `seqRows`, blocks were taken for
`blockRows`. -/
structure Stopped (s : State) (seqRows blockRows : List (Nat × List Nat)) (u : State) : Prop where
  seqs : u.seqs = (s.lend seqRows).seqs
  blocks : u.blocks = (s.lend blockRows).blocks
  control : u.control = { s.control with fault := u.fault }

private theorem Stopped.after_lend {rows seqRows blockRows : List (Nat × List Nat)} {f : Option Nat}
    {u : State} (h : Stopped ((s.lend rows).withFault f) seqRows blockRows u) :
    Stopped s (rows ++ seqRows) (rows ++ blockRows) u where
  seqs := by
    rw [h.seqs, State.lend_withFault, State.lend_lend]
    rfl
  blocks := by
    rw [h.blocks, State.lend_withFault, State.lend_lend]
    rfl
  control := h.control

/-- A row gets the front of the free list, or the call stops after a shorter front. -/
private theorem leaseRow_cases (x : Nat) {n : Nat} : ∀ {s : State}, Leasing s → PoolOk s →
    n ≤ s.freeBlockIds.length →
      (∃ f, leaseRow x n s = .ok (s.freeBlockIds.take n)
        ((s.lend [(x, s.freeBlockIds.take n)]).withFault f)) ∨
      (∃ seqRows blockRows u, leaseRow x n s = .error .injected u ∧
        Stopped s seqRows blockRows u ∧ (∀ e ∈ seqRows, e.1 = x) ∧
        (∀ b ∈ lentBlocks blockRows, b ∈ s.freeBlockIds.take n) ∧ s.fault ≠ none) := by
  induction n with
  | zero =>
    intro s _ hok _
    left
    refine ⟨s.fault, ?_⟩
    rw [← State.claimN_eq_lend hok]
    rfl
  | succ n ih =>
    intro s hl hok hn
    cases hfree : s.freeBlockIds with
    | nil =>
      rw [hfree] at hn
      exact absurd hn (by simp)
    | cons b rest =>
      have hlend := State.takeBlock_eq_lend hok hfree x
      have hdrop := State.lend_take_free hok x 1
      rw [hfree, List.take_succ_cons, List.take_zero, List.drop_succ_cons, List.drop_zero] at hdrop
      have hjoin : ∀ k, (s.lend [(x, [b])]).lend [(x, rest.take k)] =
          s.lend [(x, b :: rest.take k)] := by
        intro k
        rw [State.lend_lend]
        apply State.lend_congr
        · intro y
          by_cases hyx : x = y <;> simp [hyx]
        · simp
      rcases allocateInternal_cases hl hfree (hok.zero b (by rw [hfree]; simp)) with
        ⟨f, hcall⟩ | ⟨f, hcall, harmed⟩
      · obtain ⟨v, hv⟩ : ∃ v, v = ({ s with freeBlockIds := rest }.takeBlock b).withFault f :=
          ⟨_, rfl⟩
        rw [← hv] at hcall
        rcases tick_cases v with ⟨g, htick⟩ | htick
        swap
        · right
          refine ⟨[], [(x, [b])], v.withFault none, ?_, ⟨?_, ?_, ?_⟩, by simp, ?_, ?_⟩
          · unfold leaseRow
            rw [Call.bind_of_ok hcall, Call.bind_of_error htick]
          · rw [hv, State.lend_nil]
            rfl
          · rw [← hlend, hv]
            rfl
          · rw [hv]
            rfl
          · intro c hc
            rw [List.take_succ_cons]
            have hcb : c = b := by simpa using hc
            simp [hcb]
          · exact armed_of_ok unarmed.allocateInternal hcall (armed_of_tick_error htick)
        have happend : (v.withFault g).appendBlock x b = (s.lend [(x, [b])]).withFault g := by
          rw [← hlend, hv]
          rfl
        have hlen : n ≤ ((s.lend [(x, [b])]).withFault g).freeBlockIds.length := by
          rw [State.withFault_free, hdrop]
          rw [hfree] at hn
          exact Nat.le_of_succ_le_succ hn
        have hstart : leaseRow x (n + 1) s = (do
            let more ← leaseRow x n
            pure (b :: more) : Call (List Nat)) ((s.lend [(x, [b])]).withFault g) := by
          rw [← happend]
          unfold leaseRow
          rw [Call.bind_of_ok hcall, Call.bind_of_ok htick, Call.bind_of_ok (Call.modify_apply _ _)]
          cases n <;> rfl
        have hrec := ih (hl.lend [(x, [b])] g) ((hok.lend [(x, [b])]).withFault g) hlen
        rw [State.withFault_free, hdrop] at hrec
        rcases hrec with ⟨k, hrec⟩ | ⟨seqRows, blockRows, u, hrec, hstop, hmem, hsub, harmed⟩
        · left
          refine ⟨k, ?_⟩
          rw [State.lend_withFault, State.withFault_withFault, hjoin] at hrec
          rw [hstart, Call.bind_of_ok hrec]
          rfl
        · right
          refine ⟨(x, [b]) :: seqRows, (x, [b]) :: blockRows, u, ?_, hstop.after_lend, ?_, ?_, ?_⟩
          · rw [hstart, Call.bind_of_error hrec]
          · intro e he
            rcases List.mem_cons.mp he with rfl | he
            · rfl
            · exact hmem e he
          · intro c hc
            rw [lentBlocks_cons, List.singleton_append] at hc
            rw [List.take_succ_cons]
            rcases List.mem_cons.mp hc with rfl | hc
            · simp
            · exact List.mem_cons_of_mem b (hsub c hc)
          · have hgarmed : (v.withFault g).fault ≠ none := harmed
            exact armed_of_ok unarmed.allocateInternal hcall
              (armed_of_ok unarmed.tick htick hgarmed)
      · right
        refine ⟨[], [], s.withFault f, ?_, ⟨?_, ?_, rfl⟩, by simp, by simp, harmed⟩
        · unfold leaseRow
          rw [Call.bind_of_error hcall]
        · rw [State.lend_nil]
          rfl
        · rw [State.lend_nil]
          rfl

def leaseSlices : List Nat → List ReservationRowSpec → List (Nat × List Nat)
  | _, [] => []
  | free, spec :: rest =>
    (spec.sequence, free.take spec.newBlocks) :: leaseSlices (free.drop spec.newBlocks) rest

theorem leaseSlices_fst (free : List Nat) (specs : List ReservationRowSpec) :
    (leaseSlices free specs).map Prod.fst = specs.map ReservationRowSpec.sequence := by
  induction specs generalizing free with
  | nil => rfl
  | cons spec specs ih => rw [leaseSlices, List.map_cons, ih, List.map_cons]

theorem lentBlocks_leaseSlices (free : List Nat) (specs : List ReservationRowSpec) :
    lentBlocks (leaseSlices free specs) =
      free.take (specs.map ReservationRowSpec.newBlocks).sum := by
  induction specs generalizing free with
  | nil => simp [leaseSlices]
  | cons spec specs ih =>
    rw [leaseSlices, lentBlocks_cons, ih, List.map_cons, List.sum_cons, List.take_add]

def leaseRecordRows (base : State) (rows : List (Nat × List Nat)) : List TemporaryReservationRow :=
  rows.map fun e => { snapshotRow base e.1 with appendedBlockIds := e.2 }

theorem leaseRows_cases (before : State) : ∀ {specs : List ReservationRowSpec} {s : State},
    Leasing s → PoolOk s →
    (specs.map ReservationRowSpec.newBlocks).sum ≤ s.freeBlockIds.length →
      (∃ f, leaseRows before specs s =
        .ok (leaseRecordRows before (leaseSlices s.freeBlockIds specs))
          ((s.lend (leaseSlices s.freeBlockIds specs)).withFault f)) ∨
      (∃ seqRows blockRows u, leaseRows before specs s = .error .injected u ∧
        Stopped s seqRows blockRows u ∧
        (∀ e ∈ seqRows, e.1 ∈ specs.map ReservationRowSpec.sequence) ∧
        (∀ b ∈ lentBlocks blockRows,
          b ∈ s.freeBlockIds.take (specs.map ReservationRowSpec.newBlocks).sum) ∧
        s.fault ≠ none) := by
  intro specs
  induction specs with
  | nil =>
    intro s _ _ _
    left
    refine ⟨s.fault, ?_⟩
    simp [leaseRows, leaseSlices, leaseRecordRows]
  | cons spec specs ih =>
    intro s hl hok hn
    rw [List.map_cons, List.sum_cons] at hn
    obtain ⟨x, n⟩ := spec
    change n + _ ≤ _ at hn
    rcases leaseRow_cases x (n := n) hl hok (by omega) with
      ⟨f, hrow⟩ | ⟨seqRows, blockRows, u, hrow, hstop, hmem, hsub, harmed⟩
    · have hdrop := State.lend_take_free hok x n
      have hlen : (specs.map ReservationRowSpec.newBlocks).sum ≤
          ((s.lend [(x, s.freeBlockIds.take n)]).withFault f).freeBlockIds.length := by
        rw [State.withFault_free, hdrop, List.length_drop]
        omega
      have hrec := ih (hl.lend [(x, s.freeBlockIds.take n)] f)
        ((hok.lend [(x, s.freeBlockIds.take n)]).withFault f) hlen
      rw [State.withFault_free, hdrop] at hrec
      rcases hrec with ⟨g, hrec⟩ | ⟨seqRows, blockRows, u, hrec, hstop, hmem, hsub, harmed⟩
      · left
        refine ⟨g, ?_⟩
        rw [State.lend_withFault, State.withFault_withFault, State.lend_lend] at hrec
        simp [leaseRows, hrow, hrec, leaseRecordRows, leaseSlices]
      · right
        refine ⟨(x, s.freeBlockIds.take n) :: seqRows, (x, s.freeBlockIds.take n) :: blockRows, u,
          ?_, hstop.after_lend, ?_, ?_, armed_of_ok (unarmed.leaseRow x n) hrow harmed⟩
        · simp [leaseRows, hrow, hrec]
        · intro e he
          rcases List.mem_cons.mp he with rfl | he
          · simp
          · exact List.mem_cons_of_mem _ (hmem e he)
        · intro b hb
          rw [List.map_cons, List.sum_cons, List.take_add, List.mem_append]
          rw [lentBlocks_cons, List.mem_append] at hb
          exact hb.imp id (hsub b)
    · right
      refine ⟨seqRows, blockRows, u, ?_, hstop, ?_, ?_, harmed⟩
      · simp [leaseRows, hrow]
      · intro e he
        rw [hmem e he]
        simp
      · intro b hb
        change b ∈ s.freeBlockIds.take (n + _)
        exact List.take_subset_take_left _ (by omega) (hsub b hb)

def State.withControl (s : State) (c : Control) : State :=
  { s with
    nextSeqId := c.nextSeqId
    activeReservation := c.activeReservation
    nextReservationId := c.nextReservationId
    reservationInProgress := c.reservationInProgress
    internalAllocation := c.internalAllocation
    waiting := c.waiting
    running := c.running
    midChunkSeq := c.midChunkSeq
    activeSpecTransaction := c.activeSpecTransaction
    activeDraftDiscard := c.activeDraftDiscard
    pendingDraftCoveragePlan := c.pendingDraftCoveragePlan
    pendingDraftCoverage := c.pendingDraftCoverage
    nextCycleId := c.nextCycleId
    history := c.history
    fault := c.fault }

@[simp] theorem State.withControl_control (s : State) (c : Control) :
    (s.withControl c).control = c := rfl

@[simp] theorem State.withControl_table (s : State) (c : Control) :
    (s.withControl c).table = s.table := rfl

structure Saved (s : State) (row : TemporaryReservationRow) : Prop where
  table : row.blockTableBefore = (s.seqs row.sequence).blockTable
  cached : row.numCachedTokensBefore = (s.seqs row.sequence).numCachedTokens
  draft : row.numDraftCachedTokensBefore = (s.seqs row.sequence).numDraftCachedTokens

def Sequence.restored (seq saved : Sequence) : Sequence :=
  { seq with
    blockTable := saved.blockTable
    numCachedTokens := saved.numCachedTokens
    numDraftCachedTokens := saved.numDraftCachedTokens }

def restoredSeqs (base seqs : Nat → Sequence) (xs : List Nat) (y : Nat) : Sequence :=
  if y ∈ xs then (seqs y).restored (base y) else seqs y

private theorem State.restoreRows_eq (base : State) {rows : List TemporaryReservationRow}
    (h : ∀ row ∈ rows, Saved base row) (s : State) :
    s.restoreRows rows = { s with
      seqs := restoredSeqs base.seqs s.seqs (rows.map TemporaryReservationRow.sequence) } := by
  induction rows generalizing s with
  | nil => rfl
  | cons row rows ih =>
    have hrow := h row (by simp)
    have hstep : s.restoreRow row =
        s.setSeq row.sequence ((s.seqs row.sequence).restored (base.seqs row.sequence)) := by
      simp [State.restoreRow, Sequence.restored, hrow.table, hrow.cached, hrow.draft]
    change (s.restoreRow row).restoreRows rows = _
    rw [ih (fun r hr => h r (List.mem_cons_of_mem row hr)), hstep]
    apply State.ext_control <;> try rfl
    funext y
    simp only [restoredSeqs, State.setSeq_seqs, List.map_cons, List.mem_cons]
    by_cases hy : y = row.sequence
    · subst hy
      by_cases hin : row.sequence ∈ rows.map TemporaryReservationRow.sequence
      · simp [hin, Sequence.restored]
      · simp [hin]
    · by_cases hin : y ∈ rows.map TemporaryReservationRow.sequence
      · simp [hin, hy]
      · simp [hin, hy]

theorem State.restoreBlocks_eq (base : State) {states : List (Nat × Block)}
    (h : ∀ e ∈ states, e.2 = base.blocks e.1) (s : State) :
    s.restoreBlocks states = { s with
      blocks := fun b => if b ∈ states.map Prod.fst then base.blocks b else s.blocks b } := by
  induction states generalizing s with
  | nil => simp [State.restoreBlocks]
  | cons e states ih =>
    change (s.setBlock e.1 e.2).restoreBlocks states = _
    rw [ih (fun e' he' => h e' (List.mem_cons_of_mem e he')), h e (by simp)]
    apply State.ext_control <;> try rfl
    funext b
    by_cases hb : b = e.1
    · subst hb
      simp [State.setBlock]
    · by_cases hin : b ∈ states.map Prod.fst
      · simp [hin]
      · simp [hin, hb, State.setBlock]

theorem State.restoreSnapshot_eq (base : State) {saved : List TemporaryReservationRow}
    {states : List (Nat × Block)} (hsaved : ∀ row ∈ saved, Saved base row)
    (hstates : ∀ e ∈ states, e.2 = base.blocks e.1)
    (hin : ∀ y ∈ saved.map TemporaryReservationRow.sequence,
      (s.seqs y).restored (base.seqs y) = base.seqs y)
    (hout : ∀ y, y ∉ saved.map TemporaryReservationRow.sequence → s.seqs y = base.seqs y)
    (hblocks : ∀ b, b ∉ states.map Prod.fst → s.blocks b = base.blocks b) :
    s.restoreSnapshot saved base.freeBlockIds base.usedBlockIds base.hashToBlockId states =
      base.withControl s.control := by
  have hrows := State.restoreRows_eq base hsaved s
  have hsts := State.restoreBlocks_eq base hstates (s.restoreRows saved)
  unfold State.restoreSnapshot
  rw [hsts, hrows]
  apply State.ext_control <;> try rfl
  · funext y
    change restoredSeqs base.seqs s.seqs (saved.map TemporaryReservationRow.sequence) y = base.seqs y
    unfold restoredSeqs
    split <;> rename_i hy
    · exact hin y hy
    · exact hout y hy
  · funext b
    change (if b ∈ states.map Prod.fst then base.blocks b else s.blocks b) = base.blocks b
    split <;> rename_i hb
    · rfl
    · exact hblocks b hb

theorem mem_sortedSet {ids : List Nat} {b : Nat} : b ∈ sortedSet ids ↔ b ∈ ids := by
  unfold sortedSet
  rw [List.mem_insertionSort, List.mem_dedup]

theorem snapshotBlockStates_fst (s : State) (ids : List Nat) :
    (snapshotBlockStates s ids).map Prod.fst = sortedSet ids := by
  unfold snapshotBlockStates
  rw [List.map_map]
  exact List.map_id _

theorem snapshotBlockStates_snd {ids : List Nat} {e : Nat × Block}
    (he : e ∈ snapshotBlockStates s ids) : e.2 = s.blocks e.1 := by
  unfold snapshotBlockStates at he
  obtain ⟨b, _, rfl⟩ := List.mem_map.mp he
  rfl

theorem saved_snapshotRow (s : State) (x : Nat) : Saved s (snapshotRow s x) := ⟨rfl, rfl, rfl⟩

theorem State.restoreSnapshot_lend (base : State) {rows blockRows : List (Nat × List Nat)}
    (saved : List TemporaryReservationRow) (states : List (Nat × Block))
    (hseqs : s.seqs = (base.lend rows).seqs) (hbl : s.blocks = (base.lend blockRows).blocks)
    (hsaved : ∀ row ∈ saved, Saved base row) (hstates : ∀ e ∈ states, e.2 = base.blocks e.1)
    (hrows : ∀ e ∈ rows, e.1 ∈ saved.map TemporaryReservationRow.sequence)
    (hids : ∀ b ∈ lentBlocks blockRows, b ∈ states.map Prod.fst) :
    s.restoreSnapshot saved base.freeBlockIds base.usedBlockIds base.hashToBlockId states =
      base.withControl s.control := by
  apply State.restoreSnapshot_eq base hsaved hstates
  · intro y _
    rw [hseqs]
    rfl
  · intro y hy
    have hnone : lentTo rows y = [] := by
      apply lentTo_eq_nil
      intro hmem
      obtain ⟨e, he, rfl⟩ := List.mem_map.mp hmem
      exact hy (hrows e he)
    rw [hseqs]
    simp [State.lend, hnone, State.table]
  · intro b hb
    have hnot : b ∉ lentBlocks blockRows := fun hmem => hb (hids b hmem)
    rw [hbl]
    simp [State.lend, hnot]

def leaseRecord (base : State) (rows : List (Nat × List Nat)) (id generation : Nat) :
    TemporaryBlockReservation where
  reservationId := id
  generation := generation
  rows := leaseRecordRows base rows
  allocationOrder := lentBlocks rows
  freeBlockIdsBefore := base.freeBlockIds
  usedBlockIdsBefore := base.usedBlockIds
  hashToBlockIdBefore := base.hashToBlockId
  blockStatesBefore := snapshotBlockStates base
    (lentBlocks rows ++ rows.flatMap fun e => base.table e.1)

theorem leaseRecordRows_saved {base : State} {rows : List (Nat × List Nat)} :
    ∀ row ∈ leaseRecordRows base rows, Saved base row := by
  intro row hrow
  obtain ⟨e, _, rfl⟩ := List.mem_map.mp hrow
  exact ⟨rfl, rfl, rfl⟩

theorem leaseRecordRows_sequence (base : State) (rows : List (Nat × List Nat)) :
    (leaseRecordRows base rows).map TemporaryReservationRow.sequence = rows.map Prod.fst := by
  unfold leaseRecordRows
  rw [List.map_map]
  rfl

theorem leaseRecordRows_appended (base : State) (rows : List (Nat × List Nat)) :
    (leaseRecordRows base rows).flatMap TemporaryReservationRow.appendedBlockIds =
      lentBlocks rows := by
  unfold leaseRecordRows lentBlocks
  rw [List.flatMap_map]

theorem leaseRecordRows_tables (base : State) (rows : List (Nat × List Nat)) :
    (leaseRecordRows base rows).flatMap TemporaryReservationRow.blockTableBefore =
      rows.flatMap fun e => base.table e.1 := by
  unfold leaseRecordRows
  rw [List.flatMap_map]
  rfl

structure Leased (base : State) (rows : List (Nat × List Nat)) (t : State)
    (r : TemporaryBlockReservation) : Prop where
  pool : t = (base.lend rows).withControl t.control
  record : r = leaseRecord base rows r.reservationId r.generation
  active : t.activeReservation = some r
  control : base.control = { t.control with activeReservation := none }
  distinct : (rows.map Prod.fst).Nodup
  front : lentBlocks rows = base.freeBlockIds.take (lentBlocks rows).length

section Leased

variable {base : State} {rows : List (Nat × List Nat)} {r : TemporaryBlockReservation}

theorem Leased.seqs_eq (h : Leased base rows t r) : t.seqs = (base.lend rows).seqs :=
  (congrArg State.seqs h.pool).trans rfl

theorem Leased.blocks_eq (h : Leased base rows t r) : t.blocks = (base.lend rows).blocks :=
  (congrArg State.blocks h.pool).trans rfl

theorem Leased.free_eq (h : Leased base rows t r) :
    t.freeBlockIds = base.freeBlockIds.filter (· ∉ lentBlocks rows) :=
  congrArg State.freeBlockIds h.pool

theorem Leased.used_eq (h : Leased base rows t r) :
    t.usedBlockIds = base.usedBlockIds ∪ (lentBlocks rows).toFinset :=
  congrArg State.usedBlockIds h.pool

theorem Leased.index_eq (h : Leased base rows t r) :
    t.hashToBlockId = restrict (· ∉ lentBlocks rows) base.hashToBlockId :=
  congrArg State.hashToBlockId h.pool

theorem Leased.restore (h : Leased base rows t r) : t.restoreLease r = base := by
  have hrec := h.record
  have hsnap := State.restoreSnapshot_lend base (s := t)
    (leaseRecordRows base rows)
    (snapshotBlockStates base (lentBlocks rows ++ rows.flatMap fun e => base.table e.1))
    h.seqs_eq h.blocks_eq
    leaseRecordRows_saved (fun e he => snapshotBlockStates_snd he)
    (by
      intro e he
      rw [leaseRecordRows_sequence]
      exact List.mem_map_of_mem he)
    (by
      intro b hb
      rw [snapshotBlockStates_fst, mem_sortedSet]
      exact List.mem_append_left _ hb)
  unfold State.restoreLease
  rw [hrec]
  change ({ t.restoreSnapshot (leaseRecordRows base rows) base.freeBlockIds base.usedBlockIds
    base.hashToBlockId (snapshotBlockStates base
      (lentBlocks rows ++ rows.flatMap fun e => base.table e.1)) with
      activeReservation := none } : State) = base
  rw [hsnap]
  apply State.ext_control <;> try rfl
  exact h.control.symm

end Leased

end NanoVllm
