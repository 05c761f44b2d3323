/- module: NanoVllm/Scheduling/FillMoves
   layer: refinement
   source: nanovllm/engine/scheduler.py, the prefill loop of schedule
   digest: The FIFO chunk fill as a derivation, and schedule as a walk followed by a fill. -/

import NanoVllm.Scheduling.DecodeMoves

set_option autoImplicit false
set_option relaxedAutoImplicit false

namespace NanoVllm

open Library

variable {cfg : Config} {s t : State} {x room m : Nat}

def State.setScheduled (s : State) (x m : Nat) : State :=
  s.setSeq x { s.seqs x with numScheduledTokens := m }

theorem modifySeq_scheduled (s : State) (x m : Nat) :
    modifySeq x (fun row => { row with numScheduledTokens := m }) s =
      .ok ⟨⟩ (s.setScheduled x m) := rfl

@[simp] theorem State.setScheduled_control (s : State) (x m : Nat) :
    (s.setScheduled x m).control = s.control := rfl

theorem State.setScheduled_table (s : State) (x m : Nat) : (s.setScheduled x m).table = s.table := by
  rw [State.setScheduled, State.setSeq_table]
  exact Function.update_eq_self x s.table

private theorem canAllocate_setScheduled (cfg : Config) (s : State) (x m : Nat) :
    canAllocate cfg (s.setScheduled x m) x = canAllocate cfg s x := by
  have hmatch := matchCachedBlocks_congr cfg (s := s) (t := s.setScheduled x m)
    (q := s.seqs x) (r := (s.setScheduled x m).seqs x) rfl rfl rfl
    (by simp [State.setScheduled])
  have hnum : ((s.setScheduled x m).seqs x).numBlocks cfg = (s.seqs x).numBlocks cfg := by
    simp [State.setScheduled, Sequence.numBlocks, Sequence.numTokens]
  simp only [canAllocate, hmatch, hnum]
  rfl

/-- The blocks `allocate_incremental` or `extend` give the head for `m` tokens, when
`room` is what is left of the token budget. -/
inductive Allots (cfg : Config) (s : State) (x room : Nat) : Nat → State → Prop
  | fresh {k m : Nat} {ids : List Nat} (htab : s.table x = [])
      (hcan : canAllocate cfg s x = some k)
      (hchain : cachedChain cfg s (s.seqs x) (List.range k) none = .ok ids)
      (hids : ids.length = k)
      (hm : m = min ((s.seqs x).numTokens - k * cfg.kvcacheBlockSize) room) :
      Allots cfg s x room m ((s.setScheduled x m).allotBlocks cfg x ids
        (pagesFor cfg.kvcacheBlockSize (k * cfg.kvcacheBlockSize + m) - k))
  | resumed {m : Nat} (htab : s.table x ≠ [])
      (hm : m = min ((s.seqs x).numTokens - (s.seqs x).numCachedTokens) room)
      (hfit : extendNeed cfg s x ((s.seqs x).numCachedTokens + m) ≤ s.freeBlockIds.length) :
      Allots cfg s x room m ((s.setScheduled x m).claimN x
        (extendNeed cfg s x ((s.seqs x).numCachedTokens + m)))

structure Allotted (cfg : Config) (live : List Nat) (s : State) (x room m : Nat) (t : State) :
    Prop where
  control : t.control = s.control
  seqs : t.seqs = Function.update s.seqs x { s.seqs x with
    blockTable := t.table x
    numCachedTokens := (t.seqs x).numCachedTokens
    numDraftCachedTokens := (t.seqs x).numDraftCachedTokens
    numScheduledTokens := m }
  amount : m = min ((s.seqs x).numTokens - (t.seqs x).numCachedTokens) room
  cached_lt : (t.seqs x).numCachedTokens < (s.seqs x).numTokens
  within : (t.seqs x).numCachedTokens + m ≤ (t.table x).length * cfg.kvcacheBlockSize
  table_ne : t.table x ≠ []
  own : OwnIf cfg.CollisionFree cfg live t.table (t.coverage cfg) t

variable (cfg) in
private theorem numBlocks_pos {seq : Sequence} (h : 0 < seq.numTokens) : 0 < seq.numBlocks cfg := by
  rw [numBlocks_eq, lt_pagesFor_iff cfg.blockSize_pos]
  simpa using h

theorem full_blocks_lt {seq : Sequence} {k : Nat} (hpos : 0 < seq.numTokens)
    (hk : k ≤ seq.numBlocks cfg - 1) : k * cfg.kvcacheBlockSize < seq.numTokens := by
  have := numBlocks_pos cfg hpos
  rw [← lt_pagesFor_iff cfg.blockSize_pos, ← numBlocks_eq]
  omega

theorem Allots.fresh_room {live : List Nat} {k : Nat}
    (hq : s.Quiet) (h : OwnIf cfg.CollisionFree cfg live s.table (s.coverage cfg) s) (hx : x ∈ live)
    (htab : s.table x = []) (hpos : 0 < (s.seqs x).numTokens) (hroom : 0 < room)
    (hcan : canAllocate cfg s x = some k)
    (hm : m = min ((s.seqs x).numTokens - k * cfg.kvcacheBlockSize) room) :
    ∃ ids, cachedChain cfg s (s.seqs x) (List.range k) none = .ok ids ∧ ids.length = k ∧
      Pinnable cfg.CollisionFree (s.setScheduled x m) x (Function.update (s.coverage cfg) x k) ids ∧
      OwnIf cfg.CollisionFree cfg live (s.setScheduled x m).table (Function.update (s.coverage cfg) x k)
        (s.setScheduled x m) ∧
      pagesFor cfg.kvcacheBlockSize (k * cfg.kvcacheBlockSize + m) - k
        ≤ ((s.setScheduled x m).pinAll x ids).freeBlockIds.length ∧
      allocateIncremental cfg x k (k * cfg.kvcacheBlockSize + m) (s.setScheduled x m) =
        .ok true ((s.setScheduled x m).allotBlocks cfg x ids
          (pagesFor cfg.kvcacheBlockSize (k * cfg.kvcacheBlockSize + m) - k)) := by
  obtain ⟨-, -, -, hk, -⟩ := canAllocate_some hcan
  have hlt := full_blocks_lt hpos hk
  have hcov : OwnIf cfg.CollisionFree cfg live (s.setScheduled x m).table (Function.update (s.coverage cfg) x k)
      (s.setScheduled x m) := by
    apply (h.setRow (x := x) (q := { s.seqs x with numScheduledTokens := m }) rfl).set_cov
    intro y _
    by_cases hyx : y = x
    · subst hyx
      left
      rw [← State.setScheduled, State.setScheduled_table, htab]
      simp
    · right
      rw [Function.update_of_ne hyx]
  have htab' : (s.setScheduled x m).table x = [] := by
    rw [State.setScheduled_table, htab]
  have hlen : ((s.setScheduled x m).seqs x).numTokens = (s.seqs x).numTokens := by
    simp [State.setScheduled, Sequence.numTokens]
  obtain ⟨ids, hchain, hids, hpin, hfree, hcall⟩ := allocateIncremental_quiet
    (hq.of_control (s.setScheduled_control x m)) hcov hx htab'
    (k := k) (by rw [Function.update_self])
    (by rw [canAllocate_setScheduled, hcan])
    (show k * cfg.kvcacheBlockSize < k * cfg.kvcacheBlockSize + m by omega) (by rw [hlen]; omega)
  refine ⟨ids, ?_, hids, hpin, hcov, hfree, hcall⟩
  rw [← hchain]
  exact (cachedChain_congr (s := s) (t := s.setScheduled x m) rfl rfl
    (by simp [State.setScheduled]) _ _).symm

private theorem Allots.allotted {live : List Nat} (hq : s.Quiet)
    (h : OwnIf cfg.CollisionFree cfg live s.table (s.coverage cfg) s) (hx : x ∈ live)
    (hpos : 0 < (s.seqs x).numTokens) (hroom : 0 < room)
    (hchunk : s.table x ≠ [] → (s.seqs x).numCachedTokens < (s.seqs x).numTokens)
    (ha : Allots cfg s x room m t) : Allotted cfg live s x room m t := by
  cases ha with
  | @fresh k _ ids htab hcan hchain hids hm =>
    obtain ⟨-, -, -, hk, -⟩ := canAllocate_some hcan
    have hlt := full_blocks_lt hpos hk
    obtain ⟨ids', hchain', hids', hpin, hcov, hfree, -⟩ :=
      Allots.fresh_room hq h hx htab hpos hroom hcan hm
    obtain rfl : ids' = ids := by
      rw [hchain] at hchain'
      exact (Except.ok.inj hchain').symm
    have hmpos : 0 < m := by omega
    have hkpages : k < pagesFor cfg.kvcacheBlockSize (k * cfg.kvcacheBlockSize + m) := by
      rw [lt_pagesFor_iff cfg.blockSize_pos]
      omega
    set n := pagesFor cfg.kvcacheBlockSize (k * cfg.kvcacheBlockSize + m) - k with hn
    set u := (s.setScheduled x m).allotBlocks cfg x ids' n with hu
    have hseqs : u.seqs = Function.update s.seqs x { s.seqs x with
        blockTable := ids' ++ ((s.setScheduled x m).pinAll x ids').freeBlockIds.take n
        numCachedTokens := k * cfg.kvcacheBlockSize
        numDraftCachedTokens := 0
        numScheduledTokens := m } := by
      rw [hu, State.allotBlocks_seqs, State.setScheduled_table, htab, hids]
      simp [State.setScheduled]
    have hrow : u.seqs x = { s.seqs x with
        blockTable := ids' ++ ((s.setScheduled x m).pinAll x ids').freeBlockIds.take n
        numCachedTokens := k * cfg.kvcacheBlockSize
        numDraftCachedTokens := 0
        numScheduledTokens := m } := by
      rw [hseqs, Function.update_self]
    have htabu : u.table x =
        ids' ++ ((s.setScheduled x m).pinAll x ids').freeBlockIds.take n := by
      rw [State.table, hrow]
    have hcached : (u.seqs x).numCachedTokens = k * cfg.kvcacheBlockSize := by
      rw [hrow]
    have hlen : (u.table x).length =
        pagesFor cfg.kvcacheBlockSize (k * cfg.kvcacheBlockSize + m) := by
      rw [htabu, List.length_append, List.length_take, Nat.min_eq_left hfree, hids]
      omega
    refine ⟨?_, ?_, ?_, ?_, ?_, ?_, ?_⟩
    · rw [hu, State.allotBlocks_control, State.setScheduled_control]
    · rw [hseqs, htabu]
      simp
    · rw [hcached]
      exact hm
    · rw [hcached]
      exact hlt
    · rw [hcached, hlen]
      exact le_pagesFor_mul cfg.blockSize_pos _
    · intro hnil
      rw [hnil, List.length_nil] at hlen
      omega
    · apply (hcov.allotBlocks hx hpin (n := n)).mono_cov
      intro y _
      simp only [State.coverage]
      rw [hseqs]
      by_cases hyx : y = x
      · subst hyx
        rw [Function.update_self, Function.update_self]
        simp [Nat.mul_div_cancel _ cfg.blockSize_pos]
      · rw [Function.update_of_ne hyx, Function.update_of_ne hyx]
        rfl
  | resumed htab hm hfit =>
    have hlt := hchunk htab
    set n := extendNeed cfg s x ((s.seqs x).numCachedTokens + m) with hn
    set u := (s.setScheduled x m).claimN x n with hu
    have hfree : (s.setScheduled x m).freeBlockIds = s.freeBlockIds := rfl
    have hseqs : u.seqs = Function.update s.seqs x { s.seqs x with
        blockTable := s.table x ++ s.freeBlockIds.take n
        numScheduledTokens := m } := by
      rw [hu, State.claimN_seqs, State.setScheduled_table, hfree]
      simp [State.setScheduled]
    have hrow : u.seqs x = { s.seqs x with
        blockTable := s.table x ++ s.freeBlockIds.take n
        numScheduledTokens := m } := by
      rw [hseqs, Function.update_self]
    have htabu : u.table x = s.table x ++ s.freeBlockIds.take n := by
      rw [State.table, hrow]
    have hlen : (u.table x).length = (s.table x).length + n := by
      rw [htabu, List.length_append, List.length_take, Nat.min_eq_left hfit]
    have hcached : (u.seqs x).numCachedTokens = (s.seqs x).numCachedTokens := by
      rw [hrow]
    refine ⟨?_, ?_, ?_, ?_, ?_, ?_, ?_⟩
    · rw [hu, State.claimN_control, State.setScheduled_control]
    · rw [hseqs, htabu]
      simp
    · rw [hcached]
      exact hm
    · rw [hcached]
      exact hlt
    · rw [hcached, hlen, ← pagesFor_le_iff cfg.blockSize_pos, hn, extendNeed]
      omega
    · rw [htabu]
      simp [htab]
    · have hset := h.setRow (x := x) (q := { s.seqs x with numScheduledTokens := m }) rfl
      apply (hset.claimN hx n).mono_cov
      intro y _
      simp only [State.coverage, hseqs]
      by_cases hyx : y = x
      · subst hyx
        rw [Function.update_self]
      · rw [Function.update_of_ne hyx]

theorem State.joinRunning_seqs (t : State) (x : Nat) :
    (t.joinRunning x).seqs = Function.update t.seqs x { t.seqs x with status := .running } := by
  change ((t.clearMid x).setSeq x _).seqs = _
  rw [State.setSeq_seqs, State.clearMid_seqs]

theorem State.joinRunning_control (t : State) (x : Nat) :
    (t.joinRunning x).control = { t.control with
      midChunkSeq := if t.midChunkSeq = some x then none else t.midChunkSeq
      waiting := t.waiting.tail
      running := t.running ++ [x] } := by
  have hstep : ∀ (u : State) (w r : List Nat), ((u.withWaiting w).withRunning r).control =
      { u.control with waiting := w, running := r } := fun u w r => rfl
  unfold State.joinRunning
  rw [hstep, State.setSeq_control, State.clearMid_control]

private theorem State.joinRunning_pool (t : State) (x : Nat) :
    (t.joinRunning x).blocks = t.blocks ∧ (t.joinRunning x).hashToBlockId = t.hashToBlockId ∧
      (t.joinRunning x).freeBlockIds = t.freeBlockIds ∧
      (t.joinRunning x).usedBlockIds = t.usedBlockIds :=
  t.clearMid_pool x

theorem Core.mid_of_head (h : Core cfg [] s) {rest : List Nat} (hwait : s.waiting = x :: rest) :
    s.midChunkSeq = none ∨ s.midChunkSeq = some x := by
  cases hmid : s.midChunkSeq with
  | none => exact Or.inl rfl
  | some w =>
    right
    have hhead := (h.mid_head w hmid).1
    rw [hwait, List.head?_cons] at hhead
    rw [Option.some.inj hhead]

private theorem Core.table_of_rest (h : Core cfg [] s) {rest : List Nat} (hwait : s.waiting = x :: rest)
    {w : Nat} (hw : w ∈ rest) : s.table w = [] := by
  by_contra hne
  have hmid := h.mid_owner w (by rw [hwait]; exact List.mem_cons_of_mem x hw) hne
  have hnd : (x :: rest).Nodup := by
    rw [← hwait]
    exact (List.nodup_append.mp h.own.live_nodup).2.1
  rcases h.mid_of_head hwait with hnone | hsome
  · rw [hnone] at hmid
    exact absurd hmid (by simp)
  · rw [hsome] at hmid
    rw [← Option.some.inj hmid] at hw
    exact (List.nodup_cons.mp hnd).1 hw

theorem Core.head_not_mem (h : Core cfg [] s) {rest : List Nat} (hwait : s.waiting = x :: rest) :
    x ∉ s.running ∧ x ∉ rest := by
  have hnd := h.own.live_nodup
  rw [hwait, List.nil_append] at hnd
  obtain ⟨-, hrest, hdisj⟩ := List.nodup_append.mp hnd
  exact ⟨fun hx => hdisj x hx x (by simp) rfl, (List.nodup_cons.mp hrest).1⟩

section Settle

variable {rest : List Nat}

private theorem Core.joined (h : Core cfg [] s) (hwait : s.waiting = x :: rest)
    (ha : Allotted cfg ([] ++ s.running ++ s.waiting) s x room m t)
    (hfull : (t.seqs x).numCachedTokens + m = (s.seqs x).numTokens) :
    Core cfg [] (t.joinRunning x) ∧ (t.joinRunning x).midChunkSeq = none := by
  have hctl := t.joinRunning_control x
  rw [ha.control] at hctl
  have hrunning : (t.joinRunning x).running = s.running ++ [x] := by
    refine (congrArg Control.running hctl).trans ?_
    rw [show t.running = s.running from congrArg Control.running ha.control]
  have hwaiting : (t.joinRunning x).waiting = rest := by
    refine (congrArg Control.waiting hctl).trans ?_
    rw [show t.waiting = s.waiting from congrArg Control.waiting ha.control, hwait]
    rfl
  have hmid : (t.joinRunning x).midChunkSeq = none := by
    refine (congrArg Control.midChunkSeq hctl).trans ?_
    rw [show t.midChunkSeq = s.midChunkSeq from congrArg Control.midChunkSeq ha.control]
    rcases h.mid_of_head hwait with hmid | hmid <;> simp [hmid]
  have hnext : (t.joinRunning x).nextSeqId = s.nextSeqId := congrArg Control.nextSeqId hctl
  obtain ⟨hxrun, hxrest⟩ := h.head_not_mem hwait
  have hrow : (t.joinRunning x).seqs x = { t.seqs x with status := .running } := by
    rw [State.joinRunning_seqs, Function.update_self]
  have hother : ∀ y, y ≠ x → (t.joinRunning x).seqs y = s.seqs y := by
    intro y hyx
    rw [State.joinRunning_seqs, Function.update_of_ne hyx, ha.seqs, Function.update_of_ne hyx]
  have htab : (t.joinRunning x).table = t.table := by
    funext y
    rw [State.table, State.joinRunning_seqs]
    by_cases hyx : y = x
    · subst hyx
      simp [State.table]
    · simp [hyx, State.table]
  have hcov : (t.joinRunning x).coverage cfg = t.coverage cfg := by
    funext y
    rw [State.coverage, State.joinRunning_seqs]
    by_cases hyx : y = x
    · subst hyx
      simp [State.coverage]
    · simp [hyx, State.coverage]
  have hlist : [] ++ (t.joinRunning x).running ++ (t.joinRunning x).waiting =
      [] ++ s.running ++ s.waiting := by
    rw [hrunning, hwaiting, hwait]
    simp
  have hrest : ∀ w ∈ rest, (t.joinRunning x).table w = [] := by
    intro w hw
    have hwx : w ≠ x := fun heq => hxrest (heq ▸ hw)
    rw [State.table, hother w hwx]
    exact h.table_of_rest hwait hw
  have hlen : (t.seqs x).numTokens = (s.seqs x).numTokens := by
    rw [ha.seqs, Function.update_self]
    rfl
  have hsched : (t.seqs x).numScheduledTokens = m := by
    rw [ha.seqs, Function.update_self]
  refine ⟨⟨?_, ?_, ?_, ?_, ?_, ?_, ?_, ?_⟩, hmid⟩
  · obtain ⟨hblocks, hindex, hfree, hused⟩ := t.joinRunning_pool x
    rw [hlist, htab, hcov]
    exact ha.own.congr_pool hblocks hindex hfree hused
  · intro w hw hne
    rw [hwaiting] at hw
    exact absurd (hrest w hw) hne
  · intro w hw
    rw [hmid] at hw
    exact absurd hw (by simp)
  · intro y hy
    rw [hrunning] at hy
    by_cases hyx : y = x
    · subst hyx
      rw [hrow]
      have hwithin := ha.within
      have hcached := ha.cached_lt
      refine ⟨?_, ?_, ?_, ?_⟩
      · change (t.seqs y).numCachedTokens + (t.seqs y).numScheduledTokens ≤ (t.seqs y).numTokens
        omega
      · change (t.seqs y).numCachedTokens + (t.seqs y).numScheduledTokens ≤ (t.table y).length * _
        omega
      · change (t.seqs y).numCachedTokens < (t.seqs y).numTokens
        omega
      · change (t.seqs y).numTokens ≤ (t.table y).length * _ + 1
        omega
    · rw [hother y hyx]
      apply h.started y
      simpa [hyx] using hy
  · intro w hw hne
    rw [hwaiting] at hw
    exact absurd (hrest w hw) hne
  · intro w hw
    rw [hwaiting] at hw
    have hwx : w ≠ x := fun heq => hxrest (heq ▸ hw)
    rw [hother w hwx]
    exact h.nonempty w (by rw [hwait]; exact List.mem_cons_of_mem x hw)
  · intro y hy
    rw [hlist] at hy
    rw [hnext]
    exact h.known y hy
  · intro y hy
    rw [hlist] at hy
    have hyx : y ≠ x := by
      intro heq
      subst heq
      exact hy (by simp [hwait])
    rw [State.table, hother y hyx]
    exact h.dead y hy

private theorem Core.chunk (h : Core cfg [] s) (hwait : s.waiting = x :: rest)
    (ha : Allotted cfg ([] ++ s.running ++ s.waiting) s x room m t)
    (hpart : (t.seqs x).numCachedTokens + m < (s.seqs x).numTokens) :
    Core cfg [] (t.withMid (some x)) := by
  have hrunning : t.running = s.running := congrArg Control.running ha.control
  have hwaiting : t.waiting = s.waiting := congrArg Control.waiting ha.control
  have hnext : t.nextSeqId = s.nextSeqId := congrArg Control.nextSeqId ha.control
  obtain ⟨hxrun, hxrest⟩ := h.head_not_mem hwait
  have hother : ∀ y, y ≠ x → t.seqs y = s.seqs y := by
    intro y hyx
    rw [ha.seqs, Function.update_of_ne hyx]
  have honly : ∀ w ∈ s.waiting, t.table w ≠ [] → w = x := by
    intro w hw hne
    by_contra hwx
    rw [State.table, hother w hwx] at hne
    apply hne
    apply h.table_of_rest hwait
    rw [hwait] at hw
    simpa [hwx] using hw
  have hlen : (t.seqs x).numTokens = (s.seqs x).numTokens := by
    rw [ha.seqs, Function.update_self]
    rfl
  have hsched : (t.seqs x).numScheduledTokens = m := by
    rw [ha.seqs, Function.update_self]
  refine ⟨?_, ?_, ?_, ?_, ?_, ?_, ?_, ?_⟩
  · change OwnIf cfg.CollisionFree cfg ([] ++ t.running ++ t.waiting) t.table (t.coverage cfg) (t.withMid (some x))
    rw [hrunning, hwaiting]
    exact ha.own.congr_pool rfl rfl rfl rfl
  · intro w hw hne
    change w ∈ t.waiting at hw
    rw [hwaiting] at hw
    rw [honly w hw hne]
    rfl
  · intro w hw
    obtain rfl : x = w := Option.some.inj hw
    refine ⟨?_, ha.table_ne⟩
    change t.waiting.head? = some x
    rw [hwaiting, hwait]
    rfl
  · intro y hy
    change y ∈ [] ++ t.running at hy
    rw [hrunning] at hy
    have hyx : y ≠ x := by
      intro heq
      subst heq
      exact hxrun hy
    change Started cfg (t.seqs y)
    rw [hother y hyx]
    exact h.started y hy
  · intro w hw hne
    change w ∈ t.waiting at hw
    rw [hwaiting] at hw
    obtain rfl := honly w hw hne
    have hwithin := ha.within
    refine ⟨?_, ?_⟩
    · change (t.seqs w).numCachedTokens + (t.seqs w).numScheduledTokens < (t.seqs w).numTokens
      omega
    · change (t.seqs w).numCachedTokens + (t.seqs w).numScheduledTokens ≤ (t.table w).length * _
      omega
  · intro w hw
    change w ∈ t.waiting at hw
    rw [hwaiting] at hw
    change 0 < (t.seqs w).numTokens
    by_cases hwx : w = x
    · rw [hwx, hlen]
      exact h.nonempty x (by rw [hwait]; simp)
    · rw [hother w hwx]
      exact h.nonempty w hw
  · intro y hy
    change y ∈ [] ++ t.running ++ t.waiting at hy
    rw [hrunning, hwaiting] at hy
    change y < t.nextSeqId
    rw [hnext]
    exact h.known y hy
  · intro y hy
    change y ∉ [] ++ t.running ++ t.waiting at hy
    rw [hrunning, hwaiting] at hy
    have hyx : y ≠ x := by
      intro heq
      subst heq
      exact hy (by simp [hwait])
    change t.table y = []
    rw [State.table, hother y hyx]
    exact h.dead y hy

private theorem Core.clearScheduled (h : Core cfg [] s) (hx : x ∈ s.waiting) :
    Core cfg [] (s.setScheduled x 0) := by
  have htab := s.setScheduled_table x 0
  have hrow : ∀ y, (s.setScheduled x 0).seqs y =
      if y = x then { s.seqs x with numScheduledTokens := 0 } else s.seqs y := by
    intro y
    simp only [State.setScheduled, State.setSeq_seqs, Function.update_apply]
  have hxrun : x ∉ s.running := by
    intro hmem
    exact (List.nodup_append.mp h.own.live_nodup).2.2 x hmem x hx rfl
  have hcov : (s.setScheduled x 0).coverage cfg = s.coverage cfg := by
    funext y
    simp only [State.coverage, hrow]
    split <;> rename_i hyx
    · rw [hyx]
    · rfl
  refine ⟨?_, ?_, ?_, ?_, ?_, ?_, h.known, ?_⟩
  · rw [htab, hcov]
    exact h.own.congr_pool rfl rfl rfl rfl
  · rw [htab]
    exact h.mid_owner
  · rw [htab]
    exact h.mid_head
  · intro y hy
    have hyx : y ≠ x := by
      intro heq
      subst heq
      exact hxrun hy
    rw [hrow, if_neg hyx]
    exact h.started y hy
  · intro w hw hne
    rw [htab] at hne
    have hc := h.chunked w hw hne
    rw [hrow]
    split <;> rename_i hwx
    · subst hwx
      have h1 := hc.scheduled_lt
      have h2 := hc.within
      refine ⟨?_, ?_⟩
      · change (s.seqs w).numCachedTokens + 0 < (s.seqs w).numTokens
        omega
      · change (s.seqs w).numCachedTokens + 0 ≤ (s.seqs w).blockTable.length * _
        omega
    · exact hc
  · intro w hw
    rw [hrow]
    split <;> rename_i hwx
    · subst hwx
      exact h.nonempty w hw
    · exact h.nonempty w hw
  · rw [htab]
    exact h.dead

end Settle

def State.sendBack (s : State) (x : Nat) (rest : List Nat) : State :=
  ((s.setScheduled x 0).withWaiting rest).evict x

/-- A run of the prefill loop from `scheduled_seqs` and `num_batched_tokens` to the
batch it returns. -/
inductive Fills (cfg : Config) : List Nat → Nat → State → List Nat → State → Prop
  | stop {acc : List Nat} {batched : Nat} {s : State}
      (h : s.waiting = [] ∨ cfg.maxNumSeqs ≤ acc.length ∨ cfg.maxNumBatchedTokens ≤ batched) :
      Fills cfg acc batched s acc s
  | refuse {acc rest : List Nat} {batched x : Nat} {s : State} (hwait : s.waiting = x :: rest)
      (hcap : acc.length < cfg.maxNumSeqs) (hbudget : batched < cfg.maxNumBatchedTokens)
      (htab : s.table x = []) (hcan : canAllocate cfg s x = none) : Fills cfg acc batched s acc s
  | full {acc rest acc' : List Nat} {batched x m : Nat} {s t u : State}
      (hwait : s.waiting = x :: rest) (hcap : acc.length < cfg.maxNumSeqs)
      (hbudget : batched < cfg.maxNumBatchedTokens)
      (hallot : Allots cfg s x (cfg.maxNumBatchedTokens - batched) m t)
      (hfull : (t.seqs x).numCachedTokens + m = (s.seqs x).numTokens)
      (hrest : Fills cfg (acc ++ [x]) (batched + m) ((t.joinRunning x).record (.scheduled x))
        acc' u) :
      Fills cfg acc batched s acc' u
  | chunk {acc rest : List Nat} {batched x m : Nat} {s t : State} (hwait : s.waiting = x :: rest)
      (hcap : acc.length < cfg.maxNumSeqs) (hbudget : batched < cfg.maxNumBatchedTokens)
      (hallot : Allots cfg s x (cfg.maxNumBatchedTokens - batched) m t)
      (hpart : (t.seqs x).numCachedTokens + m < (s.seqs x).numTokens) :
      Fills cfg acc batched s (acc ++ [x]) ((t.withMid (some x)).record (.scheduled x))
  | sendBackStop {acc rest : List Nat} {batched x m : Nat} {s : State}
      (hwait : s.waiting = x :: rest) (hcap : acc.length < cfg.maxNumSeqs)
      (hbudget : batched < cfg.maxNumBatchedTokens) (htab : s.table x ≠ [])
      (hm : m = min ((s.seqs x).numTokens - (s.seqs x).numCachedTokens)
        (cfg.maxNumBatchedTokens - batched))
      (hfit : ¬ extendNeed cfg s x ((s.seqs x).numCachedTokens + m) ≤ s.freeBlockIds.length)
      (hacc : acc ≠ []) : Fills cfg acc batched s acc (s.sendBack x rest)
  | sendBack {rest acc' : List Nat} {batched x m : Nat} {s u : State}
      (hwait : s.waiting = x :: rest) (hbudget : batched < cfg.maxNumBatchedTokens)
      (htab : s.table x ≠ [])
      (hm : m = min ((s.seqs x).numTokens - (s.seqs x).numCachedTokens)
        (cfg.maxNumBatchedTokens - batched))
      (hfit : ¬ extendNeed cfg s x ((s.seqs x).numCachedTokens + m) ≤ s.freeBlockIds.length)
      (hrest : Fills cfg [] batched (s.sendBack x rest) acc' u) :
      Fills cfg [] batched s acc' u

def State.Ready (s : State) (cfg : Config) : Prop := s.Calm ∧ Core cfg [] s

theorem State.Ready.record (h : s.Ready cfg) (e : QueueEvent Nat) : (s.record e).Ready cfg :=
  ⟨h.1.record e, h.2.record e⟩

section Fill

variable {acc rest : List Nat} {batched : Nat}

theorem State.Ready.allotted (h : s.Ready cfg)
    (hwait : s.waiting = x :: rest) (hroom : 0 < room) (ha : Allots cfg s x room m t) :
    Allotted cfg ([] ++ s.running ++ s.waiting) s x room m t := by
  have hmem : x ∈ s.waiting := by
    rw [hwait]
    simp
  apply ha.allotted h.1.toQuiet h.2.own (by simp [hmem]) (h.2.nonempty x hmem) hroom
  intro hne
  have := (h.2.chunked x hmem hne).scheduled_lt
  omega

theorem State.Ready.joined (h : s.Ready cfg) (hwait : s.waiting = x :: rest)
    (ha : Allotted cfg ([] ++ s.running ++ s.waiting) s x room m t)
    (hfull : (t.seqs x).numCachedTokens + m = (s.seqs x).numTokens) :
    (t.joinRunning x).Ready cfg := by
  refine ⟨?_, (h.2.joined hwait ha hfull).1⟩
  have hctl := t.joinRunning_control x
  rw [ha.control] at hctl
  exact
    { reservation := (congrArg Control.activeReservation hctl).trans h.1.reservation
      progress := (congrArg Control.reservationInProgress hctl).trans h.1.progress
      internal := (congrArg Control.internalAllocation hctl).trans h.1.internal
      fault := (congrArg Control.fault hctl).trans h.1.fault
      transaction := (congrArg Control.activeSpecTransaction hctl).trans h.1.transaction
      discard := (congrArg Control.activeDraftDiscard hctl).trans h.1.discard
      pending := (congrArg Control.pendingDraftCoveragePlan hctl).trans h.1.pending }

private theorem State.Ready.chunk (h : s.Ready cfg) (hwait : s.waiting = x :: rest)
    (ha : Allotted cfg ([] ++ s.running ++ s.waiting) s x room m t)
    (hpart : (t.seqs x).numCachedTokens + m < (s.seqs x).numTokens) :
    (t.withMid (some x)).Ready cfg := by
  have hcalm := h.1.of_control ha.control
  exact ⟨⟨⟨hcalm.reservation, hcalm.progress, hcalm.internal, hcalm.fault⟩, hcalm.transaction, hcalm.discard,
    hcalm.pending⟩, h.2.chunk hwait ha hpart⟩

theorem State.Ready.sendBack (h : s.Ready cfg) (hwait : s.waiting = x :: rest)
    (htab : s.table x ≠ []) :
    (s.sendBack x rest).Ready cfg ∧ (s.sendBack x rest).midChunkSeq = none := by
  have hmem : x ∈ s.waiting := by
    rw [hwait]
    simp
  have hcore := h.2.clearScheduled hmem
  have hmid : (s.setScheduled x 0).midChunkSeq = some x := h.2.mid_owner x hmem htab
  have hperm : (([] : List Nat) ++ (s.setScheduled x 0).running ++ rest ++ [x]).Perm
      ([] ++ (s.setScheduled x 0).running ++ (s.setScheduled x 0).waiting) := by
    change (s.running ++ rest ++ [x]).Perm (s.running ++ s.waiting)
    rw [hwait, List.append_assoc]
    exact List.Perm.append_left _ List.perm_append_comm
  have hevict := hcore.evict (Or.inr hmid) hperm (fun y hy => hy)
    (fun y hy => by
      change y ∈ s.waiting
      rw [hwait]
      exact List.mem_cons_of_mem x hy)
    (hcore.nonempty x hmem)
  exact ⟨⟨((h.1.of_control (s.setScheduled_control x 0)).requeue s.running rest).evict, hevict.1⟩,
    hevict.2⟩

theorem Fills.ready {acc' : List Nat} {u : State}
    (hf : Fills cfg acc batched s acc' u) (h : s.Ready cfg) : u.Ready cfg := by
  induction hf with
  | stop _ => exact h
  | refuse _ _ _ _ _ => exact h
  | full hwait _ hbudget hallot hfull _ ih =>
    exact ih ((h.joined hwait (h.allotted hwait (by omega) hallot) hfull).record _)
  | chunk hwait _ hbudget hallot hpart =>
    exact (h.chunk hwait (h.allotted hwait (by omega) hallot) hpart).record _
  | sendBackStop hwait _ _ htab _ _ _ => exact (h.sendBack hwait htab).1
  | sendBack hwait _ htab _ _ _ ih => exact ih (h.sendBack hwait htab).1

def fillFuel (s : State) : Nat :=
  s.waiting.length + (if s.midChunkSeq.isSome then 1 else 0) + 1

private theorem settlePrefill_full (ht : (t.seqs x).numScheduledTokens = m)
    (hfull : (t.seqs x).numCachedTokens + m = (t.seqs x).numTokens) :
    settlePrefill x ((t.seqs x).numTokens - (t.seqs x).numCachedTokens) t =
      .ok false (t.joinRunning x) := by
  have hnot : ¬ m < (t.seqs x).numTokens - (t.seqs x).numCachedTokens := by omega
  simp only [settlePrefill, Call.bind_apply, Call.get_apply, ht, hfull, ↓reduceIte, Call.set_apply,
    hnot, Call.pure_apply]

private theorem settlePrefill_chunk (ht : (t.seqs x).numScheduledTokens = m)
    (hpart : (t.seqs x).numCachedTokens + m < (t.seqs x).numTokens)
    (hmid : t.midChunkSeq = none ∨ t.midChunkSeq = some x) :
    settlePrefill x ((t.seqs x).numTokens - (t.seqs x).numCachedTokens) t =
      .ok true (t.withMid (some x)) := by
  have hne : ¬ (t.seqs x).numCachedTokens + m = (t.seqs x).numTokens := by omega
  have hlt : m < (t.seqs x).numTokens - (t.seqs x).numCachedTokens := by omega
  have hok : ¬ (t.midChunkSeq ≠ none ∧ t.midChunkSeq ≠ some x) := by
    rcases hmid with hmid | hmid <;> simp [hmid]
  simp only [settlePrefill, Call.bind_apply, Call.get_apply, ht, hne, ↓reduceIte, Call.pure_apply,
    hlt, hok, Call.set_apply]

/-- One turn of the loop after the head was given blocks: it settles as a full row
and the loop goes on, or as the mid-chunk row and the loop ends. -/
private theorem prefillLoop_settle {fuel : Nat} (h : s.Ready cfg)
    (hwait : s.waiting = x :: rest) (hcap : acc.length < cfg.maxNumSeqs)
    (hbudget : batched < cfg.maxNumBatchedTokens)
    (hallot : Allots cfg s x (cfg.maxNumBatchedTokens - batched) m t)
    (hfuel : fillFuel s ≤ fuel + 1)
    (ih : ∀ (acc : List Nat) (batched : Nat) {s : State}, s.Ready cfg → fillFuel s ≤ fuel →
      ∃ acc' u, prefillLoop cfg fuel acc batched s = .ok acc' u ∧ Fills cfg acc batched s acc' u) :
    ∃ acc' u, (do
        let partialRow ← settlePrefill x ((t.seqs x).numTokens - (t.seqs x).numCachedTokens)
        modify fun t => t.record (.scheduled x)
        if partialRow then pure (acc ++ [x])
        else prefillLoop cfg fuel (acc ++ [x]) (batched + m) : Call (List Nat)) t = .ok acc' u ∧
      Fills cfg acc batched s acc' u := by
  have ha := h.allotted hwait (by omega) hallot
  have hlen : (t.seqs x).numTokens = (s.seqs x).numTokens := by
    rw [ha.seqs, Function.update_self]
    rfl
  have hsched : (t.seqs x).numScheduledTokens = m := by
    rw [ha.seqs, Function.update_self]
  have hamount := ha.amount
  have hcached := ha.cached_lt
  by_cases hfull : (t.seqs x).numCachedTokens + m = (s.seqs x).numTokens
  · have hready := (h.joined hwait ha hfull).record (.scheduled x)
    have hmid := (h.2.joined hwait ha hfull).2
    have hwaiting : (t.joinRunning x).waiting = rest := by
      refine (congrArg Control.waiting (t.joinRunning_control x)).trans ?_
      rw [show t.waiting = s.waiting from congrArg Control.waiting ha.control, hwait]
      rfl
    have hfuel' : fillFuel ((t.joinRunning x).record (.scheduled x)) ≤ fuel := by
      change fillFuel (t.joinRunning x) ≤ fuel
      simp only [fillFuel, hwait, List.length_cons] at hfuel
      simp only [fillFuel, hwaiting, hmid, Option.isSome_none, Bool.false_eq_true, ↓reduceIte]
      omega
    obtain ⟨acc', u, hrec, hfills⟩ := ih (acc ++ [x]) (batched + m) hready hfuel'
    refine ⟨acc', u, ?_, .full hwait hcap hbudget hallot hfull hfills⟩
    simp [settlePrefill_full hsched (by rw [hlen]; exact hfull), hrec]
  · have hpart : (t.seqs x).numCachedTokens + m < (s.seqs x).numTokens := by omega
    have hmid : t.midChunkSeq = none ∨ t.midChunkSeq = some x := by
      rw [show t.midChunkSeq = s.midChunkSeq from congrArg Control.midChunkSeq ha.control]
      exact h.2.mid_of_head hwait
    refine ⟨acc ++ [x], (t.withMid (some x)).record (.scheduled x), ?_, .chunk hwait hcap hbudget hallot hpart⟩
    simp [settlePrefill_chunk hsched (by rw [hlen]; exact hpart) hmid]

theorem prefillLoop_fills : ∀ {fuel : Nat} (acc : List Nat)
    (batched : Nat) {s : State}, s.Ready cfg → fillFuel s ≤ fuel →
      ∃ acc' u, prefillLoop cfg fuel acc batched s = .ok acc' u ∧
        Fills cfg acc batched s acc' u := by
  intro fuel
  induction fuel with
  | zero =>
    intro acc batched s _ hfuel
    exact absurd hfuel (by simp [fillFuel])
  | succ fuel ih =>
    intro acc batched s h hfuel
    cases hwait : s.waiting with
    | nil =>
      refine ⟨acc, s, ?_, .stop (Or.inl hwait)⟩
      simp [prefillLoop, hwait]
    | cons x rest =>
      by_cases hguard : ¬ acc.length < cfg.maxNumSeqs ∨ cfg.maxNumBatchedTokens ≤ batched
      · refine ⟨acc, s, ?_, .stop (by omega)⟩
        simp only [prefillLoop, Call.bind_apply, Call.get_apply, hwait, hguard, ↓reduceIte,
          Call.pure_apply]
      · have hcap : acc.length < cfg.maxNumSeqs := by omega
        have hbudget : batched < cfg.maxNumBatchedTokens := by omega
        have hmem : x ∈ s.waiting := by
          rw [hwait]
          simp
        have hpos := h.2.nonempty x hmem
        have hlive : x ∈ [] ++ s.running ++ s.waiting := by simp [hmem]
        by_cases htab : s.table x = []
        · have htab' : (s.seqs x).blockTable = [] := htab
          cases hcan : canAllocate cfg s x with
          | none =>
            refine ⟨acc, s, ?_, .refuse hwait hcap hbudget htab hcan⟩
            simp only [prefillLoop, Call.bind_apply, Call.get_apply, hwait, hguard, ↓reduceIte,
              htab', hcan, Call.pure_apply]
          | some k =>
            obtain ⟨m, hm⟩ : ∃ m, m = min ((s.seqs x).numTokens - k * cfg.kvcacheBlockSize)
                (cfg.maxNumBatchedTokens - batched) := ⟨_, rfl⟩
            obtain ⟨ids, hchain, hids, -, -, -, hcall⟩ := Allots.fresh_room h.1.toQuiet
              h.2.own hlive htab hpos (by omega) hcan hm
            have hallot := Allots.fresh htab hcan hchain
              hids hm
            obtain ⟨acc', u, hrec, hfills⟩ :=
              prefillLoop_settle h hwait hcap hbudget hallot hfuel ih
            refine ⟨acc', u, ?_, hfills⟩
            rw [← hrec]
            set t := (s.setScheduled x m).allotBlocks cfg x ids
              (pagesFor cfg.kvcacheBlockSize (k * cfg.kvcacheBlockSize + m) - k) with ht
            have hlen : (t.seqs x).numTokens - (t.seqs x).numCachedTokens =
                (s.seqs x).numTokens - k * cfg.kvcacheBlockSize := by
              rw [ht, State.allotBlocks_seqs, Function.update_self, hids]
              simp [State.setScheduled, Sequence.numTokens]
            rw [hlen]
            simp only [prefillLoop, Call.bind_apply, Call.get_apply, hwait, hguard, ↓reduceIte,
              htab', hcan, modifySeq_scheduled, ← hm]
            rw [hcall]
            simp
        · have htab' : (s.seqs x).blockTable ≠ [] := htab
          have hchunk := (h.2.chunked x hmem htab).scheduled_lt
          obtain ⟨m, hm⟩ : ∃ m, m = min ((s.seqs x).numTokens - (s.seqs x).numCachedTokens)
              (cfg.maxNumBatchedTokens - batched) := ⟨_, rfl⟩
          have hset := h.2.own.setRow (x := x)
            (q := { s.seqs x with numScheduledTokens := m }) rfl
          have htabm : (s.setScheduled x m).table x ≠ [] := by
            rw [State.setScheduled_table]
            exact htab
          have hcall := extend_quiet (h.1.toQuiet.of_control (s.setScheduled_control x m)) hset
            hlive htabm (show 1 ≤ (s.seqs x).numCachedTokens + m by omega)
            (by simp only [State.setScheduled, State.setSeq_seqs, Function.update_self]
                change _ ≤ (s.seqs x).numTokens
                omega)
          have hneed : extendNeed cfg (s.setScheduled x m) x ((s.seqs x).numCachedTokens + m) =
              extendNeed cfg s x ((s.seqs x).numCachedTokens + m) := by
            rw [extendNeed, extendNeed, State.setScheduled_table]
          change extend cfg x _ (s.setScheduled x m) = _ at hcall
          rw [hneed] at hcall
          by_cases hfit : extendNeed cfg s x ((s.seqs x).numCachedTokens + m)
              ≤ s.freeBlockIds.length
          · rw [if_pos (show _ ≤ (s.setScheduled x m).freeBlockIds.length from hfit)] at hcall
            have hallot := Allots.resumed htab hm hfit
            obtain ⟨acc', u, hrec, hfills⟩ :=
              prefillLoop_settle h hwait hcap hbudget hallot hfuel ih
            refine ⟨acc', u, ?_, hfills⟩
            rw [← hrec]
            set t := (s.setScheduled x m).claimN x
              (extendNeed cfg s x ((s.seqs x).numCachedTokens + m)) with ht
            have hlen : (t.seqs x).numTokens - (t.seqs x).numCachedTokens =
                (s.seqs x).numTokens - (s.seqs x).numCachedTokens := by
              rw [ht, State.claimN_seqs, Function.update_self]
              simp [State.setScheduled, Sequence.numTokens]
            rw [hlen]
            simp only [prefillLoop, Call.bind_apply, Call.get_apply, hwait, hguard, ↓reduceIte,
              htab', modifySeq_scheduled, ← hm]
            rw [hcall]
            simp
          · rw [if_neg (show ¬ _ ≤ (s.setScheduled x m).freeBlockIds.length from hfit)] at hcall
            obtain ⟨hready, hnone⟩ := h.sendBack hwait htab
            have hcore := h.2.clearScheduled hmem
            have hown : OwnIf cfg.CollisionFree cfg ([] ++ s.running ++ s.waiting)
                ((s.setScheduled x 0).withWaiting rest).table (s.coverage cfg)
                ((s.setScheduled x 0).withWaiting rest) := by
              change OwnIf cfg.CollisionFree cfg _ (s.setScheduled x 0).table _ _
              rw [State.setScheduled_table]
              exact h.2.own.congr_pool rfl rfl rfl rfl
            have hpre : preempt cfg x ((s.setScheduled x 0).withWaiting rest) =
                .ok ⟨⟩ (s.sendBack x rest) :=
              preempt_good ((h.1.of_control (s.setScheduled_control x 0)).requeue s.running rest)
                hown hlive hready.2
            have hzero : (s.setScheduled x m).setScheduled x 0 = s.setScheduled x 0 := by
              simp [State.setScheduled, State.setSeq]
            by_cases hacc : acc = []
            · subst hacc
              have hwaiting : (s.sendBack x rest).waiting = rest ++ [x] :=
                State.evict_waiting _ x
              have hfuel' : fillFuel (s.sendBack x rest) ≤ fuel := by
                have hmid : s.midChunkSeq.isSome = true := by
                  rw [h.2.mid_owner x hmem htab]
                  rfl
                simp only [fillFuel, hwait, hmid, List.length_cons, ↓reduceIte] at hfuel
                simp only [fillFuel, hwaiting, hnone, List.length_append, List.length_singleton,
                  Option.isSome_none, Bool.false_eq_true, ↓reduceIte]
                omega
              obtain ⟨acc', u, hrec, hfills⟩ := ih [] batched hready hfuel'
              refine ⟨acc', u, ?_, .sendBack hwait hbudget htab hm hfit hfills⟩
              simp only [prefillLoop, Call.bind_apply, Call.get_apply, hwait, hguard, ↓reduceIte,
                htab', modifySeq_scheduled, ← hm]
              rw [hcall]
              simp [modifySeq_scheduled, hzero, hpre, hrec]
            · refine ⟨acc, s.sendBack x rest, ?_, .sendBackStop hwait hcap hbudget htab hm hfit hacc⟩
              simp only [prefillLoop, Call.bind_apply, Call.get_apply, hwait, hguard, ↓reduceIte,
                htab', modifySeq_scheduled, ← hm]
              rw [hcall]
              simp [modifySeq_scheduled, hzero, hpre, hacc]

end Fill

end NanoVllm
