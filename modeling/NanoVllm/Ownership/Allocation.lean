/- module: NanoVllm/Ownership/Allocation
   layer: refinement
   source: nanovllm/engine/block_manager.py, _allocate_block to hash_blocks and deallocate
   digest: Each allocator call computes its effect and keeps ownership. -/

import NanoVllm.Library.ChainDigest
import NanoVllm.Library.Paging
import NanoVllm.Ownership.Effects

set_option autoImplicit false
set_option relaxedAutoImplicit false

namespace NanoVllm

open Library

variable {distinct : Prop} {cfg : Config} {live : List Nat} {cov : Nat → Nat} {s : State} {x : Nat}

theorem State.evictHash_lookup (s : State) {b k c : Nat}
    (hown : ∀ h d, s.hashToBlockId.lookup h = some d → (s.blocks d).hash = some h)
    (h : (s.evictHash b).lookup k = some c) : s.hashToBlockId.lookup k = some c ∧ c ≠ b := by
  unfold State.evictHash at h
  cases hhash : (s.blocks b).hash with
  | none =>
    rw [hhash] at h
    refine ⟨h, fun hcb => ?_⟩
    have := hown k c h
    rw [hcb, hhash] at this
    exact absurd this (by simp)
  | some g =>
    rw [hhash] at h
    by_cases hg : s.hashToBlockId.lookup g = some b
    · simp only [hg, ↓reduceIte] at h
      by_cases hkg : k = g
      · subst hkg
        rw [Finmap.lookup_erase] at h
        exact absurd h (by simp)
      · rw [Finmap.lookup_erase_ne hkg] at h
        refine ⟨h, fun hcb => hkg ?_⟩
        have := hown k c h
        rw [hcb, hhash] at this
        exact (Option.some.inj this).symm
    · simp only [hg, ↓reduceIte] at h
      refine ⟨h, fun hcb => hg ?_⟩
      have := hown k c h
      rw [hcb, hhash] at this
      rw [Option.some.inj this, h, hcb]

theorem OwnIf.claim (h : OwnIf distinct cfg live s.table cov s) (hx : x ∈ live) :
    OwnIf distinct cfg live (s.claim x).table cov (s.claim x) := by
  have htab : (s.claim x).table = _ := s.claimN_table x 1
  rw [htab]
  unfold State.claim
  split <;> rename_i hfree
  · rw [hfree, List.take_nil, List.append_nil, Function.update_eq_self]
    exact h
  · rename_i b rest
    rw [hfree, List.take_succ_cons, List.take_zero]
    have hb : b ∈ s.freeBlockIds := by
      rw [hfree]
      simp
    apply h.push hx hb
    · rfl
    · intro k c hc
      exact s.evictHash_lookup (fun k d hd => (h.index k d hd).2.1) hc
    · rw [hfree]
      exact List.Perm.refl _
    · rfl

theorem OwnIf.claimN (h : OwnIf distinct cfg live s.table cov s) (hx : x ∈ live) (n : Nat) :
    OwnIf distinct cfg live (s.claimN x n).table cov (s.claimN x n) := by
  induction n generalizing s with
  | zero => exact h
  | succ n ih => exact ih (h.claim hx)

private theorem allocateBlock_quiet (hq : s.Quiet) {b : Nat} {rest : List Nat}
    (hfree : s.freeBlockIds = b :: rest) (href : (s.blocks b).refCount = 0) :
    allocateBlock s = .ok b ({ s with freeBlockIds := rest }.takeBlock b) := by
  simp [allocateBlock, assertAllocatorMutationAllowed_quiet hq, tick_quiet hq.fault, hfree, href]

private theorem allocateBlocks_quiet (hq : s.Quiet) (h : OwnIf distinct cfg live s.table cov s)
    (hx : x ∈ live)
    {n : Nat} (hn : n ≤ s.freeBlockIds.length) :
    allocateBlocks x n s = .ok ⟨⟩ (s.claimN x n) := by
  induction n generalizing s with
  | zero => rfl
  | succ n ih =>
    cases hfree : s.freeBlockIds with
    | nil =>
      rw [hfree] at hn
      exact absurd hn (by simp)
    | cons b rest =>
      have hb : b ∈ s.freeBlockIds := by
        rw [hfree]
        simp
      have hclaim : s.claim x =
          ({ s with freeBlockIds := rest }.takeBlock b).appendBlock x b := by
        simp [State.claim, hfree]
      have hlen : n ≤ (s.claim x).freeBlockIds.length := by
        rw [s.claim_free, List.length_drop]
        omega
      have hrec := ih (hq.of_control (s.claim_control x)) (h.claim hx) hlen
      simp [allocateBlocks, allocateBlock_quiet hq hfree (h.ref_eq_zero_of_mem_free hb), ← hclaim,
        hrec, State.claimN]

def appendNeed (cfg : Config) (numTokens : Nat) : Nat :=
  if numTokens % cfg.kvcacheBlockSize = 1 then 1 else 0

theorem canAppend_iff (cfg : Config) (s : State) (x : Nat) :
    canAppend cfg s x = true ↔ appendNeed cfg (s.seqs x).numTokens ≤ s.freeBlockIds.length := by
  simp [canAppend, appendNeed]

theorem mayAppend_quiet (hq : s.Quiet) (h : OwnIf distinct cfg live s.table cov s) (hx : x ∈ live)
    (hcan : canAppend cfg s x = true) :
    mayAppend cfg x s = .ok ⟨⟩ (s.claimN x (appendNeed cfg (s.seqs x).numTokens)) := by
  rw [canAppend_iff] at hcan
  by_cases hlen : (s.seqs x).numTokens % cfg.kvcacheBlockSize = 1
  · have hblocks := allocateBlocks_quiet hq h hx hcan
    simp only [appendNeed, hlen, ↓reduceIte] at hblocks ⊢
    simpa [mayAppend, assertAllocatorMutationAllowed_quiet hq, hlen, allocateBlocks] using hblocks
  · simp [mayAppend, assertAllocatorMutationAllowed_quiet hq, hlen, appendNeed, State.claimN]

/-- The blocks `extend` adds. -/
def extendNeed (cfg : Config) (s : State) (x through : Nat) : Nat :=
  pagesFor cfg.kvcacheBlockSize through - (s.table x).length

theorem extend_quiet (hq : s.Quiet) (h : OwnIf distinct cfg live s.table cov s) (hx : x ∈ live)
    (htab : s.table x ≠ []) {through : Nat} (hpos : 1 ≤ through)
    (hle : through ≤ (s.seqs x).numTokens) :
    extend cfg x through s =
      if extendNeed cfg s x through ≤ s.freeBlockIds.length
      then .ok true (s.claimN x (extendNeed cfg s x through)) else .ok false s := by
  have htab' : (s.seqs x).blockTable ≠ [] := htab
  have hneed : extendNeed cfg s x through =
      (through + cfg.kvcacheBlockSize - 1) / cfg.kvcacheBlockSize
        - (s.seqs x).blockTable.length := rfl
  by_cases hfit : (through + cfg.kvcacheBlockSize - 1) / cfg.kvcacheBlockSize
      ≤ (s.seqs x).blockTable.length
  · have hzero : extendNeed cfg s x through = 0 := by
      rw [hneed]
      omega
    simp [extend, assertAllocatorMutationAllowed_quiet hq, htab', hpos, Nat.not_lt.mpr hle, hfit, hzero,
      State.claimN]
  · by_cases hfree : extendNeed cfg s x through ≤ s.freeBlockIds.length
    · have hblocks := allocateBlocks_quiet hq h hx hfree
      have hnot : ¬ s.freeBlockIds.length <
          (through + cfg.kvcacheBlockSize - 1) / cfg.kvcacheBlockSize
            - (s.seqs x).blockTable.length := by
        rw [← hneed]
        omega
      rw [if_pos hfree]
      simp only [hneed] at hblocks ⊢
      simp [extend, assertAllocatorMutationAllowed_quiet hq, htab', hpos, Nat.not_lt.mpr hle, hfit, hnot,
        hblocks]
    · have hlt : s.freeBlockIds.length <
          (through + cfg.kvcacheBlockSize - 1) / cfg.kvcacheBlockSize
            - (s.seqs x).blockTable.length := by
        rw [← hneed]
        omega
      rw [if_neg hfree]
      simp [extend, assertAllocatorMutationAllowed_quiet hq, htab', hpos, Nat.not_lt.mpr hle, hfit, hlt]

/-- The chained digest of the first `k` blocks of a token list. -/
def chainHash (cfg : Config) (tokenIds : List Nat) (k : Nat) : Option Nat :=
  chainDigest cfg.xxh64 (blocksBelow cfg.kvcacheBlockSize tokenIds k)

theorem chainHash_succ (cfg : Config) (tokenIds : List Nat) (k : Nat) :
    chainHash cfg tokenIds (k + 1) = some
      (cfg.computeHash (blockOf cfg.kvcacheBlockSize tokenIds k) (chainHash cfg tokenIds k)) :=
  rfl

/-- What `compute_hash` digests for the full blocks of a token list. -/
def Config.hashedWords (cfg : Config) (tokenIds : List Nat) : List (List Nat) :=
  chainWords cfg.xxh64
    (blocksBelow cfg.kvcacheBlockSize tokenIds (tokenIds.length / cfg.kvcacheBlockSize))

/-- The digests of full blocks give back the blocks, with no collision among what was digested. -/
theorem chainHash_injOn {hashed : Set (List Nat)} (hinj : Set.InjOn cfg.xxh64 hashed)
    {t u : List Nat} (hwt : ∀ w ∈ cfg.hashedWords t, w ∈ hashed)
    (hwu : ∀ w ∈ cfg.hashedWords u, w ∈ hashed) {j k : Nat}
    (ht : j * cfg.kvcacheBlockSize ≤ t.length) (hu : k * cfg.kvcacheBlockSize ≤ u.length)
    (h : chainHash cfg t j = chainHash cfg u k) :
    j = k ∧ t.take (j * cfg.kvcacheBlockSize) = u.take (j * cfg.kvcacheBlockSize) := by
  have hpos : 0 < cfg.kvcacheBlockSize := by
    have := cfg.blockSize_ge
    omega
  have hblocks := chainDigest_injOn hinj (blocksBelow_full ht) (blocksBelow_full hu)
    (fun w hw => hwt w (chainWords_blocksBelow ((Nat.le_div_iff_mul_le hpos).mpr ht) w hw))
    (fun w hw => hwu w (chainWords_blocksBelow ((Nat.le_div_iff_mul_le hpos).mpr hu) w hw)) h
  have hjk : j = k := by
    have hlen := congrArg List.length hblocks
    simpa using hlen
  subst hjk
  exact ⟨rfl, take_eq_of_blocksBelow_eq hblocks⟩

private theorem chainHash_inj (hcol : cfg.CollisionFree) {t u : List Nat} {j k : Nat}
    (ht : j * cfg.kvcacheBlockSize ≤ t.length) (hu : k * cfg.kvcacheBlockSize ≤ u.length)
    (h : chainHash cfg t j = chainHash cfg u k) :
    j = k ∧ t.take (j * cfg.kvcacheBlockSize) = u.take (j * cfg.kvcacheBlockSize) :=
  chainHash_injOn (hcol.injOn (s := Set.univ)) (by simp) (by simp) ht hu h

/-- `b` is indexed under the chained digest of the first `i + 1` blocks of `tokenIds`
and stores block `i`. -/
def CachedAt (cfg : Config) (s : State) (tokenIds : List Nat) (i b : Nat) : Prop :=
  ∃ h, chainHash cfg tokenIds (i + 1) = some h ∧ s.hashToBlockId.lookup h = some b
    ∧ (s.blocks b).tokenIds = blockOf cfg.kvcacheBlockSize tokenIds i

theorem cachedChain_entries {seq : Sequence} {n : Nat} : ∀ {i : Nat} {ids : List Nat},
    cachedChain cfg s seq (List.range' i n) (chainHash cfg seq.tokenIds i) = .ok ids →
      ids.length = n ∧
        ∀ j b, ids[j]? = some b → CachedAt cfg s seq.tokenIds (i + j) b := by
  induction n with
  | zero =>
    intro i ids h
    simp only [List.range'_zero, cachedChain] at h
    cases h
    simp
  | succ n ih =>
    intro i ids h
    simp only [List.range'_succ, cachedChain] at h
    cases hlook : s.hashToBlockId.lookup
        (cfg.computeHash (seq.block cfg i) (chainHash cfg seq.tokenIds i)) with
    | none =>
      rw [hlook] at h
      exact absurd h (by simp [throw, throwThe, MonadExceptOf.throw])
    | some b =>
      simp only [hlook] at h
      by_cases htok : (s.blocks b).tokenIds = seq.block cfg i
      · simp only [htok, ne_eq, not_true_eq_false, ↓reduceIte] at h
        cases hmore : cachedChain cfg s seq (List.range' (i + 1) n)
            (chainHash cfg seq.tokenIds (i + 1)) with
        | error e =>
          rw [chainHash_succ] at hmore
          simp only [Sequence.block, blockOf] at h hmore
          rw [hmore] at h
          exact absurd h (by simp [bind, Except.bind])
        | ok more =>
          obtain ⟨hlen, hrest⟩ := ih hmore
          rw [chainHash_succ] at hmore
          simp only [Sequence.block, blockOf] at h hmore
          rw [hmore] at h
          simp only [bind, Except.bind, pure, Except.pure, Except.ok.injEq] at h
          subst h
          refine ⟨by simp [hlen], ?_⟩
          intro j c hj
          cases j with
          | zero =>
            simp only [List.getElem?_cons_zero, Option.some.injEq] at hj
            subst hj
            exact ⟨_, chainHash_succ cfg seq.tokenIds i, hlook, htok⟩
          | succ j =>
            rw [List.getElem?_cons_succ] at hj
            have := hrest j c hj
            rwa [show i + 1 + j = i + (j + 1) by omega] at this
      · simp only [htok, ne_eq, not_false_eq_true, ↓reduceIte] at h
        exact absurd h (by simp [bind, Except.bind, throw, throwThe, MonadExceptOf.throw])

private theorem cachedAt_inj (hcol : cfg.CollisionFree) (h : OwnIf distinct cfg live s.table cov s)
    {tokenIds : List Nat} {i j b : Nat}
    (hi : (i + 1) * cfg.kvcacheBlockSize ≤ tokenIds.length)
    (hj : (j + 1) * cfg.kvcacheBlockSize ≤ tokenIds.length)
    (hbi : CachedAt cfg s tokenIds i b) (hbj : CachedAt cfg s tokenIds j b) : i = j := by
  obtain ⟨p, hp, hlp, -⟩ := hbi
  obtain ⟨q, hq, hlq, -⟩ := hbj
  have hpq : p = q := by
    have h1 := (h.index p b hlp).2.1
    have h2 := (h.index q b hlq).2.1
    rw [h1] at h2
    exact Option.some.inj h2
  subst hpq
  have := (chainHash_inj hcol hi hj (hp.trans hq.symm)).1
  omega

/-- What the loop of `can_allocate` returns: the chain `allocate_incremental` finds
again, and one block less for each matched block that is in use. -/
theorem matchCachedBlocks_eq (cfg : Config) (s : State) (seq : Sequence) :
    ∀ (idxs : List Nat) (parent : Option Nat) (cached needed : Nat), ∃ j ids,
      j ≤ idxs.length ∧ cachedChain cfg s seq (idxs.take j) parent = .ok ids ∧ ids.length = j ∧
        matchCachedBlocks cfg s seq idxs parent cached needed =
          (cached + j, needed - ids.countP (· ∈ s.usedBlockIds)) := by
  intro idxs
  induction idxs with
  | nil =>
    intro parent cached needed
    exact ⟨0, [], le_rfl, rfl, rfl, rfl⟩
  | cons i idxs ih =>
    intro parent cached needed
    cases hlook : s.hashToBlockId.lookup (cfg.computeHash (seq.block cfg i) parent) with
    | none =>
      refine ⟨0, [], by simp, rfl, rfl, ?_⟩
      simp [matchCachedBlocks, hlook]
    | some b =>
      by_cases htok : (s.blocks b).tokenIds = seq.block cfg i
      · obtain ⟨j, ids, hj, hchain, hlen, heq⟩ :=
          ih (some (cfg.computeHash (seq.block cfg i) parent)) (cached + 1)
            (if b ∈ s.usedBlockIds then needed - 1 else needed)
        refine ⟨j + 1, b :: ids, by simpa using hj, ?_, by simp [hlen], ?_⟩
        · simp only [List.take_succ_cons, cachedChain, hlook, htok, ne_eq, not_true_eq_false,
            ↓reduceIte, hchain]
          rfl
        · simp only [matchCachedBlocks, hlook, htok, ne_eq, not_true_eq_false, ↓reduceIte, heq,
            List.countP_cons, Prod.mk.injEq]
          refine ⟨by omega, ?_⟩
          by_cases hused : b ∈ s.usedBlockIds
          · simp only [hused, ↓reduceIte, decide_true]
            omega
          · simp [hused]
      · refine ⟨0, [], by simp, rfl, rfl, ?_⟩
        simp [matchCachedBlocks, hlook, htok]

theorem canAllocate_some {k : Nat} (hcan : canAllocate cfg s x = some k) :
    ∃ ids, cachedChain cfg s (s.seqs x) (List.range k) none = .ok ids ∧ ids.length = k ∧
      k ≤ (s.seqs x).numBlocks cfg - 1 ∧
      (s.seqs x).numBlocks cfg - ids.countP (· ∈ s.usedBlockIds) ≤ s.freeBlockIds.length := by
  obtain ⟨j, ids, hj, hchain, hlen, heq⟩ := matchCachedBlocks_eq cfg s (s.seqs x)
    (List.range ((s.seqs x).numBlocks cfg - 1)) none 0 ((s.seqs x).numBlocks cfg)
  rw [List.length_range] at hj
  simp only [canAllocate, heq, Nat.zero_add] at hcan
  by_cases hroom : s.freeBlockIds.length <
      (s.seqs x).numBlocks cfg - ids.countP (· ∈ s.usedBlockIds)
  · rw [if_pos hroom] at hcan
    exact absurd hcan (by simp)
  · rw [if_neg hroom] at hcan
    obtain rfl := Option.some.inj hcan
    refine ⟨ids, ?_, hlen, hj, Nat.le_of_not_lt hroom⟩
    rwa [List.take_range, Nat.min_eq_left hj] at hchain

variable (cfg) in
theorem matchCachedBlocks_congr {t : State} {q r : Sequence}
    (hindex : t.hashToBlockId = s.hashToBlockId) (hblocks : t.blocks = s.blocks)
    (hused : t.usedBlockIds = s.usedBlockIds) (htok : r.tokenIds = q.tokenIds) :
    ∀ (idxs : List Nat) (parent : Option Nat) (cached needed : Nat),
      matchCachedBlocks cfg t r idxs parent cached needed =
        matchCachedBlocks cfg s q idxs parent cached needed := by
  intro idxs
  induction idxs with
  | nil => exact fun parent cached needed => rfl
  | cons i idxs ih =>
    intro parent cached needed
    have hblock : r.block cfg i = q.block cfg i := by
      rw [Sequence.block, Sequence.block, htok]
    simp only [matchCachedBlocks]
    rw [hblock, hindex, hblocks, hused]
    cases s.hashToBlockId.lookup (cfg.computeHash (q.block cfg i) parent) with
    | none => rfl
    | some b => simp only [ih]

theorem cachedChain_congr {t : State} {q r : Sequence}
    (hindex : t.hashToBlockId = s.hashToBlockId) (hblocks : t.blocks = s.blocks)
    (htok : r.tokenIds = q.tokenIds) :
    ∀ (idxs : List Nat) (parent : Option Nat),
      cachedChain cfg t r idxs parent = cachedChain cfg s q idxs parent := by
  intro idxs
  induction idxs with
  | nil => exact fun parent => rfl
  | cons i idxs ih =>
    intro parent
    have hblock : r.block cfg i = q.block cfg i := by
      rw [Sequence.block, Sequence.block, htok]
    simp only [cachedChain]
    rw [hblock, hindex, hblocks]
    cases s.hashToBlockId.lookup (cfg.computeHash (q.block cfg i) parent) with
    | none => rfl
    | some b => simp only [ih]

private theorem OwnIf.pinned {b k : Nat} (h : OwnIf distinct cfg live s.table cov s) (hx : x ∈ live)
    (hk : s.hashToBlockId.lookup k = some b) (hb : distinct → b ∉ s.table x)
    (hcov : (s.table x).length < cov x) :
    OwnIf distinct cfg live (s.pin x b).table cov (s.pin x b) := by
  have htab : (s.pin x b).table = Function.update s.table x (s.table x ++ [b]) :=
    State.setSeq_table _ x _
  rw [htab]
  exact h.pin hx hk hb hcov rfl rfl rfl rfl

/-- The blocks of a chain that still has to be pinned below the coverage of `x`. -/
structure Pinnable (distinct : Prop) (s : State) (x : Nat) (cov : Nat → Nat) (ids : List Nat) :
    Prop where
  nodup : distinct → ids.Nodup
  fresh : distinct → ∀ b ∈ ids, b ∉ s.table x
  indexed : ∀ b ∈ ids, ∃ k, s.hashToBlockId.lookup k = some b
  below : (s.table x).length + ids.length ≤ cov x

private theorem Pinnable.tail {b : Nat} {ids : List Nat} (h : Pinnable distinct s x cov (b :: ids)) :
    Pinnable distinct (s.pin x b) x cov ids := by
  have htab : (s.pin x b).table x = s.table x ++ [b] := by
    simp [State.table, State.pin, State.appendBlock]
  refine ⟨fun hd => (List.nodup_cons.mp (h.nodup hd)).2, ?_, ?_, ?_⟩
  · intro hd c hc
    rw [htab, List.mem_append, List.mem_singleton]
    rintro (hold | rfl)
    · exact h.fresh hd c (List.mem_cons_of_mem b hc) hold
    · exact (List.nodup_cons.mp (h.nodup hd)).1 hc
  · exact fun c hc => h.indexed c (List.mem_cons_of_mem b hc)
  · have hbelow := h.below
    rw [htab, List.length_append, List.length_singleton]
    rw [List.length_cons] at hbelow
    omega

private theorem OwnIf.pinnedHead {b : Nat} {ids : List Nat} (h : OwnIf distinct cfg live s.table cov s)
    (hx : x ∈ live) (hp : Pinnable distinct s x cov (b :: ids)) :
    OwnIf distinct cfg live (s.pin x b).table cov (s.pin x b) := by
  obtain ⟨k, hk⟩ := hp.indexed b (by simp)
  have hbelow := hp.below
  rw [List.length_cons] at hbelow
  exact h.pinned hx hk (fun hd => hp.fresh hd b (by simp)) (by omega)

theorem OwnIf.pinAll {ids : List Nat} (h : OwnIf distinct cfg live s.table cov s) (hx : x ∈ live)
    (hp : Pinnable distinct s x cov ids) :
    OwnIf distinct cfg live (s.pinAll x ids).table cov (s.pinAll x ids) := by
  induction ids generalizing s with
  | nil => exact h
  | cons b ids ih => exact ih (h.pinnedHead hx hp) hp.tail

private theorem pinBlock_eq {b k : Nat} (h : OwnIf distinct cfg live s.table cov s)
    (hk : s.hashToBlockId.lookup k = some b) : pinBlock x b s = .ok ⟨⟩ (s.pin x b) := by
  have hblt := (h.index k b hk).1
  by_cases hused : b ∈ s.usedBlockIds
  · have hfree : b ∉ s.freeBlockIds := fun hb => ((h.mem_free b).mp hb).2 hused
    simp [pinBlock, hused, State.pin, State.setBlock, State.appendBlock, State.setSeq,
      List.erase_of_not_mem hfree]
  · have hfree : b ∈ s.freeBlockIds := (h.mem_free b).mpr ⟨hblt, hused⟩
    have hzero := h.ref_eq_zero_of_mem_free hfree
    simp [pinBlock, hused, hfree, State.pin, State.setBlock, State.appendBlock, State.setSeq,
      hzero]

theorem pinBlocks_eq {ids : List Nat} (h : OwnIf distinct cfg live s.table cov s) (hx : x ∈ live)
    (hp : Pinnable distinct s x cov ids) : pinBlocks x ids s = .ok ⟨⟩ (s.pinAll x ids) := by
  induction ids generalizing s with
  | nil => rfl
  | cons b ids ih =>
    obtain ⟨k, hk⟩ := hp.indexed b (by simp)
    have hrec := ih (h.pinnedHead hx hp) hp.tail
    simpa [pinBlocks, pinBlock_eq h hk, State.pinAll] using hrec

theorem pinAll_free_length {ids : List Nat} (h : OwnIf distinct cfg live s.table cov s)
    (hx : x ∈ live) (hp : Pinnable distinct s x cov ids) :
    s.freeBlockIds.length ≤
      (s.pinAll x ids).freeBlockIds.length + ids.countP (· ∉ s.usedBlockIds) := by
  induction ids generalizing s with
  | nil => simp [State.pinAll]
  | cons b ids ih =>
    have hrec := ih (h.pinnedHead hx hp) hp.tail
    obtain ⟨k, hk⟩ := hp.indexed b (by simp)
    -- pinning only adds used blocks
    have hcount : ids.countP (· ∉ (s.pin x b).usedBlockIds) ≤
        ids.countP (· ∉ s.usedBlockIds) := by
      apply List.countP_mono_left
      intro c _ hc
      have hnot : c ≠ b ∧ c ∉ s.usedBlockIds := by
        simpa [State.pin, State.appendBlock, State.setSeq] using hc
      simpa using hnot.2
    have hfree : (s.pin x b).freeBlockIds = s.freeBlockIds.erase b := rfl
    change _ ≤ ((s.pin x b).pinAll x ids).freeBlockIds.length + _
    rw [hfree] at hrec
    by_cases hused : b ∈ s.usedBlockIds
    · have hnot : b ∉ s.freeBlockIds := fun hmem => ((h.mem_free b).mp hmem).2 hused
      rw [List.erase_of_not_mem hnot] at hrec
      have hcons : (b :: ids).countP (· ∉ s.usedBlockIds) = ids.countP (· ∉ s.usedBlockIds) := by
        simp [hused]
      omega
    · have hmem : b ∈ s.freeBlockIds := (h.mem_free b).mpr ⟨(h.index k b hk).1, hused⟩
      have hpos : 0 < s.freeBlockIds.length := List.length_pos_of_mem hmem
      rw [List.length_erase_of_mem hmem] at hrec
      have hcons : (b :: ids).countP (· ∉ s.usedBlockIds) =
          ids.countP (· ∉ s.usedBlockIds) + 1 := by
        simp [hused]
      omega

theorem pinnable_of_chain (h : OwnIf cfg.CollisionFree cfg live s.table cov s)
    (htab : s.table x = []) {k : Nat} {ids : List Nat} (hcov : k ≤ cov x)
    (hlen : k * cfg.kvcacheBlockSize ≤ (s.seqs x).numTokens)
    (hchain : cachedChain cfg s (s.seqs x) (List.range k) none = .ok ids) :
    Pinnable cfg.CollisionFree s x cov ids := by
  rw [List.range_eq_range'] at hchain
  obtain ⟨hids, hentries⟩ := cachedChain_entries (i := 0) hchain
  have hfull : ∀ i, i < k → (i + 1) * cfg.kvcacheBlockSize ≤ (s.seqs x).tokenIds.length :=
    fun i hi => (Nat.mul_le_mul_right _ hi).trans hlen
  refine ⟨?_, ?_, ?_, ?_⟩
  · intro hcol
    rw [List.nodup_iff_getElem?_ne_getElem?]
    intro i j hij hj heq
    have hi : i < ids.length := by omega
    have hbi := hentries i ids[i] (List.getElem?_eq_getElem hi)
    have hbj := hentries j ids[i] (by rw [← heq]; exact List.getElem?_eq_getElem hi)
    rw [Nat.zero_add] at hbi hbj
    have := cachedAt_inj hcol h (hfull i (by omega)) (hfull j (by omega)) hbi hbj
    omega
  · rw [htab]
    simp
  · intro b hb
    obtain ⟨j, hj⟩ := List.getElem?_of_mem hb
    obtain ⟨g, -, hg, -⟩ := hentries j b hj
    exact ⟨g, hg⟩
  · rw [htab, hids]
    simpa using hcov

theorem numBlocks_eq (seq : Sequence) :
    seq.numBlocks cfg = pagesFor cfg.kvcacheBlockSize seq.numTokens := rfl

/-- After a successful `can_allocate`, `allocate_incremental` neither refuses nor
raises: its own count of the blocks it takes never exceeds the promised room. -/
theorem allocateIncremental_quiet (hq : s.Quiet)
    (h : OwnIf cfg.CollisionFree cfg live s.table cov s) (hx : x ∈ live) (htab : s.table x = [])
    {k through : Nat}
    (hcov : k ≤ cov x) (hcan : canAllocate cfg s x = some k)
    (hlo : k * cfg.kvcacheBlockSize < through) (hhi : through ≤ (s.seqs x).numTokens) :
    ∃ ids, cachedChain cfg s (s.seqs x) (List.range k) none = .ok ids ∧ ids.length = k ∧
      Pinnable cfg.CollisionFree s x cov ids ∧
      pagesFor cfg.kvcacheBlockSize through - k ≤ (s.pinAll x ids).freeBlockIds.length ∧
      allocateIncremental cfg x k through s =
        .ok true (s.allotBlocks cfg x ids (pagesFor cfg.kvcacheBlockSize through - k)) := by
  have hbs : 0 < cfg.kvcacheBlockSize := by
    have := cfg.blockSize_ge
    omega
  obtain ⟨ids, hchain, hids, hk, hroom⟩ := canAllocate_some hcan
  have hp := pinnable_of_chain h htab hcov (by omega) hchain
  have hfree := pinAll_free_length h hx hp
  have hsplit : ids.countP (· ∈ s.usedBlockIds) + ids.countP (· ∉ s.usedBlockIds) = k := by
    rw [← hids]
    simpa using (List.length_eq_countP_add_countP (· ∈ s.usedBlockIds)).symm
  have hkpages : k < pagesFor cfg.kvcacheBlockSize through := (lt_pagesFor_iff hbs).mpr hlo
  have hpages : pagesFor cfg.kvcacheBlockSize through ≤ (s.seqs x).numBlocks cfg := by
    rw [numBlocks_eq]
    exact pagesFor_mono hbs hhi
  have hneed : pagesFor cfg.kvcacheBlockSize through - k ≤
      (s.pinAll x ids).freeBlockIds.length := by omega
  refine ⟨ids, hchain, hids, hp, hneed, ?_⟩
  have htab' : (s.seqs x).blockTable = [] := htab
  have hfilter : (ids.filter (· ∉ s.usedBlockIds)).length = ids.countP (· ∉ s.usedBlockIds) :=
    (List.countP_eq_length_filter).symm
  have hnotlt : ¬ s.freeBlockIds.length <
      pagesFor cfg.kvcacheBlockSize through - k + (ids.filter (· ∉ s.usedBlockIds)).length := by
    rw [hfilter]
    omega
  have hpinned := pinBlocks_eq h hx hp
  have hblocks := allocateBlocks_quiet (hq.of_control (s.pinAll_control x ids))
    (h.pinAll hx hp) hx hneed
  have hblock : ¬ (s.seqs x).numBlocks cfg ≤ k := by omega
  have hpos : 1 ≤ through := by omega
  have hpages' : ¬ (through + cfg.kvcacheBlockSize - 1) / cfg.kvcacheBlockSize ≤ k :=
    Nat.not_le.mpr hkpages
  unfold pagesFor at hnotlt hblocks ⊢
  simp only [decide_not] at hnotlt
  simp [allocateIncremental, assertAllocatorMutationAllowed_quiet hq, htab', hblock, hpos,
    Nat.not_lt.mpr hhi, hpages', hchain, liftExcept, hnotlt, hpinned, hblocks, modifySeq,
    State.allotBlocks, hids]

theorem OwnIf.allotBlocks {ids : List Nat} {n : Nat} (h : OwnIf distinct cfg live s.table cov s)
    (hx : x ∈ live)
    (hp : Pinnable distinct s x cov ids) :
    OwnIf distinct cfg live (s.allotBlocks cfg x ids n).table cov (s.allotBlocks cfg x ids n) := by
  have hclaim := (h.pinAll hx hp).claimN hx n
  have htab : (s.allotBlocks cfg x ids n).table = ((s.pinAll x ids).claimN x n).table := by
    unfold State.allotBlocks
    simp only
    rw [State.setSeq_table]
    exact Function.update_eq_self x _
  rw [htab]
  exact hclaim.congr_pool rfl rfl rfl rfl

private theorem OwnIf.releaseBlock {table : Nat → List Nat}
    (h : OwnIf distinct cfg live table cov s) (hx : x ∈ live)
    {t : List Nat} {b : Nat} (htab : table x = t ++ [b]) :
    OwnIf distinct cfg live (Function.update table x t) cov (s.releaseBlock b) := by
  apply h.pop hx htab (s.releaseBlock_blocks b) (s.releaseBlock_index b)
  · intro href
    have hpos := h.ref_pos_of_mem_table hx (b := b) (by rw [htab]; simp)
    have hne : (s.blocks b).refCount - 1 ≠ 0 := by omega
    simp [State.releaseBlock, State.setBlock, hne]
  · intro href
    simp [State.releaseBlock, State.setBlock, href]

private theorem OwnIf.releaseAll (hx : x ∈ live) :
    ∀ (t : List Nat) (s : State) (table : Nat → List Nat), OwnIf distinct cfg live table cov s →
      table x = t → OwnIf distinct cfg live (Function.update table x []) cov (s.releaseAll t.reverse) := by
  intro t
  induction t using List.reverseRecOn with
  | nil =>
    intro s table h htab
    have hupd : Function.update table x [] = table := by
      rw [← htab, Function.update_eq_self]
    rw [hupd]
    exact h
  | append_singleton t b ih =>
    intro s table h htab
    have hrec := ih (s.releaseBlock b) (Function.update table x t) (h.releaseBlock hx htab)
      (by simp)
    rw [Function.update_idem] at hrec
    rw [List.reverse_append]
    exact hrec

theorem OwnIf.release (h : OwnIf distinct cfg live s.table cov s) (hx : x ∈ live) :
    OwnIf distinct cfg live (s.release x).table cov (s.release x) := by
  have hall := OwnIf.releaseAll hx (s.table x) s s.table h rfl
  have htab : (s.release x).table = Function.update s.table x [] := by
    funext y
    rw [State.table, State.release_seqs]
    by_cases hyx : y = x
    · subst hyx
      simp
    · simp [hyx, State.table]
  rw [htab]
  exact hall.congr_pool rfl rfl rfl rfl

private theorem deallocateBlock_quiet (hq : s.Quiet) {b : Nat} (href : (s.blocks b).refCount = 0)
    (hused : b ∈ s.usedBlockIds) :
    deallocateBlock b s = .ok ⟨⟩ { s with
      usedBlockIds := s.usedBlockIds.erase b
      freeBlockIds := s.freeBlockIds ++ [b] } := by
  simp [deallocateBlock, assertAllocatorMutationAllowed_quiet hq, tick_quiet hq.fault, href, hused]

private theorem releaseBlocks_quiet (hx : x ∈ live) :
    ∀ (t : List Nat) (s : State) (table : Nat → List Nat),
      s.Quiet → OwnIf distinct cfg live table cov s →
      table x = t → releaseBlocks t.reverse s = .ok ⟨⟩ (s.releaseAll t.reverse) := by
  intro t
  induction t using List.reverseRecOn with
  | nil =>
    intro s table hq h htab
    rfl
  | append_singleton t b ih =>
    intro s table hq h htab
    have hrec := ih (s.releaseBlock b) (Function.update table x t)
      (hq.of_control (s.releaseBlock_control b)) (h.releaseBlock hx htab) (by simp)
    have hb : b ∈ table x := by
      rw [htab]
      simp
    have hused := h.mem_used_of_mem_table hx hb
    have hq' : (s.setBlock b { s.blocks b with refCount := (s.blocks b).refCount - 1 }).Quiet :=
      hq.of_control rfl
    rw [List.reverse_append, List.reverse_singleton, List.singleton_append]
    change releaseBlocks (b :: t.reverse) s = .ok ⟨⟩ ((s.releaseBlock b).releaseAll t.reverse)
    rw [← hrec]
    by_cases href : (s.blocks b).refCount - 1 = 0
    · have hdealloc := deallocateBlock_quiet hq' (b := b) (by simp [State.setBlock, href]) hused
      simp [releaseBlocks, State.setBlock, href, State.releaseBlock] at hdealloc ⊢
      simp [hdealloc]
    · simp [releaseBlocks, State.setBlock, href, State.releaseBlock]

theorem deallocate_quiet (hq : s.Quiet) (h : OwnIf distinct cfg live s.table cov s) (hx : x ∈ live) :
    deallocate x s = .ok ⟨⟩ (s.release x) := by
  have hrel := releaseBlocks_quiet hx (s.table x) s s.table hq h rfl
  simp [deallocate, hq.reservation, assertAllocatorMutationAllowed_quiet hq, modifySeq,
    State.table] at hrel ⊢
  simp [hrel, State.release, State.table]

def State.publishAt (s : State) (cfg : Config) (x i : Nat) (parent : Option Nat) : State :=
  s.publish ((s.table x).getD i 0)
    (cfg.computeHash (blockOf cfg.kvcacheBlockSize (s.seqs x).tokenIds i) parent)
    (blockOf cfg.kvcacheBlockSize (s.seqs x).tokenIds i)

def State.publishFrom (s : State) (cfg : Config) (x : Nat) : Nat → Nat → Option Nat → State
  | _, 0, _ => s
  | i, n + 1, parent =>
    (s.publishAt cfg x i parent).publishFrom cfg x (i + 1) n
      (some (cfg.computeHash (blockOf cfg.kvcacheBlockSize (s.seqs x).tokenIds i) parent))

@[simp] theorem State.publish_control (s : State) (b k : Nat) (tokens : List Nat) :
    (s.publish b k tokens).control = s.control := rfl

@[simp] theorem State.publish_seqs (s : State) (b k : Nat) (tokens : List Nat) :
    (s.publish b k tokens).seqs = s.seqs := rfl

@[simp] theorem State.publishFrom_seqs (cfg : Config) (x n : Nat) :
    ∀ (s : State) (i : Nat) (parent : Option Nat),
      (s.publishFrom cfg x i n parent).seqs = s.seqs := by
  induction n with
  | zero => exact fun s i parent => rfl
  | succ n ih => exact fun s i parent => ih _ _ _

@[simp] theorem State.publishFrom_control (cfg : Config) (x n : Nat) :
    ∀ (s : State) (i : Nat) (parent : Option Nat),
      (s.publishFrom cfg x i n parent).control = s.control := by
  induction n with
  | zero => exact fun s i parent => rfl
  | succ n ih => exact fun s i parent => ih _ _ _

theorem OwnIf.publishFrom (hx : x ∈ live) {n : Nat} : ∀ {s : State} {i : Nat} {cov : Nat → Nat}
    {parent : Option Nat}, OwnIf distinct cfg live s.table cov s → cov x ≤ i →
    i + n ≤ (s.table x).length → (i + n) * cfg.kvcacheBlockSize ≤ (s.seqs x).numTokens →
    ∀ {cov' : Nat → Nat}, (∀ y, cov y ≤ cov' y) → i + n ≤ cov' x →
      OwnIf distinct cfg live s.table cov' (s.publishFrom cfg x i n parent) := by
  induction n with
  | zero =>
    intro s i cov parent h hcov htab hlen cov' hle hlt
    exact h.mono_cov fun y _ => hle y
  | succ n ih =>
    intro s i cov parent h hcov htab hlen cov' hle hlt
    have hi : (s.table x)[i]? = some ((s.table x).getD i 0) := by
      rw [List.getD_eq_getElem?_getD, List.getElem?_eq_getElem (by omega)]
      rfl
    have hfull : (i + 1) * cfg.kvcacheBlockSize ≤ (s.seqs x).tokenIds.length :=
      (Nat.mul_le_mul_right _ (by omega)).trans hlen
    have hstep : OwnIf distinct cfg live s.table (Function.update cov x (i + 1)) (s.publishAt cfg x i parent) := by
      apply h.publish hx hi hcov (blockOf_length hfull)
      · intro y
        by_cases hyx : y = x
        · subst hyx
          rw [Function.update_self]
          omega
        · rw [Function.update_of_ne hyx]
      · rw [Function.update_self]
        omega
    apply ih (s := s.publishAt cfg x i parent) hstep
    · rw [Function.update_self]
    · change i + 1 + n ≤ (s.table x).length
      omega
    · change (i + 1 + n) * cfg.kvcacheBlockSize ≤ (s.seqs x).numTokens
      rwa [show i + 1 + n = i + (n + 1) by omega]
    · intro y
      by_cases hyx : y = x
      · subst hyx
        rw [Function.update_self]
        omega
      · rw [Function.update_of_ne hyx]
        exact hle y
    · omega

private theorem hashBlocksLoop_quiet {n : Nat} : ∀ {s : State} {i : Nat} (parent : Option Nat),
    s.fault = none → i + n ≤ (s.table x).length → i + n ≤ (s.seqs x).numBlocks cfg →
      hashBlocksLoop cfg x (List.range' i n) parent s =
        .ok ⟨⟩ (s.publishFrom cfg x i n parent) := by
  induction n with
  | zero =>
    intro s i parent hf htab hblk
    rfl
  | succ n ih =>
    intro s i parent hf htab hblk
    have hi : (s.seqs x).blockTable[i]? = some ((s.table x).getD i 0) := by
      change (s.table x)[i]? = _
      rw [List.getD_eq_getElem?_getD, List.getElem?_eq_getElem (by omega)]
      rfl
    have hrec := ih (s := s.publishAt cfg x i parent) (i := i + 1)
      (some (cfg.computeHash (blockOf cfg.kvcacheBlockSize (s.seqs x).tokenIds i) parent))
      hf (by change i + 1 + n ≤ (s.table x).length; omega)
      (by change i + 1 + n ≤ (s.seqs x).numBlocks cfg; omega)
    have hnot : ¬ (s.seqs x).numBlocks cfg ≤ i := by omega
    simpa [List.range'_succ, hashBlocksLoop, tick_quiet hf, hi, hnot, State.publishFrom,
      State.publishAt, Sequence.block, blockOf] using hrec

def State.parentHash (s : State) (x i : Nat) : Option Nat :=
  if i = 0 then none else (s.blocks ((s.table x).getD (i - 1) 0)).hash

def State.hashed (s : State) (cfg : Config) (x : Nat) : State :=
  let start := (s.seqs x).numCachedTokens / cfg.kvcacheBlockSize
  let stop := ((s.seqs x).numCachedTokens + (s.seqs x).numScheduledTokens) / cfg.kvcacheBlockSize
  s.publishFrom cfg x start (stop - start) (s.parentHash x start)

theorem hashBlocks_quiet (hq : s.Quiet)
    (htab : (s.seqs x).numCachedTokens + (s.seqs x).numScheduledTokens
      ≤ (s.table x).length * cfg.kvcacheBlockSize)
    (hlen : (s.seqs x).numCachedTokens + (s.seqs x).numScheduledTokens ≤ (s.seqs x).numTokens) :
    hashBlocks cfg x s = .ok ⟨⟩ (s.hashed cfg x) := by
  have hbs : 0 < cfg.kvcacheBlockSize := by
    have := cfg.blockSize_ge
    omega
  have hmono : (s.seqs x).numCachedTokens / cfg.kvcacheBlockSize ≤
      ((s.seqs x).numCachedTokens + (s.seqs x).numScheduledTokens) / cfg.kvcacheBlockSize :=
    Nat.div_le_div_right (Nat.le_add_right _ _)
  have hstop : ((s.seqs x).numCachedTokens + (s.seqs x).numScheduledTokens) / cfg.kvcacheBlockSize
      ≤ (s.table x).length := by
    rw [Nat.mul_comm] at htab
    exact Nat.div_le_of_le_mul htab
  have hblk : ((s.seqs x).numCachedTokens + (s.seqs x).numScheduledTokens) / cfg.kvcacheBlockSize
      ≤ (s.seqs x).numBlocks cfg := by
    rw [numBlocks_eq]
    exact (Nat.div_le_div_right hlen).trans (div_le_pagesFor hbs _)
  set start := (s.seqs x).numCachedTokens / cfg.kvcacheBlockSize with hstart
  set stop := ((s.seqs x).numCachedTokens + (s.seqs x).numScheduledTokens)
    / cfg.kvcacheBlockSize with hstopdef
  have hloop : ∀ parent, hashBlocksLoop cfg x (List.range' start (stop - start)) parent s =
      .ok ⟨⟩ (s.publishFrom cfg x start (stop - start) parent) := fun parent =>
    hashBlocksLoop_quiet _ hq.fault (by omega) (by omega)
  have hresult : s.hashed cfg x =
      s.publishFrom cfg x start (stop - start) (s.parentHash x start) := rfl
  by_cases heq : start = stop
  · have hzero : stop - start = 0 := by omega
    rw [hresult, hzero]
    simp [hashBlocks, assertAllocatorMutationAllowed_quiet hq, ← hstart, ← hstopdef, heq,
      State.publishFrom]
  · by_cases hpos : 0 < start
    · have hprev : (s.seqs x).blockTable[start - 1]? = some ((s.table x).getD (start - 1) 0) := by
        change (s.table x)[start - 1]? = _
        rw [List.getD_eq_getElem?_getD, List.getElem?_eq_getElem (by omega)]
        rfl
      have hparent : s.parentHash x start =
          (s.blocks ((s.table x).getD (start - 1) 0)).hash := by
        rw [State.parentHash, if_neg (by omega)]
      rw [hresult, hparent]
      simp [hashBlocks, assertAllocatorMutationAllowed_quiet hq, ← hstart, ← hstopdef, heq, hpos,
        hprev, hloop, -Nat.div_pos_iff]
    · have hzero : start = 0 := Nat.eq_zero_of_not_pos hpos
      have hparent : s.parentHash x start = none := by
        rw [State.parentHash, if_pos hzero]
      rw [hresult, hparent]
      simp [hashBlocks, assertAllocatorMutationAllowed_quiet hq, ← hstart, ← hstopdef, heq, hpos,
        hloop, -Nat.div_pos_iff]

end NanoVllm
