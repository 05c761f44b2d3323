/- module: NanoVllm/Ownership/IncrementalAllocation
   layer: main result
   source: nanovllm/engine/block_manager.py, can_allocate, allocate_incremental and extend
   digest: Admission finds the longest cached prefix; allocation is exact, splits and is atomic. -/

import Mathlib.Data.List.Nodup
import Mathlib.Order.Bounds.Basic
import NanoVllm.Ownership.Core
import NanoVllm.Ownership.Lease

set_option autoImplicit false
set_option relaxedAutoImplicit false

namespace NanoVllm

open Library

variable {cfg : Config} {live : List Nat} {cov : Nat → Nat} {s t u : State} {x b c : Nat}
  {ids : List Nat}

def CachedPrefix (cfg : Config) (s : State) (tokenIds : List Nat) (k : Nat) : Prop :=
  ∀ i < k, ∃ b, CachedAt cfg s tokenIds i b

/-- `c` blocks before the last one are cached, and no more. -/
def LongestCached (cfg : Config) (s : State) (x c : Nat) : Prop :=
  IsGreatest {k | k ≤ (s.seqs x).numBlocks cfg - 1 ∧ CachedPrefix cfg s (s.seqs x).tokenIds k} c

private theorem matchCachedBlocks_stops (seq : Sequence) {n : Nat} : ∀ {i j cached needed : Nat},
    (matchCachedBlocks cfg s seq (List.range' i n) (chainHash cfg seq.tokenIds i) cached needed).1 =
      cached + j → j < n → ¬ ∃ b, CachedAt cfg s seq.tokenIds (i + j) b := by
  induction n with
  | zero => exact fun _ hj => absurd hj (Nat.not_lt_zero _)
  | succ n ih =>
    intro i j cached needed h hj
    rw [List.range'_succ] at h
    unfold matchCachedBlocks at h
    dsimp only at h
    have hsucc := chainHash_succ cfg seq.tokenIds i
    -- a block found at `i + j` would be the one the loop looked up
    cases hlook : s.hashToBlockId.lookup
        (cfg.computeHash (seq.block cfg i) (chainHash cfg seq.tokenIds i)) with
    | none =>
      rw [hlook] at h
      obtain rfl : j = 0 := by
        dsimp only at h
        omega
      rintro ⟨b, k, hk, hb, -⟩
      rw [Nat.add_zero, hsucc] at hk
      obtain rfl := Option.some.inj hk
      exact absurd (hlook.symm.trans hb) (by simp)
    | some b =>
      rw [hlook] at h
      dsimp only at h
      split at h
      · next htok =>
        obtain rfl : j = 0 := by
          dsimp only at h
          omega
        rintro ⟨d, k, hk, hd, hdtok⟩
        rw [Nat.add_zero, hsucc] at hk
        obtain rfl := Option.some.inj hk
        obtain rfl := Option.some.inj (hlook.symm.trans hd)
        exact htok hdtok
      · next htok =>
        have hstep : chainHash cfg seq.tokenIds (i + 1) =
            some (cfg.computeHash (seq.block cfg i) (chainHash cfg seq.tokenIds i)) := hsucc
        rw [← hstep] at h
        obtain ⟨m, ids, -, -, -, hmatch⟩ := matchCachedBlocks_eq cfg s seq (List.range' (i + 1) n)
          (chainHash cfg seq.tokenIds (i + 1)) (cached + 1)
          (if b ∈ s.usedBlockIds then needed - 1 else needed)
        have hge : 1 ≤ j := by
          rw [hmatch] at h
          dsimp only at h
          omega
        have hrest := ih (j := j - 1) (h.trans (by omega)) (by omega)
        rwa [show i + 1 + (j - 1) = i + j by omega] at hrest

/-- What `can_allocate` reports: the longest cached prefix, unless the blocks that the whole
request still needs and its cached blocks that nobody holds exceed the free ones. -/
private theorem canAllocate_spec (h : OwnIf cfg.CollisionFree cfg live s.table cov s) (x : Nat) :
    ∃ c ids, LongestCached cfg s x c ∧ ids.length = c ∧
      (∀ i b, ids[i]? = some b → CachedAt cfg s (s.seqs x).tokenIds i b) ∧
      cachedChain cfg s (s.seqs x) (List.range c) none = .ok ids ∧
      canAllocate cfg s x =
        if s.freeBlockIds.length < (s.seqs x).numBlocks cfg - c + ids.countP (· ∈ s.freeBlockIds)
        then none else some c := by
  obtain ⟨n, hn⟩ : ∃ n, n = (s.seqs x).numBlocks cfg - 1 := ⟨_, rfl⟩
  obtain ⟨c, ids, hc, hchain, hids, hmatch⟩ := matchCachedBlocks_eq cfg s (s.seqs x)
    (List.range n) none 0 ((s.seqs x).numBlocks cfg)
  rw [List.length_range] at hc
  rw [List.take_range, Nat.min_eq_left hc] at hchain
  have hentries : ∀ i b, ids[i]? = some b → CachedAt cfg s (s.seqs x).tokenIds i b := by
    rw [List.range_eq_range'] at hchain
    obtain ⟨-, hall⟩ := cachedChain_entries (i := 0) hchain
    simpa only [Nat.zero_add] using hall
  refine ⟨c, ids, ⟨⟨hn ▸ hc, ?_⟩, ?_⟩, hids, hentries, hchain, ?_⟩
  · intro i hi
    have hlt : i < ids.length := hids ▸ hi
    exact ⟨ids[i], hentries i _ (List.getElem?_eq_getElem hlt)⟩
  · rintro k ⟨hk, hfront⟩
    by_contra hlt
    rw [Nat.zero_add] at hmatch
    have hfirst : (matchCachedBlocks cfg s (s.seqs x) (List.range' 0 n)
        (chainHash cfg (s.seqs x).tokenIds 0) 0 ((s.seqs x).numBlocks cfg)).1 = 0 + c := by
      rw [Nat.zero_add, ← List.range_eq_range']
      exact congrArg Prod.fst hmatch
    refine matchCachedBlocks_stops (s.seqs x) hfirst (by omega) ?_
    rw [Nat.zero_add]
    exact hfront c (by omega)
  · -- a matched block is in use or free, so both counts are the same
    have hsplit : ids.countP (· ∈ s.usedBlockIds) + ids.countP (· ∈ s.freeBlockIds) = c := by
      have hfree : ids.countP (· ∈ s.freeBlockIds) = ids.countP fun b => !(b ∈ s.usedBlockIds) := by
        refine List.countP_congr fun b hb => ?_
        obtain ⟨i, hi⟩ := List.getElem?_of_mem hb
        obtain ⟨k, -, hk, -⟩ := hentries i b hi
        have hlt := (h.index k b hk).1
        rw [decide_eq_true_iff, Bool.not_eq_true', decide_eq_false_iff_not, h.mem_free]
        exact and_iff_right hlt
      rw [hfree, ← hids]
      simpa using (List.length_eq_countP_add_countP (· ∈ s.usedBlockIds)).symm
    have hcount : (s.seqs x).numBlocks cfg - ids.countP (· ∈ s.usedBlockIds) =
        (s.seqs x).numBlocks cfg - c + ids.countP (· ∈ s.freeBlockIds) := by omega
    unfold canAllocate
    dsimp only
    rw [← hn, hmatch, ← hcount, Nat.zero_add]

private theorem State.pinAll_free (s : State) (x : Nat) (ids : List Nat) :
    (s.pinAll x ids).freeBlockIds = s.freeBlockIds.diff ids := by
  induction ids generalizing s with
  | nil => rfl
  | cons b ids ih =>
    rw [List.diff_cons]
    exact ih (s.pin x b)

private theorem State.pinAll_blocks (s : State) (x : Nat) (ids : List Nat) (b : Nat) :
    (s.pinAll x ids).blocks b =
      { s.blocks b with refCount := (s.blocks b).refCount + ids.count b } := by
  induction ids generalizing s with
  | nil => rfl
  | cons d ids ih =>
    refine (ih (s.pin x d)).trans ?_
    rw [List.count_cons]
    by_cases hbd : b = d
    · subst hbd
      have hpin : (s.pin x b).blocks b =
          { s.blocks b with refCount := (s.blocks b).refCount + 1 } := Function.update_self _ _ _
      rw [hpin, beq_self_eq_true, if_pos rfl, Nat.add_assoc, Nat.add_comm 1]
    · have hpin : (s.pin x d).blocks b = s.blocks b := Function.update_of_ne hbd _ _
      have hne : (d == b) = false := by simpa using Ne.symm hbd
      rw [hpin, hne, if_neg Bool.false_ne_true, Nat.add_zero]

/-- The new blocks of an allocation that shares `ids`: the first free ones, in free-list order,
other than those. -/
def newBlocks (cfg : Config) (s : State) (ids : List Nat) (through : Nat) : List Nat :=
  (s.freeBlockIds.filter (· ∉ ids)).take (pagesFor cfg.kvcacheBlockSize through - ids.length)

/-- `u` is `s` after `x` shared the chain `ids` and took new blocks through `through` tokens. -/
structure AllocatesExactly (cfg : Config) (s : State) (x : Nat) (ids : List Nat) (through : Nat)
    (u : State) : Prop where
  table : u.table x = ids ++ newBlocks cfg s ids through
  length : (u.table x).length = pagesFor cfg.kvcacheBlockSize through
  coverage : (u.seqs x).numCachedTokens = ids.length * cfg.kvcacheBlockSize
  draft : (u.seqs x).numDraftCachedTokens = 0
  others : ∀ y, y ≠ x → u.seqs y = s.seqs y
  free : u.freeBlockIds = s.freeBlockIds.filter (· ∉ u.table x)
  shared : ∀ b ∈ ids, u.blocks b =
    { s.blocks b with refCount := (s.blocks b).refCount + ids.count b }
  fresh : ∀ b ∈ newBlocks cfg s ids through, u.blocks b = Block.fresh
  untouched : ∀ b, b ∉ u.table x → u.blocks b = s.blocks b
  indexed : ∀ k b, b ∉ newBlocks cfg s ids through →
    s.hashToBlockId.lookup k = some b → u.hashToBlockId.lookup k = some b
  cached : ∀ tokenIds i, ∀ b ∈ ids, CachedAt cfg s tokenIds i b → CachedAt cfg u tokenIds i b

private theorem allotBlocks_exact (h : OwnIf cfg.CollisionFree cfg live s.table cov s) (hx : x ∈ live)
    (htab : s.table x = []) (hp : Pinnable cfg.CollisionFree s x cov ids) {through : Nat}
    (hge : ids.length ≤ pagesFor cfg.kvcacheBlockSize through)
    (hroom : pagesFor cfg.kvcacheBlockSize through - ids.length ≤
      (s.pinAll x ids).freeBlockIds.length) :
    AllocatesExactly cfg s x ids through
      (s.allotBlocks cfg x ids (pagesFor cfg.kvcacheBlockSize through - ids.length)) := by
  obtain ⟨n, hn⟩ : ∃ n, n = pagesFor cfg.kvcacheBlockSize through - ids.length := ⟨_, rfl⟩
  obtain ⟨u, hu⟩ : ∃ u, u = s.allotBlocks cfg x ids n := ⟨_, rfl⟩
  rw [← hn] at hroom ⊢
  rw [← hu]
  have hfree : (s.pinAll x ids).freeBlockIds = s.freeBlockIds.filter (· ∉ ids) := by
    rw [State.pinAll_free, h.free_nodup.sdiff_eq_filter]
  have hnew : newBlocks cfg s ids through = (s.pinAll x ids).freeBlockIds.take n := by
    unfold newBlocks
    rw [hfree, hn]
  have hnewlen : (newBlocks cfg s ids through).length = n := by
    rw [hnew, List.length_take, Nat.min_eq_left hroom]
  have hnotids : ∀ b ∈ newBlocks cfg s ids through, b ∉ ids := by
    intro b hb
    rw [hnew, hfree] at hb
    simpa using (List.mem_filter.mp (List.mem_of_mem_take hb)).2
  -- taking the new blocks lends the front of the free list that pinning leaves
  have hclaim := State.claimN_eq_lend (h.pinAll hx hp).poolOk x n
  have hlent : lentBlocks [(x, (s.pinAll x ids).freeBlockIds.take n)] =
      newBlocks cfg s ids through := by
    rw [hnew]
    simp
  have hblocks : ∀ b, u.blocks b = if b ∈ newBlocks cfg s ids through then Block.fresh
      else (s.pinAll x ids).blocks b := by
    intro b
    rw [hu, ← hlent]
    change ((s.pinAll x ids).claimN x n).blocks b = _
    rw [hclaim]
    rfl
  have hseqs := s.allotBlocks_seqs cfg x ids n
  rw [htab, List.nil_append, ← hnew, ← hu] at hseqs
  have htable : u.table x = ids ++ newBlocks cfg s ids through := by
    rw [State.table, hseqs, Function.update_self]
  have hindexed : ∀ k b, b ∉ newBlocks cfg s ids through →
      s.hashToBlockId.lookup k = some b → u.hashToBlockId.lookup k = some b := by
    intro k b hb hk
    rw [hu]
    change ((s.pinAll x ids).claimN x n).hashToBlockId.lookup k = _
    rw [hclaim]
    refine (lookup_restrict_eq_some _ _ _ _).mpr ⟨?_, ?_⟩
    · rw [State.pinAll_index]
      exact hk
    · rw [hlent]
      exact decide_eq_true hb
  have hshared : ∀ b ∈ ids, u.blocks b =
      { s.blocks b with refCount := (s.blocks b).refCount + ids.count b } := by
    intro b hb
    rw [hblocks, if_neg fun hnb => hnotids b hnb hb, State.pinAll_blocks]
  refine ⟨htable, ?_, ?_, ?_, ?_, ?_, hshared, ?_, ?_, hindexed, ?_⟩
  · rw [htable, List.length_append, hnewlen]
    omega
  · rw [hseqs, Function.update_self]
  · rw [hseqs, Function.update_self]
  · intro y hy
    rw [hseqs, Function.update_of_ne hy]
  · have hufree : u.freeBlockIds = (s.pinAll x ids).freeBlockIds.drop n := by
      rw [hu]
      exact State.claimN_free _ x n
    have hnd : (s.pinAll x ids).freeBlockIds.Nodup := (h.pinAll hx hp).free_nodup
    rw [hufree, ← filter_not_mem_take hnd n, ← hnew, hfree, List.filter_filter, htable]
    refine List.filter_congr fun b _ => ?_
    by_cases hnb : b ∈ newBlocks cfg s ids through <;> by_cases hbi : b ∈ ids <;> simp [hnb, hbi]
  · intro b hb
    rw [hblocks, if_pos hb]
  · intro b hb
    rw [htable, List.mem_append, not_or] at hb
    rw [hblocks, if_neg hb.2, State.pinAll_blocks, List.count_eq_zero_of_not_mem hb.1]
    rfl
  · rintro tokenIds i b hb ⟨k, hk, hlook, htok⟩
    refine ⟨k, hk, hindexed k b (fun hnb => hnotids b hnb hb) hlook, ?_⟩
    rw [hshared b hb]
    exact htok

/-- Successive calls of `extend`, until one is refused. -/
def extendThrough (cfg : Config) (x : Nat) : List Nat → Call Bool
  | [] => pure true
  | through :: rest => do
    if ← extend cfg x through then extendThrough cfg x rest
    else pure false

private theorem extend_bounds (hq : s.Quiet) (hne : s.table x ≠ []) {through : Nat}
    (h : extend cfg x through s = .ok true t) : 1 ≤ through ∧ through ≤ (s.seqs x).numTokens := by
  have hne' : (s.seqs x).blockTable ≠ [] := hne
  by_contra hout
  unfold extend at h
  rw [Call.bind_of_ok (assertAllocatorMutationAllowed_quiet hq _ _),
    Call.bind_of_ok (Call.get_apply s), if_neg hne', if_pos hout] at h
  exact nomatch h

private theorem State.claimN_add (s : State) (x m n : Nat) :
    s.claimN x (m + n) = (s.claimN x m).claimN x n := by
  induction m generalizing s with
  | zero => rw [Nat.zero_add]; rfl
  | succ m ih =>
    rw [Nat.succ_add]
    exact ih (s.claim x)

private theorem State.claim_covered (s : State) (x m d : Nat) :
    (s.setSeq x { s.seqs x with numCachedTokens := m, numDraftCachedTokens := d }).claim x =
      (s.claim x).setSeq x
        { (s.claim x).seqs x with numCachedTokens := m, numDraftCachedTokens := d } := by
  unfold State.claim
  cases hfree : s.freeBlockIds with
  | nil =>
    simp only [State.setSeq, hfree]
  | cons b rest =>
    simp [State.setSeq, hfree, State.takeBlock, State.appendBlock, State.evictHash]

private theorem State.claimN_covered (x m d n : Nat) : ∀ s : State,
    (s.setSeq x { s.seqs x with numCachedTokens := m, numDraftCachedTokens := d }).claimN x n =
      (s.claimN x n).setSeq x
        { (s.claimN x n).seqs x with numCachedTokens := m, numDraftCachedTokens := d } := by
  induction n with
  | zero => exact fun s => rfl
  | succ n ih =>
    intro s
    rw [State.claimN, State.claim_covered, ih]
    rfl

private theorem State.allotBlocks_claimN (s : State) (cfg : Config) (x : Nat) (ids : List Nat)
    (m n : Nat) :
    (s.allotBlocks cfg x ids m).claimN x n = s.allotBlocks cfg x ids (m + n) := by
  unfold State.allotBlocks
  dsimp only
  rw [State.claimN_covered, ← State.claimN_add]

private theorem extendThrough_claims (hq : s.Quiet)
    (h : OwnIf cfg.CollisionFree cfg live s.table cov s) (hx : x ∈ live) {ts : List Nat} {through : Nat}
    (hpos : 0 < through) (htight : (s.table x).length = pagesFor cfg.kvcacheBlockSize through)
    (hle : (through :: ts).Pairwise (· ≤ ·)) (hext : extendThrough cfg x ts s = .ok true t) :
    (ts = [] ∨ (through :: ts).getLast (List.cons_ne_nil _ _) ≤ (s.seqs x).numTokens) ∧
      t = s.claimN x (pagesFor cfg.kvcacheBlockSize
        ((through :: ts).getLast (List.cons_ne_nil _ _)) -
          pagesFor cfg.kvcacheBlockSize through) := by
  induction ts generalizing s through with
  | nil =>
    refine ⟨Or.inl rfl, ?_⟩
    rw [List.getLast_singleton, Nat.sub_self]
    exact (EStateM.Result.ok.inj hext).2.symm
  | cons next ts ih =>
    obtain ⟨hfirst, hrest⟩ := List.pairwise_cons.mp hle
    have hnext : through ≤ next := hfirst next List.mem_cons_self
    have hne : s.table x ≠ [] := by
      intro hnil
      rw [hnil, List.length_nil, eq_comm, pagesFor_eq_zero cfg.blockSize_pos] at htight
      omega
    unfold extendThrough at hext
    obtain ⟨ok, v, hcall, hext⟩ := Call.bind_ok hext
    cases ok with
    | false => exact nomatch hext
    | true =>
      obtain ⟨hlo, hhi⟩ := extend_bounds hq hne hcall
      rw [extend_quiet hq h hx hne hlo hhi] at hcall
      split at hcall
      · next hroom =>
        obtain ⟨-, rfl⟩ := EStateM.Result.ok.inj hcall
        have hneed : extendNeed cfg s x next = pagesFor cfg.kvcacheBlockSize next -
            pagesFor cfg.kvcacheBlockSize through := by
          unfold extendNeed
          rw [htight]
        have hmono := pagesFor_mono cfg.blockSize_pos hnext
        have hlen : ((s.claimN x (extendNeed cfg s x next)).table x).length =
            pagesFor cfg.kvcacheBlockSize next := by
          rw [State.claimN_table, Function.update_self, List.length_append, List.length_take,
            Nat.min_eq_left hroom, htight]
          omega
        have htokens : ((s.claimN x (extendNeed cfg s x next)).seqs x).numTokens =
            (s.seqs x).numTokens := by
          rw [State.claimN_seqs, Function.update_self]
          rfl
        obtain ⟨hbound, ht⟩ := ih (hq.of_control (State.claimN_control _ _ _)) (h.claimN hx _)
          (hpos.trans_le hnext) hlen hrest hext
        rw [htokens] at hbound
        rw [List.getLast_cons (List.cons_ne_nil next ts)]
        refine ⟨Or.inr ?_, ?_⟩
        · rcases hbound with rfl | hbound
          · exact hhi
          · exact hbound
        · have hlast : pagesFor cfg.kvcacheBlockSize next ≤ pagesFor cfg.kvcacheBlockSize
              ((next :: ts).getLast (List.cons_ne_nil _ _)) := by
            refine pagesFor_mono cfg.blockSize_pos ?_
            rcases List.mem_cons.mp (List.getLast_mem (List.cons_ne_nil next ts)) with heq | hmem
            · exact heq.ge
            · exact (List.pairwise_cons.mp hrest).1 _ hmem
          rw [ht, hneed, ← State.claimN_add]
          congr 1
          omega
      · exact nomatch hcall

/-- The call took effect in full, or it raised or refused and left everything as it was. -/
def Atomic (s done : State) : EStateM.Result Raised State Bool → Prop
  | .ok true u => ∃ f, u = done.withFault f
  | .ok false u => ∃ f, u = s.withFault f
  | .error _ u => ∃ f, u = s.withFault f

private theorem State.pinAll_withFault (x : Nat) (ids : List Nat) (f : Option Nat) : ∀ s : State,
    (s.withFault f).pinAll x ids = (s.pinAll x ids).withFault f := by
  induction ids with
  | nil => exact fun s => rfl
  | cons b ids ih => exact fun s => ih (s.pin x b)

private theorem fence_open (hq : s.Quiet) (f : Option Nat) (operation : String) (allow : Bool) :
    assertAllocatorMutationAllowed operation allow (s.withFault f) = .ok ⟨⟩ (s.withFault f) := by
  simp [assertAllocatorMutationAllowed, State.withFault, hq.reservation, hq.progress]

private theorem allocateBlock_armed (hq : s.Quiet) {rest : List Nat}
    (hfree : s.freeBlockIds = b :: rest)
    (href : (s.blocks b).refCount = 0) (f : Option Nat) :
    (∃ g, allocateBlock (s.withFault f) =
      .ok b (({ s with freeBlockIds := rest }.takeBlock b).withFault g)) ∨
    allocateBlock (s.withFault f) = .error .injected (s.withFault none) := by
  unfold allocateBlock
  rw [Call.bind_of_ok (fence_open hq f _ _)]
  rcases tick_cases (s.withFault f) with ⟨g, htick⟩ | htick
  · left
    refine ⟨g, ?_⟩
    have href' : ¬ ((s.withFault g).blocks b).refCount ≠ 0 := not_not.mpr href
    rw [State.withFault_withFault] at htick
    rw [Call.bind_of_ok htick, Call.bind_of_ok (Call.get_apply _), State.withFault_free, hfree]
    dsimp only
    rw [Call.bind_of_ok (Call.set_apply _ _), if_neg href', Call.bind_of_ok (Call.modify_apply _ _)]
    rfl
  · right
    exact Call.bind_of_error htick

/-- The loop takes all its blocks, or stops at a failure point after some of them. -/
private theorem allocateBlocks_armed {distinct : Prop} (x : Nat) {n : Nat} : ∀ {s : State}, s.Quiet →
    OwnIf distinct cfg live s.table cov s → x ∈ live → n ≤ s.freeBlockIds.length → ∀ f,
      (∃ g, allocateBlocks x n (s.withFault f) = .ok ⟨⟩ ((s.claimN x n).withFault g)) ∨
      ∃ j ≤ n, allocateBlocks x n (s.withFault f) =
        .error .injected ((s.claimN x j).withFault none) := by
  induction n with
  | zero => exact fun _ _ _ _ f => Or.inl ⟨f, rfl⟩
  | succ n ih =>
    intro s hq h hx hn f
    cases hfree : s.freeBlockIds with
    | nil =>
      rw [hfree] at hn
      exact absurd hn (Nat.not_succ_le_zero n)
    | cons b rest =>
      have hb : b ∈ s.freeBlockIds := by
        rw [hfree]
        exact List.mem_cons_self
      have hclaim : s.claim x =
          ({ s with freeBlockIds := rest }.takeBlock b).appendBlock x b := by
        unfold State.claim
        rw [hfree]
      have hlen : n ≤ (s.claim x).freeBlockIds.length := by
        rw [State.claim_free, List.length_drop]
        omega
      rcases allocateBlock_armed hq hfree (h.ref_eq_zero_of_mem_free hb) f with ⟨g, hcall⟩ | hcall
      · have hrec := ih (hq.of_control (State.claim_control s x)) (h.claim hx) hx hlen g
        have hstart : allocateBlocks x (n + 1) (s.withFault f) =
            allocateBlocks x n ((s.claim x).withFault g) := by
          rw [allocateBlocks, Call.bind_of_ok hcall, Call.bind_of_ok (Call.modify_apply _ _), hclaim]
          rfl
        rw [hstart]
        rcases hrec with hrec | ⟨j, hj, hrec⟩
        · exact Or.inl hrec
        · exact Or.inr ⟨j + 1, Nat.succ_le_succ hj, hrec⟩
      · right
        exact ⟨0, Nat.zero_le _, Call.bind_of_error hcall⟩

private theorem restoreAllocation_eq (before : State) {seen : List Nat} {m d : Nat} {table : List Nat}
    (hseqs : t.seqs = Function.update before.seqs x { before.seqs x with
      blockTable := table, numCachedTokens := m, numDraftCachedTokens := d })
    (hblocks : ∀ b, b ∉ seen → t.blocks b = before.blocks b) :
    t.restoreAllocation x before (snapshotBlockStates before seen) =
      before.withControl t.control := by
  have hsnap : ∀ e ∈ snapshotBlockStates before seen, e.2 = before.blocks e.1 :=
    fun e he => snapshotBlockStates_snd he
  have hrow : { t.seqs x with
      blockTable := (before.seqs x).blockTable
      numCachedTokens := (before.seqs x).numCachedTokens
      numDraftCachedTokens := (before.seqs x).numDraftCachedTokens } = before.seqs x := by
    rw [hseqs, Function.update_self]
  unfold State.restoreAllocation
  dsimp only
  rw [hrow, State.restoreBlocks_eq before hsnap]
  apply State.ext_control <;> try rfl
  · change Function.update t.seqs x (before.seqs x) = before.seqs
    rw [hseqs, Function.update_idem, Function.update_eq_self]
  · funext b
    change (if b ∈ (snapshotBlockStates before seen).map Prod.fst then before.blocks b
      else t.blocks b) = before.blocks b
    rw [snapshotBlockStates_fst]
    split
    · rfl
    · next hb => exact hblocks b fun hseen => hb (mem_sortedSet.mpr hseen)

private theorem extend_atomic (hq : s.Quiet) (h : OwnIf cfg.CollisionFree cfg live s.table cov s)
    (hx : x ∈ live) (through : Nat) (f : Option Nat) :
    Atomic s (s.claimN x (extendNeed cfg s x through)) (extend cfg x through (s.withFault f)) := by
  unfold extend
  rw [Call.bind_of_ok (fence_open hq f _ _), Call.bind_of_ok (Call.get_apply _)]
  dsimp only
  split
  · exact ⟨f, rfl⟩
  split
  · exact ⟨f, rfl⟩
  split
  · next hfit =>
    refine ⟨f, ?_⟩
    have hzero : extendNeed cfg s x through = 0 := Nat.sub_eq_zero_of_le hfit
    rw [hzero]
    rfl
  split
  · exact ⟨f, rfl⟩
  next hroom =>
  obtain ⟨n, hn⟩ : ∃ n, n = extendNeed cfg s x through := ⟨_, rfl⟩
  have hneed : (through + cfg.kvcacheBlockSize - 1) / cfg.kvcacheBlockSize -
      ((s.withFault f).seqs x).blockTable.length = n := hn.symm
  rw [hneed] at hroom ⊢
  rw [← hn]
  have hlen : n ≤ s.freeBlockIds.length := Nat.le_of_not_lt hroom
  rcases allocateBlocks_armed x hq h hx hlen f with ⟨g, hcall⟩ | ⟨j, hj, hcall⟩
  · rw [Call.bind_of_ok (Call.tryCatch_of_ok hcall)]
    exact ⟨g, rfl⟩
  · have hback : ((s.claimN x j).withFault none).restoreAllocation x (s.withFault f)
        (snapshotBlockStates (s.withFault f) ((s.withFault f).freeBlockIds.take n)) =
        s.withFault none := by
      refine (restoreAllocation_eq (t := (s.claimN x j).withFault none)
        (m := (s.seqs x).numCachedTokens) (d := (s.seqs x).numDraftCachedTokens) (s.withFault f)
        (State.claimN_seqs s x j) ?_).trans ?_
      · intro b hb
        have hlend := State.claimN_eq_lend h.poolOk x j
        have hnot : b ∉ lentBlocks [(x, s.freeBlockIds.take j)] := by
          rw [lentBlocks_cons, lentBlocks_nil, List.append_nil]
          exact fun hmem => hb (List.take_subset_take_left _ hj hmem)
        change (s.claimN x j).blocks b = s.blocks b
        rw [hlend]
        exact if_neg hnot
      · have hctl : ((s.claimN x j).withFault none).control =
            { s.control with fault := none } := by
          rw [← State.claimN_control s x j]
          rfl
        rw [hctl]
        rfl
    have hraise := Call.bind_of_ok (k := fun _ => (throw .injected : Call Unit))
      (Call.modify_apply (fun v : State => v.restoreAllocation x (s.withFault f)
        (snapshotBlockStates (s.withFault f) ((s.withFault f).freeBlockIds.take n)))
        ((s.claimN x j).withFault none))
    rw [Call.bind_of_error ((Call.tryCatch_of_error hcall).trans hraise)]
    exact ⟨none, hback⟩

/-- What the except clause of `allocate_incremental` has saved covers every block it can touch. -/
private theorem allotted_blocks (h : OwnIf cfg.CollisionFree cfg live s.table cov s) (hx : x ∈ live)
    (hp : Pinnable cfg.CollisionFree s x cov ids) {n j : Nat} (hj : j ≤ n)
    (hb : b ∉ ids ++ (s.freeBlockIds.filter
      (· ∉ ids.filter (· ∉ s.usedBlockIds))).take n) :
    ((s.pinAll x ids).claimN x j).blocks b = s.blocks b := by
  rw [List.mem_append, not_or] at hb
  have hfree : s.freeBlockIds.filter (· ∉ ids.filter (· ∉ s.usedBlockIds)) =
      (s.pinAll x ids).freeBlockIds := by
    rw [State.pinAll_free, h.free_nodup.sdiff_eq_filter]
    refine List.filter_congr fun c hc => ?_
    have hunused := ((h.mem_free c).mp hc).2
    simp [hunused]
  rw [hfree] at hb
  have hnot : b ∉ lentBlocks [(x, (s.pinAll x ids).freeBlockIds.take j)] := by
    rw [lentBlocks_cons, lentBlocks_nil, List.append_nil]
    exact fun hmem => hb.2 (List.take_subset_take_left _ hj hmem)
  rw [State.claimN_eq_lend (h.pinAll hx hp).poolOk x j]
  refine (if_neg hnot).trans ?_
  rw [State.pinAll_blocks, List.count_eq_zero_of_not_mem hb.1]
  rfl

/-- The chain `allocate_incremental` shares for `k` cached blocks. -/
def sharedChain (cfg : Config) (s : State) (x k : Nat) : List Nat :=
  match cachedChain cfg s (s.seqs x) (List.range k) none with
  | .ok ids => ids
  | .error _ => []

private theorem allocateIncremental_atomic (hq : s.Quiet)
    (h : OwnIf cfg.CollisionFree cfg live s.table cov s) (hx : x ∈ live)
    (k through : Nat) (f : Option Nat) :
    Atomic s
      (s.allotBlocks cfg x (sharedChain cfg s x k) (pagesFor cfg.kvcacheBlockSize through - k))
      (allocateIncremental cfg x k through (s.withFault f)) := by
  unfold allocateIncremental
  rw [Call.bind_of_ok (fence_open hq f _ _), Call.bind_of_ok (Call.get_apply _)]
  dsimp only
  rw [cachedChain_congr (s := s) (t := s.withFault f) (q := s.seqs x) (r := (s.withFault f).seqs x)
    rfl rfl rfl]
  by_cases hbare : s.table x = []
  swap
  · rw [if_pos (show ((s.withFault f).seqs x).blockTable ≠ [] from hbare)]
    exact ⟨f, rfl⟩
  rw [if_neg (show ¬ ((s.withFault f).seqs x).blockTable ≠ [] from not_not.mpr hbare)]
  by_cases hk : k < (s.seqs x).numBlocks cfg
  swap
  · rw [if_pos (show ¬ k < ((s.withFault f).seqs x).numBlocks cfg from hk)]
    exact ⟨f, rfl⟩
  rw [if_neg (show ¬ ¬ k < ((s.withFault f).seqs x).numBlocks cfg from not_not.mpr hk)]
  by_cases hthrough : 1 ≤ through ∧ through ≤ ((s.withFault f).seqs x).numTokens
  swap
  · rw [if_pos hthrough]
    exact ⟨f, rfl⟩
  rw [if_neg (not_not.mpr hthrough)]
  by_cases hbeyond : (through + cfg.kvcacheBlockSize - 1) / cfg.kvcacheBlockSize ≤ k
  · rw [if_pos hbeyond]
    exact ⟨f, rfl⟩
  rw [if_neg hbeyond]
  unfold sharedChain
  cases hchain : cachedChain cfg s (s.seqs x) (List.range k) none with
  | error e =>
    rw [Call.bind_of_error (liftExcept_error e _)]
    exact ⟨f, rfl⟩
  | ok ids =>
    rw [Call.bind_of_ok (liftExcept_ok ids _)]
    dsimp only
    split
    · exact ⟨f, rfl⟩
    next hroom =>
    have hkbs : k * cfg.kvcacheBlockSize < (s.seqs x).numTokens := by
      rwa [← lt_pagesFor_iff cfg.blockSize_pos, ← numBlocks_eq]
    -- an empty table has any coverage
    have hcov : OwnIf cfg.CollisionFree cfg live s.table (Function.update cov x k) s := by
      refine h.set_cov fun y _ => ?_
      by_cases hyx : y = x
      · subst hyx
        exact Or.inl (by simp [hbare])
      · exact Or.inr (Function.update_of_ne hyx _ _).ge
    have hp := pinnable_of_chain hcov hbare (Function.update_self x k cov).ge hkbs.le hchain
    have hids : ids.length = k := by
      rw [List.range_eq_range'] at hchain
      exact (cachedChain_entries (i := 0) hchain).1
    obtain ⟨n, hn⟩ : ∃ n, n = pagesFor cfg.kvcacheBlockSize through - k := ⟨_, rfl⟩
    have hcount : (through + cfg.kvcacheBlockSize - 1) / cfg.kvcacheBlockSize - k = n := hn.symm
    rw [hcount] at hroom ⊢
    rw [← hn]
    have hroom' : ¬ s.freeBlockIds.length < n + (ids.filter (· ∉ s.usedBlockIds)).length := hroom
    rw [← List.countP_eq_length_filter] at hroom'
    have hfree := pinAll_free_length hcov hx hp
    have hpin : pinBlocks x ids (s.withFault f) = .ok ⟨⟩ ((s.pinAll x ids).withFault f) := by
      rw [← State.pinAll_withFault]
      exact pinBlocks_eq (s := s.withFault f) (hcov.congr_pool rfl rfl rfl rfl) hx
        ⟨hp.nodup, hp.fresh, hp.indexed, hp.below⟩
    have hquiet : (s.pinAll x ids).Quiet := hq.of_control (s.pinAll_control x ids)
    rcases allocateBlocks_armed x hquiet (hcov.pinAll hx hp) hx (n := n) (by omega) f with
      ⟨g, hcall⟩ | ⟨j, hj, hcall⟩
    · rw [Call.bind_of_ok (Call.tryCatch_of_ok ((Call.bind_of_ok hpin).trans
        ((Call.bind_of_ok hcall).trans (Call.modify_apply _ _))))]
      refine ⟨g, ?_⟩
      unfold State.allotBlocks
      rw [hids]
      rfl
    · obtain ⟨seen, hseen⟩ : ∃ seen, seen = ids ++ ((s.withFault f).freeBlockIds.filter
        (· ∉ ids.filter (· ∉ (s.withFault f).usedBlockIds))).take n := ⟨_, rfl⟩
      rw [← hseen]
      have hback : (((s.pinAll x ids).claimN x j).withFault none).restoreAllocation x
          (s.withFault f) (snapshotBlockStates (s.withFault f) seen) = s.withFault none := by
        have hseqs := State.claimN_seqs (s.pinAll x ids) x j
        rw [State.pinAll_seqs, Function.update_idem, Function.update_self] at hseqs
        refine (restoreAllocation_eq (t := ((s.pinAll x ids).claimN x j).withFault none)
          (m := (s.seqs x).numCachedTokens) (d := (s.seqs x).numDraftCachedTokens) (s.withFault f)
          hseqs ?_).trans ?_
        · intro b hb
          rw [hseen] at hb
          exact allotted_blocks hcov hx hp hj hb
        · have hctl : (((s.pinAll x ids).claimN x j).withFault none).control =
              { s.control with fault := none } := by
            rw [← s.pinAll_control x ids, ← (s.pinAll x ids).claimN_control x j]
            rfl
          rw [hctl]
          rfl
      have hraise := Call.bind_of_ok (k := fun _ => (throw .injected : Call Unit))
        (Call.modify_apply (fun v : State => v.restoreAllocation x (s.withFault f)
          (snapshotBlockStates (s.withFault f) seen)) (((s.pinAll x ids).claimN x j).withFault none))
      have hbody : (do
          pinBlocks x ids
          allocateBlocks x n
          modifySeq x fun row => { row with
            numCachedTokens := k * cfg.kvcacheBlockSize
            numDraftCachedTokens := 0 } : Call Unit) (s.withFault f) =
          .error .injected (((s.pinAll x ids).claimN x j).withFault none) := by
        rw [Call.bind_of_ok hpin, Call.bind_of_error hcall]
      rw [Call.bind_of_error ((Call.tryCatch_of_error hbody).trans hraise)]
      exact ⟨none, hback⟩

private theorem OwnIf.withRow (h : OwnIf cfg.CollisionFree cfg live s.table cov s)
    (htab : s.table x = []) :
    ∃ live', OwnIf cfg.CollisionFree cfg live' s.table cov s ∧ x ∈ live' := by
  by_cases hx : x ∈ live
  · exact ⟨live, h, hx⟩
  · exact ⟨x :: live, h.cons hx htab, List.mem_cons_self⟩

/-- For an owned pool without a lease and a request without blocks: admission finds the longest
cached prefix and refuses exactly when the whole request does not fit; after an admission every
allocation succeeds, shares that prefix and takes the first free blocks that are not part of it;
later extensions end where one allocation of the full length ends; and an allocation or extension
that does not succeed, at whatever point it fails, leaves everything as it was. -/
theorem incremental_allocation_exact (hq : s.Quiet)
    (h : OwnIf cfg.CollisionFree cfg live s.table cov s) (htab : s.table x = []) :
    (∃ c ids, LongestCached cfg s x c ∧ ids.length = c ∧
      (∀ i b, ids[i]? = some b → CachedAt cfg s (s.seqs x).tokenIds i b) ∧
      (cfg.CollisionFree → ids.Nodup) ∧
      (canAllocate cfg s x =
        if s.freeBlockIds.length < (s.seqs x).numBlocks cfg - c + ids.countP (· ∈ s.freeBlockIds)
        then none else some c) ∧
      (canAllocate cfg s x = some c → ∀ through, c * cfg.kvcacheBlockSize < through →
        through ≤ (s.seqs x).numTokens →
        ∃ u, allocateIncremental cfg x c through s = .ok true u ∧
          AllocatesExactly cfg s x ids through u ∧
          ∀ ts v, (through :: ts).Pairwise (· ≤ ·) → extendThrough cfg x ts u = .ok true v →
            allocateIncremental cfg x c ((through :: ts).getLast (List.cons_ne_nil _ _)) s =
              .ok true v)) ∧
    (∀ f k through,
      Atomic s
        (s.allotBlocks cfg x (sharedChain cfg s x k) (pagesFor cfg.kvcacheBlockSize through - k))
        (allocateIncremental cfg x k through (s.withFault f))) ∧
    ∀ y ∈ live, ∀ f through, Atomic s (s.claimN y (extendNeed cfg s y through))
      (extend cfg y through (s.withFault f)) := by
  obtain ⟨live', hown, hx⟩ := h.withRow htab
  refine ⟨?_, fun f k through => allocateIncremental_atomic hq hown hx k through f,
    fun y hy f through => extend_atomic hq h hy through f⟩
  obtain ⟨c, ids, hlongest, hids, hentries, hchain, hcan⟩ := canAllocate_spec hown x
  have hcov : OwnIf cfg.CollisionFree cfg live' s.table (Function.update cov x c) s := by
    refine hown.set_cov fun y _ => ?_
    by_cases hyx : y = x
    · subst hyx
      exact Or.inl (by simp [htab])
    · exact Or.inr (Function.update_of_ne hyx _ _).ge
  have hself : c ≤ Function.update cov x c x := (Function.update_self x c cov).ge
  have hle : c * cfg.kvcacheBlockSize ≤ (s.seqs x).numTokens := by
    have hc := hlongest.1.1
    rcases Nat.eq_zero_or_pos c with rfl | hpos
    · rw [Nat.zero_mul]
      exact Nat.zero_le _
    · refine (lt_pagesFor_iff cfg.blockSize_pos).mp ?_ |>.le
      rw [← numBlocks_eq]
      omega
  have hp := pinnable_of_chain hcov htab hself hle hchain
  refine ⟨c, ids, hlongest, hids, hentries, hp.nodup, hcan, ?_⟩
  intro hsome through hlo hhi
  have hone : ∀ through, c * cfg.kvcacheBlockSize < through → through ≤ (s.seqs x).numTokens →
      pagesFor cfg.kvcacheBlockSize through - c ≤ (s.pinAll x ids).freeBlockIds.length ∧
      allocateIncremental cfg x c through s = .ok true
        (s.allotBlocks cfg x ids (pagesFor cfg.kvcacheBlockSize through - c)) := by
    intro through hlo hhi
    obtain ⟨ids', hchain', -, -, hroom, hcall⟩ :=
      allocateIncremental_quiet hq hcov hx htab hself hsome hlo hhi
    obtain rfl := Except.ok.inj (hchain.symm.trans hchain')
    exact ⟨hroom, hcall⟩
  obtain ⟨hroom, hcall⟩ := hone through hlo hhi
  have hpages : c < pagesFor cfg.kvcacheBlockSize through :=
    (lt_pagesFor_iff cfg.blockSize_pos).mpr hlo
  have hexact := allotBlocks_exact hcov hx htab hp (hids.le.trans hpages.le)
    (show pagesFor cfg.kvcacheBlockSize through - ids.length ≤ _ from hids ▸ hroom)
  rw [hids] at hexact
  refine ⟨_, hcall, hexact, ?_⟩
  intro ts v hsorted hext
  obtain ⟨last, hlast⟩ : ∃ last, last = (through :: ts).getLast (List.cons_ne_nil _ _) := ⟨_, rfl⟩
  have hownu := hcov.allotBlocks (n := pagesFor cfg.kvcacheBlockSize through - c) hx hp
  obtain ⟨hbound, hv⟩ := extendThrough_claims
    (hq.of_control (s.allotBlocks_control cfg x ids _)) hownu hx (Nat.zero_lt_of_lt hlo)
    hexact.length hsorted hext
  rw [← hlast] at hbound hv ⊢
  have htokens : ((s.allotBlocks cfg x ids
      (pagesFor cfg.kvcacheBlockSize through - c)).seqs x).numTokens = (s.seqs x).numTokens := by
    rw [State.allotBlocks_seqs, Function.update_self]
    rfl
  rw [htokens] at hbound
  have hge : through ≤ last := by
    rw [hlast]
    rcases List.mem_cons.mp (List.getLast_mem (List.cons_ne_nil through ts)) with heq | hmem
    · exact heq.ge
    · exact (List.pairwise_cons.mp hsorted).1 _ hmem
  have hle' : last ≤ (s.seqs x).numTokens := by
    rcases hbound with rfl | hbound
    · rw [hlast, List.getLast_singleton]
      exact hhi
    · exact hbound
  rw [(hone last (hlo.trans_le hge) hle').2, hv, State.allotBlocks_claimN]
  have hmono := pagesFor_mono cfg.blockSize_pos hge
  congr 2
  omega

/-- The third request of the pool finds its first two blocks, one of them in use and one free, and
takes a new one; its extension takes another. One of the first request that fails at its failure
point takes nothing. -/
theorem incremental_allocation_exact_sample :
    ∃ u v, allocateIncremental Config.roomy 2 2 5 State.sharedPool = .ok true u ∧
      u.table 2 = [0, 3, 4] ∧ (u.blocks 0).refCount = 3 ∧ (u.blocks 3).refCount = 1 ∧
      u.freeBlockIds = [5] ∧ extend Config.roomy 2 7 u = .ok true v ∧
      allocateIncremental Config.roomy 2 2 7 State.sharedPool = .ok true v ∧
      v.table 2 = [0, 3, 4, 5] ∧
      ∃ e w, extend Config.roomy 0 5 (State.sharedPool.withFault (some 0)) = .error e w ∧
        w.table 0 = [0, 1] ∧ w.freeBlockIds = [3, 4, 5] := by
  have hrun : (Call.returned (allocateIncremental Config.roomy 2 2 5 State.sharedPool)).any
      (fun e => decide (e.1 = true ∧ e.2.table 2 = [0, 3, 4] ∧ (e.2.blocks 0).refCount = 3 ∧
        (e.2.blocks 3).refCount = 1 ∧ e.2.freeBlockIds = [5] ∧
        (Call.returned (extend Config.roomy 2 7 e.2)).any
          (fun e => decide (e.1 = true ∧ e.2.table 2 = [0, 3, 4, 5])) = true)) = true := by
    decide +kernel
  obtain ⟨done, u, hu, hrun⟩ := Call.of_returned hrun
  obtain ⟨rfl, htable, hshared, hrecycled, hfree, hnext⟩ := of_decide_eq_true hrun
  obtain ⟨done, v, hv, hnext⟩ := Call.of_returned hnext
  obtain ⟨rfl, htable'⟩ := of_decide_eq_true hnext
  obtain ⟨⟨c, ids, -, -, -, -, hcan, hall⟩, -, hext⟩ := incremental_allocation_exact
    (⟨rfl, rfl, rfl, rfl⟩ : State.sharedPool.Quiet) sharedPool_own
    (show State.sharedPool.table 2 = [] from rfl)
  have htwo : canAllocate Config.roomy State.sharedPool 2 = some 2 := by decide +kernel
  obtain rfl : c = 2 := by
    rw [htwo] at hcan
    split at hcan
    · cases hcan
    · exact (Option.some.inj hcan).symm
  obtain ⟨u', hu', -, hsplit⟩ := hall htwo 5 (by decide) (by decide)
  obtain rfl : u = u' := (EStateM.Result.ok.inj (hu.symm.trans hu')).2
  have hwhole := hsplit [7] v (by decide) (Call.bind_of_ok hv)
  have hraise : (Call.returned (extend Config.roomy 0 5
      (State.sharedPool.withFault (some 0)))).isNone = true := by decide +kernel
  have hfail := hext 0 (by decide) (some 0) 5
  cases hw : extend Config.roomy 0 5 (State.sharedPool.withFault (some 0)) with
  | ok done w =>
    rw [hw] at hraise
    cases hraise
  | error e w =>
    rw [hw] at hfail
    obtain ⟨f, rfl⟩ := hfail
    exact ⟨u, v, hu, htable, hshared, hrecycled, hfree, hv, hwhole, htable', e, _, rfl, rfl, rfl⟩

end NanoVllm
