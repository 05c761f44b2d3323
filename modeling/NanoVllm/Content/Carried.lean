/- module: NanoVllm/Content/Carried
   layer: refinement
   source: nanovllm/engine/block_manager.py, every operation but hash_blocks
   digest: Cached positions keep their block and its content, or come from the hash index. -/

import NanoVllm.Ownership.Lease
import NanoVllm.Ownership.Retention
import NanoVllm.Scheduling.FillMoves
import NanoVllm.Speculation.UndoSchedule

set_option autoImplicit false
set_option relaxedAutoImplicit false

namespace NanoVllm

open Library

variable {cfg : Config} {live live' live'' : List Nat} {s t u : State} {x b : Nat}

structure SameContent (s t : State) (b : Nat) : Prop where
  hash : (t.blocks b).hash = (s.blocks b).hash
  tokenIds : (t.blocks b).tokenIds = (s.blocks b).tokenIds
  updates : (t.blocks b).updates = (s.blocks b).updates

theorem SameContent.refl (s : State) (b : Nat) : SameContent s s b := ⟨rfl, rfl, rfl⟩

theorem SameContent.of_block (h : t.blocks b = s.blocks b) : SameContent s t b :=
  ⟨by rw [h], by rw [h], by rw [h]⟩

theorem SameContent.congr {s' t' : State} (h : SameContent s t b) (hs : s'.blocks = s.blocks)
    (ht : t'.blocks = t.blocks) : SameContent s' t' b :=
  ⟨by rw [hs, ht]; exact h.hash, by rw [hs, ht]; exact h.tokenIds,
    by rw [hs, ht]; exact h.updates⟩

theorem SameContent.trans (h : SameContent s t b) (h' : SameContent t u b) : SameContent s u b :=
  ⟨h'.hash.trans h.hash, h'.tokenIds.trans h.tokenIds, h'.updates.trans h.updates⟩

structure State.Blank (t : State) (b : Nat) : Prop where
  hash : (t.blocks b).hash = none
  tokenIds : (t.blocks b).tokenIds = []
  updates : (t.blocks b).updates = 0

structure State.Holds (s : State) (cfg : Config) (x p b : Nat) : Prop where
  cached : p < (s.seqs x).numCachedTokens
  entry : (s.table x)[p / cfg.kvcacheBlockSize]? = some b

structure Kept (cfg : Config) (s t : State) (x : Nat) : Prop where
  tokens : (s.seqs x).tokenIds <+: (t.seqs x).tokenIds
  cached : (t.seqs x).numCachedTokens = (s.seqs x).numCachedTokens
  entries : ∀ p b, t.Holds cfg x p b → s.Holds cfg x p b ∧ SameContent s t b

def Reused (cfg : Config) (s t : State) (x : Nat) : Prop :=
  ∀ p b, t.Holds cfg x p b →
    CachedAt cfg s (t.seqs x).tokenIds (p / cfg.kvcacheBlockSize) b ∧ SameContent s t b

/-- From `s` to `t` nothing was hashed: the index gained no entry, each block kept its content
or lost it, and each row of `live'` kept its coverage or took it from the index. -/
structure Carried (cfg : Config) (live : List Nat) (s : State) (live' : List Nat) (t : State) :
    Prop where
  index : ∀ h b, t.hashToBlockId.lookup h = some b →
    s.hashToBlockId.lookup h = some b ∧ SameContent s t b
  content : ∀ b, SameContent s t b ∨ t.Blank b
  rows : ∀ x ∈ live', x ∈ live ∧ Kept cfg s t x ∨ Reused cfg s t x

theorem State.Blank.trans (h : t.Blank b) (h' : SameContent t u b) : u.Blank b :=
  ⟨h'.hash.trans h.hash, h'.tokenIds.trans h.tokenIds, h'.updates.trans h.updates⟩

theorem State.Blank.congr (h : t.Blank b) (hu : u.blocks = t.blocks) : u.Blank b :=
  ⟨by rw [hu]; exact h.hash, by rw [hu]; exact h.tokenIds, by rw [hu]; exact h.updates⟩

private theorem Kept.refl (cfg : Config) (s : State) (x : Nat) : Kept cfg s s x :=
  ⟨List.prefix_refl _, rfl, fun _ b h => ⟨h, .refl s b⟩⟩

private theorem Kept.trans (h : Kept cfg s t x) (h' : Kept cfg t u x) : Kept cfg s u x where
  tokens := h.tokens.trans h'.tokens
  cached := h'.cached.trans h.cached
  entries := by
    intro p b hb
    obtain ⟨ht, htu⟩ := h'.entries p b hb
    obtain ⟨hs, hst⟩ := h.entries p b ht
    exact ⟨hs, hst.trans htu⟩

private theorem Carried.cachedAt (h : Carried cfg live s live' t) {tokenIds : List Nat} {i : Nat}
    (hb : CachedAt cfg t tokenIds i b) : CachedAt cfg s tokenIds i b ∧ SameContent s t b := by
  obtain ⟨k, hk, hlook, htok⟩ := hb
  obtain ⟨hold, hsame⟩ := h.index k b hlook
  exact ⟨⟨k, hk, hold, hsame.tokenIds.symm.trans htok⟩, hsame⟩

private theorem CachedAt.mono {tokenIds more : List Nat} {i : Nat} (h : CachedAt cfg s tokenIds i b)
    (hlen : (i + 1) * cfg.kvcacheBlockSize ≤ tokenIds.length) (hmore : tokenIds <+: more) :
    CachedAt cfg s more i b := by
  have htake : more.take ((i + 1) * cfg.kvcacheBlockSize) =
      tokenIds.take ((i + 1) * cfg.kvcacheBlockSize) := by
    obtain ⟨rest, rfl⟩ := hmore
    exact List.take_append_of_le_length hlen
  obtain ⟨k, hk, hlook, htok⟩ := h
  refine ⟨k, ?_, hlook, ?_⟩
  · rw [← hk, chainHash, chainHash, blocksBelow_congr htake le_rfl]
  · rw [htok, blockOf_congr htake (Nat.lt_succ_self i)]

theorem Carried.refl (cfg : Config) (live : List Nat) (s : State) : Carried cfg live s live s where
  index := fun _ b h => ⟨h, .refl s b⟩
  content := fun b => Or.inl (.refl s b)
  rows := fun x hx => Or.inl ⟨hx, .refl cfg s x⟩

theorem Carried.perm (h : Carried cfg live s live' t) {more fewer : List Nat}
    (hmore : ∀ x ∈ live, x ∈ more) (hfewer : ∀ x ∈ fewer, x ∈ live') :
    Carried cfg more s fewer t where
  index := h.index
  content := h.content
  rows := fun x hx => (h.rows x (hfewer x hx)).imp_left fun hkept => ⟨hmore x hkept.1, hkept.2⟩

theorem Carried.congr (h : Carried cfg live s live' t) {s' t' : State} (hseqs : s'.seqs = s.seqs)
    (hblocks : s'.blocks = s.blocks) (hindex : s'.hashToBlockId = s.hashToBlockId)
    (hseqs' : t'.seqs = t.seqs) (hblocks' : t'.blocks = t.blocks)
    (hindex' : t'.hashToBlockId = t.hashToBlockId) : Carried cfg live s' live' t' := by
  have hsame : ∀ b, SameContent s t b → SameContent s' t' b := by
    exact fun b hb => hb.congr hblocks hblocks'
  have hholds : ∀ y p b, t'.Holds cfg y p b → t.Holds cfg y p b := by
    intro y p b hb
    have hcached := hb.cached
    have hentry := hb.entry
    rw [hseqs'] at hcached
    rw [State.table, hseqs'] at hentry
    exact ⟨hcached, hentry⟩
  refine ⟨?_, ?_, ?_⟩
  · intro k b hb
    rw [hindex'] at hb
    rw [hindex]
    exact ⟨(h.index k b hb).1, hsame b (h.index k b hb).2⟩
  · intro b
    rcases h.content b with hkeep | hblank
    · exact Or.inl (hsame b hkeep)
    · exact Or.inr (hblank.congr hblocks')
  · intro y hy
    rcases h.rows y hy with ⟨hlive, hkept⟩ | hreused
    · refine Or.inl ⟨hlive, ⟨?_, ?_, ?_⟩⟩
      · rw [hseqs, hseqs']
        exact hkept.tokens
      · rw [hseqs, hseqs']
        exact hkept.cached
      · intro p b hb
        obtain ⟨hold, hcontent⟩ := hkept.entries p b (hholds y p b hb)
        refine ⟨⟨?_, ?_⟩, hsame b hcontent⟩
        · rw [hseqs]
          exact hold.cached
        · rw [State.table, hseqs]
          exact hold.entry
    · refine Or.inr fun p b hb => ?_
      obtain ⟨⟨k, hk, hlook, htok⟩, hcontent⟩ := hreused p b (hholds y p b hb)
      refine ⟨⟨k, ?_, ?_, ?_⟩, hsame b hcontent⟩
      · rw [hseqs']
        exact hk
      · rw [hindex]
        exact hlook
      · rw [hseqs', hblocks]
        exact htok

/-- The blocks `emptied` lost their content and their index entries, the others nothing. -/
structure Empties (emptied : List Nat) (s t : State) : Prop where
  same : ∀ b, b ∉ emptied → SameContent s t b
  gone : ∀ b ∈ emptied, t.Blank b
  index : ∀ h b, t.hashToBlockId.lookup h = some b →
    s.hashToBlockId.lookup h = some b ∧ b ∉ emptied

theorem Empties.of_eq (hblocks : t.blocks = s.blocks)
    (hindex : t.hashToBlockId = s.hashToBlockId) : Empties [] s t where
  same := fun b _ => .of_block (congrFun hblocks b)
  gone := by simp
  index := fun h b hb => ⟨by rwa [hindex] at hb, by simp⟩

theorem Empties.carried {emptied : List Nat} (h : Empties emptied s t)
    (hrows : ∀ x ∈ live', x ∈ live ∧ Kept cfg s t x ∨ Reused cfg s t x) :
    Carried cfg live s live' t where
  index := by
    intro k b hb
    obtain ⟨hold, hout⟩ := h.index k b hb
    exact ⟨hold, h.same b hout⟩
  content := by
    intro b
    by_cases hb : b ∈ emptied
    · exact Or.inr (h.gone b hb)
    · exact Or.inl (h.same b hb)
  rows := hrows

section Own

variable {distinct : Prop} {cov : Nat → Nat} {emptied : List Nat}

/-- A row whose covered entries are still there is kept: free blocks are in no table. -/
theorem Empties.kept (h : Empties emptied s t) (hown : OwnIf distinct cfg live s.table cov s)
    (hfree : ∀ b ∈ emptied, b ∈ s.freeBlockIds) (hx : x ∈ live)
    (htokens : (s.seqs x).tokenIds <+: (t.seqs x).tokenIds)
    (hcached : (t.seqs x).numCachedTokens = (s.seqs x).numCachedTokens)
    (hentry : ∀ i b, i * cfg.kvcacheBlockSize < (s.seqs x).numCachedTokens →
      (t.table x)[i]? = some b → (s.table x)[i]? = some b) : Kept cfg s t x where
  tokens := htokens
  cached := hcached
  entries := by
    intro p b hb
    have hp : p < (s.seqs x).numCachedTokens := hcached ▸ hb.cached
    have hlt : p / cfg.kvcacheBlockSize * cfg.kvcacheBlockSize < (s.seqs x).numCachedTokens :=
      (Nat.div_mul_le_self _ _).trans_lt hp
    have hold := hentry _ b hlt hb.entry
    refine ⟨⟨hp, hold⟩, h.same b fun hmem => ?_⟩
    exact hown.not_mem_table_of_mem_free (hfree b hmem) hx (List.mem_of_getElem? hold)

end Own

theorem Carried.recast (hblocks : t.blocks = s.blocks) (hindex : t.hashToBlockId = s.hashToBlockId)
    (hrow : ∀ x ∈ live', x ∈ live ∧ (t.seqs x).tokenIds = (s.seqs x).tokenIds ∧
      (t.seqs x).numCachedTokens = (s.seqs x).numCachedTokens ∧ t.table x = s.table x) :
    Carried cfg live s live' t := by
  have hempties : Empties [] s t := .of_eq hblocks hindex
  refine hempties.carried fun x hx => ?_
  obtain ⟨hlive, htok, hcached, htab⟩ := hrow x hx
  refine Or.inl ⟨hlive, htok ▸ List.prefix_refl _, hcached, fun p b hb => ?_⟩
  exact ⟨⟨hcached ▸ hb.cached, htab ▸ hb.entry⟩, hempties.same b (by simp)⟩

theorem Reused.of_bare (h : t.table x = []) : Reused cfg s t x := by
  intro p b hb
  have hentry := hb.entry
  rw [h] at hentry
  exact absurd hentry (by simp)

section Trans

variable {distinct : Prop} {cov : Nat → Nat}

theorem CachedAt.full (hown : OwnIf distinct cfg live s.table cov s) {tokenIds : List Nat} {i : Nat}
    (h : CachedAt cfg s tokenIds i b) : (i + 1) * cfg.kvcacheBlockSize ≤ tokenIds.length := by
  obtain ⟨k, -, hlook, htok⟩ := h
  have hlen := (hown.index k b hlook).2.2
  have hpos := cfg.blockSize_pos
  rw [htok, blockOf, List.length_take, List.length_drop] at hlen
  rw [Nat.succ_mul]
  omega

theorem Carried.trans (hown : OwnIf distinct cfg live s.table cov s)
    (h : Carried cfg live s live' t) (h' : Carried cfg live' t live'' u) :
    Carried cfg live s live'' u where
  index := by
    intro k b hb
    obtain ⟨ht, htu⟩ := h'.index k b hb
    obtain ⟨hs, hst⟩ := h.index k b ht
    exact ⟨hs, hst.trans htu⟩
  content := by
    intro b
    rcases h'.content b with htu | hblank
    · exact (h.content b).imp (fun hst => hst.trans htu) fun hblank => hblank.trans htu
    · exact Or.inr hblank
  rows := by
    intro x hx
    rcases h'.rows x hx with ⟨hx', hkept⟩ | hreused
    · rcases h.rows x hx' with ⟨hx'', hkept'⟩ | hreused
      · exact Or.inl ⟨hx'', hkept'.trans hkept⟩
      · refine Or.inr fun p b hb => ?_
        obtain ⟨ht, htu⟩ := hkept.entries p b hb
        obtain ⟨hcached, hst⟩ := hreused p b ht
        exact ⟨hcached.mono (hcached.full hown) hkept.tokens, hst.trans htu⟩
    · refine Or.inr fun p b hb => ?_
      obtain ⟨hcached, htu⟩ := hreused p b hb
      obtain ⟨hold, hst⟩ := h.cachedAt hcached
      exact ⟨hold, hst.trans htu⟩

end Trans

theorem Empties.of_content (hsame : ∀ b, SameContent s t b)
    (hindex : t.hashToBlockId = s.hashToBlockId) : Empties [] s t where
  same := fun b _ => hsame b
  gone := by simp
  index := fun h b hb => ⟨by rwa [hindex] at hb, by simp⟩

theorem Empties.congr {emptied : List Nat} (h : Empties emptied s t) (hblocks : u.blocks = t.blocks)
    (hindex : u.hashToBlockId = t.hashToBlockId) : Empties emptied s u where
  same := fun b hb => (h.same b hb).congr rfl hblocks
  gone := fun b hb => (h.gone b hb).congr hblocks
  index := fun k b hk => h.index k b (hindex ▸ hk)

private theorem State.setBlock_content (s : State) (b n : Nat) (c : Nat) :
    SameContent s (s.setBlock b { s.blocks b with refCount := n }) c := by
  by_cases hcb : c = b
  · subst hcb
    exact ⟨by simp [State.setBlock], by simp [State.setBlock], by simp [State.setBlock]⟩
  · exact .of_block (by simp [State.setBlock, hcb])

private theorem State.releaseAll_content (ids : List Nat) : ∀ (s : State) (c : Nat),
    SameContent s (s.releaseAll ids) c := by
  induction ids with
  | nil => exact fun s c => .refl s c
  | cons b ids ih =>
    intro s c
    have hset := s.setBlock_content b ((s.blocks b).refCount - 1) c
    have hone : SameContent s (s.releaseBlock b) c := by
      have hblocks := s.releaseBlock_blocks b
      exact hset.congr rfl hblocks
    exact hone.trans (ih (s.releaseBlock b) c)

theorem State.pinAll_content (x : Nat) (ids : List Nat) : ∀ (s : State) (c : Nat),
    SameContent s (s.pinAll x ids) c := by
  induction ids with
  | nil => exact fun s c => .refl s c
  | cons b ids ih =>
    intro s c
    have hset := s.setBlock_content b ((s.blocks b).refCount + 1) c
    have hone : SameContent s (s.pin x b) c := hset.congr rfl rfl
    exact hone.trans (ih (s.pin x b) c)

theorem State.release_empties (s : State) (x : Nat) : Empties [] s (s.release x) := by
  refine .of_content (fun b => ?_) (s.release_index x)
  have hall := State.releaseAll_content (s.table x).reverse s b
  exact hall.congr rfl rfl

theorem State.evict_empties (s : State) (x : Nat) : Empties [] s (s.evict x) := by
  obtain ⟨hblocks, hindex, -, -⟩ := s.clearMid_pool x
  have hpark : Empties [] s ((s.clearMid x).setSeq x
      { s.seqs x with status := .waiting, isPrefill := true }) := .of_eq hblocks hindex
  have hrel := ((s.clearMid x).setSeq x
    { s.seqs x with status := .waiting, isPrefill := true }).release_empties x
  refine .of_content (fun b => ?_) (s.evict_index x)
  have hlast := hrel.same b (by simp)
  exact (hpark.same b (by simp)).trans (hlast.congr rfl rfl)

theorem State.lend_empties (s : State) (rows : List (Nat × List Nat)) :
    Empties (lentBlocks rows) s (s.lend rows) where
  same := by
    intro b hb
    have hblock : (s.lend rows).blocks b = s.blocks b := if_neg hb
    exact .of_block hblock
  gone := by
    intro b hb
    have hblock : (s.lend rows).blocks b = Block.fresh := if_pos hb
    exact ⟨by rw [hblock]; rfl, by rw [hblock]; rfl, by rw [hblock]; rfl⟩
  index := by
    intro k b hb
    obtain ⟨hold, hout⟩ := (lookup_restrict_eq_some _ _ _ _).mp hb
    exact ⟨hold, by simpa using hout⟩

theorem State.wipe_empties (s : State) (ids : List Nat) : Empties ids s (s.wipe ids) where
  same := by
    intro b hb
    have hblock : (s.wipe ids).blocks b = s.blocks b := if_neg hb
    exact .of_block hblock
  gone := by
    intro b hb
    have hblock : (s.wipe ids).blocks b =
        { s.blocks b with hash := none, tokenIds := [], updates := 0 } := if_pos hb
    exact ⟨by rw [hblock], by rw [hblock], by rw [hblock]⟩
  index := by
    intro k b hb
    obtain ⟨hold, hout⟩ := (lookup_restrict_eq_some _ _ _ _).mp hb
    exact ⟨hold, by simpa using hout⟩

end NanoVllm
