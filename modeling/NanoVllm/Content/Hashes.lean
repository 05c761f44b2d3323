/- module: NanoVllm/Content/Hashes
   layer: main result
   source: nanovllm/engine/block_manager.py, compute_hash and hash_blocks
   digest: A published digest is the chained digest of its row's own token prefix. -/

import NanoVllm.Content.Calls

set_option autoImplicit false
set_option relaxedAutoImplicit false

namespace NanoVllm

open Library

variable {cfg : Config} {live : List Nat} {s t u : State} {x : Nat} {distinct : Prop}
  {cov : Nat → Nat}

/-- Full blocks carry equal chained digests exactly when the tokens up to their ends agree. -/
theorem chainHash_eq_iff {hashed : Set (List Nat)} (hinj : Set.InjOn cfg.xxh64 hashed)
    {tokens others : List Nat} (hwords : ∀ w ∈ cfg.hashedWords tokens, w ∈ hashed)
    (hothers : ∀ w ∈ cfg.hashedWords others, w ∈ hashed) {j k : Nat}
    (hj : (j + 1) * cfg.kvcacheBlockSize ≤ tokens.length)
    (hk : (k + 1) * cfg.kvcacheBlockSize ≤ others.length) :
    chainHash cfg tokens (j + 1) = chainHash cfg others (k + 1) ↔
      tokens.take ((j + 1) * cfg.kvcacheBlockSize) =
        others.take ((k + 1) * cfg.kvcacheBlockSize) := by
  constructor
  · intro heq
    obtain ⟨hjk, htake⟩ := chainHash_injOn hinj hwords hothers hj hk heq
    rwa [← hjk]
  · intro htake
    have hlen := congrArg List.length htake
    rw [List.length_take, List.length_take, Nat.min_eq_left hj, Nat.min_eq_left hk] at hlen
    have hjk : j + 1 = k + 1 := Nat.eq_of_mul_eq_mul_right cfg.blockSize_pos hlen
    rw [← hjk] at htake ⊢
    rw [chainHash, chainHash, blocksBelow_congr htake le_rfl]

private theorem take_of_prefix {tokens more : List Nat} (h : tokens <+: more) {n : Nat}
    (hn : n ≤ tokens.length) : more.take n = tokens.take n := by
  obtain ⟨rest, rfl⟩ := h
  exact List.take_append_of_le_length hn

/-- Block `i` of `x` is full and `b` shows its chained digest and its tokens. -/
structure ShowsDigest (cfg : Config) (s : State) (x i b : Nat) : Prop where
  full : (i + 1) * cfg.kvcacheBlockSize ≤ (s.seqs x).numTokens
  hash : (s.blocks b).hash = chainHash cfg (s.seqs x).tokenIds (i + 1)
  tokenIds : (s.blocks b).tokenIds = blockOf cfg.kvcacheBlockSize (s.seqs x).tokenIds i

def State.Chained (s : State) (cfg : Config) (x : Nat) : Prop :=
  ∀ i b, i < s.coverage cfg x → (s.table x)[i]? = some b → ShowsDigest cfg s x i b

private theorem holds_of_lt_coverage {i b : Nat} (hi : i < s.coverage cfg x)
    (hb : (s.table x)[i]? = some b) : s.Holds cfg x (i * cfg.kvcacheBlockSize) b where
  cached := by
    have hpos := cfg.blockSize_pos
    have hle : (i + 1) * cfg.kvcacheBlockSize ≤ (s.seqs x).numCachedTokens :=
      (Nat.le_div_iff_mul_le hpos).mp hi
    rw [Nat.succ_mul] at hle
    omega
  entry := by rwa [Nat.mul_div_cancel _ cfg.blockSize_pos]

theorem State.Chained.kept (h : s.Chained cfg x) (hk : Kept cfg s t x) : t.Chained cfg x := by
  intro i b hi hb
  obtain ⟨hold, hsame⟩ := hk.entries _ b (holds_of_lt_coverage hi hb)
  have hentry := hold.entry
  rw [Nat.mul_div_cancel _ cfg.blockSize_pos] at hentry
  have hcov : i < s.coverage cfg x := by
    rw [State.coverage, ← hk.cached]
    exact hi
  obtain ⟨hfull, hhash, htok⟩ := h i b hcov hentry
  have htake := take_of_prefix hk.tokens hfull
  refine ⟨hfull.trans hk.tokens.length_le, ?_, ?_⟩
  · rw [hsame.hash, hhash, chainHash, chainHash, blocksBelow_congr htake le_rfl]
  · rw [hsame.tokenIds, htok, blockOf_congr htake (Nat.lt_succ_self i)]

theorem Reused.chained (h : Reused cfg s t x) (hown : OwnIf distinct cfg live s.table cov s) :
    t.Chained cfg x := by
  intro i b hi hb
  obtain ⟨hcached, hsame⟩ := h _ b (holds_of_lt_coverage hi hb)
  rw [Nat.mul_div_cancel _ cfg.blockSize_pos] at hcached
  have hfull := hcached.full hown
  obtain ⟨k, hk, hlook, htok⟩ := hcached
  refine ⟨hfull, ?_, ?_⟩
  · rw [hsame.hash, (hown.index k b hlook).2.1, hk]
  · rw [hsame.tokenIds, htok]

private theorem State.publishAt_blocks (s : State) (cfg : Config) (x i b : Nat) (parent : Option Nat)
    (hb : (s.table x)[i]? ≠ some b) (hi : i < (s.table x).length) :
    (s.publishAt cfg x i parent).blocks b = s.blocks b := by
  refine Function.update_of_ne ?_ _ _
  rintro rfl
  refine hb ?_
  rw [List.getD_eq_getElem?_getD, List.getElem?_eq_getElem hi]
  rfl

private theorem State.publishFrom_blocks (cfg : Config) (x b n : Nat) : ∀ (s : State) (i : Nat)
    (parent : Option Nat), i + n ≤ (s.table x).length →
      (∀ j, i ≤ j → j < i + n → (s.table x)[j]? ≠ some b) →
        (s.publishFrom cfg x i n parent).blocks b = s.blocks b := by
  induction n with
  | zero => exact fun _ _ _ _ _ => rfl
  | succ n ih =>
    intro s i parent hlen hb
    have hrest := ih (s.publishAt cfg x i parent) (i + 1)
      (some (cfg.computeHash (blockOf cfg.kvcacheBlockSize (s.seqs x).tokenIds i) parent))
      (by change i + 1 + n ≤ (s.table x).length; omega)
      fun j hj hlt => hb j (by omega) (by omega)
    exact hrest.trans (s.publishAt_blocks cfg x i b parent (hb i le_rfl (by omega)) (by omega))

private theorem State.publishFrom_block (cfg : Config) (x n : Nat) : ∀ (s : State) (i : Nat)
    (parent : Option Nat), parent = chainHash cfg (s.seqs x).tokenIds i →
      i + n ≤ (s.table x).length →
      (∀ j k b, i ≤ j → (s.table x)[j]? = some b → (s.table x)[k]? = some b → j = k) →
        ∀ j b, i ≤ j → j < i + n → (s.table x)[j]? = some b →
          (s.publishFrom cfg x i n parent).blocks b = { s.blocks b with
            hash := chainHash cfg (s.seqs x).tokenIds (j + 1)
            tokenIds := blockOf cfg.kvcacheBlockSize (s.seqs x).tokenIds j
            updates := (s.blocks b).updates + 1 } := by
  induction n with
  | zero =>
    intro s i parent _ _ _ j b hj hlt
    omega
  | succ n ih =>
    intro s i parent hparent hlen hinj j b hj hlt hb
    have hnext : some (cfg.computeHash (blockOf cfg.kvcacheBlockSize (s.seqs x).tokenIds i) parent)
        = chainHash cfg (s.seqs x).tokenIds (i + 1) := by
      rw [chainHash_succ, hparent]
    have hlen' : i + 1 + n ≤ ((s.publishAt cfg x i parent).table x).length := by
      change i + 1 + n ≤ (s.table x).length
      omega
    by_cases hji : j = i
    · subst hji
      have hrest := State.publishFrom_blocks cfg x b n (s.publishAt cfg x j parent) (j + 1)
        (some (cfg.computeHash (blockOf cfg.kvcacheBlockSize (s.seqs x).tokenIds j) parent)) hlen'
        fun k hk _ hkb => by
          have := hinj j k b le_rfl hb hkb
          omega
      have hget : (s.table x).getD j 0 = b := by
        rw [List.getD_eq_getElem?_getD, hb]
        rfl
      rw [State.publishFrom, hrest, ← hnext]
      unfold State.publishAt State.publish
      rw [hget]
      exact Function.update_self _ _ _
    · have hother : (s.publishAt cfg x i parent).blocks b = s.blocks b :=
        s.publishAt_blocks cfg x i b parent (fun hib => hji (hinj i j b le_rfl hib hb).symm)
          (by omega)
      have hrec := ih (s.publishAt cfg x i parent) (i + 1) _ hnext hlen'
        (fun k l c hk => hinj k l c (by omega)) j b (by omega) (by omega) hb
      rw [hother] at hrec
      exact hrec

/-- The index after publishing: each of the published digests points to the last block that
carries it, and the others are as before. -/
private theorem State.publishFrom_index (cfg : Config) (x n : Nat) : ∀ (s : State) (i : Nat)
    (parent : Option Nat), parent = chainHash cfg (s.seqs x).tokenIds i →
      i + n ≤ (s.table x).length → ∀ h,
        ((s.publishFrom cfg x i n parent).hashToBlockId.lookup h = s.hashToBlockId.lookup h ∧
          ∀ j, i ≤ j → j < i + n → chainHash cfg (s.seqs x).tokenIds (j + 1) ≠ some h) ∨
        ∃ j b, i ≤ j ∧ j < i + n ∧ (s.table x)[j]? = some b ∧
          chainHash cfg (s.seqs x).tokenIds (j + 1) = some h ∧
          (s.publishFrom cfg x i n parent).hashToBlockId.lookup h = some b := by
  induction n with
  | zero => exact fun _ _ _ _ _ _ => Or.inl ⟨rfl, fun j hj hlt => absurd hj (by omega)⟩
  | succ n ih =>
    intro s i parent hparent hlen h
    have hnext : some (cfg.computeHash (blockOf cfg.kvcacheBlockSize (s.seqs x).tokenIds i) parent)
        = chainHash cfg (s.seqs x).tokenIds (i + 1) := by
      rw [chainHash_succ, hparent]
    have hlen' : i + 1 + n ≤ ((s.publishAt cfg x i parent).table x).length := by
      change i + 1 + n ≤ (s.table x).length
      omega
    rcases ih (s.publishAt cfg x i parent) (i + 1) _ hnext hlen' h with
      ⟨hsame, hnone⟩ | ⟨j, b, hj, hlt, htab, hchain, hlook⟩
    · by_cases hkey : h = cfg.computeHash
          (blockOf cfg.kvcacheBlockSize (s.seqs x).tokenIds i) parent
      · refine Or.inr ⟨i, (s.table x).getD i 0, le_rfl, by omega, ?_, by rw [← hnext, hkey], ?_⟩
        · rw [List.getD_eq_getElem?_getD, List.getElem?_eq_getElem (by omega)]
          rfl
        · refine hsame.trans ?_
          change (s.hashToBlockId.insert _ _).lookup h = _
          rw [hkey, Finmap.lookup_insert]
      · refine Or.inl ⟨hsame.trans (Finmap.lookup_insert_of_ne _ hkey), fun j hj hlt => ?_⟩
        by_cases hji : j = i
        · rw [hji, ← hnext]
          exact fun heq => hkey (Option.some.inj heq).symm
        · exact hnone j (by omega) (by omega)
    · exact Or.inr ⟨j, b, by omega, by omega, htab, hchain, hlook⟩

def State.nextCoverage (s : State) (cfg : Config) (x : Nat) : Nat :=
  ((s.seqs x).numCachedTokens + (s.seqs x).numScheduledTokens) / cfg.kvcacheBlockSize

private theorem State.advance_coverage (s : State) (cfg : Config) (x : Nat) :
    (s.advance cfg x).coverage cfg = Function.update (s.coverage cfg) x (s.nextCoverage cfg x) := by
  funext y
  rw [State.coverage, State.advance_seqs]
  by_cases hyx : y = x
  · subst hyx
    rw [Function.update_self, Function.update_self]
    rfl
  · rw [Function.update_of_ne hyx, Function.update_of_ne hyx]
    rfl

theorem nextCoverage_le (hwithin : (s.seqs x).numCachedTokens + (s.seqs x).numScheduledTokens
    ≤ (s.table x).length * cfg.kvcacheBlockSize) : s.nextCoverage cfg x ≤ (s.table x).length := by
  rw [Nat.mul_comm] at hwithin
  exact Nat.div_le_of_le_mul hwithin

theorem parentHash_chained (hwithin : (s.seqs x).numCachedTokens + (s.seqs x).numScheduledTokens
    ≤ (s.table x).length * cfg.kvcacheBlockSize) (hchain : s.Chained cfg x) :
    s.parentHash x (s.coverage cfg x) = chainHash cfg (s.seqs x).tokenIds (s.coverage cfg x) := by
  have hle : s.coverage cfg x ≤ (s.table x).length :=
    (Nat.div_le_div_right (Nat.le_add_right _ _)).trans (nextCoverage_le hwithin)
  unfold State.parentHash
  split <;> rename_i hzero
  · rw [hzero]
    rfl
  · have hget : (s.table x)[s.coverage cfg x - 1]? =
        some ((s.table x).getD (s.coverage cfg x - 1) 0) := by
      rw [List.getD_eq_getElem?_getD, List.getElem?_eq_getElem (by omega)]
      rfl
    have hpub := hchain _ _ (by omega) hget
    rw [hpub.hash]
    congr 1
    omega

section Advance

variable (hown : Owns cfg s) (hx : x ∈ s.running ++ s.waiting)
  (hwithin : (s.seqs x).numCachedTokens + (s.seqs x).numScheduledTokens
    ≤ (s.table x).length * cfg.kvcacheBlockSize)

include hwithin

private theorem coverage_to_next : s.coverage cfg x ≤ s.nextCoverage cfg x ∧
    s.coverage cfg x + (s.nextCoverage cfg x - s.coverage cfg x) ≤ (s.table x).length := by
  have htab := nextCoverage_le hwithin
  have hmono : s.coverage cfg x ≤ s.nextCoverage cfg x :=
    Nat.div_le_div_right (Nat.le_add_right _ _)
  omega

theorem State.advance_block_out {b : Nat} (hb : ∀ j, s.coverage cfg x ≤ j →
    j < s.nextCoverage cfg x → (s.table x)[j]? ≠ some b) :
    (s.advance cfg x).blocks b = s.blocks b := by
  obtain ⟨hmono, hlen⟩ := coverage_to_next hwithin
  exact State.publishFrom_blocks cfg x b (s.nextCoverage cfg x - s.coverage cfg x) s
    (s.coverage cfg x) _ hlen fun j hj hlt => hb j hj (by omega)

theorem State.advance_index (hchain : s.Chained cfg x) (h : Nat) :
    ((s.advance cfg x).hashToBlockId.lookup h = s.hashToBlockId.lookup h ∧
      ∀ j, s.coverage cfg x ≤ j → j < s.nextCoverage cfg x →
        chainHash cfg (s.seqs x).tokenIds (j + 1) ≠ some h) ∨
    ∃ j b, s.coverage cfg x ≤ j ∧ j < s.nextCoverage cfg x ∧ (s.table x)[j]? = some b ∧
      chainHash cfg (s.seqs x).tokenIds (j + 1) = some h ∧
      (s.advance cfg x).hashToBlockId.lookup h = some b := by
  obtain ⟨hmono, hlen⟩ := coverage_to_next hwithin
  have hindex := State.publishFrom_index cfg x (s.nextCoverage cfg x - s.coverage cfg x) s
    (s.coverage cfg x) _ (parentHash_chained hwithin hchain) hlen h
  rwa [Nat.add_sub_cancel' hmono] at hindex

include hown hx

theorem State.advance_block_in (hchain : s.Chained cfg x) {j b : Nat}
    (hj : s.coverage cfg x ≤ j) (hlt : j < s.nextCoverage cfg x)
    (hb : (s.table x)[j]? = some b) : (s.advance cfg x).blocks b = { s.blocks b with
      hash := chainHash cfg (s.seqs x).tokenIds (j + 1)
      tokenIds := blockOf cfg.kvcacheBlockSize (s.seqs x).tokenIds j
      updates := (s.blocks b).updates + 1 } := by
  obtain ⟨hmono, hlen⟩ := coverage_to_next hwithin
  exact State.publishFrom_block cfg x (s.nextCoverage cfg x - s.coverage cfg x) s
    (s.coverage cfg x) _ (parentHash_chained hwithin hchain) hlen
    (fun j k c hj hjc hkc => (uncovered_place hown hx hj hjc hx hkc).2.symm) j b hj (by omega) hb

theorem State.Chained.advance
    (hlen : (s.seqs x).numCachedTokens + (s.seqs x).numScheduledTokens ≤ (s.seqs x).numTokens)
    (hchain : ∀ y ∈ s.running ++ s.waiting, s.Chained cfg y) {y : Nat}
    (hy : y ∈ s.running ++ s.waiting) : (s.advance cfg x).Chained cfg y := by
  have htokens : ∀ z, ((s.advance cfg x).seqs z).tokenIds = (s.seqs z).tokenIds := by
    intro z
    rw [State.advance_seqs]
    by_cases hzx : z = x
    · subst hzx
      rw [Function.update_self]
    · rw [Function.update_of_ne hzx]
  intro i b hi hb
  rw [s.advance_table cfg x] at hb
  rw [State.advance_coverage] at hi
  -- a covered block of `s` is not among the ones the call publishes
  have hold : i < s.coverage cfg y → ShowsDigest cfg (s.advance cfg x) y i b := by
    intro hlt
    have hpub := hchain y hy i b hlt hb
    have hsame : (s.advance cfg x).blocks b = s.blocks b := by
      refine State.advance_block_out hwithin fun j hj _ hjb => ?_
      obtain ⟨rfl, rfl⟩ := uncovered_place hown hx hj hjb hy hb
      omega
    refine ⟨?_, ?_, ?_⟩
    · rw [Sequence.numTokens, htokens]
      exact hpub.full
    · rw [hsame, hpub.hash, htokens]
    · rw [hsame, hpub.tokenIds, htokens]
  by_cases hyx : y = x
  · subst hyx
    rw [Function.update_self] at hi
    by_cases hlt : i < s.coverage cfg y
    · exact hold hlt
    · have hpub := State.advance_block_in hown hx hwithin (hchain y hx) (not_lt.mp hlt) hi hb
      refine ⟨?_, ?_, ?_⟩
      · rw [Sequence.numTokens, htokens]
        exact ((Nat.le_div_iff_mul_le cfg.blockSize_pos).mp hi).trans hlen
      · rw [hpub, htokens]
      · rw [hpub, htokens]
  · rw [Function.update_of_ne hyx] at hi
    exact hold hi

end Advance

def State.BlankUnhashed (t : State) : Prop := ∀ b, (t.blocks b).hash = none → t.Blank b

private theorem State.publishFrom_unhashed (cfg : Config) (x b n : Nat) : ∀ (s : State) (i : Nat)
    (parent : Option Nat), ((s.publishFrom cfg x i n parent).blocks b).hash = none →
      (s.publishFrom cfg x i n parent).blocks b = s.blocks b := by
  induction n with
  | zero => exact fun _ _ _ _ => rfl
  | succ n ih =>
    intro s i parent hb
    have hrest := ih _ _ _ hb
    have hnone : ((s.publishAt cfg x i parent).blocks b).hash = none := by
      rw [← hrest]
      exact hb
    have hne : b ≠ (s.table x).getD i 0 := by
      rintro rfl
      have hself : ((s.publishAt cfg x i parent).blocks ((s.table x).getD i 0)).hash =
          some (cfg.computeHash (blockOf cfg.kvcacheBlockSize (s.seqs x).tokenIds i) parent) := by
        unfold State.publishAt State.publish
        simp only [Function.update_self]
      rw [hself] at hnone
      exact absurd hnone (by simp)
    exact hrest.trans (Function.update_of_ne hne _ _)

theorem State.BlankUnhashed.lasting (cfg : Config) : Lasting cfg State.BlankUnhashed where
  init := fun _ _ => ⟨rfl, rfl, rfl⟩
  carried := fun s t _ h hc b hb => by
    rcases hc.content b with hsame | hblank
    · exact (h b (hsame.hash ▸ hb)).trans hsame
    · exact hblank
  advance := fun s x _ _ h _ _ _ b hb => by
    have hsame : (s.advance cfg x).blocks b = s.blocks b :=
      State.publishFrom_unhashed cfg x b _ s _ _ hb
    rw [hsame] at hb
    exact (h b hb).trans (.of_block hsame)

/-- Every digest was written once, unhashed blocks show nothing, and every block below a
coverage shows the digest of its row's prefix. -/
structure Hashed (cfg : Config) (s : State) : Prop where
  blank : s.BlankUnhashed
  once : ∀ b, (s.blocks b).hash ≠ none → (s.blocks b).updates = 1
  chained : ∀ x ∈ s.running ++ s.waiting, s.Chained cfg x

private theorem Hashed.carried (hown : Owns cfg s) (h : Hashed cfg s) (hc : Carries cfg s t) :
    Hashed cfg t where
  blank := (State.BlankUnhashed.lasting cfg).carried s t hown h.blank hc
  once := by
    intro b hb
    rcases hc.content b with hsame | hblank
    · rw [hsame.updates]
      exact h.once b (hsame.hash ▸ hb)
    · exact absurd hblank.hash hb
  chained := by
    intro x hx
    rcases hc.rows x hx with ⟨hlive, hkept⟩ | hreused
    · exact (h.chained x hlive).kept hkept
    · exact hreused.chained hown

private theorem Hashed.advance (hown : Owns cfg s) (hq : s.Quiet) (h : Hashed cfg s)
    (hx : x ∈ s.running ++ s.waiting)
    (hwithin : (s.seqs x).numCachedTokens + (s.seqs x).numScheduledTokens
      ≤ (s.table x).length * cfg.kvcacheBlockSize)
    (hlen : (s.seqs x).numCachedTokens + (s.seqs x).numScheduledTokens ≤ (s.seqs x).numTokens) :
    Hashed cfg (s.advance cfg x) where
  blank := (State.BlankUnhashed.lasting cfg).advance s x hown hq h.blank hx hwithin hlen
  once := by
    intro b hb
    by_cases hin : ∃ j, s.coverage cfg x ≤ j ∧ j < s.nextCoverage cfg x ∧
        (s.table x)[j]? = some b
    · obtain ⟨j, hj, hlt, hjb⟩ := hin
      -- the block was behind the coverage: fresh, so this is its first digest
      have hfresh := h.blank b (hown.high x hx j b hjb hj).2
      rw [State.advance_block_in hown hx hwithin (h.chained x hx) hj hlt hjb, hfresh.updates]
    · have hsame := State.advance_block_out hwithin (b := b) fun j hj hlt hjb =>
        hin ⟨j, hj, hlt, hjb⟩
      rw [hsame] at hb ⊢
      exact h.once b hb
  chained := by
    have hctl := s.advance_control cfg x
    intro y hy
    rw [show (s.advance cfg x).running = s.running from congrArg Control.running hctl,
      show (s.advance cfg x).waiting = s.waiting from congrArg Control.waiting hctl] at hy
    exact State.Chained.advance hown hx hwithin hlen h.chained hy

theorem Hashed.lasting (cfg : Config) : Lasting cfg (Hashed cfg) where
  init := ⟨fun _ _ => ⟨rfl, rfl, rfl⟩, fun _ hb => absurd rfl hb,
    fun _ hx => absurd hx (by simp [State.init])⟩
  carried := fun _ _ hown h hc => h.carried hown hc
  advance := fun _ _ hown hq h hx hwithin hlen => h.advance hown hq hx hwithin hlen

private theorem Protocol.hashed (h : Protocol cfg s) (hj : Hashed cfg s.unleased) : Hashed cfg s := by
  rcases h.lease with ⟨hd, -, -⟩ | ⟨base, rows, plan, r, hd, hleased, hcore, hrows⟩
  · rwa [State.unleased_idle hd] at hj
  · rw [hleased.unleased hd] at hj
    have hsub : ∀ b ∈ lentBlocks rows, b ∈ base.freeBlockIds := by
      intro b hb
      rw [hleased.front] at hb
      exact List.mem_of_mem_take hb
    have hlent := (Hashed.lasting cfg).lend hcore hj hrows hsub
    have hdistinct : (lentBlocks rows).Nodup := by
      rw [hleased.front]
      exact hcore.own.free_nodup.sublist (List.take_sublist _ _)
    have hcore' := hcore.lend hrows hdistinct hsub
    rw [hleased.pool]
    exact hlent.carried hcore'.owns (.withControl (congrArg Control.running hleased.control).symm
      (congrArg Control.waiting hleased.control).symm)

theorem hashed_runTurns (cfg : Config) (turns : List Turn) : Hashed cfg (runTurns cfg turns) := by
  obtain ⟨hp, hj⟩ := (Hashed.lasting cfg).companion.stable.runTurns turns
  exact hp.hashed hj

/-- Equal digests mean equal prefixes. In every run the blocks below a row's coverage carry the
digest of its prefix, written once since the block was last reset, and the others none. -/
theorem published_hashes {words : Set (List Nat)} (hinj : Set.InjOn cfg.xxh64 words) :
    (∀ (tokens others : List Nat) (j k : Nat), (∀ w ∈ cfg.hashedWords tokens, w ∈ words) →
      (∀ w ∈ cfg.hashedWords others, w ∈ words) →
      (j + 1) * cfg.kvcacheBlockSize ≤ tokens.length →
      (k + 1) * cfg.kvcacheBlockSize ≤ others.length →
      (chainHash cfg tokens (j + 1) = chainHash cfg others (k + 1) ↔
        tokens.take ((j + 1) * cfg.kvcacheBlockSize) =
          others.take ((k + 1) * cfg.kvcacheBlockSize))) ∧
    (∀ (first block : List Nat) (parent : Nat), first.length = cfg.kvcacheBlockSize →
      block.length = cfg.kvcacheBlockSize → first ∈ words → parent :: block ∈ words →
      cfg.computeHash first none ≠ cfg.computeHash block (some parent)) ∧
    ∀ turns : List Turn, ∀ x ∈ (runTurns cfg turns).running ++ (runTurns cfg turns).waiting,
      ∀ i b, ((runTurns cfg turns).table x)[i]? = some b →
        (i < (runTurns cfg turns).coverage cfg x → ShowsDigest cfg (runTurns cfg turns) x i b ∧
          ((runTurns cfg turns).blocks b).updates = 1) ∧
        ((runTurns cfg turns).coverage cfg x ≤ i → ((runTurns cfg turns).blocks b).hash = none ∧
          ((runTurns cfg turns).blocks b).updates = 0) := by
  refine ⟨fun tokens others j k hwords hothers hj hk => ?_, ?_, fun turns x hx i b hb => ?_⟩
  · exact chainHash_eq_iff hinj hwords hothers hj hk
  · intro first block parent hfirst hblock hfw hbw heq
    have hlist : first = parent :: block := hinj hfw hbw heq
    have hlen := congrArg List.length hlist
    rw [hfirst, List.length_cons, hblock] at hlen
    omega
  · have hhashed := hashed_runTurns cfg turns
    refine ⟨fun hi => ?_, fun hi => ?_⟩
    · have hshows := hhashed.chained x hx i b hi hb
      refine ⟨hshows, hhashed.once b ?_⟩
      rw [hshows.hash, chainHash_succ]
      exact Option.some_ne_none _
    · have hnone := ((Protocol.runTurns cfg turns).core.owns.high x hx i b hb hi).2
      exact ⟨hnone, (hhashed.blank b hnone).updates⟩

/-- Two requests share their first block; the first fills its second one by a decode step. -/
def sharedTurns : List Turn :=
  [.call (.add [3, 4, 5] 3 true), .call .schedule, .call (.postprocess [0] [6]),
    .call (.add [3, 4, 7] 3 true), .call .schedule, .call (.postprocess [0, 1] [8, 9])]

theorem published_hashes_sample :
    (chainHash Config.sample [3, 4, 5] 1 = chainHash Config.sample [3, 4, 7, 8] 1 ↔
      [3, 4, 5].take 2 = [3, 4, 7, 8].take 2) ∧
    Config.sample.computeHash [3, 4] none ≠ Config.sample.computeHash [5, 6] (some 7) ∧
    (ShowsDigest Config.sample (runTurns Config.sample sharedTurns) 0 1 1 ∧
      ((runTurns Config.sample sharedTurns).blocks 1).updates = 1) ∧
    (ShowsDigest Config.sample (runTurns Config.sample sharedTurns) 1 0 0 ∧
      ((runTurns Config.sample sharedTurns).blocks 0).updates = 1) ∧
    ((runTurns Config.sample sharedTurns).blocks 2).hash = none ∧
      ((runTurns Config.sample sharedTurns).blocks 2).updates = 0 := by
  have hinj : Set.InjOn Config.sample.xxh64 Set.univ := Config.sample_collisionFree.injOn
  have h := published_hashes hinj
  have hrows := h.2.2 sharedTurns
  refine ⟨h.1 [3, 4, 5] [3, 4, 7, 8] 0 0 (by simp) (by simp) (by decide) (by decide),
    h.2.1 [3, 4] [5, 6] 7 rfl rfl trivial trivial, ?_, ?_, ?_⟩
  · exact (hrows 0 (by decide +kernel) 1 1 (by decide +kernel)).1 (by decide +kernel)
  · exact (hrows 1 (by decide +kernel) 0 0 (by decide +kernel)).1 (by decide +kernel)
  · exact (hrows 1 (by decide +kernel) 1 2 (by decide +kernel)).2 (by decide +kernel)

end NanoVllm
