/- module: NanoVllm/Ownership/Own
   layer: invariant
   source: tests/test_chunk_prefill_review.py, _assert_ownership
   digest: Block ownership over the live tables and its six elementary changes. -/

import NanoVllm.Library.References
import NanoVllm.Engine.BlockManager

set_option autoImplicit false
set_option relaxedAutoImplicit false

namespace NanoVllm

open Library

def State.table (s : State) (x : Nat) : List Nat := (s.seqs x).blockTable

/-- Ownership of the pool by the tables of `live`. The tables are an argument of
their own because a release walks a table that the request object still shows in
full; entries from index `cov x` on are exclusive and carry no hash. Only `distinct`
tables need be free of repetitions: a digest collision can put a cached block twice
into one table. -/
structure OwnIf (distinct : Prop) (cfg : Config) (live : List Nat) (table : Nat → List Nat)
    (cov : Nat → Nat) (s : State) : Prop where
  live_nodup : live.Nodup
  free_nodup : s.freeBlockIds.Nodup
  used_lt : ∀ b ∈ s.usedBlockIds, b < cfg.numKvcacheBlocks
  mem_free : ∀ b, b ∈ s.freeBlockIds ↔ b < cfg.numKvcacheBlocks ∧ b ∉ s.usedBlockIds
  ref_eq : ∀ b, (s.blocks b).refCount = references table live b
  mem_used : ∀ b, b ∈ s.usedBlockIds ↔ 0 < (s.blocks b).refCount
  table_nodup : distinct → ∀ x ∈ live, (table x).Nodup
  high : ∀ x ∈ live, ∀ i b, (table x)[i]? = some b → cov x ≤ i →
    (s.blocks b).refCount = 1 ∧ (s.blocks b).hash = none
  index : ∀ h b, s.hashToBlockId.lookup h = some b →
    b < cfg.numKvcacheBlocks ∧ (s.blocks b).hash = some h
      ∧ (s.blocks b).tokenIds.length = cfg.kvcacheBlockSize

/-- Ownership by tables without repetitions. -/
abbrev Own (cfg : Config) (live : List Nat) (table : Nat → List Nat) (cov : Nat → Nat)
    (s : State) : Prop := OwnIf True cfg live table cov s

namespace OwnIf

variable {distinct : Prop} {cfg : Config} {live : List Nat} {table : Nat → List Nat} {cov : Nat → Nat}
  {s s' : State} {x b : Nat}

theorem init (cfg : Config) (table : Nat → List Nat) (cov : Nat → Nat) :
    OwnIf distinct cfg [] table cov (State.init cfg) where
  live_nodup := List.nodup_nil
  free_nodup := List.nodup_range
  used_lt := by simp [State.init]
  mem_free := by simp [State.init]
  ref_eq := by simp [State.init]
  mem_used := by simp [State.init]
  table_nodup := by simp
  high := by simp
  index := by
    intro h b hb
    simp [State.init] at hb

theorem mem_used_of_mem_table (h : OwnIf distinct cfg live table cov s) (hx : x ∈ live)
    (hb : b ∈ table x) : b ∈ s.usedBlockIds := by
  rw [h.mem_used, h.ref_eq, references_pos]
  exact ⟨x, hx, hb⟩

theorem lt_of_mem_table (h : OwnIf distinct cfg live table cov s) (hx : x ∈ live) (hb : b ∈ table x) :
    b < cfg.numKvcacheBlocks :=
  h.used_lt b (h.mem_used_of_mem_table hx hb)

theorem ref_pos_of_mem_table (h : OwnIf distinct cfg live table cov s) (hx : x ∈ live)
    (hb : b ∈ table x) :
    0 < (s.blocks b).refCount :=
  (h.mem_used b).mp (h.mem_used_of_mem_table hx hb)

theorem ref_eq_zero_of_mem_free (h : OwnIf distinct cfg live table cov s) (hb : b ∈ s.freeBlockIds) :
    (s.blocks b).refCount = 0 := by
  have hnot := ((h.mem_free b).mp hb).2
  rw [h.mem_used] at hnot
  omega

theorem not_mem_table_of_mem_free (h : OwnIf distinct cfg live table cov s) (hb : b ∈ s.freeBlockIds)
    (hx : x ∈ live) : b ∉ table x := by
  intro hmem
  exact ((h.mem_free b).mp hb).2 (h.mem_used_of_mem_table hx hmem)

theorem owner_unique (h : OwnIf distinct cfg live table cov s) (href : (s.blocks b).refCount = 1)
    {y : Nat}
    (hx : x ∈ live) (hy : y ∈ live) (hbx : b ∈ table x) (hby : b ∈ table y) : x = y :=
  eq_of_references_eq_one h.live_nodup (by rw [← h.ref_eq]; exact href) hx hy hbx hby

theorem count_le_one (h : OwnIf distinct cfg live table cov s) (href : (s.blocks b).refCount = 1)
    (hx : x ∈ live) : (table x).count b ≤ 1 := by
  rw [← href, h.ref_eq]
  exact count_le_references table hx b

theorem lt_cov_of_shared (h : OwnIf distinct cfg live table cov s) (hx : x ∈ live) {i : Nat}
    (hi : (table x)[i]? = some b) (href : 1 < (s.blocks b).refCount) : i < cov x := by
  by_contra hlt
  have hhigh := (h.high x hx i b hi (Nat.le_of_not_lt hlt)).1
  omega

theorem congr_pool (h : OwnIf distinct cfg live table cov s) (hblocks : s'.blocks = s.blocks)
    (hindex : s'.hashToBlockId = s.hashToBlockId) (hfree : s'.freeBlockIds = s.freeBlockIds)
    (hused : s'.usedBlockIds = s.usedBlockIds) : OwnIf distinct cfg live table cov s' where
  live_nodup := h.live_nodup
  free_nodup := by rw [hfree]; exact h.free_nodup
  used_lt := by rw [hused]; exact h.used_lt
  mem_free := by rw [hfree, hused]; exact h.mem_free
  ref_eq := by rw [hblocks]; exact h.ref_eq
  mem_used := by rw [hused, hblocks]; exact h.mem_used
  table_nodup := h.table_nodup
  high := by rw [hblocks]; exact h.high
  index := by rw [hindex, hblocks]; exact h.index

theorem mono_cov {cov' : Nat → Nat} (h : OwnIf distinct cfg live table cov s)
    (hle : ∀ x ∈ live, cov x ≤ cov' x) : OwnIf distinct cfg live table cov' s :=
  { h with
    high := fun x hx i b hi hc => h.high x hx i b hi ((hle x hx).trans hc) }

theorem set_cov {cov' : Nat → Nat} (h : OwnIf distinct cfg live table cov s)
    (hle : ∀ x ∈ live, (table x).length ≤ cov' x ∨ cov x ≤ cov' x) :
    OwnIf distinct cfg live table cov' s :=
  { h with
    high := by
      intro x hx i b hi hc
      rcases hle x hx with hlen | hcov
      · have hlt : i < (table x).length := by
          by_contra hge
          rw [List.getElem?_eq_none (by omega)] at hi
          exact absurd hi (by simp)
        omega
      · exact h.high x hx i b hi (hcov.trans hc) }

theorem perm {live' : List Nat} (h : OwnIf distinct cfg live table cov s) (hp : live'.Perm live) :
    OwnIf distinct cfg live' table cov s where
  live_nodup := hp.nodup_iff.mpr h.live_nodup
  free_nodup := h.free_nodup
  used_lt := h.used_lt
  mem_free := h.mem_free
  ref_eq := by
    intro b
    rw [h.ref_eq, references_perm table hp]
  mem_used := h.mem_used
  table_nodup := fun hd x hx => h.table_nodup hd x (hp.mem_iff.mp hx)
  high := fun x hx => h.high x (hp.mem_iff.mp hx)
  index := h.index

theorem cons (h : OwnIf distinct cfg live table cov s) (hx : x ∉ live) (htab : table x = []) :
    OwnIf distinct cfg (x :: live) table cov s where
  live_nodup := List.nodup_cons.mpr ⟨hx, h.live_nodup⟩
  free_nodup := h.free_nodup
  used_lt := h.used_lt
  mem_free := h.mem_free
  ref_eq := by
    intro b
    rw [h.ref_eq, references_cons, htab, List.count_nil, Nat.zero_add]
  mem_used := h.mem_used
  table_nodup := by
    intro hd y hy
    rcases List.mem_cons.mp hy with rfl | hy
    · rw [htab]
      exact List.nodup_nil
    · exact h.table_nodup hd y hy
  high := by
    intro y hy i b hi hc
    rcases List.mem_cons.mp hy with rfl | hy
    · rw [htab] at hi
      simp at hi
    · exact h.high y hy i b hi hc
  index := h.index

theorem uncons (h : OwnIf distinct cfg (x :: live) table cov s) (htab : table x = []) :
    OwnIf distinct cfg live table cov s where
  live_nodup := (List.nodup_cons.mp h.live_nodup).2
  free_nodup := h.free_nodup
  used_lt := h.used_lt
  mem_free := h.mem_free
  ref_eq := by
    intro b
    rw [h.ref_eq, references_cons, htab, List.count_nil, Nat.zero_add]
  mem_used := h.mem_used
  table_nodup := fun hd y hy => h.table_nodup hd y (List.mem_cons_of_mem x hy)
  high := fun y hy => h.high y (List.mem_cons_of_mem x hy)
  index := h.index

theorem push (h : OwnIf distinct cfg live table cov s) (hx : x ∈ live) (hb : b ∈ s.freeBlockIds)
    (hblocks : s'.blocks = Function.update s.blocks b Block.fresh)
    (hindex : ∀ k c, s'.hashToBlockId.lookup k = some c →
      s.hashToBlockId.lookup k = some c ∧ c ≠ b)
    (hfree : (b :: s'.freeBlockIds).Perm s.freeBlockIds)
    (hused : s'.usedBlockIds = insert b s.usedBlockIds) :
    OwnIf distinct cfg live (Function.update table x (table x ++ [b])) cov s' := by
  have hbt : ∀ y ∈ live, b ∉ table y := fun y hy => h.not_mem_table_of_mem_free hb hy
  have hcons : (b :: s'.freeBlockIds).Nodup := hfree.nodup_iff.mpr h.free_nodup
  obtain ⟨hbnot, hnd⟩ := List.nodup_cons.mp hcons
  have hblt := ((h.mem_free b).mp hb).1
  have hrefs : ∀ c, references (Function.update table x (table x ++ [b])) live c =
      references table live c + [b].count c := by
    intro c
    have hupd := references_update table h.live_nodup hx (table x ++ [b]) c
    rw [List.count_append] at hupd
    omega
  have hzero : references table live b = 0 := by
    rw [← h.ref_eq]
    exact h.ref_eq_zero_of_mem_free hb
  refine ⟨h.live_nodup, hnd, ?_, ?_, ?_, ?_, ?_, ?_, ?_⟩
  · intro c hc
    rw [hused, Finset.mem_insert] at hc
    rcases hc with rfl | hc
    · exact hblt
    · exact h.used_lt c hc
  · intro c
    have hmem : c ∈ s.freeBlockIds ↔ c = b ∨ c ∈ s'.freeBlockIds := by
      rw [← hfree.mem_iff, List.mem_cons]
    rw [hused, Finset.mem_insert]
    by_cases hcb : c = b
    · subst hcb
      exact ⟨fun hc => absurd hc hbnot, fun hc => absurd (Or.inl rfl) hc.2⟩
    · rw [h.mem_free c] at hmem
      constructor
      · intro hc
        have hold := hmem.mpr (Or.inr hc)
        exact ⟨hold.1, fun hor => hor.elim hcb hold.2⟩
      · intro hc
        exact (hmem.mp ⟨hc.1, fun hu => hc.2 (Or.inr hu)⟩).resolve_left hcb
  · intro c
    rw [hblocks, hrefs]
    by_cases hcb : c = b
    · subst hcb
      simp [Block.fresh, hzero]
    · rw [Function.update_of_ne hcb, h.ref_eq, List.count_eq_zero.mpr (by simpa using hcb),
        Nat.add_zero]
  · intro c
    rw [hused, hblocks, Finset.mem_insert]
    by_cases hcb : c = b
    · subst hcb
      simp [Block.fresh]
    · rw [Function.update_of_ne hcb, ← h.mem_used]
      simp [hcb]
  · intro hd y hy
    by_cases hyx : y = x
    · subst hyx
      rw [Function.update_self]
      apply List.Nodup.append (h.table_nodup hd y hy) (List.nodup_singleton b)
      intro c hc hcb
      rw [List.mem_singleton.mp hcb] at hc
      exact hbt y hy hc
    · rw [Function.update_of_ne hyx]
      exact h.table_nodup hd y hy
  · intro y hy i c hi hc
    by_cases hcb : c = b
    · subst hcb
      rw [hblocks, Function.update_self]
      exact ⟨rfl, rfl⟩
    · rw [hblocks, Function.update_of_ne hcb]
      by_cases hyx : y = x
      · subst hyx
        rw [Function.update_self] at hi
        apply h.high y hy i c _ hc
        rcases Nat.lt_or_ge i (table y).length with hlt | hge
        · rwa [List.getElem?_append_left hlt] at hi
        · rw [List.getElem?_append_right hge] at hi
          exact absurd (List.mem_singleton.mp (List.mem_of_getElem? hi)) hcb
      · rw [Function.update_of_ne hyx] at hi
        exact h.high y hy i c hi hc
  · intro k c hc
    obtain ⟨hold, hcb⟩ := hindex k c hc
    rw [hblocks, Function.update_of_ne hcb]
    exact h.index k c hold

/-- An indexed block gains an owner below that owner's coverage; a free one is revived. -/
theorem pin (h : OwnIf distinct cfg live table cov s) (hx : x ∈ live) {k : Nat}
    (hk : s.hashToBlockId.lookup k = some b) (hbx : distinct → b ∉ table x)
    (hcov : (table x).length < cov x)
    (hblocks : s'.blocks = Function.update s.blocks b
      { s.blocks b with refCount := (s.blocks b).refCount + 1 })
    (hindex : s'.hashToBlockId = s.hashToBlockId)
    (hfree : s'.freeBlockIds = s.freeBlockIds.erase b)
    (hused : s'.usedBlockIds = insert b s.usedBlockIds) :
    OwnIf distinct cfg live (Function.update table x (table x ++ [b])) cov s' := by
  obtain ⟨hblt, hhash, hlen⟩ := h.index k b hk
  have hrefs : ∀ c, references (Function.update table x (table x ++ [b])) live c =
      references table live c + [b].count c := by
    intro c
    have hupd := references_update table h.live_nodup hx (table x ++ [b]) c
    rw [List.count_append] at hupd
    omega
  refine ⟨h.live_nodup, ?_, ?_, ?_, ?_, ?_, ?_, ?_, ?_⟩
  · rw [hfree]
    exact h.free_nodup.erase b
  · intro c hc
    rw [hused, Finset.mem_insert] at hc
    rcases hc with rfl | hc
    · exact hblt
    · exact h.used_lt c hc
  · intro c
    rw [hfree, hused, h.free_nodup.mem_erase_iff, h.mem_free, Finset.mem_insert]
    tauto
  · intro c
    rw [hblocks, hrefs]
    by_cases hcb : c = b
    · subst hcb
      simp [h.ref_eq]
    · rw [Function.update_of_ne hcb, h.ref_eq, List.count_eq_zero.mpr (by simpa using hcb),
        Nat.add_zero]
  · intro c
    rw [hused, hblocks, Finset.mem_insert]
    by_cases hcb : c = b
    · subst hcb
      simp
    · rw [Function.update_of_ne hcb, ← h.mem_used]
      simp [hcb]
  · intro hd y hy
    by_cases hyx : y = x
    · subst hyx
      rw [Function.update_self]
      apply List.Nodup.append (h.table_nodup hd y hy) (List.nodup_singleton b)
      intro c hc hcb
      rw [List.mem_singleton.mp hcb] at hc
      exact hbx hd hc
    · rw [Function.update_of_ne hyx]
      exact h.table_nodup hd y hy
  · intro y hy i c hi hc
    -- The new entry is below coverage; the old high entries carry no hash, so none is `b`.
    have hold : (table y)[i]? = some c := by
      by_cases hyx : y = x
      · subst hyx
        rw [Function.update_self] at hi
        rcases Nat.lt_or_ge i (table y).length with hlt | hge
        · rwa [List.getElem?_append_left hlt] at hi
        · have hne : ¬ i < (table y ++ [b]).length := by
            rw [List.length_append, List.length_singleton]
            omega
          rw [List.getElem?_eq_none (Nat.le_of_not_lt hne)] at hi
          exact absurd hi (by simp)
      · rwa [Function.update_of_ne hyx] at hi
    have hhigh := h.high y hy i c hold hc
    have hcb : c ≠ b := by
      intro heq
      subst heq
      rw [hhash] at hhigh
      exact absurd hhigh.2 (by simp)
    rw [hblocks, Function.update_of_ne hcb]
    exact hhigh
  · intro l c hc
    rw [hindex] at hc
    obtain ⟨hclt, hchash, hclen⟩ := h.index l c hc
    rw [hblocks]
    by_cases hcb : c = b
    · subst hcb
      rw [Function.update_self]
      exact ⟨hclt, hchash, hclen⟩
    · rw [Function.update_of_ne hcb]
      exact ⟨hclt, hchash, hclen⟩

/-- The last entry of a live table loses this owner; the block is freed when it
had no other. -/
theorem pop (h : OwnIf distinct cfg live table cov s) (hx : x ∈ live) {t : List Nat}
    (htab : table x = t ++ [b])
    (hblocks : s'.blocks = Function.update s.blocks b
      { s.blocks b with refCount := (s.blocks b).refCount - 1 })
    (hindex : s'.hashToBlockId = s.hashToBlockId)
    (hkeep : (s.blocks b).refCount ≠ 1 →
      s'.freeBlockIds = s.freeBlockIds ∧ s'.usedBlockIds = s.usedBlockIds)
    (hfreed : (s.blocks b).refCount = 1 →
      s'.freeBlockIds.Perm (b :: s.freeBlockIds) ∧ s'.usedBlockIds = s.usedBlockIds.erase b) :
    OwnIf distinct cfg live (Function.update table x t) cov s' := by
  have hbx : b ∈ table x := by
    rw [htab]
    simp
  have hbused := h.mem_used_of_mem_table hx hbx
  have hpos := h.ref_pos_of_mem_table hx hbx
  have hblt := h.used_lt b hbused
  have hbfree : b ∉ s.freeBlockIds := fun hb => ((h.mem_free b).mp hb).2 hbused
  have hrefs : ∀ c, references (Function.update table x t) live c + [b].count c =
      references table live c := by
    intro c
    have hupd := references_update table h.live_nodup hx t c
    rw [htab, List.count_append] at hupd
    omega
  have hcount : ∀ c, c ≠ b → [b].count c = 0 := by
    intro c hcb
    exact List.count_eq_zero.mpr (by simpa using hcb)
  have hcount_self : [b].count b = 1 := by simp
  have hmem_used : ∀ c, c ∈ s'.usedBlockIds ↔ 0 < (s'.blocks c).refCount := by
    intro c
    rw [hblocks]
    by_cases href : (s.blocks b).refCount = 1
    · rw [(hfreed href).2, Finset.mem_erase]
      by_cases hcb : c = b
      · subst hcb
        simp [href]
      · rw [Function.update_of_ne hcb, ← h.mem_used]
        simp [hcb]
    · rw [(hkeep href).2]
      by_cases hcb : c = b
      · subst hcb
        rw [Function.update_self]
        exact ⟨fun _ => Nat.sub_pos_of_lt (by omega), fun _ => hbused⟩
      · rw [Function.update_of_ne hcb, ← h.mem_used]
  have hused_sub : ∀ c ∈ s'.usedBlockIds, c ∈ s.usedBlockIds := by
    intro c hc
    by_cases href : (s.blocks b).refCount = 1
    · rw [(hfreed href).2] at hc
      exact Finset.mem_of_mem_erase hc
    · rwa [(hkeep href).2] at hc
  refine ⟨h.live_nodup, ?_, ?_, ?_, ?_, hmem_used, ?_, ?_, ?_⟩
  · by_cases href : (s.blocks b).refCount = 1
    · rw [(hfreed href).1.nodup_iff, List.nodup_cons]
      exact ⟨hbfree, h.free_nodup⟩
    · rw [(hkeep href).1]
      exact h.free_nodup
  · exact fun c hc => h.used_lt c (hused_sub c hc)
  · intro c
    by_cases href : (s.blocks b).refCount = 1
    · rw [(hfreed href).1.mem_iff, (hfreed href).2, List.mem_cons, h.mem_free, Finset.mem_erase]
      by_cases hcb : c = b
      · subst hcb
        simp [hblt]
      · simp [hcb]
    · rw [(hkeep href).1, (hkeep href).2]
      exact h.mem_free c
  · intro c
    have hrc := hrefs c
    rw [hblocks]
    by_cases hcb : c = b
    · subst hcb
      rw [Function.update_self]
      have := h.ref_eq c
      simp only
      omega
    · rw [Function.update_of_ne hcb, h.ref_eq]
      have := hcount c hcb
      omega
  · intro hd y hy
    by_cases hyx : y = x
    · subst hyx
      have htnd : (t ++ [b]).Nodup := htab ▸ h.table_nodup hd y hy
      rw [Function.update_self]
      exact htnd.of_append_left
    · rw [Function.update_of_ne hyx]
      exact h.table_nodup hd y hy
  · intro y hy i c hi hc
    have hold : (table y)[i]? = some c := by
      by_cases hyx : y = x
      · subst hyx
        rw [Function.update_self] at hi
        have hlt : i < t.length := (List.getElem?_eq_some_iff.mp hi).1
        rw [htab, List.getElem?_append_left hlt]
        exact hi
      · rwa [Function.update_of_ne hyx] at hi
    have hhigh := h.high y hy i c hold hc
    have hcb : c ≠ b := by
      intro heq
      subst heq
      by_cases hyx : y = x
      · subst hyx
        rw [Function.update_self] at hi
        -- a second entry would make two references
        have hone := h.count_le_one hhigh.1 hy
        have htwo : 0 < t.count c := List.count_pos_iff.mpr (List.mem_of_getElem? hi)
        rw [htab, List.count_append] at hone
        omega
      · exact hyx (h.owner_unique hhigh.1 hy hx (List.mem_of_getElem? hold) hbx)
    rw [hblocks, Function.update_of_ne hcb]
    exact hhigh
  · intro k c hc
    rw [hindex] at hc
    obtain ⟨hclt, hchash, hclen⟩ := h.index k c hc
    rw [hblocks]
    by_cases hcb : c = b
    · subst hcb
      rw [Function.update_self]
      exact ⟨hclt, hchash, hclen⟩
    · rw [Function.update_of_ne hcb]
      exact ⟨hclt, hchash, hclen⟩

theorem publish (h : OwnIf distinct cfg live table cov s) (hx : x ∈ live) {i : Nat}
    (hi : (table x)[i]? = some b) (hcov : cov x ≤ i) {k : Nat} {tokens : List Nat}
    (htokens : tokens.length = cfg.kvcacheBlockSize) {cov' : Nat → Nat}
    (hle : ∀ y, cov y ≤ cov' y) (hlt : i < cov' x) :
    OwnIf distinct cfg live table cov' (s.publish b k tokens) := by
  have hbx := List.mem_of_getElem? hi
  obtain ⟨href, hhash⟩ := h.high x hx i b hi hcov
  have hblt := h.lt_of_mem_table hx hbx
  have hrefs : ∀ c, ((s.publish b k tokens).blocks c).refCount = (s.blocks c).refCount := by
    intro c
    simp only [State.publish]
    by_cases hcb : c = b
    · subst hcb
      rw [Function.update_self]
    · rw [Function.update_of_ne hcb]
  refine ⟨h.live_nodup, h.free_nodup, h.used_lt, h.mem_free, ?_, ?_, h.table_nodup, ?_, ?_⟩
  · intro c
    rw [hrefs, h.ref_eq]
  · intro c
    rw [hrefs]
    exact h.mem_used c
  · intro y hy j c hj hc
    have hhigh := h.high y hy j c hj ((hle y).trans hc)
    have hcb : c ≠ b := by
      intro heq
      subst heq
      have hyx := h.owner_unique href hy hx (List.mem_of_getElem? hj) hbx
      subst hyx
      have hji := getElem?_inj_of_count (h.count_le_one href hy) hj hi
      omega
    simp only [State.publish]
    rw [Function.update_of_ne hcb]
    exact hhigh
  · intro l c hc
    simp only [State.publish] at hc ⊢
    by_cases hlk : l = k
    · subst hlk
      rw [Finmap.lookup_insert] at hc
      obtain rfl := Option.some.inj hc
      rw [Function.update_self]
      exact ⟨hblt, rfl, htokens⟩
    · rw [Finmap.lookup_insert_of_ne _ hlk] at hc
      obtain ⟨hclt, hchash, hclen⟩ := h.index l c hc
      have hcb : c ≠ b := by
        intro heq
        subst heq
        rw [hhash] at hchash
        exact absurd hchash (by simp)
      rw [Function.update_of_ne hcb]
      exact ⟨hclt, hchash, hclen⟩

end OwnIf

def firstDigest : Nat := Config.roomy.computeHash [3, 4] none

def secondDigest : Nat := Config.roomy.computeHash [5, 6] (some firstDigest)

def Sequence.decoding (tokenIds blockTable : List Nat) : Sequence :=
  { Sequence.new tokenIds 4 true with
    status := .running
    isPrefill := false
    numCachedTokens := tokenIds.length - 1
    blockTable := blockTable }

/-- Two running requests share a cached block, and the first free block still has its words. The
prompt of a third request begins with the words of both. -/
def State.sharedPool : State :=
  { State.init Config.roomy with
    seqs := fun x => [.decoding [3, 4, 7, 8, 13] [0, 1], .decoding [3, 4, 9] [0, 2],
      .new [3, 4, 5, 6, 10, 11, 12] 4 true].getD x .blank
    nextSeqId := 3
    blocks := fun b => [⟨2, some firstDigest, [3, 4], 1⟩, .fresh, .fresh,
      ⟨0, some secondDigest, [5, 6], 1⟩].getD b ⟨0, none, [], 0⟩
    hashToBlockId := (Finmap.insert secondDigest 3 ∅).insert firstDigest 0
    freeBlockIds := [3, 4, 5]
    usedBlockIds := {0, 1, 2} }

theorem sharedPool_own {distinct : Prop} :
    OwnIf distinct Config.roomy [0, 1] State.sharedPool.table (fun _ => 1) State.sharedPool where
  live_nodup := by decide
  free_nodup := by decide
  used_lt := by decide
  mem_free b := by
    simp only [State.sharedPool, Config.roomy, List.mem_cons, List.not_mem_nil, or_false,
      Finset.mem_insert, Finset.mem_singleton]
    omega
  ref_eq b := by
    rcases b with _ | _ | _ | _ | b <;> rfl
  mem_used b := by
    rcases b with _ | _ | _ | _ | b <;> simp [State.sharedPool, Block.fresh]
  table_nodup _ := by decide
  high x hx i b hb hi := by
    have hall : ∀ x ∈ [0, 1], ∀ b ∈ (State.sharedPool.table x).drop 1,
        (State.sharedPool.blocks b).refCount = 1 ∧ (State.sharedPool.blocks b).hash = none := by
      decide
    obtain ⟨i, rfl⟩ := Nat.exists_eq_add_of_le hi
    refine hall x hx b (List.mem_of_getElem? (i := i) ?_)
    rw [List.getElem?_drop]
    exact hb
  index h b hb := by
    simp only [State.sharedPool] at hb
    by_cases hfirst : h = firstDigest
    · subst hfirst
      rw [Finmap.lookup_insert] at hb
      obtain rfl := Option.some.inj hb
      exact ⟨by decide, rfl, rfl⟩
    rw [Finmap.lookup_insert_of_ne _ hfirst] at hb
    by_cases hsecond : h = secondDigest
    · subst hsecond
      rw [Finmap.lookup_insert] at hb
      obtain rfl := Option.some.inj hb
      exact ⟨by decide, rfl, rfl⟩
    rw [Finmap.lookup_insert_of_ne _ hsecond, Finmap.lookup_empty] at hb
    exact absurd hb (by simp)

end NanoVllm
