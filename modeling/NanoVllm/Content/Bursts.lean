/- module: NanoVllm/Content/Bursts
   layer: invariant
   source: nanovllm/engine/scheduler.py, commit_speculative; nanovllm/engine/block_manager.py,
     hash_blocks
   digest: A committed batch publishes the blocks its bursts complete, and no other. -/

import NanoVllm.Content.Hashes

set_option autoImplicit false
set_option relaxedAutoImplicit false

namespace NanoVllm

open Library

variable {cfg : Config} {s t u : State} {row : PreparedRow} {prepared : List PreparedRow}
  {i b : Nat}

def State.burstTokens (s : State) (row : PreparedRow) : List Nat :=
  (s.seqs row.sequence).tokenIds ++ row.tokens

/-- `b` is block `i` of its row, and full only with the burst. -/
structure State.Completes (s : State) (cfg : Config) (row : PreparedRow) (i b : Nat) : Prop where
  uncovered : s.coverage cfg row.sequence ≤ i
  reached : i < row.cached / cfg.kvcacheBlockSize
  entry : (s.table row.sequence)[i]? = some b

/-- `t` shows in `b` the chained digest and the tokens of block `i` of the row with its burst. -/
structure Digested (cfg : Config) (s : State) (row : PreparedRow) (i b : Nat) (t : State) :
    Prop where
  hash : (t.blocks b).hash = chainHash cfg (s.burstTokens row) (i + 1)
  tokenIds : (t.blocks b).tokenIds = blockOf cfg.kvcacheBlockSize (s.burstTokens row) i
  updates : (t.blocks b).updates = (s.blocks b).updates + 1

/-- `t` is `s` with the blocks that the bursts complete published, and no other. -/
structure Publishes (cfg : Config) (s : State) (prepared : List PreparedRow) (t : State) :
    Prop where
  completed : ∀ row ∈ prepared, ∀ i b, s.Completes cfg row i b → Digested cfg s row i b t
  others : ∀ b, (∀ row ∈ prepared, ∀ i, ¬ s.Completes cfg row i b) → SameContent s t b
  index : ∀ h, (t.hashToBlockId.lookup h = s.hashToBlockId.lookup h ∧
      ∀ row ∈ prepared, ∀ i b, s.Completes cfg row i b →
        chainHash cfg (s.burstTokens row) (i + 1) ≠ some h) ∨
    ∃ row ∈ prepared, ∃ i b, s.Completes cfg row i b ∧
      chainHash cfg (s.burstTokens row) (i + 1) = some h ∧ t.hashToBlockId.lookup h = some b

private theorem SameContent.symm (h : SameContent s t b) : SameContent t s b :=
  ⟨h.hash.symm, h.tokenIds.symm, h.updates.symm⟩

theorem Publishes.congr (h : Publishes cfg s prepared t) (hsame : ∀ b, SameContent t u b)
    (hindex : u.hashToBlockId = t.hashToBlockId) : Publishes cfg s prepared u where
  completed := fun row hrow i b hc =>
    have hd := h.completed row hrow i b hc
    ⟨(hsame b).hash.trans hd.hash, (hsame b).tokenIds.trans hd.tokenIds,
      (hsame b).updates.trans hd.updates⟩
  others := fun b hb => (h.others b hb).trans (hsame b)
  index := fun k => by
    rw [hindex]
    exact h.index k

section One

variable (hcore : Core cfg [] s) (hh : Hashed cfg s) (hx : row.sequence ∈ s.running)
  (hfit : Fits cfg (s.seqs row.sequence) row)

/-- Committing a row publishes from where its table was covered to where its burst ends. -/
private theorem State.commitOne_published (s : State) (cfg : Config) (row : PreparedRow)
    (hfit : Fits cfg (s.seqs row.sequence) row) :
    (∀ b, SameContent ((s.appendBurst row).advance cfg row.sequence) (s.commitOne cfg row) b) ∧
      (s.commitOne cfg row).hashToBlockId =
        ((s.appendBurst row).advance cfg row.sequence).hashToBlockId := by
  have hburst : (s.burst cfg row).blocks =
      ((s.appendBurst row).advance cfg row.sequence).blocks ∧
      (s.burst cfg row).hashToBlockId =
        ((s.appendBurst row).advance cfg row.sequence).hashToBlockId := by
    rw [State.burst_eq_advance hfit]
    exact ⟨rfl, rfl⟩
  unfold State.commitOne
  split
  · obtain ⟨hsame, hindex⟩ := (s.burst cfg row).retire_content row.sequence
    exact ⟨fun b => (hsame b).congr hburst.1.symm rfl, hindex.trans hburst.2⟩
  · exact ⟨fun b => .of_block (congrFun hburst.1 b), hburst.2⟩

include hcore hh hx hfit

private theorem Publishes.commitOne : Publishes cfg s [row] (s.commitOne cfg row) := by
  have happ : Core cfg [] (s.appendBurst row) := hcore.appendBurst hx hfit
  have hlive : row.sequence ∈ s.running ++ s.waiting := List.mem_append_left _ hx
  have hha : Hashed cfg (s.appendBurst row) := (Hashed.lasting cfg).carried s _ hcore.owns hh
    (.appendTokens hcore.owns (List.prefix_append _ _) rfl rfl)
  have hrow := happ.started row.sequence hx
  have hself : (s.appendBurst row).seqs row.sequence = { s.seqs row.sequence with
      tokenIds := s.burstTokens row
      numScheduledTokens := row.cached - (s.seqs row.sequence).numCachedTokens } :=
    Function.update_self ..
  have htokens : ((s.appendBurst row).seqs row.sequence).tokenIds = s.burstTokens row := by
    rw [hself]
  have htable : (s.appendBurst row).table row.sequence = s.table row.sequence := by
    unfold State.table
    rw [hself]
  have hcov : (s.appendBurst row).coverage cfg row.sequence = s.coverage cfg row.sequence := by
    unfold State.coverage
    rw [hself]
  have hnext : (s.appendBurst row).nextCoverage cfg row.sequence =
      row.cached / cfg.kvcacheBlockSize := by
    unfold State.nextCoverage
    rw [hself]
    dsimp only
    rw [Nat.add_sub_cancel' hfit.cached_le]
  have hchain := hha.chained row.sequence hlive
  obtain ⟨hsame, hindex⟩ := s.commitOne_published cfg row hfit
  refine Publishes.congr ⟨fun q hq i b hc => ?_, fun b hb => ?_, fun h => ?_⟩ hsame hindex
  · obtain rfl := List.mem_singleton.mp hq
    have hin := State.advance_block_in happ.owns hlive hrow.within hchain
      (hcov.trans_le hc.uncovered) (hnext ▸ hc.reached) (htable ▸ hc.entry)
    rw [htokens] at hin
    exact ⟨by rw [hin], by rw [hin], by rw [hin]; rfl⟩
  · refine .of_block (State.advance_block_out hrow.within fun j hj hlt hjb => ?_)
    exact hb row (List.mem_singleton_self row) j
      ⟨hcov.symm.trans_le hj, hnext ▸ hlt, htable ▸ hjb⟩
  · rcases State.advance_index hrow.within hchain h with
      ⟨hold, hnone⟩ | ⟨j, b, hj, hlt, hjb, hchain, hlook⟩
    · refine Or.inl ⟨hold, fun q hq i b hc => ?_⟩
      obtain rfl := List.mem_singleton.mp hq
      rw [← htokens]
      exact hnone i (hcov.trans_le hc.uncovered) (hnext ▸ hc.reached)
    · rw [htokens] at hchain
      exact Or.inr ⟨row, List.mem_singleton_self row, j, b,
        ⟨hcov.symm.trans_le hj, hnext ▸ hlt, htable ▸ hjb⟩, hchain, hlook⟩

end One

/-- A row committed after another publishes the same blocks with the same digests. -/
private theorem Publishes.cons (hcore : Core cfg [] s) (hb : Bursts cfg s (row :: prepared))
    (h : Publishes cfg s [row] t) (hrest : Publishes cfg t prepared u)
    (hrows : ∀ other ∈ prepared, t.seqs other.sequence = s.seqs other.sequence) :
    Publishes cfg s (row :: prepared) u := by
  have hnd := hb.distinct
  rw [List.map_cons, List.nodup_cons] at hnd
  have hne : ∀ other ∈ prepared, other.sequence ≠ row.sequence :=
    fun other hmem heq => hnd.1 (heq ▸ List.mem_map_of_mem hmem)
  have hiff : ∀ other ∈ prepared, ∀ i b, t.Completes cfg other i b ↔ s.Completes cfg other i b := by
    intro other hmem i b
    have hcov : t.coverage cfg other.sequence = s.coverage cfg other.sequence := by
      unfold State.coverage
      rw [hrows other hmem]
    have htable : t.table other.sequence = s.table other.sequence := by
      unfold State.table
      rw [hrows other hmem]
    exact ⟨fun hc => ⟨hcov.symm.trans_le hc.uncovered, hc.reached, htable ▸ hc.entry⟩,
      fun hc => ⟨hcov.trans_le hc.uncovered, hc.reached, htable ▸ hc.entry⟩⟩
  have htokens : ∀ other ∈ prepared, t.burstTokens other = s.burstTokens other := by
    intro other hmem
    unfold State.burstTokens
    rw [hrows other hmem]
  -- an uncovered block belongs to one row only
  have hapart : ∀ other ∈ prepared, ∀ i j b, s.Completes cfg other i b →
      ¬ s.Completes cfg row j b := by
    intro other hmem i j b hc hc'
    have hlive : ∀ q ∈ row :: prepared, q.sequence ∈ s.running ++ s.waiting :=
      fun q hq => List.mem_append_left _ (hb.running q hq)
    have hown := hcore.owns
    exact hne other hmem (uncovered_place hown (hlive row List.mem_cons_self) hc'.uncovered
      hc'.entry (hlive other (List.mem_cons_of_mem _ hmem)) hc.entry).1
  refine ⟨fun q hq i b hc => ?_, fun b hout => ?_, fun k => ?_⟩
  · rcases List.mem_cons.mp hq with rfl | hmem
    · have hfirst := h.completed q (List.mem_singleton_self q) i b hc
      have hlater := hrest.others b fun other hmem j hc' =>
        hapart other hmem j i b ((hiff other hmem j b).mp hc') hc
      exact ⟨hlater.hash.trans hfirst.hash, hlater.tokenIds.trans hfirst.tokenIds,
        hlater.updates.trans hfirst.updates⟩
    · obtain ⟨hhash, htok, hupd⟩ := hrest.completed q hmem i b ((hiff q hmem i b).mpr hc)
      have hfirst := h.others b fun other hother j => by
        obtain rfl := List.mem_singleton.mp hother
        exact hapart q hmem i j b hc
      rw [htokens q hmem] at hhash htok
      exact ⟨hhash, htok, by rw [hupd, hfirst.updates]⟩
  · have hfirst := h.others b fun other hother j => by
      obtain rfl := List.mem_singleton.mp hother
      exact hout other List.mem_cons_self j
    exact hfirst.trans (hrest.others b fun other hmem j hc =>
      hout other (List.mem_cons_of_mem _ hmem) j ((hiff other hmem j b).mp hc))
  · rcases hrest.index k with ⟨hold, hnone⟩ | ⟨other, hmem, i, b, hc, hchain, hlook⟩
    · rcases h.index k with ⟨hfirst, hnone'⟩ | ⟨other, hother, i, b, hc, hchain, hlook⟩
      · refine Or.inl ⟨hold.trans hfirst, fun q hq i b hc => ?_⟩
        rcases List.mem_cons.mp hq with rfl | hmem
        · exact hnone' q (List.mem_singleton_self q) i b hc
        · rw [← htokens q hmem]
          exact hnone q hmem i b ((hiff q hmem i b).mpr hc)
      · obtain rfl := List.mem_singleton.mp hother
        exact Or.inr ⟨other, List.mem_cons_self, i, b, hc, hchain, hold.trans hlook⟩
    · rw [htokens other hmem] at hchain
      exact Or.inr ⟨other, List.mem_cons_of_mem _ hmem, i, b, (hiff other hmem i b).mp hc, hchain,
        hlook⟩

/-- Committing a batch publishes exactly the blocks that its bursts complete. -/
theorem Publishes.commitAll (hcore : Core cfg [] s) (hq : s.Quiet) (hh : Hashed cfg s)
    (hb : Bursts cfg s prepared) : Publishes cfg s prepared (s.commitAll cfg prepared) := by
  induction prepared generalizing s with
  | nil => exact ⟨by simp, fun b _ => .refl s b, fun k => Or.inl ⟨rfl, by simp⟩⟩
  | cons row prepared ih =>
    have hx := hb.running row List.mem_cons_self
    have hfit := hb.fits row List.mem_cons_self
    have hnd := hb.distinct
    rw [List.map_cons, List.nodup_cons] at hnd
    have hrest := ih (hcore.commitOne hx hfit) ((s.commitOne_control cfg row).quiet hq)
      ((Hashed.lasting cfg).commitOne hcore hq hh hx hfit) hb.tail
    refine Publishes.cons hcore hb (.commitOne hcore hh hx hfit) hrest fun other hmem => ?_
    exact s.commitOne_seqs_out cfg fun heq => hnd.1 (heq ▸ List.mem_map_of_mem hmem)

end NanoVllm
