/- module: NanoVllm/Content/Passes
   layer: invariant
   source: nanovllm/layers/attention.py behind prepare_ragged, prepare_decode, target_logits and
     sequential_target_probabilities
   digest: A target call fills the scheduled positions with their entries and nothing else. -/

import NanoVllm.Content.Cache
import NanoVllm.Engine.TargetCall

set_option autoImplicit false
set_option relaxedAutoImplicit false

namespace NanoVllm

open Library

variable {κ : Type} {cfg : Config} {s t u q : State} {entry : List κ → Nat → κ}
  {cache : Int → κ} {x : Nat} {words : List Nat}

structure FedWord where
  row : Nat
  position : Nat
  word : Nat

variable {chunks : List (Nat × List Nat)} {feds : List FedWord} {fed : FedWord}

def FedWord.query (bs : Nat) (s : State) (fed : FedWord) : Query Int Nat where
  word := fed.word
  reads := (List.range fed.position).map (rowSlot bs (s.table fed.row))
  slot := rowSlot bs (s.table fed.row) fed.position

/-- Each row of `chunks` is fed its words, from its first uncached position on and in order, and
its table reaches that far. -/
structure Feeding (cfg : Config) (s : State) (chunks : List (Nat × List Nat)) (feds : List FedWord) :
    Prop where
  live : ∀ c ∈ chunks, c.1 ∈ s.running ++ s.waiting
  covered : ∀ c ∈ chunks, (s.seqs c.1).numCachedTokens + c.2.length ≤
    (s.table c.1).length * cfg.kvcacheBlockSize
  mem : ∀ fed, fed ∈ feds ↔ ∃ c ∈ chunks, ∃ i, fed.row = c.1 ∧
    fed.position = (s.seqs c.1).numCachedTokens + i ∧ c.2[i]? = some fed.word
  ordered : feds.Pairwise fun fed later => fed.row = later.row → fed.position < later.position

theorem getElem?_of_position {table : List Nat} {bs p : Nat} (h : p < table.length * bs) :
    ∃ b, table[p / bs]? = some b :=
  ⟨_, List.getElem?_eq_getElem (div_lt_of_lt_mul h)⟩

theorem Feeding.bounds (h : Feeding cfg s chunks feds) (hfed : fed ∈ feds) :
    fed.row ∈ s.running ++ s.waiting ∧ (s.seqs fed.row).numCachedTokens ≤ fed.position ∧
      fed.position < (s.table fed.row).length * cfg.kvcacheBlockSize := by
  obtain ⟨c, hc, i, hrow, hpos, hword⟩ := (h.mem fed).mp hfed
  have hcov := h.covered c hc
  have hi := (List.getElem?_eq_some_iff.mp hword).1
  rw [hrow, hpos]
  refine ⟨h.live c hc, Nat.le_add_right _ _, ?_⟩
  omega

section Feeding

variable (h : Feeding cfg s chunks feds) (hown : Owns cfg s)

include h hown

private theorem Feeding.place (hfed : fed ∈ feds) {y p : Nat} (hy : y ∈ s.running ++ s.waiting)
    (hp : p < (s.table y).length * cfg.kvcacheBlockSize)
    (heq : rowSlot cfg.kvcacheBlockSize (s.table fed.row) fed.position =
      rowSlot cfg.kvcacheBlockSize (s.table y) p) : y = fed.row ∧ p = fed.position := by
  obtain ⟨hlive, huncached, hcov⟩ := h.bounds hfed
  obtain ⟨b, hb⟩ := getElem?_of_position hcov
  obtain ⟨c, hc⟩ := getElem?_of_position hp
  rw [rowSlot_eq hb, rowSlot_eq hc] at heq
  exact place_unique hown hlive huncached hb hy hc heq

theorem Feeding.causal : Causal (feds.map (FedWord.query cfg.kvcacheBlockSize s)) where
  own := by
    intro query hquery hin
    obtain ⟨fed, hfed, rfl⟩ := List.mem_map.mp hquery
    obtain ⟨p, hp, heq⟩ := List.mem_map.mp hin
    have hlt := List.mem_range.mp hp
    obtain ⟨hlive, -, hcov⟩ := h.bounds hfed
    obtain ⟨-, rfl⟩ := h.place hown hfed hlive (hlt.trans hcov) heq.symm
    exact absurd hlt (Nat.lt_irrefl _)
  later := by
    rw [List.pairwise_map]
    refine h.ordered.imp_of_mem fun {fed later} hfed hlater horder => ?_
    obtain ⟨hlive, -, hcov⟩ := h.bounds hfed
    -- the later position would have to be one of the earlier row's, up to its own
    have hout : ∀ p, p ≤ fed.position → rowSlot cfg.kvcacheBlockSize (s.table fed.row) p ≠
        rowSlot cfg.kvcacheBlockSize (s.table later.row) later.position := by
      intro p hp heq
      obtain ⟨hrow, rfl⟩ := h.place hown hlater hlive (hp.trans_lt hcov) heq.symm
      have hlt := horder hrow
      omega
    refine ⟨fun heq => hout _ le_rfl heq.symm, fun hin => ?_⟩
    obtain ⟨p, hp, heq⟩ := List.mem_map.mp hin
    exact hout p (List.mem_range.mp hp).le heq

theorem Feeding.spare {query : Query Int Nat}
    (hquery : query ∈ feds.map (FedWord.query cfg.kvcacheBlockSize s)) :
    SpareSlot cfg s query.slot := by
  obtain ⟨fed, hfed, rfl⟩ := List.mem_map.mp hquery
  obtain ⟨hlive, huncached, hcov⟩ := h.bounds hfed
  obtain ⟨b, hb⟩ := getElem?_of_position hcov
  show SpareSlot cfg s (rowSlot _ _ _)
  rw [rowSlot_eq hb]
  exact spare_of_uncached hown hlive huncached hb

/-- Behind its chunk a row holds the entries of its cached words and of the fed ones. -/
theorem Feeding.populated (hs : Sound cfg entry s cache) (hx : (x, words) ∈ chunks) :
    Populated entry (pass entry cache (feds.map (FedWord.query cfg.kvcacheBlockSize s)))
      (rowSlot cfg.kvcacheBlockSize (s.table x))
      ((s.seqs x).tokenIds.take (s.seqs x).numCachedTokens ++ words)
      ((s.seqs x).numCachedTokens + words.length) := by
  have hlive : x ∈ s.running ++ s.waiting := h.live _ hx
  have hcov : (s.seqs x).numCachedTokens + words.length ≤
      (s.table x).length * cfg.kvcacheBlockSize := h.covered _ hx
  have hcached : (s.seqs x).numCachedTokens ≤ (s.table x).length * cfg.kvcacheBlockSize := by
    omega
  have hfilled := hs.filled hlive hcached
  have hlen : ((s.seqs x).tokenIds.take (s.seqs x).numCachedTokens).length =
      (s.seqs x).numCachedTokens := by
    have hle := hfilled.le_length
    rw [List.length_take]
    omega
  -- the fed positions do not touch the cached ones
  have hold : Populated entry (pass entry cache (feds.map (FedWord.query cfg.kvcacheBlockSize s)))
      (rowSlot cfg.kvcacheBlockSize (s.table x)) (s.seqs x).tokenIds (s.seqs x).numCachedTokens := by
    refine hfilled.congr fun p hp => pass_outside entry (fun hin => ?_) cache
    obtain ⟨query, hquery, heq⟩ := List.mem_map.mp hin
    obtain ⟨fed, hfed, rfl⟩ := List.mem_map.mp hquery
    obtain ⟨rfl, rfl⟩ := h.place hown hfed hlive (hp.trans_le hcached) heq
    have hle := (h.bounds hfed).2.1
    omega
  have hsame : ((s.seqs x).tokenIds.take (s.seqs x).numCachedTokens ++ words).take
      (s.seqs x).numCachedTokens = (s.seqs x).tokenIds.take (s.seqs x).numCachedTokens := by
    rw [List.take_append_of_le_length hlen.ge, List.take_take, Nat.min_self]
  have hnew := hold.reword hsame
  refine hnew.extend fun p hle hlt => ?_
  have hi : p - (s.seqs x).numCachedTokens < words.length := by omega
  have hword := List.getElem?_eq_getElem hi
  refine ⟨words[p - (s.seqs x).numCachedTokens], ?_, ?_⟩
  · rw [List.getElem?_append_right (by omega), hlen]
    exact hword
  have hmem : (⟨x, p, words[p - (s.seqs x).numCachedTokens]⟩ : FedWord) ∈ feds := by
    refine (h.mem _).mpr ⟨_, hx, p - (s.seqs x).numCachedTokens, rfl, ?_, hword⟩
    show p = (s.seqs x).numCachedTokens + (p - (s.seqs x).numCachedTokens)
    omega
  have hcell := pass_filled entry (h.causal hown) (List.mem_map_of_mem hmem) cache
  refine hcell.trans ?_
  show entry (((List.range p).map (rowSlot cfg.kvcacheBlockSize (s.table x))).map _) _ = _
  rw [List.map_map]
  rfl

end Feeding

theorem Sound.pass (hs : Sound cfg entry s cache) {queries : List (Query Int Nat)}
    (hspare : ∀ query ∈ queries, SpareSlot cfg s query.slot) :
    Sound cfg entry s (Library.pass entry cache queries) := by
  refine hs.overwrite fun slot hne => ?_
  have hin : slot ∈ queries.map Query.slot := by
    by_contra hout
    exact hne (pass_outside entry hout cache)
  obtain ⟨query, hquery, rfl⟩ := List.mem_map.mp hin
  exact hspare query hquery

def State.chunkFeds (s : State) (x : Nat) (words : List Nat) : List FedWord :=
  (words.zipIdx (s.seqs x).numCachedTokens).map fun e => ⟨x, e.2, e.1⟩

theorem State.chunkFeds_query (s : State) (bs x : Nat) (words : List Nat) :
    (s.chunkFeds x words).map (FedWord.query bs s) =
      chunkQueries bs (s.table x) (s.seqs x).numCachedTokens words := by
  unfold State.chunkFeds chunkQueries
  rw [List.map_map]
  rfl

private theorem State.mem_chunkFeds {words : List Nat} : fed ∈ s.chunkFeds x words ↔ ∃ i, fed.row = x ∧
    fed.position = (s.seqs x).numCachedTokens + i ∧ words[i]? = some fed.word := by
  unfold State.chunkFeds
  rw [List.mem_map]
  constructor
  · rintro ⟨⟨word, p⟩, hmem, rfl⟩
    obtain ⟨hle, hget⟩ := List.mk_mem_zipIdx_iff_le_and_getElem?_sub.mp hmem
    exact ⟨p - (s.seqs x).numCachedTokens, rfl, (Nat.add_sub_cancel' hle).symm, hget⟩
  · rintro ⟨i, hrow, hpos, hword⟩
    obtain ⟨row, p, word⟩ := fed
    dsimp only at hrow hpos hword
    subst hrow hpos
    exact ⟨(word, _), List.mk_mem_zipIdx_iff_le_and_getElem?_sub.mpr
      ⟨Nat.le_add_right _ _, by rwa [Nat.add_sub_cancel_left]⟩, rfl⟩

theorem Feeding.mem_queries (h : Feeding cfg s chunks feds) (bs : Nat) {query : Query Int Nat} :
    query ∈ feds.map (FedWord.query bs s) ↔ ∃ c ∈ chunks,
      query ∈ chunkQueries bs (s.table c.1) (s.seqs c.1).numCachedTokens c.2 := by
  constructor
  · intro hquery
    obtain ⟨fed, hfed, rfl⟩ := List.mem_map.mp hquery
    obtain ⟨c, hc, hwords⟩ := (h.mem fed).mp hfed
    refine ⟨c, hc, ?_⟩
    rw [← s.chunkFeds_query]
    exact List.mem_map_of_mem (State.mem_chunkFeds.mpr hwords)
  · rintro ⟨c, hc, hquery⟩
    rw [← s.chunkFeds_query] at hquery
    obtain ⟨fed, hfed, rfl⟩ := List.mem_map.mp hquery
    exact List.mem_map_of_mem ((h.mem fed).mpr ⟨c, hc, State.mem_chunkFeds.mp hfed⟩)

theorem feeding_chunks (hnd : (chunks.map Prod.fst).Nodup)
    (hlive : ∀ c ∈ chunks, c.1 ∈ s.running ++ s.waiting)
    (hcov : ∀ c ∈ chunks, (s.seqs c.1).numCachedTokens + c.2.length ≤
      (s.table c.1).length * cfg.kvcacheBlockSize) :
    Feeding cfg s chunks (chunks.flatMap fun c => s.chunkFeds c.1 c.2) where
  live := hlive
  covered := hcov
  mem := by
    intro fed
    rw [List.mem_flatMap]
    exact exists_congr fun c => and_congr_right fun _ => State.mem_chunkFeds
  ordered := by
    rw [List.pairwise_flatMap]
    constructor
    · intro c _
      unfold State.chunkFeds
      rw [List.pairwise_map]
      have hlt : ((c.2.zipIdx (s.seqs c.1).numCachedTokens).map Prod.snd).Pairwise (· < ·) := by
        rw [List.zipIdx_map_snd]
        exact List.pairwise_lt_range'
      refine (List.pairwise_map.mp hlt).imp fun {a b} hab _ => ?_
      exact hab
    · refine (List.pairwise_map.mp hnd).imp fun {c d} hne fed hfed later hlater heq => ?_
      obtain ⟨_, hrow, -⟩ := State.mem_chunkFeds.mp hfed
      obtain ⟨_, hrow', -⟩ := State.mem_chunkFeds.mp hlater
      exact absurd (hrow.symm.trans (heq.trans hrow')) hne

def State.stepFeds (s : State) (chunks : List (Nat × List Nat)) (steps : Nat) : List FedWord :=
  (List.range steps).flatMap fun i => chunks.map fun c =>
    ⟨c.1, (s.seqs c.1).numCachedTokens + i, c.2.getD i 0⟩

theorem feeding_steps {steps : Nat} (hnd : (chunks.map Prod.fst).Nodup)
    (hlen : ∀ c ∈ chunks, c.2.length = steps)
    (hlive : ∀ c ∈ chunks, c.1 ∈ s.running ++ s.waiting)
    (hcov : ∀ c ∈ chunks, (s.seqs c.1).numCachedTokens + c.2.length ≤
      (s.table c.1).length * cfg.kvcacheBlockSize) :
    Feeding cfg s chunks (s.stepFeds chunks steps) where
  live := hlive
  covered := hcov
  mem := by
    intro fed
    unfold State.stepFeds
    rw [List.mem_flatMap]
    constructor
    · rintro ⟨i, hi, hmem⟩
      obtain ⟨c, hc, rfl⟩ := List.mem_map.mp hmem
      have hlt : i < c.2.length := (List.mem_range.mp hi).trans_eq (hlen c hc).symm
      refine ⟨c, hc, i, rfl, rfl, ?_⟩
      rw [List.getD_eq_getElem?_getD, List.getElem?_eq_getElem hlt]
      rfl
    · rintro ⟨c, hc, i, hrow, hpos, hword⟩
      obtain ⟨row, p, word⟩ := fed
      dsimp only at hrow hpos hword
      subst hrow hpos
      have hlt := (List.getElem?_eq_some_iff.mp hword).1
      refine ⟨i, List.mem_range.mpr (hlt.trans_eq (hlen c hc)), List.mem_map.mpr ⟨c, hc, ?_⟩⟩
      rw [List.getD_eq_getElem?_getD, hword]
      rfl
  ordered := by
    unfold State.stepFeds
    rw [List.pairwise_flatMap]
    constructor
    · intro i _
      rw [List.pairwise_map]
      exact (List.pairwise_map.mp hnd).imp fun hne heq => absurd heq hne
    · refine List.pairwise_lt_range.imp fun {i j} hij fed hfed later hlater heq => ?_
      obtain ⟨c, -, rfl⟩ := List.mem_map.mp hfed
      obtain ⟨d, -, rfl⟩ := List.mem_map.mp hlater
      dsimp only at heq ⊢
      rw [heq]
      omega

end NanoVllm
