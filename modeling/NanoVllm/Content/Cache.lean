/- module: NanoVllm/Content/Cache
   layer: invariant
   source: nanovllm/engine/scheduler.py and block_manager.py, what a cached position stands for;
     nanovllm/layers/attention.py, store_kvcache
   digest: The cache holds, at every cached position, the entry of the row's own prefix. -/

import NanoVllm.Content.Hashes
import NanoVllm.Inputs.Attention
import NanoVllm.Scheduling.Events
import NanoVllm.Speculation.Commit

set_option autoImplicit false
set_option relaxedAutoImplicit false

namespace NanoVllm

open Library

variable {κ : Type} {cfg : Config} {s t u : State} {entry : List κ → Nat → κ}
  {cache cache' : Int → κ} {x b p i n bs : Nat} {table : List Nat}

def blockSlot (bs b p : Nat) : Int := ((b * bs + p % bs : Nat) : Int)

theorem rowSlot_eq (h : table[p / bs]? = some b) : rowSlot bs table p = blockSlot bs b p := by
  unfold rowSlot slotAt blockSlot
  rw [List.getD_eq_getElem?_getD, h]
  rfl

private theorem blockSlot_inj (hbs : 0 < bs) {b' p' : Nat} (h : blockSlot bs b p = blockSlot bs b' p') :
    b = b' ∧ p % bs = p' % bs := by
  have hnat : b * bs + p % bs = b' * bs + p' % bs := Int.ofNat.inj h
  have hlt := Nat.mod_lt p hbs
  have hlt' := Nat.mod_lt p' hbs
  have hpage := congrArg (· / bs) hnat
  simp only [Nat.mul_comm _ bs, Nat.mul_add_div hbs, Nat.div_eq_of_lt hlt,
    Nat.div_eq_of_lt hlt', Nat.add_zero] at hpage
  subst hpage
  exact ⟨rfl, Nat.add_left_cancel hnat⟩

/-- Chains of blocks with one digest end with blocks of the same entries. -/
def Config.Resolves (cfg : Config) (entry : List κ → Nat → κ) : Prop :=
  ∀ words others i j, chainHash cfg words (i + 1) = chainHash cfg others (j + 1) →
    (i + 1) * cfg.kvcacheBlockSize ≤ words.length →
    (j + 1) * cfg.kvcacheBlockSize ≤ others.length → ∀ o < cfg.kvcacheBlockSize,
      (entriesOf entry words)[i * cfg.kvcacheBlockSize + o]? =
        (entriesOf entry others)[j * cfg.kvcacheBlockSize + o]?

theorem Config.CollisionFree.resolves (hfree : cfg.CollisionFree) (entry : List κ → Nat → κ) :
    cfg.Resolves entry := by
  intro words others i j hchain hi hj o ho
  have htake := (chainHash_eq_iff (Function.Injective.injOn hfree : Set.InjOn cfg.xxh64 Set.univ)
    (by simp) (by simp) hi hj).mp hchain
  have hsize := congrArg List.length htake
  rw [List.length_take, List.length_take, Nat.min_eq_left hi, Nat.min_eq_left hj] at hsize
  obtain rfl : i = j := Nat.succ.inj (Nat.eq_of_mul_eq_mul_right cfg.blockSize_pos hsize)
  refine entriesOf_getElem?_congr entry htake ?_
  rw [Nat.succ_mul]
  omega

theorem Config.resolves_const (cfg : Config) (a : κ) : cfg.Resolves fun _ _ => a := by
  intro words others i j _ hi hj o ho
  rw [Nat.succ_mul] at hi hj
  rw [entriesOf_const, entriesOf_const, List.getElem?_replicate_of_lt (by omega),
    List.getElem?_replicate_of_lt (by omega)]

/-- Block `b` holds the entries of the last block of a prefix with digest `h`. -/
def Backed (cfg : Config) (entry : List κ → Nat → κ) (cache : Int → κ) (h b : Nat) : Prop :=
  ∃ words i, chainHash cfg words (i + 1) = some h ∧
    (i + 1) * cfg.kvcacheBlockSize ≤ words.length ∧
    ∀ p, p / cfg.kvcacheBlockSize = i →
      (entriesOf entry words)[p]? = some (cache (blockSlot cfg.kvcacheBlockSize b p))

/-- Every cached position of a live row holds the entry of the row's own prefix, and every
indexed block those of a prefix with its digest. -/
structure Sound (cfg : Config) (entry : List κ → Nat → κ) (s : State) (cache : Int → κ) : Prop where
  chained : ∀ x ∈ s.running ++ s.waiting, s.Chained cfg x
  rows : ∀ x ∈ s.running ++ s.waiting, ∀ p b, s.Holds cfg x p b →
    (entriesOf entry (s.seqs x).tokenIds)[p]? =
      some (cache (blockSlot cfg.kvcacheBlockSize b p))
  index : ∀ h b, s.hashToBlockId.lookup h = some b → Backed cfg entry cache h b

theorem Sound.init (cfg : Config) (entry : List κ → Nat → κ) (cache : Int → κ) :
    Sound cfg entry (State.init cfg) cache where
  chained x hx := absurd hx (by simp [State.init])
  rows x hx := absurd hx (by simp [State.init])
  index h b hb := absurd hb (by simp [State.init])

theorem Sound.filled (h : Sound cfg entry s cache) (hx : x ∈ s.running ++ s.waiting)
    (hcov : (s.seqs x).numCachedTokens ≤ (s.table x).length * cfg.kvcacheBlockSize) :
    Populated entry cache (rowSlot cfg.kvcacheBlockSize (s.table x)) (s.seqs x).tokenIds
      (s.seqs x).numCachedTokens := by
  intro p hp
  have hpage := div_lt_of_lt_mul (hp.trans_le hcov)
  have hb := List.getElem?_eq_getElem hpage
  rw [rowSlot_eq hb]
  exact h.rows x hx p _ ⟨hp, hb⟩

/-- Calls that hash nothing keep the invariant: a row's coverage is kept, or is the prefix that
the index offered for the row's own tokens. -/
theorem Sound.carried (hdigest : cfg.Resolves entry) (hown : Owns cfg s)
    (h : Sound cfg entry s cache) (hc : Carries cfg s t) : Sound cfg entry t cache where
  chained := by
    intro x hx
    rcases hc.rows x hx with ⟨hlive, hkept⟩ | hreused
    · exact (h.chained x hlive).kept hkept
    · exact hreused.chained hown
  rows := by
    intro x hx p b hb
    rcases hc.rows x hx with ⟨hlive, hkept⟩ | hreused
    · exact entriesOf_getElem?_mono (h.rows x hlive p b (hkept.entries p b hb).1) hkept.tokens
    · obtain ⟨hcached, -⟩ := hreused p b hb
      have hfull := hcached.full hown
      obtain ⟨k, hk, hlook, -⟩ := hcached
      obtain ⟨words, i, hchain, hlen, hcells⟩ := h.index k b hlook
      have hmod := Nat.mod_lt p cfg.blockSize_pos
      have hsame := hdigest words (t.seqs x).tokenIds i (p / cfg.kvcacheBlockSize)
        (hchain.trans hk.symm) hlen hfull (p % cfg.kvcacheBlockSize) hmod
      have hdiv : (i * cfg.kvcacheBlockSize + p % cfg.kvcacheBlockSize) /
          cfg.kvcacheBlockSize = i := by
        rw [Nat.mul_comm, Nat.mul_add_div cfg.blockSize_pos, Nat.div_eq_of_lt hmod, Nat.add_zero]
      have hcell := hcells _ hdiv
      unfold blockSlot at hcell
      rw [hsame, Nat.div_add_mod', Nat.mul_add_mod', Nat.mod_mod] at hcell
      exact hcell
  index k b hb := h.index k b (hc.index k b hb).1

structure SpareSlot (cfg : Config) (s : State) (slot : Int) : Prop where
  rows : ∀ x ∈ s.running ++ s.waiting, ∀ p b, s.Holds cfg x p b →
    blockSlot cfg.kvcacheBlockSize b p ≠ slot
  index : ∀ h b, s.hashToBlockId.lookup h = some b →
    ∀ p, blockSlot cfg.kvcacheBlockSize b p ≠ slot

theorem Sound.overwrite (h : Sound cfg entry s cache)
    (hspare : ∀ slot, cache' slot ≠ cache slot → SpareSlot cfg s slot) : Sound cfg entry s cache' where
  chained := h.chained
  rows := by
    intro x hx p b hb
    have hsame : cache' (blockSlot cfg.kvcacheBlockSize b p) =
        cache (blockSlot cfg.kvcacheBlockSize b p) := by
      by_contra hne
      exact (hspare _ hne).rows x hx p b hb rfl
    rw [hsame]
    exact h.rows x hx p b hb
  index := by
    intro k b hb
    obtain ⟨words, i, hchain, hlen, hcells⟩ := h.index k b hb
    refine ⟨words, i, hchain, hlen, fun p hp => ?_⟩
    have hsame : cache' (blockSlot cfg.kvcacheBlockSize b p) =
        cache (blockSlot cfg.kvcacheBlockSize b p) := by
      by_contra hne
      exact (hspare _ hne).index k b hb p rfl
    rw [hsame]
    exact hcells p hp

section Owned

variable (hown : Owns cfg s) (hx : x ∈ s.running ++ s.waiting)

include hown hx

/-- A position behind the cached ones shares its slot with no position of any row. -/
theorem place_unique {y q c : Nat} (hp : (s.seqs x).numCachedTokens ≤ p)
    (hb : (s.table x)[p / cfg.kvcacheBlockSize]? = some b) (hy : y ∈ s.running ++ s.waiting)
    (hc : (s.table y)[q / cfg.kvcacheBlockSize]? = some c)
    (heq : blockSlot cfg.kvcacheBlockSize b p = blockSlot cfg.kvcacheBlockSize c q) :
    y = x ∧ q = p := by
  obtain ⟨rfl, hmod⟩ := blockSlot_inj cfg.blockSize_pos heq
  have hcov : s.coverage cfg x ≤ p / cfg.kvcacheBlockSize := Nat.div_le_div_right hp
  obtain ⟨rfl, hdiv⟩ := uncovered_place hown hx hcov hb hy hc
  exact ⟨rfl, eq_of_div_mod_eq hdiv hmod.symm⟩

theorem spare_of_uncached (hp : (s.seqs x).numCachedTokens ≤ p)
    (hb : (s.table x)[p / cfg.kvcacheBlockSize]? = some b) :
    SpareSlot cfg s (blockSlot cfg.kvcacheBlockSize b p) where
  rows := by
    intro y hy q c hc heq
    obtain ⟨rfl, rfl⟩ := place_unique hown hx hp hb hy hc.entry heq.symm
    exact absurd hc.cached (Nat.not_lt.mpr hp)
  index := by
    intro k c hc q heq
    obtain ⟨rfl, -⟩ := blockSlot_inj cfg.blockSize_pos heq
    have hcov : s.coverage cfg x ≤ p / cfg.kvcacheBlockSize := Nat.div_le_div_right hp
    have hnone := (hown.high x hx _ _ hb hcov).2
    rw [(hown.index k _ hc).2.1] at hnone
    exact absurd hnone (by simp)

end Owned

def State.Ahead (s : State) (cfg : Config) (entry : List κ → Nat → κ) (cache : Int → κ) (x : Nat) :
    Prop :=
  Populated entry cache (rowSlot cfg.kvcacheBlockSize (s.table x)) (s.seqs x).tokenIds
    ((s.seqs x).numCachedTokens + (s.seqs x).numScheduledTokens)

theorem State.Ahead.congr (h : s.Ahead cfg entry cache x) (hrow : (t.seqs x).SameRow (s.seqs x)) :
    t.Ahead cfg entry cache x := by
  unfold State.Ahead State.table at h ⊢
  rw [hrow.tokenIds, hrow.cached, hrow.scheduled, hrow.table]
  exact h

private theorem State.advance_live (s : State) (cfg : Config) (x : Nat) :
    (s.advance cfg x).running ++ (s.advance cfg x).waiting = s.running ++ s.waiting := by
  have hctl := s.advance_control cfg x
  rw [show (s.advance cfg x).running = s.running from congrArg Control.running hctl,
    show (s.advance cfg x).waiting = s.waiting from congrArg Control.waiting hctl]

private theorem Sound.advance (hown : Owns cfg s) (hx : x ∈ s.running ++ s.waiting)
    (hwithin : (s.seqs x).numCachedTokens + (s.seqs x).numScheduledTokens
      ≤ (s.table x).length * cfg.kvcacheBlockSize)
    (hlen : (s.seqs x).numCachedTokens + (s.seqs x).numScheduledTokens ≤ (s.seqs x).numTokens)
    (h : Sound cfg entry s cache) (hahead : s.Ahead cfg entry cache x) :
    Sound cfg entry (s.advance cfg x) cache where
  chained := by
    rw [s.advance_live cfg x]
    exact fun y hy => State.Chained.advance hown hx hwithin hlen h.chained hy
  rows := by
    rw [s.advance_live cfg x]
    intro y hy p b hb
    have hcached := hb.cached
    have hentry := hb.entry
    rw [s.advance_table cfg x] at hentry
    rw [State.advance_seqs] at hcached ⊢
    by_cases hyx : y = x
    · subst hyx
      rw [Function.update_self] at hcached ⊢
      rw [← rowSlot_eq hentry]
      exact hahead p hcached
    · rw [Function.update_of_ne hyx] at hcached ⊢
      exact h.rows y hy p b ⟨hcached, hentry⟩
  index := by
    intro k b hb
    rcases State.advance_index hwithin (h.chained x hx) k with
      ⟨hsame, -⟩ | ⟨j, c, -, hj, hentry, hchain, hlook⟩
    · exact h.index k b (hsame ▸ hb)
    · rw [hlook, Option.some.injEq] at hb
      subst hb
      have hfull := (Nat.le_div_iff_mul_le cfg.blockSize_pos).mp hj
      refine ⟨(s.seqs x).tokenIds, j, hchain, hfull.trans hlen, fun p hp => ?_⟩
      have hlt : p < (j + 1) * cfg.kvcacheBlockSize := by
        rw [← hp]
        exact (Nat.div_lt_iff_lt_mul cfg.blockSize_pos).mp (Nat.lt_succ_self _)
      rw [← hp] at hentry
      rw [← rowSlot_eq hentry]
      exact hahead p (hlt.trans_le hfull)

private theorem Sound.postRow (hdigest : cfg.Resolves entry) (hcore : Core cfg [] s) (hx : s.Served x)
    (h : Sound cfg entry s cache) (hahead : s.Ahead cfg entry cache x) (tokenId : Nat) :
    Sound cfg entry (s.postRow cfg x tokenId) cache := by
  rcases hx with hrun | ⟨hwait, htab⟩
  · have hrow := hcore.started x hrun
    have hlive : x ∈ s.running ++ s.waiting := List.mem_append_left _ hrun
    have hadv := h.advance hcore.owns hlive hrow.within hrow.scheduled_le hahead
    have hown : Owns cfg (s.advance cfg x) := by
      rw [Owns, s.advance_live cfg x]
      exact hcore.owns.advance hlive hrow.within hrow.scheduled_le
    unfold State.postRow
    split <;> rename_i hpart
    · exact hadv
    · have hfull : (s.seqs x).numCachedTokens + (s.seqs x).numScheduledTokens =
          (s.seqs x).numTokens := by
        have := hrow.scheduled_le
        omega
      have happ : Sound cfg entry (s.appended cfg x tokenId) cache :=
        hadv.carried hdigest hown (.appendTokens hown (List.prefix_append _ _) rfl rfl)
      have hown' := (hcore.appended hrun hfull tokenId).owns
      split
      · exact happ.carried hdigest hown' (.retire hown' x)
      · exact happ
  · have hrow := hcore.chunked x hwait htab
    rw [State.postRow, if_pos hrow.scheduled_lt]
    exact h.advance hcore.owns (List.mem_append_right _ hwait) hrow.within hrow.scheduled_lt.le
      hahead

theorem Sound.postRows (hdigest : cfg.Resolves entry) {rows : List (Nat × Nat)}
    (hnd : (rows.map Prod.fst).Nodup) (hcore : Core cfg [] s) (hq : s.Quiet)
    (hserved : ∀ row ∈ rows, s.Served row.1) (h : Sound cfg entry s cache)
    (hahead : ∀ row ∈ rows, s.Ahead cfg entry cache row.1) :
    Sound cfg entry (State.postRows cfg s rows) cache := by
  induction rows generalizing s with
  | nil => exact h
  | cons row rows ih =>
    rw [List.map_cons, List.nodup_cons] at hnd
    have hne : ∀ other ∈ rows, other.1 ≠ row.1 :=
      fun other hmem heq => hnd.1 (List.mem_map.mpr ⟨other, hmem, heq⟩)
    obtain ⟨-, hcore'⟩ := hcore.postprocessRow_served hq (hserved row (by simp)) row.2
    refine ih hnd.2 hcore' ((s.postRow_control cfg row.1 row.2).quiet hq) (fun other hmem => ?_) ?_
      fun other hmem => ?_
    · exact (hserved other (List.mem_cons_of_mem _ hmem)).postRow (hne other hmem)
    · exact h.postRow hdigest hcore (hserved row (by simp)) (hahead row (by simp)) row.2
    · refine (hahead other (List.mem_cons_of_mem _ hmem)).congr ?_
      rw [s.postRow_other cfg row.2 (hne other hmem)]
      exact .refl _

def State.AheadBurst (s : State) (cfg : Config) (entry : List κ → Nat → κ) (cache : Int → κ)
    (row : PreparedRow) : Prop :=
  Populated entry cache (rowSlot cfg.kvcacheBlockSize (s.table row.sequence))
    ((s.seqs row.sequence).tokenIds ++ row.tokens) row.cached

private theorem Sound.commitOne (hdigest : cfg.Resolves entry) {row : PreparedRow} (hcore : Core cfg [] s)
    (hx : row.sequence ∈ s.running) (hfit : Fits cfg (s.seqs row.sequence) row)
    (h : Sound cfg entry s cache) (hahead : s.AheadBurst cfg entry cache row) :
    Sound cfg entry (s.commitOne cfg row) cache := by
  have happc : Core cfg [] (s.appendBurst row) := hcore.appendBurst hx hfit
  have hburst := hcore.burst hx hfit
  have hlive : row.sequence ∈ s.running ++ s.waiting := List.mem_append_left _ hx
  have happ : Sound cfg entry (s.appendBurst row) cache :=
    h.carried hdigest hcore.owns (.appendTokens hcore.owns (List.prefix_append _ _) rfl rfl)
  have hrow := happc.started row.sequence hx
  have hself : (s.appendBurst row).seqs row.sequence = { s.seqs row.sequence with
      tokenIds := (s.seqs row.sequence).tokenIds ++ row.tokens
      numScheduledTokens := row.cached - (s.seqs row.sequence).numCachedTokens } :=
    Function.update_self ..
  have hready : (s.appendBurst row).Ahead cfg entry cache row.sequence := by
    unfold State.Ahead State.table
    rw [hself]
    dsimp only
    rw [Nat.add_sub_cancel' hfit.cached_le]
    exact hahead
  have hadv := happ.advance happc.owns hlive hrow.within hrow.scheduled_le hready
  have hown : Owns cfg ((s.appendBurst row).advance cfg row.sequence) := by
    rw [Owns, State.advance_live]
    exact happc.owns.advance hlive hrow.within hrow.scheduled_le
  have hdone : Sound cfg entry (s.burst cfg row) cache := by
    rw [State.burst_eq_advance hfit]
    exact hadv.carried hdigest hown (.appendTokens hown (List.prefix_refl _) rfl rfl)
  unfold State.commitOne
  split
  · exact hdone.carried hdigest hburst.owns (.retire hburst.owns row.sequence)
  · exact hdone

theorem Sound.commitAll (hdigest : cfg.Resolves entry) {prepared : List PreparedRow}
    (hcore : Core cfg [] s) (hb : Bursts cfg s prepared) (h : Sound cfg entry s cache)
    (hahead : ∀ row ∈ prepared, s.AheadBurst cfg entry cache row) :
    Sound cfg entry (s.commitAll cfg prepared) cache := by
  induction prepared generalizing s with
  | nil => exact h
  | cons row prepared ih =>
    have hx := hb.running row (by simp)
    have hfit := hb.fits row (by simp)
    have hnd := hb.distinct
    rw [List.map_cons, List.nodup_cons] at hnd
    refine ih (hcore.commitOne hx hfit) hb.tail
      (h.commitOne hdigest hcore hx hfit (hahead row (by simp))) fun other hmem => ?_
    have hne : other.sequence ≠ row.sequence := fun heq => hnd.1 (heq ▸ List.mem_map_of_mem hmem)
    have hold := hahead other (List.mem_cons_of_mem _ hmem)
    unfold State.AheadBurst State.table at hold ⊢
    rw [s.commitOne_seqs_out cfg hne]
    exact hold

end NanoVllm
