/- module: NanoVllm/Content/Moves
   layer: refinement
   source: nanovllm/engine/scheduler.py, add, schedule, preempt, cancel and the rollbacks
   digest: Every call but the two that commit tokens carries the cached content along. -/

import NanoVllm.Content.Carried
import NanoVllm.Runs.Invariants

set_option autoImplicit false
set_option relaxedAutoImplicit false

namespace NanoVllm

open Library

variable {cfg : Config} {live live' held held' : List Nat} {s t u : State} {x b : Nat}
  {distinct : Prop} {cov : Nat → Nat}

theorem Empties.released (h : Empties [] s t) (hown : OwnIf distinct cfg live s.table cov s)
    (hbare : t.table x = []) (hother : ∀ y, y ≠ x → t.seqs y = s.seqs y)
    (hlive : ∀ y ∈ live', y ∈ live) : Carried cfg live s live' t := by
  refine h.carried fun y hy => ?_
  by_cases hyx : y = x
  · exact Or.inr (.of_bare (hyx ▸ hbare))
  · have hsame := hother y hyx
    refine Or.inl ⟨hlive y hy, h.kept hown (by simp) (hlive y hy) ?_ ?_ ?_⟩
    · rw [hsame]
    · rw [hsame]
    · intro i b _ hi
      rwa [State.table, hsame] at hi

private theorem Carried.evict (hown : OwnIf distinct cfg live s.table cov s) (x : Nat)
    (hlive : ∀ y ∈ live', y ∈ live) : Carried cfg live s live' (s.evict x) := by
  refine (s.evict_empties x).released hown (x := x) ?_ ?_ hlive
  · rw [State.evict_table, Function.update_self]
  · intro y hyx
    rw [State.evict_seqs, Function.update_of_ne hyx]

theorem State.forget_empties (s : State) (x : Nat) : Empties [] s (s.forget x) := by
  have hstep : ∀ t : State, Empties [] s t → Empties [] s
      ((((t.withRunning (s.running.erase x)).withWaiting (s.waiting.erase x)).clearMid x).setSeq x
        { t.seqs x with
          numScheduledTokens := 0
          numDraftCachedTokens := 0
          status := .cancelled }) := by
    intro t ht
    obtain ⟨hblocks, hindex, -, -⟩ :=
      ((t.withRunning (s.running.erase x)).withWaiting (s.waiting.erase x)).clearMid_pool x
    exact ht.congr hblocks hindex
  unfold State.forget
  split
  · exact (hstep s (.of_eq rfl rfl)).congr rfl rfl
  · exact (hstep _ (s.release_empties x)).congr rfl rfl

theorem Carried.forget (hown : OwnIf distinct cfg live s.table cov s) (x : Nat)
    (hlive : ∀ y ∈ live', y ∈ live) : Carried cfg live s live' (s.forget x) := by
  obtain ⟨cached, hseqs⟩ := s.forget_seqs x
  refine (s.forget_empties x).released hown (x := x) ?_ ?_ hlive
  · rw [State.table, hseqs, Function.update_self]
  · intro y hyx
    rw [hseqs, Function.update_of_ne hyx]

theorem Core.covered (h : Core cfg held s) (hx : x ∈ held ++ s.running ++ s.waiting)
    (hne : s.table x ≠ []) :
    (s.seqs x).numCachedTokens ≤ (s.table x).length * cfg.kvcacheBlockSize := by
  rcases List.mem_append.mp hx with hx | hx
  · exact (Nat.le_add_right _ _).trans (h.started x hx).within
  · exact (Nat.le_add_right _ _).trans (h.chunked x hx hne).within

theorem getElem?_of_covered {table more : List Nat} {i n : Nat}
    (hcov : n ≤ table.length * cfg.kvcacheBlockSize) (hi : i * cfg.kvcacheBlockSize < n)
    (h : (table ++ more)[i]? = some b) : table[i]? = some b := by
  have hlt : i < table.length := by
    by_contra hge
    have := Nat.mul_le_mul_right cfg.kvcacheBlockSize (Nat.le_of_not_lt hge)
    omega
  rwa [List.getElem?_append_left hlt] at h

theorem Carried.lend {rows : List (Nat × List Nat)} (hown : OwnIf distinct cfg live s.table cov s)
    (hfree : ∀ b ∈ lentBlocks rows, b ∈ s.freeBlockIds)
    (hcov : ∀ y ∈ live, lentTo rows y ≠ [] →
      (s.seqs y).numCachedTokens ≤ (s.table y).length * cfg.kvcacheBlockSize) :
    Carried cfg live s live (s.lend rows) := by
  have hempties := s.lend_empties rows
  refine hempties.carried fun y hy => Or.inl ⟨hy, hempties.kept hown hfree hy ?_ rfl ?_⟩
  · exact List.prefix_refl _
  · intro i c hi hc
    rw [State.lend_table] at hc
    by_cases hnil : lentTo rows y = []
    · rwa [hnil, List.append_nil] at hc
    · exact getElem?_of_covered (hcov y hy hnil) hi hc

private theorem Carried.claimN (hown : OwnIf distinct cfg live s.table cov s) {n : Nat}
    (hcov : (s.seqs x).numCachedTokens ≤ (s.table x).length * cfg.kvcacheBlockSize) :
    Carried cfg live s live (s.claimN x n) := by
  rw [State.claimN_eq_lend hown.poolOk]
  refine .lend hown ?_ ?_
  · intro b hb
    rw [lentBlocks_cons, lentBlocks_nil, List.append_nil] at hb
    exact List.mem_of_mem_take hb
  · intro y _ hne
    by_cases hyx : x = y
    · exact hyx ▸ hcov
    · exact absurd (by simp [hyx]) hne

private theorem Carried.setSeq {q : Sequence} (htok : q.tokenIds = (s.seqs x).tokenIds)
    (hcached : q.numCachedTokens = (s.seqs x).numCachedTokens) (htab : q.blockTable = s.table x)
    (hlive : ∀ y ∈ live', y ∈ live) : Carried cfg live s live' (s.setSeq x q) := by
  refine .recast rfl rfl fun y hy => ⟨hlive y hy, ?_⟩
  rw [State.table, State.setSeq_seqs]
  by_cases hyx : y = x
  · subst hyx
    rw [Function.update_self]
    exact ⟨htok, hcached, htab⟩
  · rw [Function.update_of_ne hyx]
    exact ⟨rfl, rfl, rfl⟩

private theorem State.setSeq_lend_self (s : State) (x : Nat) (rows : List (Nat × List Nat))
    (cached draft : Nat) :
    (s.lend rows).setSeq x { (s.lend rows).seqs x with
      numCachedTokens := cached
      numDraftCachedTokens := draft } =
      (s.setSeq x { s.seqs x with
        numCachedTokens := cached
        numDraftCachedTokens := draft }).lend rows := by
  apply State.ext_control <;> try rfl
  funext y
  by_cases hyx : y = x
  · subst hyx
    simp [State.lend, State.table]
  · simp [State.lend, State.table, hyx]

/-- A fresh row takes its first blocks from the index and the others from the free list. -/
private theorem Carried.allotBlocks {ids : List Nat} {k n : Nat}
    (hown : OwnIf cfg.CollisionFree cfg live s.table cov s) (hx : x ∈ live) (htab : s.table x = [])
    (hpin : Pinnable cfg.CollisionFree s x cov ids)
    (hchain : cachedChain cfg s (s.seqs x) (List.range k) none = .ok ids) :
    Carried cfg live s live (s.allotBlocks cfg x ids n) := by
  obtain ⟨v, hv⟩ : ∃ v, v = (s.pinAll x ids).setSeq x { (s.pinAll x ids).seqs x with
      numCachedTokens := ids.length * cfg.kvcacheBlockSize
      numDraftCachedTokens := 0 } := ⟨_, rfl⟩
  have hpinned := hown.pinAll hx hpin
  have hvown : OwnIf cfg.CollisionFree cfg live v.table cov v := by
    rw [hv]
    exact hpinned.setRow rfl
  have hvrow : v.seqs x = { s.seqs x with
      blockTable := ids
      numCachedTokens := ids.length * cfg.kvcacheBlockSize
      numDraftCachedTokens := 0 } := by
    rw [hv, State.setSeq_seqs, Function.update_self, State.pinAll_seqs, Function.update_self, htab,
      List.nil_append]
  have hallot : s.allotBlocks cfg x ids n = v.claimN x n := by
    unfold State.allotBlocks
    rw [State.claimN_eq_lend hpinned.poolOk, State.claimN_eq_lend hvown.poolOk, hv]
    exact State.setSeq_lend_self _ x _ _ _
  have hempties : Empties [] s v := by
    refine .of_content (fun b => ?_) ?_
    · have hcontent := State.pinAll_content x ids s b
      rw [hv]
      exact hcontent.congr rfl rfl
    · rw [hv]
      exact s.pinAll_index x ids
  have hreuse : Carried cfg live s live v := by
    refine hempties.carried fun y hy => ?_
    by_cases hyx : y = x
    · subst hyx
      refine Or.inr fun p b hb => ⟨?_, hempties.same b (by simp)⟩
      have hentry := hb.entry
      rw [State.table, hvrow] at hentry
      rw [List.range_eq_range'] at hchain
      have hcached := (cachedChain_entries (i := 0) hchain).2 _ b hentry
      rw [Nat.zero_add] at hcached
      rw [hvrow]
      exact hcached
    · have hseq : v.seqs y = s.seqs y := by
        rw [hv, State.setSeq_seqs, Function.update_of_ne hyx, State.pinAll_seqs,
          Function.update_of_ne hyx]
      refine Or.inl ⟨hy, hempties.kept hown (by simp) hy ?_ ?_ ?_⟩
      · rw [hseq]
      · rw [hseq]
      · intro i b _ hi
        rwa [State.table, hseq] at hi
  rw [hallot]
  refine hreuse.trans hown (.claimN hvown ?_)
  rw [State.table, hvrow]

variable {room m : Nat}

private theorem Allots.carried (ha : Allots cfg s x room m t) (hq : s.Quiet)
    (hown : OwnIf cfg.CollisionFree cfg live s.table (s.coverage cfg) s) (hx : x ∈ live)
    (hpos : 0 < (s.seqs x).numTokens) (hroom : 0 < room)
    (hcov : s.table x ≠ [] →
      (s.seqs x).numCachedTokens ≤ (s.table x).length * cfg.kvcacheBlockSize) :
    Carried cfg live s live t := by
  have hmark : Carried cfg live s live (s.setScheduled x m) :=
    .setSeq rfl rfl rfl fun _ hy => hy
  cases ha with
  | @fresh k _ ids htab hcan hchain hids hm =>
    obtain ⟨ids', hchain', -, hpin, hset, -, -⟩ :=
      Allots.fresh_room hq hown hx htab hpos hroom hcan hm
    obtain rfl : ids' = ids := by
      rw [hchain] at hchain'
      exact (Except.ok.inj hchain').symm
    have htab' : (s.setScheduled x m).table x = [] := by
      rw [State.setScheduled_table, htab]
    have hchain'' : cachedChain cfg (s.setScheduled x m) ((s.setScheduled x m).seqs x)
        (List.range k) none = .ok ids' := by
      rw [← hchain]
      refine cachedChain_congr (s := s) (t := s.setScheduled x m) rfl rfl ?_ _ _
      rw [State.setScheduled, State.setSeq_seqs, Function.update_self]
    exact hmark.trans hown (.allotBlocks hset hx htab' hpin hchain'')
  | resumed htab hm hfit =>
    have hset : OwnIf cfg.CollisionFree cfg live (s.setScheduled x m).table (s.coverage cfg)
        (s.setScheduled x m) := hown.setRow rfl
    refine hmark.trans hown (.claimN hset ?_)
    have hrow : ((s.setScheduled x m).seqs x).numCachedTokens = (s.seqs x).numCachedTokens := by
      simp [State.setScheduled]
    rw [hrow, State.setScheduled_table]
    exact hcov htab

private theorem Carried.evictFrom (hown : OwnIf distinct cfg live s.table cov s) (r w : List Nat)
    (x : Nat)
    (hlive : ∀ y ∈ live', y ∈ live) :
    Carried cfg live s live' (((s.withRunning r).withWaiting w).evict x) := by
  have hqueues : Carried cfg live s live ((s.withRunning r).withWaiting w) :=
    .recast rfl rfl fun y hy => ⟨hy, rfl, rfl, rfl⟩
  have hown' : OwnIf distinct cfg live ((s.withRunning r).withWaiting w).table cov
      ((s.withRunning r).withWaiting w) := hown.congr_pool rfl rfl rfl rfl
  exact hqueues.trans hown (.evict hown' x hlive)

private theorem DecodeMove.carried {c c' : Cursor} (hm : DecodeMove cfg c c') (hgood : c.Good cfg) :
    Carried cfg (c.rows ++ c.st.running ++ c.st.waiting) c.st
      (c'.rows ++ c'.st.running ++ c'.st.waiting) c'.st := by
  have hown := hgood.2.own
  cases hm with
  | @take done rest x s hrun hcap =>
    refine .recast rfl rfl fun y hy => ⟨?_, rfl, rfl, rfl⟩
    simpa [Cursor.rows, hrun, or_assoc] using hy
  | @evictMid done rest x w s hfull hmid hwait =>
    refine Carried.evictFrom (s := s) hown s.running rest w fun y hy => ?_
    simpa [Cursor.rows, State.evict_running, State.evict_waiting, hwait, or_assoc, or_comm]
      using hy
  | @evictLast done rest x v s hfull hmid hrun =>
    refine Carried.evictFrom (s := s) hown rest s.waiting v fun y hy => ?_
    simp only [Cursor.rows, State.evict_running, State.evict_waiting, hrun, List.mem_append,
      State.withRunning_running, State.withRunning_waiting] at hy ⊢
    tauto
  | @evictSelf done x s hfull hmid hrun =>
    refine Carried.evict hown x fun y hy => ?_
    simp only [Cursor.rows, State.evict_running, State.evict_waiting, hrun, List.mem_append,
      Option.toList_some, Option.toList_none, List.append_nil] at hy ⊢
    tauto
  | @grant done x s hroom =>
    obtain ⟨q, hq⟩ : ∃ q : Sequence, q = { s.seqs x with
        numScheduledTokens := 1
        isPrefill := false } := ⟨_, rfl⟩
    have hset : OwnIf cfg.CollisionFree cfg (Cursor.rows ⟨done, some x, s⟩ ++ s.running ++ s.waiting)
        (s.setSeq x q).table (s.coverage cfg) (s.setSeq x q) := hown.setRow (by rw [hq]; rfl)
    have hmark : Carried cfg (Cursor.rows ⟨done, some x, s⟩ ++ s.running ++ s.waiting) s
        (Cursor.rows ⟨done, some x, s⟩ ++ s.running ++ s.waiting) (s.setSeq x q) :=
      .setSeq (by rw [hq]) (by rw [hq]) (by rw [hq]; rfl) fun _ hy => hy
    have hgrant : (s.setSeq x q).claimN x (appendNeed cfg (s.seqs x).numTokens) =
        s.grant cfg x := by
      rw [hq]
      rfl
    have hctl := s.grant_control cfg x
    have hrow : (s.setSeq x q).seqs x = q := by simp
    have hcov : ((s.setSeq x q).seqs x).numCachedTokens ≤
        ((s.setSeq x q).table x).length * cfg.kvcacheBlockSize := by
      have hstarted := hgood.2.started x (by simp [Cursor.rows])
      rw [State.table, hrow, hq]
      exact (Nat.le_add_right _ _).trans hstarted.within
    have hgrow := hmark.trans hown (.claimN (n := appendNeed cfg (s.seqs x).numTokens) hset hcov)
    rw [hgrant] at hgrow
    refine (hgrow.perm (fun _ hy => hy) fun y hy => ?_).congr rfl rfl rfl rfl rfl rfl
    have hrun : (s.grant cfg x).running = s.running := congrArg Control.running hctl
    have hwait : (s.grant cfg x).waiting = s.waiting := congrArg Control.waiting hctl
    change y ∈ (done ++ [x]) ++ [] ++ (s.grant cfg x).running ++ (s.grant cfg x).waiting at hy
    rwa [hrun, hwait, List.append_nil] at hy

private theorem DecodeWalk.carried {c c' : Cursor} (hw : DecodeWalk cfg c c') (hgood : c.Good cfg) :
    Carried cfg (c.rows ++ c.st.running ++ c.st.waiting) c.st
      (c'.rows ++ c'.st.running ++ c'.st.waiting) c'.st := by
  induction hw with
  | refl => exact .refl cfg _ _
  | tail hw hm ih => exact ih.trans hgood.2.own (hm.carried (DecodeWalk.good hw hgood))

private theorem State.joinRunning_same (s : State) (x : Nat) :
    (s.joinRunning x).blocks = s.blocks ∧ (s.joinRunning x).hashToBlockId = s.hashToBlockId ∧
      ∀ y, ((s.joinRunning x).seqs y).SameRow (s.seqs y) := by
  obtain ⟨hblocks, hindex, -, -⟩ := s.clearMid_pool x
  refine ⟨hblocks, hindex, fun y => ?_⟩
  have hseqs : (s.joinRunning x).seqs = Function.update s.seqs x
      { s.seqs x with status := .running } := by
    change Function.update (s.clearMid x).seqs x _ = _
    rw [State.clearMid_seqs]
  rw [hseqs]
  by_cases hyx : y = x
  · subst hyx
    rw [Function.update_self]
    exact ⟨rfl, rfl, rfl, rfl⟩
  · rw [Function.update_of_ne hyx]
    exact .refl _

theorem Carried.sameRows (hblocks : t.blocks = s.blocks) (hindex : t.hashToBlockId = s.hashToBlockId)
    (hrow : ∀ y, (t.seqs y).SameRow (s.seqs y)) (hlive : ∀ y ∈ live', y ∈ live) :
    Carried cfg live s live' t :=
  .recast hblocks hindex fun y hy =>
    ⟨hlive y hy, (hrow y).tokenIds, (hrow y).cached, (hrow y).table⟩

section Fill

variable {acc acc' rest : List Nat} {batched : Nat}

private theorem State.Ready.own (h : s.Ready cfg) :
    OwnIf cfg.CollisionFree cfg (s.running ++ s.waiting) s.table (s.coverage cfg) s := by
  have hown := h.2.own
  rwa [List.nil_append] at hown

private theorem State.Ready.allot_carried (h : s.Ready cfg) (hwait : s.waiting = x :: rest)
    (hroom : 0 < room) (ha : Allots cfg s x room m t) :
    Carried cfg (s.running ++ s.waiting) s (s.running ++ s.waiting) t := by
  have hmem : x ∈ s.waiting := by
    rw [hwait]
    exact List.mem_cons_self
  refine ha.carried h.1.toQuiet h.own (List.mem_append_right _ hmem) (h.2.nonempty x hmem) hroom ?_
  exact fun hne => h.2.covered (List.mem_append_right _ hmem) hne

private theorem State.Ready.sendBack_carried (h : s.Ready cfg) (hwait : s.waiting = x :: rest) :
    Carried cfg (s.running ++ s.waiting) s
      ((s.sendBack x rest).running ++ (s.sendBack x rest).waiting) (s.sendBack x rest) := by
  have hmark : Carried cfg (s.running ++ s.waiting) s (s.running ++ s.waiting)
      (s.setScheduled x 0) := .setSeq rfl rfl rfl fun _ hy => hy
  have hset : OwnIf cfg.CollisionFree cfg (s.running ++ s.waiting) (s.setScheduled x 0).table
      (s.coverage cfg) (s.setScheduled x 0) := h.own.setRow rfl
  refine hmark.trans h.own (.evictFrom hset s.running rest x fun y hy => ?_)
  change y ∈ (((s.setScheduled x 0).withWaiting rest).evict x).running ++
    (((s.setScheduled x 0).withWaiting rest).evict x).waiting at hy
  rw [State.evict_running, State.evict_waiting] at hy
  change y ∈ s.running ++ (rest ++ [x]) at hy
  rw [hwait]
  simp only [List.mem_append, List.mem_cons, List.not_mem_nil, or_false] at hy ⊢
  tauto

private theorem Fills.carried (hf : Fills cfg acc batched s acc' u) (h : s.Ready cfg) :
    Carried cfg (s.running ++ s.waiting) s (u.running ++ u.waiting) u := by
  induction hf with
  | stop _ => exact .refl cfg _ _
  | refuse _ _ _ _ _ => exact .refl cfg _ _
  | @full acc rest acc' batched x m s t u hwait _ hbudget hallot hfull _ ih =>
    have ha := h.allotted hwait (by omega) hallot
    have hready := (h.joined hwait ha hfull).record (.scheduled x)
    have hgrow := h.allot_carried hwait (by omega) hallot
    obtain ⟨hblocks, hindex, hrow⟩ := t.joinRunning_same x
    have hctl := t.joinRunning_control x
    have hjoin : Carried cfg (s.running ++ s.waiting) t
        (((t.joinRunning x).record (.scheduled x)).running ++
          ((t.joinRunning x).record (.scheduled x)).waiting)
        ((t.joinRunning x).record (.scheduled x)) := by
      refine .sameRows hblocks hindex hrow fun y hy => ?_
      have hrun : (t.joinRunning x).running = t.running ++ [x] := congrArg Control.running hctl
      have hwait' : (t.joinRunning x).waiting = t.waiting.tail := congrArg Control.waiting hctl
      change y ∈ (t.joinRunning x).running ++ (t.joinRunning x).waiting at hy
      rw [hrun, hwait', show t.running = s.running from congrArg Control.running ha.control,
        show t.waiting = s.waiting from congrArg Control.waiting ha.control, hwait] at hy
      rw [hwait]
      simp only [List.mem_append, List.tail_cons, List.mem_cons, List.not_mem_nil, or_false] at hy ⊢
      tauto
    exact (hgrow.trans h.own hjoin).trans h.own (ih hready)
  | @chunk acc rest batched x m s t hwait _ hbudget hallot hpart =>
    have ha := h.allotted hwait (by omega) hallot
    refine ((h.allot_carried hwait (by omega) hallot).perm (fun _ hy => hy) fun y hy => ?_).congr
      rfl rfl rfl rfl rfl rfl
    change y ∈ t.running ++ t.waiting at hy
    rwa [show t.running = s.running from congrArg Control.running ha.control,
      show t.waiting = s.waiting from congrArg Control.waiting ha.control] at hy
  | sendBackStop hwait _ _ _ _ _ _ => exact h.sendBack_carried hwait
  | sendBack hwait _ htab _ _ _ ih =>
    exact (h.sendBack_carried hwait).trans h.own (ih (h.sendBack hwait htab).1)

end Fill

theorem Schedules.carried {done batch : List Nat} (hs : Schedules cfg s done t batch u)
    (h : s.Ready cfg) : Carried cfg (s.running ++ s.waiting) s (u.running ++ u.waiting) u := by
  have hgood := DecodeWalk.good hs.walk h.good
  have hwalk := DecodeWalk.carried hs.walk h.good
  have hready := Cursor.Good.rejoin hgood
  have hstart : Carried cfg (s.running ++ s.waiting) s (done ++ t.running ++ t.waiting) t := by
    refine hwalk.perm (fun y hy => ?_) fun y hy => ?_
    · simpa [Cursor.rows] using hy
    · simpa [Cursor.rows] using hy
  have hjoin : Carried cfg (s.running ++ s.waiting) s
      ((t.withRunning (done ++ t.running)).running ++ (t.withRunning (done ++ t.running)).waiting)
      (t.withRunning (done ++ t.running)) := hstart.congr rfl rfl rfl rfl rfl rfl
  exact hjoin.trans h.own (hs.fills.carried hready)

end NanoVllm
