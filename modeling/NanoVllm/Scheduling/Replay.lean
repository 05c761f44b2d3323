/- module: NanoVllm/Scheduling/Replay
   layer: refinement
   source: nanovllm/engine/scheduler.py, schedule and rollback_failed_decode_schedule
   digest: A pure decode schedule is its preemptions, with the appended blocks lent on top. -/

import NanoVllm.Scheduling.Staged
import NanoVllm.Speculation.Undo

set_option autoImplicit false
set_option relaxedAutoImplicit false

namespace NanoVllm

open Library

variable {cfg : Config} {s t u v : State} {rows : List (Nat × List Nat)} {x : Nat}

structure SamePool (s t : State) : Prop where
  seqs : s.seqs = t.seqs
  blocks : s.blocks = t.blocks
  index : s.hashToBlockId = t.hashToBlockId
  free : s.freeBlockIds = t.freeBlockIds
  used : s.usedBlockIds = t.usedBlockIds

private theorem SamePool.refl (s : State) : SamePool s s := ⟨rfl, rfl, rfl, rfl, rfl⟩

private theorem SamePool.of_eq (h : s = t) : SamePool s t := h ▸ .refl s

theorem SamePool.symm (h : SamePool s t) : SamePool t s :=
  ⟨h.seqs.symm, h.blocks.symm, h.index.symm, h.free.symm, h.used.symm⟩

theorem SamePool.trans (h : SamePool s t) (h' : SamePool t u) : SamePool s u :=
  ⟨h.seqs.trans h'.seqs, h.blocks.trans h'.blocks, h.index.trans h'.index, h.free.trans h'.free,
    h.used.trans h'.used⟩

instance : Trans SamePool SamePool SamePool := ⟨SamePool.trans⟩

theorem SamePool.withControl (s : State) (c : Control) : SamePool (s.withControl c) s :=
  ⟨rfl, rfl, rfl, rfl, rfl⟩

theorem SamePool.eq_withControl (h : SamePool s t) : s = t.withControl s.control :=
  State.ext_control h.seqs h.blocks h.index h.free h.used rfl

private theorem SamePool.releaseBlock (h : SamePool s t) (b : Nat) :
    SamePool (s.releaseBlock b) (t.releaseBlock b) where
  seqs := by rw [State.releaseBlock_seqs, State.releaseBlock_seqs, h.seqs]
  blocks := by rw [State.releaseBlock_blocks, State.releaseBlock_blocks, h.blocks]
  index := by rw [State.releaseBlock_index, State.releaseBlock_index, h.index]
  free := by rw [State.releaseBlock_free, State.releaseBlock_free, h.blocks, h.free]
  used := by rw [State.releaseBlock_used, State.releaseBlock_used, h.blocks, h.used]

private theorem SamePool.releaseAll (ids : List Nat) (h : SamePool s t) :
    SamePool (s.releaseAll ids) (t.releaseAll ids) := by
  induction ids generalizing s t with
  | nil => exact h
  | cons b ids ih => exact ih (h.releaseBlock b)

theorem SamePool.setSeq (h : SamePool s t) (x : Nat) (q : Sequence) :
    SamePool (s.setSeq x q) (t.setSeq x q) where
  seqs := by rw [State.setSeq_seqs, State.setSeq_seqs, h.seqs]
  blocks := h.blocks
  index := h.index
  free := h.free
  used := h.used

private theorem SamePool.release (h : SamePool s t) (x : Nat) :
    SamePool (s.release x) (t.release x) := by
  have htab : s.table x = t.table x := congrArg Sequence.blockTable (congrFun h.seqs x)
  have hall := SamePool.releaseAll (s.table x).reverse h
  have hset := hall.setSeq x { (s.releaseAll (s.table x).reverse).seqs x with
    numCachedTokens := 0
    numDraftCachedTokens := 0
    blockTable := [] }
  unfold State.release
  dsimp only
  rw [← htab, ← congrFun hall.seqs x]
  exact hset

def State.parked (s : State) (x : Nat) : State :=
  (s.setSeq x { s.seqs x with status := .waiting, isPrefill := true }).release x

private theorem SamePool.parked (h : SamePool s t) (x : Nat) : SamePool (s.parked x) (t.parked x) := by
  unfold State.parked
  rw [congrFun h.seqs x]
  exact (h.setSeq x _).release x

private theorem State.evict_pool (s : State) (x : Nat) : SamePool (s.evict x) (s.parked x) := by
  have hclear : SamePool (s.clearMid x) s := by
    unfold State.clearMid
    split
    · exact .withControl s { s.control with midChunkSeq := none }
    · exact .refl s
  have hrel := (hclear.setSeq x
    { s.seqs x with status := .waiting, isPrefill := true }).release x
  exact ⟨hrel.seqs, hrel.blocks, hrel.index, hrel.free, hrel.used⟩

private theorem State.releaseBlock_lend (s : State) {b : Nat} (hb : b ∉ lentBlocks rows) :
    (s.lend rows).releaseBlock b = (s.releaseBlock b).lend rows := by
  have hblock : (s.lend rows).blocks b = s.blocks b := by simp [State.lend, hb]
  apply State.ext_control
  · rw [State.releaseBlock_seqs]
    simp only [State.lend, State.table, State.releaseBlock_seqs]
  · rw [State.releaseBlock_blocks, hblock]
    funext c
    by_cases hcb : c = b
    · subst hcb
      simp [State.lend, hb, State.releaseBlock_blocks]
    · simp [State.lend, State.releaseBlock_blocks, hcb]
  · rw [State.releaseBlock_index]
    simp only [State.lend, State.releaseBlock_index]
  · rw [State.releaseBlock_free, hblock]
    simp only [State.lend, State.releaseBlock_free]
    split
    · simp [List.filter_append, hb]
    · rfl
  · rw [State.releaseBlock_used, hblock]
    simp only [State.lend, State.releaseBlock_used]
    split
    · have hlent : b ∉ (lentBlocks rows).toFinset := by simpa using hb
      rw [Finset.erase_union_distrib, Finset.erase_eq_of_notMem hlent]
    · rfl
  · rw [State.releaseBlock_control, State.lend_control, State.lend_control,
      State.releaseBlock_control]

private theorem State.releaseAll_lend (s : State) {ids : List Nat}
    (h : ∀ b ∈ ids, b ∉ lentBlocks rows) :
    (s.lend rows).releaseAll ids = (s.releaseAll ids).lend rows := by
  induction ids generalizing s with
  | nil => rfl
  | cons b ids ih =>
    change ((s.lend rows).releaseBlock b).releaseAll ids = _
    rw [s.releaseBlock_lend (h b (by simp)), ih _ fun c hc => h c (List.mem_cons_of_mem b hc)]
    rfl

private theorem State.setSeq_lend (s : State) (hx : x ∉ rows.map Prod.fst) (q : Sequence) :
    (s.lend rows).setSeq x q = (s.setSeq x q).lend rows := by
  apply State.ext_control <;> try rfl
  funext y
  by_cases hyx : y = x
  · subst hyx
    simp [State.lend, State.table, lentTo_eq_nil hx]
  · simp [State.lend, State.table, hyx]

private theorem State.release_lend (s : State) (hx : x ∉ rows.map Prod.fst)
    (htab : ∀ b ∈ s.table x, b ∉ lentBlocks rows) :
    (s.lend rows).release x = (s.release x).lend rows := by
  have htable : (s.lend rows).table x = s.table x := by
    rw [State.lend_table, lentTo_eq_nil hx, List.append_nil]
  have hall : (s.lend rows).releaseAll (s.table x).reverse =
      (s.releaseAll (s.table x).reverse).lend rows :=
    s.releaseAll_lend fun b hb => htab b (List.mem_reverse.mp hb)
  obtain ⟨t, ht⟩ : ∃ t, t = s.releaseAll (s.table x).reverse := ⟨_, rfl⟩
  have hrow : (t.lend rows).seqs x = t.seqs x := by
    simp [State.lend, lentTo_eq_nil hx, State.table]
  unfold State.release
  dsimp only
  rw [htable, hall, ← ht, hrow]
  exact t.setSeq_lend hx _

private theorem State.parked_lend (s : State) (hx : x ∉ rows.map Prod.fst)
    (htab : ∀ b ∈ s.table x, b ∉ lentBlocks rows) :
    (s.lend rows).parked x = (s.parked x).lend rows := by
  have hrow : (s.lend rows).seqs x = s.seqs x := by
    simp [State.lend, lentTo_eq_nil hx, State.table]
  unfold State.parked
  rw [hrow, s.setSeq_lend hx]
  apply State.release_lend _ hx
  intro b hb
  rw [State.setSeq_table, Function.update_self] at hb
  exact htab b hb

def State.sendAway (s : State) (x : Nat) : State :=
  ((s.withRunning (s.running.erase x)).withWaiting (s.waiting.erase x)).evict x

def State.preemptAll (s : State) (victims : List Nat) : State := victims.foldl State.sendAway s

def State.markDecode (s : State) (xs : List Nat) : State :=
  { s with
    seqs := fun y => if y ∈ xs then { s.seqs y with numScheduledTokens := 1, isPrefill := false }
      else s.seqs y }

private theorem SamePool.requeue (s : State) (r w : List Nat) :
    SamePool ((s.withRunning r).withWaiting w) s := ⟨rfl, rfl, rfl, rfl, rfl⟩

private theorem State.sendAway_pool (s : State) (x : Nat) : SamePool (s.sendAway x) (s.parked x) :=
  (State.evict_pool _ x).trans ((SamePool.requeue s _ _).parked x)

private theorem State.preemptAll_concat (s : State) (victims : List Nat) (x : Nat) :
    s.preemptAll (victims ++ [x]) = (s.preemptAll victims).sendAway x := by
  rw [State.preemptAll, List.foldl_append]
  rfl

private theorem SamePool.markDecode (h : SamePool s t) (xs : List Nat) :
    SamePool (s.markDecode xs) (t.markDecode xs) where
  seqs := by
    unfold State.markDecode
    rw [h.seqs]
  blocks := h.blocks
  index := h.index
  free := h.free
  used := h.used

private theorem SamePool.lend (h : SamePool s t) (rows : List (Nat × List Nat)) :
    SamePool (s.lend rows) (t.lend rows) where
  seqs := by simp only [State.lend, State.table, h.seqs]
  blocks := by simp only [State.lend, h.blocks]
  index := by simp only [State.lend, h.index]
  free := by simp only [State.lend, h.free]
  used := by simp only [State.lend, h.used]

private theorem State.markDecode_seqs_out {xs : List Nat} (hx : x ∉ xs) :
    (s.markDecode xs).seqs x = s.seqs x := by
  simp only [State.markDecode, hx, ↓reduceIte]

private theorem State.markDecode_table (s : State) (xs : List Nat) :
    (s.markDecode xs).table = s.table := by
  funext y
  unfold State.table State.markDecode
  dsimp only
  split <;> rfl

private theorem State.releaseAll_markDecode (xs ids : List Nat) (s : State) :
    SamePool ((s.markDecode xs).releaseAll ids) ((s.releaseAll ids).markDecode xs) := by
  have hstep : ∀ (t : State) (b : Nat),
      SamePool ((t.markDecode xs).releaseBlock b) ((t.releaseBlock b).markDecode xs) := by
    intro t b
    refine ⟨?_, ?_, ?_, ?_, ?_⟩
    · rw [State.releaseBlock_seqs]
      simp only [State.markDecode, State.releaseBlock_seqs]
    · rw [State.releaseBlock_blocks]
      exact (State.releaseBlock_blocks t b).symm
    · rw [State.releaseBlock_index]
      exact (State.releaseBlock_index t b).symm
    · rw [State.releaseBlock_free]
      exact (State.releaseBlock_free t b).symm
    · rw [State.releaseBlock_used]
      exact (State.releaseBlock_used t b).symm
  induction ids generalizing s with
  | nil => exact .refl _
  | cons b ids ih => exact ((hstep s b).releaseAll ids).trans (ih (s.releaseBlock b))

private theorem State.setSeq_markDecode {xs : List Nat} (hx : x ∉ xs) (q : Sequence) :
    SamePool ((s.markDecode xs).setSeq x q) ((s.setSeq x q).markDecode xs) where
  seqs := by
    funext y
    by_cases hyx : y = x
    · subst hyx
      simp [State.markDecode, hx]
    · simp [State.markDecode, hyx]
  blocks := rfl
  index := rfl
  free := rfl
  used := rfl

private theorem State.parked_markDecode {xs : List Nat} (hx : x ∉ xs) :
    SamePool ((s.markDecode xs).parked x) ((s.parked x).markDecode xs) := by
  have hrelease : ∀ t : State,
      SamePool ((t.markDecode xs).release x) ((t.release x).markDecode xs) := by
    intro t
    have hall := State.releaseAll_markDecode xs (t.table x).reverse t
    have hrow : ((t.releaseAll (t.table x).reverse).markDecode xs).seqs x =
        (t.releaseAll (t.table x).reverse).seqs x := State.markDecode_seqs_out hx
    unfold State.release
    dsimp only
    rw [State.markDecode_table, congrFun hall.seqs x, hrow]
    exact (hall.setSeq x _).trans (State.setSeq_markDecode hx _)
  unfold State.parked
  rw [State.markDecode_seqs_out hx]
  exact ((State.setSeq_markDecode hx _).release x).trans (hrelease _)

private theorem State.setSeq_mark {xs : List Nat} (hx : x ∉ xs) :
    SamePool ((s.markDecode xs).setSeq x
      { s.seqs x with numScheduledTokens := 1, isPrefill := false })
      (s.markDecode (xs ++ [x])) where
  seqs := by
    funext y
    by_cases hyx : y = x
    · subst hyx
      simp [State.markDecode]
    · simp [State.markDecode, hyx]
  blocks := rfl
  index := rfl
  free := rfl
  used := rfl

private theorem State.releaseAll_free (s : State) (ids : List Nat) :
    ∃ more, (∀ b ∈ more, b ∈ ids) ∧ (s.releaseAll ids).freeBlockIds = s.freeBlockIds ++ more := by
  induction ids generalizing s with
  | nil => exact ⟨[], by simp, (List.append_nil _).symm⟩
  | cons b ids ih =>
    obtain ⟨more, hin, hmore⟩ := ih (s.releaseBlock b)
    have hstep : ∃ first, (∀ c ∈ first, c = b) ∧
        (s.releaseBlock b).freeBlockIds = s.freeBlockIds ++ first := by
      rw [State.releaseBlock_free]
      split
      · exact ⟨[b], by simp, rfl⟩
      · exact ⟨[], by simp, (List.append_nil _).symm⟩
    obtain ⟨first, hone, hfirst⟩ := hstep
    refine ⟨first ++ more, ?_, ?_⟩
    · intro c hc
      rcases List.mem_append.mp hc with hc | hc
      · exact List.mem_cons.mpr (Or.inl (hone c hc))
      · exact List.mem_cons_of_mem b (hin c hc)
    · change ((s.releaseBlock b).releaseAll ids).freeBlockIds = _
      rw [hmore, hfirst, List.append_assoc]

private theorem State.sendAway_free (s : State) (x : Nat) :
    ∃ more, (∀ b ∈ more, b ∈ s.table x) ∧
      (s.sendAway x).freeBlockIds = s.freeBlockIds ++ more := by
  obtain ⟨q, hq⟩ : ∃ q, q = s.setSeq x { s.seqs x with status := .waiting, isPrefill := true } :=
    ⟨_, rfl⟩
  have htab : q.table x = s.table x := by
    rw [hq, State.setSeq_table, Function.update_self]
    rfl
  obtain ⟨more, hin, hmore⟩ := q.releaseAll_free (q.table x).reverse
  refine ⟨more, fun b hb => ?_, ?_⟩
  · rw [← htab]
    exact List.mem_reverse.mp (hin b hb)
  · rw [(s.sendAway_pool x).free]
    unfold State.parked State.release
    rw [← hq]
    refine hmore.trans ?_
    rw [hq]
    rfl

/-- The rows a history preempts, in order. -/
def preemptedIn (events : List (QueueEvent Nat)) : List Nat :=
  events.filterMap fun
    | .preempted x _ => some x
    | _ => none

/-- `t` is `s` after the preemptions `victims`, with the rows `done` marked and `rows`
appended to their tables. The rows `held` are in hand. -/
structure Replay (cfg : Config) (s : State) (victims : List Nat) (rows : List (Nat × List Nat))
    (done held : List Nat) (t : State) : Prop where
  settled : (s.preemptAll victims).Settled cfg
  pool : SamePool t (((s.preemptAll victims).markDecode done).lend rows)
  control : t.control = { (s.preemptAll victims).control with
    running := t.running
    history := t.history }
  queue : held ++ t.running = (s.preemptAll victims).running
  history : ∃ events, t.history = s.history ++ events ∧ preemptedIn events = victims
  free : (s.preemptAll victims).freeBlockIds = lentBlocks rows ++ t.freeBlockIds
  borrowers : rows.map Prod.fst = done
  need : ∀ e ∈ rows, e.2.length = appendNeed cfg (t.seqs e.1).numTokens

section Replay

variable {victims done held held' r w : List Nat}

private theorem Replay.start (h : s.Settled cfg) : Replay cfg s [] [] [] [] s where
  settled := h
  pool := by
    rw [State.lend_nil]
    exact ⟨by simp [State.markDecode, State.preemptAll], rfl, rfl, rfl, rfl⟩
  control := rfl
  queue := rfl
  history := ⟨[], (List.append_nil _).symm, rfl⟩
  free := rfl
  borrowers := rfl
  need := by simp

private theorem Replay.apart (h : Replay cfg s victims rows done held t) {live : List Nat}
    {cov : Nat → Nat} (hown : OwnIf cfg.CollisionFree cfg live t.table cov t)
    (hdone : ∀ y ∈ done, y ∈ live) (hx : x ∈ live) (hxd : x ∉ done) :
    ∀ b ∈ (s.preemptAll victims).table x, b ∉ lentBlocks rows := by
  intro b hb hlent
  have htab : ∀ y, t.table y = (s.preemptAll victims).table y ++ lentTo rows y := by
    intro y
    have := congrArg Sequence.blockTable (congrFun h.pool.seqs y)
    rw [← State.markDecode_table (s.preemptAll victims) done]
    exact this
  obtain ⟨e, he, hbe⟩ := List.mem_flatMap.mp hlent
  have hnot : x ∉ rows.map Prod.fst := by rwa [h.borrowers]
  have hed : e.1 ∈ done := by
    rw [← h.borrowers]
    exact List.mem_map_of_mem he
  have hbe' : b ∈ t.table e.1 := by
    rw [htab]
    apply List.mem_append_right
    exact List.mem_flatMap.mpr ⟨e, he, by simpa using hbe⟩
  have hbx : b ∈ t.table x := by
    rw [htab]
    exact List.mem_append_left _ hb
  have href : (t.blocks b).refCount = 1 := by
    rw [h.pool.blocks]
    simp [State.lend, hlent, Block.fresh]
  rw [hown.ref_eq] at href
  have heq := eq_of_references_eq_one hown.live_nodup href hx (hdone e.1 hed) hbx hbe'
  exact hxd (heq ▸ hed)

private theorem Replay.evict (h : Replay cfg s victims rows done held t) (hcore : Core cfg held t)
    (hdone : ∀ y ∈ done, y ∈ held ++ t.running ++ t.waiting)
    (hx : x ∈ held ++ t.running ++ t.waiting) (hxd : x ∉ done)
    (hmid : t.midChunkSeq = none ∨ t.midChunkSeq = some x)
    (hqueue : held' ++ r = (held ++ t.running).erase x) (hwait : w = t.waiting.erase x) :
    Replay cfg s (victims ++ [x]) rows done held' (((t.withRunning r).withWaiting w).evict x) := by
  obtain ⟨v, hv⟩ : ∃ v, v = s.preemptAll victims := ⟨_, rfl⟩
  have hnext : s.preemptAll (victims ++ [x]) = v.sendAway x := by
    rw [State.preemptAll_concat, ← hv]
  have hpool : SamePool (((t.withRunning r).withWaiting w).evict x)
      (((v.sendAway x).markDecode done).lend rows) := by
    have hnot : x ∉ rows.map Prod.fst := by rwa [h.borrowers]
    have happart := h.apart hcore.own hdone hx hxd
    have hbase := h.pool
    rw [← hv] at happart hbase
    have hlent := State.parked_lend (v.markDecode done) hnot (by
      rw [State.markDecode_table]
      exact happart)
    calc SamePool (((t.withRunning r).withWaiting w).evict x) _ := State.evict_pool _ x
      SamePool _ (t.parked x) := (SamePool.requeue t r w).parked x
      SamePool _ (((v.markDecode done).lend rows).parked x) := hbase.parked x
      SamePool _ (((v.markDecode done).parked x).lend rows) := .of_eq hlent
      SamePool _ (((v.parked x).markDecode done).lend rows) :=
        (State.parked_markDecode hxd).lend rows
      SamePool _ (((v.sendAway x).markDecode done).lend rows) :=
        ((v.sendAway_pool x).symm.markDecode done).lend rows
  have hctl : (((t.withRunning r).withWaiting w).evict x).control = _ := State.evict_control _ x
  have hvctl : (v.sendAway x).control = _ := State.evict_control _ x
  have hwaiting : t.waiting = v.waiting := by
    rw [hv]
    exact congrArg Control.waiting h.control
  have hrow : (v.seqs x).numTokens = (t.seqs x).numTokens := by
    have hnot : x ∉ rows.map Prod.fst := by rwa [h.borrowers]
    rw [congrFun h.pool.seqs x, hv]
    simp [State.lend, lentTo_eq_nil hnot, State.table, State.markDecode, hxd]
  refine ⟨?_, ?_, ?_, ?_, ?_, ?_, h.borrowers, ?_⟩
  · have hsettled := h.settled
    have hbase := h.control
    rw [← hv] at hsettled hbase
    obtain ⟨hready, hstaged⟩ := hsettled
    have hlive : held ++ t.running ++ t.waiting = v.running ++ v.waiting := by
      rw [h.queue, hwaiting, hv]
    have hnd := hready.2.own.live_nodup
    rw [hlive] at hx
    have hperm : ([] ++ v.running.erase x ++ v.waiting.erase x ++ [x]).Perm
        ([] ++ v.running ++ v.waiting) := by
      have hnd' := hnd
      simp only [List.nil_append] at hnd' ⊢
      refine List.perm_append_comm.trans ?_
      rw [List.singleton_append]
      by_cases hrun : x ∈ v.running
      · have hout : x ∉ v.waiting := fun hmem => (List.nodup_append.mp hnd').2.2 x hrun x hmem rfl
        rw [List.erase_of_not_mem hout, ← List.cons_append]
        exact List.Perm.append_right _ (List.perm_cons_erase hrun).symm
      · have hin : x ∈ v.waiting := by simpa [hrun] using hx
        rw [List.erase_of_not_mem hrun]
        exact List.perm_middle.symm.trans
          (List.Perm.append_left _ (List.perm_cons_erase hin).symm)
    have hmid' : v.midChunkSeq = none ∨ v.midChunkSeq = some x := by
      rw [← show t.midChunkSeq = v.midChunkSeq from congrArg Control.midChunkSeq hbase]
      exact hmid
    have hpos : 0 < (v.seqs x).numTokens := by
      rw [hrow]
      exact hcore.numTokens_pos (by rw [hlive]; exact hx)
    rw [hnext]
    exact ⟨⟨(hready.1.requeue _ _).evict, (hready.2.evict hmid' hperm
      (fun y hy => List.mem_of_mem_erase hy) (fun y hy => List.mem_of_mem_erase hy) hpos).1⟩,
      hstaged.evict hnd hperm (fun y hy => List.mem_of_mem_erase hy)
        (fun y hy => List.mem_of_mem_erase hy) (by simp) hpos⟩
  · rw [hnext]
    exact hpool
  · have hrun : (((t.withRunning r).withWaiting w).evict x).running = r := State.evict_running _ x
    have hhist : (((t.withRunning r).withWaiting w).evict x).history =
      t.history ++ [.preempted x w] := congrArg Control.history hctl
    have hbase := h.control
    rw [← hv] at hbase
    have hmid : t.midChunkSeq = v.midChunkSeq := congrArg Control.midChunkSeq hbase
    rw [hnext, hctl, hvctl, hrun, hhist]
    change { t.control with
      running := r
      waiting := w ++ [x]
      midChunkSeq := if t.midChunkSeq = some x then none else t.midChunkSeq
      history := t.history ++ [QueueEvent.preempted x w] } = _
    rw [hbase, hwait, hwaiting, hmid]
    rfl
  · have hrun : (((t.withRunning r).withWaiting w).evict x).running = r := State.evict_running _ x
    have hvrun : (v.sendAway x).running = v.running.erase x := State.evict_running _ x
    rw [hnext, hrun, hvrun, hqueue, h.queue, hv]
  · obtain ⟨events, hevents, hids⟩ := h.history
    refine ⟨events ++ [.preempted x w], ?_, ?_⟩
    · refine (congrArg Control.history hctl).trans ?_
      change t.history ++ [.preempted x w] = _
      rw [hevents, List.append_assoc]
    · rw [preemptedIn, List.filterMap_append, ← hids]
      rfl
  · obtain ⟨more, hin, hmore⟩ := v.sendAway_free x
    have hold := h.free
    have hfilter : more.filter (· ∉ lentBlocks rows) = more := by
      rw [List.filter_eq_self]
      intro b hb
      have happart := h.apart hcore.own hdone hx hxd b (by rw [← hv]; exact hin b hb)
      simpa using happart
    have hkept : v.freeBlockIds.filter (· ∉ lentBlocks rows) = t.freeBlockIds := by
      rw [hv]
      exact h.pool.free.symm
    have hnew : (((t.withRunning r).withWaiting w).evict x).freeBlockIds =
        t.freeBlockIds ++ more := by
      rw [hpool.free]
      change (v.sendAway x).freeBlockIds.filter (· ∉ lentBlocks rows) = _
      rw [hmore, List.filter_append, hfilter, hkept]
    rw [← hv] at hold
    rw [hnext, hmore, hnew, hold, List.append_assoc]
  · intro e he
    have hex : e.1 ≠ x := by
      intro heq
      apply hxd
      rw [← heq, ← h.borrowers]
      exact List.mem_map_of_mem he
    rw [State.evict_seqs, Function.update_of_ne hex]
    exact h.need e he

private theorem Replay.grant (h : Replay cfg s victims rows done held t) {live : List Nat}
    {cov : Nat → Nat} (hown : OwnIf cfg.CollisionFree cfg live t.table cov t) (hxd : x ∉ done)
    (hroom : canAppend cfg t x = true) :
    Replay cfg s victims
      (rows ++ [(x, t.freeBlockIds.take (appendNeed cfg (t.seqs x).numTokens))]) (done ++ [x])
      held ((t.grant cfg x).record (.scheduled x)) := by
  obtain ⟨v, hv⟩ : ∃ v, v = s.preemptAll victims := ⟨_, rfl⟩
  obtain ⟨ids, hids⟩ : ∃ ids, ids = t.freeBlockIds.take (appendNeed cfg (t.seqs x).numTokens) :=
    ⟨_, rfl⟩
  have hnot : x ∉ rows.map Prod.fst := by rwa [h.borrowers]
  have hbase := h.pool
  rw [← hv] at hbase
  have hrow : t.seqs x = v.seqs x := by
    rw [congrFun hbase.seqs x]
    simp [State.lend, lentTo_eq_nil hnot, State.table, State.markDecode, hxd]
  have hgrant : t.grant cfg x = (t.setSeq x
      { t.seqs x with numScheduledTokens := 1, isPrefill := false }).lend [(x, ids)] := by
    have hok : PoolOk (t.setSeq x
        { t.seqs x with numScheduledTokens := 1, isPrefill := false }) :=
      ⟨hown.poolOk.nodup, hown.poolOk.zero, hown.poolOk.indexed⟩
    rw [hids]
    exact State.claimN_eq_lend hok x _
  have hpool : SamePool (t.grant cfg x) ((v.markDecode (done ++ [x])).lend (rows ++ [(x, ids)])) :=
    calc SamePool (t.grant cfg x) _ := .of_eq hgrant
      SamePool _ ((((v.markDecode done).lend rows).setSeq x
          { v.seqs x with numScheduledTokens := 1, isPrefill := false }).lend [(x, ids)]) := by
        rw [hrow]
        exact (hbase.setSeq x _).lend _
      SamePool _ ((((v.markDecode done).setSeq x
          { v.seqs x with numScheduledTokens := 1, isPrefill := false }).lend rows).lend
            [(x, ids)]) := by
        rw [State.setSeq_lend _ hnot]
        exact SamePool.refl _
      SamePool _ (((v.markDecode (done ++ [x])).lend rows).lend [(x, ids)]) :=
        ((State.setSeq_mark hxd).lend rows).lend [(x, ids)]
      SamePool _ ((v.markDecode (done ++ [x])).lend (rows ++ [(x, ids)])) := by
        rw [State.lend_lend]
        exact SamePool.refl _
  have hctl := t.grant_control cfg x
  have hrun : (t.grant cfg x).running = t.running := congrArg Control.running hctl
  have hhist : (t.grant cfg x).history = t.history := congrArg Control.history hctl
  have hother : ∀ y, ((t.grant cfg x).seqs y).numTokens = (t.seqs y).numTokens := by
    intro y
    rw [State.grant_seqs]
    by_cases hyx : y = x
    · rw [hyx, Function.update_self]
      rfl
    · rw [Function.update_of_ne hyx]
  rw [← hids]
  refine ⟨h.settled, ?_, ?_, ?_, ?_, ?_, ?_, ?_⟩
  · rw [← hv]
    exact ⟨hpool.seqs, hpool.blocks, hpool.index, hpool.free, hpool.used⟩
  · change { (t.grant cfg x).control with
      history := (t.grant cfg x).history ++ [QueueEvent.scheduled x] } = _
    rw [hctl, h.control]
    change _ = { (s.preemptAll victims).control with
      running := (t.grant cfg x).running
      history := (t.grant cfg x).history ++ [QueueEvent.scheduled x] }
    rw [hrun]
  · change held ++ (t.grant cfg x).running = _
    rw [hrun]
    exact h.queue
  · obtain ⟨events, hevents, hvictims⟩ := h.history
    refine ⟨events ++ [.scheduled x], ?_, ?_⟩
    · change (t.grant cfg x).history ++ [QueueEvent.scheduled x] = _
      rw [hhist, hevents, List.append_assoc]
    · rw [preemptedIn, List.filterMap_append, ← hvictims]
      exact List.append_nil _
  · have hfree : (t.grant cfg x).freeBlockIds =
        t.freeBlockIds.drop (appendNeed cfg (t.seqs x).numTokens) := State.claimN_free _ _ _
    change _ = _ ++ (t.grant cfg x).freeBlockIds
    rw [h.free, hfree, lentBlocks_append, hids]
    simp
  · rw [List.map_append, h.borrowers]
    rfl
  · intro e he
    change e.2.length = appendNeed cfg ((t.grant cfg x).seqs e.1).numTokens
    rw [hother]
    rcases List.mem_append.mp he with he | he
    · exact h.need e he
    · obtain rfl := List.mem_singleton.mp he
      rw [canAppend_iff] at hroom
      change ids.length = _
      rw [hids, List.length_take, Nat.min_eq_left hroom]

private theorem Replay.shift (h : Replay cfg s victims rows done held t)
    (heq : held' ++ r = held ++ t.running) :
    Replay cfg s victims rows done held' (t.withRunning r) where
  settled := h.settled
  pool := ⟨h.pool.seqs, h.pool.blocks, h.pool.index, h.pool.free, h.pool.used⟩
  control := by
    change { t.control with running := r } = _
    rw [h.control]
    rfl
  queue := by
    change held' ++ r = _
    rw [heq, h.queue]
  history := h.history
  free := h.free
  borrowers := h.borrowers
  need := h.need

end Replay

private theorem DecodeMove.replay {victims : List Nat} {c c' : Cursor} (hm : DecodeMove cfg c c')
    (hgood : c.Good cfg) (h : Replay cfg s victims rows c.done c.rows c.st) :
    ∃ victims' rows', Replay cfg s victims' rows' c'.done c'.rows c'.st := by
  have hown := hgood.2.own
  have hnd := hown.live_nodup
  have hdone : ∀ y ∈ c.done, y ∈ c.rows ++ c.st.running ++ c.st.waiting := by
    intro y hy
    simp [Cursor.rows, hy]
  cases hm with
  | @take done rest x t hrun hcap =>
    refine ⟨victims, rows, h.shift ?_⟩
    simp [Cursor.rows, hrun]
  | @evictMid done rest x w t hfull hmid hwait =>
    have hwlive : w ∈ Cursor.rows ⟨done, some x, t⟩ ++ t.running ++ t.waiting := by
      simp [hwait]
    have hnot := hgood.live_not_done (x := w) (by simp [hwait])
    have hout : w ∉ Cursor.rows ⟨done, some x, t⟩ ++ t.running := by
      intro hmem
      exact (List.nodup_append.mp hnd).2.2 w hmem w (by simp [hwait]) rfl
    have hnext : Replay cfg s (victims ++ [w]) rows done (Cursor.rows ⟨done, some x, t⟩)
        (((t.withRunning t.running).withWaiting rest).evict w) :=
      h.evict hgood.2 hdone hwlive hnot (Or.inr hmid) (List.erase_of_not_mem hout).symm (by simp [hwait])
    exact ⟨victims ++ [w], rows, hnext⟩
  | @evictLast done rest x v t hfull hmid hrun =>
    have hvlive : v ∈ Cursor.rows ⟨done, some x, t⟩ ++ t.running ++ t.waiting := by
      simp [hrun]
    have hnot := hgood.live_not_done (x := v) (by simp [hrun])
    have hfront : v ∉ Cursor.rows ⟨done, some x, t⟩ ++ rest := by
      intro hmem
      have hrn := (List.nodup_append.mp hnd).1
      change (Cursor.rows ⟨done, some x, t⟩ ++ t.running).Nodup at hrn
      rw [hrun, ← List.append_assoc] at hrn
      exact (List.nodup_append.mp hrn).2.2 v hmem v (by simp) rfl
    have hqueue : Cursor.rows ⟨done, some x, t⟩ ++ rest =
        (Cursor.rows ⟨done, some x, t⟩ ++ t.running).erase v := by
      rw [hrun, ← List.append_assoc, List.erase_append_right _ hfront]
      simp
    have hout : v ∉ t.waiting := by
      intro hmem
      exact (List.nodup_append.mp hnd).2.2 v (by simp [hrun]) v hmem rfl
    have hnext : Replay cfg s (victims ++ [v]) rows done (Cursor.rows ⟨done, some x, t⟩)
        (((t.withRunning rest).withWaiting t.waiting).evict v) :=
      h.evict hgood.2 hdone hvlive hnot (Or.inl hmid) hqueue (List.erase_of_not_mem hout).symm
    exact ⟨victims ++ [v], rows, hnext⟩
  | @evictSelf done x t hfull hmid hrun =>
    have hxlive : x ∈ Cursor.rows ⟨done, some x, t⟩ ++ t.running ++ t.waiting := by
      simp [Cursor.rows]
    have hnot := hgood.hand_not_done
    have hqueue : Cursor.rows ⟨done, none, t⟩ ++ t.running =
        (Cursor.rows ⟨done, some x, t⟩ ++ t.running).erase x := by
      simp [Cursor.rows, hrun, List.erase_append_right _ hnot]
    have hout : x ∉ t.waiting := by
      intro hmem
      exact (List.nodup_append.mp hnd).2.2 x (by simp [Cursor.rows]) x hmem rfl
    have hnext : Replay cfg s (victims ++ [x]) rows done (Cursor.rows ⟨done, none, t⟩)
        (((t.withRunning t.running).withWaiting t.waiting).evict x) :=
      h.evict hgood.2 hdone hxlive hnot (Or.inl hmid) hqueue (List.erase_of_not_mem hout).symm
    exact ⟨victims ++ [x], rows, hnext⟩
  | @grant done x t hroom =>
    have hnext := h.grant hown hgood.hand_not_done hroom
    have hrows : Cursor.rows ⟨done ++ [x], none, (t.grant cfg x).record (.scheduled x)⟩ =
        Cursor.rows ⟨done, some x, t⟩ := by
      simp [Cursor.rows]
    refine ⟨victims, rows ++ [(x, t.freeBlockIds.take (appendNeed cfg (t.seqs x).numTokens))], ?_⟩
    rw [hrows]
    exact hnext

private theorem DecodeWalk.replay {c : Cursor} (hw : DecodeWalk cfg ⟨[], none, s⟩ c)
    (hsettled : s.Settled cfg) :
    ∃ victims rows, Replay cfg s victims rows c.done c.rows c.st := by
  induction hw with
  | refl => exact ⟨[], [], .start hsettled⟩
  | tail hw hm ih =>
    obtain ⟨victims, rows, h⟩ := ih
    exact hm.replay (DecodeWalk.good hw hsettled.1.good) h

/-- A fill that adds no row may send the chunk at the head back; it does nothing else. -/
private theorem Fills.replay {victims batch : List Nat} {batched : Nat}
    (hf : Fills cfg batch batched t batch u)
    (hready : t.Ready cfg) (hst : Staged cfg [] batch t) (hhead : HeadIdle batch t)
    (hne : batch ≠ []) (h : Replay cfg s victims rows batch [] t) :
    ∃ victims', Replay cfg s victims' rows batch [] u := by
  obtain ⟨acc', hacc⟩ : ∃ acc', acc' = batch := ⟨_, rfl⟩
  have hf' : Fills cfg batch batched t acc' u := by rwa [hacc]
  cases hf' with
  | stop _ => exact ⟨victims, h⟩
  | refuse _ _ _ _ _ => exact ⟨victims, h⟩
  | @full _ rest _ _ x m _ t' _ hwait _ hbudget hallot hfull hrest =>
    have ha := hready.allotted hwait (by omega) hallot
    obtain ⟨more, hmore⟩ := hrest.filled ((hready.joined hwait ha hfull).record _)
    have hlen := congrArg List.length (hmore.batch.symm.trans hacc)
    simp at hlen
  | @chunk _ rest _ x m _ t' hwait _ hbudget hallot hpart =>
    have hlen := congrArg List.length hacc
    simp at hlen
  | @sendBackStop _ rest _ x m _ hwait _ _ htab _ _ _ =>
    have hxw : x ∈ t.waiting := by simp [hwait]
    have hxb := hhead x hxw
    have hmid := Or.inr (a := t.midChunkSeq = none) (hready.2.mid_owner x hxw htab)
    have hidle := hst.idle x (by simp [hxw]) hxb
    have hout : x ∉ [] ++ t.running := by
      intro hmem
      exact (List.nodup_append.mp hready.2.own.live_nodup).2.2 x hmem x hxw rfl
    have hbusy : ∀ y ∈ batch, y ∈ [] ++ t.running ++ t.waiting := fun y hy => (hst.busy y hy).1
    have hnext : Replay cfg s (victims ++ [x]) rows batch []
        (((t.withRunning t.running).withWaiting rest).evict x) :=
      h.evict hready.2 hbusy (by simp [hxw]) hxb hmid (List.erase_of_not_mem hout).symm
        (by simp [hwait])
    refine ⟨victims ++ [x], ?_⟩
    unfold State.sendBack
    rw [State.setScheduled_idle hidle]
    exact hnext
  | sendBack _ _ _ _ _ _ => exact absurd rfl hne

/-- A pure decode batch is the running queue, and the state is the one its preemptions
leave with one block lent to each row that grew. -/
theorem State.Settled.schedule_decode {batch : List Nat} (h : s.Settled cfg)
    (hcall : schedule cfg s = .ok (batch, false) u) :
    batch ≠ [] ∧ BatchOut cfg batch [] u ∧ ∃ victims rows, Replay cfg s victims rows batch [] u := by
  obtain ⟨done, t, batch', u', hs, -, hok, herr⟩ := schedule_trace h.1
  by_cases hnil : batch' = []
  · obtain ⟨message, hres⟩ := herr hnil
    rw [hres] at hcall
    exact absurd hcall (by simp)
  have hres := hok hnil
  rw [hcall] at hres
  obtain ⟨hpair, rfl⟩ := EStateM.Result.ok.inj hres
  obtain ⟨rfl, hflag⟩ := Prod.mk.inj hpair
  obtain ⟨prefills, hbatch, hout⟩ := hs.batchOut h
  have hlen : ¬ done.length < batch.length := by simpa using hflag.symm
  have hpre : prefills = [] := by
    rw [hbatch, List.length_append] at hlen
    exact List.length_eq_zero_iff.mp (by omega)
  rw [hpre, List.append_nil] at hbatch
  rw [hpre, ← hbatch] at hout
  refine ⟨hnil, hout, ?_⟩
  have hgood := DecodeWalk.good hs.walk h.1.good
  obtain ⟨victims, rows, hrep⟩ := DecodeWalk.replay hs.walk h
  obtain ⟨hst, -⟩ := DecodeWalk.stages hs.walk h.1.good ⟨h.2, by simp [Cursor.Decodes]⟩
  have hrows : [] ++ (done ++ t.running) = Cursor.rows ⟨done, none, t⟩ ++ t.running := by
    simp [Cursor.rows]
  have hfills := hs.fills
  rw [← hbatch] at hfills hrep hst hrows hgood
  obtain ⟨victims', hlast⟩ := Fills.replay hfills (Cursor.Good.rejoin hgood) (hst.shift hrows)
    (fun x hx => hgood.live_not_done (List.mem_append_right _ hx)) hnil (hrep.shift hrows)
  exact ⟨victims', rows, hlast⟩

end NanoVllm
