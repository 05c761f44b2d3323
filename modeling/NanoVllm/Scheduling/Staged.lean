/- module: NanoVllm/Scheduling/Staged
   layer: invariant
   source: nanovllm/engine/scheduler.py, Scheduler.schedule
   digest: The record of every queued row, at rest and while a scheduled batch is out. -/

import NanoVllm.Scheduling.Schedule

set_option autoImplicit false
set_option relaxedAutoImplicit false

namespace NanoVllm

open Library

variable {cfg : Config} {held batch : List Nat} {s t u : State} {x room m : Nat}

/-- A running request caches all but its last token; in a batch that is out, its chunk
reaches the last token. -/
structure RunningRow (cfg : Config) (q : Sequence) : Prop where
  status : q.status = .running
  draft_le : q.numDraftCachedTokens ≤ q.numCachedTokens
  pages : q.blockTable.length =
    pagesFor cfg.kvcacheBlockSize (q.numCachedTokens + q.numScheduledTokens)
  cached_lt : q.numCachedTokens < q.numTokens
  rest : q.numScheduledTokens = 0 → q.numCachedTokens + 1 = q.numTokens
  full : 0 < q.numScheduledTokens → q.numCachedTokens + q.numScheduledTokens = q.numTokens

structure WaitingRow (cfg : Config) (q : Sequence) : Prop where
  status : q.status = .waiting
  prefill : q.isPrefill = true
  draft_le : q.numDraftCachedTokens ≤ q.numCachedTokens
  pages : q.blockTable.length =
    pagesFor cfg.kvcacheBlockSize (q.numCachedTokens + q.numScheduledTokens)
  short : q.numCachedTokens + q.numScheduledTokens < q.numTokens

theorem WaitingRow.bare {q : Sequence} (h : WaitingRow cfg q) (htab : q.blockTable = []) :
    q.numCachedTokens = 0 ∧ q.numScheduledTokens = 0 := by
  have hpages := h.pages
  rw [htab, List.length_nil, eq_comm, pagesFor_eq_zero cfg.blockSize_pos] at hpages
  omega

private theorem WaitingRow.evicted {q : Sequence} (hsched : q.numScheduledTokens = 0)
    (hpos : 0 < q.numTokens) : WaitingRow cfg { q with
      status := .waiting
      isPrefill := true
      numCachedTokens := 0
      numDraftCachedTokens := 0
      blockTable := [] } where
  status := rfl
  prefill := rfl
  draft_le := le_rfl
  pages := by
    change 0 = pagesFor cfg.kvcacheBlockSize (0 + q.numScheduledTokens)
    rw [hsched, eq_comm, pagesFor_eq_zero cfg.blockSize_pos]
  short := by
    change 0 + q.numScheduledTokens < q.numTokens
    omega

theorem pagesFor_append (n : Nat) :
    pagesFor cfg.kvcacheBlockSize n + appendNeed cfg (n + 1) =
      pagesFor cfg.kvcacheBlockSize (n + 1) := by
  have hbs := cfg.blockSize_ge
  have hmod : (n + 1) % cfg.kvcacheBlockSize = 1 ↔ n % cfg.kvcacheBlockSize = 0 := by
    rw [Nat.add_mod, Nat.mod_eq_of_lt (show 1 < cfg.kvcacheBlockSize by omega)]
    have hlt := Nat.mod_lt n cfg.blockSize_pos
    rcases Nat.lt_or_eq_of_le (Nat.succ_le_of_lt hlt) with hcase | hcase
    · rw [Nat.mod_eq_of_lt hcase]
      omega
    · rw [← Nat.succ_eq_add_one, hcase, Nat.mod_self]
      omega
  unfold appendNeed
  by_cases hzero : n % cfg.kvcacheBlockSize = 0
  · rw [if_pos (hmod.mpr hzero), pagesFor_succ_of_dvd cfg.blockSize_pos hzero]
  · rw [if_neg fun h => hzero (hmod.mp h), pagesFor_succ_of_not_dvd cfg.blockSize_pos hzero]
    omega

private theorem RunningRow.granted {q : Sequence} (h : RunningRow cfg q)
    (hsched : q.numScheduledTokens = 0)
    {table : List Nat}
    (htab : table.length = q.blockTable.length + appendNeed cfg q.numTokens) :
    RunningRow cfg { q with
      numScheduledTokens := 1
      isPrefill := false
      blockTable := table } where
  status := h.status
  draft_le := h.draft_le
  pages := by
    have hpages := h.pages
    have hrest := h.rest hsched
    rw [hsched, Nat.add_zero] at hpages
    change table.length = pagesFor cfg.kvcacheBlockSize (q.numCachedTokens + 1)
    rw [htab, hpages, ← hrest, pagesFor_append]
  cached_lt := h.cached_lt
  rest := fun hzero => absurd hzero (by simp)
  full := fun _ => h.rest hsched

/-- Every queued row has its record in order, and exactly the rows of `batch` are scheduled. -/
structure Staged (cfg : Config) (held batch : List Nat) (s : State) : Prop where
  running : ∀ x ∈ held ++ s.running, RunningRow cfg (s.seqs x)
  waiting : ∀ x ∈ s.waiting, WaitingRow cfg (s.seqs x)
  room : held.length + s.running.length + s.waiting.length ≤ cfg.maxNumSeqs
  busy : ∀ x ∈ batch, x ∈ held ++ s.running ++ s.waiting ∧ 0 < (s.seqs x).numScheduledTokens
  idle : ∀ x ∈ held ++ s.running ++ s.waiting, x ∉ batch → (s.seqs x).numScheduledTokens = 0
  distinct : batch.Nodup

private theorem Staged.init (cfg : Config) : Staged cfg [] [] (State.init cfg) where
  running := by simp [State.init]
  waiting := by simp [State.init]
  room := by simp [State.init]
  busy := by simp
  idle := by simp [State.init]
  distinct := List.nodup_nil

private theorem Staged.record (h : Staged cfg held batch s) (e : QueueEvent Nat) :
    Staged cfg held batch (s.record e) :=
  ⟨h.running, h.waiting, h.room, h.busy, h.idle, h.distinct⟩

theorem Staged.shift (h : Staged cfg held batch s) {held' r : List Nat}
    (heq : held' ++ r = held ++ s.running) : Staged cfg held' batch (s.withRunning r) where
  running := by
    change ∀ y ∈ held' ++ r, _
    rw [heq]
    exact h.running
  waiting := h.waiting
  room := by
    change held'.length + r.length + s.waiting.length ≤ cfg.maxNumSeqs
    rw [← List.length_append, heq, List.length_append]
    exact h.room
  busy := by
    change ∀ y ∈ batch, y ∈ held' ++ r ++ s.waiting ∧ _
    rw [heq]
    exact h.busy
  idle := by
    change ∀ y ∈ held' ++ r ++ s.waiting, _
    rw [heq]
    exact h.idle
  distinct := h.distinct

theorem Staged.evict (h : Staged cfg held batch s) {held' r w : List Nat}
    (hnd : (held ++ s.running ++ s.waiting).Nodup)
    (hperm : (held' ++ r ++ w ++ [x]).Perm (held ++ s.running ++ s.waiting))
    (hrun : ∀ y ∈ held' ++ r, y ∈ held ++ s.running) (hwait : ∀ y ∈ w, y ∈ s.waiting)
    (hx : x ∉ batch) (hpos : 0 < (s.seqs x).numTokens) :
    Staged cfg held' batch (((s.withRunning r).withWaiting w).evict x) := by
  obtain ⟨q, hq⟩ : ∃ q, q = (s.withRunning r).withWaiting w := ⟨_, rfl⟩
  have hseqs : (q.evict x).seqs = Function.update s.seqs x { s.seqs x with
      status := .waiting
      isPrefill := true
      numCachedTokens := 0
      numDraftCachedTokens := 0
      blockTable := [] } := by
    rw [hq]
    exact State.evict_seqs _ x
  have hrunning : (q.evict x).running = r := by
    rw [hq]
    exact State.evict_running _ x
  have hwaiting : (q.evict x).waiting = w ++ [x] := by
    rw [hq]
    exact State.evict_waiting _ x
  rw [← hq]
  have hxlive : x ∈ held ++ s.running ++ s.waiting := hperm.mem_iff.mp (by simp)
  have hsched := h.idle x hxlive hx
  have hxout : x ∉ held' ++ r ++ w := by
    intro hmem
    exact (List.nodup_append.mp (hperm.nodup_iff.mpr hnd)).2.2 x hmem x (by simp) rfl
  have hlive : ∀ y, y ∈ held' ++ (q.evict x).running ++ (q.evict x).waiting ↔
      y ∈ held ++ s.running ++ s.waiting := by
    intro y
    rw [hrunning, hwaiting, ← List.append_assoc]
    exact hperm.mem_iff
  have hother : ∀ y, y ≠ x → (q.evict x).seqs y = s.seqs y := by
    intro y hyx
    rw [hseqs, Function.update_of_ne hyx]
  have hself : ((q.evict x).seqs x).numScheduledTokens = 0 := by
    rw [hseqs, Function.update_self]
    exact hsched
  refine ⟨?_, ?_, ?_, ?_, ?_, h.distinct⟩
  · intro y hy
    rw [hrunning] at hy
    have hyx : y ≠ x := fun heq => hxout (List.mem_append_left w (heq ▸ hy))
    rw [hother y hyx]
    exact h.running y (hrun y hy)
  · intro y hy
    rw [hwaiting] at hy
    by_cases hyx : y = x
    · subst hyx
      rw [hseqs, Function.update_self]
      exact .evicted hsched hpos
    · rw [hother y hyx]
      exact h.waiting y (hwait y (by simpa [hyx] using hy))
  · have hlen := hperm.length_eq
    simp only [List.length_append, List.length_singleton] at hlen
    have hroom := h.room
    rw [hrunning, hwaiting, List.length_append, List.length_singleton]
    omega
  · intro y hy
    obtain ⟨hyl, hypos⟩ := h.busy y hy
    have hyx : y ≠ x := fun heq => hx (heq ▸ hy)
    rw [hlive, hother y hyx]
    exact ⟨hyl, hypos⟩
  · intro y hy hyb
    rw [hlive] at hy
    by_cases hyx : y = x
    · rw [hyx]
      exact hself
    · rw [hother y hyx]
      exact h.idle y hy hyb

private theorem Staged.grant (h : Staged cfg held batch s) (hx : x ∈ held) (hxb : x ∉ batch)
    (hcan : canAppend cfg s x = true) : Staged cfg held (batch ++ [x]) (s.grant cfg x) := by
  have hctl := s.grant_control cfg x
  have hrunning : (s.grant cfg x).running = s.running := congrArg Control.running hctl
  have hwaiting : (s.grant cfg x).waiting = s.waiting := congrArg Control.waiting hctl
  have hxl : x ∈ held ++ s.running ++ s.waiting := by simp [hx]
  have hsched := h.idle x hxl hxb
  have hrow := h.running x (List.mem_append_left _ hx)
  rw [canAppend_iff] at hcan
  have hlen : (s.table x ++ s.freeBlockIds.take (appendNeed cfg (s.seqs x).numTokens)).length =
      (s.seqs x).blockTable.length + appendNeed cfg (s.seqs x).numTokens := by
    rw [List.length_append, List.length_take, Nat.min_eq_left hcan]
    rfl
  have hother : ∀ y, y ≠ x → (s.grant cfg x).seqs y = s.seqs y := by
    intro y hyx
    rw [State.grant_seqs, Function.update_of_ne hyx]
  have hself : ((s.grant cfg x).seqs x).numScheduledTokens = 1 := by
    rw [State.grant_seqs, Function.update_self]
  refine ⟨?_, ?_, ?_, ?_, ?_, ?_⟩
  · intro y hy
    rw [hrunning] at hy
    by_cases hyx : y = x
    · subst hyx
      rw [State.grant_seqs, Function.update_self]
      exact hrow.granted hsched hlen
    · rw [hother y hyx]
      exact h.running y hy
  · intro y hy
    rw [hwaiting] at hy
    by_cases hyx : y = x
    · subst hyx
      exact absurd (h.waiting y hy).status (by rw [hrow.status]; simp)
    · rw [hother y hyx]
      exact h.waiting y hy
  · rw [hrunning, hwaiting]
    exact h.room
  · intro y hy
    rw [hrunning, hwaiting]
    by_cases hyx : y = x
    · rw [hyx, hself]
      exact ⟨hxl, Nat.one_pos⟩
    · rw [hother y hyx]
      exact h.busy y (by simpa [hyx] using hy)
  · intro y hy hyb
    rw [hrunning, hwaiting] at hy
    simp only [List.mem_append, List.mem_singleton, not_or] at hyb
    rw [hother y hyb.2]
    exact h.idle y hy hyb.1
  · rw [List.nodup_append]
    refine ⟨h.distinct, List.nodup_singleton x, fun y hy z hz heq => hxb ?_⟩
    rw [← List.mem_singleton.mp hz, ← heq]
    exact hy

theorem Cursor.Good.hand_not_done {done : List Nat} (h : Cursor.Good cfg ⟨done, some x, s⟩) :
    x ∉ done := by
  have hnd := (List.nodup_append.mp (List.nodup_append.mp h.2.own.live_nodup).1).1
  intro hmem
  exact (List.nodup_append.mp hnd).2.2 x hmem x (by simp) rfl

theorem Cursor.Good.live_not_done {c : Cursor} (h : c.Good cfg)
    (hx : x ∈ c.st.running ++ c.st.waiting) : x ∉ c.done := by
  have hnd := h.2.own.live_nodup
  rw [List.append_assoc] at hnd
  intro hmem
  exact (List.nodup_append.mp hnd).2.2 x (List.mem_append_left _ hmem) x hx rfl

def Cursor.Decodes (c : Cursor) : Prop :=
  ∀ x ∈ c.done, (c.st.seqs x).isPrefill = false ∧ (c.st.seqs x).numScheduledTokens = 1

def Cursor.Stages (cfg : Config) (c : Cursor) : Prop :=
  Staged cfg c.rows c.done c.st ∧ c.Decodes

theorem Cursor.Decodes.evict {done : List Nat} {hand hand' : Option Nat} {r w : List Nat}
    (h : Cursor.Decodes ⟨done, hand, s⟩) (hx : x ∉ done) :
    Cursor.Decodes ⟨done, hand', ((s.withRunning r).withWaiting w).evict x⟩ := by
  intro y hy
  have hyx : y ≠ x := fun heq => hx (heq ▸ hy)
  change ((((s.withRunning r).withWaiting w).evict x).seqs y).isPrefill = false ∧
    ((((s.withRunning r).withWaiting w).evict x).seqs y).numScheduledTokens = 1
  rw [State.evict_seqs, Function.update_of_ne hyx]
  exact h y hy

private theorem DecodeMove.stages {c c' : Cursor} (hm : DecodeMove cfg c c') (hgood : c.Good cfg)
    (h : c.Stages cfg) : c'.Stages cfg := by
  obtain ⟨hst, hdec⟩ := h
  cases hm with
  | @take done rest x s hrun hcap =>
    refine ⟨hst.shift ?_, hdec⟩
    simp [Cursor.rows, hrun]
  | @evictMid done rest x w s hfull hmid hwait =>
    have hwlive : w ∈ s.running ++ s.waiting := by simp [hwait]
    have hpos := hgood.2.numTokens_pos (x := w) (by simp [hwait])
    have hperm : (Cursor.rows ⟨done, some x, s⟩ ++ s.running ++ rest ++ [w]).Perm
        (Cursor.rows ⟨done, some x, s⟩ ++ s.running ++ s.waiting) := by
      rw [hwait, List.append_assoc]
      exact List.Perm.append_left _ (List.perm_append_comm : (rest ++ [w]).Perm ([w] ++ rest))
    have hnot := hgood.live_not_done hwlive
    have hsame : (s.withRunning s.running).withWaiting rest = s.withWaiting rest := rfl
    have hst' := hst.evict hgood.2.own.live_nodup hperm (fun y hy => hy)
      (fun y hy => by rw [hwait]; exact List.mem_cons_of_mem w hy) hnot hpos
    have hdec' : Cursor.Decodes ⟨done, some x, ((s.withRunning s.running).withWaiting rest).evict w⟩ :=
      hdec.evict hnot
    rw [hsame] at hst' hdec'
    exact ⟨hst', hdec'⟩
  | @evictLast done rest x v s hfull hmid hrun =>
    have hvlive : v ∈ s.running ++ s.waiting := by simp [hrun]
    have hpos := hgood.2.numTokens_pos (x := v) (by simp [hrun])
    have hperm : (Cursor.rows ⟨done, some x, s⟩ ++ rest ++ s.waiting ++ [v]).Perm
        (Cursor.rows ⟨done, some x, s⟩ ++ s.running ++ s.waiting) := by
      rw [hrun, ← List.append_assoc]
      simp only [List.append_assoc]
      exact List.Perm.append_left _ (List.Perm.append_left _ List.perm_append_comm)
    have hnot := hgood.live_not_done hvlive
    have hsame : (s.withRunning rest).withWaiting s.waiting = s.withRunning rest := rfl
    have hst' := hst.evict hgood.2.own.live_nodup hperm
      (fun y hy => by
        rw [hrun, ← List.append_assoc]
        exact List.mem_append_left _ hy)
      (fun y hy => hy) hnot hpos
    have hdec' : Cursor.Decodes ⟨done, some x, ((s.withRunning rest).withWaiting s.waiting).evict v⟩ :=
      hdec.evict hnot
    rw [hsame] at hst' hdec'
    exact ⟨hst', hdec'⟩
  | @evictSelf done x s hfull hmid hrun =>
    have hpos := hgood.2.numTokens_pos (x := x) (by simp [Cursor.rows])
    have hperm : (Cursor.rows ⟨done, none, s⟩ ++ s.running ++ s.waiting ++ [x]).Perm
        (Cursor.rows ⟨done, some x, s⟩ ++ s.running ++ s.waiting) := by
      simp only [Cursor.rows, hrun, Option.toList_none, Option.toList_some, List.append_nil,
        List.append_assoc]
      exact List.Perm.append_left _ List.perm_append_comm
    have hnot := hgood.hand_not_done
    have hsame : (s.withRunning s.running).withWaiting s.waiting = s := rfl
    have hst' := hst.evict hgood.2.own.live_nodup hperm
      (fun y hy => by
        simp only [Cursor.rows, Option.toList_none, Option.toList_some, List.append_nil,
          List.mem_append] at hy ⊢
        tauto)
      (fun y hy => hy) hnot hpos
    have hdec' : Cursor.Decodes ⟨done, none, ((s.withRunning s.running).withWaiting s.waiting).evict x⟩ :=
      hdec.evict hnot
    rw [hsame] at hst' hdec'
    exact ⟨hst', hdec'⟩
  | @grant done x s hroom =>
    have hnot := hgood.hand_not_done
    have hheld : Cursor.rows ⟨done ++ [x], none, (s.grant cfg x).record (.scheduled x)⟩ =
        Cursor.rows ⟨done, some x, s⟩ := by
      simp [Cursor.rows]
    refine ⟨?_, ?_⟩
    · rw [hheld]
      exact (hst.grant (by simp [Cursor.rows]) hnot hroom).record _
    · intro y hy
      change ((s.grant cfg x).seqs y).isPrefill = false ∧
        ((s.grant cfg x).seqs y).numScheduledTokens = 1
      by_cases hyx : y = x
      · subst hyx
        rw [State.grant_seqs, Function.update_self]
        exact ⟨rfl, rfl⟩
      · rw [State.grant_seqs, Function.update_of_ne hyx]
        exact hdec y (by simpa [hyx] using hy)

theorem DecodeWalk.stages {c c' : Cursor} (hw : DecodeWalk cfg c c') (hgood : c.Good cfg)
    (h : c.Stages cfg) : c'.Stages cfg := by
  induction hw with
  | refl => exact h
  | tail hw hm ih => exact hm.stages (DecodeWalk.good hw hgood) ih

/-- An allotted chunk fills its table exactly, and the draft stays within the cache. -/
private theorem Allots.paged {live : List Nat} (hq : s.Quiet)
    (h : OwnIf cfg.CollisionFree cfg live s.table (s.coverage cfg) s) (hx : x ∈ live)
    (hroom : 0 < room) (hrow : WaitingRow cfg (s.seqs x))
    (hsched : (s.seqs x).numScheduledTokens = 0) (ha : Allots cfg s x room m t) :
    (t.table x).length = pagesFor cfg.kvcacheBlockSize ((t.seqs x).numCachedTokens + m) ∧
      (t.seqs x).numDraftCachedTokens ≤ (t.seqs x).numCachedTokens ∧ 0 < m := by
  have hshort := hrow.short
  cases ha with
  | @fresh k _ ids htab hcan hchain hids hm =>
    obtain ⟨-, -, -, hk, -⟩ := canAllocate_some hcan
    have hlt : k * cfg.kvcacheBlockSize < (s.seqs x).numTokens := full_blocks_lt (by omega) hk
    obtain ⟨ids', hchain', -, -, -, hfree, -⟩ :=
      Allots.fresh_room hq h hx htab (by omega) hroom hcan hm
    obtain rfl : ids' = ids := by
      rw [hchain] at hchain'
      exact (Except.ok.inj hchain').symm
    have hkpages : k ≤ pagesFor cfg.kvcacheBlockSize (k * cfg.kvcacheBlockSize + m) := by
      rw [← pagesFor_mul cfg.blockSize_pos k]
      exact pagesFor_mono cfg.blockSize_pos (by rw [pagesFor_mul cfg.blockSize_pos]; omega)
    rw [State.table, State.allotBlocks_seqs, Function.update_self, State.setScheduled_table, htab,
      hids]
    refine ⟨?_, Nat.zero_le _, by omega⟩
    change ([] ++ ids' ++ List.take _ _).length = pagesFor _ (k * cfg.kvcacheBlockSize + m)
    rw [List.nil_append, List.length_append, List.length_take, Nat.min_eq_left hfree, hids]
    omega
  | resumed htab hm hfit =>
    have hfree : (s.setScheduled x m).freeBlockIds = s.freeBlockIds := rfl
    have hpages := hrow.pages
    rw [hsched, Nat.add_zero] at hpages
    have hmono := pagesFor_mono cfg.blockSize_pos
      (show (s.seqs x).numCachedTokens ≤ (s.seqs x).numCachedTokens + m by omega)
    have hself : (s.setScheduled x m).seqs x = { s.seqs x with numScheduledTokens := m } := by
      simp [State.setScheduled]
    rw [State.table, State.claimN_seqs, Function.update_self, State.setScheduled_table, hfree, hself]
    refine ⟨?_, hrow.draft_le, by omega⟩
    change (s.table x ++ List.take _ _).length = pagesFor _ ((s.seqs x).numCachedTokens + m)
    rw [List.length_append, List.length_take, Nat.min_eq_left hfit, extendNeed]
    change (s.table x).length = _ at hpages
    omega

section Settle

variable {rest : List Nat}

theorem Allotted.row {live : List Nat} (ha : Allotted cfg live s x room m t) :
    t.seqs x = { s.seqs x with
      blockTable := t.table x
      numCachedTokens := (t.seqs x).numCachedTokens
      numDraftCachedTokens := (t.seqs x).numDraftCachedTokens
      numScheduledTokens := m } := by
  conv_lhs => rw [ha.seqs, Function.update_self]

theorem Allotted.other {live : List Nat} (ha : Allotted cfg live s x room m t) {y : Nat}
    (hyx : y ≠ x) : t.seqs y = s.seqs y := by
  rw [ha.seqs, Function.update_of_ne hyx]

private theorem Staged.joined (h : Staged cfg [] batch s) (hcore : Core cfg [] s)
    (hwait : s.waiting = x :: rest) (hxb : x ∉ batch)
    (ha : Allotted cfg ([] ++ s.running ++ s.waiting) s x room m t)
    (hpages : (t.table x).length = pagesFor cfg.kvcacheBlockSize ((t.seqs x).numCachedTokens + m))
    (hdraft : (t.seqs x).numDraftCachedTokens ≤ (t.seqs x).numCachedTokens) (hm : 0 < m)
    (hfull : (t.seqs x).numCachedTokens + m = (s.seqs x).numTokens) :
    Staged cfg [] (batch ++ [x]) (t.joinRunning x) := by
  have hctl := t.joinRunning_control x
  rw [ha.control] at hctl
  have hrunning : (t.joinRunning x).running = s.running ++ [x] := by
    refine (congrArg Control.running hctl).trans ?_
    rw [show t.running = s.running from congrArg Control.running ha.control]
  have hwaiting : (t.joinRunning x).waiting = rest := by
    refine (congrArg Control.waiting hctl).trans ?_
    rw [show t.waiting = s.waiting from congrArg Control.waiting ha.control, hwait]
    rfl
  have hother : ∀ y, y ≠ x → (t.joinRunning x).seqs y = s.seqs y := by
    intro y hyx
    rw [State.joinRunning_seqs, Function.update_of_ne hyx, ha.other hyx]
  have hself : (t.joinRunning x).seqs x = { s.seqs x with
      status := .running
      blockTable := t.table x
      numCachedTokens := (t.seqs x).numCachedTokens
      numDraftCachedTokens := (t.seqs x).numDraftCachedTokens
      numScheduledTokens := m } := by
    rw [State.joinRunning_seqs, Function.update_self]
    conv_lhs => rw [ha.row]
  obtain ⟨-, hxrest⟩ := hcore.head_not_mem hwait
  have hlive : ∀ y, y ∈ [] ++ (t.joinRunning x).running ++ (t.joinRunning x).waiting ↔
      y ∈ [] ++ s.running ++ s.waiting := by
    intro y
    rw [hrunning, hwaiting, hwait]
    simp
  refine ⟨?_, ?_, ?_, ?_, ?_, ?_⟩
  · intro y hy
    rw [hrunning] at hy
    by_cases hyx : y = x
    · rw [hyx, hself]
      exact
        { status := rfl
          draft_le := hdraft
          pages := hpages
          cached_lt := ha.cached_lt
          rest := fun hzero => absurd hzero (by
            change m ≠ 0
            omega)
          full := fun _ => hfull }
    · rw [hother y hyx]
      exact h.running y (by simpa [hyx] using hy)
  · intro y hy
    rw [hwaiting] at hy
    have hyx : y ≠ x := fun heq => hxrest (heq ▸ hy)
    rw [hother y hyx]
    exact h.waiting y (by rw [hwait]; exact List.mem_cons_of_mem x hy)
  · have hroom := h.room
    rw [hwait, List.length_cons] at hroom
    rw [hrunning, hwaiting, List.length_append, List.length_singleton]
    omega
  · intro y hy
    rw [hlive]
    by_cases hyx : y = x
    · rw [hyx, hself]
      exact ⟨by simp [hwait], hm⟩
    · rw [hother y hyx]
      exact h.busy y (by simpa [hyx] using hy)
  · intro y hy hyb
    rw [hlive] at hy
    simp only [List.mem_append, List.mem_singleton, not_or] at hyb
    rw [hother y hyb.2]
    exact h.idle y hy hyb.1
  · rw [List.nodup_append]
    refine ⟨h.distinct, List.nodup_singleton x, fun y hy z hz heq => hxb ?_⟩
    rw [← List.mem_singleton.mp hz, ← heq]
    exact hy

private theorem Staged.chunk (h : Staged cfg [] batch s) (hcore : Core cfg [] s)
    (hwait : s.waiting = x :: rest) (hxb : x ∉ batch)
    (ha : Allotted cfg ([] ++ s.running ++ s.waiting) s x room m t)
    (hpages : (t.table x).length = pagesFor cfg.kvcacheBlockSize ((t.seqs x).numCachedTokens + m))
    (hdraft : (t.seqs x).numDraftCachedTokens ≤ (t.seqs x).numCachedTokens) (hm : 0 < m)
    (hpart : (t.seqs x).numCachedTokens + m < (s.seqs x).numTokens) :
    Staged cfg [] (batch ++ [x]) (t.withMid (some x)) := by
  have hrunning : t.running = s.running := congrArg Control.running ha.control
  have hwaiting : t.waiting = s.waiting := congrArg Control.waiting ha.control
  obtain ⟨hxrun, -⟩ := hcore.head_not_mem hwait
  have hxw : x ∈ s.waiting := by simp [hwait]
  have hrow := h.waiting x hxw
  have hlive : ∀ y, y ∈ [] ++ (t.withMid (some x)).running ++ (t.withMid (some x)).waiting ↔
      y ∈ [] ++ s.running ++ s.waiting := by
    intro y
    change y ∈ [] ++ t.running ++ t.waiting ↔ _
    rw [hrunning, hwaiting]
  refine ⟨?_, ?_, ?_, ?_, ?_, ?_⟩
  · intro y hy
    change y ∈ [] ++ t.running at hy
    rw [hrunning] at hy
    have hyx : y ≠ x := fun heq => hxrun (by simpa [heq] using hy)
    change RunningRow cfg (t.seqs y)
    rw [ha.other hyx]
    exact h.running y hy
  · intro y hy
    change y ∈ t.waiting at hy
    rw [hwaiting] at hy
    change WaitingRow cfg (t.seqs y)
    by_cases hyx : y = x
    · rw [hyx, ha.row]
      exact ⟨hrow.status, hrow.prefill, hdraft, hpages, hpart⟩
    · rw [ha.other hyx]
      exact h.waiting y hy
  · change [].length + t.running.length + t.waiting.length ≤ _
    rw [hrunning, hwaiting]
    exact h.room
  · intro y hy
    rw [hlive]
    change _ ∧ 0 < (t.seqs y).numScheduledTokens
    by_cases hyx : y = x
    · rw [hyx, ha.row]
      exact ⟨by simp [hwait], hm⟩
    · rw [ha.other hyx]
      exact h.busy y (by simpa [hyx] using hy)
  · intro y hy hyb
    rw [hlive] at hy
    simp only [List.mem_append, List.mem_singleton, not_or] at hyb
    change (t.seqs y).numScheduledTokens = 0
    rw [ha.other hyb.2]
    exact h.idle y hy hyb.1
  · rw [List.nodup_append]
    refine ⟨h.distinct, List.nodup_singleton x, fun y hy z hz heq => hxb ?_⟩
    rw [← List.mem_singleton.mp hz, ← heq]
    exact hy

theorem State.setScheduled_idle (hsched : (s.seqs x).numScheduledTokens = 0) :
    s.setScheduled x 0 = s := by
  apply State.setSeq_self
  rw [← hsched]

private theorem Staged.sendBack (h : Staged cfg [] batch s) (hcore : Core cfg [] s)
    (hwait : s.waiting = x :: rest) (hxb : x ∉ batch) :
    Staged cfg [] batch (s.sendBack x rest) := by
  have hxw : x ∈ s.waiting := by simp [hwait]
  have hidle := h.idle x (by simp [hxw]) hxb
  have hperm : (([] : List Nat) ++ s.running ++ rest ++ [x]).Perm ([] ++ s.running ++ s.waiting) := by
    rw [hwait, List.append_assoc]
    exact List.Perm.append_left _ List.perm_append_comm
  have hsame : (s.withRunning s.running).withWaiting rest = s.withWaiting rest := rfl
  have hevict := h.evict hcore.own.live_nodup hperm (fun y hy => hy)
    (fun y hy => by
      rw [hwait]
      exact List.mem_cons_of_mem x hy)
    hxb (hcore.nonempty x hxw)
  rw [hsame] at hevict
  unfold State.sendBack
  rw [State.setScheduled_idle hidle]
  exact hevict

end Settle

def HeadIdle (batch : List Nat) (s : State) : Prop := ∀ x ∈ s.waiting, x ∉ batch

private theorem Fills.staged {acc acc' : List Nat} {batched : Nat} (hf : Fills cfg acc batched s acc' u)
    (hready : s.Ready cfg) (h : Staged cfg [] acc s) (hhead : HeadIdle acc s) :
    Staged cfg [] acc' u := by
  induction hf with
  | stop _ => exact h
  | refuse _ _ _ _ _ => exact h
  | @full acc rest acc' batched x m s t u hwait _ hbudget hallot hfull _ ih =>
    have hxw : x ∈ s.waiting := by simp [hwait]
    have hxb := hhead x hxw
    have ha := hready.allotted hwait (by omega) hallot
    obtain ⟨hpages, hdraft, hm⟩ := hallot.paged hready.1.toQuiet hready.2.own (by simp [hxw])
      (by omega) (h.waiting x hxw) (h.idle x (by simp [hxw]) hxb)
    refine ih ((hready.joined hwait ha hfull).record _)
      ((h.joined hready.2 hwait hxb ha hpages hdraft hm hfull).record _) ?_
    intro y hy
    have hwaiting : ((t.joinRunning x).record (.scheduled x)).waiting = rest := by
      refine (congrArg Control.waiting (t.joinRunning_control x)).trans ?_
      rw [show t.waiting = s.waiting from congrArg Control.waiting ha.control, hwait]
      rfl
    rw [hwaiting] at hy
    obtain ⟨-, hxrest⟩ := hready.2.head_not_mem hwait
    have hyx : y ≠ x := fun heq => hxrest (heq ▸ hy)
    simp only [List.mem_append, List.mem_singleton, hyx, or_false]
    exact hhead y (by rw [hwait]; exact List.mem_cons_of_mem x hy)
  | @chunk acc rest batched x m s t hwait _ hbudget hallot hpart =>
    have hxw : x ∈ s.waiting := by simp [hwait]
    have hxb := hhead x hxw
    have ha := hready.allotted hwait (by omega) hallot
    obtain ⟨hpages, hdraft, hm⟩ := hallot.paged hready.1.toQuiet hready.2.own (by simp [hxw])
      (by omega) (h.waiting x hxw) (h.idle x (by simp [hxw]) hxb)
    exact (h.chunk hready.2 hwait hxb ha hpages hdraft hm hpart).record _
  | @sendBackStop acc rest batched x m s hwait _ _ _ _ _ _ =>
    exact h.sendBack hready.2 hwait (hhead x (by simp [hwait]))
  | @sendBack rest acc' batched x m s u hwait _ htab _ _ _ ih =>
    refine ih (hready.sendBack hwait htab).1 (h.sendBack hready.2 hwait (by simp)) ?_
    intro y _
    simp

/-- The rows the fill adds: each joined `running` in order, or is the chunk at the head. -/
structure Filled (s : State) (acc acc' more : List Nat) (u : State) : Prop where
  batch : acc' = acc ++ more
  rows : u.running = s.running ++ more ∨
    ∃ front x, more = front ++ [x] ∧ u.running = s.running ++ front ∧ u.waiting.head? = some x
  from_waiting : ∀ y ∈ more, y ∈ s.waiting
  waiting_sub : ∀ y ∈ u.waiting, y ∈ s.waiting
  frame : ∀ y, y ∉ s.waiting → u.seqs y = s.seqs y

theorem Filled.refl (s : State) (acc : List Nat) : Filled s acc acc [] s where
  batch := (List.append_nil acc).symm
  rows := Or.inl (List.append_nil s.running).symm
  from_waiting := by simp
  waiting_sub := fun _ hy => hy
  frame := fun _ _ => rfl

theorem State.sendBack_filled (s : State) {rest : List Nat}
    (hwait : s.waiting = x :: rest) (acc : List Nat) : Filled s acc acc [] (s.sendBack x rest) where
  batch := (List.append_nil acc).symm
  rows := Or.inl (by
    rw [List.append_nil]
    exact State.evict_running _ x)
  from_waiting := by simp
  waiting_sub := by
    intro y hy
    have hwaiting : (s.sendBack x rest).waiting = rest ++ [x] := State.evict_waiting _ x
    rw [hwaiting] at hy
    rw [hwait]
    simpa [or_comm] using hy
  frame := by
    intro y hy
    have hyx : y ≠ x := by
      intro heq
      apply hy
      rw [heq, hwait]
      simp
    unfold State.sendBack
    rw [State.evict_seqs, Function.update_of_ne hyx]
    exact Function.update_of_ne hyx _ s.seqs

theorem Fills.filled {acc acc' : List Nat} {batched : Nat} (hf : Fills cfg acc batched s acc' u)
    (hready : s.Ready cfg) : ∃ more, Filled s acc acc' more u := by
  induction hf with
  | stop _ => exact ⟨[], .refl _ _⟩
  | refuse _ _ _ _ _ => exact ⟨[], .refl _ _⟩
  | @full acc rest acc' batched x m s t u hwait _ hbudget hallot hfull _ ih =>
    have ha := hready.allotted hwait (by omega) hallot
    obtain ⟨more, hmore⟩ := ih ((hready.joined hwait ha hfull).record _)
    have hctl := t.joinRunning_control x
    rw [ha.control] at hctl
    have hrunning : ((t.joinRunning x).record (.scheduled x)).running = s.running ++ [x] := by
      refine (congrArg Control.running hctl).trans ?_
      rw [show t.running = s.running from congrArg Control.running ha.control]
    have hwaiting : ((t.joinRunning x).record (.scheduled x)).waiting = rest := by
      refine (congrArg Control.waiting hctl).trans ?_
      rw [show t.waiting = s.waiting from congrArg Control.waiting ha.control, hwait]
      rfl
    have hsub : ∀ y ∈ rest, y ∈ s.waiting := by
      intro y hy
      rw [hwait]
      exact List.mem_cons_of_mem x hy
    refine ⟨x :: more, ?_, ?_, ?_, ?_, ?_⟩
    · rw [hmore.batch, List.append_assoc, List.singleton_append]
    · rcases hmore.rows with hrun | ⟨front, w, hfront, hrun, hhead⟩
      · left
        rw [hrun, hrunning, List.append_assoc, List.singleton_append]
      · right
        refine ⟨x :: front, w, by rw [hfront, List.cons_append], ?_, hhead⟩
        rw [hrun, hrunning, List.append_assoc, List.singleton_append]
    · intro y hy
      rcases List.mem_cons.mp hy with heq | hy
      · rw [heq, hwait]
        simp
      · have hold := hmore.from_waiting y hy
        rw [hwaiting] at hold
        exact hsub y hold
    · intro y hy
      have hold := hmore.waiting_sub y hy
      rw [hwaiting] at hold
      exact hsub y hold
    · intro y hy
      have hyx : y ≠ x := by
        intro heq
        apply hy
        rw [heq, hwait]
        simp
      rw [hmore.frame y fun hyr => hy (hsub y (by rwa [hwaiting] at hyr))]
      change (t.joinRunning x).seqs y = s.seqs y
      rw [State.joinRunning_seqs, Function.update_of_ne hyx, ha.other hyx]
  | @chunk acc rest batched x m s t hwait _ hbudget hallot hpart =>
    have ha := hready.allotted hwait (by omega) hallot
    have hrunning : t.running = s.running := congrArg Control.running ha.control
    have hwaiting : t.waiting = s.waiting := congrArg Control.waiting ha.control
    refine ⟨[x], rfl, Or.inr ⟨[], x, rfl, ?_, ?_⟩, ?_, ?_, ?_⟩
    · change t.running = _
      rw [hrunning, List.append_nil]
    · change t.waiting.head? = _
      rw [hwaiting, hwait]
      rfl
    · intro y hy
      rw [List.mem_singleton.mp hy, hwait]
      simp
    · intro y hy
      change y ∈ t.waiting at hy
      rwa [hwaiting] at hy
    · intro y hy
      have hyx : y ≠ x := by
        intro heq
        apply hy
        rw [heq, hwait]
        simp
      exact ha.other hyx
  | @sendBackStop acc rest batched x m s hwait _ _ _ _ _ _ =>
    exact ⟨[], s.sendBack_filled hwait acc⟩
  | @sendBack rest acc' batched x m s u hwait _ htab _ _ _ ih =>
    obtain ⟨more, hmore⟩ := ih (hready.sendBack hwait htab).1
    have hback := s.sendBack_filled hwait ([] : List Nat)
    have hrunning : (s.sendBack x rest).running = s.running := State.evict_running _ x
    refine ⟨more, hmore.batch, ?_, ?_, ?_, ?_⟩
    · rw [← hrunning]
      exact hmore.rows
    · exact fun y hy => hback.waiting_sub y (hmore.from_waiting y hy)
    · exact fun y hy => hback.waiting_sub y (hmore.waiting_sub y hy)
    · intro y hy
      rw [hmore.frame y fun hyr => hy (hback.waiting_sub y hyr), hback.frame y hy]

def State.Settled (s : State) (cfg : Config) : Prop := s.Ready cfg ∧ Staged cfg [] [] s

theorem State.Settled.init (cfg : Config) : (State.init cfg).Settled cfg :=
  ⟨⟨⟨⟨rfl, rfl, rfl, rfl⟩, rfl, rfl, rfl⟩, Core.init cfg⟩, .init cfg⟩

/-- What `schedule` leaves: the batch it returned is out, decode rows first. -/
structure BatchOut (cfg : Config) (decodes prefills : List Nat) (u : State) : Prop where
  ready : u.Ready cfg
  staged : Staged cfg [] (decodes ++ prefills) u
  decode : ∀ x ∈ decodes, (u.seqs x).isPrefill = false ∧ (u.seqs x).numScheduledTokens = 1
  running : u.running = decodes ++ prefills ∨
    ∃ front x, prefills = front ++ [x] ∧ u.running = decodes ++ front ∧ u.waiting.head? = some x

theorem BatchOut.pure_decode {decodes : List Nat} (h : BatchOut cfg decodes [] u) :
    u.running = decodes := by
  rcases h.running with hrun | ⟨front, x, hnil, -⟩
  · rw [hrun, List.append_nil]
  · exact absurd hnil (by simp)

theorem Schedules.batchOut {done : List Nat} {t : State} (h : s.Settled cfg)
    (hs : Schedules cfg s done t batch u) :
    ∃ prefills, batch = done ++ prefills ∧ BatchOut cfg done prefills u := by
  have hgood := DecodeWalk.good hs.walk h.1.good
  obtain ⟨hst, hdec⟩ := DecodeWalk.stages hs.walk h.1.good ⟨h.2, by simp [Cursor.Decodes]⟩
  have hjoin := Cursor.Good.rejoin hgood
  -- The loop stops at `max_num_seqs` rows only when no running row is left.
  have hrunning : t.running = [] := by
    rcases hs.served with hrun | hfull
    · exact hrun
    · have hroom := hst.room
      simp only [Cursor.rows, Option.toList_none, List.append_nil] at hroom
      exact List.length_eq_zero_iff.mp (by omega)
  have hrows : (t.withRunning (done ++ t.running)).running = done := by
    change done ++ t.running = done
    rw [hrunning, List.append_nil]
  have hst' : Staged cfg [] done (t.withRunning (done ++ t.running)) := by
    apply hst.shift
    simp [Cursor.rows]
  have hhead : HeadIdle done (t.withRunning (done ++ t.running)) :=
    fun x hx => hgood.live_not_done (List.mem_append_right _ hx)
  obtain ⟨prefills, hfilled⟩ := hs.fills.filled hjoin
  have hstaged := hs.fills.staged hjoin hst' hhead
  have hready := hs.fills.ready hjoin
  refine ⟨prefills, hfilled.batch, hready, ?_, ?_, ?_⟩
  · rw [← hfilled.batch]
    exact hstaged
  · intro x hx
    rw [hfilled.frame x fun hw => hhead x hw hx]
    exact hdec x hx
  · have hrows' := hfilled.rows
    rw [hrows] at hrows'
    exact hrows'

/-- From a settled state `schedule` returns a batch that is out, or leaves a settled state
behind its error. -/
theorem State.Settled.schedule_cases (h : s.Settled cfg) :
    (∃ message u, schedule cfg s = .error (.runtimeError message) u ∧ u.Settled cfg) ∨
    ∃ decodes prefills u, decodes ++ prefills ≠ [] ∧ BatchOut cfg decodes prefills u ∧
      schedule cfg s = .ok (decodes ++ prefills, decide (prefills ≠ [])) u := by
  obtain ⟨done, t, batch, u, hs, -, hok, herr⟩ := schedule_trace h.1
  obtain ⟨prefills, hbatch, hout⟩ := hs.batchOut h
  by_cases hnil : batch = []
  · left
    obtain ⟨message, hres⟩ := herr hnil
    have hempty : done ++ prefills = [] := by rw [← hbatch, hnil]
    have hst := hout.staged
    rw [hempty] at hst
    exact ⟨message, u, hres, hout.ready, hst⟩
  · right
    refine ⟨done, prefills, u, by rwa [← hbatch], hout, ?_⟩
    rw [hok hnil, hbatch]
    have hflag : decide (done.length < (done ++ prefills).length) = decide (prefills ≠ []) := by
      rw [List.length_append, decide_eq_decide]
      constructor
      · intro hlt hnone
        rw [hnone, List.length_nil] at hlt
        omega
      · intro hne
        have := List.length_pos_of_ne_nil hne
        omega
    rw [hflag]

end NanoVllm
