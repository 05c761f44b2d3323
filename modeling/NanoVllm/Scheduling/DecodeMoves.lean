/- module: NanoVllm/Scheduling/DecodeMoves
   layer: refinement
   source: nanovllm/engine/scheduler.py, the decode loop of schedule
   digest: The decode loop as a walk of five moves, each of which keeps the core invariant. -/

import Mathlib.Logic.Relation
import NanoVllm.Ownership.Core

set_option autoImplicit false
set_option relaxedAutoImplicit false

namespace NanoVllm

open Library

variable {cfg : Config} {held : List Nat} {s : State} {x : Nat}

theorem OwnIf.setRow {live : List Nat} {cov : Nat → Nat}
    (h : OwnIf cfg.CollisionFree cfg live s.table cov s)
    {q : Sequence} (htab : q.blockTable = s.table x) :
    OwnIf cfg.CollisionFree cfg live (s.setSeq x q).table cov (s.setSeq x q) := by
  rw [State.setSeq_table, htab, Function.update_eq_self]
  exact h.congr_pool rfl rfl rfl rfl

theorem Core.shift (h : Core cfg held s) {held' r : List Nat}
    (heq : held' ++ r = held ++ s.running) : Core cfg held' (s.withRunning r) where
  own := by
    change OwnIf cfg.CollisionFree cfg (held' ++ r ++ s.waiting) s.table (s.coverage cfg) _
    rw [heq]
    exact h.own.congr_pool rfl rfl rfl rfl
  mid_owner := h.mid_owner
  mid_head := h.mid_head
  started := by
    change ∀ y ∈ held' ++ r, _
    rw [heq]
    exact h.started
  chunked := h.chunked
  nonempty := h.nonempty
  known := by
    change ∀ y ∈ held' ++ r ++ s.waiting, _
    rw [heq]
    exact h.known
  dead := by
    change ∀ y, y ∉ held' ++ r ++ s.waiting → _
    rw [heq]
    exact h.dead

/-- One live row outside `waiting` takes a new record with the same coverage and a
table that ownership accepts. -/
theorem Core.updateRow (h : Core cfg held s) {t : State} {row : Sequence}
    (hx : x ∈ held ++ s.running) (hseqs : t.seqs = Function.update s.seqs x row)
    (hcontrol : t.control = s.control)
    (hown : OwnIf cfg.CollisionFree cfg (held ++ s.running ++ s.waiting) t.table
      (t.coverage cfg) t) (hrow : Started cfg row) : Core cfg held t := by
  have hrunning : t.running = s.running := congrArg Control.running hcontrol
  have hwaiting : t.waiting = s.waiting := congrArg Control.waiting hcontrol
  have hmid : t.midChunkSeq = s.midChunkSeq := congrArg Control.midChunkSeq hcontrol
  have hnext : t.nextSeqId = s.nextSeqId := congrArg Control.nextSeqId hcontrol
  have hother : ∀ y, y ≠ x → t.table y = s.table y := by
    intro y hyx
    rw [State.table, hseqs, Function.update_of_ne hyx, State.table]
  have hxw : ∀ w ∈ s.waiting, w ≠ x := by
    intro w hw heq
    subst heq
    exact (List.nodup_append.mp h.own.live_nodup).2.2 w hx w hw rfl
  refine ⟨?_, ?_, ?_, ?_, ?_, ?_, ?_, ?_⟩
  · rw [hrunning, hwaiting]
    exact hown
  · intro w hw htab
    rw [hwaiting] at hw
    rw [hother w (hxw w hw)] at htab
    rw [hmid]
    exact h.mid_owner w hw htab
  · intro w hw
    rw [hmid] at hw
    obtain ⟨hhead, htab⟩ := h.mid_head w hw
    have hmem : w ∈ s.waiting := List.mem_of_mem_head? (by rw [hhead]; rfl)
    rw [hwaiting, hother w (hxw w hmem)]
    exact ⟨hhead, htab⟩
  · intro y hy
    rw [hrunning] at hy
    rw [hseqs]
    by_cases hyx : y = x
    · subst hyx
      rw [Function.update_self]
      exact hrow
    · rw [Function.update_of_ne hyx]
      exact h.started y hy
  · intro w hw htab
    rw [hwaiting] at hw
    have hwx := hxw w hw
    rw [hother w hwx] at htab
    rw [hseqs, Function.update_of_ne hwx]
    exact h.chunked w hw htab
  · intro w hw
    rw [hwaiting] at hw
    rw [hseqs, Function.update_of_ne (hxw w hw)]
    exact h.nonempty w hw
  · intro y hy
    rw [hrunning, hwaiting] at hy
    rw [hnext]
    exact h.known y hy
  · intro y hy
    rw [hrunning, hwaiting] at hy
    have hyx : y ≠ x := by
      intro heq
      subst heq
      exact hy (List.mem_append_left _ hx)
    rw [hother y hyx]
    exact h.dead y hy

theorem checkMidChunkInvariant_core (h : Core cfg held s) :
    checkMidChunkInvariant s = .ok ⟨⟩ s := by
  unfold checkMidChunkInvariant
  cases hmid : s.midChunkSeq with
  | none =>
    cases hwait : s.waiting with
    | nil => simp [hmid, hwait]
    | cons w rest =>
      have htab : (s.seqs w).blockTable = [] := by
        by_contra hne
        have := h.mid_owner w (by rw [hwait]; simp) hne
        rw [hmid] at this
        exact absurd this (by simp)
      simp [hmid, hwait, htab]
  | some w =>
    obtain ⟨hhead, htab⟩ := h.mid_head w hmid
    have htab' : (s.seqs w).blockTable ≠ [] := htab
    simp [hmid, hhead, htab']

theorem Core.numTokens_pos (h : Core cfg held s) (hx : x ∈ held ++ s.running ++ s.waiting) :
    0 < (s.seqs x).numTokens := by
  rcases List.mem_append.mp hx with hx | hx
  · have := (h.started x hx).cached_lt
    omega
  · exact h.nonempty x hx

def State.grant (s : State) (cfg : Config) (x : Nat) : State :=
  (s.setSeq x { s.seqs x with numScheduledTokens := 1, isPrefill := false }).claimN x
    (appendNeed cfg (s.seqs x).numTokens)

@[simp] theorem State.grant_control (s : State) (cfg : Config) (x : Nat) :
    (s.grant cfg x).control = s.control := by
  simp [State.grant]

theorem State.grant_seqs (s : State) (cfg : Config) (x : Nat) :
    (s.grant cfg x).seqs = Function.update s.seqs x
      { s.seqs x with
        numScheduledTokens := 1
        isPrefill := false
        blockTable := s.table x ++ s.freeBlockIds.take (appendNeed cfg (s.seqs x).numTokens) } := by
  rw [State.grant, State.claimN_seqs, State.setSeq_seqs, Function.update_idem,
    Function.update_self]
  have htab : (s.setSeq x
      { s.seqs x with numScheduledTokens := 1, isPrefill := false }).table x = s.table x := by
    simp [State.table]
  rw [htab]
  rfl

private theorem started_grow {len table : Nat} (hroomy : len ≤ table * cfg.kvcacheBlockSize + 1) :
    len ≤ (table + appendNeed cfg len) * cfg.kvcacheBlockSize := by
  have hbs := cfg.blockSize_ge
  unfold appendNeed
  split
  · rw [Nat.add_mul]
    omega
  · rename_i hmod
    rw [Nat.add_zero]
    by_contra hgt
    have heq : len = table * cfg.kvcacheBlockSize + 1 := by omega
    apply hmod
    rw [heq, Nat.add_comm, Nat.add_mul_mod_self_right, Nat.mod_eq_of_lt hbs]

private theorem Core.grant (h : Core cfg held s) (hx : x ∈ held)
    (hcan : canAppend cfg s x = true) : Core cfg held (s.grant cfg x) := by
  have hx' : x ∈ held ++ s.running := List.mem_append_left _ hx
  have hrow := h.started x hx'
  rw [canAppend_iff] at hcan
  apply h.updateRow hx' (s.grant_seqs cfg x) (s.grant_control cfg x)
  · have hset := h.own.setRow (x := x)
      (q := { s.seqs x with numScheduledTokens := 1, isPrefill := false }) rfl
    apply (hset.claimN (List.mem_append_left _ hx') _).mono_cov
    intro y _
    simp only [State.coverage, State.grant_seqs]
    by_cases hyx : y = x
    · subst hyx
      rw [Function.update_self]
    · rw [Function.update_of_ne hyx]
  · have hgrow := started_grow hrow.roomy
    have hlen : (s.table x ++ s.freeBlockIds.take (appendNeed cfg (s.seqs x).numTokens)).length =
        (s.seqs x).blockTable.length + appendNeed cfg (s.seqs x).numTokens := by
      rw [List.length_append, List.length_take, Nat.min_eq_left hcan]
      rfl
    have hcached := hrow.cached_lt
    refine ⟨hcached, ?_, hcached, ?_⟩
    · change (s.seqs x).numCachedTokens + 1 ≤ (s.table x ++ _).length * _
      rw [hlen]
      omega
    · change _ ≤ (s.table x ++ _).length * _ + 1
      rw [hlen]
      change (s.seqs x).numTokens ≤ _
      omega

/-- The decode loop between two source lines: the rows scheduled so far and the
row in hand, both outside the queues. -/
structure Cursor where
  done : List Nat
  hand : Option Nat
  st : State

def Cursor.rows (c : Cursor) : List Nat := c.done ++ c.hand.toList

inductive DecodeMove (cfg : Config) : Cursor → Cursor → Prop
  /-- The next running row is taken in hand. -/
  | take {done rest : List Nat} {x : Nat} {s : State} (hrun : s.running = x :: rest)
      (hcap : done.length < cfg.maxNumSeqs) :
      DecodeMove cfg ⟨done, none, s⟩ ⟨done, some x, (s.withRunning rest)⟩
  /-- No room: the mid-chunk prefill is reclaimed first. -/
  | evictMid {done rest : List Nat} {x w : Nat} {s : State} (hfull : canAppend cfg s x = false)
      (hmid : s.midChunkSeq = some w) (hwait : s.waiting = w :: rest) :
      DecodeMove cfg ⟨done, some x, s⟩ ⟨done, some x, (s.withWaiting rest).evict w⟩
  /-- Then the last decode row that is not scheduled yet. -/
  | evictLast {done rest : List Nat} {x v : Nat} {s : State} (hfull : canAppend cfg s x = false)
      (hmid : s.midChunkSeq = none) (hrun : s.running = rest ++ [v]) :
      DecodeMove cfg ⟨done, some x, s⟩ ⟨done, some x, (s.withRunning rest).evict v⟩
  /-- Then the row in hand itself. -/
  | evictSelf {done : List Nat} {x : Nat} {s : State} (hfull : canAppend cfg s x = false)
      (hmid : s.midChunkSeq = none) (hrun : s.running = []) :
      DecodeMove cfg ⟨done, some x, s⟩ ⟨done, none, s.evict x⟩
  /-- The row is scheduled for one token. -/
  | grant {done : List Nat} {x : Nat} {s : State} (hroom : canAppend cfg s x = true) :
      DecodeMove cfg ⟨done, some x, s⟩
        ⟨done ++ [x], none, (s.grant cfg x).record (.scheduled x)⟩

def Cursor.Good (cfg : Config) (c : Cursor) : Prop := c.st.Calm ∧ Core cfg c.rows c.st

theorem State.Calm.requeue (h : s.Calm) (r w : List Nat) :
    ((s.withRunning r).withWaiting w).Calm where
  reservation := h.reservation
  progress := h.progress
  internal := h.internal
  fault := h.fault
  transaction := h.transaction
  discard := h.discard
  pending := h.pending

private theorem DecodeMove.good {c c' : Cursor} (hm : DecodeMove cfg c c') (h : c.Good cfg) :
    c'.Good cfg := by
  cases hm with
  | @take done rest x s hrun hcap =>
    obtain ⟨hcalm, hcore⟩ := h
    refine ⟨hcalm.requeue rest s.waiting, hcore.shift ?_⟩
    simp [Cursor.rows, hrun]
  | @evictMid done rest x w s hfull hmid hwait =>
    obtain ⟨hcalm, hcore⟩ := h
    have hwlive : w ∈ Cursor.rows ⟨done, some x, s⟩ ++ s.running ++ s.waiting := by
      simp [hwait]
    have hperm : (Cursor.rows ⟨done, some x, s⟩ ++ s.running ++ rest ++ [w]).Perm
        (Cursor.rows ⟨done, some x, s⟩ ++ s.running ++ s.waiting) := by
      rw [hwait, List.append_assoc]
      exact List.Perm.append_left _ (List.perm_append_comm : (rest ++ [w]).Perm ([w] ++ rest))
    exact ⟨(hcalm.requeue s.running rest).evict,
      (hcore.evict (Or.inr hmid) hperm (fun y hy => hy) (by rw [hwait]; simp_all)
        (hcore.numTokens_pos hwlive)).1⟩
  | @evictLast done rest x v s hfull hmid hrun =>
    obtain ⟨hcalm, hcore⟩ := h
    have hvlive : v ∈ Cursor.rows ⟨done, some x, s⟩ ++ s.running ++ s.waiting := by
      simp [hrun]
    have hperm : (Cursor.rows ⟨done, some x, s⟩ ++ rest ++ s.waiting ++ [v]).Perm
        (Cursor.rows ⟨done, some x, s⟩ ++ s.running ++ s.waiting) := by
      rw [hrun, ← List.append_assoc]
      simp only [List.append_assoc]
      exact List.Perm.append_left _ (List.Perm.append_left _ List.perm_append_comm)
    refine ⟨(hcalm.requeue rest s.waiting).evict,
      (hcore.evict (Or.inl hmid) hperm ?_ (fun y hy => hy) (hcore.numTokens_pos hvlive)).1⟩
    intro y hy
    rw [hrun, ← List.append_assoc]
    exact List.mem_append_left _ hy
  | @evictSelf done x s hfull hmid hrun =>
    obtain ⟨hcalm, hcore⟩ := h
    have hxlive : x ∈ Cursor.rows ⟨done, some x, s⟩ ++ s.running ++ s.waiting := by
      simp [Cursor.rows]
    have hperm : (Cursor.rows ⟨done, none, s⟩ ++ s.running ++ s.waiting ++ [x]).Perm
        (Cursor.rows ⟨done, some x, s⟩ ++ s.running ++ s.waiting) := by
      simp only [Cursor.rows, hrun, Option.toList_none, Option.toList_some, List.append_nil,
        List.append_assoc]
      exact List.Perm.append_left _ List.perm_append_comm
    refine ⟨hcalm.evict,
      (hcore.evict (Or.inl hmid) hperm ?_ (fun y hy => hy) (hcore.numTokens_pos hxlive)).1⟩
    intro y hy
    simp only [Cursor.rows, Option.toList_none, Option.toList_some, List.append_nil,
      List.mem_append] at hy ⊢
    tauto
  | @grant done x s hroom =>
    obtain ⟨hcalm, hcore⟩ := h
    refine ⟨(hcalm.of_control (s.grant_control cfg x)).record _, ?_⟩
    have hheld : Cursor.rows ⟨done ++ [x], none, (s.grant cfg x).record (.scheduled x)⟩ =
        Cursor.rows ⟨done, some x, s⟩ := by
      simp [Cursor.rows]
    rw [hheld]
    exact (hcore.grant (by simp [Cursor.rows]) hroom).record _

abbrev DecodeWalk (cfg : Config) := Relation.ReflTransGen (DecodeMove cfg)

theorem DecodeWalk.good {c c' : Cursor} (hw : DecodeWalk cfg c c') (h : c.Good cfg) :
    c'.Good cfg := by
  induction hw with
  | refl => exact h
  | tail _ hm ih => exact hm.good ih

theorem preempt_good {held' : List Nat} {live : List Nat} {cov : Nat → Nat} (hc : s.Calm)
    (h : OwnIf cfg.CollisionFree cfg live s.table cov s) (hx : x ∈ live)
    (hafter : Core cfg held' (s.evict x)) :
    preempt cfg x s = .ok ⟨⟩ (s.evict x) := by
  rw [preempt_calm hc h hx, checkMidChunkInvariant_core hafter]

def roomFuel (s : State) : Nat :=
  (if s.midChunkSeq.isSome then 1 else 0) + s.running.length + 1

private theorem makeRoom_walk {done : List Nat} : ∀ {fuel : Nat} {s : State},
    Cursor.Good cfg ⟨done, some x, s⟩ → roomFuel s ≤ fuel →
      ∃ granted t, makeRoom cfg x fuel s = .ok granted t ∧
        DecodeWalk cfg ⟨done, some x, s⟩ ⟨done, if granted then some x else none, t⟩ ∧
        (granted = true → canAppend cfg t x = true) ∧ t.running.length ≤ s.running.length := by
  intro fuel
  induction fuel with
  | zero =>
    intro s _ hfuel
    exact absurd hfuel (by simp [roomFuel])
  | succ fuel ih =>
    intro s hgood hfuel
    obtain ⟨hcalm, hcore⟩ := hgood
    by_cases hcan : canAppend cfg s x = true
    · refine ⟨true, s, ?_, Relation.ReflTransGen.refl, fun _ => hcan, le_rfl⟩
      simp [makeRoom, hcan]
    · have hfull : canAppend cfg s x = false := by simpa using hcan
      cases hmid : s.midChunkSeq with
      | some w =>
        obtain ⟨hhead, -⟩ := hcore.mid_head w hmid
        obtain ⟨rest, hwait⟩ : ∃ rest, s.waiting = w :: rest := by
          cases hw : s.waiting with
          | nil =>
            rw [hw] at hhead
            exact absurd hhead (by simp)
          | cons w' rest =>
            rw [hw] at hhead
            exact ⟨rest, by rw [Option.some.inj hhead]⟩
        have hmove : DecodeMove cfg ⟨done, some x, s⟩
            ⟨done, some x, (s.withWaiting rest).evict w⟩ := .evictMid hfull hmid hwait
        have hgood' := hmove.good ⟨hcalm, hcore⟩
        have hrun : ((s.withWaiting rest).evict w).running = s.running :=
          (s.withWaiting rest).evict_running w
        have hnone : ((s.withWaiting rest).evict w).midChunkSeq = none :=
          State.evict_mid (Or.inr hmid)
        have hpre : preempt cfg w (s.withWaiting rest) =
            .ok ⟨⟩ ((s.withWaiting rest).evict w) := by
          have hown : OwnIf cfg.CollisionFree cfg (Cursor.rows ⟨done, some x, s⟩ ++ s.running ++ s.waiting)
              (State.table (s.withWaiting rest)) (s.coverage cfg)
              (s.withWaiting rest) := hcore.own.congr_pool rfl rfl rfl rfl
          exact preempt_good (hcalm.requeue s.running rest) hown (by simp [hwait]) hgood'.2
        have hfuel' : roomFuel ((s.withWaiting rest).evict w) ≤ fuel := by
          simp only [roomFuel, hmid, Option.isSome_some, ↓reduceIte] at hfuel
          simp only [roomFuel, hnone, hrun, Option.isSome_none, Bool.false_eq_true, ↓reduceIte]
          omega
        obtain ⟨granted, t, hrec, hwalk, hroom, hlen⟩ := ih hgood' hfuel'
        refine ⟨granted, t, ?_, Relation.ReflTransGen.head hmove hwalk, hroom, by rwa [hrun] at hlen⟩
        simp [makeRoom, hfull, hmid, hwait, hpre, hrec]
      | none =>
        rcases List.eq_nil_or_concat s.running with hrun | ⟨rest, v, hrun⟩
        · have hmove : DecodeMove cfg ⟨done, some x, s⟩ ⟨done, none, s.evict x⟩ :=
            .evictSelf hfull hmid hrun
          have hgood' := hmove.good ⟨hcalm, hcore⟩
          have hpre : preempt cfg x s = .ok ⟨⟩ (s.evict x) :=
            preempt_good hcalm hcore.own (by simp [Cursor.rows]) hgood'.2
          refine ⟨false, s.evict x, ?_, Relation.ReflTransGen.single hmove, by simp,
            by rw [s.evict_running x]⟩
          simp [makeRoom, hfull, hmid, hrun, hpre]
        · rw [List.concat_eq_append] at hrun
          have hmove : DecodeMove cfg ⟨done, some x, s⟩
              ⟨done, some x, (s.withRunning rest).evict v⟩ := .evictLast hfull hmid hrun
          have hgood' := hmove.good ⟨hcalm, hcore⟩
          have hrun' : ((s.withRunning rest).evict v).running = rest :=
            (s.withRunning rest).evict_running v
          have hnone : ((s.withRunning rest).evict v).midChunkSeq = none :=
            State.evict_mid (Or.inl hmid)
          have hpre : preempt cfg v (s.withRunning rest) =
              .ok ⟨⟩ ((s.withRunning rest).evict v) := by
            have hown : OwnIf cfg.CollisionFree cfg (Cursor.rows ⟨done, some x, s⟩ ++ s.running ++ s.waiting)
                (State.table (s.withRunning rest)) (s.coverage cfg)
                (s.withRunning rest) := hcore.own.congr_pool rfl rfl rfl rfl
            exact preempt_good (hcalm.requeue rest s.waiting) hown (by simp [hrun]) hgood'.2
          have hfuel' : roomFuel ((s.withRunning rest).evict v) ≤ fuel := by
            simp only [roomFuel, hmid, hrun, Option.isSome_none, Bool.false_eq_true, ↓reduceIte,
              List.length_append, List.length_singleton] at hfuel
            simp only [roomFuel, hnone, hrun', Option.isSome_none, Bool.false_eq_true, ↓reduceIte]
            omega
          obtain ⟨granted, t, hrec, hwalk, hroom, hlen⟩ := ih hgood' hfuel'
          refine ⟨granted, t, ?_, Relation.ReflTransGen.head hmove hwalk, hroom, ?_⟩
          · simp [makeRoom, hfull, hmid, hrun, hpre, hrec]
          · rw [hrun'] at hlen
            rw [hrun, List.length_append]
            omega

/-- The decode loop returns; it stops when every running row was served or the
batch is full. -/
theorem decodeLoop_walk : ∀ {fuel : Nat} {done : List Nat} {s : State},
    Cursor.Good cfg ⟨done, none, s⟩ → s.running.length + 1 ≤ fuel →
      ∃ done' t, decodeLoop cfg fuel done s = .ok done' t ∧
        DecodeWalk cfg ⟨done, none, s⟩ ⟨done', none, t⟩ ∧
        (t.running = [] ∨ cfg.maxNumSeqs ≤ done'.length) := by
  intro fuel
  induction fuel with
  | zero =>
    intro done s _ hfuel
    omega
  | succ fuel ih =>
    intro done s hgood hfuel
    cases hrun : s.running with
    | nil =>
      refine ⟨done, s, ?_, Relation.ReflTransGen.refl, Or.inl hrun⟩
      simp [decodeLoop, hrun]
    | cons x rest =>
      by_cases hcap : done.length < cfg.maxNumSeqs
      · have htake : DecodeMove cfg ⟨done, none, s⟩ ⟨done, some x, (s.withRunning rest)⟩ :=
          .take hrun hcap
        have hgood1 := htake.good hgood
        have hroomfuel : roomFuel (s.withRunning rest) ≤ rest.length + 2 := by
          simp only [roomFuel, State.withRunning_running]
          split <;> omega
        obtain ⟨granted, t, hroom, hwalk, hcan, hlen⟩ := makeRoom_walk hgood1 hroomfuel
        rw [hrun, List.length_cons] at hfuel
        have hlen' : t.running.length ≤ rest.length := hlen
        have hgood2 := DecodeWalk.good hwalk hgood1
        cases granted with
        | false =>
          obtain ⟨done', u, hrec, hwalk', hstop⟩ := ih hgood2 (by omega)
          refine ⟨done', u, ?_, (Relation.ReflTransGen.head htake hwalk).trans hwalk', hstop⟩
          simp [decodeLoop, hrun, hcap, hroom, hrec]
        | true =>
          have hgrant : DecodeMove cfg ⟨done, some x, t⟩
              ⟨done ++ [x], none, (t.grant cfg x).record (.scheduled x)⟩ := .grant (hcan rfl)
          have hgood3 := hgrant.good hgood2
          have hrun3 : ((t.grant cfg x).record (.scheduled x)).running = t.running :=
            congrArg Control.running (t.grant_control cfg x)
          obtain ⟨done', u, hrec, hwalk', hstop⟩ := ih hgood3 (by rw [hrun3]; omega)
          refine ⟨done', u, ?_, ((Relation.ReflTransGen.head htake hwalk).tail hgrant).trans hwalk',
            hstop⟩
          have happend : mayAppend cfg x (t.setSeq x
              { t.seqs x with numScheduledTokens := 1, isPrefill := false }) =
              .ok ⟨⟩ (t.grant cfg x) := by
            have hset := hgood2.2.own.setRow (x := x)
              (q := { t.seqs x with numScheduledTokens := 1, isPrefill := false }) rfl
            have hquiet := hgood2.1.toQuiet.of_control (t := t.setSeq x
              { t.seqs x with numScheduledTokens := 1, isPrefill := false }) rfl
            have hcan' : canAppend cfg (t.setSeq x
                { t.seqs x with numScheduledTokens := 1, isPrefill := false }) x = true := by
              have hroom := (canAppend_iff cfg t x).mp (hcan rfl)
              rw [canAppend_iff]
              simpa [State.setSeq, Sequence.numTokens] using hroom
            rw [mayAppend_quiet hquiet hset (by simp [Cursor.rows]) hcan']
            simp [State.grant, Sequence.numTokens]
          simp [decodeLoop, hrun, hcap, hroom, modifySeq, happend, hrec]
      · refine ⟨done, s, ?_, Relation.ReflTransGen.refl, Or.inr (Nat.le_of_not_lt hcap)⟩
        simp [decodeLoop, hrun, hcap]

end NanoVllm
