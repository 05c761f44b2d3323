/- module: NanoVllm/Scheduling/Batches
   layer: invariant
   source: nanovllm/engine/scheduler.py, Scheduler.schedule
   digest: The rows of a scheduled batch, whatever happened to the steps before it. -/

import NanoVllm.Ownership.Ledger
import NanoVllm.Scheduling.Staged

set_option autoImplicit false
set_option relaxedAutoImplicit false

namespace NanoVllm

open Library

variable {cfg : Config} {s t u : State} {x room m : Nat} {r w acc acc' : List Nat}

def Flagged (s : State) : Prop := ∀ x ∈ s.waiting, s.prefill x = true

theorem Flagged.init (cfg : Config) : Flagged (State.init cfg) := by
  simp [Flagged, State.init]

private theorem Flagged.evict (h : ∀ y ∈ w, s.prefill y = true) :
    Flagged (((s.withRunning r).withWaiting w).evict x) := by
  intro y hy
  rw [State.evict_waiting] at hy
  change ((((s.withRunning r).withWaiting w).evict x).seqs y).isPrefill = true
  rw [State.evict_seqs]
  by_cases hyx : y = x
  · rw [hyx, Function.update_self]
  · rw [Function.update_of_ne hyx]
    have hyw : y ∈ w := by
      rcases List.mem_append.mp hy with hy | hy
      · exact hy
      · exact absurd (List.mem_singleton.mp hy) hyx
    exact h y hyw

/-- What the walk knows of its rows: the scheduled ones are decode rows of one token, the
waiting ones are marked for prefill, and no more rows are taken than a batch may have. -/
structure Cursor.Marked (cfg : Config) (c : Cursor) : Prop where
  decodes : c.Decodes
  flagged : Flagged c.st
  capacity : c.rows.length ≤ cfg.maxNumSeqs

private theorem DecodeMove.marked {c c' : Cursor} (hm : DecodeMove cfg c c') (hgood : c.Good cfg)
    (h : c.Marked cfg) : c'.Marked cfg := by
  obtain ⟨hdec, hflag, hcap⟩ := h
  cases hm with
  | @take done rest x s hrun hlt =>
    refine ⟨hdec, hflag, ?_⟩
    simp only [Cursor.rows, Option.toList_some, List.length_append, List.length_singleton]
    exact hlt
  | @evictMid done rest x v s hfull hmid hwait =>
    have hnot := hgood.live_not_done (x := v) (by simp [hwait])
    have hrest : ∀ y ∈ rest, s.prefill y = true := by
      intro y hy
      refine hflag y ?_
      change y ∈ s.waiting
      rw [hwait]
      exact List.mem_cons_of_mem v hy
    exact ⟨Cursor.Decodes.evict (r := s.running) (w := rest) hdec hnot,
      Flagged.evict (r := s.running) hrest, hcap⟩
  | @evictLast done rest x v s hfull hmid hrun =>
    have hnot := hgood.live_not_done (x := v) (by simp [hrun])
    exact ⟨Cursor.Decodes.evict (r := rest) (w := s.waiting) hdec hnot,
      Flagged.evict (r := rest) (w := s.waiting) hflag, hcap⟩
  | @evictSelf done x s hfull hmid hrun =>
    refine ⟨Cursor.Decodes.evict (r := s.running) (w := s.waiting) hdec hgood.hand_not_done,
      Flagged.evict (r := s.running) (w := s.waiting) hflag, ?_⟩
    simp only [Cursor.rows, Option.toList_some, Option.toList_none, List.length_append,
      List.length_singleton, List.length_nil] at hcap ⊢
    omega
  | @grant done x s hroom =>
    have hxd := hgood.hand_not_done
    have hother : ∀ y, y ≠ x → (s.grant cfg x).seqs y = s.seqs y := by
      intro y hyx
      rw [State.grant_seqs, Function.update_of_ne hyx]
    refine ⟨?_, ?_, ?_⟩
    · intro y hy
      change ((s.grant cfg x).seqs y).isPrefill = false ∧
        ((s.grant cfg x).seqs y).numScheduledTokens = 1
      by_cases hyx : y = x
      · rw [hyx, State.grant_seqs, Function.update_self]
        exact ⟨rfl, rfl⟩
      · rw [hother y hyx]
        exact hdec y (by simpa [hyx] using hy)
    · intro y hy
      have hwaiting : (s.grant cfg x).waiting = s.waiting :=
        congrArg Control.waiting (s.grant_control cfg x)
      change y ∈ (s.grant cfg x).waiting at hy
      change ((s.grant cfg x).seqs y).isPrefill = true
      rw [hwaiting] at hy
      have hyx : y ≠ x := by
        intro heq
        have hnd := hgood.2.own.live_nodup
        refine (List.nodup_append.mp hnd).2.2 x ?_ y hy heq.symm
        simp [Cursor.rows]
      rw [hother y hyx]
      exact hflag y hy
    · simpa [Cursor.rows] using hcap

private theorem DecodeWalk.marked {c c' : Cursor} (hw : DecodeWalk cfg c c') (hgood : c.Good cfg)
    (h : c.Marked cfg) : c'.Marked cfg := by
  induction hw with
  | refl => exact h
  | tail hw hm ih => exact hm.marked (DecodeWalk.good hw hgood) ih

/-- The rows `more` that a fill adds, from the token count `batched` on. -/
structure Chunks (cfg : Config) (batched : Nat) (more : List Nat) (u : State) : Prop where
  prefill : ∀ y ∈ more, u.prefill y = true
  scheduled : ∀ y ∈ more, 0 < (u.seqs y).numScheduledTokens
  owned : ∀ y ∈ more, u.table y ≠ []
  budget : batched + (more.map fun y => (u.seqs y).numScheduledTokens).sum ≤
    max batched cfg.maxNumBatchedTokens

private theorem Chunks.nil (cfg : Config) (batched : Nat) (u : State) : Chunks cfg batched [] u where
  prefill := by simp
  scheduled := by simp
  owned := by simp
  budget := Nat.le_max_left _ _

private theorem Chunks.cons {batched : Nat} {more : List Nat} (h : Chunks cfg (batched + m) more u)
    (hprefill : u.prefill x = true) (hsched : (u.seqs x).numScheduledTokens = m) (hm : 0 < m)
    (htab : u.table x ≠ []) (hfits : batched + m ≤ cfg.maxNumBatchedTokens) :
    Chunks cfg batched (x :: more) u where
  prefill := List.forall_mem_cons.mpr ⟨hprefill, h.prefill⟩
  scheduled := List.forall_mem_cons.mpr ⟨by rw [hsched]; exact hm, h.scheduled⟩
  owned := List.forall_mem_cons.mpr ⟨htab, h.owned⟩
  budget := by
    have hbudget := h.budget
    rw [List.map_cons, List.sum_cons, hsched, ← Nat.add_assoc]
    rw [Nat.max_eq_right hfits] at hbudget
    exact hbudget.trans (Nat.le_max_right _ _)

private theorem Flagged.sendBack {rest : List Nat} (h : Flagged s) (hwait : s.waiting = x :: rest) :
    Flagged (s.sendBack x rest) := by
  refine Flagged.evict (s := s.setScheduled x 0) (r := s.running) (w := rest) fun y hy => ?_
  have hsame : (s.setScheduled x 0).prefill = s.prefill := s.setSeq_prefill rfl
  rw [hsame]
  refine h y ?_
  rw [hwait]
  exact List.mem_cons_of_mem x hy

private theorem Allotted.prefill {live : List Nat} (ha : Allotted cfg live s x room m t) :
    t.prefill = s.prefill := by
  funext y
  change (t.seqs y).isPrefill = (s.seqs y).isPrefill
  by_cases hyx : y = x
  · rw [hyx, ha.row]
  · rw [ha.other hyx]

private theorem Allotted.scheduled {live : List Nat} (ha : Allotted cfg live s x room m t) :
    (t.seqs x).numScheduledTokens = m := by
  rw [ha.row]

private theorem Allotted.bounds {live : List Nat} (ha : Allotted cfg live s x room m t)
    (hroom : 0 < room) : 0 < m ∧ m ≤ room := by
  have hamount := ha.amount
  have hcached := ha.cached_lt
  omega

private theorem Fills.marked {batched : Nat} (hf : Fills cfg acc batched s acc' u)
    (hready : s.Ready cfg) (h : Flagged s) :
    Flagged u ∧ ∃ more, Filled s acc acc' more u ∧ Chunks cfg batched more u := by
  induction hf with
  | stop _ => exact ⟨h, [], .refl _ _, .nil _ _ _⟩
  | refuse _ _ _ _ _ => exact ⟨h, [], .refl _ _, .nil _ _ _⟩
  | @full acc rest acc' batched x m s t u hwait hcap hbudget hallot hfull hrest ih =>
    have ha := hready.allotted hwait (by omega) hallot
    have hnext := (hready.joined hwait ha hfull).record (.scheduled x)
    have hwaiting : ((t.joinRunning x).record (.scheduled x)).waiting = rest := by
      refine (congrArg Control.waiting (t.joinRunning_control x)).trans ?_
      rw [show t.waiting = s.waiting from congrArg Control.waiting ha.control, hwait]
      rfl
    have hjoin : ((t.joinRunning x).record (.scheduled x)).prefill = s.prefill := by
      rw [← ha.prefill]
      funext y
      change ((t.joinRunning x).seqs y).isPrefill = (t.seqs y).isPrefill
      rw [State.joinRunning_seqs]
      by_cases hyx : y = x
      · rw [hyx, Function.update_self]
      · rw [Function.update_of_ne hyx]
    have hflag : Flagged ((t.joinRunning x).record (.scheduled x)) := by
      intro y hy
      rw [hwaiting] at hy
      rw [hjoin]
      refine h y ?_
      rw [hwait]
      exact List.mem_cons_of_mem x hy
    obtain ⟨hu, more, hmore, hchunks⟩ := ih hnext hflag
    obtain ⟨more', hfilled⟩ := (Fills.full hwait hcap hbudget hallot hfull hrest).filled hready
    have hlist : more' = x :: more := by
      have hbatch := hfilled.batch.symm.trans hmore.batch
      rw [List.append_assoc, List.singleton_append] at hbatch
      exact List.append_cancel_left hbatch
    rw [hlist] at hfilled
    -- The row left `waiting`, so the rest of the fill does not touch it.
    have hrow : u.seqs x = ((t.joinRunning x).record (.scheduled x)).seqs x := by
      refine hmore.frame x fun hx => ?_
      rw [hwaiting] at hx
      exact (hready.2.head_not_mem hwait).2 hx
    have hsched : (u.seqs x).numScheduledTokens = m := by
      rw [hrow]
      change ((t.joinRunning x).seqs x).numScheduledTokens = m
      rw [State.joinRunning_seqs, Function.update_self]
      exact ha.scheduled
    have hprefill : u.prefill x = true := by
      change (u.seqs x).isPrefill = true
      rw [hrow]
      exact (congrFun hjoin x).trans (h x (by rw [hwait]; exact List.mem_cons_self))
    have htab : u.table x ≠ [] := by
      change (u.seqs x).blockTable ≠ []
      rw [hrow]
      change ((t.joinRunning x).seqs x).blockTable ≠ []
      rw [State.joinRunning_seqs, Function.update_self]
      exact ha.table_ne
    obtain ⟨hm, hle⟩ := ha.bounds (by omega)
    exact ⟨hu, x :: more, hfilled, hchunks.cons hprefill hsched hm htab (by omega)⟩
  | @chunk acc rest batched x m s t hwait hcap hbudget hallot hpart =>
    have ha := hready.allotted hwait (by omega) hallot
    have hwaiting : t.waiting = s.waiting := congrArg Control.waiting ha.control
    have hflag : Flagged ((t.withMid (some x)).record (.scheduled x)) := by
      intro y hy
      change y ∈ t.waiting at hy
      change t.prefill y = true
      rw [hwaiting] at hy
      rw [ha.prefill]
      exact h y hy
    obtain ⟨more, hfilled⟩ := (Fills.chunk hwait hcap hbudget hallot hpart).filled hready
    have hlist : more = [x] := List.append_cancel_left hfilled.batch.symm
    rw [hlist] at hfilled
    obtain ⟨hm, hle⟩ := ha.bounds (by omega)
    have hx : x ∈ t.waiting := by
      rw [hwaiting, hwait]
      exact List.mem_cons_self
    exact ⟨hflag, [x], hfilled,
      (Chunks.nil _ _ _).cons (hflag x hx) ha.scheduled hm ha.table_ne (by omega)⟩
  | @sendBackStop acc rest batched x m s hwait _ _ _ _ _ _ =>
    exact ⟨h.sendBack hwait, [], s.sendBack_filled hwait acc, .nil _ _ _⟩
  | @sendBack rest acc' batched x m s u hwait hbudget htab hm hfit hrest ih =>
    obtain ⟨hu, more, hmore, hchunks⟩ := ih (hready.sendBack hwait htab).1 (h.sendBack hwait)
    obtain ⟨more', hfilled⟩ := (Fills.sendBack hwait hbudget htab hm hfit hrest).filled hready
    have hlist : more' = more := by
      rw [← List.nil_append more', ← List.nil_append more, ← hfilled.batch, ← hmore.batch]
    rw [hlist] at hfilled
    exact ⟨hu, more, hfilled, hchunks⟩

private theorem Fills.length_le {batched : Nat} (hf : Fills cfg acc batched s acc' u) :
    acc'.length ≤ max acc.length cfg.maxNumSeqs := by
  induction hf with
  | stop _ => exact Nat.le_max_left _ _
  | refuse _ _ _ _ _ => exact Nat.le_max_left _ _
  | full _ hcap _ _ _ _ ih =>
    rw [List.length_append, List.length_singleton] at ih
    omega
  | chunk _ hcap _ _ _ =>
    rw [List.length_append, List.length_singleton]
    omega
  | sendBackStop _ _ _ _ _ _ _ => exact Nat.le_max_left _ _
  | sendBack _ _ _ _ _ _ ih => exact ih

/-- What `schedule` returns from any state between steps: decode rows first, then the
prefill chunks. -/
structure Batched (cfg : Config) (decodes prefills : List Nat) (u : State) : Prop where
  ready : u.Ready cfg
  flagged : Flagged u
  distinct : (decodes ++ prefills).Nodup
  decode : ∀ x ∈ decodes, (u.seqs x).isPrefill = false ∧ (u.seqs x).numScheduledTokens = 1
  chunks : Chunks cfg decodes.length prefills u
  owned : ∀ x ∈ decodes ++ prefills, x ∈ u.running ∨ x ∈ u.waiting ∧ u.table x ≠ []
  capacity : (decodes ++ prefills).length ≤ cfg.maxNumSeqs

namespace Batched

variable {decodes prefills : List Nat} (h : Batched cfg decodes prefills u)

include h

theorem scheduled (hx : x ∈ decodes ++ prefills) : 0 < (u.seqs x).numScheduledTokens := by
  rcases List.mem_append.mp hx with hx | hx
  · rw [(h.decode x hx).2]
    exact Nat.one_pos
  · exact h.chunks.scheduled x hx

theorem scheduled_le (hx : x ∈ decodes ++ prefills) :
    (u.seqs x).numCachedTokens + (u.seqs x).numScheduledTokens ≤ (u.seqs x).numTokens := by
  rcases h.owned x hx with hrun | ⟨hwait, htab⟩
  · exact (h.ready.2.started x hrun).scheduled_le
  · exact (h.ready.2.chunked x hwait htab).scheduled_lt.le

theorem within (hx : x ∈ decodes ++ prefills) :
    (u.seqs x).numCachedTokens + (u.seqs x).numScheduledTokens ≤
      (u.table x).length * cfg.kvcacheBlockSize := by
  rcases h.owned x hx with hrun | ⟨hwait, htab⟩
  · exact (h.ready.2.started x hrun).within
  · exact (h.ready.2.chunked x hwait htab).within

theorem table_ne (hx : x ∈ decodes ++ prefills) : u.table x ≠ [] := by
  intro hnil
  have hwithin := h.within hx
  have hpos := h.scheduled hx
  rw [hnil, List.length_nil, Nat.zero_mul] at hwithin
  omega

end Batched

theorem Schedules.batched {done batch : List Nat} (hs : Schedules cfg s done t batch u)
    (hready : s.Ready cfg) (hflag : Flagged s) :
    ∃ prefills, batch = done ++ prefills ∧ Batched cfg done prefills u := by
  have hgood := DecodeWalk.good hs.walk hready.good
  have hmarked := DecodeWalk.marked hs.walk hready.good
    ⟨by simp [Cursor.Decodes], hflag, by simp [Cursor.rows]⟩
  have hjoin := Cursor.Good.rejoin hgood
  have hcapacity : done.length ≤ cfg.maxNumSeqs := by
    simpa [Cursor.rows] using hmarked.capacity
  obtain ⟨hu, prefills, hfilled, hchunks⟩ := hs.fills.marked hjoin hmarked.flagged
  have hulive := (hs.fills.ready hjoin).2.own.live_nodup
  rw [List.nil_append] at hulive
  have hrunning : (t.withRunning (done ++ t.running)).running = done ++ t.running := rfl
  -- Decode rows, the rows the loop left alone and the prefill rows follow each other.
  have hlive : (done ++ t.running ++ prefills).Nodup ∧
      ∀ x ∈ done ++ prefills, x ∈ u.running ∨ x ∈ u.waiting ∧ u.table x ≠ [] := by
    rcases hfilled.rows with hrun | ⟨front, w, hfront, hrun, hhead⟩
    · rw [hrunning] at hrun
      rw [hrun] at hulive
      refine ⟨(List.nodup_append.mp hulive).1, fun x hx => Or.inl ?_⟩
      rw [hrun]
      rcases List.mem_append.mp hx with hx | hx <;> simp [hx]
    · rw [hrunning] at hrun
      obtain ⟨rest, hrest⟩ : ∃ rest, u.waiting = w :: rest := by
        cases hwait : u.waiting with
        | nil =>
          rw [hwait] at hhead
          exact absurd hhead (by simp)
        | cons a rest =>
          rw [hwait, List.head?_cons, Option.some.injEq] at hhead
          exact ⟨rest, by rw [hhead]⟩
      rw [hrun, hrest] at hulive
      have hnd : (done ++ t.running ++ front ++ [w]).Nodup := by
        refine hulive.sublist ?_
        rw [List.append_assoc, List.append_assoc, List.append_assoc, List.append_assoc]
        exact List.Sublist.append_left (List.Sublist.append_left
          (List.Sublist.append_left (List.singleton_sublist.mpr List.mem_cons_self) _) _) _
      refine ⟨by rw [hfront, ← List.append_assoc]; exact hnd, ?_⟩
      intro x hx
      by_cases hxw : x = w
      · rw [hxw, hrest]
        exact Or.inr ⟨List.mem_cons_self, hchunks.owned w (by simp [hfront])⟩
      · refine Or.inl ?_
        rw [hfront] at hx
        rw [hrun]
        simp only [List.mem_append, List.mem_singleton, hxw, or_false] at hx ⊢
        tauto
  refine ⟨prefills, hfilled.batch, hs.fills.ready hjoin, hu, ?_, ?_, hchunks, hlive.2, ?_⟩
  · refine hlive.1.sublist ?_
    rw [List.append_assoc]
    exact List.Sublist.append_left (List.sublist_append_right _ _) _
  · intro x hx
    have hnot : x ∉ t.waiting := fun hw => hgood.live_not_done (List.mem_append_right _ hw) hx
    rw [hfilled.frame x hnot]
    exact hmarked.decodes x hx
  · rw [← hfilled.batch]
    have hlen := hs.fills.length_le
    omega

end NanoVllm
