/- module: NanoVllm/Scheduling/Postprocess
   layer: refinement
   source: nanovllm/engine/scheduler.py, Scheduler.postprocess
   digest: One committed row as a function of the state, and what the commit loop keeps. -/

import NanoVllm.Scheduling.Schedule

set_option autoImplicit false
set_option relaxedAutoImplicit false

namespace NanoVllm

open Library

variable {cfg : Config} {held : List Nat} {s : State} {x : Nat}

def State.advance (s : State) (cfg : Config) (x : Nat) : State :=
  (s.hashed cfg x).setSeq x { s.seqs x with
    numCachedTokens := (s.seqs x).numCachedTokens + (s.seqs x).numScheduledTokens
    numScheduledTokens := 0 }

def State.retire (s : State) (x : Nat) : State :=
  ((s.setSeq x { s.seqs x with status := .finished }).release x).withRunning (s.running.erase x)

@[simp] theorem State.hashed_seqs (s : State) (cfg : Config) (x : Nat) :
    (s.hashed cfg x).seqs = s.seqs := by
  simp [State.hashed]

@[simp] theorem State.hashed_control (s : State) (cfg : Config) (x : Nat) :
    (s.hashed cfg x).control = s.control := by
  simp [State.hashed]

theorem State.advance_seqs (s : State) (cfg : Config) (x : Nat) :
    (s.advance cfg x).seqs = Function.update s.seqs x { s.seqs x with
      numCachedTokens := (s.seqs x).numCachedTokens + (s.seqs x).numScheduledTokens
      numScheduledTokens := 0 } := by
  simp [State.advance]

@[simp] theorem State.advance_control (s : State) (cfg : Config) (x : Nat) :
    (s.advance cfg x).control = s.control := by
  simp [State.advance]

theorem State.advance_table (s : State) (cfg : Config) (x : Nat) :
    (s.advance cfg x).table = s.table := by
  funext y
  rw [State.table, State.advance_seqs]
  by_cases hyx : y = x
  · subst hyx
    simp [State.table]
  · simp [hyx, State.table]

theorem State.retire_seqs (s : State) (x : Nat) :
    (s.retire x).seqs = Function.update s.seqs x { s.seqs x with
      status := .finished
      numCachedTokens := 0
      numDraftCachedTokens := 0
      blockTable := [] } := by
  change ((s.setSeq x _).release x).seqs = _
  rw [State.release_seqs, State.setSeq_seqs, Function.update_idem, Function.update_self]

theorem State.retire_control (s : State) (x : Nat) :
    (s.retire x).control = { s.control with running := s.running.erase x } := by
  have hstep : ∀ (u : State) (r : List Nat), (u.withRunning r).control =
      { u.control with running := r } := fun u r => rfl
  rw [State.retire, hstep, State.release_control, State.setSeq_control]

private theorem OwnIf.hashed {live : List Nat} {cov' : Nat → Nat}
    (h : OwnIf cfg.CollisionFree cfg live s.table (s.coverage cfg) s) (hx : x ∈ live)
    (hwithin : (s.seqs x).numCachedTokens + (s.seqs x).numScheduledTokens
      ≤ (s.table x).length * cfg.kvcacheBlockSize)
    (hlen : (s.seqs x).numCachedTokens + (s.seqs x).numScheduledTokens ≤ (s.seqs x).numTokens)
    (hle : ∀ y, s.coverage cfg y ≤ cov' y)
    (hcov : ((s.seqs x).numCachedTokens + (s.seqs x).numScheduledTokens) / cfg.kvcacheBlockSize
      ≤ cov' x) :
    OwnIf cfg.CollisionFree cfg live s.table cov' (s.hashed cfg x) := by
  set start := (s.seqs x).numCachedTokens / cfg.kvcacheBlockSize with hstart
  set stop := ((s.seqs x).numCachedTokens + (s.seqs x).numScheduledTokens)
    / cfg.kvcacheBlockSize with hstop
  have hmono : start ≤ stop := Nat.div_le_div_right (Nat.le_add_right _ _)
  have hsum : start + (stop - start) = stop := by omega
  have htab : stop ≤ (s.table x).length := by
    rw [Nat.mul_comm] at hwithin
    exact Nat.div_le_of_le_mul hwithin
  apply h.publishFrom hx (i := start) (n := stop - start) le_rfl
  · rw [hsum]
    exact htab
  · rw [hsum]
    exact (Nat.div_mul_le_self _ _).trans hlen
  · exact hle
  · rw [hsum]
    exact hcov

theorem OwnIf.advance {live : List Nat}
    (h : OwnIf cfg.CollisionFree cfg live s.table (s.coverage cfg) s) (hx : x ∈ live)
    (hwithin : (s.seqs x).numCachedTokens + (s.seqs x).numScheduledTokens
      ≤ (s.table x).length * cfg.kvcacheBlockSize)
    (hlen : (s.seqs x).numCachedTokens + (s.seqs x).numScheduledTokens ≤ (s.seqs x).numTokens) :
    OwnIf cfg.CollisionFree cfg live (s.advance cfg x).table ((s.advance cfg x).coverage cfg)
      (s.advance cfg x) := by
  rw [s.advance_table cfg x]
  have hcov : ∀ y, s.coverage cfg y ≤ (s.advance cfg x).coverage cfg y := by
    intro y
    simp only [State.coverage, State.advance_seqs]
    by_cases hyx : y = x
    · subst hyx
      rw [Function.update_self]
      exact Nat.div_le_div_right (Nat.le_add_right _ _)
    · rw [Function.update_of_ne hyx]
  have hself : ((s.seqs x).numCachedTokens + (s.seqs x).numScheduledTokens)
      / cfg.kvcacheBlockSize ≤ (s.advance cfg x).coverage cfg x := by
    simp only [State.coverage, State.advance_seqs, Function.update_self]
    exact le_rfl
  exact (h.hashed hx hwithin hlen hcov hself).congr_pool rfl rfl rfl rfl

theorem Core.updateBare (h : Core cfg held s) {q : Sequence} (hx : x ∉ held ++ s.running)
    (htab : s.table x = []) (hrow : q.blockTable = [])
    (hpos : x ∈ s.waiting → 0 < q.numTokens) : Core cfg held (s.setSeq x q) := by
  have htable : (s.setSeq x q).table = s.table := by
    rw [State.setSeq_table, hrow, ← htab, Function.update_eq_self]
  have hother : ∀ y, y ≠ x → (s.setSeq x q).seqs y = s.seqs y := by
    intro y hyx
    rw [State.setSeq_seqs, Function.update_of_ne hyx]
  refine ⟨?_, ?_, ?_, ?_, ?_, ?_, h.known, ?_⟩
  · rw [htable]
    have hpool : OwnIf cfg.CollisionFree cfg (held ++ s.running ++ s.waiting) s.table (s.coverage cfg)
        (s.setSeq x q) := h.own.congr_pool rfl rfl rfl rfl
    apply hpool.set_cov
    intro y _
    by_cases hyx : y = x
    · left
      rw [hyx, htab]
      simp
    · right
      rw [State.coverage, State.coverage, hother y hyx]
  · rw [htable]
    exact h.mid_owner
  · rw [htable]
    exact h.mid_head
  · intro y hy
    have hyx : y ≠ x := fun heq => hx (heq ▸ hy)
    rw [hother y hyx]
    exact h.started y hy
  · intro w hw hne
    rw [htable] at hne
    have hwx : w ≠ x := by
      intro heq
      rw [heq, htab] at hne
      exact hne rfl
    rw [hother w hwx]
    exact h.chunked w hw hne
  · intro w hw
    by_cases hwx : w = x
    · subst hwx
      rw [State.setSeq_seqs, Function.update_self]
      exact hpos hw
    · rw [hother w hwx]
      exact h.nonempty w hw
  · rw [htable]
    exact h.dead

theorem Core.advance_running (h : Core cfg [] s) (hx : x ∈ s.running)
    (hpart : (s.seqs x).numCachedTokens + (s.seqs x).numScheduledTokens < (s.seqs x).numTokens) :
    Core cfg [] (s.advance cfg x) := by
  have hrow := h.started x hx
  apply h.updateRow hx (s.advance_seqs cfg x) (s.advance_control cfg x)
    (h.own.advance (List.mem_append_left _ hx) hrow.within hrow.scheduled_le)
  have hw := hrow.within
  exact ⟨hrow.scheduled_le, hw, hpart, hrow.roomy⟩

theorem Core.appended (h : Core cfg [] s) (hx : x ∈ s.running)
    (hfull : (s.seqs x).numCachedTokens + (s.seqs x).numScheduledTokens = (s.seqs x).numTokens)
    (tokenId : Nat) :
    Core cfg [] ((s.advance cfg x).setSeq x (((s.advance cfg x).seqs x).appendToken tokenId)) := by
  have hrow := h.started x hx
  set t := s.advance cfg x with ht
  have hown := h.own.advance (List.mem_append_left _ hx) hrow.within hrow.scheduled_le
  have hseqs : (t.setSeq x ((t.seqs x).appendToken tokenId)).seqs =
      Function.update s.seqs x ((t.seqs x).appendToken tokenId) := by
    rw [State.setSeq_seqs, ht, State.advance_seqs, Function.update_idem]
  have hrowt : t.seqs x = { s.seqs x with
      numCachedTokens := (s.seqs x).numCachedTokens + (s.seqs x).numScheduledTokens
      numScheduledTokens := 0 } := by
    rw [ht, State.advance_seqs, Function.update_self]
  apply h.updateRow hx hseqs
  · exact s.advance_control cfg x
  · have hset := hown.setRow (x := x) (q := (t.seqs x).appendToken tokenId) rfl
    apply hset.mono_cov
    intro y _
    simp only [State.coverage, State.setSeq_seqs]
    by_cases hyx : y = x
    · subst hyx
      rw [Function.update_self]
      rfl
    · rw [Function.update_of_ne hyx]
  · have hw := hrow.within
    have hlen : ((t.seqs x).appendToken tokenId).numTokens = (s.seqs x).numTokens + 1 := by
      simp [Sequence.appendToken, Sequence.numTokens, hrowt]
    refine ⟨?_, ?_, ?_, ?_⟩
    · rw [hlen, hrowt]
      change (s.seqs x).numCachedTokens + (s.seqs x).numScheduledTokens + 0 ≤ _
      omega
    · rw [hrowt]
      change (s.seqs x).numCachedTokens + (s.seqs x).numScheduledTokens + 0
        ≤ (s.seqs x).blockTable.length * _
      exact hw
    · rw [hlen, hrowt]
      change (s.seqs x).numCachedTokens + (s.seqs x).numScheduledTokens < _
      omega
    · rw [hlen, hrowt]
      change _ ≤ (s.seqs x).blockTable.length * _ + 1
      have hw' : (s.seqs x).numCachedTokens + (s.seqs x).numScheduledTokens
        ≤ (s.seqs x).blockTable.length * cfg.kvcacheBlockSize := hw
      omega

theorem Core.remove (h : Core cfg [] s) (hx : x ∈ s.running ++ s.waiting) {t : State}
    {row : Sequence} (hseqs : t.seqs = Function.update s.seqs x row) (hrow : row.blockTable = [])
    (hrunning : t.running = s.running.erase x) (hwaiting : t.waiting = s.waiting.erase x)
    (hmid : t.midChunkSeq = if s.midChunkSeq = some x then none else s.midChunkSeq)
    (hnext : t.nextSeqId = s.nextSeqId)
    (hown : OwnIf cfg.CollisionFree cfg ([] ++ s.running ++ s.waiting) t.table (s.coverage cfg) t) :
    Core cfg [] t := by
  have hnd := h.own.live_nodup
  rw [List.nil_append] at hnd
  obtain ⟨hrunnd, hwaitnd, hdisj⟩ := List.nodup_append.mp hnd
  have hother : ∀ y, y ≠ x → t.seqs y = s.seqs y := by
    intro y hyx
    rw [hseqs, Function.update_of_ne hyx]
  have htabx : t.table x = [] := by
    rw [State.table, hseqs, Function.update_self, hrow]
  have hperm : (x :: ([] ++ t.running ++ t.waiting)).Perm ([] ++ s.running ++ s.waiting) := by
    rw [hrunning, hwaiting]
    change (x :: (s.running.erase x ++ s.waiting.erase x)).Perm (s.running ++ s.waiting)
    rcases List.mem_append.mp hx with hxr | hxw
    · have hnot : x ∉ s.waiting := fun hxw => hdisj x hxr x hxw rfl
      rw [List.erase_of_not_mem hnot, ← List.cons_append]
      exact List.Perm.append_right _ (List.perm_cons_erase hxr).symm
    · have hnot : x ∉ s.running := fun hxr => hdisj x hxr x hxw rfl
      rw [List.erase_of_not_mem hnot]
      exact List.perm_middle.symm.trans
        (List.Perm.append_left _ (List.perm_cons_erase hxw).symm)
  have hout : x ∉ [] ++ t.running ++ t.waiting :=
    (List.nodup_cons.mp (hperm.nodup_iff.mpr h.own.live_nodup)).1
  have hne : ∀ y ∈ [] ++ t.running ++ t.waiting, y ≠ x := fun y hy heq => hout (heq ▸ hy)
  have hwaitmem : ∀ w ∈ t.waiting, w ∈ s.waiting := by
    intro w hw
    rw [hwaiting] at hw
    exact List.mem_of_mem_erase hw
  refine ⟨?_, ?_, ?_, ?_, ?_, ?_, ?_, ?_⟩
  · apply ((hown.perm hperm).uncons htabx).mono_cov
    intro y hy
    rw [State.coverage, State.coverage, hother y (hne y hy)]
  · intro w hw htab
    have hwx := hne w (List.mem_append_right _ hw)
    rw [State.table, hother w hwx] at htab
    have hold := h.mid_owner w (hwaitmem w hw) htab
    rw [hmid, hold, if_neg]
    exact fun heq => hwx (Option.some.inj heq)
  · intro w hw
    rw [hmid] at hw
    split at hw <;> rename_i hsx
    · exact absurd hw (by simp)
    · have hwx : w ≠ x := fun heq => hsx (by rw [hw, heq])
      obtain ⟨hhead, htab⟩ := h.mid_head w hw
      refine ⟨?_, ?_⟩
      · rw [hwaiting]
        cases hwait : s.waiting with
        | nil =>
          rw [hwait] at hhead
          exact absurd hhead (by simp)
        | cons a rest =>
          rw [hwait, List.head?_cons] at hhead
          obtain rfl := Option.some.inj hhead
          rw [List.erase_cons_tail (by simpa using hwx), List.head?_cons]
      · rw [State.table, hother w hwx]
        exact htab
  · intro y hy
    have hyx := hne y (List.mem_append_left _ hy)
    rw [hrunning] at hy
    rw [hother y hyx]
    exact h.started y (List.mem_of_mem_erase hy)
  · intro w hw htab
    have hwx := hne w (List.mem_append_right _ hw)
    rw [State.table, hother w hwx] at htab
    rw [hother w hwx]
    exact h.chunked w (hwaitmem w hw) htab
  · intro w hw
    rw [hother w (hne w (List.mem_append_right _ hw))]
    exact h.nonempty w (hwaitmem w hw)
  · intro y hy
    rw [hnext]
    exact h.known y (hperm.mem_iff.mp (List.mem_cons_of_mem x hy))
  · intro y hy
    by_cases hyx : y = x
    · rw [hyx]
      exact htabx
    · rw [State.table, hother y hyx]
      apply h.dead y
      intro hmem
      rcases List.mem_cons.mp (hperm.mem_iff.mpr hmem) with heq | hin
      · exact hyx heq
      · exact hy hin

private theorem Core.not_mid_of_running (h : Core cfg [] s) (hx : x ∈ s.running) :
    s.midChunkSeq ≠ some x := by
  intro hmid
  have hmem : x ∈ s.waiting := List.mem_of_mem_head? (by rw [(h.mid_head x hmid).1]; rfl)
  exact (List.nodup_append.mp h.own.live_nodup).2.2 x hx x hmem rfl

theorem Core.retire (h : Core cfg [] s) (hx : x ∈ s.running) : Core cfg [] (s.retire x) := by
  have hctl := s.retire_control x
  have hnot : x ∉ s.waiting := fun hmem =>
    (List.nodup_append.mp h.own.live_nodup).2.2 x hx x hmem rfl
  have hset := h.own.setRow (x := x) (q := { s.seqs x with status := .finished }) rfl
  apply h.remove (List.mem_append_left _ hx) (s.retire_seqs x) rfl
  · exact congrArg Control.running hctl
  · rw [List.erase_of_not_mem hnot]
    exact congrArg Control.waiting hctl
  · rw [if_neg (h.not_mid_of_running hx)]
    exact congrArg Control.midChunkSeq hctl
  · exact congrArg Control.nextSeqId hctl
  · exact (hset.release (x := x) (by simp [hx])).congr_pool rfl rfl rfl rfl

theorem Core.advance_waiting (h : Core cfg [] s) (hx : x ∈ s.waiting) (hne : s.table x ≠ []) :
    Core cfg [] (s.advance cfg x) := by
  have hrow := h.chunked x hx hne
  have htable := s.advance_table cfg x
  have hctl := s.advance_control cfg x
  have hrunning : (s.advance cfg x).running = s.running := congrArg Control.running hctl
  have hwaiting : (s.advance cfg x).waiting = s.waiting := congrArg Control.waiting hctl
  have hmid : (s.advance cfg x).midChunkSeq = s.midChunkSeq := congrArg Control.midChunkSeq hctl
  have hnext : (s.advance cfg x).nextSeqId = s.nextSeqId := congrArg Control.nextSeqId hctl
  have hxrun : x ∉ s.running := by
    intro hmem
    exact (List.nodup_append.mp h.own.live_nodup).2.2 x hmem x hx rfl
  have hother : ∀ y, y ≠ x → (s.advance cfg x).seqs y = s.seqs y := by
    intro y hyx
    rw [State.advance_seqs, Function.update_of_ne hyx]
  have hself : (s.advance cfg x).seqs x = { s.seqs x with
      numCachedTokens := (s.seqs x).numCachedTokens + (s.seqs x).numScheduledTokens
      numScheduledTokens := 0 } := by
    rw [State.advance_seqs, Function.update_self]
  refine ⟨?_, ?_, ?_, ?_, ?_, ?_, ?_, ?_⟩
  · rw [hrunning, hwaiting]
    exact h.own.advance (List.mem_append_right _ hx) hrow.within hrow.scheduled_lt.le
  · rw [hwaiting, htable, hmid]
    exact h.mid_owner
  · rw [hwaiting, htable, hmid]
    exact h.mid_head
  · intro y hy
    rw [hrunning] at hy
    have hyx : y ≠ x := fun heq => hxrun (heq ▸ hy)
    rw [hother y hyx]
    exact h.started y hy
  · intro w hw htab
    rw [hwaiting] at hw
    rw [htable] at htab
    by_cases hwx : w = x
    · subst hwx
      rw [hself]
      exact ⟨hrow.scheduled_lt, hrow.within⟩
    · rw [hother w hwx]
      exact h.chunked w hw htab
  · intro w hw
    rw [hwaiting] at hw
    by_cases hwx : w = x
    · subst hwx
      rw [hself]
      exact h.nonempty w hw
    · rw [hother w hwx]
      exact h.nonempty w hw
  · rw [hrunning, hwaiting, hnext]
    exact h.known
  · rw [hrunning, hwaiting, htable]
    exact h.dead

def State.appended (s : State) (cfg : Config) (x tokenId : Nat) : State :=
  (s.advance cfg x).setSeq x (((s.advance cfg x).seqs x).appendToken tokenId)

def State.postRow (s : State) (cfg : Config) (x tokenId : Nat) : State :=
  if (s.seqs x).numCachedTokens + (s.seqs x).numScheduledTokens < (s.seqs x).numTokens then
    s.advance cfg x
  else if stopsAt cfg ((s.appended cfg x tokenId).seqs x) tokenId then
    (s.appended cfg x tokenId).retire x
  else s.appended cfg x tokenId

def State.rowEvents (s : State) (cfg : Config) (x tokenId : Nat) : List StreamOutput :=
  if (s.seqs x).numCachedTokens + (s.seqs x).numScheduledTokens < (s.seqs x).numTokens then []
  else [⟨x, tokenId, stopsAt cfg ((s.appended cfg x tokenId).seqs x) tokenId⟩]

theorem modifySeq_apply (f : Sequence → Sequence) (s : State) (x : Nat) :
    modifySeq x f s = .ok ⟨⟩ (s.setSeq x (f (s.seqs x))) := rfl

theorem postprocessRow_part (hq : s.Quiet)
    (hwithin : (s.seqs x).numCachedTokens + (s.seqs x).numScheduledTokens
      ≤ (s.table x).length * cfg.kvcacheBlockSize)
    (hpart : (s.seqs x).numCachedTokens + (s.seqs x).numScheduledTokens < (s.seqs x).numTokens)
    (tokenId : Nat) :
    postprocessRow cfg x tokenId s = .ok (s.rowEvents cfg x tokenId) (s.postRow cfg x tokenId) := by
  have hhash := hashBlocks_quiet hq hwithin hpart.le
  have hadv : (s.hashed cfg x).setSeq x { (s.hashed cfg x).seqs x with
      numCachedTokens := ((s.hashed cfg x).seqs x).numCachedTokens
        + ((s.hashed cfg x).seqs x).numScheduledTokens
      numScheduledTokens := 0 } = s.advance cfg x := by
    rw [State.hashed_seqs]
    rfl
  have hlt : ((s.advance cfg x).seqs x).numCachedTokens < ((s.advance cfg x).seqs x).numTokens := by
    rw [State.advance_seqs, Function.update_self]
    exact hpart
  simp only [postprocessRow, Call.bind_apply, hhash, modifySeq_apply, hadv, Call.get_apply, hlt,
    ↓reduceIte, Call.pure_apply, State.rowEvents, hpart, State.postRow]

theorem removeRunning_apply (hx : x ∈ s.running) :
    removeRunning x s = .ok ⟨⟩ (s.withRunning (s.running.erase x)) := by
  simp [removeRunning, hx]

private theorem finishRow_quiet (hq : s.Quiet) {live : List Nat} {cov : Nat → Nat}
    (h : OwnIf cfg.CollisionFree cfg live s.table cov s) (hlive : x ∈ live) (hx : x ∈ s.running) :
    finishRow x s = .ok ⟨⟩ (s.retire x) := by
  have hset := h.setRow (x := x) (q := { s.seqs x with status := .finished }) rfl
  have hq' := hq.of_control (t := s.setSeq x { s.seqs x with status := .finished }) rfl
  have hdealloc := deallocate_quiet hq' hset hlive
  set t := (s.setSeq x { s.seqs x with status := .finished }).release x with ht
  have hdraft : t.setSeq x { t.seqs x with numDraftCachedTokens := 0 } = t := by
    apply State.setSeq_self
    rw [ht, State.release_seqs, Function.update_self]
  have hctl : t.control = s.control := by
    rw [ht, State.release_control, State.setSeq_control]
  have hrun : t.running = s.running := congrArg Control.running hctl
  have hxt : x ∈ t.running := by rwa [hrun]
  simp only [finishRow, Call.bind_apply, modifySeq_apply, hdealloc, hdraft,
    removeRunning_apply hxt, hrun]
  rfl

private theorem postprocessRow_full (hq : s.Quiet) (h : Core cfg [] s) (hx : x ∈ s.running)
    (hfull : (s.seqs x).numCachedTokens + (s.seqs x).numScheduledTokens = (s.seqs x).numTokens)
    (tokenId : Nat) :
    postprocessRow cfg x tokenId s = .ok (s.rowEvents cfg x tokenId) (s.postRow cfg x tokenId) := by
  have hrow := h.started x hx
  have hhash := hashBlocks_quiet hq hrow.within hrow.scheduled_le
  have hadv : (s.hashed cfg x).setSeq x { (s.hashed cfg x).seqs x with
      numCachedTokens := ((s.hashed cfg x).seqs x).numCachedTokens
        + ((s.hashed cfg x).seqs x).numScheduledTokens
      numScheduledTokens := 0 } = s.advance cfg x := by
    rw [State.hashed_seqs]
    rfl
  have hnot : ¬ ((s.advance cfg x).seqs x).numCachedTokens
      < ((s.advance cfg x).seqs x).numTokens := by
    rw [State.advance_seqs, Function.update_self]
    change ¬ (s.seqs x).numCachedTokens + (s.seqs x).numScheduledTokens < (s.seqs x).numTokens
    omega
  have hpart : ¬ (s.seqs x).numCachedTokens + (s.seqs x).numScheduledTokens
      < (s.seqs x).numTokens := by omega
  have hcore := h.appended hx hfull tokenId
  change Core cfg [] (s.appended cfg x tokenId) at hcore
  have hctl : (s.appended cfg x tokenId).control = s.control := s.advance_control cfg x
  have hxa : x ∈ (s.appended cfg x tokenId).running := by
    rw [show (s.appended cfg x tokenId).running = s.running from congrArg Control.running hctl]
    exact hx
  have hfinish := finishRow_quiet (hq.of_control hctl) hcore.own (by simp [hxa]) hxa
  have happ : (s.advance cfg x).setSeq x (((s.advance cfg x).seqs x).appendToken tokenId) =
      s.appended cfg x tokenId := rfl
  simp only [postprocessRow, Call.bind_apply, hhash, modifySeq_apply, hadv, Call.get_apply, hnot,
    ↓reduceIte, happ, State.rowEvents, hpart, State.postRow]
  by_cases hstop : stopsAt cfg ((s.appended cfg x tokenId).seqs x) tokenId = true
  · simp [hstop, hfinish]
  · simp [hstop]

def SameControl (s t : State) : Prop := t.control = { s.control with running := t.running }

theorem SameControl.refl (s : State) : SameControl s s := rfl

theorem SameControl.trans {s t u : State} (h : SameControl s t) (h' : SameControl t u) :
    SameControl s u := by
  unfold SameControl at h h' ⊢
  rw [h', h]

theorem SameControl.of_control {s t : State} (h : t.control = s.control) : SameControl s t := by
  have hrun : t.running = s.running := congrArg Control.running h
  unfold SameControl
  rw [h, hrun]
  rfl

theorem SameControl.quiet {t : State} (h : SameControl s t) (hq : s.Quiet) : t.Quiet where
  reservation := (congrArg Control.activeReservation h).trans hq.reservation
  progress := (congrArg Control.reservationInProgress h).trans hq.progress
  internal := (congrArg Control.internalAllocation h).trans hq.internal
  fault := (congrArg Control.fault h).trans hq.fault

theorem State.postRow_control (s : State) (cfg : Config) (x tokenId : Nat) :
    SameControl s (s.postRow cfg x tokenId) := by
  have happ : (s.appended cfg x tokenId).control = s.control := s.advance_control cfg x
  unfold State.postRow
  split
  · exact .of_control (s.advance_control cfg x)
  · split
    · have hret : SameControl (s.appended cfg x tokenId)
          ((s.appended cfg x tokenId).retire x) := by
        have hctl := (s.appended cfg x tokenId).retire_control x
        have hrun := congrArg Control.running hctl
        unfold SameControl
        rw [hctl]
        exact congrArg (fun r => { (s.appended cfg x tokenId).control with running := r }) hrun.symm
      exact (SameControl.of_control happ).trans hret
    · exact .of_control happ

theorem State.postRow_running (s : State) (cfg : Config) (x tokenId : Nat) :
    (s.postRow cfg x tokenId).running.Sublist s.running := by
  have happ : (s.appended cfg x tokenId).running = s.running :=
    congrArg Control.running (s.advance_control cfg x)
  unfold State.postRow
  split
  · rw [show (s.advance cfg x).running = s.running from
      congrArg Control.running (s.advance_control cfg x)]
  · split
    · rw [show ((s.appended cfg x tokenId).retire x).running =
        (s.appended cfg x tokenId).running.erase x from
          congrArg Control.running ((s.appended cfg x tokenId).retire_control x), happ]
      exact List.erase_sublist
    · rw [happ]

theorem Core.postRow (h : Core cfg [] s) (hx : x ∈ s.running) (tokenId : Nat) :
    Core cfg [] (s.postRow cfg x tokenId) := by
  have hrow := h.started x hx
  unfold State.postRow
  split <;> rename_i hpart
  · exact h.advance_running hx hpart
  · have hfull : (s.seqs x).numCachedTokens + (s.seqs x).numScheduledTokens =
        (s.seqs x).numTokens := by
      have := hrow.scheduled_le
      omega
    have hcore : Core cfg [] (s.appended cfg x tokenId) := h.appended hx hfull tokenId
    split
    · apply hcore.retire
      rw [show (s.appended cfg x tokenId).running = s.running from
        congrArg Control.running (s.advance_control cfg x)]
      exact hx
    · exact hcore

theorem postprocessRow_running (hq : s.Quiet) (h : Core cfg [] s) (hx : x ∈ s.running)
    (tokenId : Nat) :
    postprocessRow cfg x tokenId s = .ok (s.rowEvents cfg x tokenId) (s.postRow cfg x tokenId) := by
  have hrow := h.started x hx
  have hle := hrow.scheduled_le
  by_cases hpart : (s.seqs x).numCachedTokens + (s.seqs x).numScheduledTokens
      < (s.seqs x).numTokens
  · exact postprocessRow_part hq hrow.within hpart tokenId
  · exact postprocessRow_full hq h hx (by omega) tokenId

variable (cfg) in
private theorem hashBlocks_bare (hq : s.Quiet) (htab : s.table x = []) :
    hashBlocks cfg x s = .ok ⟨⟩ s ∨ hashBlocks cfg x s = .error .indexError s := by
  have htab' : (s.seqs x).blockTable = [] := htab
  obtain ⟨start, hstart⟩ : ∃ n, n = (s.seqs x).numCachedTokens / cfg.kvcacheBlockSize := ⟨_, rfl⟩
  obtain ⟨stop, hstop⟩ : ∃ n, n = ((s.seqs x).numCachedTokens
      + (s.seqs x).numScheduledTokens) / cfg.kvcacheBlockSize := ⟨_, rfl⟩
  have hmono : start ≤ stop := by
    rw [hstart, hstop]
    exact Nat.div_le_div_right (Nat.le_add_right _ _)
  by_cases heq : start = stop
  · left
    simp [hashBlocks, assertAllocatorMutationAllowed_quiet hq, ← hstart, ← hstop, heq]
  · right
    obtain ⟨n, hn⟩ : ∃ n, stop - start = n + 1 := ⟨stop - start - 1, by omega⟩
    by_cases hpos : 0 < start
    · simp [hashBlocks, assertAllocatorMutationAllowed_quiet hq, ← hstart, ← hstop, heq, hpos,
        htab', -Nat.div_pos_iff]
    · simp [hashBlocks, assertAllocatorMutationAllowed_quiet hq, ← hstart, ← hstop, heq, hpos, hn,
        hashBlocksLoop, List.range'_succ, tick_quiet hq.fault, htab', -Nat.div_pos_iff]

theorem State.setSeq_setSeq (s : State) (x : Nat) (a b : Sequence) :
    (s.setSeq x a).setSeq x b = s.setSeq x b := by
  simp [State.setSeq]

variable (cfg) in
theorem postprocessRow_bare (hq : s.Quiet) (htab : s.table x = []) (hx : x ∉ s.running)
    (tokenId : Nat) : ∃ row, Call.after (postprocessRow cfg x tokenId s) = s.setSeq x row ∧
      row.blockTable = [] ∧ (s.seqs x).numTokens ≤ row.numTokens := by
  have htab' : (s.seqs x).blockTable = [] := htab
  have hself : s = s.setSeq x (s.seqs x) := (State.setSeq_self rfl).symm
  rcases hashBlocks_bare cfg hq htab with hhash | hhash
  · obtain ⟨row1, hrow1⟩ : ∃ row, row = { s.seqs x with
        numCachedTokens := (s.seqs x).numCachedTokens + (s.seqs x).numScheduledTokens
        numScheduledTokens := 0 } := ⟨_, rfl⟩
    have htab1 : row1.blockTable = [] := by rw [hrow1, htab']
    have hlen1 : row1.numTokens = (s.seqs x).numTokens := by rw [hrow1]; rfl
    have hget1 : (s.setSeq x row1).seqs x = row1 := by simp
    simp only [postprocessRow, Call.bind_apply, hhash, modifySeq_apply, ← hrow1, Call.get_apply,
      hget1]
    by_cases hlt : row1.numCachedTokens < row1.numTokens
    · exact ⟨row1, by simp [hlt], htab1, hlen1.ge⟩
    · have hget2 : (s.setSeq x (row1.appendToken tokenId)).seqs x = row1.appendToken tokenId := by
        simp
      have hlen2 : (s.seqs x).numTokens ≤ (row1.appendToken tokenId).numTokens := by
        rw [← hlen1]
        simp [Sequence.appendToken, Sequence.numTokens]
      simp only [hlt, ↓reduceIte, Call.bind_apply, modifySeq_apply, hget1, Call.get_apply, hget2,
        State.setSeq_setSeq]
      by_cases hstop : stopsAt cfg (row1.appendToken tokenId) tokenId = true
      · obtain ⟨row3, hrow3⟩ : ∃ row, row = { row1.appendToken tokenId with
            status := SequenceStatus.finished
            numCachedTokens := 0
            numDraftCachedTokens := 0
            blockTable := [] } := ⟨_, rfl⟩
        have hfinish : finishRow x (s.setSeq x (row1.appendToken tokenId)) =
            .error (.valueError "deque.remove(x): x not in deque") (s.setSeq x row3) := by
          have hq' : (s.setSeq x { row1.appendToken tokenId with status := .finished }).Quiet :=
            hq.of_control rfl
          have hempty : ({ row1.appendToken tokenId with
              status := SequenceStatus.finished } : Sequence).blockTable = [] := htab1
          have hnot : ∀ row, x ∉ (s.setSeq x row).running := fun _ => hx
          simp [finishRow, modifySeq_apply, deallocate, hq'.reservation,
            assertAllocatorMutationAllowed_quiet hq', State.setSeq_setSeq, releaseBlocks, hempty,
            removeRunning, hnot, hrow3]
        exact ⟨row3, by simp [hstop, hfinish], by rw [hrow3], by rw [hrow3]; exact hlen2⟩
      · exact ⟨row1.appendToken tokenId, by simp [hstop], htab1, hlen2⟩
  · refine ⟨s.seqs x, ?_, htab', le_rfl⟩
    simp [postprocessRow, hhash]
    exact hself

theorem Core.leaves_postprocessRow (h : Core cfg [] s) (hq : s.Quiet) (x tokenId : Nat) :
    Call.Leaves (postprocessRow cfg x tokenId) s fun t =>
      SameControl s t ∧ t.running.Sublist s.running ∧ Core cfg [] t := by
  unfold Call.Leaves
  by_cases hrun : x ∈ s.running
  · rw [postprocessRow_running hq h hrun, Call.after_ok]
    exact ⟨s.postRow_control cfg x tokenId, s.postRow_running cfg x tokenId, h.postRow hrun tokenId⟩
  · by_cases htab : s.table x = []
    · obtain ⟨row, hafter, hrow, hlen⟩ := postprocessRow_bare cfg hq htab hrun tokenId
      rw [hafter]
      refine ⟨.of_control rfl, List.Sublist.refl _, h.updateBare hrun htab hrow ?_⟩
      intro hwait
      exact (h.nonempty x hwait).trans_le hlen
    · have hwait : x ∈ s.waiting := by
        by_contra hnot
        exact htab (h.dead x (by simp [hrun, hnot]))
      have hrow := h.chunked x hwait htab
      rw [postprocessRow_part hq hrow.within hrow.scheduled_lt, Call.after_ok]
      refine ⟨s.postRow_control cfg x tokenId, s.postRow_running cfg x tokenId, ?_⟩
      rw [State.postRow, if_pos hrow.scheduled_lt]
      exact h.advance_waiting hwait htab

theorem Core.leaves_postprocessRows : ∀ (rows : List (Nat × Nat)) {s : State}, Core cfg [] s →
    s.Quiet → Call.Leaves (postprocessRows cfg rows) s fun t =>
      SameControl s t ∧ t.running.Sublist s.running ∧ Core cfg [] t := by
  intro rows
  induction rows with
  | nil => exact fun h _ => ⟨.refl _, List.Sublist.refl _, h⟩
  | cons row rows ih =>
    intro s h hq
    obtain ⟨x, tokenId⟩ := row
    have hfirst := h.leaves_postprocessRow hq x tokenId
    apply Call.Leaves.bind hfirst
    intro events t _ ht
    have hrest := ih ht.2.2 (ht.1.quiet hq)
    unfold Call.Leaves at hrest ⊢
    rw [Call.bind_apply]
    cases hcase : postprocessRows cfg rows t with
    | ok more u =>
      rw [hcase] at hrest
      exact ⟨ht.1.trans hrest.1, hrest.2.1.trans ht.2.1, hrest.2.2⟩
    | error e u =>
      rw [hcase] at hrest
      exact ⟨ht.1.trans hrest.1, hrest.2.1.trans ht.2.1, hrest.2.2⟩

end NanoVllm
