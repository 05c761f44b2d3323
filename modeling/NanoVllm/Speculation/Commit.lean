/- module: NanoVllm/Speculation/Commit
   layer: refinement
   source: nanovllm/engine/scheduler.py, Scheduler.commit_speculative
   digest: A commit trims the lease and advances every row, or leaves the live transaction. -/

import NanoVllm.Speculation.Planning
import NanoVllm.Scheduling.Postprocess

set_option autoImplicit false
set_option relaxedAutoImplicit false

namespace NanoVllm

open Library

variable {cfg : Config} {s t base : State} {rows : List (Nat × List Nat)}
  {r : TemporaryBlockReservation} {x : Nat} {row : PreparedRow}

def State.appendBurst (s : State) (row : PreparedRow) : State :=
  s.setSeq row.sequence { s.seqs row.sequence with
    tokenIds := (s.seqs row.sequence).tokenIds ++ row.tokens
    numScheduledTokens := row.cached - (s.seqs row.sequence).numCachedTokens }

def State.burst (s : State) (cfg : Config) (row : PreparedRow) : State :=
  ((s.appendBurst row).hashed cfg row.sequence).setSeq row.sequence { s.seqs row.sequence with
    tokenIds := (s.seqs row.sequence).tokenIds ++ row.tokens
    numCachedTokens := row.cached
    numDraftCachedTokens := row.draftCached
    numScheduledTokens := 0 }

def State.commitOne (s : State) (cfg : Config) (row : PreparedRow) : State :=
  if stopsAt cfg ((s.burst cfg row).seqs row.sequence) (row.tokens.getLastD 0) then
    (s.burst cfg row).retire row.sequence
  else s.burst cfg row

def State.commitAll (s : State) (cfg : Config) (prepared : List PreparedRow) : State :=
  prepared.foldl (fun t row => t.commitOne cfg row) s

def State.burstEvents (s : State) (cfg : Config) (row : PreparedRow) : List StreamOutput :=
  row.tokens.mapIdx fun i token => ⟨row.sequence, token,
    stopsAt cfg ((s.burst cfg row).seqs row.sequence) (row.tokens.getLastD 0)
      && decide (i + 1 = row.tokens.length)⟩

def State.commitEvents (cfg : Config) : State → List PreparedRow → List StreamOutput
  | _, [] => []
  | s, row :: rest => s.burstEvents cfg row ++ commitEvents cfg (s.commitOne cfg row) rest

def Sequence.burst (seq : Sequence) (row : PreparedRow) : Sequence :=
  { seq with
    tokenIds := seq.tokenIds ++ row.tokens
    numCachedTokens := row.cached
    numDraftCachedTokens := row.draftCached
    numScheduledTokens := 0 }

def Sequence.burstEnds (cfg : Config) (seq : Sequence) (row : PreparedRow) : Bool :=
  stopsAt cfg (seq.burst row) (row.tokens.getLastD 0)

/-- The record a row's burst leaves. -/
def Sequence.committed (cfg : Config) (seq : Sequence) (row : PreparedRow) : Sequence :=
  if seq.burstEnds cfg row then { seq.burst row with
    status := .finished
    numCachedTokens := 0
    numDraftCachedTokens := 0
    blockTable := [] }
  else seq.burst row

theorem State.burst_seqs (s : State) (cfg : Config) (row : PreparedRow) :
    (s.burst cfg row).seqs = Function.update s.seqs row.sequence { s.seqs row.sequence with
      tokenIds := (s.seqs row.sequence).tokenIds ++ row.tokens
      numCachedTokens := row.cached
      numDraftCachedTokens := row.draftCached
      numScheduledTokens := 0 } := by
  simp [State.burst, State.appendBurst]

@[simp] theorem State.burst_control (s : State) (cfg : Config) (row : PreparedRow) :
    (s.burst cfg row).control = s.control := by
  simp [State.burst, State.appendBurst]

theorem State.commitOne_control (s : State) (cfg : Config) (row : PreparedRow) :
    SameControl s (s.commitOne cfg row) := by
  unfold State.commitOne
  split
  · have hret : SameControl (s.burst cfg row) ((s.burst cfg row).retire row.sequence) := by
      have hctl := (s.burst cfg row).retire_control row.sequence
      have hrun := congrArg Control.running hctl
      unfold SameControl
      rw [hctl]
      exact congrArg (fun r => { (s.burst cfg row).control with running := r }) hrun.symm
    exact (SameControl.of_control (s.burst_control cfg row)).trans hret
  · exact .of_control (s.burst_control cfg row)

theorem State.burst_row (s : State) (cfg : Config) (row : PreparedRow) :
    (s.burst cfg row).seqs row.sequence = (s.seqs row.sequence).burst row := by
  rw [State.burst_seqs, Function.update_self]
  rfl

theorem State.commitOne_seqs (s : State) (cfg : Config) (row : PreparedRow) :
    (s.commitOne cfg row).seqs =
      Function.update s.seqs row.sequence ((s.seqs row.sequence).committed cfg row) := by
  unfold State.commitOne Sequence.committed Sequence.burstEnds
  rw [s.burst_row cfg row]
  split
  · rw [State.retire_seqs, s.burst_row cfg row, State.burst_seqs, Function.update_idem]
  · rw [State.burst_seqs]
    rfl

theorem State.commitOne_queue (s : State) (cfg : Config) (row : PreparedRow) :
    (s.commitOne cfg row).running = if (s.seqs row.sequence).burstEnds cfg row then
      s.running.erase row.sequence else s.running := by
  have hburst : (s.burst cfg row).running = s.running :=
    congrArg Control.running (s.burst_control cfg row)
  unfold State.commitOne Sequence.burstEnds
  rw [s.burst_row cfg row]
  split
  · rw [show ((s.burst cfg row).retire row.sequence).running =
      (s.burst cfg row).running.erase row.sequence from
        congrArg Control.running ((s.burst cfg row).retire_control row.sequence), hburst]
  · exact hburst

theorem State.commitOne_seqs_out (s : State) (cfg : Config) {y : Nat} (hy : y ≠ row.sequence) :
    (s.commitOne cfg row).seqs y = s.seqs y := by
  rw [State.commitOne_seqs, Function.update_of_ne hy]

theorem State.commitOne_running (s : State) (cfg : Config) {y : Nat} (hy : y ≠ row.sequence)
    (hrun : y ∈ s.running) : y ∈ (s.commitOne cfg row).running := by
  rw [State.commitOne_queue]
  split
  · exact (List.mem_erase_of_ne hy).mpr hrun
  · exact hrun

/-- The burst of `row` fits the record of its request: the last token is not cached yet
and the table covers the others. -/
structure Fits (cfg : Config) (seq : Sequence) (row : PreparedRow) : Prop where
  nonempty : row.tokens ≠ []
  cached_le : seq.numCachedTokens ≤ row.cached
  length : row.cached + 1 = seq.numTokens + row.tokens.length
  within : row.cached ≤ seq.blockTable.length * cfg.kvcacheBlockSize

theorem Core.appendBurst (h : Core cfg [] s) (hx : row.sequence ∈ s.running)
    (hfit : Fits cfg (s.seqs row.sequence) row) : Core cfg [] (s.appendBurst row) := by
  have hlen : ((s.seqs row.sequence).tokenIds ++ row.tokens).length = row.cached + 1 := by
    rw [List.length_append]
    exact hfit.length.symm
  have hle := hfit.cached_le
  have hwithin := hfit.within
  apply h.updateRow hx (s.setSeq_seqs _ _) (s.setSeq_control _ _)
  · have hset := h.own.setRow (x := row.sequence) (q := { s.seqs row.sequence with
      tokenIds := (s.seqs row.sequence).tokenIds ++ row.tokens
      numScheduledTokens := row.cached - (s.seqs row.sequence).numCachedTokens }) rfl
    apply hset.mono_cov
    intro y _
    simp only [State.coverage, State.setSeq_seqs]
    by_cases hyx : y = row.sequence
    · subst hyx
      rw [Function.update_self]
    · rw [Function.update_of_ne hyx]
  · refine ⟨?_, ?_, ?_, ?_⟩
    · change (s.seqs row.sequence).numCachedTokens
        + (row.cached - (s.seqs row.sequence).numCachedTokens) ≤ List.length _
      rw [hlen]
      omega
    · change (s.seqs row.sequence).numCachedTokens
        + (row.cached - (s.seqs row.sequence).numCachedTokens) ≤ _
      rw [Nat.add_sub_cancel' hle]
      exact hwithin
    · change (s.seqs row.sequence).numCachedTokens < List.length _
      rw [hlen]
      omega
    · change List.length _ ≤ _
      rw [hlen]
      exact Nat.succ_le_succ hwithin

theorem State.burst_eq_advance (hfit : Fits cfg (s.seqs row.sequence) row) :
    s.burst cfg row = ((s.appendBurst row).advance cfg row.sequence).setSeq row.sequence
      { ((s.appendBurst row).advance cfg row.sequence).seqs row.sequence with
        numDraftCachedTokens := row.draftCached } := by
  have hsum := Nat.add_sub_cancel' hfit.cached_le
  unfold State.burst State.advance
  rw [State.setSeq_setSeq]
  congr 1
  simp [State.appendBurst, hsum]

theorem Core.burst (h : Core cfg [] s) (hx : row.sequence ∈ s.running)
    (hfit : Fits cfg (s.seqs row.sequence) row) : Core cfg [] (s.burst cfg row) := by
  have happ := h.appendBurst hx hfit
  have hrow : (s.appendBurst row).seqs row.sequence = { s.seqs row.sequence with
      tokenIds := (s.seqs row.sequence).tokenIds ++ row.tokens
      numScheduledTokens := row.cached - (s.seqs row.sequence).numCachedTokens } := by
    simp [State.appendBurst]
  have hpart : ((s.appendBurst row).seqs row.sequence).numCachedTokens
      + ((s.appendBurst row).seqs row.sequence).numScheduledTokens
        < ((s.appendBurst row).seqs row.sequence).numTokens := by
    have hlen := hfit.length
    have hle := hfit.cached_le
    rw [hrow]
    change (s.seqs row.sequence).numCachedTokens
      + (row.cached - (s.seqs row.sequence).numCachedTokens)
        < ((s.seqs row.sequence).tokenIds ++ row.tokens).length
    rw [List.length_append]
    change _ < (s.seqs row.sequence).numTokens + _
    omega
  have hadv := happ.advance_running (x := row.sequence) hx hpart
  have hctl := (s.appendBurst row).advance_control cfg row.sequence
  obtain ⟨u, hu⟩ : ∃ u, u = (s.appendBurst row).advance cfg row.sequence := ⟨_, rfl⟩
  rw [State.burst_eq_advance hfit, ← hu]
  rw [← hu] at hadv hctl
  have hxu : row.sequence ∈ u.running := by
    rw [show u.running = s.running from congrArg Control.running hctl]
    exact hx
  have hold := hadv.started row.sequence hxu
  apply hadv.updateRow hxu (u.setSeq_seqs _ _) (u.setSeq_control _ _)
  · have hset := hadv.own.setRow (x := row.sequence)
      (q := { u.seqs row.sequence with numDraftCachedTokens := row.draftCached }) rfl
    apply hset.mono_cov
    intro y _
    simp only [State.coverage, State.setSeq_seqs]
    by_cases hyx : y = row.sequence
    · subst hyx
      rw [Function.update_self]
    · rw [Function.update_of_ne hyx]
  · exact ⟨hold.scheduled_le, hold.within, hold.cached_lt, hold.roomy⟩

theorem Core.commitOne (h : Core cfg [] s) (hx : row.sequence ∈ s.running)
    (hfit : Fits cfg (s.seqs row.sequence) row) : Core cfg [] (s.commitOne cfg row) := by
  have hburst := h.burst hx hfit
  unfold State.commitOne
  split
  · apply hburst.retire
    rw [show (s.burst cfg row).running = s.running from
      congrArg Control.running (s.burst_control cfg row)]
    exact hx
  · exact hburst

structure Bursts (cfg : Config) (s : State) (prepared : List PreparedRow) : Prop where
  distinct : (prepared.map PreparedRow.sequence).Nodup
  running : ∀ row ∈ prepared, row.sequence ∈ s.running
  fits : ∀ row ∈ prepared, Fits cfg (s.seqs row.sequence) row

theorem Bursts.tail {prepared : List PreparedRow} (h : Bursts cfg s (row :: prepared)) :
    Bursts cfg (s.commitOne cfg row) prepared := by
  have hnd := h.distinct
  rw [List.map_cons, List.nodup_cons] at hnd
  have hne : ∀ q ∈ prepared, q.sequence ≠ row.sequence :=
    fun q hq heq => hnd.1 (heq ▸ List.mem_map_of_mem hq)
  refine ⟨hnd.2, ?_, ?_⟩
  · intro q hq
    exact s.commitOne_running cfg (hne q hq) (h.running q (List.mem_cons_of_mem row hq))
  · intro q hq
    rw [s.commitOne_seqs_out cfg (hne q hq)]
    exact h.fits q (List.mem_cons_of_mem row hq)

theorem Core.commitAll {prepared : List PreparedRow} : ∀ {s : State}, Core cfg [] s →
    Bursts cfg s prepared → Core cfg [] (s.commitAll cfg prepared) := by
  induction prepared with
  | nil => exact fun h _ => h
  | cons row prepared ih =>
    intro s h hb
    exact ih (h.commitOne (hb.running row (by simp)) (hb.fits row (by simp))) hb.tail

theorem State.commitAll_control (cfg : Config) (prepared : List PreparedRow) (s : State) :
    SameControl s (s.commitAll cfg prepared) := by
  induction prepared generalizing s with
  | nil => exact .refl s
  | cons row prepared ih => exact (s.commitOne_control cfg row).trans (ih _)

private theorem State.commitOne_running_sublist (s : State) (cfg : Config) (row : PreparedRow) :
    (s.commitOne cfg row).running.Sublist s.running := by
  rw [State.commitOne_queue]
  split
  · exact List.erase_sublist
  · exact List.Sublist.refl _

theorem State.commitAll_running_sublist (cfg : Config) (prepared : List PreparedRow) (s : State) :
    (s.commitAll cfg prepared).running.Sublist s.running := by
  induction prepared generalizing s with
  | nil => exact List.Sublist.refl _
  | cons row prepared ih => exact (ih _).trans (s.commitOne_running_sublist cfg row)

theorem State.commitAll_out (cfg : Config) {prepared : List PreparedRow} (s : State)
    (hx : x ∉ prepared.map PreparedRow.sequence) : (s.commitAll cfg prepared).seqs x = s.seqs x := by
  induction prepared generalizing s with
  | nil => rfl
  | cons row prepared ih =>
    rw [List.map_cons, List.mem_cons, not_or] at hx
    exact (ih (s.commitOne cfg row) hx.2).trans (s.commitOne_seqs_out cfg hx.1)

theorem State.commitAll_row (cfg : Config) {prepared : List PreparedRow} (s : State)
    (hnd : (prepared.map PreparedRow.sequence).Nodup) (hrow : row ∈ prepared) :
    (s.commitAll cfg prepared).seqs row.sequence = (s.seqs row.sequence).committed cfg row := by
  induction prepared generalizing s with
  | nil => exact absurd hrow List.not_mem_nil
  | cons first prepared ih =>
    rw [List.map_cons, List.nodup_cons] at hnd
    rcases List.mem_cons.mp hrow with rfl | hmem
    · refine (State.commitAll_out cfg (s.commitOne cfg row) hnd.1).trans ?_
      rw [State.commitOne_seqs, Function.update_self]
    · have hne : row.sequence ≠ first.sequence :=
        fun heq => hnd.1 (heq ▸ List.mem_map_of_mem hmem)
      refine (ih (s.commitOne cfg first) hnd.2 hmem).trans ?_
      rw [s.commitOne_seqs_out cfg hne]

/-- The queue keeps its order and loses the rows whose burst ends them. -/
theorem State.commitAll_queue (cfg : Config) {prepared : List PreparedRow} (s : State)
    (hnd : (prepared.map PreparedRow.sequence).Nodup) (hrun : s.running.Nodup) :
    (s.commitAll cfg prepared).running = s.running.filter fun x =>
      !(prepared.any fun row => decide (row.sequence = x) && (s.seqs x).burstEnds cfg row) := by
  induction prepared generalizing s with
  | nil => simp [State.commitAll]
  | cons row prepared ih =>
    rw [List.map_cons, List.nodup_cons] at hnd
    have hqueue := s.commitOne_queue cfg row
    have hfirst : (s.commitOne cfg row).running.Nodup := by
      rw [hqueue]
      split
      · exact hrun.erase _
      · exact hrun
    refine (ih (s.commitOne cfg row) hnd.2 hfirst).trans ?_
    have hfilter : (s.commitOne cfg row).running = s.running.filter fun x =>
        !(decide (row.sequence = x) && (s.seqs x).burstEnds cfg row) := by
      rw [hqueue]
      split
      · rename_i hend
        rw [hrun.erase_eq_filter]
        refine List.filter_congr fun x _ => ?_
        by_cases hx : x = row.sequence
        · subst hx
          simp [hend]
        · simp [hx, Ne.symm hx]
      · rename_i hend
        refine (List.filter_eq_self.mpr fun x _ => ?_).symm
        by_cases hx : row.sequence = x
        · subst hx
          simp [hend]
        · simp [hx]
    rw [hfilter, List.filter_filter]
    refine List.filter_congr fun x _ => ?_
    rw [List.any_cons]
    by_cases hx : x = row.sequence
    · subst hx
      have hnone : ∀ u : State, (prepared.any fun other =>
          decide (other.sequence = row.sequence) &&
            (u.seqs row.sequence).burstEnds cfg other) = false := by
        intro u
        rw [List.any_eq_false]
        intro other hmem hboth
        have heq : other.sequence = row.sequence := by
          simpa using (Bool.and_eq_true_iff.mp hboth).1
        exact hnd.1 (heq ▸ List.mem_map_of_mem hmem)
      rw [hnone, hnone]
      simp
    · rw [s.commitOne_seqs_out cfg hx]
      simp [Ne.symm hx]

private theorem Sequence.committed_idle (cfg : Config) (seq : Sequence) (row : PreparedRow) :
    (seq.committed cfg row).numScheduledTokens = 0 := by
  unfold Sequence.committed
  split <;> rfl

theorem State.commitAll_idle (cfg : Config) {prepared : List PreparedRow} (s : State)
    (hx : x ∈ prepared.map PreparedRow.sequence) :
    ((s.commitAll cfg prepared).seqs x).numScheduledTokens = 0 := by
  induction prepared generalizing s with
  | nil => exact absurd hx List.not_mem_nil
  | cons row prepared ih =>
    by_cases hin : x ∈ prepared.map PreparedRow.sequence
    · exact ih (s.commitOne cfg row) hin
    · have heq := (List.mem_cons.mp hx).resolve_right hin
      rw [show (s.commitAll cfg (row :: prepared)).seqs x = (s.commitOne cfg row).seqs x from
        State.commitAll_out cfg (s.commitOne cfg row) hin, heq, State.commitOne_seqs,
        Function.update_self]
      exact Sequence.committed_idle cfg _ row

private theorem commitRow_quiet (hq : s.Quiet) (h : Core cfg [] s) (hx : row.sequence ∈ s.running)
    (hfit : Fits cfg (s.seqs row.sequence) row) :
    commitRow cfg row s = .ok (s.burstEvents cfg row) (s.commitOne cfg row) := by
  have happ := h.appendBurst hx hfit
  have hstarted := happ.started row.sequence hx
  have hqapp : (s.appendBurst row).Quiet := hq.of_control rfl
  have hhash := hashBlocks_quiet hqapp hstarted.within hstarted.scheduled_le
  have hmod : modifySeq row.sequence (fun seq => { seq with
      tokenIds := seq.tokenIds ++ row.tokens
      numScheduledTokens := row.cached - seq.numCachedTokens }) s =
      .ok ⟨⟩ (s.appendBurst row) := rfl
  have hmod' : modifySeq row.sequence (fun seq => { seq with
      numCachedTokens := row.cached
      numDraftCachedTokens := row.draftCached
      numScheduledTokens := 0 }) ((s.appendBurst row).hashed cfg row.sequence) =
      .ok ⟨⟩ (s.burst cfg row) := by
    rw [modifySeq_apply]
    congr 1
    unfold State.burst
    congr 1
    simp [State.appendBurst]
  unfold commitRow
  rw [Call.bind_of_ok (tick_quiet hq.fault), Call.bind_of_ok hmod, Call.bind_of_ok hhash,
    Call.bind_of_ok hmod', Call.bind_of_ok (Call.get_apply _)]
  by_cases hstop : stopsAt cfg ((s.burst cfg row).seqs row.sequence) (row.tokens.getLastD 0) = true
  · have hburst := h.burst hx hfit
    have hctl := s.burst_control cfg row
    have hxb : row.sequence ∈ (s.burst cfg row).running := by
      rw [show (s.burst cfg row).running = s.running from congrArg Control.running hctl]
      exact hx
    obtain ⟨u, hu⟩ : ∃ u, u = s.burst cfg row := ⟨_, rfl⟩
    rw [← hu] at hburst hctl hxb hstop ⊢
    have hset := hburst.own.setRow (x := row.sequence)
      (q := { u.seqs row.sequence with status := .finished }) rfl
    have hq' := (hq.of_control hctl).of_control
      (t := u.setSeq row.sequence { u.seqs row.sequence with status := .finished }) rfl
    have hdealloc := deallocate_quiet hq' hset (x := row.sequence) (by simp [hxb])
    have hrel : ((u.setSeq row.sequence
        { u.seqs row.sequence with status := .finished }).release row.sequence).running =
        u.running :=
      congrArg Control.running ((State.release_control _ _).trans (State.setSeq_control _ _ _))
    have hevents : s.burstEvents cfg row = row.tokens.mapIdx fun i token =>
        ⟨row.sequence, token, true && decide (i + 1 = row.tokens.length)⟩ := by
      unfold State.burstEvents
      rw [← hu, hstop]
    have hone : s.commitOne cfg row = u.retire row.sequence := by
      unfold State.commitOne
      rw [← hu, if_pos hstop]
    rw [hstop, hevents, hone]
    simp only [↓reduceIte]
    rw [Call.bind_of_ok (modifySeq_apply _ _ _), Call.bind_of_ok hdealloc,
      Call.bind_of_ok (removeRunning_apply (by rw [hrel]; exact hxb)), hrel]
    rfl
  · have hfalse : stopsAt cfg ((s.burst cfg row).seqs row.sequence) (row.tokens.getLastD 0) =
        false := by simpa using hstop
    unfold State.burstEvents State.commitOne
    rw [hfalse]
    simp only [Bool.false_eq_true, ↓reduceIte]
    rfl

theorem commitRows_quiet {prepared : List PreparedRow} : ∀ {s : State}, s.Quiet →
    Core cfg [] s → Bursts cfg s prepared →
      commitRows cfg prepared s =
        .ok (State.commitEvents cfg s prepared) (s.commitAll cfg prepared) := by
  induction prepared with
  | nil => exact fun _ _ _ => rfl
  | cons row prepared ih =>
    intro s hq h hb
    have hrow := commitRow_quiet hq h (hb.running row (by simp)) (hb.fits row (by simp))
    have hrest := ih ((s.commitOne_control cfg row).quiet hq)
      (h.commitOne (hb.running row (by simp)) (hb.fits row (by simp))) hb.tail
    unfold commitRows
    rw [Call.bind_of_ok hrow, Call.bind_of_ok hrest]
    rfl

end NanoVllm
