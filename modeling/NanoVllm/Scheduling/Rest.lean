/- module: NanoVllm/Scheduling/Rest
   layer: invariant
   source: nanovllm/engine/scheduler.py, postprocess, commit_speculative, add and cancel
   digest: Every way a batch comes back leaves the queues at rest. -/

import NanoVllm.Scheduling.Cancel
import NanoVllm.Scheduling.Events
import NanoVllm.Speculation.Protocol

set_option autoImplicit false
set_option relaxedAutoImplicit false

namespace NanoVllm

open Library

variable {cfg : Config} {s t u : State} {x y tokenId : Nat} {batch : List Nat} {q : Sequence}

structure Awaiting (cfg : Config) (batch : List Nat) (s : State) : Prop where
  running : ∀ x ∈ s.running, x ∉ batch → RunningRow cfg (s.seqs x)
  waiting : ∀ x ∈ s.waiting, x ∉ batch → WaitingRow cfg (s.seqs x)
  idle : ∀ x ∈ s.running ++ s.waiting, x ∉ batch → (s.seqs x).numScheduledTokens = 0
  room : s.running.length + s.waiting.length ≤ cfg.maxNumSeqs

theorem Staged.awaiting (h : Staged cfg [] batch s) : Awaiting cfg batch s where
  running x hx _ := h.running x hx
  waiting x hx _ := h.waiting x hx
  idle x hx hout := h.idle x hx hout
  room := by simpa using h.room

theorem Awaiting.staged (h : Awaiting cfg [] s) : Staged cfg [] [] s where
  running x hx := h.running x hx List.not_mem_nil
  waiting x hx := h.waiting x hx List.not_mem_nil
  room := by simpa using h.room
  busy := by simp
  idle x hx hout := h.idle x hx hout
  distinct := List.nodup_nil

private theorem Awaiting.settleRow (h : Awaiting cfg (x :: batch) s)
    (hseqs : t.seqs = Function.update s.seqs x q) (hrun : t.running = s.running)
    (hwait : t.waiting = s.waiting) (hidle : q.numScheduledTokens = 0)
    (hrunning : x ∈ s.running → RunningRow cfg q) (hwaiting : x ∈ s.waiting → WaitingRow cfg q) :
    Awaiting cfg batch t := by
  have hother : ∀ y, y ≠ x → t.seqs y = s.seqs y := by
    intro y hyx
    rw [hseqs, Function.update_of_ne hyx]
  have hself : t.seqs x = q := by rw [hseqs, Function.update_self]
  refine ⟨?_, ?_, ?_, ?_⟩
  · intro y hy hout
    rw [hrun] at hy
    by_cases hyx : y = x
    · subst hyx
      rw [hself]
      exact hrunning hy
    · rw [hother y hyx]
      exact h.running y hy (by simp [hyx, hout])
  · intro y hy hout
    rw [hwait] at hy
    by_cases hyx : y = x
    · subst hyx
      rw [hself]
      exact hwaiting hy
    · rw [hother y hyx]
      exact h.waiting y hy (by simp [hyx, hout])
  · intro y hy hout
    rw [hrun, hwait] at hy
    by_cases hyx : y = x
    · subst hyx
      rw [hself]
      exact hidle
    · rw [hother y hyx]
      exact h.idle y hy (by simp [hyx, hout])
  · rw [hrun, hwait]
    exact h.room

private theorem Awaiting.retireRow (h : Awaiting cfg (x :: batch) s)
    (hnd : (s.running ++ s.waiting).Nodup) (hx : x ∈ s.running)
    (hseqs : t.seqs = Function.update s.seqs x q) (hrun : t.running = s.running.erase x)
    (hwait : t.waiting = s.waiting) : Awaiting cfg batch t := by
  obtain ⟨hrunnd, -, hapart⟩ := List.nodup_append.mp hnd
  have hgone : ∀ y, y ∈ t.running ++ t.waiting → y ≠ x ∧ y ∈ s.running ++ s.waiting := by
    intro y hy
    rw [hrun, hwait] at hy
    rcases List.mem_append.mp hy with hy | hy
    · obtain ⟨hyx, hmem⟩ := (List.Nodup.mem_erase_iff hrunnd).mp hy
      exact ⟨hyx, List.mem_append_left _ hmem⟩
    · exact ⟨fun heq => hapart x hx y hy heq.symm, List.mem_append_right _ hy⟩
  have hother : ∀ y, y ≠ x → t.seqs y = s.seqs y := by
    intro y hyx
    rw [hseqs, Function.update_of_ne hyx]
  refine ⟨?_, ?_, ?_, ?_⟩
  · intro y hy hout
    obtain ⟨hyx, -⟩ := hgone y (List.mem_append_left _ hy)
    rw [hrun] at hy
    rw [hother y hyx]
    exact h.running y (List.mem_of_mem_erase hy) (by simp [hyx, hout])
  · intro y hy hout
    obtain ⟨hyx, -⟩ := hgone y (List.mem_append_right _ hy)
    rw [hwait] at hy
    rw [hother y hyx]
    exact h.waiting y hy (by simp [hyx, hout])
  · intro y hy hout
    obtain ⟨hyx, hmem⟩ := hgone y hy
    rw [hother y hyx]
    exact h.idle y hmem (by simp [hyx, hout])
  · have hroom := h.room
    have hlen := List.length_erase_of_mem hx
    rw [hrun, hwait, hlen]
    omega

private theorem WaitingRow.advanced {q : Sequence} (h : WaitingRow cfg q) : WaitingRow cfg { q with
    numCachedTokens := q.numCachedTokens + q.numScheduledTokens
    numScheduledTokens := 0 } where
  status := h.status
  prefill := h.prefill
  draft_le := h.draft_le.trans (Nat.le_add_right _ _)
  pages := h.pages
  short := h.short

private theorem RunningRow.appended {q : Sequence} (h : RunningRow cfg q)
    (hpos : 0 < q.numScheduledTokens)
    (tokenId : Nat) : RunningRow cfg (({ q with
      numCachedTokens := q.numCachedTokens + q.numScheduledTokens
      numScheduledTokens := 0 } : Sequence).appendToken tokenId) := by
  have hfull := h.full hpos
  have hlen : (q.tokenIds ++ [tokenId]).length = q.numTokens + 1 := by
    rw [List.length_append]
    rfl
  refine ⟨h.status, h.draft_le.trans (Nat.le_add_right _ _), h.pages, ?_, fun _ => ?_, ?_⟩
  · change q.numCachedTokens + q.numScheduledTokens < (q.tokenIds ++ [tokenId]).length
    omega
  · change q.numCachedTokens + q.numScheduledTokens + 1 = (q.tokenIds ++ [tokenId]).length
    omega
  · intro hlt
    exact absurd hlt (Nat.lt_irrefl 0)

theorem State.appended_seqs (s : State) (cfg : Config) (x tokenId : Nat) :
    (s.appended cfg x tokenId).seqs = Function.update s.seqs x (({ s.seqs x with
      numCachedTokens := (s.seqs x).numCachedTokens + (s.seqs x).numScheduledTokens
      numScheduledTokens := 0 } : Sequence).appendToken tokenId) := by
  unfold State.appended
  rw [State.setSeq_seqs]
  nth_rewrite 1 [State.advance_seqs]
  rw [Function.update_idem, State.advance_seqs, Function.update_self]

theorem State.appended_control (s : State) (cfg : Config) (x tokenId : Nat) :
    (s.appended cfg x tokenId).control = s.control := s.advance_control cfg x

structure State.Out (s : State) (cfg : Config) (x : Nat) : Prop where
  row : x ∈ s.running ∧ RunningRow cfg (s.seqs x) ∨ x ∈ s.waiting ∧ WaitingRow cfg (s.seqs x)
  scheduled : 0 < (s.seqs x).numScheduledTokens

theorem Staged.out (h : Staged cfg [] batch s) (hx : x ∈ batch) : s.Out cfg x := by
  obtain ⟨hmem, hpos⟩ := h.busy x hx
  rw [List.nil_append] at hmem
  refine ⟨?_, hpos⟩
  rcases List.mem_append.mp hmem with hrun | hwait
  · exact Or.inl ⟨hrun, h.running x hrun⟩
  · exact Or.inr ⟨hwait, h.waiting x hwait⟩

theorem State.Out.served (h : s.Out cfg x) : s.Served x := by
  rcases h.row with ⟨hrun, -⟩ | ⟨hwait, hrow⟩
  · exact Or.inl hrun
  · refine Or.inr ⟨hwait, fun hnil => ?_⟩
    have hbare := hrow.bare hnil
    have hpos := h.scheduled
    omega

theorem State.Out.postRow (h : s.Out cfg y) (hyx : y ≠ x) (tokenId : Nat) :
    (s.postRow cfg x tokenId).Out cfg y := by
  have hsame := s.postRow_other cfg tokenId hyx
  refine ⟨?_, by rw [hsame]; exact h.scheduled⟩
  rw [hsame]
  rcases h.row with ⟨hrun, hrow⟩ | ⟨hwait, hrow⟩
  · exact Or.inl ⟨s.mem_postRow_running cfg tokenId hyx hrun, hrow⟩
  · refine Or.inr ⟨?_, hrow⟩
    rwa [show (s.postRow cfg x tokenId).waiting = s.waiting from
      congrArg Control.waiting (s.postRow_control cfg x tokenId)]

theorem Core.queues_nodup (h : Core cfg [] s) : (s.running ++ s.waiting).Nodup := by
  have hnd := h.own.live_nodup
  rwa [List.nil_append] at hnd

private theorem Awaiting.postRow (h : Awaiting cfg (x :: batch) s) (hcore : Core cfg [] s)
    (hout : s.Out cfg x) (tokenId : Nat) : Awaiting cfg batch (s.postRow cfg x tokenId) := by
  have hnd := hcore.queues_nodup
  have happ := s.appended_control cfg x tokenId
  have hapart : x ∈ s.running → x ∉ s.waiting := fun hrun hwait =>
    (List.nodup_append.mp hnd).2.2 x hrun x hwait rfl
  unfold State.postRow
  rcases hout.row with ⟨hrun, hrow⟩ | ⟨hwait, hrow⟩
  · rw [if_neg (hrow.full hout.scheduled).not_lt]
    split
    · have hret : ((s.appended cfg x tokenId).retire x).control =
          { s.control with running := s.running.erase x } := by
        rw [State.retire_control, happ]
        exact congrArg (fun r => { s.control with running := r.erase x })
          (congrArg Control.running happ)
      refine h.retireRow hnd hrun (q := { (s.appended cfg x tokenId).seqs x with
        status := .finished
        numCachedTokens := 0
        numDraftCachedTokens := 0
        blockTable := [] }) ?_ (congrArg Control.running hret) (congrArg Control.waiting hret)
      rw [State.retire_seqs]
      nth_rewrite 1 [State.appended_seqs]
      rw [Function.update_idem]
    · exact h.settleRow (s.appended_seqs cfg x tokenId) (congrArg Control.running happ)
        (congrArg Control.waiting happ) rfl (fun _ => hrow.appended hout.scheduled tokenId)
        fun hwait => absurd hwait (hapart hrun)
  · have hctl := s.advance_control cfg x
    rw [if_pos hrow.short]
    exact h.settleRow (s.advance_seqs cfg x) (congrArg Control.running hctl)
      (congrArg Control.waiting hctl) rfl (fun hrun => absurd hwait (hapart hrun))
      fun _ => hrow.advanced

theorem Awaiting.postRows {rows : List (Nat × Nat)} (hnd : (rows.map Prod.fst).Nodup)
    (h : Awaiting cfg (rows.map Prod.fst) s) (hcore : Core cfg [] s) (hq : s.Quiet)
    (hout : ∀ row ∈ rows, s.Out cfg row.1) : Awaiting cfg [] (State.postRows cfg s rows) := by
  induction rows generalizing s with
  | nil => exact h
  | cons row rows ih =>
    obtain ⟨x, tokenId⟩ := row
    rw [List.map_cons, List.nodup_cons] at hnd
    have hx := hout _ List.mem_cons_self
    refine ih hnd.2 (h.postRow hcore hx tokenId)
      (hcore.postprocessRow_served hq hx.served tokenId).2
      ((s.postRow_control cfg x tokenId).quiet hq) fun row hmem => ?_
    refine (hout row (List.mem_cons_of_mem _ hmem)).postRow (fun heq => hnd.1 ?_) tokenId
    exact heq ▸ List.mem_map_of_mem hmem

private theorem State.postRow_cached (s : State) (cfg : Config) (x tokenId : Nat)
    (hfull : (s.seqs x).Complete) :
    ((s.postRow cfg x tokenId).seqs x).status = .finished ∨
      ((s.postRow cfg x tokenId).seqs x).numCachedTokens = (s.seqs x).numTokens := by
  have happ : ((s.appended cfg x tokenId).seqs x).numCachedTokens = (s.seqs x).numTokens := by
    rw [State.appended_seqs, Function.update_self]
    exact hfull
  unfold State.postRow
  rw [if_neg hfull.not_lt]
  split
  · left
    rw [State.retire_seqs, Function.update_self]
  · exact Or.inr happ

variable (cfg) in
theorem State.postRows_cached {rows : List (Nat × Nat)} (hnd : (rows.map Prod.fst).Nodup)
    (hx : x ∈ rows.map Prod.fst) (hfull : (s.seqs x).Complete) :
    ((State.postRows cfg s rows).seqs x).status = .finished ∨
      ((State.postRows cfg s rows).seqs x).numCachedTokens = (s.seqs x).numTokens := by
  induction rows generalizing s with
  | nil => exact absurd hx List.not_mem_nil
  | cons row rows ih =>
    rw [List.map_cons, List.nodup_cons] at hnd
    change ((State.postRows cfg (s.postRow cfg row.1 row.2) rows).seqs x).status = _ ∨
      ((State.postRows cfg (s.postRow cfg row.1 row.2) rows).seqs x).numCachedTokens = _
    rcases List.mem_cons.mp hx with hxr | hmem
    · rw [hxr] at hfull ⊢
      rw [State.postRows_other hnd.1]
      exact s.postRow_cached cfg row.1 row.2 hfull
    · have hne : x ≠ row.1 := fun heq => hnd.1 (heq ▸ hmem)
      have hsame := s.postRow_other cfg row.2 hne
      have hrest := @ih (s.postRow cfg row.1 row.2) hnd.2 hmem (by rw [hsame]; exact hfull)
      rwa [hsame] at hrest

private theorem Awaiting.mono {batch' : List Nat} (h : Awaiting cfg batch s)
    (hsub : ∀ x ∈ batch, x ∈ batch') : Awaiting cfg batch' s where
  running x hx hout := h.running x hx fun hmem => hout (hsub x hmem)
  waiting x hx hout := h.waiting x hx fun hmem => hout (hsub x hmem)
  idle x hx hout := h.idle x hx fun hmem => hout (hsub x hmem)
  room := h.room

private theorem Awaiting.setDraft (h : Awaiting cfg [] s) (hx : (s.seqs x).status = .running) {d : Nat}
    (hd : d ≤ (s.seqs x).numCachedTokens) :
    Awaiting cfg [] (s.setSeq x { s.seqs x with numDraftCachedTokens := d }) := by
  by_cases hlive : x ∈ s.running ++ s.waiting
  · have h' : Awaiting cfg [x] s := h.mono (by simp)
    refine h'.settleRow (s.setSeq_seqs x _) rfl rfl
      (h.idle x hlive List.not_mem_nil) ?_ ?_
    · intro hrun
      have hrow := h.running x hrun List.not_mem_nil
      exact ⟨hrow.status, hd, hrow.pages, hrow.cached_lt, hrow.rest, hrow.full⟩
    · intro hwait
      have hrow := h.waiting x hwait List.not_mem_nil
      rw [hrow.status] at hx
      exact absurd hx (by simp)
  · have hother : ∀ y ∈ s.running ++ s.waiting,
        (s.setSeq x { s.seqs x with numDraftCachedTokens := d }).seqs y = s.seqs y := by
      intro y hy
      rw [State.setSeq_seqs, Function.update_of_ne]
      exact fun heq => hlive (heq ▸ hy)
    refine ⟨fun y hy hout => ?_, fun y hy hout => ?_, fun y hy hout => ?_, h.room⟩
    · rw [hother y (List.mem_append_left _ hy)]
      exact h.running y hy hout
    · rw [hother y (List.mem_append_right _ hy)]
      exact h.waiting y hy hout
    · rw [hother y hy]
      exact h.idle y hy hout

private theorem Awaiting.commitCoverage (coverage : List (Nat × Nat)) (h : Awaiting cfg [] s)
    (hcover : ∀ x ∈ batch, (s.seqs x).status = .running →
      coverageOf coverage x ≤ (s.seqs x).numCachedTokens) :
    Awaiting cfg [] (s.commitCoverage coverage batch) := by
  induction batch generalizing s with
  | nil => exact h
  | cons x batch ih =>
    have hkept : ∀ y, ((s.setSeq x { s.seqs x with
          numDraftCachedTokens := coverageOf coverage x }).seqs y).status = (s.seqs y).status ∧
        ((s.setSeq x { s.seqs x with
          numDraftCachedTokens := coverageOf coverage x }).seqs y).numCachedTokens =
          (s.seqs y).numCachedTokens := by
      intro y
      by_cases hyx : y = x
      · rw [hyx, State.setSeq_seqs, Function.update_self]
        exact ⟨rfl, rfl⟩
      · rw [State.setSeq_seqs, Function.update_of_ne hyx]
        exact ⟨rfl, rfl⟩
    by_cases hx : (s.seqs x).status = .running
    · have hstep : s.commitCoverage coverage (x :: batch) = (s.setSeq x { s.seqs x with
          numDraftCachedTokens := coverageOf coverage x }).commitCoverage coverage batch := by
        unfold State.commitCoverage
        rw [List.foldl_cons, if_pos hx]
      rw [hstep]
      refine ih (h.setDraft hx (hcover x List.mem_cons_self hx)) fun y hy hrun => ?_
      rw [(hkept y).1] at hrun
      rw [(hkept y).2]
      exact hcover y (List.mem_cons_of_mem x hy) hrun
    · have hstep : s.commitCoverage coverage (x :: batch) = s.commitCoverage coverage batch := by
        unfold State.commitCoverage
        rw [List.foldl_cons, if_neg hx]
      rw [hstep]
      exact ih h fun y hy => hcover y (List.mem_cons_of_mem x hy)

theorem Awaiting.withControl (h : Awaiting cfg batch s) (hseqs : t.seqs = s.seqs)
    (hrun : t.running = s.running) (hwait : t.waiting = s.waiting) : Awaiting cfg batch t := by
  refine ⟨?_, ?_, ?_, ?_⟩
  · rw [hseqs, hrun]
    exact h.running
  · rw [hseqs, hwait]
    exact h.waiting
  · rw [hseqs, hrun, hwait]
    exact h.idle
  · rw [hrun, hwait]
    exact h.room

/-- The handoff closes on queues at rest when the staged coverage is within the cache. -/
theorem Awaiting.closeHandoff (h : Awaiting cfg [] t) (hcover : s.pendingDraftCoveragePlan ≠ none →
      ∀ x ∈ batch, (t.seqs x).status = .running →
        coverageOf (s.pendingDraftCoverage.getD []) x ≤ (t.seqs x).numCachedTokens) :
    Awaiting cfg [] (t.closeHandoff s batch) := by
  have hctl := t.closeHandoff_control s batch
  by_cases hpend : s.pendingDraftCoveragePlan.isSome
  · refine (h.commitCoverage (s.pendingDraftCoverage.getD []) (hcover ?_)).withControl ?_ ?_ ?_
    · rw [← Option.isSome_iff_ne_none]
      exact hpend
    · unfold State.closeHandoff
      by_cases htr : s.activeSpecTransaction.isSome <;> simp [hpend, htr]
    · rw [show (t.closeHandoff s batch).running = t.running from congrArg Control.running hctl]
      exact (congrArg Control.running (State.commitCoverage_control _ batch t)).symm
    · rw [show (t.closeHandoff s batch).waiting = t.waiting from congrArg Control.waiting hctl]
      exact (congrArg Control.waiting (State.commitCoverage_control _ batch t)).symm
  · refine h.withControl ?_ (congrArg Control.running hctl) (congrArg Control.waiting hctl)
    unfold State.closeHandoff
    by_cases htr : s.activeSpecTransaction.isSome <;> simp [hpend, htr]

structure Trimmed (cfg : Config) (q : Sequence) (row : PreparedRow) : Prop where
  fits : Fits cfg q row
  status : q.status = .running
  pages : q.blockTable.length = pagesFor cfg.kvcacheBlockSize row.cached
  draft_le : row.draftCached ≤ row.cached

private theorem Trimmed.running {q : Sequence} {row : PreparedRow} (h : Trimmed cfg q row) :
    RunningRow cfg { q with
      tokenIds := q.tokenIds ++ row.tokens
      numCachedTokens := row.cached
      numDraftCachedTokens := row.draftCached
      numScheduledTokens := 0 } := by
  have hlen : (q.tokenIds ++ row.tokens).length = row.cached + 1 := by
    rw [List.length_append]
    exact h.fits.length.symm
  refine ⟨h.status, h.draft_le, h.pages, ?_, fun _ => ?_, ?_⟩
  · change row.cached < (q.tokenIds ++ row.tokens).length
    omega
  · change row.cached + 1 = (q.tokenIds ++ row.tokens).length
    omega
  · intro hlt
    exact absurd hlt (Nat.lt_irrefl 0)

private theorem Awaiting.commitOne {row : PreparedRow} (h : Awaiting cfg (row.sequence :: batch) s)
    (hcore : Core cfg [] s) (hx : row.sequence ∈ s.running)
    (htrim : Trimmed cfg (s.seqs row.sequence) row) :
    Awaiting cfg batch (s.commitOne cfg row) := by
  have hnd := hcore.queues_nodup
  have hburst := s.burst_control cfg row
  have hout : row.sequence ∉ s.waiting := fun hwait =>
    (List.nodup_append.mp hnd).2.2 _ hx _ hwait rfl
  unfold State.commitOne
  split
  · have hret := (s.burst cfg row).retire_control row.sequence
    refine h.retireRow hnd hx (q := { (s.burst cfg row).seqs row.sequence with
      status := .finished
      numCachedTokens := 0
      numDraftCachedTokens := 0
      blockTable := [] }) ?_ ?_ ?_
    · rw [State.retire_seqs]
      nth_rewrite 1 [State.burst_seqs]
      rw [Function.update_idem]
    · rw [show ((s.burst cfg row).retire row.sequence).running =
        (s.burst cfg row).running.erase row.sequence from congrArg Control.running hret,
        show (s.burst cfg row).running = s.running from congrArg Control.running hburst]
    · exact (congrArg Control.waiting hret).trans (congrArg Control.waiting hburst)
  · exact h.settleRow (s.burst_seqs cfg row) (congrArg Control.running hburst)
      (congrArg Control.waiting hburst) rfl (fun _ => htrim.running) fun hwait => absurd hwait hout

theorem Awaiting.commitAll {prepared : List PreparedRow}
    (h : Awaiting cfg (prepared.map PreparedRow.sequence) s) (hcore : Core cfg [] s)
    (hnd : (prepared.map PreparedRow.sequence).Nodup)
    (hrun : ∀ row ∈ prepared, row.sequence ∈ s.running)
    (htrim : ∀ row ∈ prepared, Trimmed cfg (s.seqs row.sequence) row) :
    Awaiting cfg [] (s.commitAll cfg prepared) := by
  induction prepared generalizing s with
  | nil => exact h
  | cons row prepared ih =>
    rw [List.map_cons, List.nodup_cons] at hnd
    have hx := hrun row List.mem_cons_self
    have hrow := htrim row List.mem_cons_self
    have hne : ∀ more ∈ prepared, more.sequence ≠ row.sequence := fun more hmem heq =>
      hnd.1 (heq ▸ List.mem_map_of_mem hmem)
    refine ih (h.commitOne hcore hx hrow) (hcore.commitOne hx hrow.fits) hnd.2 ?_ ?_
    · intro more hmem
      exact s.commitOne_running cfg (hne more hmem) (hrun more (List.mem_cons_of_mem row hmem))
    · intro more hmem
      rw [s.commitOne_seqs_out cfg (hne more hmem)]
      exact htrim more (List.mem_cons_of_mem row hmem)

end NanoVllm
