/- module: NanoVllm/Speculation/Undo
   layer: refinement
   source: nanovllm/engine/scheduler.py, rollback_failed_decode_schedule, rollback_draft_discard
     and abort_speculative_step
   digest: Each undo checks everything first: it raises without a trace or completes. -/

import NanoVllm.Speculation.Lending

set_option autoImplicit false
set_option relaxedAutoImplicit false

namespace NanoVllm

open Library

variable {cfg : Config} {s t base : State} {rows : List (Nat × List Nat)}
  {r : TemporaryBlockReservation} {rollback : List DecodeScheduleRollbackRow} {x : Nat}

theorem State.clearScheduled_eq (s : State) (xs : List Nat) :
    s.clearScheduled xs = { s with
      seqs := fun y => if y ∈ xs then { s.seqs y with numScheduledTokens := 0 }
        else s.seqs y } := by
  induction xs generalizing s with
  | nil => simp [State.clearScheduled]
  | cons x xs ih =>
    change (s.setSeq x { s.seqs x with numScheduledTokens := 0 }).clearScheduled xs = _
    rw [ih]
    apply State.ext_control <;> try rfl
    funext y
    by_cases hyx : y = x
    · subst hyx
      by_cases hin : y ∈ xs <;> simp [hin]
    · by_cases hin : y ∈ xs <;> simp [hin, hyx]

@[simp] theorem State.clearScheduled_control (s : State) (xs : List Nat) :
    (s.clearScheduled xs).control = s.control := by
  rw [State.clearScheduled_eq]
  rfl

private theorem State.clearScheduled_table (s : State) (xs : List Nat) :
    (s.clearScheduled xs).table = s.table := by
  rw [State.clearScheduled_eq]
  funext y
  unfold State.table
  simp only
  split <;> rfl

variable (cfg) in
/-- The removal of the appended blocks raises before it changes anything, or has checked every row
of the group. -/
theorem rollbackUncommittedAppends_cases (s : State) (wanted : List (Nat × Nat)) :
    (∃ e, rollbackUncommittedAppends cfg wanted s = .error e s) ∨
    (∃ changed validated, rollbackUncommittedAppends cfg wanted s =
        .ok changed (s.dropAllAppended validated) ∧
      validateUncommittedRows cfg s wanted [] [] = .ok validated) := by
  by_cases hfenced : (s.activeReservation.isSome || s.reservationInProgress) = true
  · left
    have hassert : ∃ e, assertAllocatorMutationAllowed "rollback uncommitted appends" false s =
        .error e s := by
      unfold assertAllocatorMutationAllowed
      rw [Call.bind_of_ok (Call.get_apply s)]
      simp only [Bool.false_and, Bool.not_false, Bool.and_true]
      rw [if_pos hfenced]
      exact ⟨_, rfl⟩
    obtain ⟨e, hassert⟩ := hassert
    exact ⟨e, Call.bind_of_error hassert⟩
  have hfence : assertAllocatorMutationAllowed "rollback uncommitted appends" false s =
      .ok ⟨⟩ s := by
    simp only [Bool.or_eq_true, not_or, Bool.not_eq_true, Option.isSome_eq_false_iff,
      Option.isNone_iff_eq_none] at hfenced
    simp [assertAllocatorMutationAllowed, hfenced.1, hfenced.2]
  have hstart : rollbackUncommittedAppends cfg wanted s = _ := (Call.bind_of_ok hfence).trans
    (Call.bind_of_ok (Call.get_apply s))
  rw [hstart]
  cases hval : validateUncommittedRows cfg s wanted [] [] with
  | error e =>
    left
    exact ⟨e, Call.bind_of_error (liftExcept_error e s)⟩
  | ok validated =>
    rw [Call.bind_of_ok (liftExcept_ok _ s)]
    simp only
    split
    · left
      exact ⟨.runtimeError "uncommitted suffix aliases a participating row prefix", rfl⟩
    · right
      exact ⟨_, validated, rfl, rfl⟩

/-- The rows of an undo record are unchanged and their appends are taken back. -/
structure Undone (cfg : Config) (s : State) (rollback : List DecodeScheduleRollbackRow)
    (validated : List (Nat × Option Nat)) : Prop where
  discard : s.activeDraftDiscard = none
  pending : s.pendingDraftCoveragePlan = none
  unchanged : ∀ row ∈ rollback, rollbackRowUnchanged s row = true
  checked : validateUncommittedRows cfg s
    (rollback.map fun row => (row.sequence, row.expectedBlockCount)) [] [] = .ok validated

def State.undone (s : State) (rollback : List DecodeScheduleRollbackRow)
    (validated : List (Nat × Option Nat)) : State :=
  (s.dropAllAppended validated).clearScheduled (rollback.map DecodeScheduleRollbackRow.sequence)

theorem rollbackFailedDecodeSchedule_cases (rollback : List DecodeScheduleRollbackRow) :
    (∃ e, rollbackFailedDecodeSchedule cfg rollback s = .error e s) ∨
    (∃ changed validated, rollbackFailedDecodeSchedule cfg rollback s =
        .ok changed (s.undone rollback validated) ∧ Undone cfg s rollback validated) := by
  have hstart : rollbackFailedDecodeSchedule cfg rollback s = _ :=
    Call.bind_of_ok (Call.get_apply s)
  rw [hstart]
  by_cases hdis : s.activeDraftDiscard.isSome
  · left
    rw [if_pos hdis]
    exact ⟨.runtimeError "temporary draft reservation is still active", rfl⟩
  rw [if_neg hdis]
  by_cases hpend : s.pendingDraftCoveragePlan.isSome
  · left
    rw [if_pos hpend]
    exact ⟨.runtimeError "draft coverage handoff is still pending", rfl⟩
  rw [if_neg hpend]
  cases hfind : rollback.find? fun row => !rollbackRowUnchanged s row with
  | some row =>
    left
    exact ⟨_, rfl⟩
  | none =>
    have hall : ∀ row ∈ rollback, rollbackRowUnchanged s row = true := by
      intro row hrow
      have := List.find?_eq_none.mp hfind row hrow
      simpa using this
    rcases rollbackUncommittedAppends_cases cfg s
      (rollback.map fun row => (row.sequence, row.expectedBlockCount)) with
      ⟨e, hcall⟩ | ⟨changed, validated, hcall, hval⟩
    · left
      exact ⟨e, Call.bind_of_error hcall⟩
    · right
      refine ⟨changed, validated, ?_, ⟨by simpa using hdis, by simpa using hpend, hall, hval⟩⟩
      change (rollbackUncommittedAppends cfg _ >>= _) s = _
      rw [Call.bind_of_ok hcall]
      rfl

theorem rollbackRowUnchanged_iff {row : DecodeScheduleRollbackRow} :
    rollbackRowUnchanged s row = true ↔
      (s.seqs row.sequence).status = .running ∧ (s.seqs row.sequence).isPrefill = false ∧
      (s.seqs row.sequence).numScheduledTokens = 1 ∧
      (s.seqs row.sequence).numTokens = row.committedTokens ∧
      (s.seqs row.sequence).numCachedTokens = row.targetCachedTokens ∧
      row.targetCachedTokens + 1 = row.committedTokens ∧
      (s.seqs row.sequence).numDraftCachedTokens = row.draftCachedTokens := by
  simp [rollbackRowUnchanged]

def CountsPages (cfg : Config) (rollback : List DecodeScheduleRollbackRow) : Prop :=
  ∀ row ∈ rollback,
    row.expectedBlockCount = pagesFor cfg.kvcacheBlockSize row.targetCachedTokens

section Undone

variable {validated : List (Nat × Option Nat)}

theorem Undone.fst (h : Undone cfg s rollback validated) :
    validated.map Prod.fst = rollback.map DecodeScheduleRollbackRow.sequence := by
  obtain ⟨hrel, -⟩ := validateUncommittedRows_ok h.checked
  have hmap : ∀ {wanted : List (Nat × Nat)} {v : List (Nat × Option Nat)},
      List.Forall₂ (fun e v => v.1 = e.1 ∧ AppendedTail s e.1 e.2 v.2) wanted v →
        v.map Prod.fst = wanted.map Prod.fst := by
    intro wanted v hv
    induction hv with
    | nil => rfl
    | cons hhead _ ih => rw [List.map_cons, List.map_cons, hhead.1, ih]
  rw [hmap hrel, List.map_map]
  rfl

private theorem Undone.nodup (h : Undone cfg s rollback validated) :
    (rollback.map DecodeScheduleRollbackRow.sequence).Nodup := by
  obtain ⟨-, hnd, -⟩ := validateUncommittedRows_ok h.checked
  rwa [List.map_map] at hnd

theorem Undone.entry (h : Undone cfg s rollback validated) {row : DecodeScheduleRollbackRow}
    (hrow : row ∈ rollback) : ∃ found, (row.sequence, found) ∈ validated ∧
      AppendedTail s row.sequence row.expectedBlockCount found := by
  obtain ⟨hrel, -⟩ := validateUncommittedRows_ok h.checked
  have hmem : ∀ {wanted : List (Nat × Nat)} {v : List (Nat × Option Nat)},
      List.Forall₂ (fun e v => v.1 = e.1 ∧ AppendedTail s e.1 e.2 v.2) wanted v →
        ∀ e ∈ wanted, ∃ found, (e.1, found) ∈ v ∧ AppendedTail s e.1 e.2 found := by
    intro wanted v hv
    induction hv with
    | nil => simp
    | @cons e' w wanted v hhead _ ih =>
      intro e he
      rcases List.mem_cons.mp he with rfl | he
      · refine ⟨w.2, ?_, hhead.2⟩
        rw [← hhead.1]
        exact List.mem_cons_self
      · obtain ⟨found, hfound, htail⟩ := ih e he
        exact ⟨found, List.mem_cons_of_mem _ hfound, htail⟩
  exact hmem hrel (row.sequence, row.expectedBlockCount)
    (List.mem_map_of_mem (f := fun row : DecodeScheduleRollbackRow =>
      (row.sequence, row.expectedBlockCount)) hrow)

private theorem Undone.tail (h : Undone cfg s rollback validated) : ∀ v ∈ validated, ∀ b,
    v.2 = some b → s.table v.1 = (s.table v.1).dropLast ++ [b] ∧ (s.blocks b).refCount = 1 := by
  obtain ⟨hrel, -⟩ := validateUncommittedRows_ok h.checked
  have hall : ∀ {wanted : List (Nat × Nat)} {v : List (Nat × Option Nat)},
      List.Forall₂ (fun e v => v.1 = e.1 ∧ AppendedTail s e.1 e.2 v.2) wanted v →
        ∀ w ∈ v, ∀ b, w.2 = some b →
          s.table w.1 = (s.table w.1).dropLast ++ [b] ∧ (s.blocks b).refCount = 1 := by
    intro wanted v hv
    induction hv with
    | nil => simp
    | cons hhead _ ih =>
      intro w hw b hb
      rcases List.mem_cons.mp hw with rfl | hw
      · obtain ⟨hlast, -, href, -⟩ := hhead.2.tail b hb
        rw [hhead.1]
        exact ⟨hlast, href⟩
      · exact ih w hw b hb
  exact hall hrel

theorem State.undone_control (s : State) (rollback : List DecodeScheduleRollbackRow)
    (validated : List (Nat × Option Nat)) : (s.undone rollback validated).control = s.control := by
  simp [State.undone]

theorem State.undone_seqs_out (hfst : validated.map Prod.fst =
    rollback.map DecodeScheduleRollbackRow.sequence)
    (hx : x ∉ rollback.map DecodeScheduleRollbackRow.sequence) :
    (s.undone rollback validated).seqs x = s.seqs x := by
  unfold State.undone
  rw [State.clearScheduled_eq]
  simp only [hx, ↓reduceIte]
  exact s.dropAllAppended_seqs_out (by rw [hfst]; exact hx)

theorem Undone.row (h : Undone cfg s rollback validated) {row : DecodeScheduleRollbackRow}
    (hrow : row ∈ rollback) : ∃ table, (s.undone rollback validated).seqs row.sequence =
      { s.seqs row.sequence with blockTable := table, numScheduledTokens := 0 } ∧
      table.length = row.expectedBlockCount ∧ ∃ more, s.table row.sequence = table ++ more := by
  obtain ⟨found, hmem, htail⟩ := h.entry hrow
  have hnd : (validated.map Prod.fst).Nodup := by
    rw [h.fst]
    exact h.nodup
  have hseqs := s.dropAllAppended_seqs_in hnd hmem
  have hin : row.sequence ∈ rollback.map DecodeScheduleRollbackRow.sequence :=
    List.mem_map_of_mem hrow
  refine ⟨if found.isSome then (s.table row.sequence).dropLast else s.table row.sequence, ?_, ?_, ?_⟩
  · unfold State.undone
    rw [State.clearScheduled_eq]
    simp only [hin, ↓reduceIte, hseqs]
  · cases hf : found with
    | none =>
      simp only [Option.isSome_none, Bool.false_eq_true, ↓reduceIte]
      exact htail.bare hf
    | some b =>
      simp only [Option.isSome_some, ↓reduceIte, List.length_dropLast]
      rw [(htail.tail b hf).2.1]
      rfl
  · cases hf : found with
    | none => exact ⟨[], by simp⟩
    | some b =>
      simp only [Option.isSome_some, ↓reduceIte]
      exact ⟨[b], (htail.tail b hf).1⟩

theorem Core.undone (h : Core cfg [] s) (hu : Undone cfg s rollback validated)
    (hpages : CountsPages cfg rollback) : Core cfg [] (s.undone rollback validated) := by
  have hctl := s.undone_control rollback validated
  have hrunning : (s.undone rollback validated).running = s.running :=
    congrArg Control.running hctl
  have hwaiting : (s.undone rollback validated).waiting = s.waiting :=
    congrArg Control.waiting hctl
  have hmid : (s.undone rollback validated).midChunkSeq = s.midChunkSeq :=
    congrArg Control.midChunkSeq hctl
  have hnext : (s.undone rollback validated).nextSeqId = s.nextSeqId :=
    congrArg Control.nextSeqId hctl
  have hbs := cfg.blockSize_pos
  -- A record names no waiting row with blocks: its chunk would reach the last token.
  have hwaitrow : ∀ row ∈ rollback, row.sequence ∈ s.waiting → s.table row.sequence = [] := by
    intro row hrow hw
    by_contra hne
    have hlt := (h.chunked row.sequence hw hne).scheduled_lt
    obtain ⟨-, -, hsched, hlen, hcached, heq, -⟩ :=
      rollbackRowUnchanged_iff.mp (hu.unchanged row hrow)
    omega
  have htable : ∀ y, y ∉ s.running → (s.undone rollback validated).table y = s.table y := by
    intro y hy
    by_cases hin : y ∈ rollback.map DecodeScheduleRollbackRow.sequence
    · obtain ⟨row, hrow, rfl⟩ := List.mem_map.mp hin
      obtain ⟨table, hseqs, _, more, hmore⟩ := hu.row hrow
      have hnil : s.table row.sequence = [] := by
        by_cases hw : row.sequence ∈ s.waiting
        · exact hwaitrow row hrow hw
        · exact h.dead _ (by simp [hy, hw])
      rw [State.table, hseqs, hnil]
      rw [hnil] at hmore
      exact (List.append_eq_nil_iff.mp hmore.symm).1
    · rw [State.table, State.undone_seqs_out hu.fst hin]
      rfl
  have hcov : ∀ y, (s.undone rollback validated).coverage cfg y = s.coverage cfg y := by
    intro y
    by_cases hin : y ∈ rollback.map DecodeScheduleRollbackRow.sequence
    · obtain ⟨row, hrow, rfl⟩ := List.mem_map.mp hin
      obtain ⟨table, hseqs, _⟩ := hu.row hrow
      rw [State.coverage, hseqs]
      rfl
    · rw [State.coverage, State.undone_seqs_out hu.fst hin]
      rfl
  have hdisj := (List.nodup_append.mp h.own.live_nodup).2.2
  have hwaittab : ∀ w ∈ s.waiting, (s.undone rollback validated).table w = s.table w :=
    fun w hw => htable w fun hr => hdisj w hr w hw rfl
  have hlen : ∀ y, ((s.undone rollback validated).seqs y).numTokens = (s.seqs y).numTokens := by
    intro y
    by_cases hin : y ∈ rollback.map DecodeScheduleRollbackRow.sequence
    · obtain ⟨row, hrow, rfl⟩ := List.mem_map.mp hin
      obtain ⟨table, hseqs, _⟩ := hu.row hrow
      rw [hseqs]
      rfl
    · rw [State.undone_seqs_out hu.fst hin]
  refine ⟨?_, ?_, ?_, ?_, ?_, ?_, ?_, ?_⟩
  · rw [hrunning, hwaiting]
    have hlive : ∀ v ∈ validated, ∀ b, v.2 = some b → v.1 ∈ [] ++ s.running ++ s.waiting := by
      intro v hv b hb
      by_contra hout
      have hlast := (hu.tail v hv b hb).1
      rw [h.dead v.1 hout] at hlast
      exact absurd hlast (by simp)
    have hdrop := h.own.dropAllAppended (by rw [hu.fst]; exact hu.nodup)
      (validateUncommittedRows_ok hu.checked).2.2.2.1 hlive hu.tail
    have hstep : OwnIf cfg.CollisionFree cfg ([] ++ s.running ++ s.waiting) (s.undone rollback validated).table
        (s.coverage cfg) (s.undone rollback validated) := by
      unfold State.undone
      rw [State.clearScheduled_table]
      apply hdrop.congr_pool <;> rw [State.clearScheduled_eq]
    exact hstep.mono_cov fun y _ => (hcov y).ge
  · intro w hw htab
    rw [hwaiting] at hw
    rw [hwaittab w hw] at htab
    rw [hmid]
    exact h.mid_owner w hw htab
  · intro w hw
    rw [hmid] at hw
    obtain ⟨hhead, htab⟩ := h.mid_head w hw
    rw [hwaiting, hwaittab w (List.mem_of_mem_head? (by rw [hhead]; rfl))]
    exact ⟨hhead, htab⟩
  · intro y hy
    rw [hrunning] at hy
    by_cases hin : y ∈ rollback.map DecodeScheduleRollbackRow.sequence
    · obtain ⟨row, hrow, rfl⟩ := List.mem_map.mp hin
      obtain ⟨table, hseqs, hcount, _⟩ := hu.row hrow
      obtain ⟨-, -, -, hcommit, hcached, heq, -⟩ :=
        rollbackRowUnchanged_iff.mp (hu.unchanged row hrow)
      rw [hpages row hrow] at hcount
      have hfit := le_pagesFor_mul hbs row.targetCachedTokens
      rw [← hcount] at hfit
      have hold := h.started row.sequence hy
      rw [hseqs]
      refine ⟨?_, ?_, hold.cached_lt, ?_⟩
      · exact hold.cached_lt.le
      · change (s.seqs row.sequence).numCachedTokens + 0 ≤ table.length * cfg.kvcacheBlockSize
        omega
      · change (s.seqs row.sequence).numTokens ≤ table.length * cfg.kvcacheBlockSize + 1
        omega
    · rw [State.undone_seqs_out hu.fst hin]
      exact h.started y hy
  · intro w hw htab
    rw [hwaiting] at hw
    rw [hwaittab w hw] at htab
    have hin : w ∉ rollback.map DecodeScheduleRollbackRow.sequence := by
      intro hmem
      obtain ⟨row, hrow, rfl⟩ := List.mem_map.mp hmem
      exact htab (hwaitrow row hrow hw)
    rw [State.undone_seqs_out hu.fst hin]
    exact h.chunked w hw htab
  · intro w hw
    rw [hwaiting] at hw
    rw [hlen]
    exact h.nonempty w hw
  · rw [hrunning, hwaiting, hnext]
    exact h.known
  · rw [hrunning, hwaiting]
    intro y hy
    rw [htable y fun hr => hy (by simp [hr])]
    exact h.dead y hy

end Undone

end NanoVllm
