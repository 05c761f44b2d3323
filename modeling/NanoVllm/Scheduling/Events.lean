/- module: NanoVllm/Scheduling/Events
   layer: refinement
   source: nanovllm/engine/scheduler.py, Scheduler.postprocess
   digest: The commit loop over a scheduled batch: which rows take their token, and the events. -/

import NanoVllm.Scheduling.Batches
import NanoVllm.Scheduling.Postprocess

set_option autoImplicit false
set_option relaxedAutoImplicit false

namespace NanoVllm

open Library

variable {cfg : Config} {s t u : State} {x y tokenId : Nat}

/-- The scheduled chunk reaches the last token of the request. -/
def Sequence.Complete (q : Sequence) : Prop :=
  q.numCachedTokens + q.numScheduledTokens = q.numTokens

instance (q : Sequence) : Decidable q.Complete :=
  inferInstanceAs (Decidable (_ = _))

private theorem State.postRow_seqs (s : State) (cfg : Config) (x tokenId : Nat) :
    ∃ q, (s.postRow cfg x tokenId).seqs = Function.update s.seqs x q ∧
      q.tokenIds = (s.seqs x).tokenIds ++
        if (s.seqs x).numCachedTokens + (s.seqs x).numScheduledTokens < (s.seqs x).numTokens then []
        else [tokenId] := by
  unfold State.postRow
  split
  · exact ⟨_, s.advance_seqs cfg x, (List.append_nil _).symm⟩
  · have happended : (s.appended cfg x tokenId).seqs = Function.update s.seqs x
        (((s.advance cfg x).seqs x).appendToken tokenId) := by
      unfold State.appended
      rw [State.setSeq_seqs]
      nth_rewrite 1 [State.advance_seqs]
      rw [Function.update_idem]
    have htokens : (((s.advance cfg x).seqs x).appendToken tokenId).tokenIds =
        (s.seqs x).tokenIds ++ [tokenId] := by
      rw [State.advance_seqs, Function.update_self]
      rfl
    split
    · refine ⟨{ ((s.advance cfg x).seqs x).appendToken tokenId with
        status := .finished
        numCachedTokens := 0
        numDraftCachedTokens := 0
        blockTable := [] }, ?_, htokens⟩
      rw [State.retire_seqs, happended, Function.update_idem, Function.update_self]
    · exact ⟨_, happended, htokens⟩

theorem State.postRow_other (s : State) (cfg : Config) (tokenId : Nat) (hyx : y ≠ x) :
    (s.postRow cfg x tokenId).seqs y = s.seqs y := by
  obtain ⟨q, hseqs, -⟩ := s.postRow_seqs cfg x tokenId
  rw [hseqs, Function.update_of_ne hyx]

theorem State.mem_postRow_running (s : State) (cfg : Config) (tokenId : Nat) (hyx : y ≠ x)
    (hy : y ∈ s.running) : y ∈ (s.postRow cfg x tokenId).running := by
  have happ : (s.appended cfg x tokenId).running = s.running :=
    congrArg Control.running (s.advance_control cfg x)
  unfold State.postRow
  split
  · rw [show (s.advance cfg x).running = s.running from
      congrArg Control.running (s.advance_control cfg x)]
    exact hy
  · split
    · rw [show ((s.appended cfg x tokenId).retire x).running =
        (s.appended cfg x tokenId).running.erase x from
          congrArg Control.running ((s.appended cfg x tokenId).retire_control x), happ]
      exact (List.mem_erase_of_ne hyx).mpr hy
    · rw [happ]
      exact hy

def State.Served (s : State) (x : Nat) : Prop :=
  x ∈ s.running ∨ x ∈ s.waiting ∧ s.table x ≠ []

theorem State.Served.postRow (h : s.Served y) (hyx : y ≠ x) :
    (s.postRow cfg x tokenId).Served y := by
  rcases h with hrun | ⟨hwait, htab⟩
  · exact Or.inl (s.mem_postRow_running cfg tokenId hyx hrun)
  · refine Or.inr ⟨?_, ?_⟩
    · rw [show (s.postRow cfg x tokenId).waiting = s.waiting from
        congrArg Control.waiting (s.postRow_control cfg x tokenId)]
      exact hwait
    · change ((s.postRow cfg x tokenId).seqs y).blockTable ≠ []
      rw [s.postRow_other cfg tokenId hyx]
      exact htab

theorem Core.postprocessRow_served (h : Core cfg [] s) (hq : s.Quiet) (hx : s.Served x)
    (tokenId : Nat) :
    postprocessRow cfg x tokenId s = .ok (s.rowEvents cfg x tokenId) (s.postRow cfg x tokenId) ∧
      Core cfg [] (s.postRow cfg x tokenId) := by
  rcases hx with hrun | ⟨hwait, htab⟩
  · exact ⟨postprocessRow_running hq h hrun tokenId, h.postRow hrun tokenId⟩
  · have hrow := h.chunked x hwait htab
    refine ⟨postprocessRow_part hq hrow.within hrow.scheduled_lt tokenId, ?_⟩
    rw [State.postRow, if_pos hrow.scheduled_lt]
    exact h.advance_waiting hwait htab

def State.postRows (cfg : Config) (s : State) (rows : List (Nat × Nat)) : State :=
  rows.foldl (fun s row => s.postRow cfg row.1 row.2) s

def State.rowsEvents (cfg : Config) : State → List (Nat × Nat) → List StreamOutput
  | _, [] => []
  | s, row :: rows => s.rowEvents cfg row.1 row.2 ++
      State.rowsEvents cfg (s.postRow cfg row.1 row.2) rows

/-- Over distinct served rows the commit loop returns, and each row is committed once. -/
theorem Core.postprocessRows_served {rows : List (Nat × Nat)} (hnd : (rows.map Prod.fst).Nodup)
    (h : Core cfg [] s) (hq : s.Quiet) (hrows : ∀ row ∈ rows, s.Served row.1) :
    postprocessRows cfg rows s = .ok (State.rowsEvents cfg s rows) (State.postRows cfg s rows) ∧
      Core cfg [] (State.postRows cfg s rows) ∧ SameControl s (State.postRows cfg s rows) := by
  induction rows generalizing s with
  | nil => exact ⟨rfl, h, .refl s⟩
  | cons row rows ih =>
    obtain ⟨x, tokenId⟩ := row
    rw [List.map_cons, List.nodup_cons] at hnd
    have hctl := s.postRow_control cfg x tokenId
    obtain ⟨hrow, hcore⟩ := h.postprocessRow_served hq (hrows _ List.mem_cons_self) tokenId
    have hserved : ∀ row ∈ rows, (s.postRow cfg x tokenId).Served row.1 := by
      intro row hmem
      have hne : row.1 ≠ x := by
        rintro rfl
        exact hnd.1 (List.mem_map.mpr ⟨row, hmem, rfl⟩)
      exact (hrows row (List.mem_cons_of_mem _ hmem)).postRow hne
    obtain ⟨hrest, hcore', hctl'⟩ := ih hnd.2 hcore (hctl.quiet hq) hserved
    refine ⟨?_, hcore', hctl.trans hctl'⟩
    unfold postprocessRows
    rw [Call.bind_of_ok hrow, Call.bind_of_ok hrest]
    rfl

theorem State.postRows_other {rows : List (Nat × Nat)} (hy : y ∉ rows.map Prod.fst) (s : State) :
    (State.postRows cfg s rows).seqs y = s.seqs y := by
  induction rows generalizing s with
  | nil => rfl
  | cons row rows ih =>
    rw [List.map_cons, List.mem_cons, not_or] at hy
    exact (ih hy.2 _).trans (s.postRow_other cfg row.2 hy.1)

variable (cfg) in
/-- A row of the list takes its token when its chunk is complete, and none otherwise. -/
theorem State.postRows_tokens {rows : List (Nat × Nat)} (hnd : (rows.map Prod.fst).Nodup)
    (hrow : (x, tokenId) ∈ rows)
    (hle : (s.seqs x).numCachedTokens + (s.seqs x).numScheduledTokens ≤ (s.seqs x).numTokens) :
    ((State.postRows cfg s rows).seqs x).tokenIds =
      (s.seqs x).tokenIds ++ if (s.seqs x).Complete then [tokenId] else [] := by
  induction rows generalizing s with
  | nil => exact absurd hrow List.not_mem_nil
  | cons row rows ih =>
    rw [List.map_cons, List.nodup_cons] at hnd
    rcases List.mem_cons.mp hrow with rfl | hmem
    · obtain ⟨q, hseqs, htokens⟩ := s.postRow_seqs cfg x tokenId
      refine (congrArg Sequence.tokenIds (State.postRows_other hnd.1 _)).trans ?_
      rw [hseqs, Function.update_self, htokens]
      by_cases hfull : (s.seqs x).Complete
      · rw [if_pos hfull, if_neg hfull.not_lt]
      · rw [if_neg hfull, if_pos (lt_of_le_of_ne hle hfull)]
    · have hne : x ≠ row.1 := by
        rintro rfl
        exact hnd.1 (List.mem_map.mpr ⟨_, hmem, rfl⟩)
      have hsame := s.postRow_other cfg row.2 hne
      have hle' := hle
      rw [← hsame] at hle'
      have hrest := ih hnd.2 hmem hle'
      rw [hsame] at hrest
      exact hrest

variable (cfg) in
theorem State.mem_rowsEvents {rows : List (Nat × Nat)} (hnd : (rows.map Prod.fst).Nodup)
    (hle : ∀ row ∈ rows, (s.seqs row.1).numCachedTokens + (s.seqs row.1).numScheduledTokens ≤
      (s.seqs row.1).numTokens) :
    (State.rowsEvents cfg s rows).map (fun e => (e.seqId, e.tokenId)) =
      rows.filter fun row => (s.seqs row.1).Complete := by
  induction rows generalizing s with
  | nil => rfl
  | cons row rows ih =>
    obtain ⟨x, tokenId⟩ := row
    rw [List.map_cons, List.nodup_cons] at hnd
    have hsame : ∀ row ∈ rows, (s.postRow cfg x tokenId).seqs row.1 = s.seqs row.1 := by
      intro row hmem
      refine s.postRow_other cfg tokenId ?_
      rintro rfl
      exact hnd.1 (List.mem_map.mpr ⟨row, hmem, rfl⟩)
    have hrest : (State.rowsEvents cfg (s.postRow cfg x tokenId) rows).map
        (fun e => (e.seqId, e.tokenId)) =
        rows.filter fun row => ((s.postRow cfg x tokenId).seqs row.1).Complete := by
      refine ih hnd.2 fun row hmem => ?_
      rw [hsame row hmem]
      exact hle row (List.mem_cons_of_mem _ hmem)
    have hfilter : rows.filter (fun row => ((s.postRow cfg x tokenId).seqs row.1).Complete) =
        rows.filter fun row => (s.seqs row.1).Complete :=
      List.filter_congr fun row hmem => by rw [hsame row hmem]
    have hfirst := hle _ List.mem_cons_self
    dsimp only at hfirst
    rw [State.rowsEvents, List.map_append, hrest, hfilter, List.filter_cons]
    unfold State.rowEvents
    dsimp only
    by_cases hfull : (s.seqs x).Complete
    · rw [if_neg hfull.not_lt, if_pos (decide_eq_true hfull)]
      rfl
    · rw [if_pos (lt_of_le_of_ne hfirst hfull), if_neg (by simpa using hfull)]
      rfl

private theorem State.postRow_partial (hpart : (s.seqs x).numCachedTokens + (s.seqs x).numScheduledTokens <
    (s.seqs x).numTokens) (a b : Nat) :
    s.postRow cfg x a = s.postRow cfg x b ∧ s.rowEvents cfg x a = s.rowEvents cfg x b := by
  unfold State.postRow State.rowEvents
  rw [if_pos hpart, if_pos hpart, if_pos hpart, if_pos hpart]
  exact ⟨rfl, rfl⟩

variable (cfg) in
theorem State.postRows_congr {batch : List Nat} (hnd : batch.Nodup)
    (hle : ∀ x ∈ batch, (s.seqs x).numCachedTokens + (s.seqs x).numScheduledTokens ≤
      (s.seqs x).numTokens) {a b : List Nat} (ha : a.length = batch.length)
    (hb : b.length = batch.length)
    (hsame : ∀ (i x : Nat), batch[i]? = some x → (s.seqs x).Complete → a[i]? = b[i]?) :
    State.postRows cfg s (batch.zip a) = State.postRows cfg s (batch.zip b) ∧
      State.rowsEvents cfg s (batch.zip a) = State.rowsEvents cfg s (batch.zip b) := by
  induction batch generalizing a b s with
  | nil => exact ⟨rfl, rfl⟩
  | cons x batch ih =>
    obtain ⟨p, a, rfl⟩ := List.exists_cons_of_length_eq_add_one ha
    obtain ⟨q, b, rfl⟩ := List.exists_cons_of_length_eq_add_one hb
    rw [List.nodup_cons] at hnd
    have hfirst := hle x List.mem_cons_self
    have hrow : s.postRow cfg x p = s.postRow cfg x q ∧
        s.rowEvents cfg x p = s.rowEvents cfg x q := by
      by_cases hfull : (s.seqs x).Complete
      · have hpq := hsame 0 x rfl hfull
        rw [List.getElem?_cons_zero, List.getElem?_cons_zero, Option.some.injEq] at hpq
        rw [hpq]
        exact ⟨rfl, rfl⟩
      · exact s.postRow_partial (lt_of_le_of_ne hfirst hfull) p q
    have hother : ∀ y ∈ batch, (s.postRow cfg x q).seqs y = s.seqs y := by
      intro y hy
      refine s.postRow_other cfg q ?_
      rintro rfl
      exact hnd.1 hy
    obtain ⟨hrest, hevents⟩ := ih hnd.2
      (fun y hy => by rw [hother y hy]; exact hle y (List.mem_cons_of_mem x hy))
      (by simpa using ha) (by simpa using hb) (fun i y hi hfull => by
        rw [hother y (List.mem_of_getElem? hi)] at hfull
        exact hsame (i + 1) y hi hfull)
    rw [List.zip_cons_cons, List.zip_cons_cons]
    refine ⟨?_, ?_⟩
    · change State.postRows cfg (s.postRow cfg x p) (batch.zip a) = _
      rw [hrow.1, hrest]
      rfl
    · rw [State.rowsEvents, State.rowsEvents]
      dsimp only
      rw [hrow.1, hrow.2, hevents]

end NanoVllm
