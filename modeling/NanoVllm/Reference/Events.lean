/- module: NanoVllm/Reference/Events
   layer: invariant
   source: nanovllm/engine/scheduler.py, the stream outputs of postprocess and commit_speculative
   digest: The stream outputs of a request are its completion tokens, one by one. -/

import NanoVllm.Reference.Course

set_option autoImplicit false
set_option relaxedAutoImplicit false

namespace NanoVllm

variable {cfg : Config} {s t u : State} {q r : Sequence} {x y token : Nat}
  {events : List StreamOutput} {tokens more live live' : List Nat}

def Sequence.completionTokenIds (q : Sequence) : List Nat := q.tokenIds.drop q.numPromptTokens

/-- One output for each token; the last one is marked when the request finished with it. -/
def streamOf (x : Nat) (tokens : List Nat) (finished : Bool) : List StreamOutput :=
  tokens.mapIdx fun i token => ⟨x, token, finished && decide (i + 1 = tokens.length)⟩

theorem streamOf_append (hne : more ≠ []) (finished : Bool) :
    streamOf x (tokens ++ more) finished = streamOf x tokens false ++ streamOf x more finished := by
  have hpos := List.length_pos_of_ne_nil hne
  unfold streamOf
  rw [List.mapIdx_append, List.length_append]
  congr 1
  · refine List.ext_getElem (by simp) fun i hi _ => ?_
    rw [List.length_mapIdx] at hi
    rw [List.getElem_mapIdx, List.getElem_mapIdx, decide_eq_false (by omega), Bool.and_false,
      Bool.false_and]
  · refine List.ext_getElem (by simp) fun i hi _ => ?_
    rw [List.getElem_mapIdx, List.getElem_mapIdx]
    congr 2
    exact decide_eq_decide.mpr (by omega)

theorem filter_streamOf_self (x : Nat) (tokens : List Nat) (finished : Bool) :
    (streamOf x tokens finished).filter (fun e => decide (e.seqId = x)) =
      streamOf x tokens finished := by
  refine List.filter_eq_self.mpr fun e he => ?_
  obtain ⟨i, hi, rfl⟩ := List.mem_mapIdx.mp he
  exact decide_eq_true rfl

theorem filter_streamOf_other (hyx : y ≠ x) (tokens : List Nat) (finished : Bool) :
    (streamOf x tokens finished).filter (fun e => decide (e.seqId = y)) = [] := by
  refine List.filter_eq_nil_iff.mpr fun e he => ?_
  obtain ⟨i, hi, rfl⟩ := List.mem_mapIdx.mp he
  simpa using hyx.symm

/-- The outputs of each request so far are its completion tokens; a queued request was not told to
be finished, and a finished one was. -/
structure Told (events : List StreamOutput) (s : State) : Prop where
  prompt : ∀ x, (s.seqs x).numPromptTokens ≤ (s.seqs x).numTokens
  issued : ∀ e ∈ events, e.seqId < s.nextSeqId
  own : ∀ x, ∃ finished,
    events.filter (fun e => decide (e.seqId = x)) = streamOf x (s.seqs x).completionTokenIds finished ∧
      (x ∈ s.running ++ s.waiting → finished = false) ∧
      ((s.seqs x).status = .finished → finished = true)

theorem Told.silent (h : Told events s)
    (hsilent : Silent (s.running ++ s.waiting) s (t.running ++ t.waiting) t) : Told events t where
  prompt x := by
    have htext := hsilent.texts x
    rw [Sequence.numTokens, htext.tokenIds, htext.prompt]
    exact h.prompt x
  issued := by
    rw [hsilent.issued]
    exact h.issued
  own x := by
    have htext := hsilent.texts x
    obtain ⟨finished, hown, hqueued, hfinished⟩ := h.own x
    have hsame : (t.seqs x).completionTokenIds = (s.seqs x).completionTokenIds := by
      unfold Sequence.completionTokenIds
      rw [htext.tokenIds, htext.prompt]
    refine ⟨finished, ?_, fun hx => hqueued (hsilent.queued x hx), fun hdone => ?_⟩
    · rw [hsame]
      exact hown
    · exact hfinished (htext.finished hdone)

/-- Outputs of a running row that gains tokens, the last one marked if it leaves the queues. -/
private theorem Told.gained (h : Told events s) (hx : x ∈ s.running) (hne : tokens ≠ [])
    (hseqs : t.seqs = Function.update s.seqs x r)
    (htokens : r.tokenIds = (s.seqs x).tokenIds ++ tokens)
    (hprompt : r.numPromptTokens = (s.seqs x).numPromptTokens)
    (hknown : x < s.nextSeqId) (hnext : t.nextSeqId = s.nextSeqId)
    (hlive : ∀ y ∈ t.running ++ t.waiting, y ∈ s.running ++ s.waiting) {finished : Bool}
    (hout : finished = true → x ∉ t.running ++ t.waiting)
    (hstatus : r.status = .finished → finished = true) :
    Told (events ++ streamOf x tokens finished) t := by
  have hfits : (s.seqs x).numPromptTokens ≤ (s.seqs x).tokenIds.length := h.prompt x
  have hcompletion : r.completionTokenIds = (s.seqs x).completionTokenIds ++ tokens := by
    unfold Sequence.completionTokenIds
    rw [htokens, hprompt, List.drop_append_of_le_length hfits]
  refine ⟨fun y => ?_, fun e he => ?_, fun y => ?_⟩
  · rw [hseqs]
    by_cases hyx : y = x
    · subst hyx
      rw [Function.update_self]
      show _ ≤ r.tokenIds.length
      rw [hprompt, htokens, List.length_append]
      exact hfits.trans (Nat.le_add_right _ _)
    · rw [Function.update_of_ne hyx]
      exact h.prompt y
  · rw [hnext]
    rcases List.mem_append.mp he with he | he
    · exact h.issued e he
    · obtain ⟨i, hi, rfl⟩ := List.mem_mapIdx.mp he
      exact hknown
  · obtain ⟨before, hown, hqueued, hfinished⟩ := h.own y
    rw [List.filter_append, hown, hseqs]
    by_cases hyx : y = x
    · subst hyx
      obtain rfl := hqueued (List.mem_append_left _ hx)
      refine ⟨finished, ?_, fun hy => ?_, ?_⟩
      · rw [filter_streamOf_self, Function.update_self, hcompletion, streamOf_append hne]
      · exact Bool.eq_false_iff.mpr fun hmarked => hout hmarked hy
      · rw [Function.update_self]
        exact hstatus
    · rw [filter_streamOf_other hyx, List.append_nil, Function.update_of_ne hyx]
      exact ⟨before, rfl, fun hy => hqueued (hlive y hy), hfinished⟩

private theorem Told.settle (h : Told events s) (hnd : (s.running ++ s.waiting).Nodup)
    (hx : x ∈ s.running) (hne : tokens ≠ []) (hseqs : u.seqs = Function.update s.seqs x r)
    (hcontrol : u.control = s.control) (hgains : r.Gains (s.seqs x) tokens)
    (hknown : x < s.nextSeqId) (hstatus : r.status ≠ .finished) :
    Told (events ++ streamOf x tokens (stopsAt cfg (u.seqs x) token))
      (if stopsAt cfg (u.seqs x) token then u.retire x else u) := by
  have hrun : u.running = s.running := congrArg Control.running hcontrol
  have hwait : u.waiting = s.waiting := congrArg Control.waiting hcontrol
  have hnext : u.nextSeqId = s.nextSeqId := congrArg Control.nextSeqId hcontrol
  have hself : u.seqs x = r := by rw [hseqs, Function.update_self]
  cases hstop : stopsAt cfg (u.seqs x) token with
  | true =>
    rw [if_pos rfl]
    have hretire := u.retire_control x
    have hrun' : (u.retire x).running = s.running.erase x :=
      (congrArg Control.running hretire).trans (congrArg (List.erase · x) hrun)
    have hwait' : (u.retire x).waiting = s.waiting :=
      (congrArg Control.waiting hretire).trans hwait
    refine h.gained (r := { r with
      status := .finished
      numCachedTokens := 0
      numDraftCachedTokens := 0
      blockTable := [] }) hx hne ?_ hgains.tokenIds hgains.prompt hknown
      ((congrArg Control.nextSeqId hretire).trans hnext) (fun y hy => ?_) (fun _ hin => ?_) fun _ => rfl
    · rw [u.retire_seqs x, hself, hseqs, Function.update_idem]
    · rw [hrun', hwait'] at hy
      rcases List.mem_append.mp hy with hy | hy
      · exact List.mem_append_left _ (List.mem_of_mem_erase hy)
      · exact List.mem_append_right _ hy
    · rw [hrun', hwait'] at hin
      obtain ⟨hrunnd, -, hapart⟩ := List.nodup_append.mp hnd
      rcases List.mem_append.mp hin with hin | hin
      · exact ((List.Nodup.mem_erase_iff hrunnd).mp hin).1 rfl
      · exact hapart x hx x hin rfl
  | false =>
    rw [if_neg Bool.false_ne_true]
    refine h.gained hx hne hseqs hgains.tokenIds hgains.prompt hknown hnext (fun y hy => ?_)
      (fun hmarked => absurd hmarked Bool.false_ne_true) fun hdone => absurd hdone hstatus
    rwa [hrun, hwait] at hy

private theorem Told.postRow (h : Told events s) (hcore : Core cfg [] s) (hx : s.Out cfg x) :
    Told (events ++ s.rowEvents cfg x token) (s.postRow cfg x token) := by
  unfold State.rowEvents State.postRow
  rcases hx.row with ⟨hrun, hrow⟩ | ⟨hwait, hrow⟩
  · have hfull := hrow.full hx.scheduled
    have hgains : (({ s.seqs x with
        numCachedTokens := (s.seqs x).numCachedTokens + (s.seqs x).numScheduledTokens
        numScheduledTokens := 0 } : Sequence).appendToken token).Gains (s.seqs x) [token] :=
      ⟨rfl, rfl, rfl, rfl⟩
    have hstatus : (s.seqs x).status ≠ .finished := by
      rw [hrow.status]
      exact SequenceStatus.noConfusion
    rw [if_neg hfull.not_lt, if_neg hfull.not_lt]
    have hone : ∀ finished, streamOf x [token] finished = [⟨x, token, finished⟩] := fun finished =>
      congrArg (fun marked => [StreamOutput.mk x token marked]) (Bool.and_true finished)
    rw [← hone]
    exact h.settle hcore.queues_nodup hrun (List.cons_ne_nil _ _) (s.appended_seqs cfg x token)
      (s.appended_control cfg x token) hgains (hcore.known x (by simp [hrun])) hstatus
  · rw [if_pos hrow.short, if_pos hrow.short, List.append_nil]
    have hctl := s.advance_control cfg x
    refine h.silent (.update (s.advance_seqs cfg x) ⟨rfl, rfl, rfl, rfl, id⟩
      (congrArg Control.nextSeqId hctl) fun y hy => ?_)
    rwa [show (s.advance cfg x).running = s.running from congrArg Control.running hctl,
      show (s.advance cfg x).waiting = s.waiting from congrArg Control.waiting hctl] at hy

theorem Told.postRows {rows : List (Nat × Nat)} (h : Told events s)
    (hnd : (rows.map Prod.fst).Nodup) (hcore : Core cfg [] s) (hq : s.Quiet)
    (hout : ∀ row ∈ rows, s.Out cfg row.1) :
    Told (events ++ State.rowsEvents cfg s rows) (State.postRows cfg s rows) := by
  induction rows generalizing s events with
  | nil =>
    rw [State.rowsEvents, List.append_nil]
    exact h
  | cons row rows ih =>
    rw [List.map_cons, List.nodup_cons] at hnd
    have hne : ∀ other ∈ rows, other.1 ≠ row.1 :=
      fun other hmem heq => hnd.1 (List.mem_map.mpr ⟨other, hmem, heq⟩)
    have hx := hout row List.mem_cons_self
    rw [State.rowsEvents, ← List.append_assoc]
    exact ih (h.postRow hcore hx) hnd.2 (hcore.postprocessRow_served hq hx.served row.2).2
      ((s.postRow_control cfg row.1 row.2).quiet hq)
      fun other hmem => (hout other (List.mem_cons_of_mem _ hmem)).postRow (hne other hmem) row.2

private theorem Told.commitOne {row : PreparedRow} (h : Told events s) (hcore : Core cfg [] s)
    (hx : row.sequence ∈ s.running) (hstatus : (s.seqs row.sequence).status ≠ .finished)
    (hne : row.tokens ≠ []) :
    Told (events ++ s.burstEvents cfg row) (s.commitOne cfg row) :=
  h.settle hcore.queues_nodup hx hne (s.burst_seqs cfg row) (s.burst_control cfg row)
    ⟨rfl, rfl, rfl, rfl⟩ (hcore.known _ (by simp [hx])) hstatus

theorem Told.commitAll {prepared : List PreparedRow} (h : Told events s) (hcore : Core cfg [] s)
    (hb : Bursts cfg s prepared)
    (hstatus : ∀ row ∈ prepared, (s.seqs row.sequence).status ≠ .finished) :
    Told (events ++ State.commitEvents cfg s prepared) (s.commitAll cfg prepared) := by
  induction prepared generalizing s events with
  | nil =>
    rw [State.commitEvents, List.append_nil]
    exact h
  | cons row prepared ih =>
    have hx := hb.running row List.mem_cons_self
    have hfit := hb.fits row List.mem_cons_self
    have hnd := hb.distinct
    rw [List.map_cons, List.nodup_cons] at hnd
    rw [State.commitEvents, ← List.append_assoc]
    refine ih (h.commitOne hcore hx (hstatus row List.mem_cons_self) hfit.nonempty)
      (hcore.commitOne hx hfit) hb.tail fun other hmem => ?_
    rw [s.commitOne_seqs_out cfg fun heq => hnd.1 (heq ▸ List.mem_map_of_mem hmem)]
    exact hstatus other (List.mem_cons_of_mem _ hmem)

end NanoVllm
