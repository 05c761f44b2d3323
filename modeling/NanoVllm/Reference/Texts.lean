/- module: NanoVllm/Reference/Texts
   layer: invariant
   source: nanovllm/engine/scheduler.py, schedule, preempt and cancel
   digest: Between two commits no request gains a word, and none finishes. -/

import NanoVllm.Content.StepCache

set_option autoImplicit false
set_option relaxedAutoImplicit false

namespace NanoVllm

open Library

variable {cfg : Config} {s t u v w q base : State} {x room m batched : Nat} {c c' : Cursor}
  {acc acc' done batch victims ids live live' more : List Nat} {rows leased : List (Nat × List Nat)}

/-- The request has the words and the limits of `r`, and is finished only if `r` was. -/
structure Sequence.SameText (q r : Sequence) : Prop where
  tokenIds : q.tokenIds = r.tokenIds
  prompt : q.numPromptTokens = r.numPromptTokens
  maxTokens : q.maxTokens = r.maxTokens
  ignoreEos : q.ignoreEos = r.ignoreEos
  finished : q.status = .finished → r.status = .finished

private theorem Sequence.SameText.refl (q : Sequence) : q.SameText q := ⟨rfl, rfl, rfl, rfl, id⟩

private theorem Sequence.SameText.trans {q r o : Sequence} (h : q.SameText r) (h' : r.SameText o) :
    q.SameText o where
  tokenIds := h.tokenIds.trans h'.tokenIds
  prompt := h.prompt.trans h'.prompt
  maxTokens := h.maxTokens.trans h'.maxTokens
  ignoreEos := h.ignoreEos.trans h'.ignoreEos
  finished := h'.finished ∘ h.finished

/-- From `s` to `t` no request gains a word or finishes, none is created, and none enters the
queues. -/
structure Silent (live : List Nat) (s : State) (live' : List Nat) (t : State) : Prop where
  texts : ∀ x, (t.seqs x).SameText (s.seqs x)
  queued : ∀ x ∈ live', x ∈ live
  issued : t.nextSeqId = s.nextSeqId

namespace Silent

theorem refl (live : List Nat) (s : State) : Silent live s live s :=
  ⟨fun _ => .refl _, fun _ hx => hx, rfl⟩

theorem trans (h : Silent live s more t) (h' : Silent more t live' u) : Silent live s live' u :=
  ⟨fun x => (h'.texts x).trans (h.texts x), fun x hx => h.queued x (h'.queued x hx),
    h'.issued.trans h.issued⟩

theorem of_eq (hseqs : t.seqs = s.seqs) (hnext : t.nextSeqId = s.nextSeqId)
    (hlive : ∀ x ∈ live', x ∈ live) :
    Silent live s live' t := by
  refine ⟨fun x => ?_, hlive, hnext⟩
  rw [hseqs]
  exact .refl _

theorem update {r : Sequence} (hseqs : t.seqs = Function.update s.seqs x r)
    (hrow : r.SameText (s.seqs x)) (hnext : t.nextSeqId = s.nextSeqId)
    (hlive : ∀ x ∈ live', x ∈ live) : Silent live s live' t := by
  refine ⟨fun y => ?_, hlive, hnext⟩
  rw [hseqs]
  by_cases hyx : y = x
  · subst hyx
    rw [Function.update_self]
    exact hrow
  · rw [Function.update_of_ne hyx]
    exact .refl _

private theorem evict (s : State) (x : Nat) (hlive : ∀ y ∈ live', y ∈ live) :
    Silent live s live' (s.evict x) :=
  .update (s.evict_seqs x) ⟨rfl, rfl, rfl, rfl, fun h => absurd h (by simp)⟩
    (congrArg Control.nextSeqId (s.evict_control x)) hlive

private theorem evictFrom (s : State) (r w : List Nat) (x : Nat) (hlive : ∀ y ∈ live', y ∈ live) :
    Silent live s live' (((s.withRunning r).withWaiting w).evict x) := by
  have hqueues : Silent live s live ((s.withRunning r).withWaiting w) :=
    .of_eq rfl rfl fun _ hy => hy
  exact hqueues.trans (.evict _ x hlive)

end Silent

private theorem DecodeMove.silent (hm : DecodeMove cfg c c') :
    Silent (c.rows ++ c.st.running ++ c.st.waiting) c.st
      (c'.rows ++ c'.st.running ++ c'.st.waiting) c'.st := by
  cases hm with
  | @take done rest x s hrun hcap =>
    refine .of_eq rfl rfl fun y hy => ?_
    simpa [Cursor.rows, hrun, or_assoc] using hy
  | @evictMid done rest x w s hfull hmid hwait =>
    refine Silent.evictFrom s s.running rest w fun y hy => ?_
    simpa [Cursor.rows, State.evict_running, State.evict_waiting, hwait, or_assoc, or_comm]
      using hy
  | @evictLast done rest x v s hfull hmid hrun =>
    refine Silent.evictFrom s rest s.waiting v fun y hy => ?_
    simp only [Cursor.rows, State.evict_running, State.evict_waiting, hrun, List.mem_append,
      State.withRunning_running, State.withRunning_waiting] at hy ⊢
    tauto
  | @evictSelf done x s hfull hmid hrun =>
    refine .evict s x fun y hy => ?_
    simp only [Cursor.rows, State.evict_running, State.evict_waiting, hrun, List.mem_append,
      Option.toList_some, Option.toList_none, List.append_nil] at hy ⊢
    tauto
  | @grant done x s hroom =>
    refine .update (s.grant_seqs cfg x) ⟨rfl, rfl, rfl, rfl, id⟩
      (congrArg Control.nextSeqId (s.grant_control cfg x)) fun y hy => ?_
    have hctl := s.grant_control cfg x
    have hrun : (s.grant cfg x).running = s.running := congrArg Control.running hctl
    have hwait : (s.grant cfg x).waiting = s.waiting := congrArg Control.waiting hctl
    change y ∈ (done ++ [x]) ++ [] ++ (s.grant cfg x).running ++ (s.grant cfg x).waiting at hy
    rwa [hrun, hwait, List.append_nil] at hy

private theorem DecodeWalk.silent (hw : DecodeWalk cfg c c') :
    Silent (c.rows ++ c.st.running ++ c.st.waiting) c.st
      (c'.rows ++ c'.st.running ++ c'.st.waiting) c'.st := by
  induction hw with
  | refl => exact .refl _ _
  | tail _ hm ih => exact ih.trans hm.silent

private theorem Allotted.silent {held : List Nat} (ha : Allotted cfg held s x room m t)
    (hlive : ∀ y ∈ live', y ∈ live) : Silent live s live' t :=
  .update ha.seqs ⟨rfl, rfl, rfl, rfl, id⟩ (congrArg Control.nextSeqId ha.control) hlive

private theorem State.sendBack_silent {rest : List Nat} (hwait : s.waiting = x :: rest) :
    Silent (s.running ++ s.waiting) s
      ((s.sendBack x rest).running ++ (s.sendBack x rest).waiting) (s.sendBack x rest) := by
  have hmark : Silent (s.running ++ s.waiting) s (s.running ++ s.waiting) (s.setScheduled x 0) :=
    .update rfl ⟨rfl, rfl, rfl, rfl, id⟩ rfl fun _ hy => hy
  refine hmark.trans (.evictFrom (s.setScheduled x 0) s.running rest x fun y hy => ?_)
  change y ∈ (((s.setScheduled x 0).withWaiting rest).evict x).running ++
    (((s.setScheduled x 0).withWaiting rest).evict x).waiting at hy
  rw [State.evict_running, State.evict_waiting] at hy
  change y ∈ s.running ++ (rest ++ [x]) at hy
  rw [hwait]
  simp only [List.mem_append, List.mem_cons, List.not_mem_nil, or_false] at hy ⊢
  tauto

private theorem Fills.silent (hf : Fills cfg acc batched s acc' u) (h : s.Ready cfg) :
    Silent (s.running ++ s.waiting) s (u.running ++ u.waiting) u := by
  induction hf with
  | stop _ => exact .refl _ _
  | refuse _ _ _ _ _ => exact .refl _ _
  | @full acc rest acc' batched x m s t u hwait _ hbudget hallot hfull _ ih =>
    have ha := h.allotted hwait (by omega) hallot
    have hready := (h.joined hwait ha hfull).record (.scheduled x)
    have hctl := t.joinRunning_control x
    have hjoin : Silent (s.running ++ s.waiting) t
        (((t.joinRunning x).record (.scheduled x)).running ++
          ((t.joinRunning x).record (.scheduled x)).waiting)
        ((t.joinRunning x).record (.scheduled x)) := by
      refine .update (t.joinRunning_seqs x) ⟨rfl, rfl, rfl, rfl, fun h => absurd h (by simp)⟩
        (congrArg Control.nextSeqId hctl) fun y hy => ?_
      have hrun : (t.joinRunning x).running = t.running ++ [x] := congrArg Control.running hctl
      have hwait' : (t.joinRunning x).waiting = t.waiting.tail := congrArg Control.waiting hctl
      change y ∈ (t.joinRunning x).running ++ (t.joinRunning x).waiting at hy
      rw [hrun, hwait', show t.running = s.running from congrArg Control.running ha.control,
        show t.waiting = s.waiting from congrArg Control.waiting ha.control, hwait] at hy
      rw [hwait]
      simp only [List.mem_append, List.tail_cons, List.mem_cons, List.not_mem_nil, or_false] at hy ⊢
      tauto
    exact ((ha.silent fun _ hy => hy).trans hjoin).trans (ih hready)
  | @chunk acc rest batched x m s t hwait _ hbudget hallot hpart =>
    have ha := h.allotted hwait (by omega) hallot
    refine (ha.silent fun _ hy => hy).trans (.of_eq rfl rfl fun y hy => ?_)
    change y ∈ t.running ++ t.waiting at hy
    rwa [show t.running = s.running from congrArg Control.running ha.control,
      show t.waiting = s.waiting from congrArg Control.waiting ha.control] at hy
  | sendBackStop hwait _ _ _ _ _ _ => exact State.sendBack_silent hwait
  | sendBack hwait _ htab _ _ _ ih =>
    exact (State.sendBack_silent hwait).trans (ih (h.sendBack hwait htab).1)

private theorem Schedules.silent (hs : Schedules cfg s done t batch u) (h : s.Ready cfg) :
    Silent (s.running ++ s.waiting) s (u.running ++ u.waiting) u := by
  have hgood := DecodeWalk.good hs.walk h.good
  have hready := Cursor.Good.rejoin hgood
  have hwalk := DecodeWalk.silent hs.walk
  have hjoin : Silent (s.running ++ s.waiting) s
      ((t.withRunning (done ++ t.running)).running ++ (t.withRunning (done ++ t.running)).waiting)
      (t.withRunning (done ++ t.running)) := by
    refine ⟨hwalk.texts, fun y hy => ?_, hwalk.issued⟩
    have hin := hwalk.queued y (by simpa [Cursor.rows] using hy)
    simpa [Cursor.rows] using hin
  exact hjoin.trans (hs.fills.silent hready)

theorem State.Ready.schedule_silent (h : s.Ready cfg) :
    Silent (s.running ++ s.waiting) s
      ((Call.after (schedule cfg s)).running ++ (Call.after (schedule cfg s)).waiting)
      (Call.after (schedule cfg s)) := by
  obtain ⟨done, t, batch, u, hsched, -, hok, herr⟩ := schedule_trace h
  have hu := hsched.silent h
  by_cases hnil : batch = []
  · obtain ⟨message, hres⟩ := herr hnil
    rw [hres]
    exact hu
  · rw [hok hnil]
    exact hu

private theorem State.forgetAll_silent (xs : List Nat) : ∀ s : State,
    Silent (s.running ++ s.waiting) s
      ((s.forgetAll xs).running ++ (s.forgetAll xs).waiting) (s.forgetAll xs) := by
  induction xs with
  | nil => exact fun s => .refl _ s
  | cons x xs ih =>
    intro s
    have hctl := s.forget_control x
    have hone : Silent (s.running ++ s.waiting) s
        ((s.forget x).running ++ (s.forget x).waiting) (s.forget x) := by
      refine .update (s.forget_row x) ⟨rfl, rfl, rfl, rfl, fun h => absurd h (by
        simp [Sequence.cancelled])⟩ (congrArg Control.nextSeqId hctl) fun y hy => ?_
      have hrun : (s.forget x).running = s.running.erase x := congrArg Control.running hctl
      have hwait : (s.forget x).waiting = s.waiting.erase x := congrArg Control.waiting hctl
      rw [hrun, hwait] at hy
      rcases List.mem_append.mp hy with hy | hy
      · exact List.mem_append_left _ (List.mem_of_mem_erase hy)
      · exact List.mem_append_right _ (List.mem_of_mem_erase hy)
    exact hone.trans (ih (s.forget x))

theorem State.drop_silent (s : State) (targets : List Nat) : Silent (s.running ++ s.waiting) s
    ((s.drop targets).running ++ (s.drop targets).waiting) (s.drop targets) := by
  rw [s.drop_eq targets]
  exact s.forgetAll_silent _

private theorem State.commitCoverage_texts (coverage : List (Nat × Nat)) (batch : List Nat) :
    ∀ (s : State) (x : Nat), ((s.commitCoverage coverage batch).seqs x).SameText (s.seqs x) := by
  induction batch with
  | nil => exact fun _ _ => .refl _
  | cons y batch ih =>
    intro s x
    obtain ⟨u, hu⟩ : ∃ u, u = (if (s.seqs y).status = .running then
      s.setSeq y { s.seqs y with numDraftCachedTokens := coverageOf coverage y } else s) := ⟨_, rfl⟩
    have hstep : s.commitCoverage coverage (y :: batch) = u.commitCoverage coverage batch := by
      rw [hu]
      rfl
    have hone : Silent [] s [] u := by
      rw [hu]
      split
      · exact .update (s.setSeq_seqs y _) ⟨rfl, rfl, rfl, rfl, id⟩ rfl fun _ hz => hz
      · exact .refl _ _
    rw [hstep]
    exact (ih u x).trans (hone.texts x)

theorem State.closeHandoff_silent (t s : State) (batch : List Nat) :
    Silent (t.running ++ t.waiting) t
      ((t.closeHandoff s batch).running ++ (t.closeHandoff s batch).waiting)
      (t.closeHandoff s batch) := by
  have hctl := t.closeHandoff_control s batch
  refine ⟨fun x => ?_, fun x hx => ?_, congrArg Control.nextSeqId hctl⟩
  · have htexts := t.commitCoverage_texts (s.pendingDraftCoverage.getD []) batch x
    unfold State.closeHandoff
    cases s.pendingDraftCoveragePlan with
    | none => cases s.activeSpecTransaction <;> exact .refl _
    | some _ => cases s.activeSpecTransaction <;> exact htexts
  · rwa [show (t.closeHandoff s batch).running = t.running from congrArg Control.running hctl,
      show (t.closeHandoff s batch).waiting = t.waiting from congrArg Control.waiting hctl] at hx

theorem Verifying.silent {rollback : List DecodeScheduleRollbackRow} {tr : ActiveSpecTransaction}
    (h : Verifying cfg u rollback ids base leased tr q) (kept : List (Nat × List Nat)) :
    Silent (u.running ++ u.waiting) u
      ((base.lend kept).running ++ (base.lend kept).waiting) (base.lend kept) := by
  have hseqs : base.seqs = u.seqs := h.holding.pool.seqs
  have hnext : base.nextSeqId = u.nextSeqId :=
    (congrArg Control.nextSeqId h.holding.lease.control).trans
      (congrArg Control.nextSeqId h.holding.control)
  refine ⟨fun x => ?_, fun x hx => ?_, hnext⟩
  · show (({ base.seqs x with blockTable := _ } : Sequence)).SameText _
    rw [hseqs]
    exact ⟨rfl, rfl, rfl, rfl, id⟩
  · change x ∈ base.running ++ base.waiting at hx
    rwa [h.base_queues.1, h.base_queues.2] at hx

theorem Recovered.silent (h : Recovered (s.preemptAll victims) batch u ids w)
    (hrep : Replay cfg s victims rows batch [] u) :
    Silent (u.running ++ u.waiting) u (w.running ++ w.waiting) w := by
  obtain ⟨v, hv⟩ : ∃ v, v = s.preemptAll victims := ⟨_, rfl⟩
  have hpool := h.pool
  have hstart := hrep.pool
  rw [← hv] at hpool hstart
  refine ⟨fun x => ?_, fun x hx => ?_, congrArg Control.nextSeqId h.control⟩
  · have hw : w.seqs x = if x ∈ batch then
        { v.seqs x with numScheduledTokens := 0, isPrefill := false } else v.seqs x :=
      congrFun hpool.seqs x
    have hu : u.seqs x = { (if x ∈ batch then
        { v.seqs x with numScheduledTokens := 1, isPrefill := false } else v.seqs x) with
        blockTable := (v.markDecode batch).table x ++ lentTo rows x } := congrFun hstart.seqs x
    rw [hw, hu]
    split <;> exact ⟨rfl, rfl, rfl, rfl, id⟩
  · rwa [show w.running = u.running from congrArg Control.running h.control,
      show w.waiting = u.waiting from congrArg Control.waiting h.control] at hx

end NanoVllm
