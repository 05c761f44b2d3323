/- module: NanoVllm/Runs/BetweenSteps
   layer: main result
   source: nanovllm/engine/scheduler.py, the queues between two steps; _step_unlocked of
     nanovllm/engine/llm_engine.py
   digest: What holds of every queued request between two steps of a steady run. -/

import NanoVllm.Engine.SpeculativeMemory
import NanoVllm.Speculation.StepEnd

set_option autoImplicit false
set_option relaxedAutoImplicit false

namespace NanoVllm

open Library

variable {cfg : Config} {s t u : State} {batch : List Nat} {x : Nat}

private theorem State.Settled.created (h : s.Settled cfg) (tokenIds : List Nat) (maxTokens : Nat)
    (ignoreEos : Bool) : (s.created tokenIds maxTokens ignoreEos).Settled cfg := by
  have hcalm := h.1.1
  have hother : ∀ x ∈ s.running ++ s.waiting,
      (s.created tokenIds maxTokens ignoreEos).seqs x = s.seqs x := by
    intro x hx
    have hlt := h.1.2.known x (by simpa using hx)
    change Function.update s.seqs s.nextSeqId _ x = _
    rw [Function.update_of_ne hlt.ne]
  refine ⟨⟨⟨⟨hcalm.reservation, hcalm.progress, hcalm.internal, hcalm.fault⟩, hcalm.transaction,
    hcalm.discard, hcalm.pending⟩, h.1.2.created⟩, ?_⟩
  have hst := h.2
  refine ⟨fun x hx => ?_, fun x hx => ?_, hst.room, by simp, fun x hx _ => ?_, List.nodup_nil⟩
  · rw [hother x (List.mem_append_left _ hx)]
    exact hst.running x hx
  · rw [hother x (List.mem_append_right _ hx)]
    exact hst.waiting x hx
  · rw [hother x hx]
    exact hst.idle x hx List.not_mem_nil

private theorem WaitingRow.new {tokenIds : List Nat} (hne : tokenIds ≠ []) (maxTokens : Nat)
    (ignoreEos : Bool) : WaitingRow cfg (Sequence.new tokenIds maxTokens ignoreEos) where
  status := rfl
  prefill := rfl
  draft_le := le_rfl
  pages := by
    change 0 = pagesFor cfg.kvcacheBlockSize (0 + 0)
    rw [eq_comm, pagesFor_eq_zero cfg.blockSize_pos]
  short := List.length_pos_of_ne_nil hne

private theorem State.Settled.enqueue (h : s.Settled cfg) {tokenIds : List Nat} (hne : tokenIds ≠ [])
    (hroom : s.waiting.length + s.running.length + 1 ≤ cfg.maxNumSeqs) (maxTokens : Nat)
    (ignoreEos : Bool) : (s.enqueue tokenIds maxTokens ignoreEos).Settled cfg := by
  have hcreated := h.created tokenIds maxTokens ignoreEos
  obtain ⟨hready, hst⟩ := hcreated
  have hcalm := hready.1
  have hself : (s.enqueue tokenIds maxTokens ignoreEos).seqs s.nextSeqId =
      Sequence.new tokenIds maxTokens ignoreEos := by
    change Function.update s.seqs s.nextSeqId _ s.nextSeqId = _
    rw [Function.update_self]
  refine ⟨⟨⟨⟨hcalm.reservation, hcalm.progress, hcalm.internal, hcalm.fault⟩, hcalm.transaction,
    hcalm.discard, hcalm.pending⟩, h.1.2.enqueue hne⟩, ?_⟩
  refine ⟨hst.running, fun x hx => ?_, ?_, by simp, fun x hx _ => ?_, List.nodup_nil⟩
  · change x ∈ s.waiting ++ [s.nextSeqId] at hx
    rcases List.mem_append.mp hx with hx | hx
    · exact hst.waiting x hx
    · rw [List.mem_singleton.mp hx, hself]
      exact .new hne maxTokens ignoreEos
  · change 0 + s.running.length + (s.waiting ++ [s.nextSeqId]).length ≤ cfg.maxNumSeqs
    rw [List.length_append, List.length_singleton]
    omega
  · change x ∈ s.running ++ (s.waiting ++ [s.nextSeqId]) at hx
    rw [← List.append_assoc] at hx
    rcases List.mem_append.mp hx with hx | hx
    · exact hst.idle x hx List.not_mem_nil
    · rw [List.mem_singleton.mp hx, hself]
      rfl

private theorem State.Settled.leaves_add (h : s.Settled cfg) (tokenIds : List Nat) (maxTokens : Nat)
    (ignoreEos : Bool) :
    (Call.after (add cfg tokenIds maxTokens ignoreEos s)).Settled cfg := by
  rcases add_cases cfg s tokenIds maxTokens ignoreEos with
    ⟨-, e, hres⟩ | ⟨-, -, e, hres⟩ | ⟨hne, hroom, hres⟩ <;> rw [hres]
  · exact h
  · exact h.created tokenIds maxTokens ignoreEos
  · exact h.enqueue hne hroom maxTokens ignoreEos

private theorem Awaiting.forget (h : Awaiting cfg [] s) (hnd : (s.running ++ s.waiting).Nodup)
    (x : Nat) : Awaiting cfg [] (s.forget x) := by
  have hctl := s.forget_control x
  have hrun : (s.forget x).running = s.running.erase x := congrArg Control.running hctl
  have hwait : (s.forget x).waiting = s.waiting.erase x := congrArg Control.waiting hctl
  obtain ⟨hrunnd, hwaitnd, -⟩ := List.nodup_append.mp hnd
  have hother : ∀ y, y ≠ x → (s.forget x).seqs y = s.seqs y := by
    intro y hyx
    rw [State.forget_row, Function.update_of_ne hyx]
  refine ⟨fun y hy hout => ?_, fun y hy hout => ?_, fun y hy hout => ?_, ?_⟩
  · rw [hrun] at hy
    obtain ⟨hyx, hmem⟩ := (List.Nodup.mem_erase_iff hrunnd).mp hy
    rw [hother y hyx]
    exact h.running y hmem hout
  · rw [hwait] at hy
    obtain ⟨hyx, hmem⟩ := (List.Nodup.mem_erase_iff hwaitnd).mp hy
    rw [hother y hyx]
    exact h.waiting y hmem hout
  · rw [hrun, hwait] at hy
    rcases List.mem_append.mp hy with hy | hy
    · obtain ⟨hyx, hmem⟩ := (List.Nodup.mem_erase_iff hrunnd).mp hy
      rw [hother y hyx]
      exact h.idle y (List.mem_append_left _ hmem) hout
    · obtain ⟨hyx, hmem⟩ := (List.Nodup.mem_erase_iff hwaitnd).mp hy
      rw [hother y hyx]
      exact h.idle y (List.mem_append_right _ hmem) hout
  · have hroom := h.room
    have hle := (List.erase_sublist (a := x) (l := s.running)).length_le
    have hle' := (List.erase_sublist (a := x) (l := s.waiting)).length_le
    rw [hrun, hwait]
    omega

private theorem Awaiting.forgetAll (xs : List Nat) (h : Awaiting cfg [] s)
    (hnd : (s.running ++ s.waiting).Nodup) : Awaiting cfg [] (s.forgetAll xs) := by
  induction xs generalizing s with
  | nil => exact h
  | cons x xs ih =>
    have hctl := s.forget_control x
    refine ih (h.forget hnd x) ?_
    rw [show (s.forget x).running = s.running.erase x from congrArg Control.running hctl,
      show (s.forget x).waiting = s.waiting.erase x from congrArg Control.waiting hctl]
    exact hnd.sublist (List.Sublist.append List.erase_sublist List.erase_sublist)

private theorem State.Settled.leaves_cancel (h : s.Settled cfg) (targets : List Nat) :
    (Call.after (cancel cfg targets s)).Settled cfg := by
  have hp := Protocol.of_ready h.1
  have hidle := abortSpeculativeStep_idle cfg h.1.1.transaction
  rcases hp.cancel_steps targets with
    ⟨-, hres⟩ | ⟨-, ⟨e, u, hu, hres⟩ | ⟨aborted, u, hu, hdrop, hres⟩⟩
  · rw [hres]
    exact h
  · rw [hidle] at hu
    exact absurd hu (by simp)
  · rw [hidle] at hu
    obtain ⟨-, rfl⟩ := EStateM.Result.ok.inj hu
    rw [State.dropPendingCoverage_idle h.1.1.pending] at hdrop hres
    rw [hres]
    change (s.drop targets).Settled cfg
    have hctl : (s.drop targets).control = { s.control with
        running := (s.drop targets).running
        waiting := (s.drop targets).waiting
        midChunkSeq := (s.drop targets).midChunkSeq
        history := (s.drop targets).history } := by
      rw [State.drop_eq]
      exact s.forgetAll_control _
    have hdis : (s.drop targets).activeDraftDiscard = none :=
      (congrArg Control.activeDraftDiscard hctl).trans h.1.1.discard
    refine ⟨⟨⟨hdrop.quiet hdis, ?_, hdis, ?_⟩, hdrop.core⟩, ?_⟩
    · exact (congrArg Control.activeSpecTransaction hctl).trans h.1.1.transaction
    · exact (congrArg Control.pendingDraftCoveragePlan hctl).trans h.1.1.pending
    · rw [State.drop_eq]
      exact (h.2.awaiting.forgetAll _ h.1.2.queues_nodup).staged

/-- A step without a speculative part leaves its batch out when it fails, and otherwise
commits it. -/
theorem BatchOut.plain_end {decodes prefills : List Nat} (h : BatchOut cfg decodes prefills u)
    (hplain : prefills ≠ [] ∨ cfg.speculationEnabled = false) (answers : StepAnswers) :
    (∃ e, executeStep cfg answers (decodes ++ prefills) (decide (prefills ≠ [])) u =
      .error e u) ∨
    ∃ tokenIds, answers.run (decodes ++ prefills) (decide (prefills ≠ [])) = .ok tokenIds ∧
      tokenIds.length = (decodes ++ prefills).length ∧
      (∀ tokenId ∈ tokenIds, inVocabulary cfg tokenId = true) ∧
      executeStep cfg answers (decodes ++ prefills) (decide (prefills ≠ [])) u =
        .ok (State.rowsEvents cfg u ((decodes ++ prefills).zip tokenIds))
          ((State.postRows cfg u ((decodes ++ prefills).zip tokenIds)).closeHandoff u
            (decodes ++ prefills)) ∧
      ((State.postRows cfg u ((decodes ++ prefills).zip tokenIds)).closeHandoff u
        (decodes ++ prefills)).Settled cfg := by
  have hcalm := h.ready.1
  have hoff : (decide (prefills ≠ []) || !cfg.speculationEnabled) = true := by
    rcases hplain with hne | hspec
    · simp [hne]
    · simp [hspec]
  obtain ⟨call, hcall⟩ : ∃ call : Call (List StreamOutput), call = (do
      let tokenIds ← liftExcept (answers.run (decodes ++ prefills) (decide (prefills ≠ [])))
      postprocess cfg (decodes ++ prefills) tokenIds) := ⟨_, rfl⟩
  have hstart : executeStep cfg answers (decodes ++ prefills) (decide (prefills ≠ [])) u =
      tryCatch call (fun e => do
        recoverStep cfg none none
        throw e) u := by
    unfold executeStep
    rw [Call.bind_of_ok (Call.get_apply u), if_pos hoff]
    have hnone : executeSpeculation cfg answers (decodes ++ prefills) (decide (prefills ≠ [])) none
        u = .ok (none, none) u := by
      unfold executeSpeculation
      rw [if_pos hoff]
      rfl
    rw [Call.bind_of_ok (Call.tryCatch_of_ok hnone), hcall]
  have hrecover : recoverStep cfg none none u = .ok ⟨⟩ u := by
    unfold recoverStep
    rw [Call.bind_of_ok (Call.get_apply u), hcalm.transaction]
    rfl
  rw [hstart]
  cases hrun : answers.run (decodes ++ prefills) (decide (prefills ≠ [])) with
  | error e =>
    rw [hrun] at hcall
    left
    refine ⟨e, recover_throw ?_ hrecover⟩
    rw [hcall]
    exact Call.bind_of_error (liftExcept_error e u)
  | ok tokenIds =>
    rw [hrun] at hcall
    have hbegin : call u = postprocess cfg (decodes ++ prefills) tokenIds u := by
      rw [hcall]
      exact Call.bind_of_ok (liftExcept_ok tokenIds u)
    rcases h.staged.postprocess_cases (.of_ready h.ready) hcalm.discard
        (fun hne => absurd hcalm.pending hne) tokenIds with ⟨e, hres⟩ | ⟨hlen, hvocab, hres, hdone⟩
    · exact Or.inl ⟨e, recover_throw (hbegin.trans hres) hrecover⟩
    · exact Or.inr ⟨tokenIds, rfl, hlen, hvocab, Call.tryCatch_of_ok (hbegin.trans hres), hdone⟩

private theorem Recovered.settled {v w : State} {victims ids : List Nat} {rows : List (Nat × List Nat)}
    (h : Recovered v batch u ids w) (hrep : Replay cfg s victims rows batch [] u)
    (hv : v = s.preemptAll victims) (hout : BatchOut cfg batch [] u) (hp : Protocol cfg w) :
    w.Settled cfg := by
  have hcalm := hout.ready.1
  have hqueue : u.running = v.running := by
    rw [hv]
    exact hrep.queue
  have hctl : u.control = { v.control with running := u.running, history := u.history } := by
    rw [hv]
    exact hrep.control
  have hdis : w.activeDraftDiscard = none :=
    (congrArg Control.activeDraftDiscard h.control).trans hcalm.discard
  have hwcalm : w.Calm := ⟨hp.quiet hdis,
    (congrArg Control.activeSpecTransaction h.control).trans hcalm.transaction, hdis,
    (congrArg Control.pendingDraftCoveragePlan h.control).trans hcalm.pending⟩
  have hset : v.Settled cfg := by
    rw [hv]
    exact hrep.settled
  rw [h.pool.eq_withControl]
  refine hset.decoded (fun x hx => ?_) hwcalm ?_ ?_ ?_ ?_ ids
  · rw [← hqueue, hout.pure_decode]
    exact hx
  · exact (congrArg Control.running h.control).trans hqueue
  · exact (congrArg Control.waiting h.control).trans (congrArg Control.waiting hctl)
  · exact (congrArg Control.midChunkSeq h.control).trans (congrArg Control.midChunkSeq hctl)
  · exact (congrArg Control.nextSeqId h.control).trans (congrArg Control.nextSeqId hctl)

private theorem StepEnd.settled {v : State} {answers : StepAnswers} {victims : List Nat}
    {rows : List (Nat × List Nat)} {call : Option TargetCall}
    {result : EStateM.Result Raised State (List StreamOutput)}
    (h : StepEnd cfg v rows batch u answers call result) (hrep : Replay cfg s victims rows batch [] u)
    (hv : v = s.preemptAll victims) (hout : BatchOut cfg batch [] u)
    (hp : Protocol cfg (Call.after result)) : (Call.after result).Settled cfg := by
  cases h with
  | undone h _ _ => exact h.settled hrep hv hout hp
  | ordinary _ _ _ _ _ hdone => exact hdone
  | shadowed _ _ _ _ _ _ _ hdone => exact hdone
  | committed _ _ _ _ hdone _ => exact hdone
  | unobserved _ _ _ _ hdone _ => exact hdone

inductive TurnEnd (cfg : Config) (s : State) (answers : StepAnswers) : Prop
  | unscheduled {message : String} {u : State}
      (hsched : schedule cfg s = .error (.runtimeError message) u) (hu : u.Settled cfg)
  | plain {decodes prefills : List Nat} {u : State} (hout : BatchOut cfg decodes prefills u)
      (hne : decodes ++ prefills ≠ [])
      (hsched : schedule cfg s = .ok (decodes ++ prefills, decide (prefills ≠ [])) u)
      (hplain : prefills ≠ [] ∨ cfg.speculationEnabled = false)
  | decode {batch victims : List Nat} {rows : List (Nat × List Nat)} {u : State}
      (hout : BatchOut cfg batch [] u) (hne : batch ≠ [])
      (hsched : schedule cfg s = .ok (batch, false) u)
      (hrep : Replay cfg s victims rows batch [] u) (hspec : cfg.speculationEnabled = true)
      (hend : StepEnd cfg (s.preemptAll victims) rows batch u answers
        (executeTarget cfg answers batch false u) (executeStep cfg answers batch false u))

theorem State.Settled.turn_end (h : s.Settled cfg) (answers : StepAnswers) :
    TurnEnd cfg s answers := by
  rcases h.schedule_cases with ⟨message, u, hsched, hu⟩ | ⟨decodes, prefills, u, hne, hout, hsched⟩
  · exact .unscheduled hsched hu
  by_cases hplain : prefills ≠ [] ∨ cfg.speculationEnabled = false
  · exact .plain hout hne hsched hplain
  rw [not_or, not_not, Bool.not_eq_false] at hplain
  obtain ⟨rfl, hspec⟩ := hplain
  rw [List.append_nil] at hsched hne
  have hsched' : schedule cfg s = .ok (decodes, false) u := hsched
  obtain ⟨-, hout', victims, rows, hrep⟩ := h.schedule_decode hsched'
  have hst := hout'.staged
  rw [List.append_nil] at hst
  have hgrown := hrep.grown hout'
  have hcalm := hout'.ready.1
  exact .decode hout' hne hsched' hrep hspec (hgrown.step_end hcalm.unheld hst hout'.pure_decode
    hcalm (.of_ready hout'.ready) hne hspec answers)

/-- A turn between two steps: an admission, a cancellation, or a step that commits, cannot be
scheduled, or fails on a decode batch with speculation enabled. -/
def Turn.Steady (cfg : Config) (s : State) : Turn → Prop
  | .call (.add _ _ _) => True
  | .call (.cancel _) => True
  | .call _ => False
  | .arrive _ => True
  | .step answers => match schedule cfg s with
    | .error _ _ => True
    | .ok (batch, isPrefill) u => match executeStep cfg answers batch isPrefill u with
      | .error _ _ => isPrefill = false ∧ cfg.speculationEnabled = true
      | .ok _ _ => True

instance Turn.decidableSteady (cfg : Config) (s : State) :
    (turn : Turn) → Decidable (turn.Steady cfg s)
  | .call (.add _ _ _) | .call (.cancel _) | .arrive _ => .isTrue trivial
  | .call .schedule | .call (.postprocess _ _) | .call (.plan _ _ _ _) | .call (.prepare _)
  | .call (.commit _ _) | .call .abort | .call (.handoff _) | .call (.stage _ _ _) => .isFalse id
  | .step answers => match hsched : schedule cfg s with
    | .error _ _ => .isTrue (by simp [Turn.Steady, hsched])
    | .ok (batch, isPrefill) u => match hstep : executeStep cfg answers batch isPrefill u with
      | .error _ _ => decidable_of_iff (isPrefill = false ∧ cfg.speculationEnabled = true)
        (by simp [Turn.Steady, hsched, hstep])
      | .ok _ _ => .isTrue (by simp [Turn.Steady, hsched, hstep])

/-- Every turn from `s` on is steady. -/
def SteadyFrom (cfg : Config) : State → List Turn → Prop
  | _, [] => True
  | s, turn :: turns => turn.Steady cfg s ∧ SteadyFrom cfg (turn.apply cfg s) turns

instance SteadyFrom.decidable (cfg : Config) : (s : State) → (turns : List Turn) →
    Decidable (SteadyFrom cfg s turns)
  | _, [] => .isTrue trivial
  | s, turn :: turns => @instDecidableAnd _ _ (turn.decidableSteady cfg s)
    (SteadyFrom.decidable cfg (turn.apply cfg s) turns)

theorem steadyFrom_append (before : List Turn) {after : List Turn} :
    SteadyFrom cfg s (before ++ after) ↔ SteadyFrom cfg s before ∧
      SteadyFrom cfg (before.foldl (fun s turn => turn.apply cfg s) s) after := by
  induction before generalizing s with
  | nil => exact ⟨fun h => ⟨trivial, h⟩, And.right⟩
  | cons turn before ih => exact (and_congr_right' ih).trans and_assoc.symm

theorem State.Settled.turn (h : s.Settled cfg) {turn : Turn} (hsteady : turn.Steady cfg s) :
    (turn.apply cfg s).Settled cfg := by
  have hp := Protocol.of_ready h.1
  cases turn with
  | call op =>
    cases op with
    | add tokenIds maxTokens ignoreEos => exact h.leaves_add tokenIds maxTokens ignoreEos
    | cancel targets => exact h.leaves_cancel targets
    | schedule => exact hsteady.elim
    | postprocess batch tokenIds => exact hsteady.elim
    | plan workspace batch admission baseline => exact hsteady.elim
    | prepare plan => exact hsteady.elim
    | commit plan result => exact hsteady.elim
    | abort => exact hsteady.elim
    | handoff plan => exact hsteady.elim
    | stage plan batch coverage => exact hsteady.elim
  | arrive request =>
    change (Call.after (admitRequest cfg request s)).Settled cfg
    rcases admitRequest_cases cfg request s with ⟨e, hres⟩ | ⟨promptIds, -, -, -, hres⟩
    · rw [hres]
      exact h
    · rw [hres]
      exact h.leaves_add promptIds request.maxTokens request.ignoreEos
  | step answers =>
    have hleaves := hp.leaves_step answers
    change (Call.after (stepUnlocked cfg answers s)).Settled cfg
    rw [stepUnlocked_after] at hleaves ⊢
    unfold Turn.Steady at hsteady
    cases h.turn_end answers with
    | unscheduled hsched hu =>
      rw [hsched]
      exact hu
    | @plain decodes prefills u hout hne hsched hplain =>
      rw [hsched] at hsteady ⊢
      dsimp only at hsteady ⊢
      rcases hout.plain_end hplain answers with ⟨e, hres⟩ | ⟨tokenIds, -, -, -, hres, hdone⟩
      · rw [hres] at hsteady
        obtain ⟨hflag, hspec⟩ := hsteady
        rcases hplain with hne' | hoff
        · exact absurd hflag (by simp [hne'])
        · exact absurd hoff (by simp [hspec])
      · rw [hres]
        exact hdone
    | decode hout hne hsched hrep hspec hend =>
      rw [hsched] at hleaves ⊢
      exact hend.settled hrep rfl hout hleaves

private theorem State.Settled.steadyFrom (turns : List Turn) (h : s.Settled cfg)
    (hsteady : SteadyFrom cfg s turns) :
    (turns.foldl (fun s turn => turn.apply cfg s) s).Settled cfg := by
  induction turns generalizing s with
  | nil => exact h
  | cons turn turns ih => exact ih (h.turn hsteady.1) hsteady.2

theorem settled_runTurns {turns : List Turn} (hsteady : SteadyFrom cfg (State.init cfg) turns) :
    (runTurns cfg turns).Settled cfg :=
  (State.Settled.init cfg).steadyFrom turns hsteady

/-- What holds of the queues, the counters and the open transactions between two steps. -/
structure BetweenSteps (cfg : Config) (s : State) : Prop where
  queued_once : (s.running ++ s.waiting).Nodup
  room : s.waiting.length + s.running.length ≤ cfg.maxNumSeqs
  running : ∀ x ∈ s.running, (s.seqs x).status = .running ∧
    (s.seqs x).numCachedTokens + 1 = (s.seqs x).numTokens ∧
    (s.seqs x).blockTable.length = pagesFor cfg.kvcacheBlockSize (s.seqs x).numCachedTokens
  waiting : ∀ x ∈ s.waiting, (s.seqs x).status = .waiting ∧ (s.seqs x).isPrefill = true
  bare : ∀ x ∈ s.waiting.tail, (s.seqs x).blockTable = [] ∧ (s.seqs x).numCachedTokens = 0
  mid_chunk : ∀ x, s.midChunkSeq = some x ↔
    s.waiting.head? = some x ∧ (s.seqs x).blockTable ≠ []
  chunked : ∀ x ∈ s.waiting, (s.seqs x).numCachedTokens < (s.seqs x).numTokens ∧
    (s.seqs x).blockTable.length = pagesFor cfg.kvcacheBlockSize (s.seqs x).numCachedTokens
  draft_le : ∀ x ∈ s.running ++ s.waiting,
    (s.seqs x).numDraftCachedTokens ≤ (s.seqs x).numCachedTokens
  unscheduled : ∀ x ∈ s.running ++ s.waiting, (s.seqs x).numScheduledTokens = 0
  closed : s.activeSpecTransaction = none ∧ s.activeReservation = none ∧
    s.activeDraftDiscard = none ∧ s.pendingDraftCoveragePlan = none

theorem State.Settled.betweenSteps (h : s.Settled cfg) : BetweenSteps cfg s := by
  obtain ⟨⟨hcalm, hcore⟩, hst⟩ := h
  have hidle : ∀ x ∈ s.running ++ s.waiting, (s.seqs x).numScheduledTokens = 0 :=
    fun x hx => hst.idle x hx List.not_mem_nil
  have hwaitnd := (List.nodup_append.mp hcore.queues_nodup).2.1
  refine ⟨hcore.queues_nodup, ?_, fun x hx => ?_, fun x hx => ?_, fun x hx => ?_, fun x => ?_,
    fun x hx => ?_, fun x hx => ?_, hidle,
    ⟨hcalm.transaction, hcalm.reservation, hcalm.discard, hcalm.pending⟩⟩
  · have hroom := hst.room
    rw [List.length_nil] at hroom
    omega
  · have hrow := hst.running x hx
    have hzero := hidle x (List.mem_append_left _ hx)
    have hpages := hrow.pages
    rw [hzero, Nat.add_zero] at hpages
    exact ⟨hrow.status, hrow.rest hzero, hpages⟩
  · have hrow := hst.waiting x hx
    exact ⟨hrow.status, hrow.prefill⟩
  · -- Only the head of the queue may own blocks.
    have hwait := List.mem_of_mem_tail hx
    have htab : (s.seqs x).blockTable = [] := by
      by_contra hne
      obtain ⟨hhead, -⟩ := hcore.mid_head x (hcore.mid_owner x hwait hne)
      cases hw : s.waiting with
      | nil =>
        rw [hw] at hwait
        exact absurd hwait List.not_mem_nil
      | cons y rest =>
        rw [hw] at hhead hx hwaitnd
        obtain rfl : y = x := Option.some.inj hhead
        exact (List.nodup_cons.mp hwaitnd).1 hx
    exact ⟨htab, ((hst.waiting x hwait).bare htab).1⟩
  · constructor
    · exact hcore.mid_head x
    · rintro ⟨hhead, hne⟩
      exact hcore.mid_owner x (List.mem_of_mem_head? hhead) hne
  · have hrow := hst.waiting x hx
    have hzero := hidle x (List.mem_append_right _ hx)
    have hpages := hrow.pages
    have hshort := hrow.short
    rw [hzero, Nat.add_zero] at hpages hshort
    exact ⟨hshort, hpages⟩
  · rcases List.mem_append.mp hx with hx | hx
    · exact (hst.running x hx).draft_le
    · exact (hst.waiting x hx).draft_le

/-- Between two calls of a run, such a state is all that the next step relies on. -/
theorem BetweenSteps.settled (h : BetweenSteps cfg s) (hp : Protocol cfg s) : s.Settled cfg := by
  obtain ⟨htransaction, hreservation, hdiscard, hpending⟩ := h.closed
  have hidle : ∀ x ∈ s.running ++ s.waiting, (s.seqs x).numScheduledTokens = 0 := h.unscheduled
  refine ⟨⟨⟨⟨hreservation, hp.progress, hp.internal, hp.fault⟩, htransaction, hdiscard, hpending⟩,
    hp.core⟩, ?_⟩
  refine ⟨fun x hx => ?_, fun x hx => ?_, ?_, by simp, fun x hx _ => hidle x hx, List.nodup_nil⟩
  · have hlive : x ∈ s.running ++ s.waiting := List.mem_append_left _ hx
    obtain ⟨hstatus, hcached, hpages⟩ := h.running x hx
    have hzero := hidle x hlive
    refine ⟨hstatus, h.draft_le x hlive, ?_, by omega, fun _ => hcached, by omega⟩
    rw [hzero, Nat.add_zero]
    exact hpages
  · have hlive : x ∈ s.running ++ s.waiting := List.mem_append_right _ hx
    obtain ⟨hstatus, hprefill⟩ := h.waiting x hx
    obtain ⟨hshort, hpages⟩ := h.chunked x hx
    have hzero := hidle x hlive
    refine ⟨hstatus, hprefill, h.draft_le x hlive, ?_, by omega⟩
    rw [hzero, Nat.add_zero]
    exact hpages
  · have hroom := h.room
    rw [List.length_nil]
    omega

/-- In every steady run the queues are in order between two steps, and a decode batch is the
whole running queue. -/
theorem steady_between_steps {turns : List Turn}
    (hsteady : SteadyFrom cfg (State.init cfg) turns) :
    BetweenSteps cfg (runTurns cfg turns) ∧
      ∀ batch u, schedule cfg (runTurns cfg turns) = .ok (batch, false) u → batch = u.running := by
  have h := settled_runTurns hsteady
  refine ⟨h.betweenSteps, fun batch u hcall => ?_⟩
  obtain ⟨-, hout, -⟩ := h.schedule_decode hcall
  exact hout.pure_decode.symm

/-- Answers of a runner whose speculative routes are down and whose target call gives `tokens`. -/
def StepAnswers.plain (tokens : Except Raised (List Nat)) : StepAnswers where
  workspace := SpeculativeMemoryPlan.sample.workspace .sample "fast"
  verifierReady := true
  resolveRoutes := .error (.external "routes")
  verifierRouteReady := fun _ => true
  choose := none
  snapshotRng := .ok ⟨⟩
  runSpeculative := fun _ => .error (.external "unused")
  observe := .ok ⟨⟩
  runDiscard := fun _ => .error (.external "unused")
  run := fun _ _ => tokens

/-- A prefill, a decode step whose routes fail, and a cancellation that finds nothing. -/
def steadyTurns : List Turn :=
  [.call (.add [3, 4] 4 true), .step (.plain (.ok [5])), .step (.plain (.ok [6])),
    .call (.cancel [7])]

private theorem steadyTurns_steady : SteadyFrom Config.sample (State.init Config.sample) steadyTurns :=
  ⟨trivial, trivial, ⟨rfl, rfl⟩, trivial, trivial⟩

theorem steady_between_steps_sample :
    BetweenSteps Config.sample (runTurns Config.sample steadyTurns) :=
  (steady_between_steps steadyTurns_steady).1

def lostStep : StepAnswers := .sample (.error (.external "model"))

/-- A request in decode, and one more that has been added. -/
def growingTurns : List Turn :=
  [.call (.add [3, 4] 6 true), .step (.sample (.ok [5])), .call (.add [6, 7] 6 true)]

end NanoVllm
