/- module: NanoVllm/Runs/Flags
   layer: invariant
   source: nanovllm/engine/scheduler.py, the is_prefill flag of a request
   digest: In every run each waiting request is marked for prefill, and what schedule then returns. -/

import NanoVllm.Ownership.AllocatorOps
import NanoVllm.Runs.Invariants
import NanoVllm.Scheduling.Batches

set_option autoImplicit false
set_option relaxedAutoImplicit false

namespace NanoVllm

open Library

variable {cfg : Config} {s t u : State} {α : Type}

private theorem flags_ledgered (flags : Nat → Bool) : Ledgered fun t => t.prefill = flags where
  frame hs hl := (congrArg Ledger.prefill hl).trans hs
  tick := keeps_tick fun _ _ hs => hs
  release hs := hs
  publish _ hs _ := hs
  replace _ _ hs := hs
  restore hlive hs _ hrow := by
    funext x
    rcases hrow x with hx | hx
    · rw [hx, hs]
    · rw [hx, hlive]

private theorem Flagged.congr (h : Flagged s) (hwait : t.waiting = s.waiting)
    (hflags : t.prefill = s.prefill) : Flagged t := by
  intro x hx
  rw [hflags]
  exact h x (hwait ▸ hx)

private theorem Flagged.leaves {c : Call α} {Q : State → Prop} (h : Flagged s)
    (hkeep : ∀ flags, Call.Keeps (fun t => t.prefill = flags) c) (hleaves : Call.Leaves c s Q)
    (hwait : ∀ t, Q t → t.waiting = s.waiting) : Call.Leaves c s Flagged := by
  have hflags := hkeep s.prefill s rfl
  exact h.congr (hwait _ hleaves) hflags

private theorem Flagged.forgetAll (xs : List Nat) : ∀ {s : State}, Flagged s →
    Flagged (s.forgetAll xs) := by
  induction xs with
  | nil => exact fun h => h
  | cons x xs ih =>
    intro s h
    refine ih (s := s.forget x) fun y hy => ?_
    have hwait : (s.forget x).waiting = s.waiting.erase x :=
      congrArg Control.waiting (s.forget_control x)
    rw [hwait] at hy
    have hold := h y (List.mem_of_mem_erase hy)
    change ((s.forget x).seqs y).isPrefill = true
    rw [s.forget_row x]
    by_cases hyx : y = x
    · rw [hyx, Function.update_self]
      rw [hyx] at hold
      exact hold
    · rw [Function.update_of_ne hyx]
      exact hold

private theorem Flagged.leaves_add (h : Flagged s) (tokenIds : List Nat) (maxTokens : Nat)
    (ignoreEos : Bool) (hknown : ∀ x ∈ s.waiting, x < s.nextSeqId) :
    Call.Leaves (add cfg tokenIds maxTokens ignoreEos) s Flagged := by
  have hcreated : ∀ x ∈ s.waiting, (s.created tokenIds maxTokens ignoreEos).prefill x = true := by
    intro x hx
    have hne : x ≠ s.nextSeqId := (hknown x hx).ne
    change (Function.update s.seqs s.nextSeqId _ x).isPrefill = true
    rw [Function.update_of_ne hne]
    exact h x hx
  unfold Call.Leaves
  rcases add_cases cfg s tokenIds maxTokens ignoreEos with
    ⟨-, e, hres⟩ | ⟨-, -, e, hres⟩ | ⟨-, -, hres⟩ <;> rw [hres]
  · exact h
  · exact hcreated
  · intro x hx
    rcases List.mem_append.mp hx with hx | hx
    · exact hcreated x hx
    · rw [List.mem_singleton.mp hx]
      change (Function.update s.seqs s.nextSeqId _ s.nextSeqId).isPrefill = true
      rw [Function.update_self]
      rfl

theorem Protocol.scheduled (h : Protocol cfg s) (hflag : Flagged s) {batch : List Nat}
    {isPrefill : Bool} (hcall : schedule cfg s = .ok (batch, isPrefill) u) :
    ∃ decodes prefills, batch = decodes ++ prefills ∧ batch ≠ [] ∧
      isPrefill = decide (prefills ≠ []) ∧ Batched cfg decodes prefills u := by
  rcases h.schedule_start with ⟨e, hres⟩ | hready
  · rw [hres] at hcall
    exact absurd hcall (by simp)
  obtain ⟨done, t, batch', u', hs, -, hok, herr⟩ := schedule_trace hready
  by_cases hnil : batch' = []
  · obtain ⟨message, hres⟩ := herr hnil
    rw [hres] at hcall
    exact absurd hcall (by simp)
  have hres := hok hnil
  rw [hcall] at hres
  obtain ⟨hpair, rfl⟩ := EStateM.Result.ok.inj hres
  obtain ⟨rfl, rfl⟩ := Prod.mk.inj hpair
  obtain ⟨prefills, hbatch, hout⟩ := hs.batched hready hflag
  refine ⟨done, prefills, hbatch, hnil, ?_, hout⟩
  rw [hbatch, List.length_append]
  cases prefills <;> simp

private theorem Flagged.leaves_schedule (h : Flagged s) (hp : Protocol cfg s) :
    Call.Leaves (schedule cfg) s Flagged := by
  unfold Call.Leaves
  rcases hp.schedule_start with ⟨e, hres⟩ | hready
  · rw [hres]
    exact h
  · obtain ⟨done, t, batch, u, hs, -, hok, herr⟩ := schedule_trace hready
    obtain ⟨prefills, -, hout⟩ := hs.batched hready h
    by_cases hnil : batch = []
    · obtain ⟨message, hres⟩ := herr hnil
      rw [hres]
      exact hout.flagged
    · rw [hok hnil]
      exact hout.flagged

private theorem Flagged.leaves_cancel (h : Flagged s) (hp : Protocol cfg s) (targets : List Nat) :
    Call.Leaves (cancel cfg targets) s Flagged := by
  have habort : Call.Leaves (abortSpeculativeStep cfg) s Flagged :=
    h.leaves (fun flags => (flags_ledgered flags).abortSpeculativeStep) hp.leaves_abort.1
      fun _ ht => ht.2.waiting
  unfold Call.Leaves at habort ⊢
  rcases hp.cancel_steps targets with
    ⟨-, hres⟩ | ⟨-, ⟨e, u, hu, hres⟩ | ⟨aborted, u, hu, -, hres⟩⟩
  · rw [hres]
    exact h
  · rw [hu] at habort
    rw [hres]
    exact habort
  · rw [hu] at habort
    rw [hres, Call.after_ok, State.drop]
    refine ((Flagged.congr habort ?_ ?_).forgetAll _).forgetAll _ <;>
      · unfold State.dropPendingCoverage
        split
        · rfl
        · split <;> rfl

theorem Flagged.companion (cfg : Config) : Companion cfg Flagged where
  init := .init cfg
  add := fun _ hp h tokenIds maxTokens ignoreEos => h.leaves_add tokenIds maxTokens ignoreEos
    fun x hx => hp.core.known x (List.mem_append_right _ hx)
  schedule := fun _ hp h => h.leaves_schedule hp
  postprocess := fun _ hp h batch tokenIds =>
    h.leaves (fun flags => (flags_ledgered flags).postprocess batch tokenIds)
      (hp.leaves_postprocess batch tokenIds) fun _ ht => ht.2.waiting
  plan := fun _ hp h workspace batch admission baseline =>
    h.leaves (fun flags => (flags_ledgered flags).planSpeculativeStep workspace batch admission
      baseline) (hp.leaves_plan workspace batch admission baseline) fun _ ht => ht.2.waiting
  prepare := fun _ hp h plan =>
    h.leaves (fun flags => (flags_ledgered flags).prepareSpeculativeTargetWrites plan)
      (hp.leaves_prepare plan) fun _ ht => ht.2.waiting
  commit := fun _ hp h plan result =>
    h.leaves (fun flags => (flags_ledgered flags).commitSpeculative plan result)
      (hp.leaves_commit plan result) fun _ ht => ht.2.waiting
  abort := fun _ hp h =>
    h.leaves (fun flags => (flags_ledgered flags).abortSpeculativeStep) hp.leaves_abort.1
      fun _ ht => ht.2.waiting
  handoff := fun _ hp h plan =>
    h.leaves (fun flags => (flags_ledgered flags).handoffDraftDiscard plan)
      (hp.leaves_handoff plan) fun _ ht => ht.2.waiting
  stage := fun _ hp h plan batch coverage =>
    h.leaves (fun flags => (flags_ledgered flags).stageDraftCoverage plan batch coverage)
      (hp.leaves_stage plan batch coverage) fun _ ht => ht.2.waiting
  cancel := fun _ hp h targets => h.leaves_cancel hp targets
  discard := fun s hp htr h plan => by
    unfold Call.Leaves
    rw [rollbackDraftDiscard_idle plan (hp.closed htr)]
    exact h
  coverage := fun s _ _ h plan => by
    unfold Call.Leaves
    rcases abortDraftCoverage_cases plan s with ⟨-, hres⟩ | ⟨-, hres⟩ | ⟨e, -, -, hres⟩ <;>
      rw [hres] <;> exact h
  undo := fun s _ _ h rows _ => by
    have hkeep : Call.Keeps (fun t => t.prefill = s.prefill)
        (rollbackFailedDecodeSchedule cfg rows) :=
      (flags_ledgered s.prefill).rollbackFailedDecodeSchedule rows
    have hflags := hkeep s rfl
    unfold Call.Leaves at hflags ⊢
    rcases rollbackFailedDecodeSchedule_cases rows with
      ⟨e, hres⟩ | ⟨changed, validated, hres, -⟩
    · rw [hres]
      exact h
    · rw [hres] at hflags ⊢
      exact h.congr (congrArg Control.waiting (s.undone_control rows validated)) hflags

end NanoVllm
