/- module: NanoVllm/Scheduling/Schedule
   layer: refinement
   source: nanovllm/engine/scheduler.py, Scheduler.schedule
   digest: schedule is a decode walk followed by a fill; its only error is an empty batch. -/

import NanoVllm.Scheduling.FillMoves

set_option autoImplicit false
set_option relaxedAutoImplicit false

namespace NanoVllm

open Library

variable {cfg : Config} {s : State}

/-- `schedule` from `s`: the decode rows `done` leave `t`, the fill extends them to
`batch` and leaves `u`. -/
structure Schedules (cfg : Config) (s : State) (done : List Nat) (t : State) (batch : List Nat)
    (u : State) : Prop where
  walk : DecodeWalk cfg ⟨[], none, s⟩ ⟨done, none, t⟩
  served : t.running = [] ∨ cfg.maxNumSeqs ≤ done.length
  fills : Fills cfg done done.length (t.withRunning (done ++ t.running)) batch u

theorem State.Ready.good (h : s.Ready cfg) : Cursor.Good cfg ⟨[], none, s⟩ := h

theorem Cursor.Good.rejoin {done : List Nat} (h : Cursor.Good cfg ⟨done, none, s⟩) :
    (s.withRunning (done ++ s.running)).Ready cfg := by
  refine ⟨h.1.requeue (done ++ s.running) s.waiting, h.2.shift ?_⟩
  simp [Cursor.rows]

private theorem fillFuel_le (h : s.Ready cfg) : fillFuel s ≤ 2 * s.waiting.length + 1 := by
  unfold fillFuel
  split
  · rename_i hmid
    obtain ⟨w, hw⟩ := Option.isSome_iff_exists.mp hmid
    have hhead := (h.2.mid_head w hw).1
    cases hwait : s.waiting with
    | nil =>
      rw [hwait] at hhead
      exact absurd hhead (by simp)
    | cons a rest =>
      rw [List.length_cons]
      omega
  · omega

/-- From a ready state `schedule` raises nothing but the error for an empty batch,
and leaves a ready state either way. -/
theorem schedule_trace (h : s.Ready cfg) :
    ∃ done t batch u, Schedules cfg s done t batch u ∧ u.Ready cfg ∧
      (batch ≠ [] →
        schedule cfg s = .ok (batch, decide (done.length < batch.length)) u) ∧
      (batch = [] → ∃ message, schedule cfg s = .error (.runtimeError message) u) := by
  obtain ⟨done, t, hdecode, hwalk, hserved⟩ :=
    decodeLoop_walk h.good (le_refl (s.running.length + 1))
  have hgood := DecodeWalk.good hwalk h.good
  have hjoin := Cursor.Good.rejoin hgood
  obtain ⟨batch, u, hprefill, hfills⟩ := prefillLoop_fills done done.length hjoin
    (fillFuel_le hjoin)
  have hready := hfills.ready hjoin
  rw [State.withRunning_waiting] at hprefill
  refine ⟨done, t, batch, u, ⟨hwalk, hserved, hfills⟩, hready, ?_, ?_⟩
  · intro hne
    simp [schedule, h.1.transaction, h.1.discard, h.1.pending, checkMidChunkInvariant_core h.2,
      hdecode, hprefill, checkMidChunkInvariant_core hready.2, hne]
  · intro hnil
    by_cases hempty : u.waiting = [] ∧ u.running = []
    · refine ⟨"cannot schedule: no pending requests", ?_⟩
      simp [schedule, h.1.transaction, h.1.discard, h.1.pending, checkMidChunkInvariant_core h.2,
        hdecode, hprefill, hnil, hempty]
    · refine ⟨"scheduler could not schedule pending work with the available KV-cache blocks", ?_⟩
      simp only [schedule, Call.bind_apply, Call.get_apply, h.1.transaction, h.1.discard,
        h.1.pending, Option.isSome_none, Bool.false_eq_true, ↓reduceIte,
        checkMidChunkInvariant_core h.2, hdecode, Call.modify_apply, State.withRunning_waiting,
        hprefill, hnil, hempty, Call.throw_apply]

end NanoVllm
