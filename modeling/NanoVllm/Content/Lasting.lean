/- module: NanoVllm/Content/Lasting
   layer: invariant
   source: nanovllm/engine/scheduler.py, the public operations of Scheduler
   digest: What carrying and hashing keep holds of the pool in every run, lease or not. -/

import NanoVllm.Content.Moves

set_option autoImplicit false
set_option relaxedAutoImplicit false

namespace NanoVllm

open Library

variable {cfg : Config} {s t base : State} {rows : List (Nat × List Nat)}
  {r : TemporaryBlockReservation} {x : Nat} {J : State → Prop}

def State.unleased (s : State) : State :=
  match s.activeDraftDiscard with
  | none => s
  | some d => s.restoreLease d.2

theorem State.unleased_idle (h : s.activeDraftDiscard = none) : s.unleased = s := by
  unfold State.unleased
  rw [h]

theorem Leased.unleased {plan : SpecStepPlan} (h : Leased base rows s r)
    (hd : s.activeDraftDiscard = some (plan, r)) : s.unleased = base := by
  unfold State.unleased
  rw [hd]
  exact h.restore

theorem Protocol.unleased_core (h : Protocol cfg s) : Core cfg [] s.unleased := by
  rcases h.lease with ⟨hd, -, hcore⟩ | ⟨base, rows, plan, r, hd, hleased, hcore, -⟩
  · rwa [State.unleased_idle hd]
  · rwa [hleased.unleased hd]

abbrev Owns (cfg : Config) (s : State) : Prop :=
  OwnIf cfg.CollisionFree cfg (s.running ++ s.waiting) s.table (s.coverage cfg) s

theorem Core.owns (h : Core cfg [] s) : Owns cfg s := by
  have hown := h.own
  rwa [List.nil_append] at hown

theorem uncovered_place (hown : Owns cfg s) (hx : x ∈ s.running ++ s.waiting) {i k b y : Nat}
    (hi : s.coverage cfg x ≤ i) (hb : (s.table x)[i]? = some b) (hy : y ∈ s.running ++ s.waiting)
    (hk : (s.table y)[k]? = some b) : y = x ∧ k = i := by
  have href := (hown.high x hx i b hb hi).1
  have hyx : y = x :=
    hown.owner_unique href hy hx (List.mem_of_getElem? hk) (List.mem_of_getElem? hb)
  subst hyx
  exact ⟨rfl, getElem?_inj_of_count (hown.count_le_one href hx) hk hb⟩

abbrev Carries (cfg : Config) (s t : State) : Prop :=
  Carried cfg (s.running ++ s.waiting) s (t.running ++ t.waiting) t

structure Lasting (cfg : Config) (J : State → Prop) : Prop where
  init : J (State.init cfg)
  carried : ∀ s t, Owns cfg s → J s → Carries cfg s t → J t
  advance : ∀ s x, Owns cfg s → s.Quiet → J s → x ∈ s.running ++ s.waiting →
    (s.seqs x).numCachedTokens + (s.seqs x).numScheduledTokens
      ≤ (s.table x).length * cfg.kvcacheBlockSize →
    (s.seqs x).numCachedTokens + (s.seqs x).numScheduledTokens ≤ (s.seqs x).numTokens →
    J (s.advance cfg x)

theorem Carries.sameRows (hblocks : t.blocks = s.blocks) (hindex : t.hashToBlockId = s.hashToBlockId)
    (hrow : ∀ y, (t.seqs y).SameRow (s.seqs y))
    (hrun : ∀ y ∈ t.running, y ∈ s.running) (hwait : t.waiting = s.waiting) : Carries cfg s t := by
  refine Carried.sameRows hblocks hindex hrow fun y hy => ?_
  rw [hwait] at hy
  rcases List.mem_append.mp hy with hy | hy
  · exact List.mem_append_left _ (hrun y hy)
  · exact List.mem_append_right _ hy

theorem Carries.withControl {c : Control} (hrun : c.running = s.running)
    (hwait : c.waiting = s.waiting) : Carries cfg s (s.withControl c) :=
  .sameRows rfl rfl (fun _ => .refl _) (fun _ hy => hrun ▸ hy) hwait

theorem State.retire_content (s : State) (x : Nat) :
    (∀ b, SameContent s (s.retire x) b) ∧ (s.retire x).hashToBlockId = s.hashToBlockId := by
  obtain ⟨u, hu⟩ : ∃ u, u = s.setSeq x { s.seqs x with status := .finished } := ⟨_, rfl⟩
  have hret : s.retire x = (u.release x).withRunning (s.running.erase x) := by
    rw [hu]
    rfl
  have hset : Empties [] s u := by
    rw [hu]
    exact .of_eq rfl rfl
  rw [hret]
  refine ⟨fun b => ?_, ?_⟩
  · have hlast := (u.release_empties x).same b (by simp)
    exact (hset.same b (by simp)).trans (hlast.congr rfl rfl)
  · change (u.release x).hashToBlockId = _
    rw [State.release_index, hu]
    rfl

theorem Carries.retire (hown : Owns cfg s) (x : Nat) : Carries cfg s (s.retire x) := by
  obtain ⟨hsame, hindex⟩ := s.retire_content x
  have hempties : Empties [] s (s.retire x) := .of_content hsame hindex
  refine hempties.released hown (x := x) ?_ ?_ ?_
  · rw [State.table, State.retire_seqs, Function.update_self]
  · intro y hyx
    rw [State.retire_seqs, Function.update_of_ne hyx]
  · intro y hy
    have hctl := s.retire_control x
    rw [show (s.retire x).running = s.running.erase x from congrArg Control.running hctl,
      show (s.retire x).waiting = s.waiting from congrArg Control.waiting hctl] at hy
    rcases List.mem_append.mp hy with hy | hy
    · exact List.mem_append_left _ (List.mem_of_mem_erase hy)
    · exact List.mem_append_right _ hy

theorem Carries.appendTokens (hown : Owns cfg s) {q : Sequence}
    (htok : (s.seqs x).tokenIds <+: q.tokenIds)
    (hcached : q.numCachedTokens = (s.seqs x).numCachedTokens)
    (htab : q.blockTable = s.table x) : Carries cfg s (s.setSeq x q) := by
  have hempties : Empties [] s (s.setSeq x q) := .of_eq rfl rfl
  refine hempties.carried fun y hy => Or.inl ⟨hy, ?_⟩
  by_cases hyx : y = x
  · subst hyx
    refine hempties.kept hown (by simp) hy ?_ ?_ ?_
    · rw [State.setSeq_seqs, Function.update_self]
      exact htok
    · rw [State.setSeq_seqs, Function.update_self]
      exact hcached
    · intro i b _ hi
      rw [State.setSeq_table, Function.update_self, htab] at hi
      exact hi
  · refine hempties.kept hown (by simp) hy ?_ ?_ ?_
    · rw [State.setSeq_seqs, Function.update_of_ne hyx]
    · rw [State.setSeq_seqs, Function.update_of_ne hyx]
    · intro i b _ hi
      rwa [State.setSeq_table, Function.update_of_ne hyx] at hi

end NanoVllm
