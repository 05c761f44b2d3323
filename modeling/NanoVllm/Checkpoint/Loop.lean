/- module: NanoVllm/Checkpoint/Loop
   layer: refinement
   digest: The load loop accepts exactly the pairwise compatible tensors and writes each of them. -/

import NanoVllm.Checkpoint.Coverage

set_option autoImplicit false
set_option relaxedAutoImplicit false

open NanoVllm.Library

namespace NanoVllm

variable {Shard Val Digest : Type} {sha256 : List UInt8 → Digest} {model : LoadableModel Shard Val}
  {requirements : List (DottedName × List Shard)} {st st' : LoadState Shard Val Digest}
  {done : List (DottedName × CheckpointTensor)} {t : DottedName × CheckpointTensor}

section Extend

private theorem exists_mem_concat {p : DottedName × CheckpointTensor → Prop} :
    (∃ u ∈ done ++ [t], p u) ↔ (∃ u ∈ done, p u) ∨ p t := by
  simp only [List.mem_append, List.mem_singleton, or_and_right, exists_or, exists_eq_left]

private theorem Tracks.direct_loaded (h : Tracks sha256 model done st) {after memory}
    (hdest : model.destination t.1 = some (t.1, none))
    (hafter : after = if model.aliased (model.parameter t.1).view then
      Function.update st.directViewFingerprints (model.parameter t.1).view
        (some (tensorFingerprint sha256 t.2))
      else st.directViewFingerprints)
    (hsame : model.aliased (model.parameter t.1).view = true →
      st.directViewFingerprints (model.parameter t.1).view = none ∨
      st.directViewFingerprints (model.parameter t.1).view
        = some (tensorFingerprint sha256 t.2)) :
    Tracks sha256 model (done ++ [t])
      { st with
        seenSourceNames := st.seenSourceNames ++ [t.1]
        directViewFingerprints := after
        memory := memory
        directLoadedNames := st.directLoadedNames ++ [t.1] } where
  seen := by simp [h.seen]
  direct := by
    intro name
    rw [exists_mem_concat, ← h.direct, List.mem_append, List.mem_singleton, hdest]
    simp [eq_comm]
  shards := by
    intro name shardId
    rw [exists_mem_concat, ← h.shards, hdest]
    simp
  printed := by
    intro u hu name hname haliased
    change after (model.parameter name).view = _
    rcases List.mem_append.mp hu with hu | hu
    · have hold := h.printed u hu name hname haliased
      by_cases hview : (model.parameter name).view = (model.parameter t.1).view
      · rw [hview] at hold haliased ⊢
        rcases hsame haliased with hnone | hprint
        · rw [hold] at hnone
          cases hnone
        · rw [hafter, if_pos haliased, Function.update_self, ← hprint, hold]
      · rw [hafter]
        split
        · rw [Function.update_of_ne hview, hold]
        · exact hold
    · obtain rfl := List.mem_singleton.mp hu
      rw [hdest] at hname
      obtain rfl : u.1 = name := congrArg Prod.fst (Option.some.inj hname)
      rw [hafter, if_pos haliased, Function.update_self]
  prints := by
    intro view fingerprint hprint
    change after view = _ at hprint
    have hold : st.directViewFingerprints view = some fingerprint →
        ∃ u ∈ done ++ [t], ∃ name, model.destination u.1 = some (name, none) ∧
          (model.parameter name).view = view ∧ fingerprint = tensorFingerprint sha256 u.2 := by
      intro hfound
      obtain ⟨u, hu, hrest⟩ := h.prints view fingerprint hfound
      exact ⟨u, List.mem_append_left _ hu, hrest⟩
    rw [hafter] at hprint
    split at hprint
    · by_cases hview : view = (model.parameter t.1).view
      · rw [hview, Function.update_self] at hprint
        exact ⟨t, by simp, t.1, hdest, hview.symm, (Option.some.inj hprint).symm⟩
      · rw [Function.update_of_ne hview] at hprint
        exact hold hprint
    · exact hold hprint

private theorem Tracks.packed_loaded (h : Tracks sha256 model done st) {memory} {name : DottedName}
    {shardId : Shard} (hdest : model.destination t.1 = some (name, some shardId)) :
    Tracks sha256 model (done ++ [t])
      { st with
        seenSourceNames := st.seenSourceNames ++ [t.1]
        loadedPackedShards := Function.update st.loadedPackedShards name
          (st.loadedPackedShards name ++ [shardId])
        memory := memory } where
  seen := by simp [h.seen]
  direct := by
    intro other
    rw [exists_mem_concat, ← h.direct, hdest]
    simp
  shards := by
    intro other shard
    rw [exists_mem_concat, ← h.shards, hdest]
    by_cases hother : other = name
    · subst hother
      simp [eq_comm]
    · simp [Function.update_of_ne hother, Ne.symm hother]
  printed := by
    intro u hu other hother haliased
    rcases List.mem_append.mp hu with hu | hu
    · exact h.printed u hu other hother haliased
    · obtain rfl := List.mem_singleton.mp hu
      rw [hdest] at hother
      cases hother
  prints := by
    intro view fingerprint hprint
    obtain ⟨u, hu, hrest⟩ := h.prints view fingerprint hprint
    exact ⟨u, List.mem_append_left _ hu, hrest⟩

end Extend

section Steps

variable [DecidableEq Shard] [ToString Shard] [DecidableEq Digest]

/-- A tensor that was loaded could be loaded after those before it, and was written. -/
private theorem loadTensor_ok (hsha : Function.Injective sha256)
    (hp : Prepared model.packedModulesMapping model.parameterNames requirements)
    (h : Tracks sha256 model done st) (hload : loadTensor sha256 model requirements st t = .ok st') :
    (∃ dest w, Alone model t dest w) ∧ (∀ u ∈ done, Compatible model u t) ∧
      Tracks sha256 model (done ++ [t]) st' ∧ st'.memory = st.memory.written model t := by
  unfold loadTensor at hload
  obtain ⟨hseen, hload⟩ := Call.except_guard hload
  have hname : ∀ u ∈ done, u.1 ≠ t.1 := fun u hu heq =>
    hseen (h.seen ▸ heq ▸ List.mem_map_of_mem hu)
  cases hmatches : sourceMatches model.packedModulesMapping t.1 with
  | nil =>
    simp only [hmatches] at hload
    obtain ⟨hunpacked, hload⟩ := Call.except_guard hload
    obtain ⟨hmem, after, values, hafter, hvalues, rfl⟩ := loadDirect_ok hload
    obtain ⟨hsame, hafter⟩ := checkAliases_ok hafter
    have hdest : model.destination t.1 = some (t.1, none) := by
      rw [LoadableModel.destination, hmatches]
      exact if_pos hmem
    have halone : Alone model t (t.1, none) ⟨(model.parameter t.1).view,
        (model.directLoader t.1).part none, values⟩ :=
      { destination := hdest
        accepted := by
          rw [LoadableModel.writeAt, LoadableModel.loader, Option.bind_some, hvalues]
        unpacked := fun _ hpacked => hunpacked ((hp.packed t.1).mpr ⟨hmem, hpacked⟩) }
    refine ⟨⟨_, _, halone⟩, fun u hu => ⟨hname u hu, fun name shardId _ ht => ?_,
      fun m n hm hn hview => ?_⟩, h.direct_loaded hdest hafter hsame, ?_⟩
    · rw [hdest] at ht
      cases ht
    · obtain rfl : t.1 = n := congrArg Prod.fst (Option.some.inj (hdest ▸ hn))
      have hm' : m = u.1 := (destination_direct hm).2
      have haliased := aliased_of_ne (destination_mem hm) hmem (hm' ▸ hname u hu) hview
      have hprint := h.printed u hu m hm (hview ▸ haliased)
      rw [hview] at hprint
      rcases hsame haliased with hnone | hfound
      · rw [hprint] at hnone
        cases hnone
      · rw [hprint] at hfound
        exact tensorFingerprint_injective hsha (Option.some.inj hfound)
    · rw [ParameterMemory.written, halone.writeOf]
      rfl
  | cons found more =>
    cases more with
    | nil =>
      obtain ⟨index, source, packedName, shardId⟩ := found
      simp only [hmatches] at hload
      obtain ⟨hmem, hfresh, weightLoader, values, hloader, hvalues, rfl⟩ := loadPacked_ok hload
      have hdest : model.destination t.1 = some (t.1.set index packedName, some shardId) := by
        rw [LoadableModel.destination, hmatches]
        exact if_pos hmem
      have halone : Alone model t (t.1.set index packedName, some shardId)
          ⟨(model.parameter (t.1.set index packedName)).view, weightLoader.part (some shardId),
            values⟩ :=
        { destination := hdest
          accepted := by
            rw [LoadableModel.writeAt, LoadableModel.loader, hloader, Option.bind_some, hvalues]
          unpacked := fun hnone => by cases hnone }
      refine ⟨⟨_, _, halone⟩, fun u hu => ⟨hname u hu, fun name shard hu' ht => ?_,
        fun m n hm hn hview => ?_⟩, h.packed_loaded hdest, ?_⟩
      · rw [hdest] at ht
        obtain ⟨rfl, hshard⟩ := Prod.ext_iff.mp (Option.some.inj ht)
        obtain rfl : shardId = shard := Option.some.inj hshard
        exact hfresh ((h.shards _ _).mpr ⟨u, hu, hu'⟩)
      · rw [hdest] at hn
        cases hn
      · rw [ParameterMemory.written, halone.writeOf]
        rfl
    | cons second more =>
      simp only [hmatches] at hload
      cases hload

private theorem loadTensor_of_compatible
    (hp : Prepared model.packedModulesMapping model.parameterNames requirements)
    (h : Tracks sha256 model done st) {dest : DottedName × Option Shard} {w : CellWrite Val}
    (halone : Alone model t dest w) (hcompatible : ∀ u ∈ done, Compatible model u t) :
    ∃ st', loadTensor sha256 model requirements st t = .ok st' := by
  have hseen : t.1 ∉ st.seenSourceNames := by
    rw [h.seen]
    intro hmem
    obtain ⟨u, hu, heq⟩ := List.mem_map.mp hmem
    exact (hcompatible u hu).name heq
  have hdest := halone.destination
  have haccepted := halone.accepted
  unfold loadTensor
  cases hmatches : sourceMatches model.packedModulesMapping t.1 with
  | nil =>
    rw [LoadableModel.destination, hmatches] at hdest
    obtain ⟨hmem, hsome⟩ := Option.ite_none_right_eq_some.mp hdest
    obtain rfl := Option.some.inj hsome
    have hunpacked : t.1 ∉ requirements.map Prod.fst := fun hin =>
      halone.unpacked rfl ((hp.packed t.1).mp hin).2
    rw [LoadableModel.writeAt, LoadableModel.loader, Option.bind_some] at haccepted
    have hprints : ∀ fingerprint,
        st.directViewFingerprints (model.parameter t.1).view = some fingerprint →
        fingerprint = tensorFingerprint sha256 t.2 := by
      intro fingerprint hfound
      obtain ⟨u, hu, m, hm, hview, rfl⟩ := h.prints _ _ hfound
      rw [(hcompatible u hu).tied m t.1 hm halone.destination hview]
    obtain ⟨after, hafter⟩ := checkAliases_of_same hprints
    cases hwrite : (model.directLoader t.1).write t.2 none with
    | error failure => simp [hwrite] at haccepted
    | ok values =>
      obtain ⟨st', hst'⟩ := @loadDirect_of_ok _ _ _ _ _
        { st with seenSourceNames := st.seenSourceNames ++ [t.1] } _ _ _ _ _ hmem hafter hwrite
      exact ⟨st', Call.except_guard_of_not hseen (Call.except_guard_of_not hunpacked hst')⟩
  | cons found more =>
    cases more with
    | nil =>
      obtain ⟨index, source, packedName, shardId⟩ := found
      rw [LoadableModel.destination, hmatches] at hdest
      obtain ⟨hmem, hsome⟩ := Option.ite_none_right_eq_some.mp hdest
      obtain rfl := Option.some.inj hsome
      have hfresh : shardId ∉ st.loadedPackedShards (t.1.set index packedName) := by
        intro hin
        obtain ⟨u, hu, hu'⟩ := (h.shards _ _).mp hin
        exact (hcompatible u hu).shard _ _ hu' halone.destination
      rw [LoadableModel.writeAt, LoadableModel.loader] at haccepted
      cases hloader : (model.parameter (t.1.set index packedName)).weightLoader with
      | none => simp [hloader] at haccepted
      | some weightLoader =>
        rw [hloader, Option.bind_some] at haccepted
        cases hwrite : weightLoader.write t.2 (some shardId) with
        | error failure => simp [hwrite] at haccepted
        | ok values =>
          obtain ⟨st', hst'⟩ := @loadPacked_of_ok _ _ Digest _
            { st with seenSourceNames := st.seenSourceNames ++ [t.1] } _ _ _ _ _ _ _ _ _ hmem
            hfresh hloader hwrite
          exact ⟨st', Call.except_guard_of_not hseen hst'⟩
    | cons second more =>
      rw [LoadableModel.destination, hmatches] at hdest
      cases hdest

theorem loadTensors_ok (hsha : Function.Injective sha256)
    (hp : Prepared model.packedModulesMapping model.parameterNames requirements)
    {ts : List (DottedName × CheckpointTensor)} (h : Tracks sha256 model done st)
    (hload : ts.foldlM (loadTensor sha256 model requirements) st = .ok st') :
    (∀ t ∈ ts, ∃ dest w, Alone model t dest w) ∧ (∀ u ∈ done, ∀ t ∈ ts, Compatible model u t) ∧
      ts.Pairwise (Compatible model) ∧ Tracks sha256 model (done ++ ts) st' ∧
      st'.memory = ts.foldl (ParameterMemory.written model) st.memory := by
  induction ts generalizing done st with
  | nil =>
    obtain rfl := Except.ok.inj hload
    exact ⟨by simp, by simp, .nil, by simpa using h, rfl⟩
  | cons t ts ih =>
    rw [List.foldlM_cons] at hload
    obtain ⟨mid, hmid, hrest⟩ := Call.except_bind_ok hload
    obtain ⟨halone, hcompatible, hmidTracks, hmemory⟩ := loadTensor_ok hsha hp h hmid
    obtain ⟨hall, hcross, hpairs, htracks, hwritten⟩ := ih hmidTracks hrest
    refine ⟨?_, fun u hu other hother => ?_, List.pairwise_cons.mpr ⟨?_, hpairs⟩, ?_, ?_⟩
    · intro other hother
      rcases List.mem_cons.mp hother with rfl | hother
      · exact halone
      · exact hall other hother
    · rcases List.mem_cons.mp hother with rfl | hother
      · exact hcompatible u hu
      · exact hcross u (List.mem_append_left _ hu) other hother
    · exact fun other hother => hcross t (by simp) other hother
    · rwa [List.append_assoc] at htracks
    · rw [hwritten, hmemory, List.foldl_cons]

theorem loadTensors_of_compatible (hsha : Function.Injective sha256)
    (hp : Prepared model.packedModulesMapping model.parameterNames requirements)
    {ts : List (DottedName × CheckpointTensor)} (h : Tracks sha256 model done st)
    (halone : ∀ t ∈ ts, ∃ dest w, Alone model t dest w)
    (hcross : ∀ u ∈ done, ∀ t ∈ ts, Compatible model u t)
    (hpairs : ts.Pairwise (Compatible model)) :
    ∃ st', ts.foldlM (loadTensor sha256 model requirements) st = .ok st' := by
  induction ts generalizing done st with
  | nil => exact ⟨st, rfl⟩
  | cons t ts ih =>
    obtain ⟨dest, w, ht⟩ := halone t List.mem_cons_self
    obtain ⟨hhead, hpairs⟩ := List.pairwise_cons.mp hpairs
    obtain ⟨mid, hmid⟩ := loadTensor_of_compatible hp h ht fun u hu =>
      hcross u hu t List.mem_cons_self
    have hmidTracks := (loadTensor_ok hsha hp h hmid).2.2.1
    obtain ⟨st', hst'⟩ := ih hmidTracks
      (fun other hother => halone other (List.mem_cons_of_mem t hother))
      (fun u hu other hother => by
        rcases List.mem_append.mp hu with hu | hu
        · exact hcross u hu other (List.mem_cons_of_mem t hother)
        · rw [List.mem_singleton.mp hu]
          exact hhead other hother)
      hpairs
    refine ⟨st', ?_⟩
    rw [List.foldlM_cons, Call.except_bind_of_ok hmid]
    exact hst'

end Steps

section Check

variable [DecidableEq Shard] {ts : List (DottedName × CheckpointTensor)}

theorem missingPacked_eq_nil
    (hp : Prepared model.packedModulesMapping model.parameterNames requirements)
    (h : Tracks sha256 model ts st) :
    missingPacked requirements st = [] ↔ ∀ name ∈ model.parameterNames, ∀ shardId,
      Requires model.packedModulesMapping name shardId →
      ∃ u ∈ ts, model.destination u.1 = some (name, some shardId) := by
  have hflat : missingPacked requirements st = [] ↔ ∀ entry ∈ requirements, ∀ shardId ∈ entry.2,
      shardId ∈ st.loadedPackedShards entry.1 := by
    simp [missingPacked, List.flatMap_eq_nil_iff, List.filter_eq_nil_iff]
  rw [hflat]
  constructor
  · intro hall name hname shardId hrequires
    obtain ⟨entry, hentry, rfl⟩ := List.mem_map.mp ((hp.packed name).mpr ⟨hname, hrequires.packed⟩)
    exact (h.shards _ _).mp (hall entry hentry shardId ((hp.shards entry hentry shardId).mpr hrequires))
  · intro hall entry hentry shardId hshard
    have hname := ((hp.packed entry.1).mp (List.mem_map_of_mem hentry)).1
    exact (h.shards _ _).mpr (hall entry.1 hname shardId ((hp.shards entry hentry shardId).mp hshard))

/-- With every shard there, the missing views are those that no packed or loaded name covers. -/
theorem missingViews_eq_nil
    (hp : Prepared model.packedModulesMapping model.parameterNames requirements)
    (h : Tracks sha256 model ts st) (hpacked : missingPacked requirements st = []) :
    missingViews model requirements st = [] ↔ ∀ name ∈ model.parameterNames,
      ∃ other ∈ model.parameterNames, (model.parameter other).view = (model.parameter name).view ∧
        (Packed model.packedModulesMapping other ∨
          ∃ u ∈ ts, model.destination u.1 = some (other, none)) := by
  have hcovered : ∀ other ∈ model.parameterNames,
      (other ∈ fullyCoveredNames requirements st ↔
        Packed model.packedModulesMapping other ∨
          ∃ u ∈ ts, model.destination u.1 = some (other, none)) := by
    intro other hother
    have hall : requirements.filter (fun requirement =>
        requirement.2.all (· ∈ st.loadedPackedShards requirement.1)) = requirements := by
      refine List.filter_eq_self.mpr fun entry hentry => ?_
      rw [List.all_eq_true]
      intro shardId hshard
      have hname := ((hp.packed entry.1).mp (List.mem_map_of_mem hentry)).1
      exact decide_eq_true ((h.shards _ _).mpr ((missingPacked_eq_nil hp h).mp hpacked entry.1 hname
        shardId ((hp.shards entry hentry shardId).mp hshard)))
    rw [fullyCoveredNames, hall, List.mem_append, h.direct, hp.packed, or_comm]
    simp [hother]
  unfold missingViews
  simp only [List.filter_eq_nil_iff, List.mem_map, mem_dictKeys, forall_exists_index, and_imp,
    forall_apply_eq_imp_iff₂, LoadableModel.viewNames, List.any_eq_true, List.mem_filter,
    decide_eq_true_eq, not_not]
  refine forall₂_congr fun name _ => exists_congr fun other => ?_
  constructor
  · rintro ⟨⟨hother, hview⟩, hcover⟩
    exact ⟨hother, hview, (hcovered other hother).mp hcover⟩
  · rintro ⟨hother, hview, hcover⟩
    exact ⟨⟨hother, hview⟩, (hcovered other hother).mpr hcover⟩

end Check

end NanoVllm
