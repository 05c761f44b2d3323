/- module: NanoVllm/Checkpoint/Coverage
   layer: refinement
   digest: The three ledgers of the load loop follow the tensors loaded so far. -/

import NanoVllm.Checkpoint.Mapping

set_option autoImplicit false
set_option relaxedAutoImplicit false

open NanoVllm.Library

namespace NanoVllm

variable {Shard Val Digest : Type} {sha256 : List UInt8 → Digest} {model : LoadableModel Shard Val}

namespace LoadableModel

/-- The one existing destination of a checkpoint name: a parameter, or a shard of one. -/
def destination (model : LoadableModel Shard Val) (name : DottedName) :
    Option (DottedName × Option Shard) :=
  match sourceMatches model.packedModulesMapping name with
  | [] => if name ∈ model.parameterNames then some (name, none) else none
  | [(index, _, packedName, shardId)] =>
    if name.set index packedName ∈ model.parameterNames then
      some (name.set index packedName, some shardId)
    else none
  | _ => none

def loader (model : LoadableModel Shard Val) :
    DottedName × Option Shard → Option (WeightLoader Shard Val)
  | (name, none) => some (model.directLoader name)
  | (name, some _) => (model.parameter name).weightLoader

end LoadableModel

structure CellWrite (Val : Type) where
  view : ParameterViewKey
  part : Nat → Bool
  values : Nat → Val

def ParameterMemory.apply (memory : ParameterMemory Val) (w : CellWrite Val) : ParameterMemory Val :=
  memory.store w.view w.part w.values

/-- The write of a checkpoint tensor at its destination, when the loader accepts it. -/
def LoadableModel.writeAt (model : LoadableModel Shard Val) (tensor : CheckpointTensor)
    (dest : DottedName × Option Shard) : Option (CellWrite Val) :=
  (model.loader dest).bind fun weightLoader =>
    match weightLoader.write tensor dest.2 with
    | .ok values => some ⟨(model.parameter dest.1).view, weightLoader.part dest.2, values⟩
    | .error _ => none

def LoadableModel.writeOf (model : LoadableModel Shard Val) (t : DottedName × CheckpointTensor) :
    Option (CellWrite Val) :=
  (model.destination t.1).bind (model.writeAt t.2)

def ParameterMemory.written (model : LoadableModel Shard Val) (memory : ParameterMemory Val)
    (t : DottedName × CheckpointTensor) : ParameterMemory Val :=
  match model.writeOf t with
  | some w => memory.apply w
  | none => memory

theorem writeAt_some {tensor : CheckpointTensor} {dest : DottedName × Option Shard}
    {w : CellWrite Val} (h : model.writeAt tensor dest = some w) :
    ∃ weightLoader, model.loader dest = some weightLoader ∧ ∃ values,
      weightLoader.write tensor dest.2 = .ok values ∧
      ⟨(model.parameter dest.1).view, weightLoader.part dest.2, values⟩ = w := by
  obtain ⟨weightLoader, hloader, h⟩ := Option.bind_eq_some_iff.mp h
  refine ⟨weightLoader, hloader, ?_⟩
  split at h
  · next values hvalues => exact ⟨values, hvalues, Option.some.inj h⟩
  · cases h

structure Alone (model : LoadableModel Shard Val) (t : DottedName × CheckpointTensor)
    (dest : DottedName × Option Shard) (w : CellWrite Val) : Prop where
  destination : model.destination t.1 = some dest
  accepted : model.writeAt t.2 dest = some w
  unpacked : dest.2 = none → ¬ Packed model.packedModulesMapping dest.1

structure Compatible (model : LoadableModel Shard Val) (u t : DottedName × CheckpointTensor) :
    Prop where
  name : u.1 ≠ t.1
  shard : ∀ name shardId, model.destination u.1 = some (name, some shardId) →
    model.destination t.1 ≠ some (name, some shardId)
  tied : ∀ m n, model.destination u.1 = some (m, none) → model.destination t.1 = some (n, none) →
    (model.parameter m).view = (model.parameter n).view → u.2 = t.2

theorem Alone.writeOf {t : DottedName × CheckpointTensor} {dest : DottedName × Option Shard}
    {w : CellWrite Val} (h : Alone model t dest w) : model.writeOf t = some w := by
  rw [LoadableModel.writeOf, h.destination]
  exact h.accepted

theorem Compatible.symm {u t : DottedName × CheckpointTensor} (h : Compatible model u t) :
    Compatible model t u where
  name := h.name.symm
  shard name shardId ht hu := h.shard name shardId hu ht
  tied m n ht hu hview := (h.tied n m hu ht hview.symm).symm

section Destinations

theorem destination_mem {name : DottedName} {dest : DottedName × Option Shard}
    (h : model.destination name = some dest) : dest.1 ∈ model.parameterNames := by
  unfold LoadableModel.destination at h
  split at h
  · split at h
    · next hmem =>
      obtain rfl := Option.some.inj h
      exact hmem
    · cases h
  · split at h
    · next hmem =>
      obtain rfl := Option.some.inj h
      exact hmem
    · cases h
  · cases h

theorem destination_direct {name parameterName : DottedName}
    (h : model.destination name = some (parameterName, none)) :
    sourceMatches model.packedModulesMapping name = [] ∧ parameterName = name := by
  unfold LoadableModel.destination at h
  split at h
  · next hmatches =>
    split at h
    · exact ⟨hmatches, (congrArg Prod.fst (Option.some.inj h)).symm⟩
    · cases h
  · split at h
    · cases h
    · cases h
  · cases h

private theorem mem_sourceMatches {mapping : List (String × String × Shard)} {name : DottedName}
    {found : Nat × String × String × Shard} (h : found ∈ sourceMatches mapping name) :
    found.1 < name.length ∧ found.2 ∈ mapping ∧ name[found.1]? = some found.2.1 := by
  obtain ⟨⟨segment, index⟩, hsegment, h⟩ := List.mem_flatMap.mp h
  obtain ⟨item, hitem, rfl⟩ := List.mem_map.mp h
  obtain ⟨hmem, hsource⟩ := List.mem_filter.mp hitem
  have hget : name[index]? = some segment := List.mem_zipIdx_iff_getElem?.mp hsegment
  refine ⟨(List.getElem?_eq_some_iff.mp hget).1, hmem, ?_⟩
  rw [hget, of_decide_eq_true hsource]

theorem destination_shard {name parameterName : DottedName} {shardId : Shard}
    (h : model.destination name = some (parameterName, some shardId)) :
    Requires model.packedModulesMapping parameterName shardId := by
  unfold LoadableModel.destination at h
  split at h
  · split at h
    · cases h
    · cases h
  · next index source packedName shard hmatches =>
    split at h
    · obtain ⟨rfl, hshard⟩ := Prod.ext_iff.mp (Option.some.inj h)
      obtain ⟨hlt, hitem, -⟩ := mem_sourceMatches
        (hmatches ▸ List.mem_singleton_self _ :
          (index, source, packedName, shard) ∈ sourceMatches model.packedModulesMapping name)
      refine ⟨_, hitem, ?_, Option.some.inj hshard⟩
      exact List.mem_set hlt packedName
    · cases h
  · cases h

end Destinations

section Steps

variable {requirements : List (DottedName × List Shard)} {st st' : LoadState Shard Val Digest}
  {done : List (DottedName × CheckpointTensor)} {t : DottedName × CheckpointTensor}

structure Tracks (sha256 : List UInt8 → Digest) (model : LoadableModel Shard Val)
    (done : List (DottedName × CheckpointTensor)) (st : LoadState Shard Val Digest) : Prop where
  seen : st.seenSourceNames = done.map Prod.fst
  direct : ∀ name, name ∈ st.directLoadedNames ↔
    ∃ u ∈ done, model.destination u.1 = some (name, none)
  shards : ∀ name shardId, shardId ∈ st.loadedPackedShards name ↔
    ∃ u ∈ done, model.destination u.1 = some (name, some shardId)
  printed : ∀ u ∈ done, ∀ name, model.destination u.1 = some (name, none) →
    model.aliased (model.parameter name).view →
    st.directViewFingerprints (model.parameter name).view = some (tensorFingerprint sha256 u.2)
  prints : ∀ view fingerprint, st.directViewFingerprints view = some fingerprint →
    ∃ u ∈ done, ∃ name, model.destination u.1 = some (name, none) ∧
      (model.parameter name).view = view ∧ fingerprint = tensorFingerprint sha256 u.2

theorem Tracks.start (memory : ParameterMemory Val) :
    Tracks sha256 model [] (LoadState.start memory) where
  seen := rfl
  direct := by simp [LoadState.start]
  shards := by simp [LoadState.start]
  printed := by simp
  prints := by simp [LoadState.start]

private theorem wrapFailure_ok {α : Type} {message : String} {x : Except LoaderFailure α} {a : α}
    (h : wrapFailure message x = .ok a) : x = .ok a := by
  cases x with
  | ok b =>
    obtain rfl := Except.ok.inj h
    rfl
  | error failure =>
    cases failure
    · cases h
    · cases h

theorem aliased_of_ne {m n : DottedName} (hm : m ∈ model.parameterNames)
    (hn : n ∈ model.parameterNames) (hne : m ≠ n)
    (hview : (model.parameter m).view = (model.parameter n).view) :
    model.aliased (model.parameter n).view = true := by
  have hnodup : (model.viewNames (model.parameter n).view).Nodup := model.names_nodup.filter _
  have hin : ∀ name ∈ [m, n], name ∈ model.viewNames (model.parameter n).view := by
    intro name hname
    rcases List.mem_pair.mp hname with rfl | rfl
    · exact List.mem_filter.mpr ⟨hm, by simpa using hview⟩
    · exact List.mem_filter.mpr ⟨hn, by simp⟩
  have hsub := (List.subperm_of_subset (List.nodup_cons.mpr
    ⟨by simpa using hne, List.nodup_singleton n⟩) hin).length_le
  have htwo : 2 ≤ (model.viewNames (model.parameter n).view).length := hsub
  unfold LoadableModel.aliased
  exact decide_eq_true (by omega)

theorem tensorFingerprint_injective (hsha : Function.Injective sha256) :
    Function.Injective (tensorFingerprint sha256) := by
  intro a b h
  obtain ⟨hdtype, hrest⟩ := Prod.ext_iff.mp h
  obtain ⟨hshape, hbytes⟩ := Prod.ext_iff.mp hrest
  have heq := hsha hbytes
  cases a
  cases b
  simp only [tensorFingerprint] at hdtype hshape heq
  rw [hdtype, hshape, heq]

variable [DecidableEq Digest]

theorem checkAliases_ok {view : ParameterViewKey} {tensor : CheckpointTensor}
    {fingerprints after : ParameterViewKey → Option (String × List Nat × Digest)}
    (h : checkAliases sha256 model view tensor fingerprints = .ok after) :
    (model.aliased view = true →
      fingerprints view = none ∨ fingerprints view = some (tensorFingerprint sha256 tensor)) ∧
    after = if model.aliased view then
      Function.update fingerprints view (some (tensorFingerprint sha256 tensor))
    else fingerprints := by
  unfold checkAliases at h
  by_cases haliased : model.aliased view = true
  · rw [if_pos haliased] at h ⊢
    dsimp only at h
    split at h
    · cases h
    · next hsame =>
      refine ⟨fun _ => ?_, (Except.ok.inj h).symm⟩
      by_cases hnone : fingerprints view = none
      · exact .inl hnone
      · exact .inr (not_not.mp fun hne => hsame ⟨hnone, hne⟩)
  · rw [if_neg haliased] at h ⊢
    exact ⟨fun htrue => absurd htrue haliased, (Except.ok.inj h).symm⟩

theorem checkAliases_of_same {view : ParameterViewKey} {tensor : CheckpointTensor}
    {fingerprints : ParameterViewKey → Option (String × List Nat × Digest)}
    (h : ∀ fingerprint, fingerprints view = some fingerprint →
      fingerprint = tensorFingerprint sha256 tensor) :
    ∃ after, checkAliases sha256 model view tensor fingerprints = .ok after := by
  unfold checkAliases
  split
  · dsimp only
    split
    · next hdiffer =>
      obtain ⟨fingerprint, hfound⟩ := Option.ne_none_iff_exists'.mp hdiffer.1
      exact absurd (by rw [hfound, h fingerprint hfound]) hdiffer.2
    · exact ⟨_, rfl⟩
  · exact ⟨_, rfl⟩

theorem loadDirect_ok {name : DottedName} {tensor : CheckpointTensor}
    (h : loadDirect sha256 model st name tensor = .ok st') :
    name ∈ model.parameterNames ∧ ∃ after values,
      checkAliases sha256 model (model.parameter name).view tensor st.directViewFingerprints
        = .ok after ∧
      (model.directLoader name).write tensor none = .ok values ∧
      st' = { st with
        directViewFingerprints := after
        memory := st.memory.store (model.parameter name).view
          ((model.directLoader name).part none) values
        directLoadedNames := st.directLoadedNames ++ [name] } := by
  unfold loadDirect at h
  obtain ⟨hmem, h⟩ := Call.except_guard h
  obtain ⟨after, hafter, h⟩ := Call.except_bind_ok h
  obtain ⟨values, hvalues, h⟩ := Call.except_bind_ok h
  exact ⟨not_not.mp hmem, after, values, hafter, wrapFailure_ok hvalues, (Except.ok.inj h).symm⟩

theorem loadDirect_of_ok {name : DottedName} {tensor : CheckpointTensor} {after values}
    (hmem : name ∈ model.parameterNames)
    (hafter : checkAliases sha256 model (model.parameter name).view tensor
      st.directViewFingerprints = .ok after)
    (hvalues : (model.directLoader name).write tensor none = .ok values) :
    ∃ st', loadDirect sha256 model st name tensor = .ok st' := by
  unfold loadDirect
  simp only [if_neg (not_not_intro hmem), hafter, hvalues]
  exact ⟨_, rfl⟩

variable [DecidableEq Shard] [ToString Shard]

omit [DecidableEq Digest] in
theorem loadPacked_of_ok {name : DottedName} {tensor : CheckpointTensor} {index : Nat}
    {packedName : String} {shardId : Shard} {weightLoader values}
    (hmem : name.set index packedName ∈ model.parameterNames)
    (hfresh : shardId ∉ st.loadedPackedShards (name.set index packedName))
    (hloader : (model.parameter (name.set index packedName)).weightLoader = some weightLoader)
    (hvalues : weightLoader.write tensor (some shardId) = .ok values) :
    ∃ st', loadPacked model st name tensor index packedName shardId = .ok st' := by
  unfold loadPacked
  simp only [if_neg (not_not_intro hmem), if_neg hfresh, hloader, hvalues]
  exact ⟨_, rfl⟩

omit [DecidableEq Digest] in
theorem loadPacked_ok {name : DottedName} {tensor : CheckpointTensor} {index : Nat}
    {packedName : String} {shardId : Shard}
    (h : loadPacked model st name tensor index packedName shardId = .ok st') :
    name.set index packedName ∈ model.parameterNames ∧
      shardId ∉ st.loadedPackedShards (name.set index packedName) ∧
      ∃ weightLoader values,
        (model.parameter (name.set index packedName)).weightLoader = some weightLoader ∧
        weightLoader.write tensor (some shardId) = .ok values ∧
        st' = { st with
          loadedPackedShards := Function.update st.loadedPackedShards (name.set index packedName)
            (st.loadedPackedShards (name.set index packedName) ++ [shardId])
          memory := st.memory.store (model.parameter (name.set index packedName)).view
            (weightLoader.part (some shardId)) values } := by
  unfold loadPacked at h
  obtain ⟨hmem, h⟩ := Call.except_guard h
  obtain ⟨hfresh, h⟩ := Call.except_guard h
  cases hloader : (model.parameter (name.set index packedName)).weightLoader with
  | none =>
    rw [hloader] at h
    cases h
  | some weightLoader =>
    rw [hloader] at h
    obtain ⟨values, hvalues, h⟩ := Call.except_bind_ok h
    exact ⟨not_not.mp hmem, hfresh, weightLoader, values, rfl, wrapFailure_ok hvalues,
      (Except.ok.inj h).symm⟩

end Steps

end NanoVllm
