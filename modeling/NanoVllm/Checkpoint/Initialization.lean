/- module: NanoVllm/Checkpoint/Initialization
   layer: main result
   digest: A load that returns has initialized every parameter, in whatever order it read. -/

import Mathlib.Data.List.Pairwise
import NanoVllm.Checkpoint.Loop

set_option autoImplicit false
set_option relaxedAutoImplicit false

open NanoVllm.Library

namespace NanoVllm

variable {Shard Val Digest : Type} {model : LoadableModel Shard Val}

/-- The tensors of all files that `load_model` reads. -/
def checkpointTensors (entries : List DirectoryEntry) : List (DottedName × CheckpointTensor) :=
  (entries.filter DirectoryEntry.safetensors).flatMap DirectoryEntry.tensors

instance : Std.Symm (Compatible model) := ⟨fun _ _ h => h.symm⟩

/-- What a checkpoint must hold to initialize a model. -/
structure Initializes (model : LoadableModel Shard Val)
    (tensors : List (DottedName × CheckpointTensor)) : Prop where
  names_nodup : (tensors.map Prod.fst).Nodup
  destined : ∀ t ∈ tensors, ∃ dest w, model.destination t.1 = some dest ∧
    model.writeAt t.2 dest = some w
  unpacked : ∀ t ∈ tensors, ∀ name, model.destination t.1 = some (name, none) →
    ¬ Packed model.packedModulesMapping name
  tied : ∀ t ∈ tensors, ∀ u ∈ tensors, ∀ m n, model.destination t.1 = some (m, none) →
    model.destination u.1 = some (n, none) →
    (model.parameter m).view = (model.parameter n).view → t.2 = u.2
  covered : ∀ name ∈ model.parameterNames,
    (∀ other ∈ model.parameterNames,
      (model.parameter other).view = (model.parameter name).view →
      ¬ Packed model.packedModulesMapping other) →
    ∃ u ∈ tensors, ∃ other, model.destination u.1 = some (other, none) ∧
      (model.parameter other).view = (model.parameter name).view
  shards : ∀ name ∈ model.parameterNames, ∀ shardId,
    Requires model.packedModulesMapping name shardId →
    ∃! u, u ∈ tensors ∧ model.destination u.1 = some (name, some shardId)

private theorem Initializes.perm {tensors tensors' : List (DottedName × CheckpointTensor)}
    (h : Initializes model tensors) (hperm : tensors.Perm tensors') :
    Initializes model tensors' where
  names_nodup := (hperm.map Prod.fst).nodup_iff.mp h.names_nodup
  destined t ht := h.destined t (hperm.mem_iff.mpr ht)
  unpacked t ht := h.unpacked t (hperm.mem_iff.mpr ht)
  tied t ht u hu := h.tied t (hperm.mem_iff.mpr ht) u (hperm.mem_iff.mpr hu)
  covered name hname hunpacked := by
    obtain ⟨u, hu, hrest⟩ := h.covered name hname hunpacked
    exact ⟨u, hperm.mem_iff.mp hu, hrest⟩
  shards name hname shardId hrequires := by
    obtain ⟨u, ⟨hu, hdest⟩, hunique⟩ := h.shards name hname shardId hrequires
    exact ⟨u, ⟨hperm.mem_iff.mp hu, hdest⟩, fun other ⟨hother, hdest'⟩ =>
      hunique other ⟨hperm.mem_iff.mpr hother, hdest'⟩⟩

private theorem Initializes.alone {tensors : List (DottedName × CheckpointTensor)}
    (h : Initializes model tensors) {t : DottedName × CheckpointTensor} (ht : t ∈ tensors) :
    ∃ dest w, Alone model t dest w := by
  obtain ⟨⟨name, shard⟩, w, hdest, haccepted⟩ := h.destined t ht
  refine ⟨(name, shard), w, hdest, haccepted, fun hnone => ?_⟩
  obtain rfl : shard = none := hnone
  exact h.unpacked t ht name hdest

private theorem Initializes.compatible {tensors : List (DottedName × CheckpointTensor)}
    (h : Initializes model tensors) : tensors.Pairwise (Compatible model) := by
  have hnames : tensors.Pairwise fun t u => t.1 ≠ u.1 := List.pairwise_map.mp h.names_nodup
  refine hnames.imp_of_mem fun {t u} ht hu hname => ⟨hname, fun name shardId hdest hdest' => ?_,
    h.tied t ht u hu⟩
  obtain ⟨only, -, hunique⟩ := h.shards name (destination_mem hdest) shardId
    (destination_shard hdest)
  have heq := (hunique t ⟨ht, hdest⟩).trans (hunique u ⟨hu, hdest'⟩).symm
  exact hname (congrArg Prod.fst heq)

section Order

/-- A packed parameter shares its view with no other name. -/
def PackedUntied (model : LoadableModel Shard Val) : Prop :=
  ∀ m ∈ model.parameterNames, ∀ n ∈ model.parameterNames,
    Packed model.packedModulesMapping m →
    (model.parameter m).view = (model.parameter n).view → m = n

/-- The loaders of tied names write the same contents for the same tensor. -/
def TiedLoadersAgree (model : LoadableModel Shard Val) : Prop :=
  ∀ m ∈ model.parameterNames, ∀ n ∈ model.parameterNames,
    (model.parameter m).view = (model.parameter n).view → ∀ tensor v w,
    (model.directLoader m).write tensor none = .ok v →
    (model.directLoader n).write tensor none = .ok w → v = w

/-- Parameters of different views have no byte in common. -/
def ViewsApart (model : LoadableModel Shard Val) : Prop :=
  ∀ m ∈ model.parameterNames, ∀ n ∈ model.parameterNames,
    (model.parameter m).view ≠ (model.parameter n).view →
    (model.parameter m).view.storage = (model.parameter n).view.storage →
    ∀ cell < (model.parameter m).view.bytes, ∀ other < (model.parameter n).view.bytes,
      (model.parameter m).view.address cell ≠ (model.parameter n).view.address other

private theorem cellAt_some {view : ParameterViewKey} {part : Nat → Bool} {address cell : Nat}
    (h : view.cellAt part address = some cell) :
    cell < view.bytes ∧ part cell = true ∧ view.address cell = address := by
  have hfound := List.find?_some h
  rw [Bool.and_eq_true, decide_eq_true_eq] at hfound
  exact ⟨List.mem_range.mp (List.mem_of_find?_eq_some h), hfound⟩

private theorem cellAt_isSome {view : ParameterViewKey} {part : Nat → Bool} {cell : Nat}
    (hcell : cell < view.bytes) (hpart : part cell = true) :
    (view.cellAt part (view.address cell)).isSome = true :=
  List.find?_isSome.mpr ⟨cell, List.mem_range.mpr hcell, by simp [hpart]⟩

private theorem apply_get (memory : ParameterMemory Val) (w : CellWrite Val) (storage address : Nat) :
    memory.apply w storage address =
      match if storage = w.view.storage then w.view.cellAt w.part address else none with
      | some cell => some (w.values cell)
      | none => memory storage address := by
  unfold ParameterMemory.apply ParameterMemory.store
  by_cases hstorage : storage = w.view.storage
  · subst hstorage
    rw [if_pos rfl]
    cases hcell : w.view.cellAt w.part address with
    | none => simp [hcell]
    | some cell => simp [hcell]
  · rw [if_neg hstorage, Function.update_of_ne hstorage]

private theorem apply_comm {w w' : CellWrite Val} (memory : ParameterMemory Val)
    (h : w.view.storage = w'.view.storage → ∀ address cell other,
      w.view.cellAt w.part address = some cell →
      w'.view.cellAt w'.part address = some other → False) :
    (memory.apply w).apply w' = (memory.apply w').apply w := by
  funext storage address
  rw [apply_get, apply_get, apply_get, apply_get]
  by_cases hw : storage = w.view.storage
  swap
  · simp only [if_neg hw]
  by_cases hw' : storage = w'.view.storage
  swap
  · simp only [if_neg hw']
  rw [if_pos hw, if_pos hw']
  have hmeet := h (hw.symm.trans hw') address
  cases hcell : w.view.cellAt w.part address with
  | none => rfl
  | some cell =>
    cases hother : w'.view.cellAt w'.part address with
    | none => rfl
    | some other => exact (hmeet cell other hcell hother).elim

private theorem written_comm (huntied : PackedUntied model) (happart : ViewsApart model)
    (hagree : TiedLoadersAgree model) {tensors : List (DottedName × CheckpointTensor)}
    (h : Initializes model tensors)
    {t u : DottedName × CheckpointTensor} (ht : t ∈ tensors) (hu : u ∈ tensors)
    (memory : ParameterMemory Val) :
    (memory.written model t).written model u = (memory.written model u).written model t := by
  by_cases heq : t = u
  · rw [heq]
  have hcompatible := h.compatible.forall ht hu heq
  obtain ⟨⟨m, shard⟩, w, hw⟩ := h.alone ht
  obtain ⟨⟨n, shard'⟩, w', hw'⟩ := h.alone hu
  have hwrites : (memory.written model t).written model u = (memory.apply w).apply w' := by
    simp only [ParameterMemory.written, hw.writeOf, hw'.writeOf]
  have hwrites' : (memory.written model u).written model t = (memory.apply w').apply w := by
    simp only [ParameterMemory.written, hw.writeOf, hw'.writeOf]
  rw [hwrites, hwrites']
  obtain ⟨weightLoader, hloader, values, hvalues, rfl⟩ := writeAt_some hw.accepted
  obtain ⟨weightLoader', hloader', values', hvalues', rfl⟩ := writeAt_some hw'.accepted
  have hm := destination_mem hw.destination
  have hn := destination_mem hw'.destination
  by_cases hview : (model.parameter m).view = (model.parameter n).view
  · cases shard with
    | none =>
      cases shard' with
      | none =>
        -- both tensors are the one that the tied names share
        have hsame := hcompatible.tied m n hw.destination hw'.destination hview
        obtain rfl := Option.some.inj hloader
        obtain rfl := Option.some.inj hloader'
        rw [hsame] at hvalues
        obtain rfl := hagree m hm n hn hview _ _ _ hvalues hvalues'
        have hparts : (model.directLoader m).part none = (model.directLoader n).part none := by
          funext cell
          rw [WeightLoader.whole, WeightLoader.whole]
        simp only [hview, hparts]
      | some shardId' =>
        have hpacked := (destination_shard hw'.destination).packed
        obtain rfl := huntied n hn m hm hpacked hview.symm
        exact absurd hpacked (hw.unpacked rfl)
    | some shardId =>
      have hpacked := (destination_shard hw.destination).packed
      obtain rfl := huntied m hm n hn hpacked hview
      cases shard' with
      | none => exact absurd hpacked (hw'.unpacked rfl)
      | some shardId' =>
        obtain rfl := Option.some.inj (hloader.symm.trans hloader')
        refine apply_comm memory fun _ address cell other hcell hother => ?_
        obtain ⟨hlt, hpart, rfl⟩ := cellAt_some hcell
        obtain ⟨hlt', hpart', heq⟩ := cellAt_some hother
        obtain rfl := (model.parameter m).separate other hlt' cell hlt heq
        obtain rfl := weightLoader.disjoint shardId shardId' other hpart hpart'
        exact hcompatible.shard m shardId hw.destination hw'.destination
  · refine apply_comm memory fun hstorage address cell other hcell hother => ?_
    obtain ⟨hlt, -, rfl⟩ := cellAt_some hcell
    obtain ⟨hlt', -, heq⟩ := cellAt_some hother
    exact happart m hm n hn hview hstorage cell hlt other hlt' heq.symm

private theorem foldl_written_perm (huntied : PackedUntied model) (happart : ViewsApart model)
    (hagree : TiedLoadersAgree model) {tensors tensors' : List (DottedName × CheckpointTensor)}
    (h : Initializes model tensors)
    (hperm : tensors.Perm tensors') (memory : ParameterMemory Val) :
    tensors.foldl (ParameterMemory.written model) memory
      = tensors'.foldl (ParameterMemory.written model) memory :=
  hperm.foldl_eq' (fun _ ht _ hu z => written_comm huntied happart hagree h ht hu z) memory

private theorem written_isSome {memory : ParameterMemory Val} {t : DottedName × CheckpointTensor}
    {storage address : Nat} (h : (memory storage address).isSome) :
    (memory.written model t storage address).isSome := by
  unfold ParameterMemory.written
  cases model.writeOf t with
  | none => exact h
  | some w =>
    change (memory.apply w storage address).isSome = true
    rw [apply_get]
    split
    · rfl
    · exact h

private theorem foldl_written_isSome {tensors : List (DottedName × CheckpointTensor)}
    {t : DottedName × CheckpointTensor} (ht : t ∈ tensors) {w : CellWrite Val}
    (hw : model.writeOf t = some w) {cell : Nat} (hlt : cell < w.view.bytes)
    (hcell : w.part cell = true) (memory : ParameterMemory Val) :
    (tensors.foldl (ParameterMemory.written model) memory w.view.storage
      (w.view.address cell)).isSome := by
  have hkeep : ∀ (rest : List (DottedName × CheckpointTensor)) (mid : ParameterMemory Val),
      (mid w.view.storage (w.view.address cell)).isSome →
      (rest.foldl (ParameterMemory.written model) mid w.view.storage
        (w.view.address cell)).isSome := by
    intro rest
    induction rest with
    | nil => exact fun _ h => h
    | cons u rest ih => exact fun mid h => ih _ (written_isSome h)
  obtain ⟨before, rest, rfl⟩ := List.append_of_mem ht
  rw [List.foldl_append, List.foldl_cons]
  refine hkeep rest _ ?_
  rw [ParameterMemory.written, hw]
  change (ParameterMemory.apply _ w w.view.storage (w.view.address cell)).isSome = true
  rw [apply_get, if_pos rfl]
  obtain ⟨found, hfound⟩ := Option.isSome_iff_exists.mp (cellAt_isSome hlt hcell)
  rw [hfound]
  rfl

end Order

section Loading

variable [DecidableEq Shard] [ToString Shard] [DecidableEq Digest] {sha256 : List UInt8 → Digest}
  {entries : List DirectoryEntry} {memory after : ParameterMemory Val}

private theorem foldlM_files {requirements : List (DottedName × List Shard)}
    (files : List DirectoryEntry) (st : LoadState Shard Val Digest) :
    files.foldlM (fun st file => file.tensors.foldlM (loadTensor sha256 model requirements) st) st
      = (files.flatMap DirectoryEntry.tensors).foldlM (loadTensor sha256 model requirements) st := by
  induction files generalizing st with
  | nil => rfl
  | cons file files ih =>
    rw [List.foldlM_cons, List.flatMap_cons, List.foldlM_append]
    exact bind_congr ih

def loadOrder (entries : List DirectoryEntry) : List (DottedName × CheckpointTensor) :=
  ((entries.filter DirectoryEntry.safetensors).mergeSort
    fun a b => decide (a.path ≤ b.path)).flatMap DirectoryEntry.tensors

private theorem loadOrder_perm (entries : List DirectoryEntry) :
    (loadOrder entries).Perm (checkpointTensors entries) :=
  (List.mergeSort_perm _ _).flatMap_right _

private theorem loadModel_ok (hsha : Function.Injective sha256)
    (h : loadModel sha256 model entries memory = .ok after) :
    AcceptedMapping model.packedModulesMapping model.parameterNames ∧
      (∃ entry ∈ entries, entry.safetensors = true) ∧
      Initializes model (checkpointTensors entries) ∧
      after = (loadOrder entries).foldl (ParameterMemory.written model) memory := by
  unfold loadModel at h
  obtain ⟨⟨⟩, hsegments, h⟩ := Call.except_bind_ok h
  obtain ⟨inverse, hinverse, h⟩ := Call.except_bind_ok h
  obtain ⟨requirements, hrequirements, h⟩ := Call.except_bind_ok h
  obtain ⟨haccepted, hp⟩ := prepare_ok hsegments hinverse hrequirements
  obtain ⟨hfiles, h⟩ := Call.except_guard h
  obtain ⟨st, hst, h⟩ := Call.except_bind_ok h
  obtain ⟨hmissing, h⟩ := Call.except_guard h
  rw [not_or, not_not, not_not] at hmissing
  rw [foldlM_files] at hst
  obtain ⟨halone, -, hpairs, htracks, hmemory⟩ :=
    loadTensors_ok hsha hp (Tracks.start memory) hst
  rw [List.nil_append] at htracks
  have hperm := loadOrder_perm entries
  have hviews := (missingViews_eq_nil hp htracks hmissing.2).mp hmissing.1
  have hshards := (missingPacked_eq_nil hp htracks).mp hmissing.2
  have hloaded : Initializes model (checkpointTensors entries) := Initializes.perm ?_ hperm
  · refine ⟨haccepted, ?_, hloaded, ?_⟩
    · have hne : entries.filter DirectoryEntry.safetensors ≠ [] := fun hnil =>
        hfiles (by simp [hnil])
      obtain ⟨entry, hentry⟩ := List.exists_mem_of_ne_nil _ hne
      exact ⟨entry, List.mem_of_mem_filter hentry, (List.mem_filter.mp hentry).2⟩
    · rw [← Except.ok.inj h]
      exact hmemory
  · refine ⟨List.pairwise_map.mpr (hpairs.imp Compatible.name), fun t ht => ?_,
      fun t ht name hdest => ?_, fun t ht u hu m n hm hn hview => ?_,
      fun name hname hunpacked => ?_, fun name hname shardId hrequires => ?_⟩
    · obtain ⟨dest, w, hdest⟩ := halone t ht
      exact ⟨dest, w, hdest.destination, hdest.accepted⟩
    · obtain ⟨dest, w, hdest'⟩ := halone t ht
      obtain rfl := Option.some.inj (hdest.symm.trans hdest'.destination)
      exact hdest'.unpacked rfl
    · by_cases heq : t = u
      · rw [heq]
      · have hcompatible := hpairs.forall ht hu heq
        exact hcompatible.tied m n hm hn hview
    · obtain ⟨other, hother, hview, hpacked | ⟨u, hu, hdest⟩⟩ := hviews name hname
      · exact absurd hpacked (hunpacked other hother hview)
      · exact ⟨u, hu, other, hdest, hview⟩
    · obtain ⟨u, hu, hdest⟩ := hshards name hname shardId hrequires
      refine ⟨u, ⟨hu, hdest⟩, fun other ⟨hother, hdest'⟩ => by_contra fun hne => ?_⟩
      have hcompatible := hpairs.forall hother hu hne
      exact hcompatible.shard name shardId hdest' hdest

private theorem loadModel_of_initializes (hsha : Function.Injective sha256)
    (haccepted : AcceptedMapping model.packedModulesMapping model.parameterNames)
    (hfile : ∃ entry ∈ entries, entry.safetensors = true)
    (h : Initializes model (checkpointTensors entries)) :
    ∃ after, loadModel sha256 model entries memory = .ok after := by
  obtain ⟨inverse, requirements, hsegments, hinverse, hrequirements⟩ :=
    prepare_of_accepted haccepted
  have hp := (prepare_ok hsegments hinverse hrequirements).2
  have hordered := h.perm (loadOrder_perm entries).symm
  obtain ⟨st, hst⟩ := loadTensors_of_compatible hsha hp (Tracks.start memory)
    (fun t ht => hordered.alone ht) (by simp) hordered.compatible
  have htracks := (loadTensors_ok hsha hp (Tracks.start memory) hst).2.2.2.1
  rw [List.nil_append] at htracks
  have hpacked : missingPacked requirements st = [] :=
    (missingPacked_eq_nil hp htracks).mpr fun name hname shardId hrequires => by
      obtain ⟨u, ⟨hu, hdest⟩, -⟩ := hordered.shards name hname shardId hrequires
      exact ⟨u, hu, hdest⟩
  have hviews : missingViews model requirements st = [] :=
    (missingViews_eq_nil hp htracks hpacked).mpr fun name hname => by
      by_cases hunpacked : ∀ other ∈ model.parameterNames,
          (model.parameter other).view = (model.parameter name).view →
          ¬ Packed model.packedModulesMapping other
      · obtain ⟨u, hu, other, hdest, hview⟩ := hordered.covered name hname hunpacked
        exact ⟨other, destination_mem hdest, hview, .inr ⟨u, hu, hdest⟩⟩
      · push Not at hunpacked
        obtain ⟨other, hother, hview, hpackedOther⟩ := hunpacked
        exact ⟨other, hother, hview, .inl hpackedOther⟩
  have hfiles : ¬ ((entries.filter DirectoryEntry.safetensors).mergeSort
      fun a b => decide (a.path ≤ b.path)).isEmpty = true := by
    obtain ⟨entry, hentry, hsafe⟩ := hfile
    rw [List.isEmpty_iff]
    intro hnil
    have hmem := (List.mergeSort_perm (entries.filter DirectoryEntry.safetensors)
      fun a b => decide (a.path ≤ b.path)).mem_iff.mpr (List.mem_filter.mpr ⟨hentry, hsafe⟩)
    rw [hnil] at hmem
    exact absurd hmem List.not_mem_nil
  refine ⟨st.memory, ?_⟩
  unfold loadModel
  refine (Call.except_bind_of_ok hsegments).trans ?_
  refine (Call.except_bind_of_ok hinverse).trans ?_
  refine (Call.except_bind_of_ok hrequirements).trans ?_
  refine Call.except_guard_of_not hfiles ?_
  rw [foldlM_files]
  refine (Call.except_bind_of_ok hst).trans ?_
  refine Call.except_guard_of_not ?_ rfl
  rw [hviews, hpacked]
  simp

/-- `load_model` returns exactly on the checkpoints that initialize the model. Then every cell of
an unpacked parameter and of every shard of a packed one has been written. Where parameters share
bytes only as tied names, whose loaders agree, the contents depend on neither the files nor the
order of the tensors. -/
theorem load_model_initializes (hsha : Function.Injective sha256)
    (model : LoadableModel Shard Val) :
    (∀ (entries : List DirectoryEntry) (memory : ParameterMemory Val),
      (∃ after, loadModel sha256 model entries memory = .ok after) ↔
        AcceptedMapping model.packedModulesMapping model.parameterNames ∧
        (∃ entry ∈ entries, entry.safetensors = true) ∧
        Initializes model (checkpointTensors entries)) ∧
    (∀ (entries : List DirectoryEntry) (memory after : ParameterMemory Val),
      loadModel sha256 model entries memory = .ok after → ∀ name ∈ model.parameterNames,
        ((∀ other ∈ model.parameterNames,
            (model.parameter other).view = (model.parameter name).view →
            ¬ Packed model.packedModulesMapping other) →
          ∀ cell < (model.parameter name).view.bytes,
            (after (model.parameter name).view.storage
              ((model.parameter name).view.address cell)).isSome) ∧
        (∀ shardId, Requires model.packedModulesMapping name shardId →
          ∃ weightLoader, (model.parameter name).weightLoader = some weightLoader ∧
            ∀ cell < (model.parameter name).view.bytes,
              weightLoader.part (some shardId) cell = true →
              (after (model.parameter name).view.storage
                ((model.parameter name).view.address cell)).isSome)) ∧
    (PackedUntied model → ViewsApart model → TiedLoadersAgree model →
      ∀ (entries entries' : List DirectoryEntry) (memory after after' : ParameterMemory Val),
        (checkpointTensors entries).Perm (checkpointTensors entries') →
        loadModel sha256 model entries memory = .ok after →
        loadModel sha256 model entries' memory = .ok after' → after = after') := by
  refine ⟨fun entries memory => ⟨?_, ?_⟩, ?_, ?_⟩
  · rintro ⟨after, h⟩
    obtain ⟨haccepted, hfile, hloaded, -⟩ := loadModel_ok hsha h
    exact ⟨haccepted, hfile, hloaded⟩
  · rintro ⟨haccepted, hfile, hloaded⟩
    exact loadModel_of_initializes hsha haccepted hfile hloaded
  · intro entries memory after h name hname
    obtain ⟨-, -, hloaded, rfl⟩ := loadModel_ok hsha h
    have hperm := loadOrder_perm entries
    refine ⟨fun hunpacked cell hlt => ?_, fun shardId hrequires => ?_⟩
    · obtain ⟨u, hu, other, hdest, hview⟩ := hloaded.covered name hname hunpacked
      obtain ⟨dest, w, hw⟩ := hloaded.alone hu
      obtain rfl := Option.some.inj (hdest.symm.trans hw.destination)
      obtain ⟨weightLoader, -, values, -, rfl⟩ := writeAt_some hw.accepted
      rw [← hview] at hlt ⊢
      exact foldl_written_isSome (hperm.mem_iff.mpr hu) hw.writeOf hlt (weightLoader.whole cell)
        memory
    · obtain ⟨u, ⟨hu, hdest⟩, -⟩ := hloaded.shards name hname shardId hrequires
      obtain ⟨dest, w, hw⟩ := hloaded.alone hu
      obtain rfl := Option.some.inj (hdest.symm.trans hw.destination)
      obtain ⟨weightLoader, hloader, values, -, rfl⟩ := writeAt_some hw.accepted
      exact ⟨weightLoader, hloader, fun cell hlt hcell =>
        foldl_written_isSome (hperm.mem_iff.mpr hu) hw.writeOf hlt hcell memory⟩
  · intro huntied happart hagree entries entries' memory after after' hsame h h'
    obtain ⟨-, -, hloaded, rfl⟩ := loadModel_ok hsha h
    obtain ⟨-, -, -, rfl⟩ := loadModel_ok hsha h'
    have hperm := loadOrder_perm entries
    exact foldl_written_perm huntied happart hagree (hloaded.perm hperm.symm)
      (hperm.trans (hsame.trans (loadOrder_perm entries').symm)) memory

end Loading

section TiedPair

/-- Two tied names of one cell; the second may bring a loader of its own. -/
def tiedPair (own : Option (WeightLoader Nat UInt8)) : LoadableModel Nat UInt8 where
  packedModulesMapping := []
  parameterNames := [["embed"], ["head"]]
  parameter name :=
    ⟨⟨0, 0, [1], [1], ⟨"uint8", 1⟩⟩, if name = ["head"] then own else none, by decide⟩
  copied _ tensor cell := tensor.bytes.getD cell 0
  sources_nodup := List.nodup_nil
  names_nodup := by decide

/-- A loader that writes every byte complemented. -/
def complementLoader : WeightLoader Nat UInt8 where
  part shard _ := shard.isNone
  write tensor _ := .ok fun cell => 255 - tensor.bytes.getD cell 0
  whole _ := rfl
  disjoint := by simp

def nineTensor : CheckpointTensor := ⟨"uint8", [1], [9]⟩

/-- A checkpoint of two files with one tensor each. -/
def twoFiles (first second : DottedName) : List DirectoryEntry :=
  [⟨"a.safetensors", true, [(first, nineTensor)]⟩, ⟨"b.safetensors", true, [(second, nineTensor)]⟩]

private theorem twoFiles_safetensors (first second : DottedName) :
    ∀ entry ∈ twoFiles first second, entry.safetensors = true := by
  intro entry hentry
  have hpaths : ∀ path ∈ ["a.safetensors", "b.safetensors"],
      ".safetensors".toList <:+ path.toList := by
    decide
  rcases List.mem_pair.mp hentry with rfl | rfl
  · simp only [DirectoryEntry.safetensors, hpaths "a.safetensors" (by simp), decide_true,
      Bool.and_self]
  · simp only [DirectoryEntry.safetensors, hpaths "b.safetensors" (by simp), decide_true,
      Bool.and_self]

private theorem twoFiles_readable (first second : DottedName) :
    ∃ entry ∈ twoFiles first second, entry.safetensors = true :=
  ⟨_, List.mem_cons_self, twoFiles_safetensors first second _ List.mem_cons_self⟩

private theorem checkpointTensors_twoFiles (first second : DottedName) :
    checkpointTensors (twoFiles first second) = [(first, nineTensor), (second, nineTensor)] := by
  rw [checkpointTensors, List.filter_eq_self.mpr (twoFiles_safetensors first second)]
  rfl

private theorem loadOrder_twoFiles (first second : DottedName) :
    loadOrder (twoFiles first second) = [(first, nineTensor), (second, nineTensor)] := by
  have hsorted : (twoFiles first second).Pairwise fun a b => decide (a.path ≤ b.path) = true := by
    have hpaths : "a.safetensors" ≤ "b.safetensors" := by decide
    simpa only [twoFiles, List.pairwise_pair, decide_eq_true_eq] using hpaths
  rw [loadOrder, List.filter_eq_self.mpr (twoFiles_safetensors first second),
    List.mergeSort_of_pairwise hsorted]
  rfl

private theorem tiedPair_destination (own : Option (WeightLoader Nat UInt8)) (name : DottedName) :
    (tiedPair own).destination name
      = if name ∈ [["embed"], ["head"]] then some (name, none) else none := by
  have hmatches : sourceMatches (tiedPair own).packedModulesMapping name = [] := by
    simp [sourceMatches, tiedPair]
  rw [LoadableModel.destination, hmatches]
  rfl

private theorem tiedPair_accepted (own : Option (WeightLoader Nat UInt8)) :
    AcceptedMapping (tiedPair own).packedModulesMapping (tiedPair own).parameterNames where
  segments := by simp [tiedPair]
  shards := List.nodup_nil
  destinations := by simp [tiedPair]

private theorem tiedPair_initializes {own : Option (WeightLoader Nat UInt8)}
    (hown : ∃ v, ((tiedPair own).directLoader ["head"]).write nineTensor none = .ok v) :
    Initializes (tiedPair own) (checkpointTensors (twoFiles ["embed"] ["head"])) := by
  rw [checkpointTensors_twoFiles]
  constructor
  case names_nodup => decide
  case destined =>
    intro t ht
    obtain ⟨v, hv⟩ := hown
    rcases List.mem_pair.mp ht with rfl | rfl
    · exact ⟨(["embed"], none), _, tiedPair_destination own _, rfl⟩
    · have hloader : (tiedPair own).loader (["head"], none)
          = some ((tiedPair own).directLoader ["head"]) := rfl
      have haccepted : ∃ w, (tiedPair own).writeAt nineTensor (["head"], none) = some w := by
        rw [LoadableModel.writeAt, hloader, Option.bind_some, hv]
        exact ⟨_, rfl⟩
      obtain ⟨w, hw⟩ := haccepted
      exact ⟨(["head"], none), w, tiedPair_destination own _, hw⟩
  case unpacked => simp [Packed, tiedPair]
  case tied =>
    intro t ht u hu m n _ _ _
    rcases List.mem_pair.mp ht with rfl | rfl <;> rcases List.mem_pair.mp hu with rfl | rfl <;> rfl
  case covered =>
    exact fun _ _ _ => ⟨_, List.mem_cons_self, ["embed"], tiedPair_destination own _, rfl⟩
  case shards =>
    rintro name - shardId ⟨item, hitem, -⟩
    exact absurd hitem List.not_mem_nil

private theorem twoFiles_perm (first second : DottedName) :
    (checkpointTensors (twoFiles first second)).Perm
    (checkpointTensors (twoFiles second first)) := by
  rw [checkpointTensors_twoFiles, checkpointTensors_twoFiles]
  exact .swap _ _ _

theorem load_model_initializes_tied_pair : ∃ after,
    loadModel id (tiedPair none) (twoFiles ["embed"] ["head"]) (fun _ _ => none) = .ok after ∧
      loadModel id (tiedPair none) (twoFiles ["head"] ["embed"]) (fun _ _ => none) = .ok after ∧
      (after 0 0).isSome := by
  obtain ⟨hiff, hwritten, horder⟩ := load_model_initializes Function.injective_id (tiedPair none)
  have hfirst := @tiedPair_initializes none ⟨_, rfl⟩
  obtain ⟨after, hafter⟩ := (hiff (twoFiles ["embed"] ["head"]) fun _ _ => none).mpr
    ⟨tiedPair_accepted none, twoFiles_readable _ _, hfirst⟩
  obtain ⟨after', hafter'⟩ := (hiff (twoFiles ["head"] ["embed"]) fun _ _ => none).mpr
    ⟨tiedPair_accepted none, twoFiles_readable _ _, hfirst.perm (twoFiles_perm _ _)⟩
  have hunpacked : ∀ name, ¬ Packed (tiedPair none).packedModulesMapping name := by
    rintro name ⟨item, hitem, -⟩
    exact absurd hitem List.not_mem_nil
  have hloader : ∀ name, (tiedPair none).directLoader name = (tiedPair none).directLoader [] := by
    intro name
    simp [LoadableModel.directLoader, tiedPair]
  have hagree : TiedLoadersAgree (tiedPair none) := by
    intro m _ n _ _ tensor v w hv hw
    rw [hloader] at hv hw
    exact Except.ok.inj (hv.symm.trans hw)
  have hsame := horder (fun m _ _ _ hpacked => absurd hpacked (hunpacked m))
    (fun _ _ _ _ hview => absurd rfl hview) hagree _ _ _ after after' (twoFiles_perm _ _) hafter
    hafter'
  exact ⟨after, hafter, hsame ▸ hafter', (hwritten _ _ after hafter ["embed"] (by decide)).1
    (fun other _ _ => hunpacked other) 0 (by decide)⟩

/-- Loaders of tied names that differ make the contents depend on which file is read last. -/
theorem tied_loaders_order_dependent : ∃ after after',
    (checkpointTensors (twoFiles ["embed"] ["head"])).Perm
        (checkpointTensors (twoFiles ["head"] ["embed"])) ∧
      loadModel id (tiedPair (some complementLoader)) (twoFiles ["embed"] ["head"])
        (fun _ _ => none) = .ok after ∧
      loadModel id (tiedPair (some complementLoader)) (twoFiles ["head"] ["embed"])
        (fun _ _ => none) = .ok after' ∧
      after 0 0 = some 246 ∧ after' 0 0 = some 9 := by
  have hfirst := @tiedPair_initializes (some complementLoader) ⟨_, rfl⟩
  have hloads : ∀ entries, (∃ entry ∈ entries, entry.safetensors = true) →
      Initializes (tiedPair (some complementLoader)) (checkpointTensors entries) → ∃ after,
        loadModel id (tiedPair (some complementLoader)) entries (fun _ _ => none) = .ok after :=
    fun entries hfile h => loadModel_of_initializes Function.injective_id (tiedPair_accepted _)
      hfile h
  obtain ⟨after, hafter⟩ := hloads (twoFiles ["embed"] ["head"])
    (twoFiles_readable _ _) hfirst
  obtain ⟨after', hafter'⟩ := hloads (twoFiles ["head"] ["embed"])
    (twoFiles_readable _ _) (hfirst.perm (twoFiles_perm _ _))
  obtain ⟨-, -, -, hwritten⟩ := loadModel_ok Function.injective_id hafter
  obtain ⟨-, -, -, hwritten'⟩ := loadModel_ok Function.injective_id hafter'
  rw [loadOrder_twoFiles] at hwritten hwritten'
  refine ⟨after, after', twoFiles_perm _ _, hafter, hafter', ?_, ?_⟩
  · rw [hwritten]
    decide
  · rw [hwritten']
    decide

end TiedPair

end NanoVllm
