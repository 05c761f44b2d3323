/- module: NanoVllm/Utils/Loader
   layer: source
   source: nanovllm/utils/loader.py, _parameter_view_key, _tensor_fingerprint and load_model
   digest: Checkpoint loading with its ledgers of direct names, packed shards and tied views. -/

import Mathlib.Algebra.BigOperators.Group.List.Basic
import Mathlib.Data.List.Dedup
import Mathlib.Logic.Function.Basic
import NanoVllm.Engine.Sequence

set_option autoImplicit false
set_option relaxedAutoImplicit false

namespace NanoVllm

/-- `ModelWeightLoadError`, a `RuntimeError`. -/
def modelWeightLoadError (message : String) : Raised := .runtimeError message

/-- A dotted path, split at its dots. -/
abbrev DottedName := List String

instance lawfulDottedName : LawfulBEq DottedName := List.instLawfulBEq

def DottedName.repr (name : DottedName) : String := "'" ++ ".".intercalate name ++ "'"

def reprList (items : List String) : String := "[" ++ ", ".intercalate items ++ "]"

/-- A `torch.dtype` with the bytes of one element. -/
structure DType where
  name : String
  itemSize : Nat
  deriving DecidableEq, Repr

structure ParameterViewKey where
  storage : Nat
  storageOffset : Nat
  shape : List Nat
  stride : List Nat
  dtype : DType
  deriving DecidableEq, Repr

/-- The place of the `index`-th element; the pairs of a size and a stride are innermost first. -/
def stridedOffset : List (Nat × Nat) → Nat → Nat
  | [], _ => 0
  | (size, stride) :: dims, index => index % size * stride + stridedOffset dims (index / size)

namespace ParameterViewKey

/-- The number of bytes of a view. Its cells are these bytes, in contiguous order. -/
def bytes (view : ParameterViewKey) : Nat := view.shape.prod * view.dtype.itemSize

/-- Where a cell lies in the storage. -/
def address (view : ParameterViewKey) (cell : Nat) : Nat :=
  (view.storageOffset + stridedOffset (view.shape.zip view.stride).reverse
    (cell / view.dtype.itemSize)) * view.dtype.itemSize + cell % view.dtype.itemSize

/-- No two cells lie in one place, as `copy_` demands of its destination. -/
def Separate (view : ParameterViewKey) : Prop :=
  ∀ cell < view.bytes, ∀ other < view.bytes, view.address cell = view.address other → cell = other

instance decidableSeparate (view : ParameterViewKey) : Decidable view.Separate :=
  inferInstanceAs (Decidable (∀ cell < view.bytes, ∀ other < view.bytes,
    view.address cell = view.address other → cell = other))

/-- The cell of `part` that lies at this address. -/
def cellAt (view : ParameterViewKey) (part : Nat → Bool) (address : Nat) : Option Nat :=
  (List.range view.bytes).find? fun cell => part cell && decide (view.address cell = address)

end ParameterViewKey

/-- A tensor of a checkpoint; `bytes` are its contents in contiguous order. -/
structure CheckpointTensor where
  dtype : String
  shape : List Nat
  bytes : List UInt8
  deriving DecidableEq, Repr

def tensorFingerprint {Digest : Type} (sha256 : List UInt8 → Digest) (tensor : CheckpointTensor) :
    String × List Nat × Digest :=
  (tensor.dtype, tensor.shape, sha256 tensor.bytes)

/-- How a weight loader fails: the memory errors pass through `load_model`. -/
inductive LoaderFailure
  | outOfMemory
  | refused
  deriving DecidableEq, Repr

/-- A weight loader refuses a tensor or writes the whole of its destination, the parameter or the
part of it that a shard id names. `part` says which cells these are. -/
structure WeightLoader (Shard Val : Type) where
  part : Option Shard → Nat → Bool
  write : CheckpointTensor → Option Shard → Except LoaderFailure (Nat → Val)
  whole : ∀ cell, part none cell = true
  disjoint : ∀ s t cell, part (some s) cell = true → part (some t) cell = true → s = t

/-- An `nn.Parameter`; its own `weight_loader` attribute may be missing. -/
structure Parameter (Shard Val : Type) where
  view : ParameterViewKey
  weightLoader : Option (WeightLoader Shard Val)
  separate : view.Separate

/-- What `load_model` reads of a model. The items of the mapping are a source name, its packed
name and its shard id; `copied` is what `param.data.copy_(loaded_weight)` leaves in the cells. -/
structure LoadableModel (Shard Val : Type) where
  packedModulesMapping : List (String × String × Shard)
  parameterNames : List DottedName
  parameter : DottedName → Parameter Shard Val
  copied : ParameterViewKey → CheckpointTensor → Nat → Val
  sources_nodup : (packedModulesMapping.map Prod.fst).Nodup
  names_nodup : parameterNames.Nodup

/-- A file of the model directory that can be read; `tensors` come in the order of `keys()`. -/
structure DirectoryEntry where
  path : String
  isFile : Bool
  tensors : List (DottedName × CheckpointTensor)

/-- `entry.name.endswith(".safetensors") and entry.is_file()`. -/
def DirectoryEntry.safetensors (entry : DirectoryEntry) : Bool :=
  decide (".safetensors".toList <:+ entry.path.toList) && entry.isFile

/-- The bytes of each storage, empty where nothing was written. -/
abbrev ParameterMemory (Val : Type) := Nat → Nat → Option Val

/-- Write the cells of `part` through the view. -/
def ParameterMemory.store {Val : Type} (memory : ParameterMemory Val) (view : ParameterViewKey)
    (part : Nat → Bool) (values : Nat → Val) : ParameterMemory Val :=
  Function.update memory view.storage fun address =>
    match view.cellAt part address with
    | some cell => some (values cell)
    | none => memory view.storage address

variable {Shard Val Digest : Type} [DecidableEq Shard] [ToString Shard] [DecidableEq Digest]

/-- `default_weight_loader`; called with a shard id it is a `TypeError`. -/
def defaultWeightLoader (copied : ParameterViewKey → CheckpointTensor → Nat → Val)
    (view : ParameterViewKey) : WeightLoader Shard Val where
  part shard _ := shard.isNone
  write tensor shard :=
    if shard.isSome ∨ tensor.shape ≠ view.shape then .error .refused
    else .ok (copied view tensor)
  whole _ := rfl
  disjoint := by simp

section Mapping

def checkMappingSegments (mapping : List (String × String × Shard)) : Except Raised Unit :=
  mapping.forM fun item =>
    if '.' ∈ item.1.toList ∨ '.' ∈ item.2.1.toList then
      throw (modelWeightLoadError
        ("packed module mappings must use exact single path segments; got '" ++ item.1 ++ "' -> '"
          ++ item.2.1 ++ "'"))
    else pure ⟨⟩

def invertItem (inverse : String → List Shard) (item : String × String × Shard) :
    Except Raised (String → List Shard) :=
  if item.2.2 ∈ inverse item.2.1 then
    throw (modelWeightLoadError
      ("duplicate packed shard id " ++ toString item.2.2 ++ " for '" ++ item.2.1 ++ "'"))
  else pure (Function.update inverse item.2.1 (inverse item.2.1 ++ [item.2.2]))

/-- `inverse_packed_mapping`: the shard ids of each packed name. -/
def inversePackedMapping (mapping : List (String × String × Shard)) :
    Except Raised (String → List Shard) :=
  mapping.foldlM invertItem fun _ => []

/-- The keys a dictionary gets from these insertions, in order of their first one. -/
def dictKeys {α : Type} [DecidableEq α] (keys : List α) : List α := keys.reverse.dedup.reverse

/-- `packed_destinations`; the keys of the inverse mapping are the packed names. -/
def packedDestinations (mapping : List (String × String × Shard)) (name : DottedName) :
    List String :=
  (dictKeys (mapping.map fun item => item.2.1)).filter (· ∈ name)

def requireShards (mapping : List (String × String × Shard)) (inverse : String → List Shard)
    (requirements : List (DottedName × List Shard)) (name : DottedName) :
    Except Raised (List (DottedName × List Shard)) :=
  match packedDestinations mapping name with
  | [] => pure requirements
  | [packedName] => pure (requirements ++ [(name, inverse packedName)])
  | destinations =>
    throw (modelWeightLoadError
      ("parameter name matches multiple packed destinations: " ++ name.repr ++ " -> "
        ++ reprList destinations))

def packedRequirements (mapping : List (String × String × Shard)) (inverse : String → List Shard)
    (names : List DottedName) : Except Raised (List (DottedName × List Shard)) :=
  names.foldlM (requireShards mapping inverse) []

/-- `source_matches`, with the item of the mapping that each match names. -/
def sourceMatches (mapping : List (String × String × Shard)) (name : DottedName) :
    List (Nat × String × String × Shard) :=
  name.zipIdx.flatMap fun segment =>
    (mapping.filter (·.1 = segment.1)).map fun item => (segment.2, item)

end Mapping

section Loading

variable (sha256 : List UInt8 → Digest) (model : LoadableModel Shard Val)

def LoadableModel.viewNames (view : ParameterViewKey) : List DottedName :=
  model.parameterNames.filter fun name => (model.parameter name).view = view

def LoadableModel.aliased (view : ParameterViewKey) : Bool := 1 < (model.viewNames view).length

/-- `getattr(parameter, "weight_loader", default_weight_loader)`. -/
def LoadableModel.directLoader (name : DottedName) : WeightLoader Shard Val :=
  (model.parameter name).weightLoader.getD
    (defaultWeightLoader model.copied (model.parameter name).view)

structure LoadState (Shard Val Digest : Type) where
  seenSourceNames : List DottedName
  directLoadedNames : List DottedName
  directViewFingerprints : ParameterViewKey → Option (String × List Nat × Digest)
  loadedPackedShards : DottedName → List Shard
  memory : ParameterMemory Val

def LoadState.start (memory : ParameterMemory Val) : LoadState Shard Val Digest where
  seenSourceNames := []
  directLoadedNames := []
  directViewFingerprints _ := none
  loadedPackedShards _ := []
  memory := memory

/-- A failed weight loader is reported under the tensor's name, a memory error is raised again. -/
def wrapFailure {α : Type} (message : String) : Except LoaderFailure α → Except Raised α
  | .ok a => .ok a
  | .error .outOfMemory => .error (.external "out of memory")
  | .error .refused => .error (modelWeightLoadError message)

def loadPacked (st : LoadState Shard Val Digest) (weightName : DottedName)
    (tensor : CheckpointTensor) (index : Nat) (packedName : String) (shardId : Shard) :
    Except Raised (LoadState Shard Val Digest) := do
  let parameterName : DottedName := weightName.set index packedName
  if parameterName ∉ model.parameterNames then
    throw (modelWeightLoadError ("checkpoint packed tensor has no destination parameter: "
      ++ weightName.repr ++ " -> " ++ parameterName.repr))
  if shardId ∈ st.loadedPackedShards parameterName then
    throw (modelWeightLoadError ("duplicate packed shard for destination parameter: "
      ++ parameterName.repr ++ ":" ++ toString shardId))
  match (model.parameter parameterName).weightLoader with
  | none =>
    throw (modelWeightLoadError ("packed destination has no shard-aware weight loader: "
      ++ parameterName.repr))
  | some weightLoader =>
    let values ← wrapFailure ("failed loading packed checkpoint tensor " ++ weightName.repr
      ++ " into " ++ parameterName.repr) (weightLoader.write tensor (some shardId))
    pure
      { st with
        loadedPackedShards := Function.update st.loadedPackedShards parameterName
          (st.loadedPackedShards parameterName ++ [shardId])
        memory := st.memory.store (model.parameter parameterName).view
          (weightLoader.part (some shardId)) values }

def checkAliases (view : ParameterViewKey) (tensor : CheckpointTensor)
    (fingerprints : ParameterViewKey → Option (String × List Nat × Digest)) :
    Except Raised (ParameterViewKey → Option (String × List Nat × Digest)) :=
  if model.aliased view then
    let fingerprint := tensorFingerprint sha256 tensor
    if fingerprints view ≠ none ∧ fingerprints view ≠ some fingerprint then
      .error (modelWeightLoadError ("tied checkpoint aliases contain different tensor values: "
        ++ reprList ((model.viewNames view).map DottedName.repr)))
    else .ok (Function.update fingerprints view (some fingerprint))
  else .ok fingerprints

def loadDirect (st : LoadState Shard Val Digest) (weightName : DottedName)
    (tensor : CheckpointTensor) : Except Raised (LoadState Shard Val Digest) := do
  if weightName ∉ model.parameterNames then
    throw (modelWeightLoadError ("checkpoint tensor has no destination parameter: "
      ++ weightName.repr))
  let view := (model.parameter weightName).view
  let fingerprints ← checkAliases sha256 model view tensor st.directViewFingerprints
  let weightLoader := model.directLoader weightName
  let values ← wrapFailure ("failed loading checkpoint tensor " ++ weightName.repr)
    (weightLoader.write tensor none)
  pure
    { st with
      directViewFingerprints := fingerprints
      memory := st.memory.store view (weightLoader.part none) values
      directLoadedNames := st.directLoadedNames ++ [weightName] }

def loadTensor (requirements : List (DottedName × List Shard)) (st : LoadState Shard Val Digest)
    (weight : DottedName × CheckpointTensor) : Except Raised (LoadState Shard Val Digest) := do
  if weight.1 ∈ st.seenSourceNames then
    throw (modelWeightLoadError ("duplicate checkpoint tensor name: " ++ weight.1.repr))
  let st := { st with seenSourceNames := st.seenSourceNames ++ [weight.1] }
  match sourceMatches model.packedModulesMapping weight.1 with
  | [] =>
    if weight.1 ∈ requirements.map Prod.fst then
      throw (modelWeightLoadError ("direct already-packed checkpoint tensors are not supported: "
        ++ weight.1.repr))
    loadDirect sha256 model st weight.1 weight.2
  | [(index, _, packedName, shardId)] =>
    loadPacked model st weight.1 weight.2 index packedName shardId
  | found =>
    throw (modelWeightLoadError ("checkpoint tensor matches multiple packed sources: "
      ++ weight.1.repr ++ " -> "
      ++ reprList (found.map fun entry => "(" ++ toString entry.1 ++ ", '" ++ entry.2.1 ++ "')")))

def missingPacked (requirements : List (DottedName × List Shard))
    (st : LoadState Shard Val Digest) : List (DottedName × Shard) :=
  requirements.flatMap fun requirement =>
    (requirement.2.filter (· ∉ st.loadedPackedShards requirement.1)).map fun shardId =>
      (requirement.1, shardId)

def fullyCoveredNames (requirements : List (DottedName × List Shard))
    (st : LoadState Shard Val Digest) : List DottedName :=
  st.directLoadedNames ++ (requirements.filter fun requirement =>
    requirement.2.all (· ∈ st.loadedPackedShards requirement.1)).map Prod.fst

def missingViews (requirements : List (DottedName × List Shard))
    (st : LoadState Shard Val Digest) : List (List DottedName) :=
  let views := dictKeys (model.parameterNames.map fun name => (model.parameter name).view)
  (views.map model.viewNames).filter fun names =>
    ¬ names.any (· ∈ fullyCoveredNames requirements st)

/-- `load_model`; `entries` is the model directory, `memory` what the parameters hold before. -/
def loadModel (entries : List DirectoryEntry) (memory : ParameterMemory Val) :
    Except Raised (ParameterMemory Val) := do
  checkMappingSegments model.packedModulesMapping
  let inverse ← inversePackedMapping model.packedModulesMapping
  let requirements ← packedRequirements model.packedModulesMapping inverse model.parameterNames
  let files := (entries.filter DirectoryEntry.safetensors).mergeSort
    fun a b => decide (a.path ≤ b.path)
  if files.isEmpty then
    throw (modelWeightLoadError "model directory contains no supported safetensors weights")
  let st ← files.foldlM
    (fun st file => file.tensors.foldlM (loadTensor sha256 model requirements) st)
    (LoadState.start memory)
  if missingViews model requirements st ≠ [] ∨ missingPacked requirements st ≠ [] then
    throw (modelWeightLoadError
      ("safetensors weights did not initialize every exact parameter view and packed shard; "
        ++ "missing_views=" ++ reprList ((missingViews model requirements st).map fun names =>
          reprList (names.map DottedName.repr))
        ++ ", missing_packed_shards=" ++ reprList ((missingPacked requirements st).map fun entry =>
          entry.1.repr ++ ":" ++ toString entry.2)))
  pure st.memory

end Loading

end NanoVllm
