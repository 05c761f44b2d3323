/- module: NanoVllm/Engine/TpTransport
   layer: source
   source: nanovllm/engine/tp_transport.py; loop, read_shm, write_shm and call of
     nanovllm/engine/model_runner.py
   digest: Wire format of a call and the processes of rank zero and its workers. -/

import Mathlib.Algebra.Order.Ring.Nat
import Mathlib.Data.Fintype.Basic
import NanoVllm.Engine.Sequence

set_option autoImplicit false
set_option relaxedAutoImplicit false

namespace NanoVllm

abbrev Bytes := List UInt8

structure ScheduledSequence where
  scheduledTokenIds : List Nat
  isPrefill : Bool
  numCachedTokens : Nat
  numScheduledTokens : Nat
  numTokens : Nat
  lastToken : Nat
  blockTable : List Nat
  deriving DecidableEq, Repr

/-- `Sequence | ScheduledSequence`. -/
inductive RunnerRow where
  | sequence (seq : Sequence)
  | scheduled (view : ScheduledSequence)
  deriving DecidableEq, Repr

def invalidBounds (start count total : Nat) : Raised :=
  .valueError (s!"invalid scheduled sequence bounds: cached={start}, scheduled={count}, "
    ++ s!"total={total}")

def ScheduledSequence.fromSequence (seq : Sequence) : Except Raised ScheduledSequence := do
  let start := seq.numCachedTokens
  let count := seq.numScheduledTokens
  if count = 0 ∨ seq.numTokens < start + count then
    throw (invalidBounds start count seq.numTokens)
  let scheduledTokenIds := (seq.tokenIds.drop start).take count
  if scheduledTokenIds.length ≠ count then
    throw (.valueError s!"scheduled token slice does not match sequence accounting: expected {count}, got {scheduledTokenIds.length}")
  pure
    { scheduledTokenIds := scheduledTokenIds
      isPrefill := seq.isPrefill
      numCachedTokens := start
      numScheduledTokens := count
      numTokens := seq.numTokens
      lastToken := seq.lastToken
      blockTable := seq.blockTable }

/-- `from_sequence` on either row; a compact one has no `token_ids`. -/
def ScheduledSequence.fromRow : RunnerRow → Except Raised ScheduledSequence
  | .sequence seq => fromSequence seq
  | .scheduled view =>
    if view.numScheduledTokens = 0
        ∨ view.numTokens < view.numCachedTokens + view.numScheduledTokens then
      throw (invalidBounds view.numCachedTokens view.numScheduledTokens view.numTokens)
    else throw (.external "token_ids")

/-- An argument of a runner call, on rank zero or on the wire; a `value` is any other object that
is no collection. -/
inductive RunnerArg
  | rows (rows : List RunnerRow)
  | flag (value : Bool)
  | value (repr : String)
  deriving DecidableEq, Repr

/-- `[method_name, *args]`. -/
structure CallFrame where
  method : String
  args : List RunnerArg
  deriving DecidableEq, Repr

def compactRunArgs : List RunnerArg → Except Raised (List RunnerArg)
  | [.rows seqs, isPrefill] => do
    let views ← seqs.mapM ScheduledSequence.fromRow
    pure [.rows (views.map .scheduled), isPrefill]
  -- nothing else can be iterated
  | [_, _] => throw (.external "compact_run_args")
  | args => throw (.valueError s!"run expects two arguments, got {args.length}")

def workerFrame (call : CallFrame) : Except Raised CallFrame := do
  let workerArgs ← if call.method = "run" then compactRunArgs call.args else pure call.args
  pure ⟨call.method, workerArgs⟩

/-- What `pickle.loads` returns: a list that starts with a method name, or anything else. -/
inductive Payload
  | call (frame : CallFrame)
  | other

/-- The `pickle` module; `none` is an exception. -/
structure Pickle where
  dumps : CallFrame → Bytes
  loads : Bytes → Option Payload

/-- Unpickling gives back what was pickled. -/
def Pickle.Faithful (p : Pickle) : Prop := ∀ frame, p.loads (p.dumps frame) = some (.call frame)

def tpShmMagic : Bytes := [0x4E, 0x56, 0x54, 0x50]

/-- `TP_SHM_HEADER.size` of the format `<4sI`. -/
def tpShmHeaderSize : Nat := 8

def littleEndian (n : Nat) : Bytes :=
  [n, n / 256, n / 65536, n / 16777216].map UInt8.ofNat

def ofLittleEndian : Bytes → Nat
  | [] => 0
  | b :: bytes => b.toNat + 256 * ofLittleEndian bytes

def packHeader (n : Nat) : Except Raised Bytes :=
  if n < 2 ^ 32 then .ok (tpShmMagic ++ littleEndian n) else .error (.external "struct.error")

def unpackHeader (header : Bytes) : Bytes × Nat :=
  (header.take 4, ofLittleEndian (header.drop 4))

/-- What `write_shm` writes, header first. All its checks come before the first write. -/
def encodeCall (p : Pickle) (bufferSize : Nat) (call : CallFrame) : Except Raised Bytes := do
  let frame ← workerFrame call
  let data := p.dumps frame
  let n := data.length
  let capacity : Int := bufferSize - tpShmHeaderSize
  if n = 0 ∨ capacity < n then
    throw (.runtimeError s!"tensor-parallel payload exceeds shared-memory capacity: {n} bytes for {capacity}-byte capacity")
  let header ← packHeader n
  pure (header ++ data)

def decodePayload (p : Pickle) (bytes : Bytes) : Except Raised CallFrame :=
  match p.loads bytes with
  | none => .error (.runtimeError "could not deserialize tensor-parallel payload")
  | some .other => .error (.runtimeError "invalid tensor-parallel call payload")
  | some (.call frame) => .ok frame

/-- Where a worker stands in `loop`. `header` and `payload` hold the bytes of the buffer
copied so far, `clearing` the outcome that `read_shm` returns after its `finally`. -/
inductive WorkerPhase
  | waiting
  | header (seen : Bytes)
  | payload (n : Nat) (seen : Bytes)
  | clearing (outcome : Except Raised CallFrame)
  | loaded (frame : CallFrame)
  | executing (frame : CallFrame)
  | stopped
  | raised (error : Raised)

structure TpWorker where
  phase : WorkerPhase
  /-- History: the calls entered. -/
  executed : List CallFrame

/-- The checks of `read_shm` on a copied header. -/
def checkHeader (bufferSize : Nat) (header : Bytes) : WorkerPhase :=
  let (magic, n) := unpackHeader header
  let capacity := bufferSize - tpShmHeaderSize
  if magic ≠ tpShmMagic then
    .clearing (.error (.runtimeError "invalid tensor-parallel shared-memory header"))
  else if n = 0 ∨ capacity < n then
    .clearing (.error (.runtimeError s!"invalid tensor-parallel payload length: {n} bytes for {capacity}-byte capacity"))
  else .payload n []

/-- The next step of a worker, with its event; `none` while it cannot move. -/
def TpWorker.step (p : Pickle) (buffer : Bytes) (event : Bool) (w : TpWorker) :
    Option (Bool × TpWorker) :=
  match w.phase with
  | .waiting => if event then some (event, { w with phase := .header [] }) else none
  | .header seen =>
    if buffer.length < tpShmHeaderSize then
      some (event, { w with phase := .clearing (.error (.runtimeError
        "tensor-parallel shared-memory buffer is smaller than its header")) })
    else
      match (buffer.take tpShmHeaderSize)[seen.length]? with
      | some byte => some (event, { w with phase := .header (seen ++ [byte]) })
      | none => some (event, { w with phase := checkHeader buffer.length seen })
  | .payload n seen =>
    match ((buffer.drop tpShmHeaderSize).take n)[seen.length]? with
    | some byte => some (event, { w with phase := .payload n (seen ++ [byte]) })
    | none => some (event, { w with phase := .clearing (decodePayload p seen) })
  | .clearing (.ok frame) => some (false, { w with phase := .loaded frame })
  | .clearing (.error e) => some (false, { w with phase := .raised e })
  | .loaded frame => some (event, ⟨.executing frame, w.executed ++ [frame]⟩)
  | .executing frame =>
    some (event, { w with phase := if frame.method = "exit" then .stopped else .waiting })
  | .stopped => none
  | .raised _ => none

/-- Where rank zero stands in `call`. -/
inductive LeaderPhase
  | idle
  | writing (call : CallFrame) (image : Bytes) (pos : Nat)
  | signalling (call : CallFrame) (next : Nat)
  | executing (call : CallFrame)

/-- Rank zero, its shared buffer and `n` workers with their events. -/
structure TpGroup (n : Nat) where
  /-- The calls rank zero has still to make. -/
  script : List CallFrame
  leader : LeaderPhase
  buffer : Bytes
  event : Fin n → Bool
  worker : Fin n → TpWorker
  /-- History: the calls whose frames were written. -/
  published : List CallFrame
  /-- History: what calls raised instead of writing. -/
  raised : List Raised

namespace TpGroup

variable {n : Nat}

def init (n : Nat) (buffer : Bytes) (script : List CallFrame) : TpGroup n where
  script := script
  leader := .idle
  buffer := buffer
  event := fun _ => false
  worker := fun _ => ⟨.waiting, []⟩
  published := []
  raised := []

def Entered (s : TpGroup n) : Prop :=
  ∀ i, s.published.length ≤ (s.worker i).executed.length

instance (s : TpGroup n) : Decidable s.Entered := by
  unfold Entered
  infer_instance

/-- The next step of rank zero. A method with collectives returns only after every worker has entered
them; across ranks the engine calls `run`, which has them, and `exit`. -/
def leaderStep (p : Pickle) (collective : String → Bool) (s : TpGroup n) : Option (TpGroup n) :=
  match s.leader with
  | .idle =>
    match s.script with
    | [] => none
    | call :: script =>
      match encodeCall p s.buffer.length call with
      | .error e => some { s with script := script, raised := s.raised ++ [e] }
      | .ok image => some { s with
          script := script
          leader := .writing call image 0
          published := s.published ++ [call] }
  | .writing call image pos =>
    match image[pos]? with
    | some byte => some { s with
        buffer := s.buffer.set pos byte
        leader := .writing call image (pos + 1) }
    | none => some { s with leader := .signalling call 0 }
  | .signalling call next =>
    if h : next < n then
      some { s with
        event := Function.update s.event ⟨next, h⟩ true
        leader := .signalling call (next + 1) }
    else some { s with leader := .executing call }
  | .executing call =>
    if collective call.method ∧ ¬ s.Entered then none else some { s with leader := .idle }

def setWorker (s : TpGroup n) (i : Fin n) (event : Bool) (w : TpWorker) : TpGroup n :=
  { s with
    event := Function.update s.event i event
    worker := Function.update s.worker i w }

/-- One step of any process. -/
inductive Step (p : Pickle) (collective : String → Bool) : TpGroup n → TpGroup n → Prop
  | leader {s t : TpGroup n} : s.leaderStep p collective = some t → Step p collective s t
  | worker {s : TpGroup n} (i : Fin n) {event : Bool} {w : TpWorker} :
      (s.worker i).step p s.buffer (s.event i) = some (event, w) →
        Step p collective s (s.setWorker i event w)

end TpGroup

end NanoVllm
