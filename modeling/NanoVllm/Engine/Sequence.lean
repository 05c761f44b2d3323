/- module: NanoVllm/Engine/Sequence
   layer: source
   source: nanovllm/config.py, nanovllm/engine/sequence.py, BlockManager.compute_hash
   digest: Engine configuration, request state and the block digest. -/

import Mathlib.Data.List.Basic
import Mathlib.Logic.Equiv.List
import Mathlib.Tactic.Common

set_option autoImplicit false
set_option relaxedAutoImplicit false

namespace NanoVllm

/-- The settings the scheduler, the allocator and admission read. The last fields
are checks of `Config.__post_init__`; it asks for block sizes that are multiples
of 256, of which only `2 ≤ kvcacheBlockSize` is used. -/
structure Config where
  maxNumSeqs : Nat
  maxNumBatchedTokens : Nat
  maxModelLen : Nat
  /-- The configuration default is -1, which no token equals. -/
  eos : Int
  kvcacheBlockSize : Nat
  numKvcacheBlocks : Nat
  configuredK : Nat
  vocabSize : Option Nat
  /-- `xxhash.xxh64`, on the 8-byte words its `update` calls append. -/
  xxh64 : List Nat → Nat
  maxNumSeqs_pos : 0 < maxNumSeqs
  maxNumSeqs_le : maxNumSeqs ≤ maxNumBatchedTokens
  blockSize_ge : 2 ≤ kvcacheBlockSize

namespace Config

def speculationEnabled (cfg : Config) : Bool := decide (0 < cfg.configuredK)

/-- `BlockManager.compute_hash`; `none` is the source's -1. -/
def computeHash (cfg : Config) (tokenIds : List Nat) (parent : Option Nat) : Nat :=
  cfg.xxh64 (parent.toList ++ tokenIds)

/-- No two word lists share a digest. -/
def CollisionFree (cfg : Config) : Prop := Function.Injective cfg.xxh64

/-- Four blocks of two tokens, two requests, two proposals a step. -/
def sample : Config where
  maxNumSeqs := 2
  maxNumBatchedTokens := 8
  maxModelLen := 8
  eos := -1
  kvcacheBlockSize := 2
  numKvcacheBlocks := 4
  configuredK := 2
  vocabSize := some 16
  xxh64 := Encodable.encode
  maxNumSeqs_pos := by decide
  maxNumSeqs_le := by decide
  blockSize_ge := by decide

theorem sample_collisionFree : sample.CollisionFree := Encodable.encode_injective

def roomy : Config :=
  { sample with
    numKvcacheBlocks := 6
    maxNumBatchedTokens := 16
    maxNumSeqs_le := by decide }

end Config

/-- What a modelled call raises. `external` is an exception of code outside the
scheduler (routes, policy, model runner); `injected` is one raised at an armed
failure point; `outOfFuel` marks a loop bound that is never reached. -/
inductive Raised
  | valueError (message : String)
  | runtimeError (message : String)
  | schedulerCapacityError (requested available capacity : Nat)
  | speculativeMemoryPlanningError (message : String)
  | indexError
  | keyError
  | assertionError
  | external (message : String)
  | injected
  | outOfFuel
  deriving DecidableEq, Repr

inductive SequenceStatus
  | waiting | running | finished | cancelled
  deriving DecidableEq, Repr

structure StreamOutput where
  seqId : Nat
  tokenId : Nat
  finished : Bool
  deriving DecidableEq, Repr

/-- `num_tokens` and `last_token` are read off `tokenIds`: the constructor and
`append_token` keep them equal to its length and its last entry. -/
structure Sequence where
  status : SequenceStatus
  tokenIds : List Nat
  numPromptTokens : Nat
  numCachedTokens : Nat
  numDraftCachedTokens : Nat
  numScheduledTokens : Nat
  isPrefill : Bool
  blockTable : List Nat
  maxTokens : Nat
  ignoreEos : Bool
  deriving DecidableEq, Repr

namespace Sequence

/-- `Sequence.__init__` after its empty-prompt check. -/
def new (tokenIds : List Nat) (maxTokens : Nat) (ignoreEos : Bool) : Sequence where
  status := .waiting
  tokenIds := tokenIds
  numPromptTokens := tokenIds.length
  numCachedTokens := 0
  numDraftCachedTokens := 0
  numScheduledTokens := 0
  isPrefill := true
  blockTable := []
  maxTokens := maxTokens
  ignoreEos := ignoreEos

variable (cfg : Config) (seq : Sequence)

def numTokens : Nat := seq.tokenIds.length

def numCompletionTokens : Nat := seq.numTokens - seq.numPromptTokens

def lastToken : Nat := seq.tokenIds.getLastD 0

def numBlocks : Nat := (seq.numTokens + cfg.kvcacheBlockSize - 1) / cfg.kvcacheBlockSize

/-- `seq.block(i)` without its range assertion. -/
def block (i : Nat) : List Nat :=
  (seq.tokenIds.drop (i * cfg.kvcacheBlockSize)).take cfg.kvcacheBlockSize

def appendToken (tokenId : Nat) : Sequence :=
  { seq with tokenIds := seq.tokenIds ++ [tokenId] }

end Sequence

end NanoVllm
