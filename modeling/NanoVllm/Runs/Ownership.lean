/- module: NanoVllm/Runs/Ownership
   layer: main result
   source: nanovllm/engine/block_manager.py and the public operations of Scheduler
   digest: Block ownership holds after every sequence of scheduler calls. -/

import NanoVllm.Content.Hashes

set_option autoImplicit false
set_option relaxedAutoImplicit false

namespace NanoVllm

variable {cfg : Config} {s : State} {x : Nat}

/-- The state a sequence of calls leaves, from an empty scheduler. -/
def runOps (cfg : Config) (ops : List Op) : State :=
  ops.foldl (fun s op => op.apply cfg s) (State.init cfg)

private theorem runOps_eq (cfg : Config) (ops : List Op) :
    runOps cfg ops = runTurns cfg (ops.map Turn.call) := by
  rw [runTurns, List.foldl_map]
  rfl

/-- The first `n` full blocks of a token list have pairwise different chained digests. -/
def DigestsDiffer (cfg : Config) (tokenIds : List Nat) (n : Nat) : Prop :=
  ∀ i j, i < n → j < n → chainHash cfg tokenIds (i + 1) = chainHash cfg tokenIds (j + 1) → i = j

private theorem Hashed.table_nodup (h : Hashed cfg s) (hown : Owns cfg s)
    (hx : x ∈ s.running ++ s.waiting)
    (hdiffer : DigestsDiffer cfg (s.seqs x).tokenIds (s.coverage cfg x)) : (s.table x).Nodup := by
  rw [List.nodup_iff_getElem?_ne_getElem?]
  intro i j hij hj heq
  have hb : (s.table x)[j]? = some (s.table x)[j] := List.getElem?_eq_getElem hj
  rw [hb] at heq
  by_cases hcov : j < s.coverage cfg x
  · have hi := h.chained x hx i _ (hij.trans hcov) heq
    have hlast := h.chained x hx j _ hcov hb
    have := hdiffer i j (hij.trans hcov) hcov (hi.hash.symm.trans hlast.hash)
    omega
  · have := (uncovered_place hown hx (not_lt.mp hcov) hb hx heq).2
    omega

/-- Every sequence of scheduler calls leaves the pool exactly owned by the live tables, a table
repeats a block only under two equal digests of its own row, and an empty scheduler leaves the
whole pool free. -/
theorem ownership_of_runOps (cfg : Config) (ops : List Op) :
    Owned cfg (runOps cfg ops) ∧
      (∀ x ∈ (runOps cfg ops).running ++ (runOps cfg ops).waiting,
        DigestsDiffer cfg ((runOps cfg ops).seqs x).tokenIds
          (((runOps cfg ops).seqs x).numCachedTokens / cfg.kvcacheBlockSize) →
            ((runOps cfg ops).seqs x).blockTable.Nodup) ∧
      ((runOps cfg ops).running = [] → (runOps cfg ops).waiting = [] →
        ∀ b < cfg.numKvcacheBlocks, b ∈ (runOps cfg ops).freeBlockIds ∧
          ((runOps cfg ops).blocks b).refCount = 0) := by
  have hhashed := hashed_runTurns cfg (ops.map Turn.call)
  have hcore := (Protocol.runTurns cfg (ops.map Turn.call)).core
  rw [← runOps_eq] at hhashed hcore
  refine ⟨hcore.owned, fun x hx hdiffer => ?_, fun hrun hwait b hb => ?_⟩
  · exact hhashed.table_nodup hcore.owns hx hdiffer
  · exact hcore.owned.drained hrun hwait hb

namespace Xxh64

/-! The digest of `xxhash.xxh64()` over words of 8 bytes, with seed 0. -/

def prime1 : Nat := 11400714785074694791
def prime2 : Nat := 14029467366897019727
def prime3 : Nat := 1609587929392839161
def prime4 : Nat := 9650029242287828579
def prime5 : Nat := 2870177450012600261

def rotate (word bits : Nat) : Nat := word * 2 ^ bits % 2 ^ 64 + word / 2 ^ (64 - bits)

def round (lane word : Nat) : Nat :=
  rotate ((lane + word * prime2) % 2 ^ 64) 31 * prime1 % 2 ^ 64

def merge (digest lane : Nat) : Nat :=
  ((digest ^^^ round 0 lane) * prime1 + prime4) % 2 ^ 64

def word (digest word : Nat) : Nat :=
  (rotate (digest ^^^ round 0 word) 27 * prime1 + prime4) % 2 ^ 64

def avalanche (digest : Nat) : Nat :=
  let first := (digest ^^^ (digest / 2 ^ 33)) * prime2 % 2 ^ 64
  let second := (first ^^^ (first / 2 ^ 29)) * prime3 % 2 ^ 64
  second ^^^ (second / 2 ^ 32)

def stripes (a b c d : Nat) : List Nat → (Nat × Nat × Nat × Nat) × List Nat
  | w₀ :: w₁ :: w₂ :: w₃ :: rest => stripes (round a w₀) (round b w₁) (round c w₂) (round d w₃) rest
  | rest => ((a, b, c, d), rest)

def digest (words : List Nat) : Nat :=
  let length := 8 * words.length
  let striped := stripes ((prime1 + prime2) % 2 ^ 64) prime2 0 (2 ^ 64 - prime1) words
  let (a, b, c, d) := striped.1
  let start := if length < 32 then prime5 else
    let joined := (rotate a 1 + rotate b 7 + rotate c 12 + rotate d 18) % 2 ^ 64
    [a, b, c, d].foldl merge joined
  avalanche (striped.2.foldl word ((start + length) % 2 ^ 64))

end Xxh64

example : Xxh64.digest [] = 0xEF46DB3751D8E999 := by decide +kernel

/-- The sample pool under the digest that the package computes. -/
def Config.hashing : Config := { Config.sample with vocabSize := none, xxh64 := Xxh64.digest }

def repeatedOps : List Op :=
  [.add [16, 2714613518493327716, 5] 3 true, .schedule, .postprocess [0] [6],
    .add [16, 2714613518493327716, 16, 2714613518493327716, 7] 3 true, .schedule]

/-- Both blocks of the second prompt are found at block 0. -/
theorem table_repeats_block :
    ¬ ∀ ops : List Op, ∀ x ∈ (runOps Config.hashing ops).running ++
      (runOps Config.hashing ops).waiting, ((runOps Config.hashing ops).seqs x).blockTable.Nodup := by
  intro h
  have htable : ((runOps Config.hashing repeatedOps).seqs 1).blockTable = [0, 0, 2] := by
    decide +kernel
  have hnodup := h repeatedOps 1 (by decide +kernel)
  rw [htable] at hnodup
  exact absurd hnodup (by decide)

end NanoVllm
