/- module: NanoVllm/Library/ChainDigest
   layer: library
   digest: Digests of word blocks chained through the digest of their predecessors. -/

import Mathlib.Data.List.Basic
import Mathlib.Data.Set.Function
import Mathlib.Logic.Function.Basic
import Mathlib.Tactic.Common

set_option autoImplicit false
set_option relaxedAutoImplicit false

namespace NanoVllm.Library

variable {ω : Type}

/-- The digest of a chain of blocks, newest first. Each block is digested behind
the digest of the chain before it; the empty chain has none. -/
def chainDigest (digest : List ω → ω) : List (List ω) → Option ω
  | [] => none
  | block :: older => some (digest ((chainDigest digest older).toList ++ block))

def chainWords (digest : List ω → ω) : List (List ω) → List (List ω)
  | [] => []
  | block :: older => ((chainDigest digest older).toList ++ block) :: chainWords digest older

/-- With a digest that is injective on what it digests and blocks of one length, the chain
is read back from its digest. -/
theorem chainDigest_injOn {digest : List ω → ω} {hashed : Set (List ω)}
    (hinj : Set.InjOn digest hashed) {n : Nat} {as bs : List (List ω)}
    (has : ∀ a ∈ as, a.length = n) (hbs : ∀ b ∈ bs, b.length = n)
    (hasWords : ∀ w ∈ chainWords digest as, w ∈ hashed)
    (hbsWords : ∀ w ∈ chainWords digest bs, w ∈ hashed)
    (h : chainDigest digest as = chainDigest digest bs) : as = bs := by
  induction as generalizing bs with
  | nil =>
    cases bs with
    | nil => rfl
    | cons b bs => simp [chainDigest] at h
  | cons a as ih =>
    cases bs with
    | nil => simp [chainDigest] at h
    | cons b bs =>
      have hwords : (chainDigest digest as).toList ++ a = (chainDigest digest bs).toList ++ b :=
        hinj (hasWords _ (by simp [chainWords])) (hbsWords _ (by simp [chainWords]))
          (Option.some.inj h)
      have hlen : a.length = b.length := by
        rw [has a (by simp), hbs b (by simp)]
      obtain ⟨hparent, hab⟩ := List.append_inj' hwords hlen
      have holder : chainDigest digest as = chainDigest digest bs := by
        have hhead := congrArg List.head? hparent
        simpa using hhead
      have hrest : as = bs := ih (fun c hc => has c (by simp [hc])) (fun c hc => hbs c (by simp [hc]))
        (fun w hw => hasWords w (by simp [chainWords, hw]))
        (fun w hw => hbsWords w (by simp [chainWords, hw])) holder
      rw [hab, hrest]

variable (size : Nat) (words : List ω)

def blockOf (i : Nat) : List ω := (words.drop (i * size)).take size

def blocksBelow : Nat → List (List ω)
  | 0 => []
  | k + 1 => blockOf size words k :: blocksBelow k

@[simp] theorem blocksBelow_length (k : Nat) : (blocksBelow size words k).length = k := by
  induction k with
  | zero => rfl
  | succ k ih => simp [blocksBelow, ih]

variable {size words}

theorem blockOf_length {i : Nat} (h : (i + 1) * size ≤ words.length) :
    (blockOf size words i).length = size := by
  rw [Nat.succ_mul] at h
  rw [blockOf, List.length_take, List.length_drop]
  omega

theorem blocksBelow_full {k : Nat} (h : k * size ≤ words.length) :
    ∀ b ∈ blocksBelow size words k, b.length = size := by
  induction k with
  | zero => simp [blocksBelow]
  | succ k ih =>
    intro b hb
    rcases List.mem_cons.mp hb with rfl | hb
    · exact blockOf_length h
    · have hle : k * size ≤ words.length := by
        rw [Nat.succ_mul] at h
        omega
      exact ih hle b hb

theorem chainWords_blocksBelow {digest : List ω → ω} {i k : Nat} (h : i ≤ k) :
    ∀ w ∈ chainWords digest (blocksBelow size words i),
      w ∈ chainWords digest (blocksBelow size words k) := by
  induction k with
  | zero =>
    obtain rfl := Nat.le_zero.mp h
    exact fun _ hw => hw
  | succ k ih =>
    rcases Nat.lt_or_eq_of_le h with hlt | rfl
    · exact fun w hw => List.mem_cons_of_mem _ (ih (Nat.le_of_lt_succ hlt) w hw)
    · exact fun _ hw => hw

theorem take_succ_mul (k : Nat) :
    words.take ((k + 1) * size) = words.take (k * size) ++ blockOf size words k := by
  rw [Nat.succ_mul, List.take_add, blockOf]

theorem take_eq_of_blocksBelow_eq {words' : List ω} {k : Nat}
    (h : blocksBelow size words k = blocksBelow size words' k) :
    words.take (k * size) = words'.take (k * size) := by
  induction k with
  | zero => simp
  | succ k ih =>
    obtain ⟨hblock, hbelow⟩ := List.cons.inj h
    rw [take_succ_mul, take_succ_mul, ih hbelow, hblock]

theorem blockOf_congr {words' : List ω} {i k : Nat}
    (h : words.take (k * size) = words'.take (k * size)) (hi : i < k) :
    blockOf size words i = blockOf size words' i := by
  have hle : (i + 1) * size ≤ k * size := Nat.mul_le_mul_right size hi
  have htake : ∀ l : List ω, blockOf size l i = ((l.take (k * size)).drop (i * size)).take size := by
    intro l
    rw [Nat.succ_mul] at hle
    rw [blockOf, List.drop_take, List.take_take, Nat.min_eq_left (by omega)]
  rw [htake, htake, h]

theorem blocksBelow_congr {words' : List ω} {i k : Nat}
    (h : words.take (k * size) = words'.take (k * size)) (hi : i ≤ k) :
    blocksBelow size words i = blocksBelow size words' i := by
  induction i with
  | zero => rfl
  | succ i ih =>
    rw [blocksBelow, blocksBelow, blockOf_congr h hi, ih (Nat.le_of_succ_le hi)]

end NanoVllm.Library
