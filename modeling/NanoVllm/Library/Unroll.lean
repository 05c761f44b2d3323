/- module: NanoVllm/Library/Unroll
   layer: library
   digest: Extending a word list by its next word until a stop word or the end of a budget. -/

import Mathlib.Data.List.Basic
import Mathlib.Tactic.Common

set_option autoImplicit false
set_option relaxedAutoImplicit false

namespace NanoVllm.Library

variable {τ : Type} (next : List τ → τ) (stop : τ → Bool)

/-- `words` and at most `n + 1` words more, each the next one behind the list so far; a stop
word is the last. -/
def unroll : Nat → List τ → List τ
  | 0, words => words ++ [next words]
  | n + 1, words =>
    if stop (next words) then words ++ [next words] else unroll n (words ++ [next words])

theorem unroll_last {n : Nat} {words : List τ} (h : n = 0 ∨ stop (next words) = true) :
    unroll next stop n words = words ++ [next words] := by
  cases n with
  | zero => rfl
  | succ n =>
    have hstop : stop (next words) = true := by
      rcases h with h | h
      · exact absurd h (Nat.succ_ne_zero n)
      · exact h
    exact if_pos hstop

theorem unroll_next {n : Nat} {words : List τ} (h : stop (next words) = false) :
    unroll next stop (n + 1) words = unroll next stop n (words ++ [next words]) := by
  refine if_neg ?_
  rw [h]
  exact Bool.false_ne_true

theorem prefix_unroll : ∀ (n : Nat) (words : List τ), words <+: unroll next stop n words
  | 0, words => List.prefix_append _ _
  | n + 1, words => by
    unfold unroll
    split
    · exact List.prefix_append _ _
    · exact (List.prefix_append _ _).trans (prefix_unroll n _)

theorem unroll_congr {next' : List τ → τ} {n : Nat} {words : List τ}
    (h : ∀ more, next (words ++ more) = next' (words ++ more)) :
    unroll next stop n words = unroll next' stop n words := by
  have hfirst := h []
  rw [List.append_nil] at hfirst
  induction n generalizing words with
  | zero => exact congrArg (words ++ [·]) hfirst
  | succ n ih =>
    have hrest : unroll next stop n (words ++ [next words]) =
        unroll next' stop n (words ++ [next words]) :=
      ih (fun more => by rw [List.append_assoc]; exact h _) (h _)
    unfold unroll
    rw [hrest, hfirst]

def Follows : List τ → List τ → Prop
  | _, [] => True
  | words, word :: rest => word = next words ∧ Follows (words ++ [word]) rest

end NanoVllm.Library
