/- module: NanoVllm/Library/Steps
   layer: library
   source: none
   digest: Counted runs of a step relation: invariants and bounded length. -/

set_option autoImplicit false
set_option relaxedAutoImplicit false

namespace NanoVllm.Library

variable {σ : Type} {step : σ → σ → Prop} {s t u : σ} {n m : Nat}

/-- `t` is reached from `s` in exactly `n` steps. -/
inductive Steps (step : σ → σ → Prop) : Nat → σ → σ → Prop
  | refl (s : σ) : Steps step 0 s s
  | tail {n : Nat} {s t u : σ} : Steps step n s t → step t u → Steps step (n + 1) s u

namespace Steps

theorem invariant {I : σ → Prop} (hstep : ∀ s t, I s → step s t → I t)
    (h : Steps step n s t) (hs : I s) : I t := by
  induction h with
  | refl s => exact hs
  | tail _ hlast ih => exact hstep _ _ (ih hs) hlast

/-- A measure that every step of an invariant set decreases bounds the length of its runs. -/
theorem bounded {I : σ → Prop} {μ : σ → Nat} (hstep : ∀ s t, I s → step s t → I t)
    (hlt : ∀ s t, I s → step s t → μ t < μ s) (h : Steps step n s t) (hs : I s) :
    n + μ t ≤ μ s := by
  induction h with
  | refl s => omega
  | tail hrun hlast ih =>
    have hmid := ih hs
    have hdrop := hlt _ _ (hrun.invariant hstep hs) hlast
    omega

theorem exists_blocked {bound : Nat} (h : ∀ m t, Steps step m s t → m ≤ bound) :
    ∃ m t, Steps step m s t ∧ ∀ u, ¬ step t u := by
  refine Classical.byContradiction fun hnone => ?_
  have hlong : ∀ m, ∃ t, Steps step m s t := by
    intro m
    induction m with
    | zero => exact ⟨s, .refl s⟩
    | succ m ih =>
      obtain ⟨t, ht⟩ := ih
      by_cases hmove : ∃ u, step t u
      · obtain ⟨u, hu⟩ := hmove
        exact ⟨u, ht.tail hu⟩
      · exact absurd ⟨m, t, ht, fun u hu => hmove ⟨u, hu⟩⟩ hnone
  obtain ⟨t, ht⟩ := hlong (bound + 1)
  exact absurd (h _ t ht) (by omega)

end Steps

end NanoVllm.Library
