/- module: NanoVllm/Library/Call
   layer: library
   digest: Calls that raise after partial mutation, and the rules that step through them. -/

import Mathlib.Data.List.Forall2
import Mathlib.Logic.Function.Basic
import Mathlib.Tactic.Common

set_option autoImplicit false
set_option relaxedAutoImplicit false

namespace NanoVllm.Library

variable {ε σ α β : Type}

/-! A call either returns or raises. In both cases the caller sees the state the
call left behind: an exception does not undo the mutations made before it. -/

namespace Call

@[simp] theorem pure_apply (a : α) (s : σ) :
    (pure a : EStateM ε σ α) s = .ok a s := rfl

@[simp] theorem get_apply (s : σ) : (get : EStateM ε σ σ) s = .ok s s := rfl

@[simp] theorem set_apply (s t : σ) : (set t : EStateM ε σ PUnit) s = .ok ⟨⟩ t := rfl

@[simp] theorem modify_apply (f : σ → σ) (s : σ) :
    (modify f : EStateM ε σ PUnit) s = .ok ⟨⟩ (f s) := rfl

@[simp] theorem throw_apply (e : ε) (s : σ) :
    (throw e : EStateM ε σ α) s = .error e s := rfl

@[simp] theorem bind_apply (x : EStateM ε σ α) (k : α → EStateM ε σ β) (s : σ) :
    (x >>= k) s = match x s with
      | .ok a s' => k a s'
      | .error e s' => .error e s' := by
  change EStateM.bind x k s = _
  unfold EStateM.bind
  cases x s <;> rfl

@[simp] theorem map_apply (f : α → β) (x : EStateM ε σ α) (s : σ) :
    (f <$> x) s = match x s with
      | .ok a s' => .ok (f a) s'
      | .error e s' => .error e s' := by
  change EStateM.map f x s = _
  unfold EStateM.map
  cases x s <;> rfl

@[simp] theorem tryCatch_apply (x : EStateM ε σ α) (h : ε → EStateM ε σ α) (s : σ) :
    (tryCatch x h) s = match x s with
      | .ok a s' => .ok a s'
      | .error e s' => h e s' := by
  change EStateM.tryCatch x h s = _
  unfold EStateM.tryCatch
  cases x s <;> rfl

theorem bind_of_ok {x : EStateM ε σ α} {k : α → EStateM ε σ β} {s s' : σ} {a : α}
    (h : x s = .ok a s') : (x >>= k) s = k a s' := by
  rw [bind_apply, h]

theorem bind_of_error {x : EStateM ε σ α} {k : α → EStateM ε σ β} {s t : σ} {e : ε}
    (h : x s = .error e t) : (x >>= k) s = .error e t := by
  rw [bind_apply, h]

theorem tryCatch_of_ok {x : EStateM ε σ α} {h : ε → EStateM ε σ α} {s s' : σ} {a : α}
    (hx : x s = .ok a s') : (tryCatch x h) s = .ok a s' := by
  rw [tryCatch_apply, hx]

theorem tryCatch_of_error {x : EStateM ε σ α} {h : ε → EStateM ε σ α} {s t : σ} {e : ε}
    (hx : x s = .error e t) : (tryCatch x h) s = h e t := by
  rw [tryCatch_apply, hx]

/-- The state a call leaves behind, whether it returned or raised. -/
def after : EStateM.Result ε σ α → σ
  | .ok _ s => s
  | .error _ s => s

@[simp] theorem after_ok (a : α) (s : σ) :
    after (.ok a s : EStateM.Result ε σ α) = s := rfl

@[simp] theorem after_error (e : ε) (s : σ) :
    after (.error e s : EStateM.Result ε σ α) = s := rfl

def returned : EStateM.Result ε σ α → Option (α × σ)
  | .ok a s => some (a, s)
  | .error _ _ => none

theorem of_returned {r : EStateM.Result ε σ α} {p : α × σ → Bool}
    (h : (returned r).any p = true) : ∃ a s, r = .ok a s ∧ p (a, s) = true := by
  cases r with
  | ok a s => exact ⟨a, s, rfl, h⟩
  | error e s => exact absurd h Bool.false_ne_true

def Leaves (x : EStateM ε σ α) (s : σ) (Q : σ → Prop) : Prop := Q (after (x s))

theorem Leaves.bind {x : EStateM ε σ α} {k : α → EStateM ε σ β} {s : σ} {Q : σ → Prop}
    (hx : Leaves x s Q) (hk : ∀ a s', x s = .ok a s' → Q s' → Leaves (k a) s' Q) :
    Leaves (x >>= k) s Q := by
  unfold Leaves at hx ⊢
  rw [bind_apply]
  cases h : x s with
  | ok a s' =>
    rw [h] at hx
    exact hk a s' h hx
  | error e s' =>
    rw [h] at hx
    exact hx

def Keeps (P : σ → Prop) (x : EStateM ε σ α) : Prop := ∀ s, P s → Leaves x s P

section Keeps

variable {P : σ → Prop} {x : EStateM ε σ α}

theorem Keeps.bind {k : α → EStateM ε σ β} (hx : Keeps P x) (hk : ∀ a, Keeps P (k a)) :
    Keeps P (x >>= k) :=
  fun s hs => (hx s hs).bind fun a t _ ht => hk a t ht

theorem Keeps.get_bind {k : σ → EStateM ε σ β} (hk : ∀ a, P a → Keeps P (k a)) :
    Keeps P (get >>= k) := by
  intro s hs
  unfold Leaves
  rw [bind_of_ok (get_apply s)]
  exact hk s hs s hs

theorem Keeps.tryCatch {h : ε → EStateM ε σ α} (hx : Keeps P x) (hh : ∀ e, Keeps P (h e)) :
    Keeps P (tryCatch x h) := by
  intro s hs
  unfold Leaves
  have hafter := hx s hs
  unfold Leaves at hafter
  rw [tryCatch_apply]
  cases hres : x s with
  | ok a t =>
    rw [hres] at hafter
    exact hafter
  | error e t =>
    rw [hres] at hafter
    exact hh e t hafter

theorem Keeps.throw_bind (e : ε) (k : β → EStateM ε σ α) :
    Keeps P ((MonadExcept.throw e : EStateM ε σ β) >>= k) :=
  fun _ hs => hs

theorem Keeps.guard {c : Prop} [Decidable c] {e : ε} {k : PUnit → EStateM ε σ α}
    (hk : Keeps P (k ⟨⟩)) : Keeps P (if c then (MonadExcept.throw e : EStateM ε σ PUnit) >>= k else k ⟨⟩) := by
  split
  · exact throw_bind e k
  · exact hk

theorem Keeps.pure (a : α) : Keeps P (pure a : EStateM ε σ α) := fun _ hs => hs

theorem Keeps.throw (e : ε) : Keeps P (throw e : EStateM ε σ α) := fun _ hs => hs

theorem Keeps.modify {f : σ → σ} (hf : ∀ s, P s → P (f s)) :
    Keeps P (modify f : EStateM ε σ PUnit) := hf

theorem Keeps.set {t : σ} (ht : P t) : Keeps P (set t : EStateM ε σ PUnit) := fun _ _ => ht

end Keeps

theorem except_bind_ok {x : Except ε α} {k : α → Except ε β} {b : β}
    (h : (x >>= k) = .ok b) : ∃ a, x = .ok a ∧ k a = .ok b := by
  cases x with
  | ok a => exact ⟨a, rfl, h⟩
  | error e => exact absurd h (by simp [bind, Except.bind])

theorem except_guard {c : Prop} [Decidable c] {e : ε} {k : β → Except ε α} {rest : Except ε α}
    {a : α} (h : (if c then (throw e >>= k) else rest) = .ok a) : ¬ c ∧ rest = .ok a := by
  by_cases hc : c
  · rw [if_pos hc] at h
    exact absurd h (by simp [bind, Except.bind, throw, throwThe, MonadExceptOf.throw])
  · rw [if_neg hc] at h
    exact ⟨hc, h⟩

theorem except_guard_of_not {c : Prop} [Decidable c] {e : ε} {k : β → Except ε α}
    {rest x : Except ε α} (hc : ¬ c) (h : rest = x) :
    (if c then (throw e >>= k) else rest) = x :=
  (if_neg hc).trans h

theorem except_bind_of_ok {x : Except ε α} {k : α → Except ε β} {a : α} (h : x = .ok a) :
    (x >>= k) = k a := by
  rw [h]
  rfl

theorem except_forM_of_ok {f : α → Except ε Unit} {l : List α} (h : ∀ a ∈ l, f a = .ok ⟨⟩) :
    l.forM f = .ok ⟨⟩ := by
  induction l with
  | nil => rfl
  | cons b l ih =>
    refine (except_bind_of_ok (h b List.mem_cons_self)).trans ?_
    exact ih fun a ha => h a (List.mem_cons_of_mem b ha)

theorem except_mapM_of_ok {f : α → Except ε β} {g : α → β} {l : List α}
    (h : ∀ a ∈ l, f a = .ok (g a)) : l.mapM f = .ok (l.map g) := by
  induction l with
  | nil => rfl
  | cons a l ih =>
    rw [List.mapM_cons, h a List.mem_cons_self, ih fun b hb => h b (List.mem_cons_of_mem a hb)]
    rfl

theorem except_mapM_ok {f : α → Except ε β} {l : List α} : ∀ {l' : List β}, l.mapM f = .ok l' →
    List.Forall₂ (fun a b => f a = .ok b) l l' := by
  induction l with
  | nil =>
    intro l' h
    obtain rfl := Except.ok.inj h
    exact .nil
  | cons a l ih =>
    intro l' h
    rw [List.mapM_cons] at h
    obtain ⟨b, hb, h⟩ := except_bind_ok h
    obtain ⟨rest, hrest, h⟩ := except_bind_ok h
    obtain rfl := Except.ok.inj h
    exact .cons hb (ih hrest)

theorem except_mapM_of_forall₂ {f : α → Except ε β} {l : List α} {l' : List β}
    (h : List.Forall₂ (fun a b => f a = .ok b) l l') : l.mapM f = .ok l' := by
  induction h with
  | nil => rfl
  | cons hfirst _ ih =>
    rw [List.mapM_cons, hfirst, ih]
    rfl

theorem except_mapM_mem {f : α → Except ε β} {l : List α} {l' : List β} {b : β}
    (h : l.mapM f = .ok l') (hb : b ∈ l') : ∃ a ∈ l, f a = .ok b := by
  have hall := except_mapM_ok h
  clear h
  induction hall with
  | nil => exact absurd hb List.not_mem_nil
  | @cons a first l l' hfirst hrest ih =>
    rcases List.mem_cons.mp hb with rfl | hmem
    · exact ⟨a, List.mem_cons_self, hfirst⟩
    · obtain ⟨c, hc, hfc⟩ := ih hmem
      exact ⟨c, List.mem_cons_of_mem a hc, hfc⟩

theorem except_forM_ok {f : α → Except ε Unit} : ∀ {l : List α}, l.forM f = .ok ⟨⟩ →
    ∀ a ∈ l, f a = .ok ⟨⟩ := by
  intro l
  induction l with
  | nil => simp
  | cons b l ih =>
    intro h a ha
    obtain ⟨⟨⟩, hb, h⟩ := except_bind_ok h
    rcases List.mem_cons.mp ha with rfl | ha
    · exact hb
    · exact ih h a ha

theorem bind_ok {x : EStateM ε σ α} {k : α → EStateM ε σ β} {s t : σ} {b : β}
    (h : (x >>= k) s = .ok b t) : ∃ a s', x s = .ok a s' ∧ k a s' = .ok b t := by
  rw [bind_apply] at h
  cases hx : x s with
  | ok a s' => exact ⟨a, s', rfl, by simpa [hx] using h⟩
  | error e s' => simp [hx] at h

theorem forall₂_of_mapM_some {f : α → Option β} : ∀ {l : List α} {l' : List β},
    l.mapM f = some l' → List.Forall₂ (fun a b => f a = some b) l l' := by
  intro l
  induction l with
  | nil =>
    intro l' h
    rw [List.mapM_nil] at h
    rw [← Option.some.inj h]
    exact .nil
  | cons a l ih =>
    intro l' h
    rw [List.mapM_cons] at h
    obtain ⟨b, hb, h⟩ := Option.bind_eq_some_iff.mp h
    obtain ⟨bs, hbs, h⟩ := Option.bind_eq_some_iff.mp h
    rw [← Option.some.inj h]
    exact .cons hb (ih hbs)

theorem forall₂_exists_left {R : α → β → Prop} {l : List α} {l' : List β}
    (h : List.Forall₂ R l l') {b : β} (hb : b ∈ l') : ∃ a ∈ l, R a b := by
  induction h with
  | nil => exact absurd hb (by simp)
  | cons hr _ ih =>
    rcases List.mem_cons.mp hb with rfl | hb
    · exact ⟨_, by simp, hr⟩
    · obtain ⟨a, ha, hab⟩ := ih hb
      exact ⟨a, List.mem_cons_of_mem _ ha, hab⟩

end Call

end NanoVllm.Library
