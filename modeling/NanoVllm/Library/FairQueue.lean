/- module: NanoVllm/Library/FairQueue
   layer: library
   source: none
   digest: A waiting queue with preemption to the tail serves tickets in order. -/

import Mathlib.Data.List.Nodup
import Mathlib.Data.List.Pairwise
import Mathlib.Data.List.Sublists
import Mathlib.Order.Lattice

set_option autoImplicit false
set_option relaxedAutoImplicit false

namespace NanoVllm.Library

/-- What happens to tickets. A preemption records who was waiting at that moment. -/
inductive QueueEvent (α : Type)
  | admitted (a : α)
  | scheduled (a : α)
  | preempted (a : α) (waiting : List α)
  | cancelled (a : α)
  deriving DecidableEq, Repr

/-- The waiting queue, the tickets in service and the ticket at the head of the queue that
has been served in part. -/
structure QueueView (α : Type) where
  history : List (QueueEvent α)
  waiting : List α
  active : List α
  mid : Option α

variable {α : Type}

/-- `a` has been scheduled or cancelled in `events`. -/
def Served (a : α) (events : List (QueueEvent α)) : Prop :=
  .scheduled a ∈ events ∨ .cancelled a ∈ events

theorem Served.append {a : α} {events : List (QueueEvent α)} (h : Served a events)
    (more : List (QueueEvent α)) : Served a (events ++ more) :=
  h.imp (List.mem_append_left _) (List.mem_append_left _)

inductive QueueMove [LinearOrder α] : QueueView α → QueueView α → Prop
  | enter {H : List (QueueEvent α)} {w act : List α} {mid : Option α} {x : α}
      (hnew : ∀ a, .admitted a ∈ H → a < x) :
      QueueMove ⟨H, w, act, mid⟩ ⟨H ++ [.admitted x], w ++ [x], act, mid⟩
  /-- The head is served to its end. -/
  | join {H : List (QueueEvent α)} {rest act act' : List α} {mid : Option α} {x : α}
      (hact : act'.Perm (x :: act)) :
      QueueMove ⟨H, x :: rest, act, mid⟩ ⟨H ++ [.scheduled x], rest, act', none⟩
  /-- The head is served in part. -/
  | chunk {H : List (QueueEvent α)} {rest act : List α} {mid : Option α} {x : α} :
      QueueMove ⟨H, x :: rest, act, mid⟩ ⟨H ++ [.scheduled x], x :: rest, act, some x⟩
  | again {H : List (QueueEvent α)} {w act : List α} {mid : Option α} {x : α} (hx : x ∈ act) :
      QueueMove ⟨H, w, act, mid⟩ ⟨H ++ [.scheduled x], w, act, mid⟩
  /-- A ticket in service goes to the tail; nobody is served in part then. -/
  | preempt {H : List (QueueEvent α)} {w act act' : List α} {x : α}
      (hact : act.Perm (x :: act')) :
      QueueMove ⟨H, w, act, none⟩ ⟨H ++ [.preempted x w], w ++ [x], act', none⟩
  /-- The partly served head goes to the tail. -/
  | preemptMid {H : List (QueueEvent α)} {rest act : List α} {x : α} :
      QueueMove ⟨H, x :: rest, act, some x⟩ ⟨H ++ [.preempted x rest], rest ++ [x], act, none⟩
  | cancel {H : List (QueueEvent α)} {w act : List α} {mid : Option α} {x : α}
      (hx : x ∈ act ++ w) :
      QueueMove ⟨H, w, act, mid⟩
        ⟨H ++ [.cancelled x], w.erase x, act.erase x, if mid = some x then none else mid⟩
  | retire {H : List (QueueEvent α)} {w act act' : List α} {mid : Option α}
      (hact : act'.Subperm act) : QueueMove ⟨H, w, act, mid⟩ ⟨H, w, act', mid⟩

structure Fair [LinearOrder α] (v : QueueView α) : Prop where
  nodup : (v.active ++ v.waiting).Nodup
  known : ∀ a ∈ v.active ++ v.waiting, .admitted a ∈ v.history ∧ .cancelled a ∉ v.history
  served_admitted : ∀ a, Served a v.history → .admitted a ∈ v.history
  active_scheduled : ∀ a ∈ v.active, .scheduled a ∈ v.history
  mid_scheduled : ∀ a, v.mid = some a → .scheduled a ∈ v.history
  mid_recent : ∀ a, v.mid = some a → ∀ pre p w post,
    v.history = pre ++ .preempted p w :: post → a ∈ w → .scheduled a ∈ post
  /-- A ticket not served yet waits. -/
  fresh_waiting : ∀ a, .admitted a ∈ v.history → ¬ Served a v.history → a ∈ v.waiting
  /-- Tickets that were never scheduled wait in order. -/
  sorted : v.waiting.Pairwise fun a b =>
    .scheduled a ∉ v.history → .scheduled b ∉ v.history → a < b
  /-- Those who waited at a preemption are served or still ahead. -/
  behind : ∀ pre p w post, v.history = pre ++ .preempted p w :: post → ¬ Served p post →
    ∀ a ∈ w, Served a post ∨ [a, p].Sublist v.waiting
  first_come : ∀ pre b post, v.history = pre ++ .scheduled b :: post →
    ∀ a < b, .admitted a ∈ v.history → Served a pre
  no_overtaking : ∀ pre p w mid post,
    v.history = pre ++ .preempted p w :: (mid ++ .scheduled p :: post) → ∀ a ∈ w, Served a mid

theorem split_concat {β : Type} {xs pre post : List β} {x y : β}
    (h : xs ++ [x] = pre ++ y :: post) :
    (pre = xs ∧ y = x ∧ post = []) ∨ ∃ post', post = post' ++ [x] ∧ xs = pre ++ y :: post' := by
  rcases List.eq_nil_or_concat post with rfl | ⟨post', z, rfl⟩
  · have hconcat := List.append_inj' h rfl
    exact Or.inl ⟨hconcat.1.symm, (List.singleton_inj.mp hconcat.2).symm, rfl⟩
  · rw [List.concat_eq_append, ← List.cons_append, ← List.append_assoc] at h
    obtain ⟨hxs, hx⟩ := List.append_inj' h rfl
    obtain rfl := List.singleton_inj.mp hx
    exact Or.inr ⟨post', List.concat_eq_append, hxs⟩

theorem pair_sublist_mem {β : Type} {a b : β} {xs : List β} (h : [a, b].Sublist xs) : b ∈ xs :=
  h.subset (by simp)

theorem pair_sublist_head {β : Type} {a b : β} {xs : List β} (hnd : (b :: xs).Nodup) :
    ¬ [a, b].Sublist (b :: xs) := by
  intro h
  have hb : b ∉ xs := (List.nodup_cons.mp hnd).1
  rcases List.sublist_cons_iff.mp h with h | ⟨r, hr, hsub⟩
  · exact hb (pair_sublist_mem h)
  · obtain ⟨-, rfl⟩ := List.cons.inj hr
    exact hb (hsub.subset (by simp))

theorem pair_sublist_tail {β : Type} {a b c : β} {xs : List β} (hac : a ≠ c)
    (h : [a, b].Sublist (c :: xs)) : [a, b].Sublist xs := by
  rcases List.sublist_cons_iff.mp h with h | ⟨r, hr, -⟩
  · exact h
  · exact absurd (List.cons.inj hr).1 hac

namespace Fair

variable [LinearOrder α] {H : List (QueueEvent α)} {w act act' rest : List α} {mid : Option α}
  {x : α}

theorem owed_nothing (h : Fair ⟨H, w, act, mid⟩) {pre post : List (QueueEvent α)} {ahead : List α}
    (hsplit : H = pre ++ .preempted x ahead :: post) (hlive : x ∈ act ++ w)
    (hout : ∀ a, ¬ [a, x].Sublist w) (a : α) (ha : a ∈ ahead) : Served a post := by
  by_cases hserved : Served x post
  · rcases hserved with hscheduled | hcancelled
    · obtain ⟨mid', post', rfl⟩ := List.append_of_mem hscheduled
      exact (h.no_overtaking _ _ _ _ _ hsplit a ha).append _
    · refine absurd ?_ (h.known x hlive).2
      rw [hsplit]
      exact List.mem_append_right _ (List.mem_cons_of_mem _ hcancelled)
  · rcases h.behind _ _ _ _ hsplit hserved a ha with hdone | hahead
    · exact hdone
    · exact absurd hahead (hout a)

theorem schedule_laws (h : Fair ⟨H, w, act, mid⟩) (hlive : x ∈ act ++ w)
    (hout : ∀ a, ¬ [a, x].Sublist w)
    (hfirst : .scheduled x ∉ H → ∀ a < x, .admitted a ∈ H → Served a H) :
    (∀ pre b post, H ++ [.scheduled x] = pre ++ .scheduled b :: post →
      ∀ a < b, .admitted a ∈ H ++ [.scheduled x] → Served a pre) ∧
    ∀ pre p ahead mid' post,
      H ++ [.scheduled x] = pre ++ .preempted p ahead :: (mid' ++ .scheduled p :: post) →
        ∀ a ∈ ahead, Served a mid' := by
  constructor
  · intro pre b post hsplit a hab ha
    have ha' : .admitted a ∈ H := by simpa using ha
    rcases split_concat hsplit with ⟨rfl, hb, -⟩ | ⟨post', -, hsplit'⟩
    · obtain rfl := QueueEvent.scheduled.inj hb
      by_cases hnew : .scheduled b ∈ pre
      · obtain ⟨early, late, hmem⟩ := List.append_of_mem hnew
        have hearly := h.first_come early b late hmem a hab ha'
        rw [hmem]
        exact hearly.append _
      · exact hfirst hnew a hab ha'
    · exact h.first_come pre b post' hsplit' a hab ha'
  · intro pre p ahead mid' post hsplit a ha
    rcases split_concat hsplit with ⟨-, hbad, -⟩ | ⟨post', htail, hsplit'⟩
    · exact absurd hbad (by simp)
    · rcases split_concat htail.symm with ⟨hmid, hp, -⟩ | ⟨post'', -, hmid⟩
      · obtain rfl := QueueEvent.scheduled.inj hp
        rw [hmid]
        exact h.owed_nothing hsplit' hlive hout a ha
      · rw [hmid] at hsplit'
        exact h.no_overtaking _ _ _ _ _ hsplit' a ha

theorem keep_laws (h : Fair ⟨H, w, act, mid⟩) {e : QueueEvent α}
    (he : ∀ a, e ≠ .scheduled a) (hent : ∀ a, e = .admitted a → ∀ b, .scheduled b ∈ H → b < a) :
    (∀ pre b post, H ++ [e] = pre ++ .scheduled b :: post →
      ∀ a < b, .admitted a ∈ H ++ [e] → Served a pre) ∧
    ∀ pre p ahead mid' post,
      H ++ [e] = pre ++ .preempted p ahead :: (mid' ++ .scheduled p :: post) →
        ∀ a ∈ ahead, Served a mid' := by
  constructor
  · intro pre b post hsplit a hab ha
    rcases split_concat hsplit with ⟨-, hb, -⟩ | ⟨post', -, hsplit'⟩
    · exact absurd hb.symm (he b)
    · refine h.first_come pre b post' hsplit' a hab ?_
      rcases List.mem_append.mp ha with ha | ha
      · exact ha
      · have hlt := hent a (List.mem_singleton.mp ha).symm b (by
          rw [hsplit']
          simp)
        exact absurd hlt (not_lt.mpr hab.le)
  · intro pre p ahead mid' post hsplit a ha
    rcases split_concat hsplit with ⟨-, hp, htail⟩ | ⟨post', htail, hsplit'⟩
    · exact absurd htail (by simp)
    · rcases split_concat htail.symm with ⟨-, hp, -⟩ | ⟨post'', -, hmid⟩
      · exact absurd hp.symm (he p)
      · rw [hmid] at hsplit'
        exact h.no_overtaking _ _ _ _ _ hsplit' a ha

theorem keep_behind (h : Fair ⟨H, w, act, mid⟩) {e : QueueEvent α} {w' : List α}
    (hnew : ∀ p ahead, e = .preempted p ahead → ∀ a ∈ ahead, [a, p].Sublist w')
    (hkeep : ∀ pre p ahead post, H = pre ++ .preempted p ahead :: post → ¬ Served p post →
      ¬ Served p [e] → ∀ a ∈ ahead, [a, p].Sublist w →
        Served a (post ++ [e]) ∨ [a, p].Sublist w') :
    ∀ pre p ahead post, H ++ [e] = pre ++ .preempted p ahead :: post → ¬ Served p post →
      ∀ a ∈ ahead, Served a post ∨ [a, p].Sublist w' := by
  intro pre p ahead post hsplit hnot a ha
  rcases split_concat hsplit with ⟨-, hp, -⟩ | ⟨post', rfl, hsplit'⟩
  · exact Or.inr (hnew p ahead hp.symm a ha)
  · have hold : ¬ Served p post' := fun hserved => hnot (hserved.append _)
    have hlast : ¬ Served p [e] := fun hserved =>
      hnot (hserved.imp (List.mem_append_right _) (List.mem_append_right _))
    rcases h.behind _ _ _ _ hsplit' hold a ha with hdone | hahead
    · exact Or.inl (hdone.append _)
    · exact hkeep _ _ _ _ hsplit' hold hlast a ha hahead

theorem keep_recent (h : Fair ⟨H, w, act, mid⟩) {e : QueueEvent α} (hnew : ∀ p ahead a,
    mid = some a → e = .preempted p ahead → a ∉ ahead) (a : α) (hmid : mid = some a) :
    ∀ pre p ahead post, H ++ [e] = pre ++ .preempted p ahead :: post → a ∈ ahead →
      .scheduled a ∈ post := by
  intro pre p ahead post hsplit ha
  rcases split_concat hsplit with ⟨-, hp, -⟩ | ⟨post', rfl, hsplit'⟩
  · exact absurd ha (hnew p ahead a hmid hp.symm)
  · exact List.mem_append_left _ (h.mid_recent a hmid _ _ _ _ hsplit' ha)

theorem keep_admitted (h : Fair ⟨H, w, act, mid⟩) {e : QueueEvent α}
    (he : ∀ a, e = .scheduled a ∨ e = .cancelled a → .admitted a ∈ H) (a : α)
    (ha : Served a (H ++ [e])) : .admitted a ∈ H ++ [e] := by
  refine List.mem_append_left _ ?_
  rcases ha with ha | ha <;> rcases List.mem_append.mp ha with hold | hlast
  · exact h.served_admitted a (Or.inl hold)
  · exact he a (Or.inl (List.mem_singleton.mp hlast).symm)
  · exact h.served_admitted a (Or.inr hold)
  · exact he a (Or.inr (List.mem_singleton.mp hlast).symm)

theorem keep_sorted (h : Fair ⟨H, w, act, mid⟩) {e : QueueEvent α} {w' : List α}
    (hsub : w'.Sublist w) : w'.Pairwise fun a b =>
      .scheduled a ∉ H ++ [e] → .scheduled b ∉ H ++ [e] → a < b :=
  (h.sorted.sublist hsub).imp fun hab ha hb =>
    hab (fun hmem => ha (List.mem_append_left _ hmem))
      (fun hmem => hb (List.mem_append_left _ hmem))

theorem keep_known (h : Fair ⟨H, w, act, mid⟩) {e : QueueEvent α} {a : α} (ha : a ∈ act ++ w)
    (he : e ≠ .cancelled a) : .admitted a ∈ H ++ [e] ∧ .cancelled a ∉ H ++ [e] := by
  obtain ⟨hadmitted, hcancelled⟩ := h.known a ha
  refine ⟨List.mem_append_left _ hadmitted, fun hmem => ?_⟩
  rcases List.mem_append.mp hmem with hold | hlast
  · exact hcancelled hold
  · exact he (List.mem_singleton.mp hlast).symm

theorem enter (h : Fair ⟨H, w, act, mid⟩) (hnew : ∀ a, .admitted a ∈ H → a < x) :
    Fair ⟨H ++ [.admitted x], w ++ [x], act, mid⟩ := by
  have hfresh : ¬ Served x H := fun hserved => lt_irrefl x (hnew x (h.served_admitted x hserved))
  have hx : x ∉ act ++ w := fun hmem => lt_irrefl x (hnew x (h.known x hmem).1)
  obtain ⟨hfirst, hover⟩ := h.keep_laws (e := .admitted x) (by simp) (by
    intro a ha b hb
    obtain rfl := QueueEvent.admitted.inj ha
    exact hnew b (h.served_admitted b (Or.inl hb)))
  constructor
  · change (act ++ (w ++ [x])).Nodup
    rw [← List.append_assoc]
    exact List.nodup_append.mpr ⟨h.nodup, List.nodup_singleton x, fun a ha b hb hab =>
      hx (by rwa [hab, List.mem_singleton.mp hb] at ha)⟩
  · intro a ha
    change a ∈ act ++ (w ++ [x]) at ha
    rw [← List.append_assoc] at ha
    rcases List.mem_append.mp ha with hold | hlast
    · exact h.keep_known hold (by simp)
    · obtain rfl := List.mem_singleton.mp hlast
      refine ⟨by simp, fun hmem => hfresh (Or.inr ?_)⟩
      simpa using hmem
  · exact h.keep_admitted (by simp)
  · exact fun a ha => List.mem_append_left _ (h.active_scheduled a ha)
  · exact fun a ha => List.mem_append_left _ (h.mid_scheduled a ha)
  · exact h.keep_recent (by simp)
  · intro a ha hnot
    by_cases hax : a = x
    · rw [hax]
      exact List.mem_append_right _ (List.mem_singleton_self x)
    · exact List.mem_append_left _ (h.fresh_waiting a (by simpa [hax] using ha)
        fun hserved => hnot (hserved.append _))
  · rw [List.pairwise_append]
    refine ⟨h.keep_sorted (List.Sublist.refl w), List.pairwise_singleton _ _, ?_⟩
    intro a ha b hb _ _
    rw [List.mem_singleton.mp hb]
    exact hnew a (h.known a (List.mem_append_right _ ha)).1
  · exact h.keep_behind (by simp) fun _ _ _ _ _ _ _ _ _ hsub =>
      Or.inr (hsub.trans (List.sublist_append_left _ _))
  · exact hfirst
  · exact hover

theorem head_out (h : Fair ⟨H, x :: rest, act, mid⟩) (a : α) : ¬ [a, x].Sublist (x :: rest) :=
  pair_sublist_head (List.nodup_append.mp h.nodup).2.1

theorem head_first (h : Fair ⟨H, x :: rest, act, mid⟩) (hx : .scheduled x ∉ H) (a : α)
    (ha : a < x) (hadmitted : .admitted a ∈ H) : Served a H := by
  by_contra hnot
  have hwaiting := h.fresh_waiting a hadmitted hnot
  rcases List.mem_cons.mp hwaiting with heq | hrest
  · exact absurd heq ha.ne
  · have hlt := (List.pairwise_cons.mp h.sorted).1 a hrest hx fun hmem => hnot (Or.inl hmem)
    exact absurd hlt (not_lt.mpr ha.le)

omit [LinearOrder α] in
theorem head_live : x ∈ act ++ x :: rest := by
  simp

theorem behind_head (h : Fair ⟨H, x :: rest, act, mid⟩) {w' : List α}
    (hw : rest.Sublist w') :
    ∀ pre p ahead post, H ++ [.scheduled x] = pre ++ .preempted p ahead :: post →
      ¬ Served p post → ∀ a ∈ ahead, Served a post ∨ [a, p].Sublist w' :=
  h.keep_behind (by simp) fun _ _ _ _ _ _ _ a _ hsub => by
    by_cases hax : a = x
    · rw [hax]
      exact Or.inl (Or.inl (by simp))
    · exact Or.inr ((pair_sublist_tail hax hsub).trans hw)

theorem join (h : Fair ⟨H, x :: rest, act, mid⟩) (hact : act'.Perm (x :: act)) :
    Fair ⟨H ++ [.scheduled x], rest, act', none⟩ := by
  have hperm : (act' ++ rest).Perm (act ++ x :: rest) :=
    (hact.append_right rest).trans List.perm_middle.symm
  obtain ⟨hfirst, hover⟩ := h.schedule_laws head_live h.head_out h.head_first
  constructor
  · exact hperm.nodup_iff.mpr h.nodup
  · exact fun a ha => h.keep_known (hperm.mem_iff.mp ha) (by simp)
  · refine h.keep_admitted fun a ha => ?_
    rcases ha with ha | ha
    · obtain rfl := QueueEvent.scheduled.inj ha
      exact (h.known _ head_live).1
    · exact absurd ha (by simp)
  · intro a ha
    rcases List.mem_cons.mp (hact.mem_iff.mp ha) with rfl | hold
    · exact List.mem_append_right _ (List.mem_singleton_self _)
    · exact List.mem_append_left _ (h.active_scheduled a hold)
  · exact fun a ha => absurd ha (by simp)
  · exact fun a ha => absurd ha (by simp)
  · intro a ha hnot
    have hwaiting := h.fresh_waiting a (by simpa using ha) fun hserved => hnot (hserved.append _)
    rcases List.mem_cons.mp hwaiting with rfl | hrest
    · exact absurd (Or.inl (by simp)) hnot
    · exact hrest
  · exact h.keep_sorted (List.sublist_cons_self x rest)
  · exact h.behind_head (List.Sublist.refl rest)
  · exact hfirst
  · exact hover

theorem chunk (h : Fair ⟨H, x :: rest, act, mid⟩) :
    Fair ⟨H ++ [.scheduled x], x :: rest, act, some x⟩ := by
  obtain ⟨hfirst, hover⟩ := h.schedule_laws head_live h.head_out h.head_first
  constructor
  · exact h.nodup
  · exact fun a ha => h.keep_known ha (by simp)
  · refine h.keep_admitted fun a ha => ?_
    rcases ha with ha | ha
    · obtain rfl := QueueEvent.scheduled.inj ha
      exact (h.known _ head_live).1
    · exact absurd ha (by simp)
  · exact fun a ha => List.mem_append_left _ (h.active_scheduled a ha)
  · intro a ha
    obtain rfl := Option.some.inj ha
    exact List.mem_append_right _ (List.mem_singleton_self _)
  · intro a ha pre p ahead post hsplit _
    obtain rfl := Option.some.inj ha
    rcases split_concat hsplit with ⟨-, hp, -⟩ | ⟨post', rfl, -⟩
    · exact absurd hp (by simp)
    · simp
  · exact fun a ha hnot => h.fresh_waiting a (by simpa using ha) fun hserved =>
      hnot (hserved.append _)
  · exact h.keep_sorted (List.Sublist.refl _)
  · exact h.behind_head (List.sublist_cons_self x rest)
  · exact hfirst
  · exact hover

theorem again (h : Fair ⟨H, w, act, mid⟩) (hx : x ∈ act) :
    Fair ⟨H ++ [.scheduled x], w, act, mid⟩ := by
  have hlive : x ∈ act ++ w := List.mem_append_left _ hx
  have hout : ∀ a, ¬ [a, x].Sublist w := fun a hsub =>
    (List.nodup_append.mp h.nodup).2.2 x hx x (pair_sublist_mem hsub) rfl
  obtain ⟨hfirst, hover⟩ := h.schedule_laws hlive hout fun hnot =>
    absurd (h.active_scheduled x hx) hnot
  constructor
  · exact h.nodup
  · exact fun a ha => h.keep_known ha (by simp)
  · refine h.keep_admitted fun a ha => ?_
    rcases ha with ha | ha
    · obtain rfl := QueueEvent.scheduled.inj ha
      exact (h.known _ hlive).1
    · exact absurd ha (by simp)
  · exact fun a ha => List.mem_append_left _ (h.active_scheduled a ha)
  · exact fun a ha => List.mem_append_left _ (h.mid_scheduled a ha)
  · exact h.keep_recent (by simp)
  · exact fun a ha hnot => h.fresh_waiting a (by simpa using ha) fun hserved =>
      hnot (hserved.append _)
  · exact h.keep_sorted (List.Sublist.refl _)
  · exact h.keep_behind (by simp) fun _ _ _ _ _ _ _ _ _ hsub => Or.inr hsub
  · exact hfirst
  · exact hover

theorem preempt (h : Fair ⟨H, w, act, none⟩) (hact : act.Perm (x :: act')) :
    Fair ⟨H ++ [.preempted x w], w ++ [x], act', none⟩ := by
  have hx : x ∈ act := hact.mem_iff.mpr (by simp)
  have hperm : (act' ++ (w ++ [x])).Perm (act ++ w) := by
    rw [← List.append_assoc]
    exact (List.perm_append_singleton x (act' ++ w)).trans (hact.symm.append_right w)
  obtain ⟨hfirst, hover⟩ := h.keep_laws (e := .preempted x w) (by simp) (by simp)
  constructor
  · exact hperm.nodup_iff.mpr h.nodup
  · exact fun a ha => h.keep_known (hperm.mem_iff.mp ha) (by simp)
  · exact h.keep_admitted (by simp)
  · exact fun a ha => List.mem_append_left _
      (h.active_scheduled a (hact.mem_iff.mpr (List.mem_cons_of_mem x ha)))
  · exact fun a ha => absurd ha (by simp)
  · exact fun a ha => absurd ha (by simp)
  · exact fun a ha hnot => List.mem_append_left _ (h.fresh_waiting a (by simpa using ha)
      fun hserved => hnot (hserved.append _))
  · rw [List.pairwise_append]
    refine ⟨h.keep_sorted (List.Sublist.refl w), List.pairwise_singleton _ _, ?_⟩
    intro a _ b hb _ hb'
    obtain rfl := List.mem_singleton.mp hb
    exact absurd (List.mem_append_left _ (h.active_scheduled _ hx)) hb'
  · refine h.keep_behind ?_ fun _ _ _ _ _ _ _ _ _ hsub =>
      Or.inr (hsub.trans (List.sublist_append_left _ _))
    intro p ahead heq a ha
    obtain ⟨rfl, rfl⟩ := QueueEvent.preempted.inj heq
    exact (List.singleton_sublist.mpr ha).append (List.Sublist.refl [x])
  · exact hfirst
  · exact hover

theorem preemptMid (h : Fair ⟨H, x :: rest, act, some x⟩) :
    Fair ⟨H ++ [.preempted x rest], rest ++ [x], act, none⟩ := by
  have hperm : (act ++ (rest ++ [x])).Perm (act ++ x :: rest) :=
    List.Perm.append_left act (List.perm_append_singleton x rest)
  obtain ⟨hfirst, hover⟩ := h.keep_laws (e := .preempted x rest) (by simp) (by simp)
  constructor
  · exact hperm.nodup_iff.mpr h.nodup
  · exact fun a ha => h.keep_known (hperm.mem_iff.mp ha) (by simp)
  · exact h.keep_admitted (by simp)
  · exact fun a ha => List.mem_append_left _ (h.active_scheduled a ha)
  · exact fun a ha => absurd ha (by simp)
  · exact fun a ha => absurd ha (by simp)
  · intro a ha hnot
    have hwaiting := h.fresh_waiting a (by simpa using ha) fun hserved => hnot (hserved.append _)
    exact (List.perm_append_singleton x rest).mem_iff.mpr hwaiting
  · rw [List.pairwise_append]
    refine ⟨h.keep_sorted (List.sublist_cons_self x rest), List.pairwise_singleton _ _, ?_⟩
    intro a _ b hb _ hb'
    obtain rfl := List.mem_singleton.mp hb
    exact absurd (List.mem_append_left _ (h.mid_scheduled _ rfl)) hb'
  · refine h.keep_behind ?_ ?_
    · intro p ahead heq a ha
      obtain ⟨rfl, rfl⟩ := QueueEvent.preempted.inj heq
      exact (List.singleton_sublist.mpr ha).append (List.Sublist.refl [x])
    · intro pre p ahead post hsplit _ _ a ha hsub
      -- the head was scheduled since any preemption it waited through
      by_cases hax : a = x
      · rw [hax] at ha ⊢
        have hserved : Served x post := Or.inl (h.mid_recent x rfl _ _ _ _ hsplit ha)
        exact Or.inl (hserved.append _)
      · exact Or.inr ((pair_sublist_tail hax hsub).trans (List.sublist_append_left _ _))
  · exact hfirst
  · exact hover

theorem pair_sublist_erase {a b : α} {xs : List α} (hax : a ≠ x) (hbx : b ≠ x)
    (h : [a, b].Sublist xs) : [a, b].Sublist (xs.erase x) := by
  have herase := h.erase x
  rwa [List.erase_cons_tail (by simpa using hax), List.erase_cons_tail (by simpa using hbx),
    List.erase_nil] at herase

theorem cancel (h : Fair ⟨H, w, act, mid⟩) (hx : x ∈ act ++ w) :
    Fair ⟨H ++ [.cancelled x], w.erase x, act.erase x, if mid = some x then none else mid⟩ := by
  obtain ⟨hnda, hndw, hdis⟩ := List.nodup_append.mp h.nodup
  have hmem : ∀ a ∈ act.erase x ++ w.erase x, a ∈ act ++ w ∧ a ≠ x := by
    intro a ha
    rcases List.mem_append.mp ha with ha | ha
    · exact ⟨List.mem_append_left _ (List.mem_of_mem_erase ha),
        fun hax => hnda.not_mem_erase (hax ▸ ha)⟩
    · exact ⟨List.mem_append_right _ (List.mem_of_mem_erase ha),
        fun hax => hndw.not_mem_erase (hax ▸ ha)⟩
  have hmid : ∀ a, (if mid = some x then none else mid) = some a → mid = some a := by
    intro a ha
    by_cases heq : mid = some x
    · rw [if_pos heq] at ha
      exact absurd ha (by simp)
    · rwa [if_neg heq] at ha
  obtain ⟨hfirst, hover⟩ := h.keep_laws (e := .cancelled x) (by simp) (by simp)
  constructor
  · exact List.nodup_append.mpr ⟨hnda.erase x, hndw.erase x, fun a ha b hb =>
      hdis a (List.mem_of_mem_erase ha) b (List.mem_of_mem_erase hb)⟩
  · intro a ha
    exact h.keep_known (hmem a ha).1 fun heq => (hmem a ha).2 (QueueEvent.cancelled.inj heq).symm
  · refine h.keep_admitted fun a ha => ?_
    rcases ha with ha | ha
    · exact absurd ha (by simp)
    · obtain rfl := QueueEvent.cancelled.inj ha
      exact (h.known _ hx).1
  · exact fun a ha => List.mem_append_left _ (h.active_scheduled a (List.mem_of_mem_erase ha))
  · exact fun a ha => List.mem_append_left _ (h.mid_scheduled a (hmid a ha))
  · exact fun a ha => h.keep_recent (by simp) a (hmid a ha)
  · intro a ha hnot
    have hax : a ≠ x := fun hax => hnot (Or.inr (by simp [hax]))
    exact (List.mem_erase_of_ne hax).mpr (h.fresh_waiting a (by simpa using ha)
      fun hserved => hnot (hserved.append _))
  · exact h.keep_sorted List.erase_sublist
  · refine h.keep_behind (by simp) fun _ p _ _ _ _ hlast a _ hsub => ?_
    by_cases hax : a = x
    · exact Or.inl (Or.inr (by simp [hax]))
    · have hpx : p ≠ x := fun hpx => hlast (Or.inr (by simp [hpx]))
      exact Or.inr (pair_sublist_erase hax hpx hsub)
  · exact hfirst
  · exact hover

theorem retire (h : Fair ⟨H, w, act, mid⟩) (hact : act'.Subperm act) : Fair ⟨H, w, act', mid⟩ := by
  have hsub : (act' ++ w).Subperm (act ++ w) := hact.append (List.Subperm.refl w)
  have hnd : (act' ++ w).Nodup := by
    obtain ⟨act'', hperm, hsublist⟩ := hsub
    exact hperm.nodup_iff.mp (h.nodup.sublist hsublist)
  exact
    { h with
      nodup := hnd
      known := fun a ha => h.known a (hsub.subset ha)
      active_scheduled := fun a ha => h.active_scheduled a (hact.subset ha) }

theorem move {v v' : QueueView α} (h : Fair v) (hm : QueueMove v v') : Fair v' := by
  cases hm with
  | enter hnew => exact h.enter hnew
  | join hact => exact h.join hact
  | chunk => exact h.chunk
  | again hx => exact h.again hx
  | preempt hact => exact h.preempt hact
  | preemptMid => exact h.preemptMid
  | cancel hx => exact h.cancel hx
  | retire hact => exact h.retire hact

theorem init : Fair (⟨[], [], [], none⟩ : QueueView α) := by
  constructor <;> simp [Served]

end Fair

end NanoVllm.Library
