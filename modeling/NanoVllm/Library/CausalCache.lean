/- module: NanoVllm/Library/CausalCache
   layer: library
   digest: A cache of entries that each depend on the entries before them, filled slot by slot. -/

import Mathlib.Data.List.Induction
import Mathlib.Order.Nat
import Mathlib.Logic.Function.Basic
import Mathlib.Tactic.Common

set_option autoImplicit false
set_option relaxedAutoImplicit false

namespace NanoVllm.Library

variable {κ τ σ : Type}

/-- The entries of `words`: each is computed behind the entries before it. -/
def entriesOf (entry : List κ → τ → κ) (words : List τ) : List κ :=
  words.foldl (fun entries word => entries ++ [entry entries word]) []

section Entries

variable (entry : List κ → τ → κ) (words more : List τ)

theorem entriesOf_concat (word : τ) :
    entriesOf entry (words ++ [word]) =
      entriesOf entry words ++ [entry (entriesOf entry words) word] := by
  unfold entriesOf
  rw [List.foldl_append]
  rfl

theorem length_entriesOf : (entriesOf entry words).length = words.length := by
  induction words using List.reverseRecOn with
  | nil => rfl
  | append_singleton words word ih => simp [entriesOf_concat, ih]

theorem entriesOf_const (a : κ) : entriesOf (fun _ _ => a) words = List.replicate words.length a := by
  induction words using List.reverseRecOn with
  | nil => rfl
  | append_singleton words word ih =>
    rw [entriesOf_concat, ih, List.length_append, List.length_singleton, List.replicate_succ']

theorem entriesOf_prefix : entriesOf entry words <+: entriesOf entry (words ++ more) := by
  induction more using List.reverseRecOn with
  | nil => simp
  | append_singleton more word ih =>
    rw [← List.append_assoc, entriesOf_concat]
    exact ih.trans (List.prefix_append _ _)

theorem entriesOf_take (n : Nat) :
    entriesOf entry (words.take n) = (entriesOf entry words).take n := by
  have hprefix := entriesOf_prefix entry (words.take n) (words.drop n)
  rw [List.take_append_drop] at hprefix
  have hlen : (entriesOf entry (words.take n)).length = min n words.length := by
    rw [length_entriesOf, List.length_take]
  rw [List.prefix_iff_eq_take.mp hprefix, hlen]
  by_cases hn : n ≤ words.length
  · rw [Nat.min_eq_left hn]
  · have hle : (entriesOf entry words).length ≤ n := by
      rw [length_entriesOf]
      omega
    rw [Nat.min_eq_right (by omega), List.take_of_length_le hle,
      List.take_of_length_le (length_entriesOf entry words).le]

variable {words more} in
theorem entriesOf_getElem?_congr {n p : Nat} (hsame : words.take n = more.take n) (hp : p < n) :
    (entriesOf entry words)[p]? = (entriesOf entry more)[p]? := by
  have htake := congrArg (fun l => (entriesOf entry l)[p]?) hsame
  simpa only [entriesOf_take, List.getElem?_take_of_lt hp] using htake

variable {entry words more} in
theorem entriesOf_getElem?_mono {p : Nat} {e : κ} (h : (entriesOf entry words)[p]? = some e)
    (hmore : words <+: more) : (entriesOf entry more)[p]? = some e := by
  obtain ⟨rest, rfl⟩ := hmore
  obtain ⟨tail, htail⟩ := entriesOf_prefix entry words rest
  rw [← htail, List.getElem?_append_left (List.getElem?_eq_some_iff.mp h).1]
  exact h

variable {words} in
theorem entriesOf_getElem? {p : Nat} {word : τ} (hp : words[p]? = some word) :
    (entriesOf entry words)[p]? = some (entry (entriesOf entry (words.take p)) word) := by
  have hlt := (List.getElem?_eq_some_iff.mp hp).1
  have htake : words.take (p + 1) = words.take p ++ [word] := by
    rw [List.take_add_one, hp]
    rfl
  have hlen : (entriesOf entry (words.take p)).length = p := by
    rw [length_entriesOf, List.length_take]
    omega
  have hself : (entriesOf entry (words.take (p + 1)))[p]? =
      some (entry (entriesOf entry (words.take p)) word) := by
    rw [htake, entriesOf_concat, List.getElem?_append_right hlen.le, hlen, Nat.sub_self]
    rfl
  rw [← hself]
  refine entriesOf_getElem?_congr entry (n := p + 1) ?_ (Nat.lt_succ_self p)
  rw [List.take_take, Nat.min_self]

end Entries

def Populated (entry : List κ → τ → κ) (cache : σ → κ) (slots : Nat → σ) (words : List τ) (n : Nat) :
    Prop :=
  ∀ p < n, (entriesOf entry words)[p]? = some (cache (slots p))

section Populated

variable {entry : List κ → τ → κ} {cache cache' : σ → κ} {slots slots' : Nat → σ}
  {words more : List τ} {n m : Nat}

theorem Populated.mono (h : Populated entry cache slots words n) (hle : m ≤ n) :
    Populated entry cache slots words m := fun p hp => h p (hp.trans_le hle)

theorem Populated.le_length (h : Populated entry cache slots words n) : n ≤ words.length := by
  by_contra hlt
  have hlast := h (n - 1) (by omega)
  have hbound := (List.getElem?_eq_some_iff.mp hlast).1
  rw [length_entriesOf] at hbound
  omega

theorem Populated.congr (h : Populated entry cache slots words n)
    (hsame : ∀ p < n, cache' (slots' p) = cache (slots p)) :
    Populated entry cache' slots' words n := by
  intro p hp
  rw [hsame p hp]
  exact h p hp

theorem Populated.reword (h : Populated entry cache slots words n)
    (hsame : more.take n = words.take n) :
    Populated entry cache slots more n := by
  intro p hp
  rw [entriesOf_getElem?_congr entry hsame hp]
  exact h p hp

theorem Populated.map_range (h : Populated entry cache slots words n) :
    (List.range n).map (fun p => cache (slots p)) = entriesOf entry (words.take n) := by
  apply List.ext_getElem?
  intro p
  by_cases hp : p < n
  · rw [entriesOf_take, List.getElem?_take_of_lt hp, h p hp, List.getElem?_map,
      List.getElem?_range hp]
    rfl
  · have hlen : (entriesOf entry (words.take n)).length ≤ p := by
      rw [length_entriesOf, List.length_take]
      omega
    rw [List.getElem?_eq_none hlen, List.getElem?_eq_none (by simpa using hp)]

theorem Populated.succ (h : Populated entry cache slots words n) {word : τ}
    (hword : words[n]? = some word)
    (hcell : cache (slots n) = entry ((List.range n).map fun p => cache (slots p)) word) :
    Populated entry cache slots words (n + 1) := by
  intro p hp
  rcases Nat.lt_succ_iff_lt_or_eq.mp hp with hlt | rfl
  · exact h p hlt
  · rw [entriesOf_getElem? entry hword, hcell, h.map_range]

theorem Populated.extend (h : Populated entry cache slots words n)
    (hcells : ∀ p, n ≤ p → p < n + m → ∃ word, words[p]? = some word ∧
      cache (slots p) = entry ((List.range p).map fun i => cache (slots i)) word) :
    Populated entry cache slots words (n + m) := by
  induction m with
  | zero => exact h
  | succ m ih =>
    have hprev := ih fun p hle hlt => hcells p hle (by omega)
    obtain ⟨word, hword, hcell⟩ := hcells (n + m) (Nat.le_add_right n m) (by omega)
    exact hprev.succ hword hcell

end Populated

/-- A query feeds a word, reads the slots of the positions before it and fills its own. -/
structure Query (σ τ : Type) where
  word : τ
  reads : List σ
  slot : σ
  deriving DecidableEq

variable [DecidableEq σ] (entry : List κ → τ → κ)

def Query.fill (cache : σ → κ) (query : Query σ τ) : σ → κ :=
  Function.update cache query.slot (entry (query.reads.map cache) query.word)

def pass (cache : σ → κ) (queries : List (Query σ τ)) : σ → κ :=
  queries.foldl (Query.fill entry) cache

variable {queries : List (Query σ τ)}

theorem pass_outside {slot : σ} (h : slot ∉ queries.map Query.slot) (cache : σ → κ) :
    pass entry cache queries slot = cache slot := by
  induction queries generalizing cache with
  | nil => rfl
  | cons query queries ih =>
    rw [List.map_cons, List.mem_cons, not_or] at h
    show pass entry (query.fill entry cache) queries slot = cache slot
    rw [ih h.2]
    exact Function.update_of_ne h.1 _ _

/-- No query reads its own slot, nor does a later one fill a slot it reads or fills. -/
structure Causal (queries : List (Query σ τ)) : Prop where
  own : ∀ query ∈ queries, query.slot ∉ query.reads
  later : queries.Pairwise fun query query' =>
    query'.slot ≠ query.slot ∧ query'.slot ∉ query.reads

omit [DecidableEq σ] in
theorem Causal.tail {query : Query σ τ} (h : Causal (query :: queries)) : Causal queries :=
  ⟨fun q hq => h.own q (List.mem_cons_of_mem query hq), (List.pairwise_cons.mp h.later).2⟩

/-- Behind a causal pass every filled slot holds the entry over what its query reads there. -/
theorem pass_filled {query : Query σ τ} (h : Causal queries) (hquery : query ∈ queries)
    (cache : σ → κ) : pass entry cache queries query.slot =
      entry (query.reads.map (pass entry cache queries)) query.word := by
  induction queries generalizing cache with
  | nil => exact absurd hquery List.not_mem_nil
  | cons first queries ih =>
    show pass entry (first.fill entry cache) queries query.slot = entry
      (query.reads.map (pass entry (first.fill entry cache) queries)) query.word
    rcases List.mem_cons.mp hquery with rfl | hmem
    · have hlater := (List.pairwise_cons.mp h.later).1
      have hself : query.slot ∉ queries.map Query.slot := by
        intro hin
        obtain ⟨q, hq, heq⟩ := List.mem_map.mp hin
        exact (hlater q hq).1 heq
      have hreads : query.reads.map (pass entry (query.fill entry cache) queries) =
          query.reads.map cache := by
        apply List.map_congr_left
        intro slot hslot
        have hout : slot ∉ queries.map Query.slot := by
          intro hin
          obtain ⟨q, hq, rfl⟩ := List.mem_map.mp hin
          exact (hlater q hq).2 hslot
        rw [pass_outside entry hout]
        apply Function.update_of_ne
        rintro rfl
        exact h.own query (by simp) hslot
      rw [pass_outside entry hself, hreads]
      exact Function.update_self _ _ _
    · exact ih h.tail hmem _

def overwrite (cells : σ → κ) (writes : List (σ × κ)) : σ → κ :=
  writes.foldl (fun cells write => Function.update cells write.1 write.2) cells

theorem overwrite_outside {writes : List (σ × κ)} {slot : σ} (h : slot ∉ writes.map Prod.fst)
    (cells : σ → κ) : overwrite cells writes slot = cells slot := by
  induction writes generalizing cells with
  | nil => rfl
  | cons write writes ih =>
    rw [List.map_cons, List.mem_cons, not_or] at h
    exact (ih h.2 _).trans (Function.update_of_ne h.1 _ _)

/-- Where several writes fall into one slot they agree, since each leaves what `cells'` holds. -/
theorem overwrite_eq {cells cells' : σ → κ} {writes : List (σ × κ)}
    (hin : ∀ write ∈ writes, cells' write.1 = write.2)
    (hout : ∀ slot, slot ∉ writes.map Prod.fst → cells' slot = cells slot) :
    overwrite cells writes = cells' := by
  induction writes generalizing cells with
  | nil => exact funext fun slot => (hout slot List.not_mem_nil).symm
  | cons write writes ih =>
    refine ih (fun other hmem => hin other (List.mem_cons_of_mem _ hmem)) fun slot hslot => ?_
    show cells' slot = Function.update cells write.1 write.2 slot
    by_cases heq : slot = write.1
    · rw [heq, Function.update_self]
      exact hin write List.mem_cons_self
    · rw [Function.update_of_ne heq]
      exact hout slot (by simpa [heq] using hslot)

def replies {ρ : Type} (reply : List κ → τ → ρ) : (σ → κ) → List (Query σ τ) → List ρ
  | _, [] => []
  | cache, query :: queries =>
    reply (query.reads.map cache) query.word :: replies reply (query.fill entry cache) queries

theorem length_replies {ρ : Type} (reply : List κ → τ → ρ) (queries : List (Query σ τ)) :
    ∀ cache : σ → κ, (replies entry reply cache queries).length = queries.length := by
  induction queries with
  | nil => exact fun _ => rfl
  | cons query queries ih => exact fun cache => congrArg (· + 1) (ih (query.fill entry cache))

theorem replies_eq {ρ : Type} (reply : List κ → τ → ρ) (h : Causal queries) (cache : σ → κ) :
    replies entry reply cache queries = queries.map fun query =>
      reply (query.reads.map (pass entry cache queries)) query.word := by
  induction queries generalizing cache with
  | nil => rfl
  | cons query queries ih =>
    have hlater := (List.pairwise_cons.mp h.later).1
    have hreads : query.reads.map (pass entry cache (query :: queries)) =
        query.reads.map cache := by
      apply List.map_congr_left
      intro slot hslot
      refine pass_outside entry (fun hin => ?_) cache
      rcases List.mem_cons.mp hin with rfl | hin
      · exact h.own query List.mem_cons_self hslot
      · obtain ⟨q, hq, rfl⟩ := List.mem_map.mp hin
        exact (hlater q hq).2 hslot
    rw [List.map_cons, hreads]
    show _ :: replies entry reply (query.fill entry cache) queries = _
    rw [ih h.tail]
    rfl

end NanoVllm.Library
