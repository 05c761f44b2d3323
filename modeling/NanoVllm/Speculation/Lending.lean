/- module: NanoVllm/Speculation/Lending
   layer: invariant
   source: nanovllm/engine/block_manager.py, the temporary lease and rollback_uncommitted_appends
   digest: Lending blocks and taking appended blocks back keep the scheduler invariant. -/

import NanoVllm.Ownership.Retention
import NanoVllm.Scheduling.DecodeMoves

set_option autoImplicit false
set_option relaxedAutoImplicit false

namespace NanoVllm

open Library

variable {distinct : Prop} {cfg : Config} {held live : List Nat} {cov : Nat → Nat} {s t base : State}
  {rows : List (Nat × List Nat)} {x : Nat}

private theorem OwnIf.lendOne (h : OwnIf distinct cfg live s.table cov s) (hx : x ∈ live) {b : Nat}
    (hb : b ∈ s.freeBlockIds) :
    OwnIf distinct cfg live (s.lend [(x, [b])]).table cov (s.lend [(x, [b])]) := by
  have htab : (s.lend [(x, [b])]).table = Function.update s.table x (s.table x ++ [b]) := by
    funext y
    rw [State.lend_table]
    by_cases hyx : y = x
    · subst hyx
      simp
    · simp [hyx, Ne.symm hyx]
  rw [htab]
  apply h.push hx hb
  · funext c
    by_cases hcb : c = b
    · subst hcb
      simp [State.lend]
    · simp [State.lend, hcb]
  · intro k c hc
    obtain ⟨hold, hout⟩ := (lookup_restrict_eq_some _ _ _ _).mp hc
    exact ⟨hold, by simpa using hout⟩
  · have hfree : (s.lend [(x, [b])]).freeBlockIds = s.freeBlockIds.erase b := by
      rw [h.free_nodup.erase_eq_filter b]
      simp only [State.lend, lentBlocks_cons, lentBlocks_nil, List.append_nil, List.mem_singleton]
      apply List.filter_congr
      intro c _
      by_cases hcb : c = b <;> simp [hcb]
    rw [hfree]
    exact (List.perm_cons_erase hb).symm
  · ext c
    simp [State.lend]

private theorem OwnIf.lendRow (hx : x ∈ live) : ∀ {ids : List Nat} {s : State},
    OwnIf distinct cfg live s.table cov s → ids.Nodup → (∀ b ∈ ids, b ∈ s.freeBlockIds) →
      OwnIf distinct cfg live (s.lend [(x, ids)]).table cov (s.lend [(x, ids)]) := by
  intro ids
  induction ids with
  | nil =>
    intro s h _ _
    rw [(s.lend_congr (by simp) (by simp)).trans s.lend_nil]
    exact h
  | cons b ids ih =>
    intro s h hnd hfree
    obtain ⟨hb, hids⟩ := List.nodup_cons.mp hnd
    have hjoin : s.lend [(x, b :: ids)] = (s.lend [(x, [b])]).lend [(x, ids)] := by
      rw [State.lend_lend]
      apply State.lend_congr
      · intro y
        by_cases hyx : x = y <;> simp [hyx]
      · simp
    rw [hjoin]
    apply ih (h.lendOne hx (hfree b (by simp))) hids
    intro c hc
    have hcb : c ≠ b := fun heq => hb (heq ▸ hc)
    simp [State.lend, hfree c (List.mem_cons_of_mem b hc), hcb]

theorem OwnIf.lend : ∀ {rows : List (Nat × List Nat)} {s : State},
    OwnIf distinct cfg live s.table cov s →
    (∀ e ∈ rows, e.1 ∈ live) → (lentBlocks rows).Nodup →
    (∀ b ∈ lentBlocks rows, b ∈ s.freeBlockIds) →
      OwnIf distinct cfg live (s.lend rows).table cov (s.lend rows) := by
  intro rows
  induction rows with
  | nil =>
    intro s h _ _ _
    rw [s.lend_nil]
    exact h
  | cons e rows ih =>
    intro s h hlive hnd hfree
    rw [lentBlocks_cons] at hnd hfree
    obtain ⟨hhead, hrest, hdisj⟩ := List.nodup_append.mp hnd
    have hjoin : s.lend (e :: rows) = (s.lend [e]).lend rows := by
      rw [State.lend_lend]
      rfl
    rw [hjoin]
    apply ih
    · exact OwnIf.lendRow (hlive e (by simp)) h hhead fun b hb =>
        hfree b (List.mem_append_left _ hb)
    · exact fun d hd => hlive d (List.mem_cons_of_mem e hd)
    · exact hrest
    · intro b hb
      have hout : b ∉ e.2 := fun hin => hdisj b hin b hb rfl
      simp [State.lend, hfree b (List.mem_append_right _ hb), hout]

private theorem Started.grow {seq : Sequence} (h : Started cfg seq) {table : List Nat}
    (hlen : seq.blockTable.length ≤ table.length) :
    Started cfg { seq with blockTable := table } := by
  have hmul := Nat.mul_le_mul_right cfg.kvcacheBlockSize hlen
  have hw := h.within
  have hr := h.roomy
  refine ⟨h.scheduled_le, ?_, h.cached_lt, ?_⟩
  · change seq.numCachedTokens + seq.numScheduledTokens ≤ table.length * cfg.kvcacheBlockSize
    omega
  · change seq.numTokens ≤ table.length * cfg.kvcacheBlockSize + 1
    omega

theorem Core.lend (h : Core cfg held s) (hrows : ∀ e ∈ rows, e.1 ∈ held ++ s.running)
    (hnd : (lentBlocks rows).Nodup) (hfree : ∀ b ∈ lentBlocks rows, b ∈ s.freeBlockIds) :
    Core cfg held (s.lend rows) := by
  have hdisj := (List.nodup_append.mp h.own.live_nodup).2.2
  have hout : ∀ y, y ∉ held ++ s.running → (s.lend rows).seqs y = s.seqs y := by
    intro y hy
    have hnone : lentTo rows y = [] := by
      apply lentTo_eq_nil
      intro hmem
      obtain ⟨e, he, rfl⟩ := List.mem_map.mp hmem
      exact hy (hrows e he)
    simp [State.lend, State.table, hnone]
  have hwait : ∀ w ∈ s.waiting, (s.lend rows).seqs w = s.seqs w :=
    fun w hw => hout w fun hmem => hdisj w hmem w hw rfl
  refine ⟨?_, ?_, ?_, ?_, ?_, ?_, h.known, ?_⟩
  · apply (h.own.lend (fun e he => List.mem_append_left _ (hrows e he)) hnd hfree).mono_cov
    intro y _
    exact le_rfl
  · intro w hw htab
    rw [State.table, hwait w hw] at htab
    exact h.mid_owner w hw htab
  · intro w hw
    obtain ⟨hhead, htab⟩ := h.mid_head w hw
    refine ⟨hhead, ?_⟩
    rw [State.table, hwait w (List.mem_of_mem_head? (by rw [hhead]; rfl))]
    exact htab
  · intro y hy
    apply (h.started y hy).grow
    rw [List.length_append]
    exact Nat.le_add_right _ _
  · intro w hw htab
    rw [State.table, hwait w hw] at htab
    rw [hwait w hw]
    exact h.chunked w hw htab
  · intro w hw
    rw [hwait w hw]
    exact h.nonempty w hw
  · intro y hy
    rw [State.table, hout y fun hmem => hy (List.mem_append_left _ hmem)]
    exact h.dead y hy

/-- What the validation of one row found: no suffix, or one fresh exclusive block. -/
structure AppendedTail (s : State) (x expected : Nat) (found : Option Nat) : Prop where
  bare : found = none → (s.table x).length = expected
  tail : ∀ b, found = some b → s.table x = (s.table x).dropLast ++ [b] ∧
    (s.table x).length = expected + 1 ∧ (s.blocks b).refCount = 1 ∧ (s.blocks b).hash = none

private theorem appended_cons_some (x b : Nat) (rest : List (Nat × Option Nat)) :
    ((x, some b) :: rest).filterMap Prod.snd = b :: rest.filterMap Prod.snd := rfl

private theorem appended_cons_none (x : Nat) (rest : List (Nat × Option Nat)) :
    ((x, none) :: rest).filterMap Prod.snd = rest.filterMap Prod.snd := rfl

private theorem validateUncommittedRow_ok {expected : Nat} {seen : List Nat} {found : Option Nat}
    (h : validateUncommittedRow cfg s x expected seen = .ok found) :
    AppendedTail s x expected found ∧ ∀ b, found = some b → b ∉ seen := by
  unfold validateUncommittedRow at h
  by_cases hlen : (s.seqs x).blockTable.length = expected
  · rw [if_pos hlen] at h
    obtain rfl : none = found := by simpa [pure, Except.pure] using h
    exact ⟨⟨fun _ => hlen, by simp⟩, by simp⟩
  rw [if_neg hlen] at h
  by_cases hone : (s.seqs x).blockTable.length ≠ expected + 1
  · rw [if_pos hone] at h
    exact absurd h (by simp [bind, Except.bind, throw, throwThe, MonadExceptOf.throw])
  rw [if_neg hone] at h
  simp only at h
  by_cases hlt : ¬ (s.seqs x).blockTable.getLastD 0 < cfg.numKvcacheBlocks
  · rw [if_pos hlt] at h
    exact absurd h (by simp [bind, Except.bind, throw, throwThe, MonadExceptOf.throw])
  rw [if_neg hlt] at h
  by_cases halias : (s.seqs x).blockTable.getLastD 0 ∈ (s.seqs x).blockTable.dropLast
      ∨ (s.seqs x).blockTable.getLastD 0 ∈ seen
  · rw [if_pos halias] at h
    exact absurd h (by simp [bind, Except.bind, throw, throwThe, MonadExceptOf.throw])
  rw [if_neg halias] at h
  by_cases hused : (s.seqs x).blockTable.getLastD 0 ∉ s.usedBlockIds
      ∨ (s.seqs x).blockTable.getLastD 0 ∈ s.freeBlockIds
  · rw [if_pos hused] at h
    exact absurd h (by simp [bind, Except.bind, throw, throwThe, MonadExceptOf.throw])
  rw [if_neg hused] at h
  by_cases hmeta : (s.blocks ((s.seqs x).blockTable.getLastD 0)).refCount ≠ 1
      ∨ (s.blocks ((s.seqs x).blockTable.getLastD 0)).hash ≠ none
      ∨ (s.blocks ((s.seqs x).blockTable.getLastD 0)).tokenIds ≠ []
  · rw [if_pos hmeta] at h
    exact absurd h (by simp [bind, Except.bind, throw, throwThe, MonadExceptOf.throw])
  rw [if_neg hmeta] at h
  obtain rfl : some ((s.seqs x).blockTable.getLastD 0) = found := by
    simpa [pure, Except.pure] using h
  rw [not_or] at halias
  simp only [not_or, not_not] at hmeta hone
  refine ⟨⟨by simp, ?_⟩, ?_⟩
  · rintro b hb
    obtain rfl := Option.some.inj hb
    have hne : (s.seqs x).blockTable ≠ [] := by
      intro hnil
      rw [hnil] at hone
      exact absurd hone (by simp)
    refine ⟨?_, hone, hmeta.1, hmeta.2.1⟩
    change (s.seqs x).blockTable = (s.seqs x).blockTable.dropLast ++ [_]
    rw [List.getLastD_eq_getLast?, List.getLast?_eq_some_getLast hne]
    exact (List.dropLast_append_getLast hne).symm
  · rintro b hb
    obtain rfl := Option.some.inj hb
    exact halias.2

theorem validateUncommittedRows_ok {wanted : List (Nat × Nat)} : ∀ {seen appended : List Nat}
    {validated : List (Nat × Option Nat)},
    validateUncommittedRows cfg s wanted seen appended = .ok validated →
      List.Forall₂ (fun e v => v.1 = e.1 ∧ AppendedTail s e.1 e.2 v.2) wanted validated ∧
      (wanted.map Prod.fst).Nodup ∧ (∀ e ∈ wanted, e.1 ∉ seen) ∧
      (validated.filterMap Prod.snd).Nodup ∧
      ∀ b ∈ validated.filterMap Prod.snd, b ∉ appended := by
  induction wanted with
  | nil =>
    intro seen appended validated h
    obtain rfl : [] = validated := by simpa [validateUncommittedRows, pure, Except.pure] using h
    simp
  | cons e wanted ih =>
    intro seen appended validated h
    obtain ⟨x, expected⟩ := e
    unfold validateUncommittedRows at h
    by_cases hseen : x ∈ seen
    · rw [if_pos hseen] at h
      exact absurd h (by simp [bind, Except.bind, throw, throwThe, MonadExceptOf.throw])
    rw [if_neg hseen] at h
    obtain ⟨found, hfound, h⟩ := Call.except_bind_ok h
    obtain ⟨more, hmore, h⟩ := Call.except_bind_ok h
    obtain rfl : (x, found) :: more = validated := by simpa [pure, Except.pure] using h
    obtain ⟨htail, hnew⟩ := validateUncommittedRow_ok hfound
    obtain ⟨hrel, hnd, hout, hand, hsep⟩ := ih hmore
    have hx : x ∉ wanted.map Prod.fst := by
      intro hmem
      obtain ⟨e, he, hex⟩ := List.mem_map.mp hmem
      exact hout e he (by simp [hex])
    refine ⟨.cons ⟨rfl, htail⟩ hrel, ?_, ?_, ?_, ?_⟩
    · rw [List.map_cons, List.nodup_cons]
      exact ⟨hx, hnd⟩
    · intro e he
      rcases List.mem_cons.mp he with rfl | he
      · exact hseen
      · exact fun hin => hout e he (List.mem_cons_of_mem x hin)
    · cases found with
      | none => simpa using hand
      | some b =>
        rw [appended_cons_some, List.nodup_cons]
        exact ⟨fun hb => hsep b hb (by simp), hand⟩
    · intro b hb
      cases hf : found with
      | none =>
        rw [hf, appended_cons_none] at hb
        exact fun hin => hsep b hb (List.mem_append_right _ hin)
      | some c =>
        rw [hf, appended_cons_some] at hb
        rcases List.mem_cons.mp hb with rfl | hb
        · exact hnew b hf
        · exact fun hin => hsep b hb (List.mem_append_right _ hin)

section Drop

variable {validated : List (Nat × Option Nat)}

@[simp] theorem State.dropAllAppended_control (s : State) (validated : List (Nat × Option Nat)) :
    (s.dropAllAppended validated).control = s.control := by
  induction validated with
  | nil => rfl
  | cons v validated ih =>
    obtain ⟨x, found⟩ := v
    cases found with
    | none => exact ih
    | some b => exact ih

theorem State.dropAllAppended_free (s : State) (validated : List (Nat × Option Nat)) :
    (s.dropAllAppended validated).freeBlockIds =
      validated.filterMap Prod.snd ++ s.freeBlockIds := by
  induction validated with
  | nil => rfl
  | cons v validated ih =>
    obtain ⟨x, found⟩ := v
    cases found with
    | none => exact ih
    | some b =>
      change b :: (s.dropAllAppended validated).freeBlockIds = _
      rw [ih]
      rfl

@[simp] theorem State.dropAllAppended_index (s : State) (validated : List (Nat × Option Nat)) :
    (s.dropAllAppended validated).hashToBlockId = s.hashToBlockId := by
  induction validated with
  | nil => rfl
  | cons v validated ih =>
    obtain ⟨x, found⟩ := v
    cases found with
    | none => exact ih
    | some b => exact ih

theorem State.dropAllAppended_used (s : State) (validated : List (Nat × Option Nat)) :
    (s.dropAllAppended validated).usedBlockIds =
      s.usedBlockIds \ (validated.filterMap Prod.snd).toFinset := by
  induction validated with
  | nil => simp [State.dropAllAppended]
  | cons v validated ih =>
    obtain ⟨x, found⟩ := v
    cases found with
    | none => exact ih
    | some b =>
      change (s.dropAllAppended validated).usedBlockIds.erase b = _
      rw [ih]
      ext c
      simp
      tauto

theorem State.dropAllAppended_blocks (s : State) (validated : List (Nat × Option Nat)) :
    (s.dropAllAppended validated).blocks = fun b =>
      if b ∈ validated.filterMap Prod.snd then { s.blocks b with refCount := 0 }
      else s.blocks b := by
  induction validated with
  | nil => rfl
  | cons v validated ih =>
    obtain ⟨x, found⟩ := v
    cases found with
    | none => exact ih
    | some b =>
      change Function.update (s.dropAllAppended validated).blocks b
        { (s.dropAllAppended validated).blocks b with refCount := 0 } = _
      rw [ih]
      funext c
      by_cases hcb : c = b
      · subst hcb
        rw [Function.update_self]
        by_cases hin : c ∈ validated.filterMap Prod.snd <;> simp [hin]
      · rw [Function.update_of_ne hcb]
        by_cases hin : c ∈ validated.filterMap Prod.snd <;> simp [hin, hcb]

theorem State.dropAllAppended_seqs_out (s : State) {y : Nat} (hy : y ∉ validated.map Prod.fst) :
    (s.dropAllAppended validated).seqs y = s.seqs y := by
  induction validated with
  | nil => rfl
  | cons v validated ih =>
    obtain ⟨x, found⟩ := v
    rw [List.map_cons, List.mem_cons, not_or] at hy
    cases found with
    | none => exact ih hy.2
    | some b =>
      change Function.update (s.dropAllAppended validated).seqs x _ y = _
      rw [Function.update_of_ne hy.1]
      exact ih hy.2

theorem State.dropAllAppended_seqs_in (s : State) (hnd : (validated.map Prod.fst).Nodup)
    {found : Option Nat} (hx : (x, found) ∈ validated) :
    (s.dropAllAppended validated).seqs x = { s.seqs x with
      blockTable := if found.isSome then (s.table x).dropLast else s.table x } := by
  induction validated with
  | nil => simp at hx
  | cons v validated ih =>
    obtain ⟨y, got⟩ := v
    rw [List.map_cons, List.nodup_cons] at hnd
    rcases List.mem_cons.mp hx with heq | hx
    · obtain ⟨rfl, rfl⟩ := Prod.mk.inj heq
      have hold := s.dropAllAppended_seqs_out hnd.1
      cases found with
      | none => exact hold
      | some b =>
        change Function.update (s.dropAllAppended validated).seqs x _ x = _
        rw [Function.update_self, hold]
        rfl
    · have hmem : x ∈ validated.map Prod.fst := List.mem_map_of_mem hx
      have hxy : x ≠ y := fun heq => hnd.1 (heq ▸ hmem)
      have hrec := ih hnd.2 hx
      cases got with
      | none => exact hrec
      | some b =>
        change Function.update (s.dropAllAppended validated).seqs y _ x = _
        rw [Function.update_of_ne hxy]
        exact hrec

theorem OwnIf.dropAllAppended (h : OwnIf distinct cfg live s.table cov s)
    (hnd : (validated.map Prod.fst).Nodup) (hand : (validated.filterMap Prod.snd).Nodup)
    (hlive : ∀ v ∈ validated, ∀ b, v.2 = some b → v.1 ∈ live)
    (htail : ∀ v ∈ validated, ∀ b, v.2 = some b →
      s.table v.1 = (s.table v.1).dropLast ++ [b] ∧ (s.blocks b).refCount = 1) :
    OwnIf distinct cfg live (s.dropAllAppended validated).table cov (s.dropAllAppended validated) := by
  induction validated with
  | nil => exact h
  | cons v validated ih =>
    obtain ⟨x, found⟩ := v
    rw [List.map_cons, List.nodup_cons] at hnd
    cases found with
    | none =>
      exact ih hnd.2 (by simpa using hand) (fun v hv => hlive v (List.mem_cons_of_mem _ hv))
        (fun v hv => htail v (List.mem_cons_of_mem _ hv))
    | some b =>
      rw [appended_cons_some, List.nodup_cons] at hand
      have hrest := ih hnd.2 hand.2 (fun v hv => hlive v (List.mem_cons_of_mem _ hv))
        (fun v hv => htail v (List.mem_cons_of_mem _ hv))
      obtain ⟨hlast, href⟩ := htail (x, some b) (by simp) b rfl
      have hx := hlive (x, some b) (by simp) b rfl
      obtain ⟨u, hu⟩ : ∃ u, u = s.dropAllAppended validated := ⟨_, rfl⟩
      rw [← hu] at hrest
      have hux : u.table x = (s.table x).dropLast ++ [b] := by
        rw [State.table, hu, s.dropAllAppended_seqs_out hnd.1]
        exact hlast
      have hub : u.blocks b = s.blocks b := by
        rw [hu, s.dropAllAppended_blocks]
        simp only [hand.1, ↓reduceIte]
      change OwnIf distinct cfg live ((s.dropAllAppended validated).dropAppended x b).table cov
        ((s.dropAllAppended validated).dropAppended x b)
      rw [← hu]
      have htab : (u.dropAppended x b).table =
          Function.update u.table x (s.table x).dropLast := by
        funext y
        by_cases hyx : y = x
        · subst hyx
          have hdrop : (u.table y).dropLast = (s.table y).dropLast := by
            rw [hux, List.dropLast_concat]
          rw [Function.update_self, ← hdrop]
          simp [State.dropAppended, State.table, State.setSeq]
        · simp [State.dropAppended, State.table, State.setSeq, hyx]
      rw [htab]
      apply hrest.pop hx hux
      · change Function.update u.blocks b { u.blocks b with refCount := 0 } = _
        rw [hub, href]
      · rfl
      · intro hne
        exact absurd (by rw [hub]; exact href) hne
      · intro _
        exact ⟨List.Perm.refl _, rfl⟩

end Drop

end NanoVllm
