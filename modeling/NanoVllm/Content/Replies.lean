/- module: NanoVllm/Content/Replies
   layer: invariant
   source: nanovllm/engine/model_runner.py, run; nanovllm/engine/speculative_execution.py,
     target_logits; nanovllm/layers/attention.py
   digest: Behind a sound cache each query is answered as its row's own prefix alone would be. -/

import NanoVllm.Content.StepCache
import NanoVllm.Engine.SpeculativeExecution
import NanoVllm.Inputs.Queries
import NanoVllm.Reference.Course

set_option autoImplicit false
set_option relaxedAutoImplicit false

namespace NanoVllm

open Library

variable {κ : Type} {cfg : Config} {s u q base : State} {entry : List κ → Nat → κ}
  {cache : Int → κ} {x : Nat} {batch decodes prefills words : List Nat}
  {chunks : List (Nat × List Nat)} {feds : List FedWord}

/-- The token behind `words`, from the entries of all but the last of them and that one. -/
def nextOf (entry : List κ → Nat → κ) (reply : List κ → Nat → Nat) (words : List Nat) : Nat :=
  reply (entriesOf entry words.dropLast) (words.getLastD 0)

theorem nextOf_concat (entry : List κ → Nat → κ) (reply : List κ → Nat → Nat) (words : List Nat)
    (word : Nat) : nextOf entry reply (words ++ [word]) = reply (entriesOf entry words) word := by
  unfold nextOf
  rw [List.dropLast_concat, List.getLastD_concat]

section Feeding

variable (h : Feeding cfg s chunks feds) (hown : Owns cfg s) (hs : Sound cfg entry s cache)

include h hown hs

private theorem Feeding.answer (reply : List κ → Nat → Nat) (hx : (x, words) ∈ chunks) {i word : Nat}
    (hword : words[i]? = some word) :
    reply (((FedWord.query cfg.kvcacheBlockSize s
        ⟨x, (s.seqs x).numCachedTokens + i, word⟩).reads).map
          (pass entry cache (feds.map (FedWord.query cfg.kvcacheBlockSize s)))) word =
      nextOf entry reply (((s.seqs x).tokenIds.take (s.seqs x).numCachedTokens ++ words).take
        ((s.seqs x).numCachedTokens + i + 1)) := by
  have hi := (List.getElem?_eq_some_iff.mp hword).1
  have hpop := h.populated hown hs hx
  have hlen : ((s.seqs x).tokenIds.take (s.seqs x).numCachedTokens).length =
      (s.seqs x).numCachedTokens := by
    have hle := hpop.le_length
    rw [List.length_append, List.length_take] at hle
    rw [List.length_take]
    omega
  have hat : ((s.seqs x).tokenIds.take (s.seqs x).numCachedTokens ++ words)[
      (s.seqs x).numCachedTokens + i]? = some word := by
    rw [List.getElem?_append_right (by omega), hlen, Nat.add_sub_cancel_left]
    exact hword
  have hreads := (hpop.mono (m := (s.seqs x).numCachedTokens + i) (by omega)).map_range
  rw [List.take_add_one, hat, Option.toList_some, nextOf_concat, ← hreads]
  show reply (((List.range _).map _).map _) word = _
  rw [List.map_map]
  rfl

end Feeding

private theorem Feeding.replies_chunks
    (h : Feeding cfg s chunks (chunks.flatMap fun c => s.chunkFeds c.1 c.2)) (hown : Owns cfg s)
    (hs : Sound cfg entry s cache) (reply : List κ → Nat → Nat) :
    replies entry reply cache ((chunks.flatMap fun c => s.chunkFeds c.1 c.2).map
        (FedWord.query cfg.kvcacheBlockSize s)) =
      chunks.flatMap fun c => (List.range c.2.length).map fun i => nextOf entry reply
        (((s.seqs c.1).tokenIds.take (s.seqs c.1).numCachedTokens ++ c.2).take
          ((s.seqs c.1).numCachedTokens + i + 1)) := by
  rw [replies_eq entry reply (h.causal hown), List.map_map]
  obtain ⟨after, hafter⟩ : ∃ after, after = pass entry cache
    ((chunks.flatMap fun c => s.chunkFeds c.1 c.2).map (FedWord.query cfg.kvcacheBlockSize s)) :=
      ⟨_, rfl⟩
  rw [← hafter, List.map_flatMap]
  refine List.flatMap_congr fun c hc => List.ext_getElem? fun i => ?_
  unfold State.chunkFeds
  rw [List.map_map, List.getElem?_map, List.getElem?_zipIdx, List.getElem?_map]
  cases hword : c.2[i]? with
  | none =>
    have hle := List.getElem?_eq_none_iff.mp hword
    rw [List.getElem?_eq_none (by simpa using hle)]
    rfl
  | some word =>
    have hlt := (List.getElem?_eq_some_iff.mp hword).1
    have hone := h.answer hown hs reply hc hword
    rw [← hafter] at hone
    rw [List.getElem?_range hlt]
    exact congrArg some hone

def rowReplies (entry : List κ → Nat → κ) (reply : List κ → Nat → Nat) : RunnerRow → List Nat
  | .sequence seq => (List.range (RunnerRow.sequence seq).inputTokens.length).map fun i =>
    nextOf entry reply ((seq.tokenIds.take seq.numCachedTokens ++
      (RunnerRow.sequence seq).inputTokens).take (seq.numCachedTokens + i + 1))
  | _ => []

private theorem drop_take_flatMap {α β : Type} {f : α → List β} {m : Nat} :
    ∀ {l : List α} (_ : ∀ a ∈ l, (f a).length = m) {i : Nat} {a : α}, l[i]? = some a →
      ((l.flatMap f).drop (i * m)).take m = f a
  | [], _, _, _, ha => absurd ha (by simp)
  | first :: l, hlen, 0, a, ha => by
    obtain rfl := Option.some.inj ha
    rw [Nat.zero_mul, List.drop_zero, List.flatMap_cons,
      List.take_append_of_le_length (hlen _ List.mem_cons_self).ge,
      List.take_of_length_le (hlen _ List.mem_cons_self).le]
  | first :: l, hlen, i + 1, a, ha => by
    have hrest := drop_take_flatMap (fun b hb => hlen b (List.mem_cons_of_mem first hb)) (i := i) ha
    rw [List.flatMap_cons, Nat.succ_mul, Nat.add_comm, ← List.drop_drop,
      ← hlen first List.mem_cons_self, List.drop_left]
    rw [← hlen first List.mem_cons_self] at hrest
    exact hrest

private theorem flatMap_getD_of_length_one {α : Type} {f : α → List Nat} {l : List α}
    (hlen : ∀ a ∈ l, (f a).length = 1) {i : Nat} {a : α} (ha : l[i]? = some a) :
    (l.flatMap f).getD i 0 = (f a).getLastD 0 := by
  have hcut := drop_take_flatMap hlen ha
  obtain ⟨token, htoken⟩ := List.length_eq_one_iff.mp (hlen a (List.mem_of_getElem? ha))
  rw [Nat.mul_one, htoken] at hcut
  have hget : (l.flatMap f)[i]? = some token := by
    have hhead := congrArg (fun l => l[0]?) hcut
    simpa using hhead
  rw [List.getD_eq_getElem?_getD, hget, htoken]
  rfl

section Batch

variable (h : Batched cfg decodes prefills u) (hst : Staged cfg [] (decodes ++ prefills) u)
  (reply : List κ → Nat → Nat)

include h hst

private theorem Batched.rowReplies_last (hx : x ∈ decodes ++ prefills) (hfull : (u.seqs x).Complete) :
    (rowReplies entry reply (.sequence (u.seqs x))).getLastD 0 =
      nextOf entry reply (u.seqs x).tokenIds := by
  have hsum : (u.seqs x).numCachedTokens + (u.seqs x).numScheduledTokens =
      (u.seqs x).tokenIds.length := hfull
  have hall : (RunnerRow.sequence (u.seqs x)).inputTokens =
      (u.seqs x).tokenIds.drop (u.seqs x).numCachedTokens := by
    rw [h.inputTokens_eq hst hx]
    refine List.take_of_length_le ?_
    rw [List.length_drop]
    omega
  have hlen : (RunnerRow.sequence (u.seqs x)).inputTokens.length =
      (u.seqs x).numScheduledTokens := (h.feeds hx).inputs
  obtain ⟨n, hn⟩ : ∃ n, (u.seqs x).numScheduledTokens = n + 1 :=
    ⟨_, (Nat.succ_pred_eq_of_pos (h.scheduled hx)).symm⟩
  unfold rowReplies
  dsimp only
  rw [hlen, hn, List.range_succ, List.map_append, List.map_singleton, List.getLastD_concat, hall,
    List.take_append_drop, List.take_of_length_le (by omega)]

omit hst in
private theorem Batched.rowReplies_length (entry : List κ → Nat → κ) :
    ∀ row ∈ u.runnerRows (decodes ++ prefills),
      (rowReplies entry reply row).length = row.numScheduledTokens := by
  intro row hrow
  obtain ⟨x, hx, rfl⟩ := List.mem_map.mp hrow
  unfold rowReplies
  dsimp only
  rw [List.length_map, List.length_range]
  exact (h.feeds hx).inputs

private theorem Batched.run_replies (hne : decodes ++ prefills ≠ []) (hq : q.seqs = u.seqs)
    (hs : Sound cfg entry u cache) (sequential : Bool) (proposals : List (List Nat)) :
    replies entry reply cache ((TargetCall.run (decodes ++ prefills) (decide (prefills ≠ []))
        q).queries cfg sequential proposals) =
      (u.runnerRows (decodes ++ prefills)).flatMap (rowReplies entry reply) := by
  rw [h.run_queries hst hne hq, (h.feeding hst).replies_chunks h.ready.2.owns hs reply]
  unfold State.batchChunks State.runnerRows
  rw [List.flatMap_map, List.flatMap_map]
  rfl

theorem Batched.run_answer (hne : decodes ++ prefills ≠ []) (hq : q.seqs = u.seqs)
    (hs : Sound cfg entry u cache) (sequential : Bool) (proposals : List (List Nat)) {i : Nat}
    (hx : (decodes ++ prefills)[i]? = some x) (hfull : (u.seqs x).Complete) :
    (replies entry reply cache ((TargetCall.run (decodes ++ prefills) (decide (prefills ≠ []))
        q).queries cfg sequential proposals)).getD
      (lastQuery (decide (prefills ≠ [])) (q.runnerRows (decodes ++ prefills)) i) 0 =
        nextOf entry reply (u.seqs x).tokenIds := by
  have hrow : (u.runnerRows (decodes ++ prefills))[i]? = some (.sequence (u.seqs x)) := by
    unfold State.runnerRows
    rw [List.getElem?_map, hx]
    rfl
  have hrows : q.runnerRows (decodes ++ prefills) = u.runnerRows (decodes ++ prefills) := by
    unfold State.runnerRows
    rw [hq]
  have hmem := List.mem_of_getElem? hx
  rw [h.run_replies hst reply hne hq hs, hrows, ← h.rowReplies_last hst reply hmem hfull]
  by_cases hpure : prefills = []
  · subst hpure
    rw [List.append_nil] at hrow ⊢
    refine flatMap_getD_of_length_one (fun row hin => ?_) hrow
    obtain ⟨y, hy, rfl⟩ := List.mem_map.mp hin
    have hlen := h.rowReplies_length reply entry (.sequence (u.seqs y))
      (by rw [List.append_nil]; exact List.mem_map_of_mem hy)
    exact hlen.trans (h.decode y hy).2
  · rw [decide_eq_true hpure]
    exact getD_lastQuery h.feeds_rows (h.rowReplies_length reply entry) 0 hrow

end Batch

private theorem targetTokens_eq (T : List Nat → Nat) (proposed : List Nat) : ∀ tokens : List Nat,
    targetTokens T tokens proposed =
      (List.range (proposed.length + 1)).map fun i => T (tokens ++ proposed.take i) := by
  induction proposed with
  | nil =>
    intro tokens
    show [T tokens] = [T (tokens ++ [])]
    rw [List.append_nil]
  | cons token rest ih =>
    intro tokens
    unfold targetTokens
    rw [ih, List.length_cons, List.range_succ_eq_map (n := rest.length + 1), List.map_cons,
      List.map_map, List.take_zero, List.append_nil]
    refine congrArg _ (List.map_congr_left fun i _ => ?_)
    show _ = T (tokens ++ (token :: rest).take (i + 1))
    rw [List.take_succ_cons, List.append_assoc, List.singleton_append]

/-- A verification is answered, row by row, with the next tokens behind the last token and behind
each proposal. -/
theorem Verifying.greedyResults_eq {rollback : List DecodeScheduleRollbackRow} {ids : List Nat}
    {leased : List (Nat × List Nat)} {tr : ActiveSpecTransaction}
    (h : Verifying cfg u rollback ids base leased tr q) (hout : BatchOut cfg batch [] u)
    (hdigest : cfg.Resolves entry) (hs : Sound cfg entry u cache) (hne : batch ≠ [])
    (reply : List κ → Nat → Nat) {proposals : List (List Nat)}
    (hlen : proposals.length = batch.length)
    (hk : ∀ drafted ∈ proposals, drafted.length = tr.plan.effectiveK) :
    greedyResults tr.plan.effectiveK (replies entry reply cache
        ((TargetCall.verify tr.plan batch q).queries cfg false proposals)) batch proposals =
      (batch.zip proposals).map fun row => greedyResult row.1
        (targetTokens (nextOf entry reply) (q.seqs row.1).tokenIds row.2) row.2 := by
  have hcore := hout.ready.2
  have hsq : Sound cfg entry q cache := hs.carried hdigest hcore.owns (h.carries hcore)
  have hsize : ∀ c ∈ q.verifyChunks batch proposals, c.2.length = tr.plan.effectiveK + 1 :=
    State.verifyChunks_size hk q
  have hfeeding := feeding_chunks (hout.verifyChunks_nodup (q := q) hlen)
    (h.verifyChunks_live hout proposals) (h.verifyChunks_fit hout hk)
  have hreplies := hfeeding.replies_chunks (h.core hcore).owns hsq reply
  rw [← h.gathered_queries hout hlen hk hne] at hreplies
  unfold greedyResults
  rw [hreplies]
  apply List.ext_getElem?
  intro i
  rw [List.getElem?_map, List.getElem?_zipIdx, List.getElem?_map]
  cases hrow : (batch.zip proposals)[i]? with
  | none => rfl
  | some row =>
    have hin := List.of_mem_zip (List.mem_of_getElem? hrow)
    have hchunk : (q.verifyChunks batch proposals)[i]? = some (row.1,
        (q.seqs row.1).tokenIds.getD ((q.seqs row.1).tokenIds.length - 1) 0 :: row.2) := by
      unfold State.verifyChunks
      rw [List.getElem?_map, hrow]
      rfl
    have hcut := drop_take_flatMap (m := tr.plan.effectiveK + 1)
      (f := fun c : Nat × List Nat => (List.range c.2.length).map fun j => nextOf entry reply
        (((q.seqs c.1).tokenIds.take (q.seqs c.1).numCachedTokens ++ c.2).take
          ((q.seqs c.1).numCachedTokens + j + 1)))
      (fun c hc => ((List.length_map _).trans List.length_range).trans (hsize c hc)) hchunk
    have hcached : (q.seqs row.1).numCachedTokens + 1 = (q.seqs row.1).tokenIds.length :=
      h.cached_succ hout hin.1
    have htargets : targetTokens (nextOf entry reply) (q.seqs row.1).tokenIds row.2 =
        (List.range (row.2.length + 1)).map fun j => nextOf entry reply
          ((q.seqs row.1).tokenIds ++ row.2.take j) := targetTokens_eq _ _ _
    show some (greedyResult row.1 _ row.2) = some (greedyResult row.1 _ row.2)
    rw [Nat.zero_add, hcut, htargets]
    dsimp only
    rw [Sequence.take_cached_append _ hcached, List.length_cons]
    congr 2
    refine List.map_congr_left fun j _ => ?_
    rw [show (q.seqs row.1).numCachedTokens + j + 1 = (q.seqs row.1).tokenIds.length + j by omega,
      List.take_length_add_append]

end NanoVllm
