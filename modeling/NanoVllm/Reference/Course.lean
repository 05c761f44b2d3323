/- module: NanoVllm/Reference/Course
   layer: invariant
   source: nanovllm/engine/scheduler.py, the stop rule of postprocess and commit_speculative
   digest: Commits of next tokens keep every request on the way to its reference output. -/

import NanoVllm.Engine.SpeculativeExecution
import NanoVllm.Library.Unroll
import NanoVllm.Reference.Texts

set_option autoImplicit false
set_option relaxedAutoImplicit false

namespace NanoVllm

open Library

variable {cfg : Config} {T : List Nat → Nat} {s t u : State} {q r : Sequence} {x token : Nat}
  {tokens rest live live' : List Nat} {known : Nat} {start : Nat → Sequence}

def Sequence.stopToken (cfg : Config) (q : Sequence) (token : Nat) : Bool :=
  !q.ignoreEos && decide ((token : Int) = cfg.eos)

/-- What the next-token function `T` makes of the prompt alone. -/
def Sequence.reference (cfg : Config) (T : List Nat → Nat) (q : Sequence) : List Nat :=
  unroll T (q.stopToken cfg) (q.maxTokens - 1) (q.tokenIds.take q.numPromptTokens)

def Sequence.goal (cfg : Config) (T : List Nat → Nat) (q : Sequence) : List Nat :=
  unroll T (q.stopToken cfg) (q.maxTokens - 1 - q.numCompletionTokens) q.tokenIds

theorem Sequence.reference_new (cfg : Config) (T : List Nat → Nat) (tokenIds : List Nat)
    (maxTokens : Nat) (ignoreEos : Bool) :
    (Sequence.new tokenIds maxTokens ignoreEos).reference cfg T =
      unroll T (fun token => !ignoreEos && decide ((token : Int) = cfg.eos)) (maxTokens - 1)
        tokenIds :=
  congrArg (unroll T _ _) (List.take_length)

structure Sequence.Gains (r q : Sequence) (tokens : List Nat) : Prop where
  tokenIds : r.tokenIds = q.tokenIds ++ tokens
  prompt : r.numPromptTokens = q.numPromptTokens
  maxTokens : r.maxTokens = q.maxTokens
  ignoreEos : r.ignoreEos = q.ignoreEos

private theorem Sequence.SameText.gains (h : r.SameText q) : r.Gains q [] :=
  ⟨by rw [h.tokenIds, List.append_nil], h.prompt, h.maxTokens, h.ignoreEos⟩

private theorem Sequence.Gains.trans {p : Sequence} (h : r.Gains q rest) (hq : q.Gains p tokens) :
    r.Gains p (tokens ++ rest) where
  tokenIds := by rw [h.tokenIds, hq.tokenIds, List.append_assoc]
  prompt := h.prompt.trans hq.prompt
  maxTokens := h.maxTokens.trans hq.maxTokens
  ignoreEos := h.ignoreEos.trans hq.ignoreEos

section Gains

variable (h : r.Gains q tokens) (hprompt : q.numPromptTokens ≤ q.numTokens)

include h

private theorem Sequence.Gains.stopToken : r.stopToken cfg = q.stopToken cfg := by
  funext token
  unfold Sequence.stopToken
  rw [h.ignoreEos]

include hprompt

private theorem Sequence.Gains.prompt_le : r.numPromptTokens ≤ r.numTokens := by
  show _ ≤ r.tokenIds.length
  rw [h.prompt, h.tokenIds, List.length_append]
  exact hprompt.trans (Nat.le_add_right _ _)

private theorem Sequence.Gains.completion :
    r.numCompletionTokens = q.numCompletionTokens + tokens.length := by
  show r.tokenIds.length - _ = q.tokenIds.length - _ + _
  have hle : q.numPromptTokens ≤ q.tokenIds.length := hprompt
  rw [h.prompt, h.tokenIds, List.length_append]
  omega

theorem Sequence.Gains.reference : r.reference cfg T = q.reference cfg T := by
  unfold Sequence.reference
  rw [h.stopToken, h.maxTokens, h.prompt, h.tokenIds, List.take_append_of_le_length hprompt]

end Gains

private theorem Sequence.SameText.goal (h : r.SameText q) : r.goal cfg T = q.goal cfg T := by
  have hlen : r.numTokens = q.numTokens := congrArg List.length h.tokenIds
  unfold Sequence.goal Sequence.numCompletionTokens
  rw [h.gains.stopToken, h.maxTokens, h.prompt, h.tokenIds, hlen]

/-- With its last token, a request that stops has its reference output; one that goes on is still
on its way there. -/
def Sequence.Arrives (cfg : Config) (T : List Nat → Nat) (r : Sequence) (token : Nat) : Prop :=
  if stopsAt cfg r token then r.tokenIds = r.reference cfg T
  else r.goal cfg T = r.reference cfg T

private theorem Sequence.Gains.arrives (h : r.Gains q [token])
    (hprompt : q.numPromptTokens ≤ q.numTokens)
    (hgoal : q.goal cfg T = q.reference cfg T) (htoken : token = T q.tokenIds) :
    r.Arrives cfg T token := by
  have hdone := h.completion hprompt
  rw [List.length_singleton] at hdone
  have hstops : stopsAt cfg r token =
      (q.stopToken cfg token || decide (q.maxTokens ≤ q.numCompletionTokens + 1)) := by
    unfold stopsAt Sequence.stopToken
    rw [h.ignoreEos, h.maxTokens, hdone]
  unfold Sequence.goal at hgoal
  unfold Sequence.Arrives
  rw [hstops, h.reference hprompt, ← hgoal]
  by_cases hstop : q.stopToken cfg token = true ∨ q.maxTokens - 1 - q.numCompletionTokens = 0
  · -- the end of the budget and a stop token both end the unrolled list
    have hend : (q.stopToken cfg token || decide (q.maxTokens ≤ q.numCompletionTokens + 1)) =
        true := by
      rcases hstop with hstop | hbudget
      · rw [hstop, Bool.true_or]
      · rw [Bool.or_eq_true_iff, decide_eq_true_iff]
        exact Or.inr (by omega)
    rw [if_pos hend, h.tokenIds, unroll_last, htoken]
    rcases hstop with hstop | hbudget
    · exact Or.inr (htoken ▸ hstop)
    · exact Or.inl hbudget
  · rw [not_or, Bool.not_eq_true] at hstop
    obtain ⟨hstop, hbudget⟩ := hstop
    have hon : ¬ (q.stopToken cfg token || decide (q.maxTokens ≤ q.numCompletionTokens + 1)) =
        true := by
      rw [hstop, Bool.false_or, decide_eq_true_iff]
      omega
    have hnext : q.maxTokens - 1 - q.numCompletionTokens =
        (q.maxTokens - 1 - (q.numCompletionTokens + 1)) + 1 := by omega
    rw [if_neg hon, hnext, unroll_next T _ (htoken ▸ hstop)]
    unfold Sequence.goal
    rw [h.stopToken, h.maxTokens, hdone, h.tokenIds, htoken]

theorem committedBurst_congr (hmax : r.maxTokens = q.maxTokens) (heos : r.ignoreEos = q.ignoreEos) :
    ∀ (tokens : List Nat) (done : Nat),
      committedBurst cfg r tokens done = committedBurst cfg q tokens done := by
  intro tokens
  induction tokens with
  | nil => exact fun _ => rfl
  | cons token rest ih =>
    intro done
    unfold committedBurst
    rw [hmax, heos, ih]

private theorem Sequence.Gains.burst_arrives {committed : List Nat} {q : Sequence}
    (h : r.Gains q (committedBurst cfg q committed q.numCompletionTokens))
    (hne : committedBurst cfg q committed q.numCompletionTokens ≠ [])
    (hprompt : q.numPromptTokens ≤ q.numTokens) (hgoal : q.goal cfg T = q.reference cfg T)
    (hfollows : Follows T q.tokenIds committed) :
    r.Arrives cfg T ((committedBurst cfg q committed q.numCompletionTokens).getLastD 0) := by
  induction committed generalizing q with
  | nil => exact absurd rfl hne
  | cons token rest ih =>
    obtain ⟨htoken, hrest⟩ := hfollows
    unfold committedBurst at h hne ⊢
    by_cases hbudget : q.maxTokens ≤ q.numCompletionTokens
    · rw [if_pos hbudget] at hne
      exact absurd rfl hne
    rw [if_neg hbudget] at h hne ⊢
    by_cases heos : (!q.ignoreEos && decide ((token : Int) = cfg.eos)) = true
    · rw [if_pos heos] at h ⊢
      exact h.arrives hprompt hgoal htoken
    rw [if_neg heos] at h hne ⊢
    have hone : (q.appendToken token).Gains q [token] := ⟨rfl, rfl, rfl, rfl⟩
    have hdone : (q.appendToken token).numCompletionTokens = q.numCompletionTokens + 1 :=
      hone.completion hprompt
    have hburst : committedBurst cfg q rest (q.numCompletionTokens + 1) =
        committedBurst cfg (q.appendToken token) rest
          (q.appendToken token).numCompletionTokens := by
      rw [hdone]
      exact committedBurst_congr (r := q) (q := q.appendToken token) rfl rfl rest _
    rw [hburst] at h hne ⊢
    by_cases hnil : committedBurst cfg (q.appendToken token) rest
        (q.appendToken token).numCompletionTokens = []
    · rw [hnil] at h ⊢
      exact h.arrives hprompt hgoal htoken
    -- the budget reaches beyond this token, so the request goes on behind it
    have hroom : ¬ q.maxTokens ≤ q.numCompletionTokens + 1 := by
      intro hle
      apply hnil
      rw [hdone]
      cases rest with
      | nil => rfl
      | cons later rest => exact if_pos hle
    have hgo := hone.arrives hprompt hgoal htoken
    unfold Sequence.Arrives at hgo
    have hstops : ¬ stopsAt cfg (q.appendToken token) token = true := by
      unfold stopsAt
      rw [hdone, Bool.or_eq_true_iff, decide_eq_true_iff, not_or]
      exact ⟨heos, hroom⟩
    rw [if_neg hstops] at hgo
    have hmore : r.Gains (q.appendToken token) (committedBurst cfg (q.appendToken token) rest
        (q.appendToken token).numCompletionTokens) := by
      refine ⟨h.tokenIds.trans ?_, h.prompt, h.maxTokens, h.ignoreEos⟩
      exact List.append_cons _ _ _
    rw [List.getLastD_cons, List.getLastD_eq_getLast?]
    have hlast := ih hmore hnil (hone.prompt_le hprompt) hgo hrest
    rw [List.getLastD_eq_getLast?] at hlast
    cases hl : (committedBurst cfg (q.appendToken token) rest
      (q.appendToken token).numCompletionTokens).getLast? with
    | none => exact absurd (List.getLast?_eq_none_iff.mp hl) hnil
    | some last =>
      rw [hl] at hlast
      exact hlast

/-- Every request has a part of its reference output, a finished one all of it, and a queued one
is on its way there; below `known` it is the request that `start` records, with more tokens. -/
structure OnCourse (cfg : Config) (T : List Nat → Nat) (known : Nat) (start : Nat → Sequence)
    (s : State) : Prop where
  issued : known ≤ s.nextSeqId
  asked : ∀ x < known, ∃ tokens, (s.seqs x).Gains (start x) tokens
  prompt : ∀ x, (s.seqs x).numPromptTokens ≤ (s.seqs x).numTokens
  reached : ∀ x, (s.seqs x).tokenIds <+: (s.seqs x).reference cfg T
  queued : ∀ x ∈ s.running ++ s.waiting, (s.seqs x).goal cfg T = (s.seqs x).reference cfg T
  finished : ∀ x, (s.seqs x).status = .finished →
    (s.seqs x).tokenIds = (s.seqs x).reference cfg T

theorem Sequence.goal_reached (q : Sequence) : q.tokenIds <+: q.goal cfg T :=
  prefix_unroll T _ _ _

theorem OnCourse.silent (h : OnCourse cfg T known start s)
    (hsilent : Silent (s.running ++ s.waiting) s (t.running ++ t.waiting) t) :
    OnCourse cfg T known start t where
  issued := by
    rw [hsilent.issued]
    exact h.issued
  asked x hx := by
    obtain ⟨tokens, hgains⟩ := h.asked x hx
    exact ⟨_, (hsilent.texts x).gains.trans hgains⟩
  prompt x := (hsilent.texts x).gains.prompt_le (h.prompt x)
  reached x := by
    rw [(hsilent.texts x).tokenIds, (hsilent.texts x).gains.reference (h.prompt x)]
    exact h.reached x
  queued x hx := by
    rw [(hsilent.texts x).goal, (hsilent.texts x).gains.reference (h.prompt x)]
    exact h.queued x (hsilent.queued x hx)
  finished x hx := by
    rw [(hsilent.texts x).tokenIds, (hsilent.texts x).gains.reference (h.prompt x)]
    exact h.finished x ((hsilent.texts x).finished hx)

theorem OnCourse.replace (h : OnCourse cfg T known start s)
    (hseqs : t.seqs = Function.update s.seqs x r) (hnext : s.nextSeqId ≤ t.nextSeqId)
    (hlive : ∀ y ∈ t.running ++ t.waiting, y ≠ x → y ∈ s.running ++ s.waiting)
    (hasked : x < known → ∃ tokens, r.Gains (start x) tokens)
    (hprompt : r.numPromptTokens ≤ r.numTokens) (hreached : r.tokenIds <+: r.reference cfg T)
    (hqueued : x ∈ t.running ++ t.waiting → r.goal cfg T = r.reference cfg T)
    (hfinished : r.status = .finished → r.tokenIds = r.reference cfg T) :
    OnCourse cfg T known start t := by
  have hself : t.seqs x = r := by rw [hseqs, Function.update_self]
  have hother : ∀ y, y ≠ x → t.seqs y = s.seqs y := by
    intro y hyx
    rw [hseqs, Function.update_of_ne hyx]
  -- field by field, the replaced record first
  refine ⟨h.issued.trans hnext, fun y hy => ?_, fun y => ?_, fun y => ?_, fun y hy => ?_,
    fun y hy => ?_⟩
  · by_cases hyx : y = x
    · rw [hyx, hself]
      exact hasked (hyx ▸ hy)
    · rw [hother y hyx]
      exact h.asked y hy
  · by_cases hyx : y = x
    · rw [hyx, hself]
      exact hprompt
    · rw [hother y hyx]
      exact h.prompt y
  · by_cases hyx : y = x
    · rw [hyx, hself]
      exact hreached
    · rw [hother y hyx]
      exact h.reached y
  · by_cases hyx : y = x
    · rw [hyx, hself]
      exact hqueued (hyx ▸ hy)
    · rw [hother y hyx]
      exact h.queued y (hlive y hy hyx)
  · by_cases hyx : y = x
    · rw [hyx, hself] at hy ⊢
      exact hfinished hy
    · rw [hother y hyx] at hy ⊢
      exact h.finished y hy

private theorem OnCourse.gained (h : OnCourse cfg T known start s)
    (hseqs : t.seqs = Function.update s.seqs x r) (hgains : r.Gains (s.seqs x) tokens)
    (hnext : t.nextSeqId = s.nextSeqId)
    (hlive : ∀ y ∈ t.running ++ t.waiting, y ∈ s.running ++ s.waiting)
    (hend : r.tokenIds = r.reference cfg T ∧ x ∉ t.running ++ t.waiting ∨
      r.goal cfg T = r.reference cfg T ∧ r.status ≠ .finished) :
    OnCourse cfg T known start t := by
  refine h.replace hseqs hnext.ge (fun y hy _ => hlive y hy) (fun hx => ?_)
    (hgains.prompt_le (h.prompt x)) ?_ (fun hin => ?_) fun hstatus => ?_
  · obtain ⟨had, hhad⟩ := h.asked x hx
    exact ⟨_, hgains.trans hhad⟩
  · rcases hend with ⟨hall, -⟩ | ⟨hgoal, -⟩
    · rw [← hall]
    · rw [← hgoal]
      exact r.goal_reached
  · rcases hend with ⟨-, hout⟩ | ⟨hgoal, -⟩
    · exact absurd hin hout
    · exact hgoal
  · rcases hend with ⟨hall, -⟩ | ⟨-, hon⟩
    · exact hall
    · exact absurd hstatus hon

section Commit

variable (h : OnCourse cfg T known start s) (hnd : (s.running ++ s.waiting).Nodup)

include h hnd

private theorem OnCourse.settle (hx : x ∈ s.running) (hseqs : u.seqs = Function.update s.seqs x r)
    (hcontrol : u.control = s.control) (hgains : r.Gains (s.seqs x) tokens)
    (hstatus : r.status ≠ .finished) (harrives : r.Arrives cfg T token) :
    OnCourse cfg T known start (if stopsAt cfg (u.seqs x) token then u.retire x else u) := by
  have hrun : u.running = s.running := congrArg Control.running hcontrol
  have hwait : u.waiting = s.waiting := congrArg Control.waiting hcontrol
  have hnext : u.nextSeqId = s.nextSeqId := congrArg Control.nextSeqId hcontrol
  have hself : u.seqs x = r := by rw [hseqs, Function.update_self]
  rw [hself]
  unfold Sequence.Arrives at harrives
  split <;> rename_i hstop
  · rw [if_pos hstop] at harrives
    have hretire := u.retire_control x
    have hrun' : (u.retire x).running = s.running.erase x :=
      (congrArg Control.running hretire).trans (congrArg (List.erase · x) hrun)
    have hwait' : (u.retire x).waiting = s.waiting :=
      (congrArg Control.waiting hretire).trans hwait
    refine h.gained (r := { r with
      status := .finished
      numCachedTokens := 0
      numDraftCachedTokens := 0
      blockTable := [] }) (x := x) ?_ ⟨hgains.tokenIds, hgains.prompt, hgains.maxTokens,
        hgains.ignoreEos⟩ ((congrArg Control.nextSeqId hretire).trans hnext) (fun y hy => ?_)
      (Or.inl ⟨harrives, fun hin => ?_⟩)
    · rw [u.retire_seqs x, hself, hseqs, Function.update_idem]
    · rw [hrun', hwait'] at hy
      rcases List.mem_append.mp hy with hy | hy
      · exact List.mem_append_left _ (List.mem_of_mem_erase hy)
      · exact List.mem_append_right _ hy
    · rw [hrun', hwait'] at hin
      obtain ⟨hrunnd, -, hapart⟩ := List.nodup_append.mp hnd
      rcases List.mem_append.mp hin with hin | hin
      · exact ((List.Nodup.mem_erase_iff hrunnd).mp hin).1 rfl
      · exact hapart x hx x hin rfl
  · rw [if_neg hstop] at harrives
    refine h.gained hseqs hgains hnext (fun y hy => ?_) (Or.inr ⟨harrives, hstatus⟩)
    rwa [hrun, hwait] at hy

end Commit

/-- A row of an ordinary commit, with the next token behind it when it is complete. -/
private theorem OnCourse.postRow (h : OnCourse cfg T known start s) (hcore : Core cfg [] s)
    (hx : s.Out cfg x)
    (htoken : (s.seqs x).Complete → token = T (s.seqs x).tokenIds) :
    OnCourse cfg T known start (s.postRow cfg x token) := by
  unfold State.postRow
  rcases hx.row with ⟨hrun, hrow⟩ | ⟨hwait, hrow⟩
  · have hfull := hrow.full hx.scheduled
    have hgains : (({ s.seqs x with
        numCachedTokens := (s.seqs x).numCachedTokens + (s.seqs x).numScheduledTokens
        numScheduledTokens := 0 } : Sequence).appendToken token).Gains (s.seqs x) [token] :=
      ⟨rfl, rfl, rfl, rfl⟩
    have hgoal := h.queued x (List.mem_append_left _ hrun)
    have hstatus : (s.seqs x).status ≠ .finished := by
      rw [hrow.status]
      exact SequenceStatus.noConfusion
    rw [if_neg hfull.not_lt]
    exact h.settle hcore.queues_nodup hrun (s.appended_seqs cfg x token)
      (s.appended_control cfg x token) hgains hstatus
      (hgains.arrives (h.prompt x) hgoal (htoken hfull))
  · rw [if_pos hrow.short]
    have hctl := s.advance_control cfg x
    refine h.silent (.update (s.advance_seqs cfg x) ⟨rfl, rfl, rfl, rfl, id⟩
      (congrArg Control.nextSeqId hctl) fun y hy => ?_)
    rwa [show (s.advance cfg x).running = s.running from congrArg Control.running hctl,
      show (s.advance cfg x).waiting = s.waiting from congrArg Control.waiting hctl] at hy

theorem OnCourse.postRows {rows : List (Nat × Nat)} (h : OnCourse cfg T known start s)
    (hnd : (rows.map Prod.fst).Nodup) (hcore : Core cfg [] s) (hq : s.Quiet)
    (hout : ∀ row ∈ rows, s.Out cfg row.1)
    (htoken : ∀ row ∈ rows, (s.seqs row.1).Complete → row.2 = T (s.seqs row.1).tokenIds) :
    OnCourse cfg T known start (State.postRows cfg s rows) := by
  induction rows generalizing s with
  | nil => exact h
  | cons row rows ih =>
    rw [List.map_cons, List.nodup_cons] at hnd
    have hne : ∀ other ∈ rows, other.1 ≠ row.1 :=
      fun other hmem heq => hnd.1 (List.mem_map.mpr ⟨other, hmem, heq⟩)
    have hx := hout row List.mem_cons_self
    refine ih (h.postRow hcore hx (htoken row List.mem_cons_self)) hnd.2
      (hcore.postprocessRow_served hq hx.served row.2).2
      ((s.postRow_control cfg row.1 row.2).quiet hq) (fun other hmem => ?_) fun other hmem => ?_
    · exact (hout other (List.mem_cons_of_mem _ hmem)).postRow (hne other hmem) row.2
    · rw [s.postRow_other cfg row.2 (hne other hmem)]
      exact htoken other (List.mem_cons_of_mem _ hmem)

/-- The tokens that `T` puts behind the tokens of a row and behind each of its proposals. -/
def targetTokens (T : List Nat → Nat) : List Nat → List Nat → List Nat
  | tokens, [] => [T tokens]
  | tokens, token :: rest => T tokens :: targetTokens T (tokens ++ [token]) rest

theorem greedyResult_follows (T : List Nat → Nat) (x : Nat) (proposed : List Nat) :
    ∀ tokens, Follows T tokens
      (greedyResult x (targetTokens T tokens proposed) proposed).committedTokenIds := by
  unfold greedyResult hostResult
  dsimp only
  induction proposed with
  | nil => exact fun tokens => ⟨rfl, trivial⟩
  | cons token rest ih =>
    intro tokens
    unfold targetTokens
    rw [matchedCount_cons]
    by_cases htoken : T tokens = token
    · rw [if_pos htoken, List.take_succ_cons, List.cons_append, List.getD_cons_succ]
      exact ⟨htoken.symm, ih (tokens ++ [token])⟩
    · rw [if_neg htoken, List.take_zero, List.nil_append, List.getD_cons_zero]
      exact ⟨rfl, trivial⟩

def State.NextBurst (cfg : Config) (T : List Nat → Nat) (s : State) (row : PreparedRow) : Prop :=
  ∃ committed, Follows T (s.seqs row.sequence).tokenIds committed ∧
    row.tokens = committedBurst cfg (s.seqs row.sequence) committed
      (s.seqs row.sequence).numCompletionTokens

private theorem OnCourse.commitOne {row : PreparedRow} (h : OnCourse cfg T known start s)
    (hcore : Core cfg [] s)
    (hx : row.sequence ∈ s.running) (hstatus : (s.seqs row.sequence).status ≠ .finished)
    (hne : row.tokens ≠ []) (hburst : s.NextBurst cfg T row) :
    OnCourse cfg T known start (s.commitOne cfg row) := by
  obtain ⟨committed, hfollows, htokens⟩ := hburst
  have hgains : ({ s.seqs row.sequence with
      tokenIds := (s.seqs row.sequence).tokenIds ++ row.tokens
      numCachedTokens := row.cached
      numDraftCachedTokens := row.draftCached
      numScheduledTokens := 0 } : Sequence).Gains (s.seqs row.sequence) row.tokens :=
    ⟨rfl, rfl, rfl, rfl⟩
  have harrives := hgains
  rw [htokens] at harrives hne
  have hgoal := h.queued _ (List.mem_append_left _ hx)
  have hend := harrives.burst_arrives hne (h.prompt _) hgoal hfollows
  rw [← htokens] at hend
  exact h.settle hcore.queues_nodup hx (s.burst_seqs cfg row) (s.burst_control cfg row) hgains
    hstatus hend

theorem OnCourse.commitAll {prepared : List PreparedRow} (h : OnCourse cfg T known start s)
    (hcore : Core cfg [] s) (hb : Bursts cfg s prepared)
    (hstatus : ∀ row ∈ prepared, (s.seqs row.sequence).status ≠ .finished)
    (hbursts : ∀ row ∈ prepared, s.NextBurst cfg T row) :
    OnCourse cfg T known start (s.commitAll cfg prepared) := by
  induction prepared generalizing s with
  | nil => exact h
  | cons row prepared ih =>
    have hx := hb.running row List.mem_cons_self
    have hfit := hb.fits row List.mem_cons_self
    have hnd := hb.distinct
    rw [List.map_cons, List.nodup_cons] at hnd
    have hsame : ∀ other ∈ prepared,
        (s.commitOne cfg row).seqs other.sequence = s.seqs other.sequence := fun other hmem =>
      s.commitOne_seqs_out cfg fun heq => hnd.1 (heq ▸ List.mem_map_of_mem hmem)
    refine ih (h.commitOne hcore hx (hstatus row List.mem_cons_self) hfit.nonempty
      (hbursts row List.mem_cons_self)) (hcore.commitOne hx hfit) hb.tail (fun other hmem => ?_)
      fun other hmem => ?_
    · rw [hsame other hmem]
      exact hstatus other (List.mem_cons_of_mem _ hmem)
    · unfold State.NextBurst
      rw [hsame other hmem]
      exact hbursts other (List.mem_cons_of_mem _ hmem)

end NanoVllm
