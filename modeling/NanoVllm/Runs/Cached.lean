/- module: NanoVllm/Runs/Cached
   layer: main result
   source: nanovllm/engine/llm_engine.py, _step_unlocked; nanovllm/layers/attention.py, store_kvcache;
     nanovllm/engine/scheduler.py and block_manager.py
   digest: In every steady run each cached position holds the entry of its row's own prefix. -/

import NanoVllm.Content.StepCache
import NanoVllm.Engine.SpeculativeExecution

set_option autoImplicit false
set_option relaxedAutoImplicit false

namespace NanoVllm

open Library

variable {κ : Type} {cfg : Config} {s t u : State} {entry : List κ → Nat → κ} {cache : Int → κ}

/-- A turn, with the lane that a verification in it takes and what a call that raises leaves in
the slots it was to fill. -/
structure CachedTurn (κ : Type) where
  turn : Turn
  sequential : Bool
  torn : Int → κ

def CachedTurn.apply (cfg : Config) (entry : List κ → Nat → κ) (c : State × (Int → κ))
    (turn : CachedTurn κ) : State × (Int → κ) :=
  (turn.turn.apply cfg c.1, match turn.turn with
    | .step answers => stepCache cfg entry answers turn.sequential turn.torn c.2 c.1
    | .call _ => c.2
    | .arrive _ => c.2)

def runCached (cfg : Config) (entry : List κ → Nat → κ) (cache : Int → κ)
    (turns : List (CachedTurn κ)) : State × (Int → κ) :=
  turns.foldl (CachedTurn.apply cfg entry) (State.init cfg, cache)

private theorem foldl_cached_fst (cfg : Config) (entry : List κ → Nat → κ)
    (turns : List (CachedTurn κ)) :
    ∀ c : State × (Int → κ), (turns.foldl (CachedTurn.apply cfg entry) c).1 =
      (turns.map CachedTurn.turn).foldl (fun s turn => turn.apply cfg s) c.1 := by
  induction turns with
  | nil => exact fun _ => rfl
  | cons turn turns ih => exact fun c => ih (turn.apply cfg entry c)

theorem runCached_fst (cfg : Config) (entry : List κ → Nat → κ) (cache : Int → κ)
    (turns : List (CachedTurn κ)) :
    (runCached cfg entry cache turns).1 = runTurns cfg (turns.map CachedTurn.turn) :=
  foldl_cached_fst cfg entry turns _

section Turn

variable (h : s.Settled cfg) (hdigest : cfg.Resolves entry) (hs : Sound cfg entry s cache)

include h hdigest hs

private theorem Sound.leaves_add (tokenIds : List Nat) (maxTokens : Nat) (ignoreEos : Bool) :
    Sound cfg entry (Call.after (add cfg tokenIds maxTokens ignoreEos s)) cache := by
  have hcore := h.1.2
  rcases add_cases cfg s tokenIds maxTokens ignoreEos with
    ⟨-, e, hres⟩ | ⟨-, -, e, hres⟩ | ⟨-, -, hres⟩ <;> rw [hres]
  · exact hs
  · exact hs.carried hdigest hcore.owns (.created hcore tokenIds maxTokens ignoreEos)
  · exact hs.carried hdigest hcore.owns (.enqueue hcore tokenIds maxTokens ignoreEos)

private theorem Sound.leaves_cancel (targets : List Nat) :
    Sound cfg entry (Call.after (cancel cfg targets s)) cache := by
  have hcore := h.1.2
  have hidle := abortSpeculativeStep_idle cfg h.1.1.transaction
  rcases (Protocol.of_ready h.1).cancel_steps targets with
    ⟨-, hres⟩ | ⟨-, ⟨e, u, hu, hres⟩ | ⟨aborted, u, hu, hdrop, hres⟩⟩
  · rw [hres]
    exact hs
  · rw [hidle] at hu
    exact absurd hu (by simp)
  · rw [hidle] at hu
    obtain ⟨-, rfl⟩ := EStateM.Result.ok.inj hu
    rw [State.dropPendingCoverage_idle h.1.1.pending] at hres
    rw [hres]
    exact hs.carried hdigest hcore.owns (.drop hcore h.1.1.toQuiet targets)

theorem Sound.leaves_schedule : Sound cfg entry (Call.after (schedule cfg s)) cache := by
  obtain ⟨done, t, batch, u, hsched, -, hok, herr⟩ := schedule_trace h.1
  have hu := hs.carried hdigest h.1.2.owns (hsched.carried h.1)
  by_cases hnil : batch = []
  · obtain ⟨message, hres⟩ := herr hnil
    rw [hres]
    exact hu
  · rw [hok hnil]
    exact hu

end Turn

theorem State.Settled.batched (h : s.Settled cfg) {batch : List Nat} {isPrefill : Bool}
    (hsched : schedule cfg s = .ok (batch, isPrefill) u) :
    ∃ decodes prefills, batch = decodes ++ prefills ∧ isPrefill = decide (prefills ≠ []) ∧
      Batched cfg decodes prefills u := by
  have hflag : Flagged s := fun x hx => (h.2.waiting x hx).prefill
  obtain ⟨decodes, prefills, hbatch, -, hpre, hbatched⟩ :=
    (Protocol.of_ready h.1).scheduled hflag hsched
  exact ⟨decodes, prefills, hbatch, hpre, hbatched⟩

theorem stepTarget_of_schedule {answers : StepAnswers} {batch : List Nat} {isPrefill : Bool}
    (hsched : schedule cfg s = .ok (batch, isPrefill) u) :
    stepTarget cfg answers s = executeTarget cfg answers batch isPrefill u := by
  unfold stepTarget
  rw [hsched]

theorem executeTarget_plain {answers : StepAnswers} {prefills : List Nat} (batch : List Nat)
    (hplain : prefills ≠ [] ∨ cfg.speculationEnabled = false) :
    executeTarget cfg answers batch (decide (prefills ≠ [])) u =
      some (.run batch (decide (prefills ≠ [])) u) := by
  refine if_pos ?_
  rcases hplain with hpre | hspec
  · simp [hpre]
  · simp [hspec]

/-- An engine step that commits, cannot be scheduled, or fails on a decode batch with speculation
enabled. -/
private theorem Sound.step (h : s.Settled cfg) (hdigest : cfg.Resolves entry)
    (hs : Sound cfg entry s cache)
    {answers : StepAnswers} (hsteady : (Turn.step answers).Steady cfg s) (sequential : Bool)
    (torn : Int → κ) : Sound cfg entry (Call.after (stepUnlocked cfg answers s))
      (stepCache cfg entry answers sequential torn cache s) := by
  have hu := hs.leaves_schedule h hdigest
  rw [stepUnlocked_after]
  unfold stepCache
  unfold Turn.Steady at hsteady
  cases h.turn_end answers with
  | unscheduled hsched _ =>
    unfold stepTarget
    rw [hsched] at hu ⊢
    exact hu
  | @plain decodes prefills u hout hne hsched hplain =>
    rw [stepTarget_of_schedule hsched]
    rw [hsched] at hu hsteady ⊢
    dsimp only at hsteady ⊢
    rw [executeTarget_plain _ hplain]
    rcases hout.plain_end hplain answers with ⟨e, hres⟩ | ⟨tokenIds, hrun, hlen, -, hres, -⟩
    · rw [hres] at hsteady
      obtain ⟨hflag, hspec⟩ := hsteady
      rcases hplain with hpre | hdis
      · exact absurd hflag (by simp [hpre])
      · exact absurd hdis (by simp [hspec])
    · rw [hres]
      have hproposals : (TargetCall.run (decodes ++ prefills) (decide (prefills ≠ [])) u).proposals
          answers = some [] := by
        unfold TargetCall.proposals
        dsimp only
        rw [hrun]
        rfl
      unfold callCache TargetCall.cacheAfter
      dsimp only
      rw [hproposals]
      have hst := hout.staged
      obtain ⟨decodes', prefills', hbatch, hpre, hbatched⟩ := h.batched hsched
      rw [hbatch] at hst hne hlen ⊢
      rw [hpre]
      exact hbatched.commit_sound hst hne hdigest (.refl cfg _ _) rfl ⟨rfl, rfl⟩ hout.ready.2
        hout.ready.1.toQuiet hu sequential [] hlen
  | @decode batch victims rows u hout hne hsched hrep hspec hend =>
    rw [stepTarget_of_schedule hsched]
    rw [hsched] at hu ⊢
    obtain ⟨decodes, prefills, hbatch, hpre, hbatched⟩ := h.batched hsched
    obtain rfl : prefills = [] := by simpa using hpre.symm
    rw [List.append_nil] at hbatch
    subst hbatch
    exact hend.sound hrep hout hbatched hne hdigest hu sequential torn

theorem Sound.turn (h : s.Settled cfg) (hdigest : cfg.Resolves entry) (hs : Sound cfg entry s cache)
    {turn : CachedTurn κ} (hsteady : turn.turn.Steady cfg s) :
    Sound cfg entry (turn.apply cfg entry (s, cache)).1 (turn.apply cfg entry (s, cache)).2 := by
  obtain ⟨turn, sequential, torn⟩ := turn
  cases turn with
  | call op =>
    cases op with
    | add tokenIds maxTokens ignoreEos => exact hs.leaves_add h hdigest tokenIds maxTokens ignoreEos
    | cancel targets => exact hs.leaves_cancel h hdigest targets
    | schedule => exact hsteady.elim
    | postprocess batch tokenIds => exact hsteady.elim
    | plan workspace batch admission baseline => exact hsteady.elim
    | prepare plan => exact hsteady.elim
    | commit plan result => exact hsteady.elim
    | abort => exact hsteady.elim
    | handoff plan => exact hsteady.elim
    | stage plan batch coverage => exact hsteady.elim
  | arrive request =>
    change Sound cfg entry (Call.after (admitRequest cfg request s)) cache
    rcases admitRequest_cases cfg request s with ⟨e, hres⟩ | ⟨promptIds, -, -, -, hres⟩
    · rw [hres]
      exact hs
    · rw [hres]
      exact hs.leaves_add h hdigest promptIds request.maxTokens request.ignoreEos
  | step answers => exact hs.step h hdigest hsteady sequential torn

private theorem Sound.steadyFrom (hdigest : cfg.Resolves entry) (turns : List (CachedTurn κ))
    {c : State × (Int → κ)} (h : c.1.Settled cfg) (hs : Sound cfg entry c.1 c.2)
    (hsteady : SteadyFrom cfg c.1 (turns.map CachedTurn.turn)) :
    Sound cfg entry (turns.foldl (CachedTurn.apply cfg entry) c).1
      (turns.foldl (CachedTurn.apply cfg entry) c).2 := by
  induction turns generalizing c with
  | nil => exact hs
  | cons turn turns ih => exact ih (h.turn hsteady.1) (hs.turn h hdigest hsteady.1) hsteady.2

theorem sound_runCached (hdigest : cfg.Resolves entry) {turns : List (CachedTurn κ)}
    (hsteady : SteadyFrom cfg (State.init cfg) (turns.map CachedTurn.turn)) (cache : Int → κ) :
    Sound cfg entry (runCached cfg entry cache turns).1 (runCached cfg entry cache turns).2 :=
  Sound.steadyFrom hdigest turns (State.Settled.init cfg) (.init cfg entry cache) hsteady

theorem Staged.cached_within {batch : List Nat} (hst : Staged cfg [] batch s) (hcore : Core cfg [] s)
    {x : Nat} (hx : x ∈ s.running ++ s.waiting) :
    (s.seqs x).numCachedTokens ≤ (s.table x).length * cfg.kvcacheBlockSize := by
  by_cases htab : s.table x = []
  · rcases List.mem_append.mp hx with hrun | hwait
    · exact (Nat.le_add_right _ _).trans (hcore.started x hrun).within
    · rw [((hst.waiting x hwait).bare htab).1]
      exact Nat.zero_le _
  · exact hcore.covered (by simpa using hx) htab

/-- In every steady run, whatever the cache held at first, each live request finds at its cached
positions, through its block table, the entries of its own tokens, and each indexed block holds
those of a token list with its chained digest. -/
theorem cached_positions_hold_own_entries (hfree : cfg.CollisionFree) (entry : List κ → Nat → κ)
    {turns : List (CachedTurn κ)}
    (hsteady : SteadyFrom cfg (State.init cfg) (turns.map CachedTurn.turn)) (cache : Int → κ) :
    (∀ x ∈ (runCached cfg entry cache turns).1.running ++
        (runCached cfg entry cache turns).1.waiting,
      ∀ p < ((runCached cfg entry cache turns).1.seqs x).numCachedTokens,
        (entriesOf entry ((runCached cfg entry cache turns).1.seqs x).tokenIds)[p]? =
          some ((runCached cfg entry cache turns).2 (rowSlot cfg.kvcacheBlockSize
            ((runCached cfg entry cache turns).1.table x) p))) ∧
      ∀ h b, (runCached cfg entry cache turns).1.hashToBlockId.lookup h = some b →
        Backed cfg entry (runCached cfg entry cache turns).2 h b := by
  have hs : Sound cfg entry _ _ := sound_runCached (hfree.resolves entry) hsteady cache
  have hsettled := settled_runTurns hsteady
  rw [← runCached_fst cfg entry cache turns] at hsettled
  obtain ⟨c, hc⟩ : ∃ c, c = runCached cfg entry cache turns := ⟨_, rfl⟩
  rw [← hc] at hs hsettled ⊢
  exact ⟨fun x hx => hs.filled hx (hsettled.2.cached_within hsettled.1.2 hx), hs.index⟩

def prefixTag (tags : List (List Nat)) (word : Nat) : List Nat := tags.getLastD [] ++ [word]

def StepAnswers.unspeculated (tokens : List Nat) : StepAnswers :=
  { StepAnswers.plain (.ok tokens) with
    resolveRoutes := .ok none
    choose := some (.ok none) }

def DraftRouteAdmission.twoRows : DraftRouteAdmission where
  registrySchema := draftRouteSchema
  planFingerprint := HexDigest.zeros.val
  batchSize := 2
  catchupTokens := 7
  routeKeys := [routeKey false 2 1 .pagedEagerDynamic]
  schema_eq := rfl
  batchSize_pos := Nat.succ_pos 1
  fingerprint_ne := HexDigest.zeros.ne_empty
  contiguous := rfl

def SpecStepPlan.answered (plan : SpecStepPlan) (rows : List SpecRowResult) :
    SpecExecutionResult where
  cycleId := plan.cycleId
  workspaceFingerprint := plan.workspaceFingerprint
  rows := rows
  targetVerificationPositions := plan.targetQueryTokens
  draftPositions := plan.draftCatchupTokens + plan.draftQueryTokens

def StepAnswers.verified (rows : List SpecRowResult) : StepAnswers :=
  { StepAnswers.unspeculated [] with
    resolveRoutes := .ok (some .twoRows)
    choose := none
    runSpeculative := fun plan => .ok (plan.answered rows) }

/-- A request that counts on from `5`; one that counts on from `9` over its first block, prefilled
beside a decode row; and a verification that accepts the proposal of the first one and rejects that
of the second. -/
def verifiedTurns : List Turn :=
  [.call (.add [3, 4, 5] 4 true), .step (.unspeculated [6]), .call (.add [3, 4, 9] 4 true),
    .step (.unspeculated [7, 10]),
    .step (.verified [greedyResult 0 [8, 9] [8], greedyResult 1 [11, 4] [3]])]

theorem verifiedTurns_steady : SteadyFrom Config.roomy (State.init Config.roomy) verifiedTurns := by
  decide +kernel

def taggedTurns : List (CachedTurn (List Nat)) :=
  verifiedTurns.map fun turn => ⟨turn, false, fun _ => []⟩

/-- Behind the verification the second request finds its own entries in the block it shares, and in
the one where the rejected proposal was. -/
theorem cached_positions_hold_own_entries_sample :
    ∃ s cache, runCached Config.roomy prefixTag (fun _ => []) taggedTurns = (s, cache) ∧
      s.running = [1] ∧ (s.seqs 1).tokenIds = [3, 4, 9, 10, 11] ∧
      (s.seqs 1).numCachedTokens = 4 ∧ s.table 1 = [0, 2] ∧ cache 1 = [3, 4] ∧
      cache 5 = [3, 4, 9, 10] := by
  have hsteady : SteadyFrom Config.roomy (State.init Config.roomy)
      (taggedTurns.map CachedTurn.turn) := verifiedTurns_steady
  obtain ⟨hcells, -⟩ := cached_positions_hold_own_entries
    (show Config.roomy.CollisionFree from Config.sample_collisionFree) prefixTag hsteady
    fun _ => []
  have hfst := runCached_fst Config.roomy prefixTag (fun _ => []) taggedTurns
  obtain ⟨⟨s, cache⟩, hrun⟩ : ∃ c, c = runCached Config.roomy prefixTag (fun _ => []) taggedTurns :=
    ⟨_, rfl⟩
  rw [← hrun] at hcells hfst ⊢
  dsimp only at hcells hfst
  have hstate : s.running = [1] ∧ (s.seqs 1).tokenIds = [3, 4, 9, 10, 11] ∧
      (s.seqs 1).numCachedTokens = 4 ∧ s.table 1 = [0, 2] := by
    rw [hfst]
    decide +kernel
  obtain ⟨hrunning, htokens, hcached, htable⟩ := hstate
  have hcell := hcells 1 (by rw [hrunning]; simp)
  rw [htokens, hcached, htable] at hcell
  have hshared := hcell 1 (by decide)
  have hrejected := hcell 3 (by decide)
  rw [show rowSlot Config.roomy.kvcacheBlockSize [0, 2] 1 = 1 from rfl] at hshared
  rw [show rowSlot Config.roomy.kvcacheBlockSize [0, 2] 3 = 5 from rfl] at hrejected
  exact ⟨s, cache, rfl, hrunning, htokens, hcached, htable, (Option.some.inj hshared).symm,
    (Option.some.inj hrejected).symm⟩

end NanoVllm
