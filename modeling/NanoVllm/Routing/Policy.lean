/- module: NanoVllm/Routing/Policy
   layer: main result
   source: nanovllm/engine/speculative_policy.py; _execute_speculative_verified of
     nanovllm/engine/llm_engine.py; plan_speculative_step of nanovllm/engine/scheduler.py
   digest: The policy's proposal length against the one that is planned and executed. -/

import NanoVllm.Engine.SpeculativePolicy
import NanoVllm.Routing.Registry
import NanoVllm.Speculation.Planning
import Mathlib.Algebra.Field.Rat

set_option autoImplicit false
set_option relaxedAutoImplicit false

namespace NanoVllm

open Library

namespace AdaptiveSpeculativePolicy

variable {F : Type}

section Choice

variable [LT F] [DecidableLT F] [DecidableEq F]

private theorem best_mem {l : List (F × CalibrationKey)} {top : F × CalibrationKey}
    (h : best l = some top) : top ∈ l := by
  cases l with
  | nil => cases h
  | cons first rest =>
    obtain rfl := Option.some.inj h
    have hfold : ∀ (rest : List (F × CalibrationKey)) (top : F × CalibrationKey),
        rest.foldl (fun top item =>
          if top.1 < item.1 ∨ top.1 = item.1 ∧ top.2.k < item.2.k then item else top) top ∈
            top :: rest := by
      intro rest
      induction rest with
      | nil => exact fun top => List.mem_cons_self
      | cons item rest ih =>
        intro top
        rw [List.foldl_cons]
        split
        · exact List.mem_cons_of_mem top (ih item)
        · rcases List.mem_cons.mp (ih top) with heq | hmem
          · rw [heq]
            exact List.mem_cons_self
          · exact List.mem_cons_of_mem top (List.mem_cons_of_mem item hmem)
    exact hfold rest first

variable [OfScientific F] [NatCast F] [Add F] [Div F]
  {policy : AdaptiveSpeculativePolicy F} {rows : List (Sequence × SamplingParams F)}
  {ks : List Nat} {C L M k : Nat} {mode : String}

/-- A selected length is a candidate within the policy's own caps, and its key names it. -/
private theorem selected_spec (h : (policy.decision rows ks C mode L M).selectedK = some k) :
    rows ≠ [] ∧ k ∈ ks ∧
      (∀ row ∈ rows, k ≤ row.1.maxTokens - row.1.numCompletionTokens - 1) ∧
      (∀ row ∈ rows, k ≤ L - row.1.numTokens) ∧ k ≤ (M - C) / rows.length - 1 ∧
      ∃ key, (policy.decision rows ks C mode L M).calibrationKey = some key ∧ key.k = k := by
  unfold decision at h ⊢
  dsimp only at h ⊢
  split at h
  · cases h
  next hsome =>
  rw [if_neg hsome]
  split at h
  · cases h
  next hfamily =>
  rw [if_neg hfamily]
  split at h
  · cases h
  next hlegal =>
  rw [if_neg hlegal]
  have hrows : rows ≠ [] := fun hnil => hsome (Or.inl hnil)
  cases hbest : best ((legalKs rows (ks.dedup.insertionSort (· ≤ ·)) C L M).filterMap
      fun k => policy.candidate (keyOf rows C k)) with
  | none =>
    rw [hbest] at h
    cases h
  | some top =>
    obtain ⟨speedup, key⟩ := top
    rw [hbest] at h
    dsimp only at h ⊢
    split at h
    · cases h
    next hgate =>
    rw [if_neg hgate]
    obtain rfl : key.k = k := Option.some.inj h
    obtain ⟨k', hk', hcandidate⟩ := List.mem_filterMap.mp (best_mem hbest)
    have hkey : keyOf rows C k' = key := by
      obtain ⟨cell, -, hcell⟩ := Option.map_eq_some_iff.mp hcandidate
      exact congrArg Prod.snd hcell
    obtain rfl : k' = key.k := congrArg CalibrationKey.k hkey
    obtain ⟨hmem, hcap⟩ := List.mem_filter.mp hk'
    have hle := of_decide_eq_true hcap
    rw [le_min_iff, le_min_iff, le_min_iff, le_minOver_iff _ hrows, le_minOver_iff _ hrows] at hle
    have hks : key.k ∈ ks := List.mem_dedup.mp ((List.mem_insertionSort _).mp hmem)
    exact ⟨hrows, hks, hle.2.1, hle.2.2.1, hle.2.2.2, key, rfl, rfl⟩

end Choice

private theorem observe_acceptedPrefixEma [OfScientific F] [NatCast F] [Add F] [Mul F] [Div F]
    {policy : AdaptiveSpeculativePolicy F} {decision : AdaptiveDecision F} {key : CalibrationKey}
    (hkey : decision.calibrationKey = some key) (result : SpecExecutionResult)
    {other : CalibrationKey}
    (h : (policy.observe decision result).acceptedPrefixEma other ≠
      policy.acceptedPrefixEma other) : other = key := by
  by_contra hne
  apply h
  unfold observe
  rw [hkey]
  cases decision.selectedK with
  | none => rfl
  | some k =>
    dsimp only
    split
    · rfl
    · exact Function.update_of_ne hne _ _

end AdaptiveSpeculativePolicy

variable {cfg : Config} {s t : State} {batch : List Nat}

private theorem buildFallbackPlan_reason {workspace : SpeculativeWorkspace} {cycleId : Nat}
    {rows : List SpecPlanRow} {configuredK cap : Nat} {key : Option DraftRouteKey}
    {reason : Option String} {plan : SpecStepPlan}
    (h : buildFallbackPlan workspace cycleId rows configuredK cap key reason = .ok plan) :
    plan.effectiveK = 0 ∧ plan.bypassReason = reason := by
  obtain ⟨-, h⟩ := Call.except_guard h
  obtain ⟨⟨⟩, -, h⟩ := Call.except_bind_ok h
  obtain rfl := Except.ok.inj h
  exact ⟨rfl, rfl⟩

private theorem buildSpeculativeStepPlan_zero {workspace : SpeculativeWorkspace} {cycleId : Nat}
    {rows : List SpecPlanRow} {configuredK cap budget : Nat} {reason : Option String}
    {plan : SpecStepPlan}
    (h : buildSpeculativeStepPlan workspace cycleId rows configuredK cap 0 budget none reason =
      .ok plan) : plan.effectiveK = 0 ∧ plan.bypassReason = reason := by
  obtain ⟨-, h⟩ := Call.except_guard h
  obtain ⟨-, h⟩ := Call.except_guard h
  obtain ⟨-, h⟩ := Call.except_guard h
  exact buildFallbackPlan_reason ((if_pos rfl).symm.trans h)

private theorem buildSpeculativeStepPlan_positive {workspace : SpeculativeWorkspace} {cycleId : Nat}
    {rows : List SpecPlanRow} {configuredK cap k budget : Nat} {key : Option DraftRouteKey}
    {reason : Option String} {plan : SpecStepPlan} (hk : 0 < k)
    (h : buildSpeculativeStepPlan workspace cycleId rows configuredK cap k budget key reason =
      .ok plan) : plan.bypassReason = none := by
  obtain ⟨-, h⟩ := Call.except_guard h
  obtain ⟨-, h⟩ := Call.except_guard h
  obtain ⟨-, h⟩ := Call.except_guard h
  have hpositive : buildPositivePlan workspace cycleId rows configuredK cap k budget key reason =
      .ok plan := (if_neg (Nat.ne_of_gt hk)).symm.trans h
  obtain ⟨-, hplan⟩ := Call.except_guard hpositive
  cases key with
  | none => cases hplan
  | some key =>
    obtain ⟨⟨⟩, -, hplan⟩ := Call.except_bind_ok hplan
    obtain ⟨-, hplan⟩ := Call.except_guard hplan
    obtain ⟨-, hplan⟩ := Call.except_guard hplan
    obtain ⟨-, hplan⟩ := Call.except_guard hplan
    obtain ⟨-, hplan⟩ := Call.except_guard hplan
    obtain ⟨-, hplan⟩ := Call.except_guard hplan
    obtain ⟨⟨⟩, -, hplan⟩ := Call.except_bind_ok hplan
    obtain ⟨certificate, -, hplan⟩ := Call.except_bind_ok hplan
    obtain ⟨⟨⟩, -, hplan⟩ := Call.except_bind_ok hplan
    obtain rfl := Except.ok.inj hplan
    rfl

private theorem publishTransaction_plan {rollback : List DecodeScheduleRollbackRow}
    {plan granted : SpecStepPlan} {r : TemporaryBlockReservation}
    (h : publishTransaction rollback plan r s = .ok granted t) :
    granted.effectiveK = plan.effectiveK ∧ granted.bypassReason = plan.bypassReason := by
  unfold publishTransaction at h
  rw [Call.tryCatch_apply] at h
  split at h
  · next granted' u hbody =>
    obtain ⟨⟨⟩, s1, -, hbody⟩ := Call.bind_ok hbody
    obtain ⟨v, s2, -, hbody⟩ := Call.bind_ok hbody
    obtain ⟨⟨⟩, s3, -, hbody⟩ := Call.bind_ok hbody
    obtain ⟨⟨⟩, s4, -, hbody⟩ := Call.bind_ok hbody
    cases h
    cases hbody
    exact ⟨rfl, rfl⟩
  · obtain ⟨⟨⟩, s1, -, h⟩ := Call.bind_ok h
    obtain ⟨u, s2, -, h⟩ := Call.bind_ok h
    cases h

/-- The reasons that come from the token budget, the request's tail or the model length. -/
def lengthReasons : List String :=
  ["request_tail", "model_position_limit", "verifier_token_budget", "draft_catchup_token_budget",
    "aggregate_token_budget"]

def OtherReason (plan : SpecStepPlan) : Prop :=
  ∃ reason, plan.bypassReason = some reason ∧ reason ∉ lengthReasons

/-- The plans of one call, by the length `k` derived from the row snapshots. -/
inductive Planned (cfg : Config) (rows : List SpecPlanRow) (cap : Nat) (plan : SpecStepPlan) :
    Prop
  | positive (hpos : 0 < deriveSpeculativeEffectiveK rows cfg.configuredK
        cfg.maxNumBatchedTokens cap)
      (h : plan.effectiveK = deriveSpeculativeEffectiveK rows cfg.configuredK
        cfg.maxNumBatchedTokens cap)
      (hreason : plan.bypassReason = none)
  | bypassed (h : plan.effectiveK = 0) (hreason : OtherReason plan)
  | bounded (h : plan.effectiveK = 0)
      (hzero : deriveSpeculativeEffectiveK rows cfg.configuredK cfg.maxNumBatchedTokens cap = 0)

def stepBuild (cfg : Config) (workspace : SpeculativeWorkspace) (s : State) (batch : List Nat)
    (cap : Nat) (k : Nat) (reason : Option String) (key : Option DraftRouteKey) :
    Except Raised SpecStepPlan :=
  buildSpeculativeStepPlan workspace s.nextCycleId (batch.map (planRow cfg s)) cfg.configuredK cap
    k cfg.maxNumBatchedTokens key reason

variable {workspace : SpeculativeWorkspace} {cap : Nat} {u : State}

private theorem Planned.of_bypass {reason : String} {plan : SpecStepPlan}
    (hreason : reason ∉ lengthReasons)
    (h : stepBuild cfg workspace u batch cap 0 (some reason) none = .ok plan)
    (rows : List SpecPlanRow) : Planned cfg rows cap plan := by
  obtain ⟨hzero, hbypass⟩ := buildSpeculativeStepPlan_zero h
  exact .bypassed hzero ⟨reason, hbypass, hreason⟩

private theorem proposePlan_planned {a : DraftRouteAdmission} {plan : SpecStepPlan}
    (h : proposePlan cfg (stepBuild cfg workspace u batch cap) (batch.map (planRow cfg u)) cap
      (some a) = .ok plan) : Planned cfg (batch.map (planRow cfg u)) cap plan := by
  unfold proposePlan at h
  dsimp only at h
  split at h
  · next hzero =>
    obtain ⟨reason, -, h⟩ := Call.except_bind_ok h
    exact .bounded (buildSpeculativeStepPlan_zero h).1 hzero
  next hpos =>
  split at h
  · exact .of_bypass (by decide) h _
  next key hkey =>
  split at h
  · exact .of_bypass (by decide) h _
  · cases h
  · next plan' hbuild =>
    obtain rfl := Except.ok.inj h
    rcases buildSpeculativeStepPlan_ok hbuild with ⟨hzero, -⟩ | ⟨-, hpromises⟩
    · exact absurd hzero hpos
    · exact .positive (Nat.pos_of_ne_zero hpos) hpromises.effectiveK
        (buildSpeculativeStepPlan_positive (Nat.pos_of_ne_zero hpos) hbuild)

private theorem leasePlan_planned {rollback : List DecodeScheduleRollbackRow}
    {plan leased : SpecStepPlan}
    (hplan : Planned cfg (batch.map (planRow cfg u)) cap plan) (hk : 0 < plan.effectiveK)
    (h : leasePlan cfg (stepBuild cfg workspace u batch cap) rollback batch plan s =
      .ok leased t) : Planned cfg (batch.map (planRow cfg u)) cap leased := by
  unfold leasePlan at h
  obtain ⟨reserved, v, -, h⟩ := Call.bind_ok h
  cases reserved with
  | none =>
    dsimp only at h
    cases hb : stepBuild cfg workspace u batch cap 0 (some "insufficient_kv_blocks") none with
    | error e =>
      rw [hb] at h
      cases h
    | ok bypass =>
      rw [hb] at h
      cases h
      exact .of_bypass (by decide) hb _
  | some r =>
    obtain ⟨hlength, hreason⟩ := publishTransaction_plan h
    cases hplan with
    | positive hpos hk hnone => exact .positive hpos (hlength.trans hk) (hreason.trans hnone)
    | bypassed hzero => omega
    | bounded hzero => omega

private theorem liftExcept_ok_inv {α : Type} {x : Except Raised α} {a : α}
    (h : (liftExcept x : Call α) s = .ok a t) : x = .ok a ∧ t = s := by
  cases x with
  | error e => cases h
  | ok b =>
    cases h
    exact ⟨rfl, rfl⟩

private theorem planSpeculativeStep_planned {a : DraftRouteAdmission}
    {baseline : Option (List DecodeScheduleRollbackRow)} {plan : SpecStepPlan}
    (h : planSpeculativeStep cfg workspace batch (some a) baseline s = .ok plan t) :
    Planned cfg (batch.map (planRow cfg s)) a.maxEffectiveK plan ∧
      (OtherReason plan ∨ draftCatchupTokens (batch.map (planRow cfg s)) = a.catchupTokens) := by
  unfold planSpeculativeStep at h
  obtain ⟨⟨⟩, s1, htick, h⟩ := Call.bind_ok h
  have hs1 : ∃ f, s1 = s.withFault f := by
    rcases tick_cases s with ⟨f, hf⟩ | hf
    · rw [hf] at htick
      cases htick
      exact ⟨f, rfl⟩
    · rw [hf] at htick
      cases htick
  obtain ⟨f, rfl⟩ := hs1
  obtain ⟨v, s2, hget, h⟩ := Call.bind_ok h
  cases hget
  dsimp only at h
  split at h
  · cases h
  obtain ⟨⟨⟩, s3, hpost, h⟩ := Call.bind_ok h
  obtain ⟨-, rfl⟩ := liftExcept_ok_inv hpost
  obtain ⟨cap, s4, hadmission, h⟩ := Call.bind_ok h
  obtain ⟨hcap, rfl⟩ := liftExcept_ok_inv hadmission
  obtain ⟨⟨⟩, s5, hset, h⟩ := Call.bind_ok h
  have hcapk : cap = a.maxEffectiveK := by
    obtain ⟨-, hcap⟩ := Call.except_guard hcap
    obtain ⟨-, hcap⟩ := Call.except_guard hcap
    exact (Except.ok.inj hcap).symm
  change planBatch cfg (stepBuild cfg workspace (s.withFault f) batch cap) (s.withFault f) batch
    (batch.map (planRow cfg (s.withFault f))) cap (some a) baseline s5 = .ok plan t at h
  rw [← hcapk]
  have hrows : batch.map (planRow cfg (s.withFault f)) = batch.map (planRow cfg s) := rfl
  rw [← hrows]
  unfold planBatch at h
  split at h
  · obtain ⟨hb, -⟩ := liftExcept_ok_inv h
    exact ⟨.of_bypass (by decide) hb _, Or.inl ⟨_, (buildSpeculativeStepPlan_zero hb).2,
      by decide⟩⟩
  cases hcapture : captureDecodeScheduleRollback cfg (s.withFault f) batch false with
  | none =>
    rw [hcapture] at h
    obtain ⟨hb, -⟩ := liftExcept_ok_inv h
    exact ⟨.of_bypass (by decide) hb _, Or.inl ⟨_, (buildSpeculativeStepPlan_zero hb).2,
      by decide⟩⟩
  | some rollback =>
  rw [hcapture] at h
  dsimp only at h
  obtain ⟨⟨⟩, s6, hlift, hrest⟩ := Call.bind_ok h
  obtain ⟨hchecks, rfl⟩ := liftExcept_ok_inv hlift
  obtain ⟨proposed, s7, hpropose, hlease⟩ := Call.bind_ok hrest
  obtain ⟨hproposed, rfl⟩ := liftExcept_ok_inv hpropose
  have hplanned := proposePlan_planned hproposed
  refine ⟨?_, Or.inr ?_⟩
  · split at hlease
    · next huses => exact leasePlan_planned hplanned (of_decide_eq_true huses) hlease
    · cases hlease
      exact hplanned
  · obtain ⟨-, hchecks⟩ := Call.except_guard hchecks
    obtain ⟨-, hchecks⟩ := Call.except_guard hchecks
    by_contra hne
    have herror : ((some a).any fun a => decide (a.catchupTokens ≠
        draftCatchupTokens (batch.map (planRow cfg (s.withFault f))))) = true := by
      simp only [Option.any_some, decide_eq_true_eq]
      exact fun heq => hne heq.symm
    rw [if_pos herror] at hchecks
    cases hchecks

section Runs

variable {F : Type} [OfScientific F] [NatCast F] [Add F] [Mul F] [Div F]

/-- The whole cycle of the chosen length fits: catch-up, proposals and verification. -/
def CycleFits (cfg : Config) (batchSize catchupTokens k : Nat) : Prop :=
  k ≤ cfg.configuredK ∧
    catchupTokens + batchSize * k + batchSize * (k + 1) ≤ cfg.maxNumBatchedTokens

/-- The plan executes the length of the decision, and an observation of its result updates the
average of that length only. It is not bypassed for the budget, the tail or the model length. -/
structure RunsAsChosen (policy : AdaptiveSpeculativePolicy F) (decision : AdaptiveDecision F)
    (plan : SpecStepPlan) : Prop where
  executed : plan.usesSpeculation = true → decision.selectedK = some plan.effectiveK
  calibrated : plan.usesSpeculation = true →
    ∃ key, decision.calibrationKey = some key ∧ key.k = plan.effectiveK
  learned : plan.usesSpeculation = true → ∀ result key,
    (policy.observe decision result).acceptedPrefixEma key ≠ policy.acceptedPrefixEma key →
      key.k = plan.effectiveK
  kept : ∀ reason ∈ lengthReasons, plan.bypassReason ≠ some reason

/-- The plan speculates, or is bypassed for the budget, the tail or the model length. -/
def LengthJudged (plan : SpecStepPlan) : Prop :=
  plan.usesSpeculation = true ∨ ∃ reason ∈ lengthReasons, plan.bypassReason = some reason

private theorem deriveSpeculativeEffectiveK_eq_iff (cfg : Config) {rows : List SpecPlanRow}
    {k : Nat} (hrows : rows ≠ [])
    (hk : 1 ≤ k) (hcompletion : ∀ row ∈ rows, k + 1 ≤ row.remainingCompletionTokens)
    (hposition : ∀ row ∈ rows, k ≤ row.modelPositionHeadroom) :
    deriveSpeculativeEffectiveK rows cfg.configuredK cfg.maxNumBatchedTokens k = k ↔
      CycleFits cfg rows.length (draftCatchupTokens rows) k := by
  have hle : deriveSpeculativeEffectiveK rows cfg.configuredK cfg.maxNumBatchedTokens k ≤ k :=
    ((le_deriveSpeculativeEffectiveK_iff hrows).mp le_rfl).le_cap.trans (min_le_right _ _)
  have hne : ¬ k = 0 := Nat.ne_of_gt hk
  have hlegal : k ≤ deriveSpeculativeEffectiveK rows cfg.configuredK cfg.maxNumBatchedTokens k ↔
      CycleFits cfg rows.length (draftCatchupTokens rows) k := by
    rw [le_deriveSpeculativeEffectiveK_iff hrows]
    constructor
    · intro h
      exact ⟨h.le_cap.trans (min_le_left _ _), h.aggregate.resolve_right hne⟩
    · rintro ⟨hconfigured, hwork⟩
      refine ⟨le_min hconfigured le_rfl, fun row hrow => Or.inl (hcompletion row hrow), hposition,
        Or.inl ?_, Or.inl hwork⟩
      omega
  rw [← hlegal]
  omega

private theorem DraftRouteAdmission.replaceKeys_eq {a a' : DraftRouteAdmission}
    {keys : List DraftRouteKey} (h : a.replaceKeys keys = .ok a') :
    a'.routeKeys = keys ∧ a'.catchupTokens = a.catchupTokens := by
  unfold DraftRouteAdmission.replaceKeys at h
  split at h
  · obtain rfl := Except.ok.inj h
    exact ⟨rfl, rfl⟩
  · cases h

private theorem runsAsChosen_of_otherReason {policy : AdaptiveSpeculativePolicy F}
    {decision : AdaptiveDecision F} {plan : SpecStepPlan} (hzero : plan.effectiveK = 0)
    (h : OtherReason plan) : RunsAsChosen policy decision plan := by
  have hnot : ¬ plan.usesSpeculation = true := by
    simp [SpecStepPlan.usesSpeculation, hzero]
  obtain ⟨reason, hreason, hother⟩ := h
  refine ⟨fun huses => absurd huses hnot, fun huses => absurd huses hnot,
    fun huses => absurd huses hnot, ?_⟩
  intro name hname heq
  exact hother (Option.some.inj (hreason.symm.trans heq) ▸ hname)

variable [LT F] [DecidableLT F] [DecidableEq F]

/-- What the policy chose is planned and learned from exactly when the whole cycle fits: the
policy's own budget leaves out the proposals' positions. -/
theorem chosen_k_runs_iff_cycle_fits (policy : AdaptiveSpeculativePolicy F) (cfg : Config)
    (workspace : SpeculativeWorkspace) (s t : State) (batch : List Nat)
    (sampling : Nat → SamplingParams F) (mode : String) (a a' : DraftRouteAdmission)
    (baseline : Option (List DecodeScheduleRollbackRow)) (plan : SpecStepPlan) (k : Nat)
    (hchoice : (policy.choose (batch.map fun x => (s.seqs x, sampling x))
      (a.routeKeys.map DraftRouteKey.effectiveK) a.catchupTokens mode cfg.maxModelLen
      cfg.maxNumBatchedTokens).1.selectedK = some k)
    (htruncate : a.replaceKeys (a.routeKeys.take k) = .ok a')
    (hplan : planSpeculativeStep cfg workspace batch (some a') baseline s = .ok plan t) :
    let choice := policy.choose (batch.map fun x => (s.seqs x, sampling x))
      (a.routeKeys.map DraftRouteKey.effectiveK) a.catchupTokens mode cfg.maxModelLen
      cfg.maxNumBatchedTokens
    (CycleFits cfg batch.length a.catchupTokens k → RunsAsChosen choice.2 choice.1 plan) ∧
      (LengthJudged plan →
        (RunsAsChosen choice.2 choice.1 plan ↔ CycleFits cfg batch.length a.catchupTokens k)) := by
  intro choice
  obtain ⟨hrows, hmem, hcompletion, hposition, -, key, hkey, hkeyk⟩ :=
    AdaptiveSpeculativePolicy.selected_spec hchoice
  have hbatch : batch ≠ [] := fun hnil => hrows (by rw [hnil]; rfl)
  have hplanRows : batch.map (planRow cfg s) ≠ [] := by
    simpa using hbatch
  obtain ⟨hkeys, hcatchup⟩ := DraftRouteAdmission.replaceKeys_eq htruncate
  rw [a.contiguous] at hmem
  obtain ⟨hk, hkn⟩ := List.mem_range'_1.mp hmem
  have hcap : a'.maxEffectiveK = k := by
    unfold DraftRouteAdmission.maxEffectiveK
    rw [hkeys, List.length_take]
    omega
  obtain ⟨hplanned, hcheck⟩ := planSpeculativeStep_planned hplan
  rw [hcap] at hplanned
  rw [hcatchup] at hcheck
  have hiff := deriveSpeculativeEffectiveK_eq_iff cfg hplanRows hk
    (by
      intro row hrow
      obtain ⟨x, hx, rfl⟩ := List.mem_map.mp hrow
      have h := hcompletion (s.seqs x, sampling x) (List.mem_map.mpr ⟨x, hx, rfl⟩)
      change k + 1 ≤ (s.seqs x).maxTokens - (s.seqs x).numCompletionTokens
      dsimp only at h
      omega)
    (by
      intro row hrow
      obtain ⟨x, hx, rfl⟩ := List.mem_map.mp hrow
      exact hposition (s.seqs x, sampling x) (List.mem_map.mpr ⟨x, hx, rfl⟩))
  rw [List.length_map] at hiff
  have hruns : plan.effectiveK = k → plan.bypassReason = none →
      RunsAsChosen choice.2 choice.1 plan := by
    intro heq hnone
    refine ⟨fun _ => ?_, fun _ => ⟨key, hkey, hkeyk.trans heq.symm⟩, ?_, ?_⟩
    · rw [heq]
      exact hchoice
    · intro _ result other hother
      rw [AdaptiveSpeculativePolicy.observe_acceptedPrefixEma hkey result hother, heq]
      exact hkeyk
    · intro reason _
      rw [hnone]
      exact fun h => by cases h
  have hforward : CycleFits cfg batch.length a.catchupTokens k →
      RunsAsChosen choice.2 choice.1 plan := by
    intro hfits
    rcases hcheck with hother | hsame
    · cases hplanned with
      | positive hpos heq hnone =>
        obtain ⟨reason, hreason, -⟩ := hother
        rw [hnone] at hreason
        cases hreason
      | bypassed hzero => exact runsAsChosen_of_otherReason hzero hother
      | bounded hzero => exact runsAsChosen_of_otherReason hzero hother
    · rw [hsame] at hiff
      have hderived := hiff.mpr hfits
      cases hplanned with
      | positive hpos heq hnone => exact hruns (heq.trans hderived) hnone
      | bypassed hzero hother => exact runsAsChosen_of_otherReason hzero hother
      | bounded hzero hnone => omega
  refine ⟨hforward, fun hjudged => ⟨fun hchosen => ?_, hforward⟩⟩
  have hunused : plan.effectiveK = 0 → ¬ plan.usesSpeculation = true := by
    intro hzero
    simp [SpecStepPlan.usesSpeculation, hzero]
  cases hplanned with
  | positive hpos heq hnone =>
    have huses : plan.usesSpeculation = true := decide_eq_true (by omega)
    have hexecuted : some k = some plan.effectiveK := hchoice.symm.trans (hchosen.executed huses)
    rcases hcheck with ⟨reason, hreason, -⟩ | hsame
    · rw [hnone] at hreason
      cases hreason
    · rw [hsame] at hiff
      exact hiff.mp (heq.symm.trans (Option.some.inj hexecuted).symm)
  | bypassed hzero hother =>
    obtain ⟨reason, hreason, hnot⟩ := hother
    rcases hjudged with huses | ⟨name, hname, heq⟩
    · exact absurd huses (hunused hzero)
    · exact absurd (Option.some.inj (hreason.symm.trans heq) ▸ hname) hnot
  | bounded hzero _ =>
    rcases hjudged with huses | ⟨name, hname, heq⟩
    · exact absurd huses (hunused hzero)
    · exact absurd heq (hchosen.kept name hname)

end Runs

/-- A prompt of five tokens after its prefill step, in its first decode step. -/
def laggingStep : Call (List Nat × Bool) := do
  let _ ← add Config.sample [1, 2, 3, 4, 5] 4 true
  let (batch, _) ← schedule Config.sample
  let _ ← postprocess Config.sample batch [6]
  schedule Config.sample

/-- The routes of lengths one and two for one request that lags by five tokens. -/
def DraftRouteAdmission.sample : DraftRouteAdmission where
  registrySchema := draftRouteSchema
  planFingerprint := HexDigest.zeros.val
  batchSize := 1
  catchupTokens := 5
  routeKeys := [routeKey false 1 1 .pagedEagerDynamic, routeKey false 1 2 .pagedEagerDynamic]
  schema_eq := rfl
  batchSize_pos := le_rfl
  fingerprint_ne := HexDigest.zeros.ne_empty
  contiguous := rfl

def AdaptiveSpeculativePolicy.sample (k : Nat) : AdaptiveSpeculativePolicy ℚ where
  cells := fun key =>
    if key = ⟨1, "temperature", 8, 8, k⟩ then some ⟨1, "temperature", 8, 8, k, 10, 10, 2⟩ else none
  acceptedPrefixEma := fun _ => none
  decisionCounts := fun _ => 0
  lastDecision := none

def SamplingParams.sample : SamplingParams ℚ := ⟨1, -1, 1⟩

/-- The decision of the sample policy in the lagging step. -/
def sampleChoice (k : Nat) (s : State) : AdaptiveDecision ℚ × AdaptiveSpeculativePolicy ℚ :=
  (AdaptiveSpeculativePolicy.sample k).choose ([0].map fun x => (s.seqs x, SamplingParams.sample))
    (DraftRouteAdmission.sample.routeKeys.map DraftRouteKey.effectiveK)
    DraftRouteAdmission.sample.catchupTokens "fast" Config.sample.maxModelLen
    Config.sample.maxNumBatchedTokens

/-- The lagging step, the choice and the plan, run for the length `k`: it is chosen, and the plan
executes the length `planned`. -/
def lagsTo (k planned : Nat) : Bool :=
  match laggingStep (State.init Config.sample) with
  | .error _ _ => false
  | .ok scheduled s =>
    match DraftRouteAdmission.sample.replaceKeys (DraftRouteAdmission.sample.routeKeys.take k) with
    | .error _ => false
    | .ok a =>
      match planSpeculativeStep Config.sample (SpeculativeMemoryPlan.sample.workspace .sample "fast")
          [0] (some a) none s with
      | .error _ _ => false
      | .ok plan _ => decide (scheduled = ([0], false) ∧ (sampleChoice k s).1.selectedK = some k ∧
          plan.effectiveK = planned)

private theorem lagsTo_spec {k planned : Nat} (h : lagsTo k planned = true) :
    ∃ s a plan t, laggingStep (State.init Config.sample) = .ok ([0], false) s ∧
      DraftRouteAdmission.sample.replaceKeys (DraftRouteAdmission.sample.routeKeys.take k) =
        .ok a ∧
      planSpeculativeStep Config.sample (SpeculativeMemoryPlan.sample.workspace .sample "fast")
        [0] (some a) none s = .ok plan t ∧
      (sampleChoice k s).1.selectedK = some k ∧ plan.effectiveK = planned := by
  unfold lagsTo at h
  cases hrun : laggingStep (State.init Config.sample) with
  | error e s =>
    rw [hrun] at h
    cases h
  | ok scheduled s =>
    rw [hrun] at h
    dsimp only at h
    split at h
    · cases h
    next a hkeys =>
    split at h
    · cases h
    next plan t hplan =>
    obtain ⟨rfl, hchoice, hplanned⟩ := of_decide_eq_true h
    exact ⟨s, a, plan, t, rfl, hkeys, hplan, hchoice, hplanned⟩

theorem chosen_k_runs_iff_cycle_fits_sample :
    ∃ s a plan t, planSpeculativeStep Config.sample
        (SpeculativeMemoryPlan.sample.workspace .sample "fast") [0] (some a) none s =
          .ok plan t ∧
      RunsAsChosen (sampleChoice 1 s).2 (sampleChoice 1 s).1 plan := by
  have hlags : lagsTo 1 1 = true := by decide +kernel
  obtain ⟨s, a, plan, t, -, hkeys, hplan, hchoice, -⟩ := lagsTo_spec hlags
  exact ⟨s, a, plan, t, hplan, (chosen_k_runs_iff_cycle_fits (AdaptiveSpeculativePolicy.sample 1)
    Config.sample _ s t [0] (fun _ => SamplingParams.sample) "fast" DraftRouteAdmission.sample a none
    plan 1 hchoice hkeys hplan).1 (by unfold CycleFits; decide)⟩

/-- The first decode step after a prompt of five tokens: length two, which the verifier is ready
for, is chosen, and length one runs. -/
theorem chosen_k_runs_shorter :
    verifierRouteReady true (verifierShapes SpeculativeMemoryPlan.sample 2 4 8 8) 1 2 = true ∧
    ∃ s a plan t, laggingStep (State.init Config.sample) = .ok ([0], false) s ∧
      DraftRouteAdmission.sample.replaceKeys (DraftRouteAdmission.sample.routeKeys.take 2) =
        .ok a ∧
      planSpeculativeStep Config.sample (SpeculativeMemoryPlan.sample.workspace .sample "fast")
        [0] (some a) none s = .ok plan t ∧
      (sampleChoice 2 s).1.selectedK = some 2 ∧ plan.usesSpeculation = true ∧
      plan.effectiveK = 1 ∧ ¬ RunsAsChosen (sampleChoice 2 s).2 (sampleChoice 2 s).1 plan := by
  have hlags : lagsTo 2 1 = true := by decide +kernel
  obtain ⟨s, a, plan, t, hrun, hkeys, hplan, hchoice, hplanned⟩ := lagsTo_spec hlags
  have huses : plan.usesSpeculation = true := by
    unfold SpecStepPlan.usesSpeculation
    rw [hplanned]
    decide
  refine ⟨by decide, s, a, plan, t, hrun, hkeys, hplan, hchoice, huses, hplanned,
    fun hruns => ?_⟩
  have hexecuted := hruns.executed huses
  rw [hchoice, hplanned] at hexecuted
  exact absurd hexecuted (by decide)

end NanoVllm
