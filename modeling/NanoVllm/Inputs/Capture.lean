/- module: NanoVllm/Inputs/Capture
   layer: main result
   source: nanovllm/engine/model_runner.py, _varlen_capture_boundaries, _select_varlen_graph_key,
     run_model and run_model_all_positions
   digest: Capture layouts exist exactly when they are possible, and every replayed step fits. -/

import Mathlib.Data.Prod.Lex
import NanoVllm.Inputs.Replay

set_option autoImplicit false
set_option relaxedAutoImplicit false

namespace NanoVllm

open Library

variable {t n l i j : Nat} {cuts : List Nat}

/-- Boundaries of `n` segments over `t` tokens, none longer than `l`. -/
structure CaptureLayout (t n l : Nat) (cuts : List Nat) : Prop where
  length : cuts.length = n + 1
  first : cuts.getD 0 0 = 0
  last : cuts.getD n 0 = t
  rises : ∀ i < n, cuts.getD i 0 ≤ cuts.getD (i + 1) 0
  gap : ∀ i < n, cuts.getD (i + 1) 0 - cuts.getD i 0 ≤ l

/-- No segment after an empty one has a token. -/
def NonemptyFirst (n : Nat) (cuts : List Nat) : Prop :=
  ∀ i j, i ≤ j → j < n → cuts.getD i 0 = cuts.getD (i + 1) 0 →
    cuts.getD j 0 = cuts.getD (j + 1) 0

private theorem CaptureLayout.cut_le (h : CaptureLayout t n l cuts) (hi : i ≤ n) :
    cuts.getD i 0 ≤ i * l := by
  induction i with
  | zero => exact h.first.trans_le (Nat.zero_le _)
  | succ i ih =>
    have hprev := ih (by omega)
    have hgap := h.gap i (by omega)
    rw [Nat.succ_mul]
    omega

def fullestCuts (t n l : Nat) : List Nat := (List.range (n + 1)).map fun i => min (i * l) t

private theorem fullestCuts_getElem (hi : i < (fullestCuts t n l).length) :
    (fullestCuts t n l)[i] = min (i * l) t := by
  simp [fullestCuts]

private theorem fullestCuts_getD (hi : i ≤ n) : (fullestCuts t n l).getD i 0 = min (i * l) t := by
  have hlt : i < (fullestCuts t n l).length := by
    simpa [fullestCuts] using Nat.lt_succ_of_le hi
  rw [List.getD_eq_getElem _ _ hlt, fullestCuts_getElem]

private theorem fullestCuts_layout (h : t ≤ n * l) : CaptureLayout t n l (fullestCuts t n l) where
  length := by simp [fullestCuts]
  first := by
    rw [fullestCuts_getD (Nat.zero_le n), Nat.zero_mul, Nat.zero_min]
  last := by
    rw [fullestCuts_getD le_rfl, Nat.min_eq_right h]
  rises := by
    intro i hi
    rw [fullestCuts_getD hi.le, fullestCuts_getD hi, Nat.succ_mul]
    omega
  gap := by
    intro i hi
    rw [fullestCuts_getD hi.le, fullestCuts_getD hi, Nat.succ_mul]
    omega

private theorem fullestCuts_nonemptyFirst (hl : 0 < l) : NonemptyFirst n (fullestCuts t n l) := by
  intro i j hij hj hempty
  rw [fullestCuts_getD (by omega), fullestCuts_getD (by omega), Nat.succ_mul] at hempty
  rw [fullestCuts_getD hj.le, fullestCuts_getD hj, Nat.succ_mul]
  have hmono : i * l ≤ j * l := Nat.mul_le_mul_right l hij
  omega

private theorem varlenCaptureBoundaries_eq (ht : 0 < t) (hn : 0 < n) (hl : 0 < l) :
    varlenCaptureBoundaries t n l = if t ≤ n * l then some (fullestCuts t n l) else none := by
  have hpages : (t + l - 1) / l = pagesFor l t := rfl
  unfold varlenCaptureBoundaries
  rw [if_neg (by omega), hpages]
  dsimp only
  by_cases hfit : t ≤ n * l
  · have hle : pagesFor l t ≤ n := (pagesFor_le_iff hl).mpr hfit
    rw [if_neg (by omega), if_pos hfit, Option.some.injEq]
    refine List.ext_getElem ?_ fun i hi hi' => ?_
    · simp only [fullestCuts, List.length_append, List.length_cons, List.length_map,
        List.length_range, List.length_replicate]
      omega
    · have hin : i < n + 1 := by simpa [fullestCuts] using hi'
      rw [fullestCuts_getElem]
      cases i with
      | zero => simp
      | succ i =>
        rw [List.getElem_append]
        simp only [List.length_cons, List.length_map, List.length_range, List.getElem_cons_succ]
        split
        · rw [List.getElem_map, List.getElem_range]
        · rename_i hlt
          rw [List.getElem_replicate]
          have hover : t ≤ (i + 1) * l := (pagesFor_le_iff hl).mp (by omega)
          omega
  · have hgt : n < pagesFor l t := (lt_pagesFor_iff hl).mpr (by omega)
    rw [if_pos hgt, if_neg hfit]

private theorem minKey_le_left (a b : Nat × Nat) : toLex (minKey a b) ≤ toLex a := by
  unfold minKey
  split
  · exact le_rfl
  · rename_i hnot
    rw [Prod.Lex.toLex_le_toLex]
    omega

private theorem minKey_le_right (a b : Nat × Nat) : toLex (minKey a b) ≤ toLex b := by
  unfold minKey
  split
  · rename_i hle
    rw [Prod.Lex.toLex_le_toLex]
    exact hle
  · exact le_rfl

private theorem foldl_minKey_le (keys : List (Nat × Nat)) (first : Nat × Nat) :
    ∀ key ∈ first :: keys, toLex (keys.foldl minKey first) ≤ toLex key := by
  induction keys generalizing first with
  | nil =>
    intro key hkey
    rw [List.mem_singleton.mp hkey]
    exact le_rfl
  | cons next keys ih =>
    intro key hkey
    have hfold := ih (minKey first next) _ List.mem_cons_self
    rcases List.mem_cons.mp hkey with rfl | hkey
    · exact hfold.trans (minKey_le_left key next)
    rcases List.mem_cons.mp hkey with rfl | hkey
    · exact hfold.trans (minKey_le_right first key)
    · exact ih (minKey first next) key (List.mem_cons_of_mem _ hkey)

/-- A key with enough tokens and slots. -/
def Holds (t n : Int) (key : Nat × Nat) : Prop := t ≤ key.1 ∧ n ≤ key.2

private theorem selectVarlenGraphKey_spec (graphs : List (Nat × Nat)) (ht : 0 < t) (hn : 0 < n) :
    (selectVarlenGraphKey graphs t n = none ↔ ∀ key ∈ graphs, ¬ Holds t n key) ∧
      ∀ key, selectVarlenGraphKey graphs t n = some key → key ∈ graphs ∧ Holds t n key ∧
        ∀ other ∈ graphs, Holds t n other → toLex key ≤ toLex other := by
  have hmem : ∀ key, key ∈ (graphs.filter fun key => t ≤ key.1 ∧ n ≤ key.2) ↔
      key ∈ graphs ∧ Holds t n key := by
    intro key
    rw [List.mem_filter, decide_eq_true_eq]
    unfold Holds
    rw [Int.ofNat_le, Int.ofNat_le]
  unfold selectVarlenGraphKey
  rw [if_neg (by omega)]
  cases hkeys : graphs.filter fun key => t ≤ key.1 ∧ n ≤ key.2 with
  | nil =>
    refine ⟨iff_of_true rfl fun key hin hholds => ?_, fun key hkey => nomatch hkey⟩
    have hkey := (hmem key).mpr ⟨hin, hholds⟩
    rw [hkeys] at hkey
    exact absurd hkey List.not_mem_nil
  | cons first keys =>
    rw [hkeys] at hmem
    refine ⟨iff_of_false (by simp) fun hnone => ?_, ?_⟩
    · obtain ⟨hin, hholds⟩ := (hmem first).mp List.mem_cons_self
      exact hnone first hin hholds
    · intro key hkey
      obtain rfl := Option.some.inj hkey
      obtain ⟨hin, hholds⟩ := (hmem _).mp (foldl_minKey_mem keys first)
      exact ⟨hin, hholds, fun other hother hbound =>
        foldl_minKey_le keys first other ((hmem other).mpr ⟨hother, hbound⟩)⟩

section Fill

variable {α H : Type} {capacity tokens slots width : Nat} {inputs : ModelInputs} {e : Raised}

private theorem assignPrefix_error {buffer values : List α} {stop : Nat}
    (h : assignPrefix buffer stop values = .error e) : e = shapeMismatch := by
  unfold assignPrefix at h
  dsimp only at h
  split at h
  · exact nomatch h
  · split at h
    · exact nomatch h
    · exact (Except.error.inj h).symm

private theorem BlockTables.assign_error {buffer tables : BlockTables} {stop : Nat}
    (h : buffer.assign stop tables = .error e) : e = shapeMismatch := by
  unfold BlockTables.assign at h
  rcases dite_eq_iff.mp h with ⟨_, hok⟩ | ⟨_, herror⟩
  · exact nomatch hok
  · exact (Except.error.inj herror).symm

/-- `ValueError` is what `_fill_varlen` raises for a step beyond its graph. -/
def Raised.IsValueError : Raised → Prop
  | .valueError _ => True
  | _ => False

private theorem except_bind_error {β : Type} {x : Except Raised α} {k : α → Except Raised β}
    (h : x >>= k = .error e) : x = .error e ∨ ∃ a, k a = .error e := by
  cases x with
  | error err =>
    have herr : err = e := Except.error.inj h
    exact Or.inl (congrArg Except.error herr)
  | ok a => exact Or.inr ⟨a, h⟩

private theorem assignPrefix_bind {β : Type} {buffer values : List α} {stop : Nat}
    {k : List α → Except Raised β} (h : assignPrefix buffer stop values >>= k = .error e)
    (hk : ∀ a, k a = .error e → ¬ e.IsValueError) : ¬ e.IsValueError := by
  rcases except_bind_error h with herr | ⟨a, ha⟩
  · rw [assignPrefix_error herr]
    exact fun hvalue => hvalue
  · exact hk a ha

private theorem assign_tables_error {β : Type} {buffer : BlockTables} {stop : Nat}
    {k : BlockTables → β} {found : Option BlockTables}
    (h : (match found with
      | none => .error (.runtimeError "block tables are missing")
      | some tables => do
        let blockTables ← buffer.assign stop tables
        pure (k blockTables) : Except Raised β) = .error e) : ¬ e.IsValueError := by
  cases found with
  | none =>
    rw [← Except.error.inj h]
    exact fun hvalue => hvalue
  | some tables =>
    rcases except_bind_error h with herr | ⟨_, hok⟩
    · rw [BlockTables.assign_error herr]
      exact fun hvalue => hvalue
    · exact nomatch hok

private theorem DecodeBuffers.fill_error {clear : Bool} {v : DecodeBuffers capacity width}
    (h : v.fill clear inputs = .error e) : ¬ e.IsValueError := by
  unfold DecodeBuffers.fill at h
  refine assignPrefix_bind h fun _ h => assignPrefix_bind h fun _ h => ?_
  refine assignPrefix_bind h fun _ h => assignPrefix_bind h fun _ h => ?_
  exact assign_tables_error h

private theorem VarlenBuffers.fill_error {v : VarlenBuffers tokens slots width} {key : Nat × Nat}
    (ht : inputs.inputIds.length ≤ key.1) (hn : inputs.context.cuSeqlensQ.length - 1 ≤ key.2)
    (h : v.fill inputs key = .error e) : ¬ e.IsValueError := by
  obtain ⟨tp, sl⟩ := key
  unfold VarlenBuffers.fill at h
  dsimp only at h ht hn
  rw [if_neg (by omega)] at h
  refine assignPrefix_bind h fun _ h => assignPrefix_bind h fun _ h => ?_
  refine assignPrefix_bind h fun _ h => assignPrefix_bind h fun _ h => ?_
  exact assignPrefix_bind h fun _ h => assign_tables_error h

variable {model : TargetModel H} {runner : TargetGraphs capacity tokens slots width}

private theorem runVarlen_error (h : runVarlen model runner inputs = .error e) : ¬ e.IsValueError := by
  unfold runVarlen at h
  cases hselect : selectVarlenGraph runner.maxModelLen width runner.varlenGraphs inputs with
  | none =>
    rw [hselect] at h
    exact nomatch h
  | some key =>
    rw [hselect] at h
    obtain ⟨-, ht, hn, -⟩ := selectVarlenGraph_fits hselect
    rcases except_bind_error h with herr | ⟨_, hok⟩
    · exact VarlenBuffers.fill_error ht hn herr
    · exact nomatch hok

private theorem runModel_error {isPrefill : Bool}
    (h : runModel model runner inputs isPrefill = .error e) :
    ¬ e.IsValueError := by
  unfold runModel at h
  split at h
  · exact runVarlen_error h
  · dsimp only at h
    split at h
    · exact nomatch h
    · rcases except_bind_error h with herr | ⟨_, hok⟩
      · exact DecodeBuffers.fill_error herr
      · exact nomatch hok

private theorem runModelAllPositions_error (h : runModelAllPositions model runner inputs = .error e) :
    ¬ e.IsValueError := by
  unfold runModelAllPositions at h
  split at h
  · rw [← Except.error.inj h]
    exact fun hvalue => hvalue
  · exact runVarlen_error h

end Fill

/-- A zero token count selects no graph, whatever was captured. -/
theorem no_graph_for_empty_step : ¬ (selectVarlenGraphKeyInt [(128, 513)] 0 1 = none ↔
    ∀ key ∈ [((128 : Nat), (513 : Nat))], ¬ Holds 0 1 key) := by
  intro h
  exact h.mp rfl (128, 513) List.mem_cons_self ⟨by decide, by decide⟩

/-- A capture layout is built exactly when one exists, the selected key is the smallest that
holds the step, and no replayed step exceeds its graph. -/
theorem varlen_capture_exact :
    (∀ t n l : Int,
      (varlenCaptureBoundariesInt t n l = none ↔
        (t ≤ 0 ∨ n ≤ 0 ∨ l ≤ 0) ∨ ¬ ∃ cuts, CaptureLayout t.toNat n.toNat l.toNat cuts) ∧
      ∀ cuts, varlenCaptureBoundariesInt t n l = some cuts →
        CaptureLayout t.toNat n.toNat l.toNat cuts ∧ NonemptyFirst n.toNat cuts) ∧
    (∀ (graphs : List (Nat × Nat)) (t n : Int),
      (selectVarlenGraphKeyInt graphs t n = none ↔
        (t ≤ 0 ∨ n ≤ 0) ∨ ∀ key ∈ graphs, ¬ Holds t n key) ∧
      ∀ key, selectVarlenGraphKeyInt graphs t n = some key → key ∈ graphs ∧ Holds t n key ∧
        ∀ other ∈ graphs, Holds t n other → toLex key ≤ toLex other) ∧
    ∀ {H : Type} {capacity tokens slots width : Nat} (model : TargetModel H)
      (runner : TargetGraphs capacity tokens slots width) (inputs : ModelInputs),
      (∀ isPrefill e, runModel model runner inputs isPrefill = .error e → ¬ e.IsValueError) ∧
      ∀ e, runModelAllPositions model runner inputs = .error e → ¬ e.IsValueError := by
  refine ⟨fun t n l => ?_, fun graphs t n => ?_, fun model runner inputs =>
    ⟨fun _ _ h => runModel_error h, fun _ h => runModelAllPositions_error h⟩⟩
  · unfold varlenCaptureBoundariesInt
    by_cases hpos : t ≤ 0 ∨ n ≤ 0 ∨ l ≤ 0
    · rw [if_pos hpos]
      exact ⟨iff_of_true rfl (Or.inl hpos), fun cuts h => nomatch h⟩
    · rw [if_neg hpos, varlenCaptureBoundaries_eq (by omega) (by omega) (by omega)]
      by_cases hfit : t.toNat ≤ n.toNat * l.toNat
      · rw [if_pos hfit]
        have hlayout := fullestCuts_layout hfit
        refine ⟨iff_of_false (by simp) ?_, fun cuts h => ?_⟩
        · rintro (h | h)
          · exact hpos h
          · exact h ⟨_, hlayout⟩
        · obtain rfl := Option.some.inj h
          exact ⟨hlayout, fullestCuts_nonemptyFirst (by omega)⟩
      · rw [if_neg hfit]
        refine ⟨iff_of_true rfl (Or.inr ?_), fun cuts h => nomatch h⟩
        rintro ⟨cuts, hcuts⟩
        have hlast := hcuts.cut_le le_rfl
        rw [hcuts.last] at hlast
        exact hfit hlast
  · unfold selectVarlenGraphKeyInt
    by_cases hpos : t ≤ 0 ∨ n ≤ 0
    · rw [if_pos hpos]
      exact ⟨iff_of_true rfl (Or.inl hpos), fun key h => nomatch h⟩
    · rw [if_neg hpos]
      obtain ⟨hnone, hsome⟩ := selectVarlenGraphKey_spec (t := t.toNat) (n := n.toNat) graphs
        (by omega) (by omega)
      rw [Int.toNat_of_nonneg (by omega), Int.toNat_of_nonneg (by omega)] at hnone hsome
      refine ⟨hnone.trans ⟨Or.inr, fun h => h.resolve_left hpos⟩, hsome⟩

end NanoVllm
