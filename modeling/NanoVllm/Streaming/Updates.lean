/- module: NanoVllm/Streaming/Updates
   layer: main result
   source: nanovllm/utils/streaming_detokenizer.py
   digest: A client that applies every update never fails and ends with the exact text. -/

import NanoVllm.Library.Call
import NanoVllm.Utils.StreamingDetokenizer

set_option autoImplicit false
set_option relaxedAutoImplicit false

namespace NanoVllm

open Library

variable {T : Type} {d : StreamingDetokenizer T} {state : DecodeState T} {text : Text}
  {x : Nat} {token : T}

private theorem TextUpdate.apply_ok {update : TextUpdate}
    (h : update.replaceFrom + update.deleteCount ≤ text.length) :
    update.apply text = .ok (text.take update.replaceFrom ++ update.insert
      ++ text.drop (update.replaceFrom + update.deleteCount)) := by
  unfold TextUpdate.apply
  refine Call.except_guard_of_not (by omega) ?_
  exact Call.except_guard_of_not (Nat.not_lt.mpr h) rfl

theorem TextUpdate.apply_tail {update : TextUpdate}
    (h : update.replaceFrom + update.deleteCount = text.length) :
    update.apply text = .ok (text.take update.replaceFrom ++ update.insert) := by
  rw [TextUpdate.apply_ok h.le, h, List.drop_length, List.append_nil]

theorem commonPrefixLength_le (left right : Text) :
    commonPrefixLength left right ≤ left.length ∧
      commonPrefixLength left right ≤ right.length := by
  induction left generalizing right with
  | nil => simp [commonPrefixLength]
  | cons a left ih =>
    cases right with
    | nil => simp [commonPrefixLength]
    | cons b right =>
      unfold commonPrefixLength
      split
      · obtain ⟨hl, hr⟩ := ih right
        exact ⟨Nat.succ_le_succ hl, Nat.succ_le_succ hr⟩
      · exact ⟨Nat.zero_le _, Nat.zero_le _⟩

/-- The window lies inside the tokens, and the offsets add up to the client's text. -/
structure Tracked (state : DecodeState T) (text : Text) : Prop where
  start_le : state.windowStartToken ≤ state.tokenIds.length
  rendered : state.windowStartChar + state.windowText.length = state.renderedLength
  length : text.length = state.renderedLength

theorem tracked_fresh : Tracked (DecodeState.fresh : DecodeState T) [] :=
  ⟨Nat.le_refl 0, rfl, rfl⟩

private theorem advanceOver_spec (h : Tracked state text) {candidates : List Nat}
    (hc : ∀ c ∈ candidates, state.windowStartToken ≤ c ∧ c ≤ state.tokenIds.length) :
    Tracked (d.advanceOver state candidates).1 text ∧
      (d.advanceOver state candidates).1.tokenIds = state.tokenIds ∧
      ∀ slice ∈ (d.advanceOver state candidates).2,
        slice.length ≤ state.tokenIds.length - state.windowStartToken := by
  induction candidates with
  | nil => exact ⟨h, rfl, fun slice hslice => absurd hslice List.not_mem_nil⟩
  | cons c candidates ih =>
    obtain ⟨hlow, hhigh⟩ := hc c List.mem_cons_self
    have hcommitted : ((state.tokenIds.drop state.windowStartToken).take
        (c - state.windowStartToken)).length ≤
          state.tokenIds.length - state.windowStartToken := by
      rw [List.length_take, List.length_drop]
      exact Nat.min_le_right _ _
    have hretained : (state.tokenIds.drop c).length ≤
        state.tokenIds.length - state.windowStartToken := by
      rw [List.length_drop]
      omega
    unfold StreamingDetokenizer.advanceOver
    dsimp only
    split
    · obtain ⟨htracked, htokens, hslices⟩ := ih fun c' hc' => hc c' (List.mem_cons_of_mem c hc')
      refine ⟨htracked, htokens, ?_⟩
      intro slice hslice
      rcases List.mem_cons.mp hslice with rfl | hslice
      · exact hcommitted
      rcases List.mem_cons.mp hslice with rfl | hslice
      · exact hretained
      · exact hslices slice hslice
    · next hsplit =>
      have hlength := congrArg List.length (not_not.mp hsplit)
      rw [List.length_append] at hlength
      have hrendered := h.rendered
      refine ⟨⟨hhigh, ?_, h.length⟩, rfl, ?_⟩
      · dsimp only
        omega
      · intro slice hslice
        rcases List.mem_cons.mp hslice with rfl | hslice
        · exact hcommitted
        · rw [List.mem_singleton.mp hslice]
          exact hretained

private theorem frontierCandidates_bounds :
    ∀ c ∈ d.frontierCandidates state,
      state.windowStartToken ≤ c ∧ c ≤ state.tokenIds.length := by
  intro c hc
  unfold StreamingDetokenizer.frontierCandidates at hc
  obtain ⟨h1, h2⟩ := List.mem_range'_1.mp (List.mem_reverse.mp hc)
  omega

theorem advanceFrontier_spec (h : Tracked state text) :
    Tracked (d.advanceFrontier state).1 text ∧
      (d.advanceFrontier state).1.tokenIds = state.tokenIds ∧
      ∀ slice ∈ (d.advanceFrontier state).2,
        slice.length ≤ state.tokenIds.length - state.windowStartToken := by
  unfold StreamingDetokenizer.advanceFrontier
  dsimp only
  split
  · exact ⟨h, rfl, fun slice hslice => absurd hslice List.not_mem_nil⟩
  · exact advanceOver_spec h frontierCandidates_bounds

/-- The outcomes of feeding a tracked sequence: it is refused and unchanged, or its update applies
and the sequence stays tracked. -/
inductive Fed (d : StreamingDetokenizer T) (state : DecodeState T) (token : T) (text : Text)
    (outcome : StreamingDetokenizer.FeedOutcome T) : Prop
  | refused (message : Raised) (hlimit : d.hardLimit ≤ state.tokenIds.length)
      (hresult : outcome.result = .error message) (hstate : outcome.state = state)
  | updated (update : TextUpdate) (rendered : Text) (hresult : outcome.result = .ok update)
      (happly : update.apply text = .ok rendered) (htracked : Tracked outcome.state rendered)
      (htokens : outcome.state.tokenIds = state.tokenIds ++ [token])

private theorem feedState_spec (h : Tracked state text) (x : Nat) (token : T) :
    Fed d state token text (d.feedState state x token) ∧
      ∀ slice ∈ (d.feedState state x token).decoded, slice.length ≤ d.hardLimit := by
  have hstart := h.start_le
  have hrendered := h.rendered
  have hlength := h.length
  unfold StreamingDetokenizer.feedState
  split
  · next hlimit =>
    refine ⟨.refused _ (by omega) rfl rfl, fun slice hslice => absurd hslice List.not_mem_nil⟩
  next hlimit =>
  have hwindow : ((state.tokenIds ++ [token]).drop state.windowStartToken).length ≤
      d.hardLimit := by
    rw [List.length_drop, List.length_append, List.length_singleton]
    omega
  dsimp only
  split
  · refine ⟨.updated _ text rfl ?_ ⟨?_, hrendered, hlength⟩ rfl, ?_⟩
    · rw [TextUpdate.apply_tail (by simp [hlength])]
      simp [← hlength]
    · rw [List.length_append]
      exact Nat.le_add_right_of_le hstart
    · intro slice hslice
      rw [List.mem_singleton.mp hslice]
      exact hwindow
  · obtain ⟨window, hw⟩ : ∃ window, window = d.decode
        ((state.tokenIds ++ [token]).drop state.windowStartToken) := ⟨_, rfl⟩
    rw [← hw]
    obtain ⟨hold, hnew⟩ := commonPrefixLength_le state.windowText window
    obtain ⟨fed, hfed⟩ : ∃ fed : DecodeState T, fed =
        { state with
          tokenIds := state.tokenIds ++ [token]
          windowText := window
          renderedLength := state.windowStartChar + window.length } := ⟨_, rfl⟩
    have htracked : Tracked fed (text.take
        (state.windowStartChar + commonPrefixLength state.windowText window) ++
          window.drop (commonPrefixLength state.windowText window)) := by
      rw [hfed]
      refine ⟨?_, rfl, ?_⟩
      · rw [List.length_append]
        exact Nat.le_add_right_of_le hstart
      · rw [List.length_append, List.length_take, List.length_drop]
        dsimp only
        omega
    have htokens : fed.tokenIds = state.tokenIds ++ [token] := by
      rw [hfed]
    have hstartToken : fed.windowStartToken = state.windowStartToken := by
      rw [hfed]
    obtain ⟨hadvanced, hkept, hslices⟩ := advanceFrontier_spec (d := d) htracked
    rw [← hfed]
    refine ⟨.updated _ _ rfl ?_ hadvanced (hkept.trans htokens), ?_⟩
    · rw [TextUpdate.apply_tail]
      dsimp only
      omega
    · intro slice hslice
      rcases List.mem_cons.mp hslice with rfl | hslice
      · exact hwindow
      · refine (hslices slice hslice).trans ?_
        rw [htokens, hstartToken, ← List.length_drop]
        exact hwindow

private theorem flush_tracked {states : DecodeStates T} (h : states x = some state)
    (ht : Tracked state text) :
    (d.flush states x).1.apply text = .ok (d.decode state.tokenIds) := by
  unfold StreamingDetokenizer.flush
  rw [h]
  dsimp only
  rw [TextUpdate.apply_tail ((Nat.zero_add _).trans ht.length.symm)]
  rfl

inductive StreamOp (T : Type) where
  | feed (seqId : Nat) (tokenId : T)
  | flush (seqId : Nat)
  | discard (seqId : Nat)

def StreamOp.seqId : StreamOp T → Nat
  | .feed x _ => x
  | .flush x => x
  | .discard x => x

/-- The detokenizer's states beside a client that applies every update.  `fed` holds the accepted
tokens since the sequence started, `finished` what each flush left, `outputs` what each operation
returned or raised, and `slices` what the feeds decoded. -/
structure StreamClient (T : Type) where
  states : DecodeStates T
  text : Nat → Text
  fed : Nat → List T
  finished : List (Nat × List T × Text)
  outputs : List (Nat × Except Raised TextUpdate)
  slices : List (List T)

def StreamClient.start : StreamClient T where
  states := fun _ => none
  text := fun _ => []
  fed := fun _ => []
  finished := []
  outputs := []
  slices := []

def StreamClient.step (d : StreamingDetokenizer T) (c : StreamClient T) :
    StreamOp T → Except Raised (StreamClient T)
  | .feed x token =>
    let fed := d.feed c.states x token
    let c := { c with
      states := fed.2
      outputs := c.outputs ++ [(x, fed.1.result)]
      slices := c.slices ++ fed.1.decoded }
    match fed.1.result with
    | .error _ => pure c
    | .ok update => do
      let text ← update.apply (c.text x)
      pure { c with
        text := Function.update c.text x text
        fed := Function.update c.fed x (c.fed x ++ [token]) }
  | .flush x => do
    let flushed := d.flush c.states x
    let text ← flushed.1.apply (c.text x)
    pure { c with
      states := flushed.2
      text := Function.update c.text x []
      fed := Function.update c.fed x []
      finished := c.finished ++ [(x, c.fed x, text)]
      outputs := c.outputs ++ [(x, .ok flushed.1)] }
  | .discard x =>
    pure { c with
      states := StreamingDetokenizer.discard c.states x
      text := Function.update c.text x []
      fed := Function.update c.fed x [] }

def StreamClient.run (d : StreamingDetokenizer T) :
    StreamClient T → List (StreamOp T) → Except Raised (StreamClient T)
  | c, [] => pure c
  | c, op :: ops => do
    let c ← c.step d op
    c.run d ops

/-- What a flush has to leave: the exact decode, or nothing when no token was accepted. -/
def exactText (d : StreamingDetokenizer T) (fed : List T) : Text :=
  if fed.isEmpty then [] else d.decode fed

/-- One sequence of the client: unknown and empty, or tracked by its state. -/
inductive Mirrored (state : Option (DecodeState T)) (fed : List T) (text : Text) : Prop
  | unknown (hstate : state = none) (hfed : fed = []) (htext : text = [])
  | known (s : DecodeState T) (hstate : state = some s) (htokens : s.tokenIds = fed)
      (hfed : fed ≠ []) (htracked : Tracked s text)

structure StreamClient.Consistent (d : StreamingDetokenizer T) (c : StreamClient T) : Prop where
  mirrored : ∀ x, Mirrored (c.states x) (c.fed x) (c.text x)
  finished : ∀ entry ∈ c.finished, entry.2.2 = exactText d entry.2.1
  slices : ∀ slice ∈ c.slices, slice.length ≤ d.hardLimit

theorem StreamClient.consistent_start : (StreamClient.start : StreamClient T).Consistent d :=
  ⟨fun _ => .unknown rfl rfl rfl, fun _ h => absurd h List.not_mem_nil,
    fun _ h => absurd h List.not_mem_nil⟩

private theorem mirrored_update {states : DecodeStates T} {fed : Nat → List T} {texts : Nat → Text}
    (h : ∀ x, Mirrored (states x) (fed x) (texts x)) {state : Option (DecodeState T)}
    {tokens : List T} (hx : Mirrored state tokens text) (y : Nat) :
    Mirrored (Function.update states x state y) (Function.update fed x tokens y)
      (Function.update texts x text y) := by
  by_cases hy : y = x
  · rw [hy, Function.update_self, Function.update_self, Function.update_self]
    exact hx
  · rw [Function.update_of_ne hy, Function.update_of_ne hy, Function.update_of_ne hy]
    exact h y

theorem Mirrored.opened {entry : Option (DecodeState T)} {fed : List T}
    (h : Mirrored entry fed text) :
    Tracked (entry.getD .fresh) text ∧ (entry.getD .fresh).tokenIds = fed := by
  cases h with
  | unknown hstate hfed htext =>
    rw [hstate, hfed, htext]
    exact ⟨tracked_fresh, rfl⟩
  | known s hstate htokens hfed htracked =>
    rw [hstate]
    exact ⟨htracked, htokens⟩

/-- A refused sequence holds a full window, so it is known and its states do not change. -/
private theorem feed_refused {states : DecodeStates T} {fed : List T} (h : Mirrored (states x) fed text)
    {message : Raised} (hresult : (d.feed states x token).1.result = .error message) :
    (d.feed states x token).2 = states ∧ fed ≠ [] := by
  obtain ⟨htracked, htokens⟩ := h.opened
  have hpos : 0 < d.hardLimit := by
    have hge := d.windowSize_ge
    unfold StreamingDetokenizer.hardLimit
    omega
  cases (feedState_spec (d := d) htracked x token).1 with
  | refused message' hlimit hresult' hstate =>
    cases h with
    | unknown hnone hfed htext =>
      rw [htokens, hfed] at hlimit
      exact absurd hlimit (Nat.not_le.mpr hpos)
    | known s hsome htokens' hfed htracked' =>
      refine ⟨?_, hfed⟩
      unfold StreamingDetokenizer.feed
      dsimp only
      rw [hstate, hsome, Option.getD_some, ← hsome, Function.update_eq_self]
  | updated update rendered hresult' happly htracked' htokens' =>
    exact nomatch hresult.symm.trans hresult'

private theorem mem_append_singleton {β : Type} {P : β → Prop} {l : List β} {b : β}
    (hl : ∀ a ∈ l, P a) (hb : P b) : ∀ a ∈ l ++ [b], P a := by
  intro a ha
  rcases List.mem_append.mp ha with ha | ha
  · exact hl a ha
  · rw [List.mem_singleton.mp ha]
    exact hb

theorem StreamClient.Consistent.step {c : StreamClient T} (h : c.Consistent d)
    (op : StreamOp T) : ∃ c', c.step d op = .ok c' ∧ c'.Consistent d := by
  cases op with
  | feed x token =>
    obtain ⟨htracked, htokens⟩ := (h.mirrored x).opened
    obtain ⟨hfed, hslices⟩ := feedState_spec (d := d) htracked x token
    have hall : ∀ slice ∈ c.slices ++ (d.feed c.states x token).1.decoded,
        slice.length ≤ d.hardLimit := by
      intro slice hslice
      exact (List.mem_append.mp hslice).elim (h.slices slice) (hslices slice)
    unfold StreamClient.step
    dsimp only
    cases hresult : (d.feed c.states x token).1.result with
    | error message =>
      refine ⟨_, rfl, ⟨?_, h.finished, hall⟩⟩
      dsimp only
      rw [(feed_refused (h.mirrored x) hresult).1]
      exact h.mirrored
    | ok update =>
      cases hfed with
      | refused message hlimit hresult' hstate => exact nomatch hresult'.symm.trans hresult
      | updated update' rendered hresult' happly htracked' htokens' =>
        cases Except.ok.inj (hresult'.symm.trans hresult)
        dsimp only
        refine ⟨_, (Call.except_bind_of_ok happly).trans rfl, ⟨?_, h.finished, hall⟩⟩
        refine mirrored_update h.mirrored (.known _ rfl ?_ ?_ htracked')
        · rw [htokens', htokens]
        · exact List.append_ne_nil_of_right_ne_nil _ (List.cons_ne_nil token [])
  | flush x =>
    unfold StreamClient.step
    dsimp only
    have hgone : ∀ y, Mirrored (Function.update c.states x none y)
        (Function.update c.fed x [] y) (Function.update c.text x [] y) :=
      mirrored_update h.mirrored (.unknown rfl rfl rfl)
    cases h.mirrored x with
    | unknown hstate hfed htext =>
      have hflush : d.flush c.states x = (⟨x, 0, 0, [], true⟩, c.states) := by
        unfold StreamingDetokenizer.flush
        rw [hstate]
      rw [hflush, htext]
      refine ⟨_, (Call.except_bind_of_ok (TextUpdate.apply_tail rfl)).trans rfl, ⟨?_, ?_, h.slices⟩⟩
      · rw [← hstate, Function.update_eq_self] at hgone
        exact hgone
      · refine mem_append_singleton h.finished ?_
        rw [hfed]
        rfl
    | known s hstate htokens hfed htracked =>
      have hflush : (d.flush c.states x).2 = Function.update c.states x none := by
        unfold StreamingDetokenizer.flush
        rw [hstate]
      refine ⟨_, (Call.except_bind_of_ok (flush_tracked hstate htracked)).trans rfl, ⟨?_, ?_, h.slices⟩⟩
      · rw [← hflush] at hgone
        exact hgone
      · refine mem_append_singleton h.finished ?_
        dsimp only
        unfold exactText
        rw [List.isEmpty_eq_false_iff.mpr hfed, htokens]
        rfl
  | discard x =>
    refine ⟨_, rfl, ⟨?_, h.finished, h.slices⟩⟩
    exact mirrored_update h.mirrored (.unknown rfl rfl rfl)

private theorem StreamClient.Consistent.run (ops : List (StreamOp T)) :
    ∀ {c : StreamClient T}, c.Consistent d → ∃ c', c.run d ops = .ok c' ∧ c'.Consistent d := by
  induction ops with
  | nil => exact fun h => ⟨_, rfl, h⟩
  | cons op ops ih =>
    intro c h
    obtain ⟨next, hnext, hconsistent⟩ := h.step op
    obtain ⟨c', hrun, hc'⟩ := ih hconsistent
    exact ⟨c', (Call.except_bind_of_ok hnext).trans hrun, hc'⟩

structure StreamClient.Shows (x : Nat) (c c' : StreamClient T) : Prop where
  states : c'.states x = c.states x
  text : c'.text x = c.text x
  fed : c'.fed x = c.fed x
  finished : c'.finished = c.finished.filter (fun entry => entry.1 = x)
  outputs : c'.outputs = c.outputs.filter (fun entry => entry.1 = x)

private theorem filter_append_same {β : Type} (l : List (Nat × β)) (x : Nat) (b : β) :
    (l ++ [(x, b)]).filter (fun entry => entry.1 = x) =
      l.filter (fun entry => entry.1 = x) ++ [(x, b)] := by
  rw [List.filter_append, List.filter_singleton]
  simp

private theorem filter_append_other {β : Type} (l : List (Nat × β)) {x y : Nat} (h : y ≠ x) (b : β) :
    (l ++ [(y, b)]).filter (fun entry => entry.1 = x) =
      l.filter (fun entry => entry.1 = x) := by
  rw [List.filter_append, List.filter_singleton]
  simp [h]

private theorem update_same {β : Type} (f g : Nat → β) (x : Nat) (b : β) :
    Function.update f x b x = Function.update g x b x := by
  rw [Function.update_self, Function.update_self]

private theorem StreamClient.Shows.step_other {c c' next : StreamClient T} (h : c.Shows x c')
    {op : StreamOp T} (hop : op.seqId ≠ x) (hstep : c.step d op = .ok next) :
    next.Shows x c' := by
  have hne : x ≠ op.seqId := hop.symm
  cases op with
  | feed y token =>
    unfold StreamClient.step at hstep
    dsimp only at hstep
    have hstates : c'.states x = (d.feed c.states y token).2 x := by
      rw [h.states]
      exact (Function.update_of_ne hne _ _).symm
    have houtputs := h.outputs.trans
      (filter_append_other c.outputs hop (d.feed c.states y token).1.result).symm
    cases hresult : (d.feed c.states y token).1.result with
    | error message =>
      rw [hresult] at hstep houtputs
      cases hstep
      exact ⟨hstates, h.text, h.fed, h.finished, houtputs⟩
    | ok update =>
      rw [hresult] at hstep houtputs
      obtain ⟨text, htext, hstep⟩ := Call.except_bind_ok hstep
      cases hstep
      exact ⟨hstates, h.text.trans (Function.update_of_ne hne _ _).symm,
        h.fed.trans (Function.update_of_ne hne _ _).symm, h.finished, houtputs⟩
  | flush y =>
    unfold StreamClient.step at hstep
    dsimp only at hstep
    obtain ⟨text, htext, hstep⟩ := Call.except_bind_ok hstep
    cases hstep
    refine ⟨h.states.trans ?_, h.text.trans (Function.update_of_ne hne _ _).symm,
      h.fed.trans (Function.update_of_ne hne _ _).symm,
      h.finished.trans (filter_append_other _ hop _).symm,
      h.outputs.trans (filter_append_other _ hop _).symm⟩
    unfold StreamingDetokenizer.flush
    dsimp only
    cases c.states y with
    | none => rfl
    | some s => exact (Function.update_of_ne hne _ _).symm
  | discard y =>
    cases hstep
    exact ⟨h.states.trans (Function.update_of_ne hne _ _).symm,
      h.text.trans (Function.update_of_ne hne _ _).symm,
      h.fed.trans (Function.update_of_ne hne _ _).symm, h.finished, h.outputs⟩

private theorem StreamClient.Shows.step_same {c c' next : StreamClient T} (h : c.Shows x c')
    {op : StreamOp T} (hop : op.seqId = x) (hstep : c.step d op = .ok next) :
    ∃ next', c'.step d op = .ok next' ∧ next.Shows x next' := by
  cases op with
  | feed y token =>
    have hy : y = x := hop
    subst hy
    have hfeed : (d.feed c'.states y token).1 = (d.feed c.states y token).1 := by
      unfold StreamingDetokenizer.feed
      rw [h.states]
    have hstates : (d.feed c'.states y token).2 y = (d.feed c.states y token).2 y := by
      unfold StreamingDetokenizer.feed
      rw [h.states]
      exact update_same _ _ _ _
    unfold StreamClient.step at hstep ⊢
    dsimp only at hstep ⊢
    have houtputs := (congrArg (· ++ [(y, (d.feed c.states y token).1.result)]) h.outputs).trans
      (filter_append_same c.outputs y (d.feed c.states y token).1.result).symm
    rw [hfeed]
    cases hresult : (d.feed c.states y token).1.result with
    | error message =>
      rw [hresult] at hstep houtputs
      cases hstep
      exact ⟨_, rfl, hstates, h.text, h.fed, h.finished, houtputs⟩
    | ok update =>
      rw [hresult] at hstep houtputs
      obtain ⟨text, htext, hstep⟩ := Call.except_bind_ok hstep
      cases hstep
      dsimp only
      rw [h.text, h.fed]
      refine ⟨_, (Call.except_bind_of_ok htext).trans rfl, hstates, ?_, ?_, h.finished, houtputs⟩
      · exact update_same _ _ _ _
      · exact update_same _ _ _ _
  | flush y =>
    have hy : y = x := hop
    subst hy
    have hflush : (d.flush c'.states y).1 = (d.flush c.states y).1 := by
      unfold StreamingDetokenizer.flush
      rw [h.states]
      cases c.states y <;> rfl
    have hstates : (d.flush c'.states y).2 y = (d.flush c.states y).2 y := by
      unfold StreamingDetokenizer.flush
      rw [h.states]
      cases hy : c.states y with
      | none => exact h.states
      | some s => exact update_same _ _ _ _
    unfold StreamClient.step at hstep ⊢
    dsimp only at hstep ⊢
    obtain ⟨text, htext, hstep⟩ := Call.except_bind_ok hstep
    cases hstep
    rw [hflush, h.text, h.fed]
    refine ⟨_, (Call.except_bind_of_ok htext).trans rfl, hstates, ?_, ?_, ?_, ?_⟩
    · exact update_same _ _ _ _
    · exact update_same _ _ _ _
    · dsimp only
      rw [h.finished, filter_append_same]
    · dsimp only
      rw [h.outputs, filter_append_same]
  | discard y =>
    have hy : y = x := hop
    subst hy
    cases hstep
    refine ⟨_, rfl, ?_, ?_, ?_, h.finished, h.outputs⟩
    · exact update_same _ _ _ _
    · exact update_same _ _ _ _
    · exact update_same _ _ _ _

/-- The operations of one sequence alone show what they show among all the others. -/
private theorem StreamClient.Shows.run (ops : List (StreamOp T)) : ∀ {c c' last : StreamClient T},
    c.Shows x c' → c.run d ops = .ok last →
      ∃ last', c'.run d (ops.filter (fun op => op.seqId = x)) = .ok last' ∧
        last.Shows x last' := by
  induction ops with
  | nil =>
    intro c c' last h hrun
    cases hrun
    exact ⟨c', rfl, h⟩
  | cons op ops ih =>
    intro c c' last h hrun
    obtain ⟨next, hstep, hrest⟩ := Call.except_bind_ok hrun
    by_cases hop : op.seqId = x
    · rw [List.filter_cons_of_pos (by simpa using hop)]
      obtain ⟨next', hstep', hshows⟩ := h.step_same hop hstep
      obtain ⟨last', hrun', hlast⟩ := ih hshows hrest
      exact ⟨last', (Call.except_bind_of_ok hstep').trans hrun', hlast⟩
    · rw [List.filter_cons_of_neg (by simpa using hop)]
      exact ih (h.step_other hop hstep) hrest

/-- From the empty detokenizer every interleaving applies, tracks lengths, ends exact, decodes
bounded windows and treats each sequence as if it were alone. -/
theorem streamed_updates_exact (d : StreamingDetokenizer T) (ops : List (StreamOp T)) :
    ∃ c, StreamClient.start.run d ops = .ok c ∧
      (∀ x, match c.states x with
        | none => c.text x = []
        | some state => state.renderedLength = (c.text x).length) ∧
      (∀ x fed text, (x, fed, text) ∈ c.finished →
        text = if fed.isEmpty then [] else d.decode fed) ∧
      (∀ slice ∈ c.slices, slice.length ≤ d.windowSize + 2 * d.boundaryOverlap) ∧
      (∀ x token message, (d.feed c.states x token).1.result = .error message →
        (d.feed c.states x token).2 = c.states ∧
          (d.flush (d.feed c.states x token).2 x).1.apply (c.text x) =
            .ok (d.decode (c.fed x))) ∧
      ∀ x, ∃ alone, StreamClient.start.run d (ops.filter (fun op => op.seqId = x)) = .ok alone ∧
        alone.states x = c.states x ∧ alone.text x = c.text x ∧
        alone.outputs = c.outputs.filter (fun entry => entry.1 = x) ∧
        alone.finished = c.finished.filter (fun entry => entry.1 = x) := by
  obtain ⟨c, hrun, hc⟩ := StreamClient.consistent_start.run (d := d) ops
  refine ⟨c, hrun, ?_, ?_, hc.slices, ?_, ?_⟩
  · intro x
    cases hc.mirrored x with
    | unknown hstate hfed htext =>
      rw [hstate]
      exact htext
    | known s hstate htokens hfed htracked =>
      rw [hstate]
      exact htracked.length.symm
  · intro x fed text hmem
    exact hc.finished _ hmem
  · intro x token message hresult
    obtain ⟨hstates, hfed⟩ := feed_refused (hc.mirrored x) hresult
    refine ⟨hstates, ?_⟩
    rw [hstates]
    cases hc.mirrored x with
    | unknown hstate hempty htext => exact absurd hempty hfed
    | known s hstate htokens hfed' htracked =>
      rw [← htokens]
      exact flush_tracked hstate htracked
  · intro x
    have hstart : (StreamClient.start : StreamClient T).Shows x .start :=
      ⟨rfl, rfl, rfl, rfl, rfl⟩
    obtain ⟨alone, hrun', hshows⟩ := hstart.run ops hrun
    exact ⟨alone, hrun', hshows.states, hshows.text, hshows.outputs, hshows.finished⟩

/-- A decoder that renders a prefix before any token. -/
def prefixedDetokenizer : StreamingDetokenizer Nat where
  decode := fun tokens => '>' :: tokens.map Char.ofNat
  windowSize := 2
  boundaryOverlap := 1
  windowSize_ge := Nat.one_lt_two
  boundaryOverlap_pos := Nat.one_pos

/-- Flushing a sequence that was never fed leaves no text, whatever the decoder renders for no
tokens. -/
theorem flush_unfed_skips_decode :
    ¬ ∀ (ops : List (StreamOp Nat)) (c : StreamClient Nat),
      StreamClient.start.run prefixedDetokenizer ops = .ok c →
        ∀ x fed text, (x, fed, text) ∈ c.finished → text = prefixedDetokenizer.decode fed := by
  intro h
  have hnil : ([] : Text) = prefixedDetokenizer.decode [] :=
    h [.flush 0] _ rfl 0 [] [] (List.mem_singleton.mpr rfl)
  exact nomatch hnil

end NanoVllm
