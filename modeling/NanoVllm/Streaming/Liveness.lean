/- module: NanoVllm/Streaming/Liveness
   layer: main result
   source: nanovllm/utils/streaming_detokenizer.py, _advance_frontier and feed
   digest: A decoder that splits at every token is never refused and shows exact text. -/

import NanoVllm.Streaming.Updates

set_option autoImplicit false
set_option relaxedAutoImplicit false

namespace NanoVllm

open Library

variable {T : Type} {d : StreamingDetokenizer T} {state : DecodeState T} {text : Text}
  {x : Nat} {token : T}

/-- Two token lists decode to the concatenation of their texts. -/
def StreamingDetokenizer.Splittable (d : StreamingDetokenizer T) : Prop :=
  ∀ xs ys, d.decode (xs ++ ys) = d.decode xs ++ d.decode ys

private theorem StreamingDetokenizer.Splittable.nil (h : d.Splittable) : d.decode [] = [] := by
  have hlen := congrArg List.length (h [] [])
  rw [List.append_nil, List.length_append] at hlen
  exact List.length_eq_zero_iff.mp (by omega)

def DecodeState.window (state : DecodeState T) (token : T) : List T :=
  (state.tokenIds ++ [token]).drop state.windowStartToken

/-- The next feed hides its text. -/
def StreamingDetokenizer.Withholds (d : StreamingDetokenizer T) (state : DecodeState T)
    (token : T) : Prop :=
  (d.decode (state.window token)).getLast? = some replacementCharacter ∧
    (state.window token).length < d.frontierThreshold

/-- The dropped tokens are decoded for good, and the window is below the threshold. -/
structure Bounded (d : StreamingDetokenizer T) (state : DecodeState T) (text : Text) : Prop where
  tracked : Tracked state text
  chars : state.windowStartChar =
    (d.decode (state.tokenIds.take state.windowStartToken)).length
  split : text = d.decode (state.tokenIds.take state.windowStartToken) ++ state.windowText
  window : state.tokenIds.length - state.windowStartToken < d.frontierThreshold

private theorem bounded_fresh (hsplit : d.Splittable) :
    Bounded d (DecodeState.fresh : DecodeState T) [] where
  tracked := tracked_fresh
  chars := by
    change 0 = (d.decode []).length
    rw [hsplit.nil]
    rfl
  split := by
    change [] = d.decode [] ++ []
    rw [hsplit.nil]
    rfl
  window := by
    have hge := d.windowSize_ge
    unfold StreamingDetokenizer.frontierThreshold
    change 0 - 0 < _
    omega

/-- When the text is exact up to a full window, the frontier moves to its first candidate. -/
private theorem advanceFrontier_live (hsplit : d.Splittable) (htracked : Tracked state text)
    (hchars : state.windowStartChar =
      (d.decode (state.tokenIds.take state.windowStartToken)).length)
    (htext : text = d.decode (state.tokenIds.take state.windowStartToken) ++ state.windowText)
    (hwindow : state.windowText = d.decode (state.tokenIds.drop state.windowStartToken)) :
    Bounded d (d.advanceFrontier state).1 text ∧
      (d.advanceFrontier state).1.tokenIds = state.tokenIds := by
  obtain ⟨hadvanced, htokens, -⟩ := advanceFrontier_spec (d := d) htracked
  refine ⟨?_, htokens⟩
  have hW := d.windowSize_ge
  have hO := d.boundaryOverlap_pos
  have hstart := htracked.start_le
  unfold StreamingDetokenizer.advanceFrontier at hadvanced ⊢
  dsimp only at hadvanced ⊢
  split at hadvanced
  · next hshort =>
    rw [if_pos hshort]
    exact ⟨htracked, hchars, htext, hshort⟩
  next hfull =>
  rw [if_neg hfull]
  obtain ⟨target, htarget⟩ : ∃ target, target = state.tokenIds.length - d.windowSize := ⟨_, rfl⟩
  obtain ⟨lower, hlower⟩ : ∃ lower,
    lower = max (state.windowStartToken + 1) (target - d.boundaryOverlap) := ⟨_, rfl⟩
  -- The range is not empty, and its first candidate is the target.
  have hcandidates : d.frontierCandidates state =
      target :: (List.range' lower (target - lower)).reverse := by
    unfold StreamingDetokenizer.frontierCandidates
    dsimp only
    rw [← htarget, ← hlower, show target + 1 - lower = (target - lower) + 1 by omega,
      List.range'_concat, List.reverse_append, show lower + 1 * (target - lower) = target by omega]
    rfl
  have hfront : state.tokenIds.take target = state.tokenIds.take state.windowStartToken ++
      (state.tokenIds.drop state.windowStartToken).take (target - state.windowStartToken) := by
    rw [← List.take_add, show state.windowStartToken + (target - state.windowStartToken) = target
      by omega]
  have hcut : d.decode ((state.tokenIds.drop state.windowStartToken).take
      (target - state.windowStartToken)) ++ d.decode (state.tokenIds.drop target) =
        state.windowText := by
    have hrest : state.tokenIds.drop target = (state.tokenIds.drop state.windowStartToken).drop
        (target - state.windowStartToken) := by
      rw [List.drop_drop, show state.windowStartToken + (target - state.windowStartToken) = target
        by omega]
    rw [hwindow, hrest, ← hsplit, List.take_append_drop]
  have hmoved : d.advanceOver state (d.frontierCandidates state) =
      ({ state with
          windowStartToken := target
          windowStartChar := state.windowStartChar + (d.decode ((state.tokenIds.drop
            state.windowStartToken).take (target - state.windowStartToken))).length
          windowText := d.decode (state.tokenIds.drop target) },
        [(state.tokenIds.drop state.windowStartToken).take (target - state.windowStartToken),
          state.tokenIds.drop target]) := by
    rw [hcandidates, StreamingDetokenizer.advanceOver]
    dsimp only
    rw [if_neg (not_not.mpr hcut)]
  rw [hmoved] at hadvanced ⊢
  refine ⟨hadvanced, ?_, ?_, ?_⟩
  · dsimp only
    rw [hfront, hsplit, List.length_append, hchars]
  · dsimp only
    rw [hfront, hsplit, List.append_assoc, hcut]
    exact htext
  · dsimp only
    unfold StreamingDetokenizer.frontierThreshold
    omega

private theorem take_commonPrefixLength (left right : Text) :
    left.take (commonPrefixLength left right) = right.take (commonPrefixLength left right) := by
  induction left generalizing right with
  | nil =>
    rw [show commonPrefixLength [] right = 0 from by cases right <;> rfl]
    rfl
  | cons a left ih =>
    cases right with
    | nil => rfl
    | cons b right =>
      unfold commonPrefixLength
      split
      · next heq => rw [List.take_succ_cons, List.take_succ_cons, heq, ih]
      · rfl

/-- What a feed of a bounded sequence does: it returns an update that applies. -/
structure FeedsLive (d : StreamingDetokenizer T) (state : DecodeState T) (token : T)
    (text : Text) (outcome : StreamingDetokenizer.FeedOutcome T) (update : TextUpdate)
    (shown : Text) : Prop where
  result : outcome.result = .ok update
  applied : update.apply text = .ok shown
  bounded : Bounded d outcome.state shown
  tokens : outcome.state.tokenIds = state.tokenIds ++ [token]
  withheld : d.Withholds state token →
    shown = text ∧ outcome.state = { state with tokenIds := state.tokenIds ++ [token] }
  exact_text : ¬ d.Withholds state token → shown = d.decode (state.tokenIds ++ [token])

private theorem Bounded.feed (h : Bounded d state text) (hsplit : d.Splittable) (x : Nat) (token : T) :
    ∃ update shown, FeedsLive d state token text (d.feedState state x token) update shown := by
  have hstart := h.tracked.start_le
  have hrendered := h.tracked.rendered
  have hlength := h.tracked.length
  have hwindow := h.window
  unfold StreamingDetokenizer.frontierThreshold at hwindow
  have hroom : ¬ d.hardLimit ≤ state.tokenIds.length - state.windowStartToken := by
    unfold StreamingDetokenizer.hardLimit
    omega
  have hfront : (state.tokenIds ++ [token]).take state.windowStartToken =
      state.tokenIds.take state.windowStartToken := List.take_append_of_le_length hstart
  have hsize : (state.window token).length =
      (state.tokenIds ++ [token]).length - state.windowStartToken := List.length_drop
  unfold StreamingDetokenizer.feedState
  rw [if_neg hroom]
  dsimp only
  by_cases hheld : d.Withholds state token
  · have hcond := hheld
    unfold StreamingDetokenizer.Withholds at hcond
    rw [hsize, DecodeState.window] at hcond
    rw [if_pos hcond]
    refine ⟨_, text, rfl, ?_, ⟨⟨?_, hrendered, hlength⟩, ?_, ?_, hcond.2⟩, rfl,
      fun _ => ⟨rfl, rfl⟩, fun hnot => absurd hheld hnot⟩
    · rw [TextUpdate.apply_tail (by simp [hlength])]
      simp [← hlength]
    · rw [List.length_append]
      exact Nat.le_add_right_of_le hstart
    · dsimp only
      rw [hfront]
      exact h.chars
    · dsimp only
      rw [hfront]
      exact h.split
  · have hcond := hheld
    unfold StreamingDetokenizer.Withholds at hcond
    rw [hsize, DecodeState.window] at hcond
    rw [if_neg hcond]
    obtain ⟨window, hw⟩ : ∃ window, window =
        d.decode ((state.tokenIds ++ [token]).drop state.windowStartToken) := ⟨_, rfl⟩
    rw [← hw]
    obtain ⟨common, hcommon⟩ : ∃ common, common = commonPrefixLength state.windowText window :=
      ⟨_, rfl⟩
    rw [← hcommon]
    obtain ⟨hold, -⟩ := commonPrefixLength_le state.windowText window
    rw [← hcommon] at hold
    obtain ⟨shown, hshown⟩ : ∃ shown, shown =
        d.decode (state.tokenIds.take state.windowStartToken) ++ window := ⟨_, rfl⟩
    have hexact : shown = d.decode (state.tokenIds ++ [token]) := by
      rw [hshown, hw, ← hfront, ← hsplit, List.take_append_drop]
    have hchars := h.chars
    -- The update keeps what both window texts begin with.
    have hkept : text.take (state.windowStartChar + common) ++ window.drop common = shown := by
      have htake : text.take (state.windowStartChar + common) =
          d.decode (state.tokenIds.take state.windowStartToken) ++ window.take common := by
        rw [h.split, hchars, List.take_length_add_append, hcommon, take_commonPrefixLength]
      rw [htake, List.append_assoc, List.take_append_drop, hshown]
    obtain ⟨fed, hfed⟩ : ∃ fed : DecodeState T, fed =
        { state with
          tokenIds := state.tokenIds ++ [token]
          windowText := window
          renderedLength := state.windowStartChar + window.length } := ⟨_, rfl⟩
    have htracked : Tracked fed shown := by
      rw [hfed]
      refine ⟨?_, rfl, ?_⟩
      · rw [List.length_append]
        exact Nat.le_add_right_of_le hstart
      · rw [hshown, List.length_append, ← hchars]
    obtain ⟨hbounded, htokens⟩ := advanceFrontier_live hsplit htracked
      (by rw [hfed, hfront]; exact hchars) (by rw [hfed, hfront]; exact hshown)
      (by rw [hfed]; exact hw)
    rw [← hfed]
    refine ⟨_, shown, rfl, ?_, hbounded, ?_, fun hnot => absurd hnot hheld, fun _ => hexact⟩
    · rw [TextUpdate.apply_tail (by dsimp only; omega), hkept]
    · rw [htokens, hfed]

/-- The feeds of `tokens`, one after another, are all withheld. -/
def StreamingDetokenizer.WithheldRun (d : StreamingDetokenizer T) (x : Nat) :
    DecodeState T → List T → Prop
  | _, [] => True
  | state, token :: tokens =>
    d.Withholds state token ∧ d.WithheldRun x (d.feedState state x token).state tokens

private theorem Bounded.withheldRun_le (hsplit : d.Splittable) (x : Nat) {tokens : List T} :
    ∀ {state : DecodeState T} {text : Text}, Bounded d state text →
      d.WithheldRun x state tokens →
        tokens.length + (state.tokenIds.length - state.windowStartToken) <
          d.frontierThreshold := by
  induction tokens with
  | nil =>
    intro state text h _
    rw [List.length_nil, Nat.zero_add]
    exact h.window
  | cons token tokens ih =>
    intro state text h hrun
    obtain ⟨update, shown, hlive⟩ := h.feed hsplit x token
    have hrest := ih hlive.bounded hrun.2
    rw [(hlive.withheld hrun.1).2, List.length_append, List.length_singleton] at hrest
    have hstart := h.tracked.start_le
    rw [List.length_cons]
    dsimp only at hrest
    omega

def StreamClient.Live (d : StreamingDetokenizer T) (c : StreamClient T) : Prop :=
  c.Consistent d ∧ ∀ x, Bounded d ((c.states x).getD .fresh) (c.text x)

private theorem bounded_update {states : DecodeStates T} {texts : Nat → Text}
    (h : ∀ x, Bounded d ((states x).getD .fresh) (texts x)) {entry : Option (DecodeState T)}
    (hx : Bounded d (entry.getD .fresh) text) (y : Nat) :
    Bounded d ((Function.update states x entry y).getD .fresh)
      (Function.update texts x text y) := by
  by_cases hy : y = x
  · rw [hy, Function.update_self, Function.update_self]
    exact hx
  · rw [Function.update_of_ne hy, Function.update_of_ne hy]
    exact h y

private theorem StreamClient.Live.step {c c' : StreamClient T} (h : c.Live d) (hsplit : d.Splittable)
    {op : StreamOp T} (hstep : c.step d op = .ok c') : c'.Live d := by
  obtain ⟨next, hnext, hconsistent⟩ := h.1.step op
  obtain rfl := Except.ok.inj (hnext.symm.trans hstep)
  refine ⟨hconsistent, ?_⟩
  cases op with
  | feed x token =>
    obtain ⟨update, shown, hlive⟩ := (h.2 x).feed hsplit x token
    unfold StreamClient.step at hstep
    dsimp only at hstep
    have hresult : (d.feed c.states x token).1.result = .ok update := hlive.result
    rw [hresult] at hstep
    obtain ⟨rendered, happly, hc'⟩ := Call.except_bind_ok hstep
    obtain rfl := Except.ok.inj (hlive.applied.symm.trans happly)
    obtain rfl := Except.ok.inj hc'
    exact bounded_update h.2 hlive.bounded
  | flush x =>
    unfold StreamClient.step at hstep
    obtain ⟨rendered, -, hc'⟩ := Call.except_bind_ok hstep
    obtain rfl := Except.ok.inj hc'
    have hgone : (d.flush c.states x).2 = Function.update c.states x none := by
      unfold StreamingDetokenizer.flush
      cases hstate : c.states x with
      | none =>
        dsimp only
        rw [← hstate, Function.update_eq_self]
      | some s => rfl
    dsimp only
    rw [hgone]
    exact bounded_update h.2 (bounded_fresh hsplit)
  | discard x =>
    obtain rfl := Except.ok.inj hstep
    exact bounded_update h.2 (bounded_fresh hsplit)

private theorem StreamClient.Live.run (hsplit : d.Splittable) (ops : List (StreamOp T)) :
    ∀ {c : StreamClient T}, c.Live d → ∃ c', c.run d ops = .ok c' ∧ c'.Live d := by
  induction ops with
  | nil => exact fun h => ⟨_, rfl, h⟩
  | cons op ops ih =>
    intro c h
    obtain ⟨next, hnext, -⟩ := h.1.step op
    obtain ⟨c', hrun, hc'⟩ := ih (h.step hsplit hnext)
    exact ⟨c', (Call.except_bind_of_ok hnext).trans hrun, hc'⟩

/-- With a splittable decoder no feed of any interleaving is refused, every window stays below
the threshold, and a feed shows the exact text unless it is withheld and changes nothing. -/
theorem splittable_stream_live (d : StreamingDetokenizer T) (hsplit : d.Splittable)
    (ops : List (StreamOp T)) :
    ∃ c, StreamClient.start.run d ops = .ok c ∧ ∀ x, ∃ state,
      state = (c.states x).getD .fresh ∧ state.tokenIds = c.fed x ∧
      state.tokenIds.length - state.windowStartToken < d.windowSize + d.boundaryOverlap ∧
      (∀ token, ∃ update shown, (d.feed c.states x token).1.result = .ok update ∧
        update.apply (c.text x) = .ok shown ∧
        (¬ d.Withholds state token → shown = d.decode (c.fed x ++ [token])) ∧
        (d.Withholds state token → shown = c.text x ∧
          (d.feed c.states x token).1.state =
            { state with tokenIds := state.tokenIds ++ [token] })) ∧
      ∀ tokens, d.WithheldRun x state tokens →
        tokens.length ≤ d.windowSize + d.boundaryOverlap - 1 := by
  have hstart : (StreamClient.start : StreamClient T).Live d :=
    ⟨StreamClient.consistent_start, fun _ => bounded_fresh hsplit⟩
  obtain ⟨c, hrun, hlive⟩ := StreamClient.Live.run hsplit ops hstart
  refine ⟨c, hrun, fun x => ?_⟩
  obtain ⟨-, htokens⟩ := (hlive.1.mirrored x).opened
  have hbounded := hlive.2 x
  refine ⟨_, rfl, htokens, hbounded.window, fun token => ?_, fun tokens hheld => ?_⟩
  · obtain ⟨update, shown, hfeed⟩ := hbounded.feed hsplit x token
    refine ⟨update, shown, hfeed.result, hfeed.applied, fun hnot => ?_, hfeed.withheld⟩
    rw [hfeed.exact_text hnot, htokens]
  · have hle := hbounded.withheldRun_le hsplit x hheld
    unfold StreamingDetokenizer.frontierThreshold at hle
    omega

def charDetokenizer : StreamingDetokenizer Nat where
  decode := fun tokens => tokens.map Char.ofNat
  windowSize := 2
  boundaryOverlap := 2
  windowSize_ge := le_rfl
  boundaryOverlap_pos := Nat.le_succ 1

def charFeeds : List (StreamOp Nat) :=
  [.feed 0 65, .feed 1 97, .feed 0 66, .feed 0 67, .feed 1 98, .feed 0 68]

/-- A replacement character is withheld there, and the next token shows all that was fed. -/
theorem char_stream_live : ∃ c state, StreamClient.start.run charDetokenizer charFeeds = .ok c ∧
    state = (c.states 0).getD .fresh ∧ state.windowStartToken = 2 ∧
    charDetokenizer.Withholds state 65533 ∧
    (∃ update, (charDetokenizer.feed c.states 0 65533).1.result = .ok update ∧
      update.apply (c.text 0) = .ok (c.text 0)) ∧
    ∃ update, (charDetokenizer.feed c.states 0 69).1.result = .ok update ∧
      update.apply (c.text 0) = .ok ['A', 'B', 'C', 'D', 'E'] := by
  obtain ⟨c, hrun, hc⟩ := splittable_stream_live charDetokenizer (fun _ _ => List.map_append)
    charFeeds
  have hend : (StreamClient.start.run charDetokenizer charFeeds).toOption.any (fun c =>
      decide (((c.states 0).getD .fresh).windowStartToken = 2 ∧
        c.fed 0 = [65, 66, 67, 68])) = true := by
    decide +kernel
  rw [hrun] at hend
  obtain ⟨hmoved, hfed⟩ := of_decide_eq_true hend
  obtain ⟨state, hstate, htokens, -, hfeeds, -⟩ := hc 0
  rw [← hstate] at hmoved
  have hwindow : ∀ token, state.window token = [67, 68, token] := by
    intro token
    unfold DecodeState.window
    rw [hmoved, htokens, hfed]
    rfl
  have hheld : charDetokenizer.Withholds state 65533 := by
    unfold StreamingDetokenizer.Withholds
    rw [hwindow]
    decide
  have hshown : ¬ charDetokenizer.Withholds state 69 := by
    unfold StreamingDetokenizer.Withholds
    rw [hwindow]
    decide
  obtain ⟨update, shown, hresult, happly, -, hkept⟩ := hfeeds 65533
  obtain ⟨update', shown', hresult', happly', hexact, -⟩ := hfeeds 69
  refine ⟨c, state, hrun, hstate, hmoved, hheld, ⟨update, hresult, ?_⟩, update', hresult', ?_⟩
  · rw [happly, (hkept hheld).1]
  · rw [happly', hexact hshown, hfed]
    rfl

end NanoVllm
