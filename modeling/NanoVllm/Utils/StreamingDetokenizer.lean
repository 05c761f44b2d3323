/- module: NanoVllm/Utils/StreamingDetokenizer
   layer: source
   source: nanovllm/utils/streaming_detokenizer.py
   digest: Bounded-window decoding of token streams into text updates. -/

import NanoVllm.Engine.Sequence
import Mathlib.Logic.Function.Basic

set_option autoImplicit false
set_option relaxedAutoImplicit false

namespace NanoVllm

/-- A string is its list of code points. -/
abbrev Text := List Char

def replacementCharacter : Char := Char.ofNat 0xFFFD

structure TextUpdate where
  seqId : Nat
  replaceFrom : Nat
  deleteCount : Nat
  insert : Text
  final : Bool
  deriving DecidableEq, Repr

/-- `TextUpdate.apply`; offsets below zero are excluded by their type. -/
def TextUpdate.apply (update : TextUpdate) (text : Text) : Except Raised Text := do
  if text.length < update.replaceFrom then
    throw (.valueError "replace_from lies outside the current text")
  let stop := update.replaceFrom + update.deleteCount
  if text.length < stop then
    throw (.valueError "delete_count lies outside the current text")
  pure (text.take update.replaceFrom ++ update.insert ++ text.drop stop)

structure DecodeState (T : Type) where
  tokenIds : List T
  windowStartToken : Nat
  windowStartChar : Nat
  windowText : Text
  renderedLength : Nat

def DecodeState.fresh {T : Type} : DecodeState T where
  tokenIds := []
  windowStartToken := 0
  windowStartChar := 0
  windowText := []
  renderedLength := 0

/-- The object without its states; the last two fields are the checks of `__init__`. -/
structure StreamingDetokenizer (T : Type) where
  decode : List T → Text
  windowSize : Nat
  boundaryOverlap : Nat
  windowSize_ge : 2 ≤ windowSize
  boundaryOverlap_pos : 1 ≤ boundaryOverlap

def commonPrefixLength : Text → Text → Nat
  | a :: left, b :: right => if a = b then commonPrefixLength left right + 1 else 0
  | _, _ => 0

/-- `_states`. -/
abbrev DecodeStates (T : Type) := Nat → Option (DecodeState T)

namespace StreamingDetokenizer

variable {T : Type} (d : StreamingDetokenizer T)

def hardLimit : Nat := d.windowSize + 2 * d.boundaryOverlap

def frontierThreshold : Nat := d.windowSize + d.boundaryOverlap

/-- The loop of `_advance_frontier` over its candidates; the list collects the slices it
decodes. -/
def advanceOver (state : DecodeState T) : List Nat → DecodeState T × List (List T)
  | [] => (state, [])
  | candidate :: candidates =>
    let committedTokens := (state.tokenIds.drop state.windowStartToken).take
      (candidate - state.windowStartToken)
    let retainedTokens := state.tokenIds.drop candidate
    let committed := d.decode committedTokens
    let retained := d.decode retainedTokens
    if committed ++ retained ≠ state.windowText then
      let rest := advanceOver state candidates
      (rest.1, committedTokens :: retainedTokens :: rest.2)
    else
      ({ state with
          windowStartToken := candidate
          windowStartChar := state.windowStartChar + committed.length
          windowText := retained },
        [committedTokens, retainedTokens])

def frontierCandidates (state : DecodeState T) : List Nat :=
  let target := state.tokenIds.length - d.windowSize
  let lower := max (state.windowStartToken + 1) (target - d.boundaryOverlap)
  (List.range' lower (target + 1 - lower)).reverse

/-- `_advance_frontier`, with the slices it decodes. -/
def advanceFrontier (state : DecodeState T) : DecodeState T × List (List T) :=
  let windowTokens := state.tokenIds.length - state.windowStartToken
  if windowTokens < d.windowSize + d.boundaryOverlap then (state, [])
  else d.advanceOver state (d.frontierCandidates state)

/-- What one `feed` returns or raises, the state it leaves and the slices it decodes. -/
structure FeedOutcome (T : Type) where
  result : Except Raised TextUpdate
  state : DecodeState T
  decoded : List (List T)

def feedState (state : DecodeState T) (seqId : Nat) (tokenId : T) : FeedOutcome T :=
  if d.hardLimit ≤ state.tokenIds.length - state.windowStartToken then
    { result := .error (.runtimeError
        "tokenizer rewrite exceeded the configured boundary overlap")
      state := state
      decoded := [] }
  else
    let fed := { state with tokenIds := state.tokenIds ++ [tokenId] }
    let window := fed.tokenIds.drop fed.windowStartToken
    let newWindow := d.decode window
    let windowTokens := fed.tokenIds.length - fed.windowStartToken
    if newWindow.getLast? = some replacementCharacter ∧ windowTokens < d.frontierThreshold then
      { result := .ok
          { seqId := seqId
            replaceFrom := fed.renderedLength
            deleteCount := 0
            insert := []
            final := false }
        state := fed
        decoded := [window] }
    else
      let common := commonPrefixLength fed.windowText newWindow
      let update : TextUpdate :=
        { seqId := seqId
          replaceFrom := fed.windowStartChar + common
          deleteCount := fed.windowText.length - common
          insert := newWindow.drop common
          final := false }
      let advanced := d.advanceFrontier
        { fed with
          windowText := newWindow
          renderedLength := fed.windowStartChar + newWindow.length }
      { result := .ok update
        state := advanced.1
        decoded := window :: advanced.2 }

/-- `setdefault` and the body of `feed`. -/
def feed (states : DecodeStates T) (seqId : Nat) (tokenId : T) :
    FeedOutcome T × DecodeStates T :=
  let outcome := d.feedState ((states seqId).getD .fresh) seqId tokenId
  (outcome, Function.update states seqId (some outcome.state))

def flush (states : DecodeStates T) (seqId : Nat) : TextUpdate × DecodeStates T :=
  match states seqId with
  | none =>
    ({ seqId := seqId
       replaceFrom := 0
       deleteCount := 0
       insert := []
       final := true }, states)
  | some state =>
    ({ seqId := seqId
       replaceFrom := 0
       deleteCount := state.renderedLength
       insert := d.decode state.tokenIds
       final := true }, Function.update states seqId none)

def discard (states : DecodeStates T) (seqId : Nat) : DecodeStates T :=
  Function.update states seqId none

end StreamingDetokenizer

end NanoVllm
