/- module: NanoVllm/Transport/Mailbox
   layer: main result
   source: nanovllm/engine/model_runner.py, the tensor-parallel call loop
   digest: One buffer and level-triggered events deliver every call exactly once. -/

import Mathlib.Algebra.BigOperators.Fin
import Mathlib.Algebra.Order.BigOperators.Group.Finset
import Mathlib.Tactic.DeriveEncodable
import NanoVllm.Library.Steps
import NanoVllm.Transport.Frames

set_option autoImplicit false
set_option relaxedAutoImplicit false

namespace NanoVllm

open Library

variable {p : Pickle} {size n : Nat} {call frame : CallFrame} {image buffer : Bytes}
  {done : List CallFrame} {event event' : Bool} {w w' : TpWorker}

/-! ### A published frame -/

structure Published (p : Pickle) (frame : CallFrame) (image buffer : Bytes) : Prop where
  encoded : Encoded p buffer.length frame image
  intact : buffer.take image.length = image

namespace Published

private theorem buffer_header (h : Published p frame image buffer) :
    buffer.take tpShmHeaderSize = image.take tpShmHeaderSize := by
  rw [← h.intact, List.take_take, h.encoded.length, Nat.min_eq_left (Nat.le_add_right _ _)]

private theorem buffer_payload (h : Published p frame image buffer) :
    (buffer.drop tpShmHeaderSize).take (p.dumps frame).length = p.dumps frame := by
  have hcut : (buffer.take image.length).drop tpShmHeaderSize = p.dumps frame := by
    rw [h.intact, h.encoded.payload]
  rwa [List.drop_take, h.encoded.length, Nat.add_sub_cancel_left] at hcut

private theorem header_le (h : Published p frame image buffer) : tpShmHeaderSize ≤ buffer.length := by
  have := h.encoded.length
  have := h.encoded.fits
  omega

private theorem checkHeader_eq (h : Published p frame image buffer) :
    checkHeader buffer.length (image.take tpShmHeaderSize) =
      .payload (p.dumps frame).length [] := by
  have hlen := h.encoded.length
  have hfits := h.encoded.fits
  have hpos := h.encoded.nonempty
  unfold checkHeader
  rw [h.encoded.header]
  dsimp only
  rw [if_neg (not_not.mpr rfl), if_neg (by omega)]

end Published

/-! ### One worker -/

inductive Settled (done : List CallFrame) : Bool → TpWorker → Prop
  | waiting : Settled done false ⟨.waiting, done⟩
  | executing {last : CallFrame} (hlast : last.method ≠ "exit") :
      Settled done false ⟨.executing last, done⟩

/-- The worker has entered the calls `done` and its event has been set for `frame`. -/
inductive Called (p : Pickle) (done : List CallFrame) (frame : CallFrame) (image : Bytes) :
    Bool → TpWorker → Prop
  | pending : Called p done frame image true ⟨.waiting, done⟩
  | late {last : CallFrame} (hlast : last.method ≠ "exit") :
      Called p done frame image true ⟨.executing last, done⟩
  | header {k : Nat} (hk : k ≤ tpShmHeaderSize) :
      Called p done frame image true ⟨.header (image.take k), done⟩
  | payload {k : Nat} (hk : k ≤ (p.dumps frame).length) :
      Called p done frame image true
        ⟨.payload (p.dumps frame).length ((p.dumps frame).take k), done⟩
  | clearing : Called p done frame image true ⟨.clearing (.ok frame), done⟩
  | loaded : Called p done frame image false ⟨.loaded frame, done⟩
  | executing : Called p done frame image false ⟨.executing frame, done ++ [frame]⟩
  | waiting (hframe : frame.method ≠ "exit") :
      Called p done frame image false ⟨.waiting, done ++ [frame]⟩
  | stopped (hframe : frame.method = "exit") :
      Called p done frame image false ⟨.stopped, done ++ [frame]⟩

private theorem Settled.signal (h : Settled done event w) : Called p done frame image true w := by
  cases h with
  | waiting => exact .pending
  | executing hlast => exact .late hlast

/-- Between calls a worker reads nothing: with its event clear it can only come to wait. -/
private theorem Settled.step (h : Settled done event w)
    (hstep : w.step p buffer event = some (event', w')) : Settled done event' w' := by
  cases h with
  | waiting => exact absurd hstep (by simp [TpWorker.step])
  | executing hlast =>
    unfold TpWorker.step at hstep
    dsimp only at hstep
    rw [if_neg hlast] at hstep
    obtain ⟨rfl, rfl⟩ := Prod.mk.inj (Option.some.inj hstep)
    exact .waiting

private theorem take_append_getElem? {α : Type} {xs : List α} {k : Nat} {x : α}
    (h : xs[(xs.take k).length]? = some x) (hk : k ≤ xs.length) :
    xs.take k ++ [x] = xs.take (k + 1) ∧ k < xs.length := by
  rw [List.length_take, Nat.min_eq_left hk] at h
  obtain ⟨hlt, rfl⟩ := List.getElem?_eq_some_iff.mp h
  exact ⟨List.take_append_getElem hlt, hlt⟩

private theorem le_of_getElem?_take {α : Type} {xs : List α} {k : Nat}
    (h : xs[(xs.take k).length]? = none) : xs.take k = xs := by
  rw [List.getElem?_eq_none_iff, List.length_take] at h
  exact List.take_of_length_le (by omega)

/-- A called worker copies exactly the published bytes and enters exactly their call. -/
private theorem Called.step (hp : p.Faithful) (hpub : Published p frame image buffer)
    (h : Called p done frame image event w)
    (hstep : w.step p buffer event = some (event', w')) :
    Called p done frame image event' w' := by
  unfold TpWorker.step at hstep
  cases h with
  | pending =>
    obtain ⟨rfl, rfl⟩ := Prod.mk.inj (Option.some.inj hstep)
    exact .header (k := 0) (Nat.zero_le _)
  | late hlast =>
    dsimp only at hstep
    rw [if_neg hlast] at hstep
    obtain ⟨rfl, rfl⟩ := Prod.mk.inj (Option.some.inj hstep)
    exact .pending
  | @header k hk =>
    have hlen : tpShmHeaderSize ≤ image.length := by
      rw [hpub.encoded.length]
      exact Nat.le_add_right _ _
    have hseen : (image.take tpShmHeaderSize).take k = image.take k := by
      rw [List.take_take, Nat.min_eq_left hk]
    dsimp only at hstep
    rw [if_neg (not_lt.mpr hpub.header_le), hpub.buffer_header, ← hseen] at hstep
    cases hbyte : (image.take tpShmHeaderSize)[((image.take tpShmHeaderSize).take k).length]? with
    | some byte =>
      rw [hbyte] at hstep
      obtain ⟨rfl, rfl⟩ := Prod.mk.inj (Option.some.inj hstep)
      obtain ⟨heq, hlt⟩ := take_append_getElem? hbyte (by rw [List.length_take]; omega)
      rw [List.length_take] at hlt
      rw [heq, List.take_take, Nat.min_eq_left (by omega)]
      exact .header (by omega)
    | none =>
      rw [hbyte] at hstep
      obtain ⟨rfl, rfl⟩ := Prod.mk.inj (Option.some.inj hstep)
      rw [le_of_getElem?_take hbyte, hpub.checkHeader_eq]
      exact .payload (k := 0) (Nat.zero_le _)
  | @payload k hk =>
    dsimp only at hstep
    rw [hpub.buffer_payload] at hstep
    cases hbyte : (p.dumps frame)[((p.dumps frame).take k).length]? with
    | some byte =>
      rw [hbyte] at hstep
      obtain ⟨rfl, rfl⟩ := Prod.mk.inj (Option.some.inj hstep)
      obtain ⟨heq, hlt⟩ := take_append_getElem? hbyte hk
      rw [heq]
      exact .payload hlt
    | none =>
      rw [hbyte] at hstep
      obtain ⟨rfl, rfl⟩ := Prod.mk.inj (Option.some.inj hstep)
      have hload : decodePayload p (p.dumps frame) = .ok frame := by
        unfold decodePayload
        rw [hp frame]
      rw [le_of_getElem?_take hbyte, hload]
      exact .clearing
  | clearing =>
    obtain ⟨rfl, rfl⟩ := Prod.mk.inj (Option.some.inj hstep)
    exact .loaded
  | loaded =>
    obtain ⟨rfl, rfl⟩ := Prod.mk.inj (Option.some.inj hstep)
    exact .executing
  | executing =>
    dsimp only at hstep
    by_cases hexit : frame.method = "exit"
    · rw [if_pos hexit] at hstep
      obtain ⟨rfl, rfl⟩ := Prod.mk.inj (Option.some.inj hstep)
      exact .stopped hexit
    · rw [if_neg hexit] at hstep
      obtain ⟨rfl, rfl⟩ := Prod.mk.inj (Option.some.inj hstep)
      exact .waiting hexit
  | waiting hframe => exact absurd hstep (by simp)
  | stopped hframe => exact absurd hstep (by simp)

/-- Entering the call is the only way on: a called worker that cannot move has entered it. -/
private theorem Called.blocked (h : Called p done frame image event w)
    (hblocked : w.step p buffer event = none) :
    w.executed = done ++ [frame] ∧ (frame.method = "exit" → w.phase = .stopped) := by
  unfold TpWorker.step at hblocked
  cases h with
  | pending => exact absurd hblocked (by simp)
  | late hlast => exact absurd hblocked (by simp)
  | header hk =>
    dsimp only at hblocked
    split at hblocked
    · exact absurd hblocked (by simp)
    · split at hblocked <;> exact absurd hblocked (by simp)
  | payload hk =>
    dsimp only at hblocked
    split at hblocked <;> exact absurd hblocked (by simp)
  | clearing => exact absurd hblocked (by simp)
  | loaded => exact absurd hblocked (by simp)
  | executing => exact absurd hblocked (by simp)
  | waiting hframe => exact ⟨rfl, fun hexit => absurd hexit hframe⟩
  | stopped hframe => exact ⟨rfl, fun _ => rfl⟩

private theorem Called.settled (h : Called p done frame image event w)
    (hentered : done.length < w.executed.length) (hframe : frame.method ≠ "exit") :
    Settled (done ++ [frame]) event w := by
  cases h with
  | executing => exact .executing hframe
  | waiting => exact .waiting
  | stopped hexit => exact absurd hexit hframe
  | pending => exact absurd hentered (lt_irrefl _)
  | late => exact absurd hentered (lt_irrefl _)
  | header => exact absurd hentered (lt_irrefl _)
  | payload => exact absurd hentered (lt_irrefl _)
  | clearing => exact absurd hentered (lt_irrefl _)
  | loaded => exact absurd hentered (lt_irrefl _)

private theorem Settled.executed_eq (h : Settled done event w) : w.executed = done := by
  cases h <;> rfl

private theorem Called.executed_eq (h : Called p done frame image event w) :
    w.executed = done ∨ w.executed = done ++ [frame] := by
  cases h with
  | executing => exact Or.inr rfl
  | waiting => exact Or.inr rfl
  | stopped => exact Or.inr rfl
  | _ => exact Or.inl rfl

private theorem Settled.not_raised (h : Settled done event w) (e : Raised) : w.phase ≠ .raised e := by
  cases h <;> simp

private theorem Called.not_raised (h : Called p done frame image event w) (e : Raised) :
    w.phase ≠ .raised e := by
  cases h <;> simp

/-! ### Work left -/

def TpWorker.work (size total : Nat) (w : TpWorker) : Nat :=
  match w.phase with
  | .header seen => (total - w.executed.length) * (size + 20) - (1 + seen.length)
  | .payload _ seen => (total - w.executed.length) * (size + 20) - (10 + seen.length)
  | .clearing _ => (total - w.executed.length) * (size + 20) - (11 + size)
  | .loaded _ => (total - w.executed.length) * (size + 20) - (12 + size)
  | .executing _ => (total - w.executed.length) * (size + 20) + 1
  | _ => (total - w.executed.length) * (size + 20)

private theorem Settled.work_lt {total : Nat} (h : Settled done event w)
    (hstep : w.step p buffer event = some (event', w')) : w'.work size total < w.work size total := by
  cases h with
  | waiting => exact absurd hstep (by simp [TpWorker.step])
  | executing hlast =>
    unfold TpWorker.step at hstep
    dsimp only at hstep
    rw [if_neg hlast] at hstep
    obtain ⟨rfl, rfl⟩ := Prod.mk.inj (Option.some.inj hstep)
    exact Nat.lt_succ_self _

private theorem owed_ge {total k : Nat} (h : k < total) : size + 20 ≤ (total - k) * (size + 20) :=
  Nat.le_mul_of_pos_left _ (by omega)

private theorem owed_succ {total : Nat} (h : done.length < total) (frame : CallFrame) :
    (total - (done ++ [frame]).length) * (size + 20) + (size + 20) =
      (total - done.length) * (size + 20) := by
  rw [List.length_append, List.length_singleton, ← Nat.succ_mul]
  congr 1
  omega

private theorem Called.work_lt {total : Nat} (hpub : Published p frame image buffer)
    (hsize : buffer.length = size) (htotal : done.length < total)
    (h : Called p done frame image event w)
    (hstep : w.step p buffer event = some (event', w')) :
    w'.work size total < w.work size total := by
  have howed : size + 20 ≤ (total - done.length) * (size + 20) := owed_ge htotal
  have hnext : (total - (done ++ [frame]).length) * (size + 20) + (size + 20) =
      (total - done.length) * (size + 20) := owed_succ htotal frame
  have hfits := hpub.encoded.fits
  have hlen := hpub.encoded.length
  have hhead : tpShmHeaderSize = 8 := rfl
  rw [hsize] at hfits
  unfold TpWorker.step at hstep
  cases h with
  | pending =>
    obtain ⟨rfl, rfl⟩ := Prod.mk.inj (Option.some.inj hstep)
    simp only [TpWorker.work, List.length_nil]
    omega
  | late hlast =>
    dsimp only at hstep
    rw [if_neg hlast] at hstep
    obtain ⟨rfl, rfl⟩ := Prod.mk.inj (Option.some.inj hstep)
    exact Nat.lt_succ_self _
  | @header k hk =>
    dsimp only at hstep
    rw [if_neg (not_lt.mpr hpub.header_le), hpub.buffer_header] at hstep
    have hseen : (image.take k).length = k := by
      rw [List.length_take]
      omega
    rw [hseen] at hstep
    cases hbyte : (image.take tpShmHeaderSize)[k]? with
    | some byte =>
      rw [hbyte] at hstep
      obtain ⟨rfl, rfl⟩ := Prod.mk.inj (Option.some.inj hstep)
      simp only [TpWorker.work, List.length_append, List.length_singleton, hseen]
      omega
    | none =>
      rw [hbyte] at hstep
      obtain ⟨rfl, rfl⟩ := Prod.mk.inj (Option.some.inj hstep)
      rw [List.getElem?_eq_none_iff, List.length_take] at hbyte
      obtain rfl : k = tpShmHeaderSize := by omega
      rw [hpub.checkHeader_eq]
      simp only [TpWorker.work, List.length_nil, hseen]
      omega
  | @payload k hk =>
    dsimp only at hstep
    have hseen : ((p.dumps frame).take k).length = k := by
      rw [List.length_take]
      omega
    rw [hpub.buffer_payload, hseen] at hstep
    cases hbyte : (p.dumps frame)[k]? with
    | some byte =>
      rw [hbyte] at hstep
      obtain ⟨rfl, rfl⟩ := Prod.mk.inj (Option.some.inj hstep)
      simp only [TpWorker.work, List.length_append, List.length_singleton, hseen]
      omega
    | none =>
      rw [hbyte] at hstep
      obtain ⟨rfl, rfl⟩ := Prod.mk.inj (Option.some.inj hstep)
      simp only [TpWorker.work, hseen]
      omega
  | clearing =>
    obtain ⟨rfl, rfl⟩ := Prod.mk.inj (Option.some.inj hstep)
    simp only [TpWorker.work]
    omega
  | loaded =>
    obtain ⟨rfl, rfl⟩ := Prod.mk.inj (Option.some.inj hstep)
    simp only [TpWorker.work]
    omega
  | executing =>
    dsimp only at hstep
    by_cases hexit : frame.method = "exit"
    · rw [if_pos hexit] at hstep
      obtain ⟨rfl, rfl⟩ := Prod.mk.inj (Option.some.inj hstep)
      exact Nat.lt_succ_self _
    · rw [if_neg hexit] at hstep
      obtain ⟨rfl, rfl⟩ := Prod.mk.inj (Option.some.inj hstep)
      exact Nat.lt_succ_self _
  | waiting hframe => exact absurd hstep (by simp)
  | stopped hframe => exact absurd hstep (by simp)

/-! ### The group -/

/-- `call("exit")`. -/
def exitCall : CallFrame := ⟨"exit", []⟩

def EngineCalls (collective : String → Bool) (script : List CallFrame) : Prop :=
  ∃ calls, script = calls ++ [exitCall] ∧
    ∀ call ∈ calls, collective call.method = true ∧ call.method ≠ "exit"

/-- The calls `write_shm` does not refuse. -/
def accepted (p : Pickle) (size : Nat) (calls : List CallFrame) : List CallFrame :=
  calls.filter fun call => (encodeCall p size call).isOk

private theorem mem_accepted {calls : List CallFrame} :
    call ∈ accepted p size calls ↔ call ∈ calls ∧ Publishable p size call := by
  unfold accepted
  rw [List.mem_filter, ← encodeCall_ok_iff]
  refine and_congr_right fun _ => ?_
  cases encodeCall p size call with
  | ok image => exact ⟨fun _ => ⟨image, rfl⟩, fun _ => rfl⟩
  | error e => exact ⟨fun h => absurd h Bool.false_ne_true, fun ⟨_, h⟩ => nomatch h⟩

def wireOf (call : CallFrame) : CallFrame :=
  match workerFrame call with
  | .ok frame => frame
  | .error _ => call

private theorem receives_wireOf (h : Publishable p size call) : Receives call (wireOf call) := by
  obtain ⟨frame, hframe, -⟩ := h
  unfold wireOf
  rw [workerFrame_ok_iff.mpr hframe]
  exact hframe

variable {collective : String → Bool}

/-- Rank zero is in the last published `call`: one with calls to follow, or the `exit`. -/
structure Current (p : Pickle) (collective : String → Bool) (s : TpGroup n)
    (before : List CallFrame) (call : CallFrame) (image : Bytes) : Prop where
  published : s.published = before ++ [call]
  encoded : Encoded p s.buffer.length (wireOf call) image
  method : (wireOf call).method = call.method
  follows : (collective call.method = true ∧ call.method ≠ "exit") ∧
      EngineCalls collective s.script ∨
    call.method = "exit" ∧ s.script = []

inductive Stage (p : Pickle) (collective : String → Bool) (s : TpGroup n) : Prop
  | idle (hlead : s.leader = .idle) (hscript : EngineCalls collective s.script)
      (hworkers : ∀ i, Settled (s.published.map wireOf) (s.event i) (s.worker i))
  | writing {before : List CallFrame} {call : CallFrame} {image : Bytes} {pos : Nat}
      (hlead : s.leader = .writing call image pos)
      (hcurrent : Current p collective s before call image)
      (hpos : pos ≤ image.length) (hbuffer : s.buffer.take pos = image.take pos)
      (hworkers : ∀ i, Settled (before.map wireOf) (s.event i) (s.worker i))
  | signalling {before : List CallFrame} {call : CallFrame} {image : Bytes} {next : Nat}
      (hlead : s.leader = .signalling call next)
      (hcurrent : Current p collective s before call image)
      (hnext : next ≤ n) (hbuffer : s.buffer.take image.length = image)
      (hworkers : ∀ i : Fin n, if i.val < next
        then Called p (before.map wireOf) (wireOf call) image (s.event i) (s.worker i)
        else Settled (before.map wireOf) (s.event i) (s.worker i))
  | executing {before : List CallFrame} {call : CallFrame} {image : Bytes}
      (hlead : s.leader = .executing call) (hcurrent : Current p collective s before call image)
      (hbuffer : s.buffer.take image.length = image)
      (hworkers : ∀ i, Called p (before.map wireOf) (wireOf call) image (s.event i) (s.worker i))
  | finished {before : List CallFrame} {call : CallFrame} {image : Bytes}
      (hlead : s.leader = .idle) (hcurrent : Current p collective s before call image)
      (hexit : call.method = "exit") (hbuffer : s.buffer.take image.length = image)
      (hworkers : ∀ i, Called p (before.map wireOf) (wireOf call) image (s.event i) (s.worker i))

/-- The invariant of the call loop for the calls `all` over a buffer of `size` bytes. -/
structure Delivering (p : Pickle) (collective : String → Bool) (size : Nat) (all : List CallFrame)
    (s : TpGroup n) : Prop where
  size_eq : s.buffer.length = size
  history : s.published ++ accepted p size s.script = accepted p size all
  stage : Stage p collective s

section Group

variable {all before : List CallFrame} {s t : TpGroup n}

private theorem encoded_wireOf (h : encodeCall p size call = .ok image) :
    Encoded p size (wireOf call) image ∧ (wireOf call).method = call.method := by
  obtain ⟨frame, hframe, hencoded, -⟩ := encodeCall_ok h
  have hwire : wireOf call = frame := by
    unfold wireOf
    rw [hframe]
  rw [hwire]
  exact ⟨hencoded, (workerFrame_ok_iff.mp hframe).method⟩

private theorem accepted_cons_of_ok (h : encodeCall p size call = .ok image) (calls : List CallFrame) :
    accepted p size (call :: calls) = call :: accepted p size calls := by
  unfold accepted
  rw [List.filter_cons_of_pos]
  rw [h]
  rfl

private theorem accepted_cons_of_error {e : Raised} (h : encodeCall p size call = .error e)
    (calls : List CallFrame) : accepted p size (call :: calls) = accepted p size calls := by
  unfold accepted
  rw [List.filter_cons_of_neg]
  rw [h]
  exact Bool.false_ne_true

private theorem Current.transfer (h : Current p collective s before call image)
    (hpublished : t.published = s.published) (hsize : t.buffer.length = s.buffer.length)
    (hscript : t.script = s.script) :
    Current p collective t before call image := by
  refine ⟨hpublished.trans h.published, ?_, h.method, ?_⟩
  · rw [hsize]
    exact h.encoded
  · rw [hscript]
    exact h.follows

private theorem Current.published_eq (h : Current p collective s before call image)
    (hbuffer : s.buffer.take image.length = image) :
    Published p (wireOf call) image s.buffer := ⟨h.encoded, hbuffer⟩

/-- Calls begun from `idle` are written out, calls refused leave everything but the script. -/
private theorem Delivering.begin (hexit : ∃ image, encodeCall p size exitCall = .ok image)
    (h : Delivering p collective size all s) (hlead : s.leader = .idle)
    (hscript : EngineCalls collective s.script)
    (hworkers : ∀ i, Settled (s.published.map wireOf) (s.event i) (s.worker i))
    (hstep : s.leaderStep p collective = some t) : Delivering p collective size all t := by
  obtain ⟨calls, hscript, hcalls⟩ := hscript
  have hsize := h.size_eq
  have hhistory := h.history
  unfold TpGroup.leaderStep at hstep
  rw [hlead] at hstep
  dsimp only at hstep
  cases calls with
  | nil =>
    obtain ⟨image, himage⟩ := hexit
    have hlast : s.script = [exitCall] := hscript
    rw [hlast] at hstep hhistory
    dsimp only at hstep
    rw [hsize, himage] at hstep
    obtain rfl := Option.some.inj hstep
    rw [accepted_cons_of_ok himage] at hhistory
    obtain ⟨hencoded, hmethod⟩ := encoded_wireOf himage
    rw [← hsize] at hencoded
    refine ⟨hsize, ?_, .writing rfl ⟨rfl, hencoded, hmethod, Or.inr ⟨rfl, rfl⟩⟩
      (Nat.zero_le _) rfl hworkers⟩
    rw [← hhistory, List.append_assoc]
    rfl
  | cons call calls =>
    have hnext : s.script = call :: (calls ++ [exitCall]) := hscript
    have hrest : EngineCalls collective (calls ++ [exitCall]) :=
      ⟨calls, rfl, fun later hlater => hcalls later (List.mem_cons_of_mem call hlater)⟩
    rw [hnext] at hstep hhistory
    dsimp only at hstep
    rw [hsize] at hstep
    cases hcode : encodeCall p size call with
    | error e =>
      rw [hcode] at hstep
      obtain rfl := Option.some.inj hstep
      rw [accepted_cons_of_error hcode] at hhistory
      exact ⟨hsize, hhistory, .idle rfl hrest hworkers⟩
    | ok image =>
      rw [hcode] at hstep
      obtain rfl := Option.some.inj hstep
      rw [accepted_cons_of_ok hcode] at hhistory
      obtain ⟨hencoded, hmethod⟩ := encoded_wireOf hcode
      rw [← hsize] at hencoded
      refine ⟨hsize, ?_, .writing rfl ⟨rfl, hencoded, hmethod,
        Or.inl ⟨hcalls call List.mem_cons_self, hrest⟩⟩ (Nat.zero_le _) rfl hworkers⟩
      rw [← hhistory, List.append_assoc]
      rfl

private theorem set_take_succ {α : Type} {xs ys : List α} {k : Nat} {y : α} (hget : ys[k]? = some y)
    (htake : xs.take k = ys.take k) (hk : k < xs.length) :
    (xs.set k y).take (k + 1) = ys.take (k + 1) := by
  obtain ⟨hlt, rfl⟩ := List.getElem?_eq_some_iff.mp hget
  rw [List.take_add_one, List.take_add_one, List.take_set_of_le (Nat.le_refl k), htake,
    List.getElem?_set_self hk, List.getElem?_eq_getElem hlt]

private theorem Delivering.write (h : Delivering p collective size all s) {pos : Nat}
    (hlead : s.leader = .writing call image pos)
    (hcurrent : Current p collective s before call image)
    (hpos : pos ≤ image.length) (hbuffer : s.buffer.take pos = image.take pos)
    (hworkers : ∀ i, Settled (before.map wireOf) (s.event i) (s.worker i))
    (hstep : s.leaderStep p collective = some t) : Delivering p collective size all t := by
  have hfits := hcurrent.encoded.fits
  unfold TpGroup.leaderStep at hstep
  rw [hlead] at hstep
  dsimp only at hstep
  cases hbyte : image[pos]? with
  | some byte =>
    rw [hbyte] at hstep
    obtain rfl := Option.some.inj hstep
    have hlt : pos < image.length := (List.getElem?_eq_some_iff.mp hbyte).1
    refine ⟨(List.length_set).trans h.size_eq, h.history,
      .writing rfl (hcurrent.transfer rfl List.length_set rfl) hlt ?_ hworkers⟩
    exact set_take_succ hbyte hbuffer (by omega)
  | none =>
    rw [hbyte] at hstep
    obtain rfl := Option.some.inj hstep
    rw [List.getElem?_eq_none_iff] at hbyte
    obtain rfl : pos = image.length := by omega
    rw [List.take_length] at hbuffer
    refine ⟨h.size_eq, h.history, .signalling rfl (hcurrent.transfer rfl rfl rfl) (Nat.zero_le _)
      hbuffer fun i => ?_⟩
    rw [if_neg (Nat.not_lt_zero _)]
    exact hworkers i

private theorem Delivering.signal (h : Delivering p collective size all s) {next : Nat}
    (hlead : s.leader = .signalling call next) (hcurrent : Current p collective s before call image)
    (hnext : next ≤ n) (hbuffer : s.buffer.take image.length = image)
    (hworkers : ∀ i : Fin n, if i.val < next
      then Called p (before.map wireOf) (wireOf call) image (s.event i) (s.worker i)
      else Settled (before.map wireOf) (s.event i) (s.worker i))
    (hstep : s.leaderStep p collective = some t) : Delivering p collective size all t := by
  unfold TpGroup.leaderStep at hstep
  rw [hlead] at hstep
  dsimp only at hstep
  by_cases hlt : next < n
  · rw [dif_pos hlt] at hstep
    obtain rfl := Option.some.inj hstep
    refine ⟨h.size_eq, h.history, .signalling rfl (hcurrent.transfer rfl rfl rfl) hlt hbuffer
      fun i => ?_⟩
    have hi := hworkers i
    dsimp only
    by_cases heq : i = ⟨next, hlt⟩
    · rw [heq] at hi ⊢
      rw [if_neg (lt_irrefl next)] at hi
      rw [if_pos (Nat.lt_succ_self next), Function.update_self]
      exact hi.signal
    · have hne : i.val ≠ next := fun hval => heq (Fin.ext hval)
      rw [Function.update_of_ne heq]
      by_cases hbelow : i.val < next
      · rw [if_pos hbelow] at hi
        rw [if_pos (by omega)]
        exact hi
      · rw [if_neg hbelow] at hi
        rw [if_neg (by omega)]
        exact hi
  · rw [dif_neg hlt] at hstep
    obtain rfl := Option.some.inj hstep
    refine ⟨h.size_eq, h.history, .executing rfl (hcurrent.transfer rfl rfl rfl) hbuffer
      fun i => ?_⟩
    have hi := hworkers i
    rwa [if_pos (by omega)] at hi

/-- Past the barrier every worker has entered the call; past `exit` nothing follows. -/
private theorem Delivering.finish (h : Delivering p collective size all s)
    (hlead : s.leader = .executing call) (hcurrent : Current p collective s before call image)
    (hbuffer : s.buffer.take image.length = image)
    (hworkers : ∀ i, Called p (before.map wireOf) (wireOf call) image (s.event i) (s.worker i))
    (hstep : s.leaderStep p collective = some t) : Delivering p collective size all t := by
  unfold TpGroup.leaderStep at hstep
  rw [hlead] at hstep
  dsimp only at hstep
  by_cases hwait : collective call.method = true ∧ ¬ s.Entered
  · rw [if_pos hwait] at hstep
    exact absurd hstep (by simp)
  · rw [if_neg hwait] at hstep
    obtain rfl := Option.some.inj hstep
    rcases hcurrent.follows with ⟨⟨hcollective, hmethod⟩, hscript⟩ | ⟨hexit, hscript⟩
    · have hentered : s.Entered := by
        by_contra hnot
        exact hwait ⟨hcollective, hnot⟩
      refine ⟨h.size_eq, h.history, .idle rfl hscript fun i => ?_⟩
      have hlen := hentered i
      rw [hcurrent.published, List.length_append, List.length_singleton] at hlen
      change Settled (s.published.map wireOf) (s.event i) (s.worker i)
      rw [hcurrent.published, List.map_append]
      refine (hworkers i).settled ?_ ?_
      · rw [List.length_map]
        omega
      · rwa [hcurrent.method]
    · exact ⟨h.size_eq, h.history,
        .finished rfl (hcurrent.transfer rfl rfl rfl) hexit hbuffer hworkers⟩

private theorem Delivering.leader (hexit : ∃ image, encodeCall p size exitCall = .ok image)
    (h : Delivering p collective size all s) (hstep : s.leaderStep p collective = some t) :
    Delivering p collective size all t := by
  cases h.stage with
  | idle hlead hscript hworkers => exact h.begin hexit hlead hscript hworkers hstep
  | writing hlead hcurrent hpos hbuffer hworkers =>
    exact h.write hlead hcurrent hpos hbuffer hworkers hstep
  | signalling hlead hcurrent hnext hbuffer hworkers =>
    exact h.signal hlead hcurrent hnext hbuffer hworkers hstep
  | executing hlead hcurrent hbuffer hworkers =>
    exact h.finish hlead hcurrent hbuffer hworkers hstep
  | finished hlead hcurrent hmethod hbuffer hworkers =>
    have hscript : s.script = [] := by
      rcases hcurrent.follows with ⟨⟨-, hnot⟩, -⟩ | ⟨-, hscript⟩
      · exact absurd hmethod hnot
      · exact hscript
    unfold TpGroup.leaderStep at hstep
    rw [hlead, hscript] at hstep
    exact absurd hstep (by simp)

private theorem TpGroup.setWorker_all {P : Fin n → Bool → TpWorker → Prop} {i : Fin n}
    (h : ∀ j, P j (s.event j) (s.worker j)) (hi : P i event w) :
    ∀ j, P j ((s.setWorker i event w).event j) ((s.setWorker i event w).worker j) := by
  intro j
  unfold TpGroup.setWorker
  dsimp only
  by_cases hji : j = i
  · rw [hji, Function.update_self, Function.update_self]
    exact hi
  · rw [Function.update_of_ne hji, Function.update_of_ne hji]
    exact h j

private theorem Delivering.worker (hp : p.Faithful) (h : Delivering p collective size all s) (i : Fin n)
    (hstep : (s.worker i).step p s.buffer (s.event i) = some (event, w)) :
    Delivering p collective size all (s.setWorker i event w) := by
  refine ⟨h.size_eq, h.history, ?_⟩
  cases h.stage with
  | idle hlead hscript hworkers =>
    exact .idle hlead hscript (TpGroup.setWorker_all (P := fun _ => Settled _) hworkers
      ((hworkers i).step hstep))
  | writing hlead hcurrent hpos hbuffer hworkers =>
    exact .writing hlead (hcurrent.transfer rfl rfl rfl) hpos hbuffer
      (TpGroup.setWorker_all (P := fun _ => Settled _) hworkers ((hworkers i).step hstep))
  | @signalling before call image next hlead hcurrent hnext hbuffer hworkers =>
    refine .signalling hlead (hcurrent.transfer rfl rfl rfl) hnext hbuffer
      (TpGroup.setWorker_all (P := fun j event w => if j.val < next
        then Called p (before.map wireOf) (wireOf call) image event w
        else Settled (before.map wireOf) event w) hworkers ?_)
    have hi := hworkers i
    by_cases hlt : i.val < next
    · rw [if_pos hlt] at hi
      rw [if_pos hlt]
      exact hi.step hp (hcurrent.published_eq hbuffer) hstep
    · rw [if_neg hlt] at hi
      rw [if_neg hlt]
      exact hi.step hstep
  | executing hlead hcurrent hbuffer hworkers =>
    exact .executing hlead (hcurrent.transfer rfl rfl rfl) hbuffer
      (TpGroup.setWorker_all (P := fun _ => Called p _ _ _) hworkers
        ((hworkers i).step hp (hcurrent.published_eq hbuffer) hstep))
  | finished hlead hcurrent hmethod hbuffer hworkers =>
    exact .finished hlead (hcurrent.transfer rfl rfl rfl) hmethod hbuffer
      (TpGroup.setWorker_all (P := fun _ => Called p _ _ _) hworkers
        ((hworkers i).step hp (hcurrent.published_eq hbuffer) hstep))

private theorem Delivering.step (hp : p.Faithful)
    (hexit : ∃ image, encodeCall p size exitCall = .ok image)
    (h : Delivering p collective size all s) (hstep : TpGroup.Step p collective s t) :
    Delivering p collective size all t := by
  cases hstep with
  | leader hlead => exact h.leader hexit hlead
  | worker i hworker => exact h.worker hp i hworker

def TpGroup.leaderWork (s : TpGroup n) : Nat :=
  s.script.length * (s.buffer.length + n + 4) +
    match s.leader with
    | .idle => 0
    | .writing _ image pos => image.length - pos + n + 3
    | .signalling _ next => n - next + 2
    | .executing _ => 1

/-- The steps the whole group still takes when `total` calls are accepted in all. -/
def TpGroup.work (total : Nat) (s : TpGroup n) : Nat :=
  s.leaderWork + ∑ i, (s.worker i).work s.buffer.length total

private theorem leaderWork_lt (hstep : s.leaderStep p collective = some t) :
    t.leaderWork < s.leaderWork ∧ t.worker = s.worker ∧ t.buffer.length = s.buffer.length := by
  unfold TpGroup.leaderStep at hstep
  cases hlead : s.leader with
  | idle =>
    rw [hlead] at hstep
    dsimp only at hstep
    cases hscript : s.script with
    | nil =>
      rw [hscript] at hstep
      exact absurd hstep (by simp)
    | cons call script =>
      rw [hscript] at hstep
      dsimp only at hstep
      unfold TpGroup.leaderWork
      rw [hscript, hlead, List.length_cons, Nat.succ_mul]
      cases hcode : encodeCall p s.buffer.length call with
      | error e =>
        rw [hcode] at hstep
        obtain rfl := Option.some.inj hstep
        refine ⟨?_, rfl, rfl⟩
        dsimp only
        omega
      | ok image =>
        rw [hcode] at hstep
        obtain rfl := Option.some.inj hstep
        obtain ⟨frame, -, hencoded, -⟩ := encodeCall_ok hcode
        have hfits := hencoded.fits
        refine ⟨?_, rfl, rfl⟩
        dsimp only
        omega
  | writing call image pos =>
    rw [hlead] at hstep
    dsimp only at hstep
    unfold TpGroup.leaderWork
    rw [hlead]
    cases hbyte : image[pos]? with
    | some byte =>
      rw [hbyte] at hstep
      obtain rfl := Option.some.inj hstep
      have hlt : pos < image.length := (List.getElem?_eq_some_iff.mp hbyte).1
      refine ⟨?_, rfl, List.length_set⟩
      dsimp only
      rw [List.length_set]
      omega
    | none =>
      rw [hbyte] at hstep
      obtain rfl := Option.some.inj hstep
      refine ⟨?_, rfl, rfl⟩
      dsimp only
      omega
  | signalling call next =>
    rw [hlead] at hstep
    dsimp only at hstep
    unfold TpGroup.leaderWork
    rw [hlead]
    by_cases hlt : next < n
    · rw [dif_pos hlt] at hstep
      obtain rfl := Option.some.inj hstep
      refine ⟨?_, rfl, rfl⟩
      dsimp only
      omega
    · rw [dif_neg hlt] at hstep
      obtain rfl := Option.some.inj hstep
      refine ⟨?_, rfl, rfl⟩
      dsimp only
      omega
  | executing call =>
    rw [hlead] at hstep
    dsimp only at hstep
    by_cases hwait : collective call.method = true ∧ ¬ s.Entered
    · rw [if_pos hwait] at hstep
      exact absurd hstep (by simp)
    · rw [if_neg hwait] at hstep
      obtain rfl := Option.some.inj hstep
      refine ⟨?_, rfl, rfl⟩
      unfold TpGroup.leaderWork
      rw [hlead]
      exact Nat.lt_succ_self _

private theorem Delivering.published_prefix (h : Delivering p collective size all s) :
    s.published <+: accepted p size all := ⟨_, h.history⟩

private theorem Delivering.before_lt (h : Delivering p collective size all s)
    (hcurrent : Current p collective s before call image) :
    (before.map wireOf).length < (accepted p size all).length := by
  have hle := h.published_prefix.length_le
  rw [hcurrent.published, List.length_append, List.length_singleton] at hle
  rw [List.length_map]
  omega

private theorem Delivering.worker_work_lt (h : Delivering p collective size all s) {i : Fin n}
    (hstep : (s.worker i).step p s.buffer (s.event i) = some (event, w)) :
    w.work s.buffer.length (accepted p size all).length <
      (s.worker i).work s.buffer.length (accepted p size all).length := by
  cases h.stage with
  | idle hlead hscript hworkers => exact (hworkers i).work_lt hstep
  | writing hlead hcurrent hpos hbuffer hworkers => exact (hworkers i).work_lt hstep
  | @signalling before call image next hlead hcurrent hnext hbuffer hworkers =>
    have hi := hworkers i
    by_cases hlt : i.val < next
    · rw [if_pos hlt] at hi
      exact hi.work_lt (hcurrent.published_eq hbuffer) rfl (h.before_lt hcurrent) hstep
    · rw [if_neg hlt] at hi
      exact hi.work_lt hstep
  | executing hlead hcurrent hbuffer hworkers =>
    exact (hworkers i).work_lt (hcurrent.published_eq hbuffer) rfl (h.before_lt hcurrent) hstep
  | finished hlead hcurrent hmethod hbuffer hworkers =>
    exact (hworkers i).work_lt (hcurrent.published_eq hbuffer) rfl (h.before_lt hcurrent) hstep

private theorem Delivering.work_lt (h : Delivering p collective size all s)
    (hstep : TpGroup.Step p collective s t) :
    t.work (accepted p size all).length < s.work (accepted p size all).length := by
  cases hstep with
  | leader hlead =>
    obtain ⟨hlt, hworker, hlen⟩ := leaderWork_lt hlead
    unfold TpGroup.work
    rw [hworker, hlen]
    omega
  | @worker i event w hworker =>
    have hlt := h.worker_work_lt hworker
    have hsum : ∑ j, ((s.setWorker i event w).worker j).work s.buffer.length
          (accepted p size all).length <
        ∑ j, (s.worker j).work s.buffer.length (accepted p size all).length := by
      refine Finset.sum_lt_sum (fun j _ => ?_) ⟨i, Finset.mem_univ i, ?_⟩
      · unfold TpGroup.setWorker
        dsimp only
        by_cases hji : j = i
        · rw [hji, Function.update_self]
          exact hlt.le
        · rw [Function.update_of_ne hji]
      · unfold TpGroup.setWorker
        dsimp only
        rw [Function.update_self]
        exact hlt
    exact Nat.add_lt_add_left hsum _

/-! ### Delivery -/

/-- What has been delivered of the calls `all`. -/
structure Delivered (p : Pickle) (size : Nat) (all : List CallFrame) (s : TpGroup n) : Prop where
  published : s.published <+: accepted p size all
  in_order : ∀ i, ∃ calls, calls <+: s.published ∧ List.Forall₂ Receives calls (s.worker i).executed
  lag : ∀ i, s.published.length ≤ (s.worker i).executed.length + 1
  intact : ∀ i e, (s.worker i).phase ≠ .raised e

private theorem accepted_receives {calls : List CallFrame} (h : calls <+: accepted p size all) :
    List.Forall₂ Receives calls (calls.map wireOf) :=
  List.forall₂_map_right_iff.mpr (List.forall₂_same.mpr fun _ hcall =>
    receives_wireOf (mem_accepted.mp (h.subset hcall)).2)

private theorem Settled.delivered (h : Settled (s.published.map wireOf) event w) :
    w.executed <+: s.published.map wireOf ∧ s.published.length ≤ w.executed.length + 1 := by
  rw [h.executed_eq, List.length_map]
  exact ⟨List.prefix_refl _, Nat.le_succ _⟩

private theorem Current.settled_delivered (h : Current p collective s before call image)
    (hw : Settled (before.map wireOf) event w) :
    w.executed <+: s.published.map wireOf ∧ s.published.length ≤ w.executed.length + 1 := by
  rw [hw.executed_eq, h.published, List.map_append, List.length_append, List.length_map]
  exact ⟨List.prefix_append _ _, le_refl _⟩

private theorem Current.called_delivered (h : Current p collective s before call image)
    (hw : Called p (before.map wireOf) (wireOf call) image event w) :
    w.executed <+: s.published.map wireOf ∧ s.published.length ≤ w.executed.length + 1 := by
  rw [h.published, List.map_append, List.length_append]
  rcases hw.executed_eq with hexecuted | hexecuted
  · rw [hexecuted, List.length_map]
    exact ⟨List.prefix_append _ _, le_refl _⟩
  · rw [hexecuted, List.length_append, List.length_map]
    exact ⟨List.prefix_refl _, Nat.le_succ _⟩

private theorem Delivering.delivered (h : Delivering p collective size all s) :
    Delivered p size all s := by
  suffices hworker : ∀ i, ((s.worker i).executed <+: s.published.map wireOf ∧
      s.published.length ≤ (s.worker i).executed.length + 1) ∧
        ∀ e, (s.worker i).phase ≠ .raised e from
    ⟨h.published_prefix, fun i => ?_, fun i => (hworker i).1.2, fun i => (hworker i).2⟩
  · obtain ⟨⟨hfront, -⟩, -⟩ := hworker i
    obtain ⟨entered, hentered⟩ : ∃ entered, entered = (s.worker i).executed.length := ⟨_, rfl⟩
    have hcut := List.take_prefix entered s.published
    have hexecuted : (s.worker i).executed = (s.published.take entered).map wireOf := by
      rw [List.map_take, hentered]
      exact List.prefix_iff_eq_take.mp hfront
    refine ⟨_, hcut, ?_⟩
    rw [hexecuted]
    exact accepted_receives (hcut.trans h.published_prefix)
  intro i
  cases h.stage with
  | idle hlead hscript hworkers => exact ⟨(hworkers i).delivered, (hworkers i).not_raised⟩
  | writing hlead hcurrent hpos hbuffer hworkers =>
    exact ⟨hcurrent.settled_delivered (hworkers i), (hworkers i).not_raised⟩
  | @signalling before call image next hlead hcurrent hnext hbuffer hworkers =>
    have hi := hworkers i
    by_cases hlt : i.val < next
    · rw [if_pos hlt] at hi
      exact ⟨hcurrent.called_delivered hi, hi.not_raised⟩
    · rw [if_neg hlt] at hi
      exact ⟨hcurrent.settled_delivered hi, hi.not_raised⟩
  | executing hlead hcurrent hbuffer hworkers =>
    exact ⟨hcurrent.called_delivered (hworkers i), (hworkers i).not_raised⟩
  | finished hlead hcurrent hmethod hbuffer hworkers =>
    exact ⟨hcurrent.called_delivered (hworkers i), (hworkers i).not_raised⟩

/-- Nothing can move any more: the workers have entered every accepted call and stopped. -/
private theorem Delivering.quiescent (h : Delivering p collective size all s)
    (hquiet : ∀ t, ¬ TpGroup.Step p collective s t) :
    s.script = [] ∧ s.published = accepted p size all ∧ ∀ i, (s.worker i).phase = .stopped ∧
      (s.worker i).executed = (accepted p size all).map wireOf := by
  have hblocked : ∀ i, (s.worker i).step p s.buffer (s.event i) = none := by
    intro i
    cases hstep : (s.worker i).step p s.buffer (s.event i) with
    | none => rfl
    | some next => exact absurd (.worker i hstep) (hquiet _)
  have hleader : s.leaderStep p collective = none := by
    cases hstep : s.leaderStep p collective with
    | none => rfl
    | some t => exact absurd (.leader hstep) (hquiet t)
  unfold TpGroup.leaderStep at hleader
  cases h.stage with
  | idle hlead hscript hworkers =>
    obtain ⟨calls, hscript, -⟩ := hscript
    rw [hlead] at hleader
    dsimp only at hleader
    cases hcalls : s.script with
    | nil =>
      rw [hcalls] at hscript
      exact absurd hscript.symm (by simp)
    | cons call script =>
      rw [hcalls] at hleader
      dsimp only at hleader
      split at hleader <;> exact absurd hleader (by simp)
  | writing hlead hcurrent hpos hbuffer hworkers =>
    rw [hlead] at hleader
    dsimp only at hleader
    split at hleader <;> exact absurd hleader (by simp)
  | signalling hlead hcurrent hnext hbuffer hworkers =>
    rw [hlead] at hleader
    dsimp only at hleader
    split at hleader <;> exact absurd hleader (by simp)
  | executing hlead hcurrent hbuffer hworkers =>
    have hentered : s.Entered := by
      intro i
      rw [((hworkers i).blocked (hblocked i)).1, hcurrent.published]
      simp
    rw [hlead] at hleader
    dsimp only at hleader
    rw [if_neg fun hwait => hwait.2 hentered] at hleader
    exact absurd hleader (by simp)
  | finished hlead hcurrent hmethod hbuffer hworkers =>
    have hscript : s.script = [] := by
      rcases hcurrent.follows with ⟨⟨-, hnot⟩, -⟩ | ⟨-, hscript⟩
      · exact absurd hmethod hnot
      · exact hscript
    have hall : s.published = accepted p size all := by
      have hhistory := h.history
      rw [hscript] at hhistory
      exact (List.append_nil _).symm.trans hhistory
    refine ⟨hscript, hall, fun i => ?_⟩
    obtain ⟨hexecuted, hstopped⟩ := (hworkers i).blocked (hblocked i)
    refine ⟨hstopped (hcurrent.method.trans hmethod), ?_⟩
    rw [hexecuted, ← hall, hcurrent.published, List.map_append]
    rfl

private theorem Delivering.init (buffer : Bytes) {calls : List CallFrame}
    (hcalls : ∀ call ∈ calls, collective call.method = true ∧ call.method ≠ "exit") :
    Delivering p collective buffer.length (calls ++ [exitCall])
      (TpGroup.init n buffer (calls ++ [exitCall])) :=
  ⟨rfl, rfl, .idle rfl ⟨calls, rfl, hcalls⟩ fun _ => .waiting⟩

/-- For any number of workers and any interleaving, the calls of rank zero that are not refused,
each of a method with collectives, reach every worker exactly once, in order and untorn; every run
is finite, and where it ends each worker has entered all of them and has stopped after `exit`.
Refused are the calls that cannot be compacted or do not fit; a refused call leaves the buffer, the
events and the workers alone. -/
theorem mailbox_exactly_once (hp : p.Faithful) (collective : String → Bool) (buffer : Bytes)
    {calls : List CallFrame}
    (hcalls : ∀ call ∈ calls, collective call.method = true ∧ call.method ≠ "exit")
    (hexit : PayloadFits p buffer.length exitCall) {k : Nat}
    (hrun : Steps (TpGroup.Step p collective) k (TpGroup.init n buffer (calls ++ [exitCall])) s) :
    Delivered p buffer.length (calls ++ [exitCall]) s ∧
    (∀ m t, Steps (TpGroup.Step p collective) m s t →
      m ≤ s.work (accepted p buffer.length (calls ++ [exitCall])).length) ∧
    ((∀ t, ¬ TpGroup.Step p collective s t) →
      s.script = [] ∧ s.published = accepted p buffer.length (calls ++ [exitCall]) ∧
      ∀ i, (s.worker i).phase = .stopped ∧ List.Forall₂ Receives
        (accepted p buffer.length (calls ++ [exitCall])) (s.worker i).executed) ∧
    (∀ call, call ∈ accepted p buffer.length (calls ++ [exitCall]) ↔
      call ∈ calls ++ [exitCall] ∧ Publishable p buffer.length call) ∧
    (∀ call script, s.leader = .idle → s.script = call :: script →
      ¬ Publishable p buffer.length call → ∃ e,
        s.leaderStep p collective = some { s with script := script, raised := s.raised ++ [e] }) := by
  have himage : ∃ image, encodeCall p buffer.length exitCall = .ok image :=
    encodeCall_ok_iff.mpr ⟨exitCall, workerFrame_ok_iff.mp rfl, hexit⟩
  have hinv := hrun.invariant (fun _ _ h hstep => h.step hp himage hstep)
    (Delivering.init (p := p) (n := n) buffer hcalls)
  refine ⟨hinv.delivered, ?_, ?_, fun _ => mem_accepted, ?_⟩
  · intro m t hmore
    have hbound := hmore.bounded (fun _ _ h hstep => h.step hp himage hstep)
      (fun _ _ h hstep => h.work_lt hstep) hinv
    omega
  · intro hquiet
    obtain ⟨hscript, hall, hworkers⟩ := hinv.quiescent hquiet
    refine ⟨hscript, hall, fun i => ⟨(hworkers i).1, ?_⟩⟩
    rw [(hworkers i).2]
    exact accepted_receives List.prefix_rfl
  · intro call script hlead hscript hrefused
    rw [← encodeCall_ok_iff] at hrefused
    unfold TpGroup.leaderStep
    rw [hlead, hscript]
    dsimp only
    rw [hinv.size_eq]
    cases hcode : encodeCall p buffer.length call with
    | error e => exact ⟨e, rfl⟩
    | ok image => exact absurd ⟨image, hcode⟩ hrefused

end Group

instance charEncodable : Encodable Char := .ofLeftInverse Char.toNat Char.ofNat Char.ofNat_toNat

instance stringEncodable : Encodable String :=
  .ofLeftInverse String.toList String.ofList fun _ => String.ofList_toList

deriving instance Encodable for SequenceStatus, Sequence, ScheduledSequence
deriving instance Encodable for RunnerRow
deriving instance Encodable for RunnerArg, CallFrame

def chunkOfThree (count : Nat) : Sequence :=
  { status := .running
    tokenIds := [3, 4, 5]
    numPromptTokens := 2
    numCachedTokens := 3 - count
    numDraftCachedTokens := 0
    numScheduledTokens := count
    isPrefill := decide (1 < count)
    blockTable := [0, 1]
    maxTokens := 4
    ignoreEos := true }

def twoRowCall : CallFrame :=
  ⟨"run", [.rows [.sequence (chunkOfThree 1), .sequence (chunkOfThree 3)], .flag true]⟩

def twoRowFrame : CallFrame :=
  ⟨"run", [.rows [.scheduled ⟨[5], false, 2, 1, 3, 5, [0, 1]⟩,
    .scheduled ⟨[3, 4, 5], true, 0, 3, 3, 5, [0, 1]⟩], .flag true]⟩

def emptyChunkCall : CallFrame := ⟨"run", [.rows [.sequence (chunkOfThree 0)], .flag false]⟩

def noRowCall : CallFrame := ⟨"run", [.rows [], .flag false]⟩

/-- A pickle of one byte for `exit` and for `twoRowFrame`, and of more than a hundred for any other
frame. -/
def Pickle.sample : Pickle where
  dumps frame :=
    if frame = exitCall then [1]
    else if frame = twoRowFrame then [2]
    else List.replicate (101 + Encodable.encode frame) 0
  loads bytes :=
    if bytes = [1] then some (.call exitCall)
    else if bytes = [2] then some (.call twoRowFrame)
    else (Encodable.decode (bytes.length - 101)).map Payload.call

private theorem Pickle.sample_faithful : Pickle.sample.Faithful := by
  intro frame
  have hzeros : ∀ {b : UInt8}, List.replicate (101 + Encodable.encode frame) 0 ≠ [b] := by
    intro b heq
    have hlen := congrArg List.length heq
    rw [List.length_replicate, List.length_singleton] at hlen
    omega
  unfold Pickle.sample
  dsimp only
  by_cases hexit : frame = exitCall
  · rw [if_pos hexit, if_pos rfl, hexit]
  · rw [if_neg hexit]
    by_cases htwo : frame = twoRowFrame
    · rw [if_pos htwo, if_neg (by decide), if_pos rfl, htwo]
    · rw [if_neg htwo, if_neg hzeros, if_neg hzeros, List.length_replicate, Nat.add_sub_cancel_left,
        Encodable.encodek]
      rfl

private theorem Pickle.sample_long (hexit : frame ≠ exitCall) (htwo : frame ≠ twoRowFrame) :
    100 < (Pickle.sample.dumps frame).length := by
  unfold Pickle.sample
  dsimp only
  rw [if_neg hexit, if_neg htwo, List.length_replicate]
  exact Nat.lt_of_lt_of_le (by decide) (Nat.le_add_right 101 _)

private theorem Pickle.sample_accepted :
    accepted Pickle.sample 64 [twoRowCall, emptyChunkCall, noRowCall, exitCall] =
      [twoRowCall, exitCall] := by
  have htwo : (encodeCall Pickle.sample 64 twoRowCall).isOk = true := rfl
  have hempty : ¬ (encodeCall Pickle.sample 64 emptyChunkCall).isOk = true := by decide
  have hexit : (encodeCall Pickle.sample 64 exitCall).isOk = true := rfl
  have hwide : ¬ (encodeCall Pickle.sample 64 noRowCall).isOk = true := by
    cases hcode : encodeCall Pickle.sample 64 noRowCall with
    | error e => exact Bool.false_ne_true
    | ok image =>
      obtain ⟨frame, hframe, -, hfits⟩ := encodeCall_ok hcode
      have hlong : 100 < (Pickle.sample.dumps frame).length := by
        obtain rfl : noRowCall = frame := Except.ok.inj hframe
        exact Pickle.sample_long (by decide) (by decide)
      have hcapacity := hfits.capacity
      unfold tpShmHeaderSize at hcapacity
      omega
  unfold accepted
  rw [List.filter_cons, if_pos htwo, List.filter_cons, if_neg hempty, List.filter_cons,
    if_neg hwide, List.filter_cons, if_pos hexit, List.filter_nil]

/-- Two workers, and a `run` between two refused ones: every maximal interleaving ends with the two
calls that were published. -/
theorem mailbox_exactly_once_sample : ∃ k s,
    Steps (TpGroup.Step Pickle.sample (· == "run")) k (TpGroup.init 2 (List.replicate 64 0)
      [twoRowCall, emptyChunkCall, noRowCall, exitCall]) s ∧
    s.published = [twoRowCall, exitCall] ∧ s.script = [] ∧
    ∀ i, (s.worker i).phase = .stopped ∧ (s.worker i).executed = [twoRowFrame, exitCall] := by
  have hcalls : ∀ call ∈ [twoRowCall, emptyChunkCall, noRowCall],
      (call.method == "run") = true ∧ call.method ≠ "exit" := by decide
  have hfits : PayloadFits Pickle.sample (List.replicate 64 (0 : UInt8)).length exitCall :=
    ⟨by decide, by decide, by decide⟩
  have hall : ∀ {k s}, Steps (TpGroup.Step Pickle.sample (· == "run")) k (TpGroup.init 2
      (List.replicate 64 0) ([twoRowCall, emptyChunkCall, noRowCall] ++ [exitCall])) s → _ :=
    fun hrun => mailbox_exactly_once Pickle.sample_faithful (· == "run") _ hcalls hfits hrun
  obtain ⟨k, s, hrun, hquiet⟩ := Steps.exists_blocked (hall (.refl _)).2.1
  obtain ⟨hscript, hpublished, hworkers⟩ := (hall hrun).2.2.1 hquiet
  rw [List.length_replicate] at hpublished hworkers
  refine ⟨k, s, hrun, hpublished.trans Pickle.sample_accepted, hscript, fun i => ?_⟩
  obtain ⟨hstopped, hexecuted⟩ := hworkers i
  refine ⟨hstopped, ?_⟩
  have hframes : List.Forall₂ Receives [twoRowCall, exitCall] (s.worker i).executed :=
    Pickle.sample_accepted ▸ hexecuted
  obtain ⟨frame, rest, hfirst, hrest, hlist⟩ := List.forall₂_cons_left_iff.mp hframes
  obtain ⟨last, rest, hlast, hrest, hlist'⟩ := List.forall₂_cons_left_iff.mp hrest
  obtain rfl := List.forall₂_nil_left_iff.mp hrest
  have hframe : .ok twoRowFrame = (.ok frame : Except Raised CallFrame) :=
    workerFrame_ok_iff.mpr hfirst
  have hexit : .ok exitCall = (.ok last : Except Raised CallFrame) := workerFrame_ok_iff.mpr hlast
  rw [hlist, hlist', Except.ok.inj hframe, Except.ok.inj hexit]

end NanoVllm
