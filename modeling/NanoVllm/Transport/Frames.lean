/- module: NanoVllm/Transport/Frames
   layer: refinement
   source: nanovllm/engine/tp_transport.py; write_shm of nanovllm/engine/model_runner.py
   digest: What a worker gets of a call, and which calls are refused. -/

import NanoVllm.Engine.TpTransport
import NanoVllm.Library.Call

set_option autoImplicit false
set_option relaxedAutoImplicit false

namespace NanoVllm

open Library

variable {p : Pickle} {size : Nat} {call frame : CallFrame} {image : Bytes}

private theorem ofLittleEndian_littleEndian {k : Nat} (h : k < 2 ^ 32) :
    ofLittleEndian (littleEndian k) = k := by
  simp only [littleEndian, List.map_cons, List.map_nil, ofLittleEndian, UInt8.toNat_ofNat']
  omega

/-- `view` is the compact row of `seq`, whose chunk is not empty and lies within its tokens. -/
structure CarriesRow (seq : Sequence) (view : ScheduledSequence) : Prop where
  scheduled : 0 < seq.numScheduledTokens
  within : seq.numCachedTokens + seq.numScheduledTokens ≤ seq.numTokens
  length : view.scheduledTokenIds.length = seq.numScheduledTokens
  tokens : ∀ j < seq.numScheduledTokens,
    view.scheduledTokenIds[j]? = seq.tokenIds[seq.numCachedTokens + j]?
  isPrefill : view.isPrefill = seq.isPrefill
  numCachedTokens : view.numCachedTokens = seq.numCachedTokens
  numScheduledTokens : view.numScheduledTokens = seq.numScheduledTokens
  numTokens : view.numTokens = seq.numTokens
  lastToken : view.lastToken = seq.lastToken
  blockTable : view.blockTable = seq.blockTable

/-- `frame` is what workers get of `call`: its compact rows for a `run`, else its arguments. -/
structure Receives (call frame : CallFrame) : Prop where
  method : frame.method = call.method
  args : call.method ≠ "run" → frame.args = call.args
  rows : call.method = "run" → ∃ seqs views isPrefill,
    call.args = [.rows (seqs.map RunnerRow.sequence), isPrefill] ∧
      frame.args = [.rows (views.map RunnerRow.scheduled), isPrefill] ∧
      List.Forall₂ CarriesRow seqs views

/-- The pickled `frame` fits a buffer of `size` bytes behind its header. -/
structure PayloadFits (p : Pickle) (size : Nat) (frame : CallFrame) : Prop where
  nonempty : 0 < (p.dumps frame).length
  capacity : tpShmHeaderSize + (p.dumps frame).length ≤ size
  header : (p.dumps frame).length < 2 ^ 32

/-- The arguments can be compacted and the payload fits. -/
def Publishable (p : Pickle) (size : Nat) (call : CallFrame) : Prop :=
  ∃ frame, Receives call frame ∧ PayloadFits p size frame

private theorem fromSequence_ok_iff {seq : Sequence} {view : ScheduledSequence} :
    ScheduledSequence.fromSequence seq = .ok view ↔ CarriesRow seq view := by
  have htotal : seq.tokenIds.length = seq.numTokens := rfl
  constructor
  · intro h
    obtain ⟨hbounds, h⟩ := Call.except_guard h
    obtain ⟨hlen, h⟩ := Call.except_guard h
    obtain rfl := Except.ok.inj h
    rw [not_or, not_lt] at hbounds
    refine ⟨Nat.pos_of_ne_zero hbounds.1, hbounds.2, not_not.mp hlen, fun j hj => ?_,
      rfl, rfl, rfl, rfl, rfl, rfl⟩
    dsimp only
    rw [List.getElem?_take_of_lt hj, List.getElem?_drop]
  · intro h
    obtain ⟨hpos, hwithin, hlen, htokens, h1, h2, h3, h4, h5, h6⟩ := h
    have hslice : ((seq.tokenIds.drop seq.numCachedTokens).take seq.numScheduledTokens).length =
        seq.numScheduledTokens := by
      rw [List.length_take, List.length_drop]
      omega
    have hids : (seq.tokenIds.drop seq.numCachedTokens).take seq.numScheduledTokens =
        view.scheduledTokenIds := by
      refine List.ext_getElem? fun j => ?_
      by_cases hj : j < seq.numScheduledTokens
      · rw [List.getElem?_take_of_lt hj, List.getElem?_drop, htokens j hj]
      · rw [List.getElem?_eq_none (by omega), List.getElem?_eq_none (by omega)]
    refine Call.except_guard_of_not (by omega) (Call.except_guard_of_not (by omega) ?_)
    cases view
    dsimp only at hids h1 h2 h3 h4 h5 h6
    rw [hids, h1, h2, h3, h4, h5, h6]
    rfl

private theorem fromRow_ok_iff {row : RunnerRow} {view : ScheduledSequence} :
    ScheduledSequence.fromRow row = .ok view ↔
      ∃ seq, row = .sequence seq ∧ CarriesRow seq view := by
  cases row with
  | sequence seq =>
    refine fromSequence_ok_iff.trans ⟨fun h => ⟨seq, rfl, h⟩, ?_⟩
    rintro ⟨_, hseq, h⟩
    exact RunnerRow.sequence.inj hseq ▸ h
  | scheduled compact =>
    refine ⟨fun h => ?_, fun ⟨_, hseq, _⟩ => nomatch hseq⟩
    unfold ScheduledSequence.fromRow at h
    dsimp only at h
    split at h <;> exact nomatch h

private theorem mapM_fromRow_ok_iff {rows : List RunnerRow} {views : List ScheduledSequence} :
    rows.mapM ScheduledSequence.fromRow = .ok views ↔
      ∃ seqs, rows = seqs.map RunnerRow.sequence ∧ List.Forall₂ CarriesRow seqs views := by
  constructor
  · intro h
    have hall := Call.except_mapM_ok h
    clear h
    induction hall with
    | nil => exact ⟨[], rfl, .nil⟩
    | cons hfirst _ ih =>
      obtain ⟨seq, rfl, hseq⟩ := fromRow_ok_iff.mp hfirst
      obtain ⟨seqs, rfl, hseqs⟩ := ih
      exact ⟨seq :: seqs, rfl, .cons hseq hseqs⟩
  · rintro ⟨seqs, rfl, h⟩
    refine Call.except_mapM_of_forall₂ (List.forall₂_map_left_iff.mpr ?_)
    exact h.imp fun _ _ hcarries => fromRow_ok_iff.mpr ⟨_, rfl, hcarries⟩

theorem workerFrame_ok_iff : workerFrame call = .ok frame ↔ Receives call frame := by
  obtain ⟨method, args⟩ := call
  obtain ⟨method', args'⟩ := frame
  by_cases hrun : method = "run"
  · subst hrun
    have hcompact : workerFrame ⟨"run", args⟩ = .ok ⟨method', args'⟩ ↔
        method' = "run" ∧ compactRunArgs args = .ok args' := by
      unfold workerFrame
      rw [if_pos rfl]
      constructor
      · intro h
        obtain ⟨compact, hargs, h⟩ := Call.except_bind_ok h
        obtain ⟨hmethod, rfl⟩ := CallFrame.mk.inj (Except.ok.inj h)
        exact ⟨hmethod.symm, hargs⟩
      · rintro ⟨rfl, hargs⟩
        exact Call.except_bind_of_ok hargs
    rw [hcompact]
    constructor
    · rintro ⟨hmethod, hargs⟩
      refine ⟨hmethod, fun hne => absurd rfl hne, fun _ => ?_⟩
      unfold compactRunArgs at hargs
      split at hargs
      · rename_i rows isPrefill _
        obtain ⟨views, hviews, hpure⟩ := Call.except_bind_ok hargs
        obtain ⟨seqs, rfl, hall⟩ := mapM_fromRow_ok_iff.mp hviews
        exact ⟨seqs, views, isPrefill, rfl, (Except.ok.inj hpure).symm, hall⟩
      · exact nomatch hargs
      · exact nomatch hargs
    · rintro ⟨hmethod, -, hrows⟩
      obtain ⟨seqs, views, isPrefill, hargs, hargs', hall⟩ := hrows rfl
      dsimp only at hargs hargs'
      refine ⟨hmethod, ?_⟩
      rw [hargs, hargs']
      exact Call.except_bind_of_ok (mapM_fromRow_ok_iff.mpr ⟨seqs, rfl, hall⟩)
  · have hplain : workerFrame ⟨method, args⟩ = .ok ⟨method, args⟩ := by
      unfold workerFrame
      rw [if_neg hrun]
      rfl
    rw [hplain, Except.ok.injEq, CallFrame.mk.injEq]
    exact ⟨fun h => ⟨h.1.symm, fun _ => h.2.symm, fun heq => absurd heq hrun⟩,
      fun h => ⟨h.method.symm, (h.args hrun).symm⟩⟩

/-- `image` is the header and the pickled `frame`, and fits a buffer of `size` bytes. -/
structure Encoded (p : Pickle) (size : Nat) (frame : CallFrame) (image : Bytes) : Prop where
  header : unpackHeader (image.take tpShmHeaderSize) = (tpShmMagic, (p.dumps frame).length)
  payload : image.drop tpShmHeaderSize = p.dumps frame
  length : image.length = tpShmHeaderSize + (p.dumps frame).length
  nonempty : 0 < (p.dumps frame).length
  fits : image.length ≤ size

theorem encodeCall_ok (h : encodeCall p size call = .ok image) :
    ∃ frame, workerFrame call = .ok frame ∧ Encoded p size frame image ∧
      PayloadFits p size frame := by
  unfold encodeCall at h
  obtain ⟨frame, hframe, h⟩ := Call.except_bind_ok h
  obtain ⟨hfit, h⟩ := Call.except_guard h
  obtain ⟨header, hheader, h⟩ := Call.except_bind_ok h
  rw [not_or, not_lt] at hfit
  have himage : header ++ p.dumps frame = image := Except.ok.inj h
  unfold packHeader at hheader
  split at hheader
  · rename_i hsmall
    have hhead : tpShmMagic ++ littleEndian (p.dumps frame).length = header :=
      Except.ok.inj hheader
    have hlen : header.length = tpShmHeaderSize := by
      rw [← hhead]
      rfl
    refine ⟨frame, hframe, ⟨?_, ?_, ?_, by omega, ?_⟩, ⟨by omega, by omega, hsmall⟩⟩
    · rw [← himage, List.take_left' hlen, ← hhead]
      refine Prod.ext rfl ?_
      exact ofLittleEndian_littleEndian hsmall
    · rw [← himage, List.drop_left' hlen]
    · rw [← himage, List.length_append, hlen]
    · rw [← himage, List.length_append, hlen]
      unfold tpShmHeaderSize at *
      omega
  · exact absurd hheader (by simp)

theorem encodeCall_ok_iff :
    (∃ image, encodeCall p size call = .ok image) ↔ Publishable p size call := by
  constructor
  · rintro ⟨image, himage⟩
    obtain ⟨frame, hframe, -, hfits⟩ := encodeCall_ok himage
    exact ⟨frame, workerFrame_ok_iff.mp hframe, hfits⟩
  · rintro ⟨frame, hreceives, hfits⟩
    obtain ⟨hpos, hcapacity, hsmall⟩ := hfits
    refine ⟨tpShmMagic ++ littleEndian (p.dumps frame).length ++ p.dumps frame, ?_⟩
    refine (Call.except_bind_of_ok (workerFrame_ok_iff.mpr hreceives)).trans ?_
    refine Call.except_guard_of_not (by omega) (Call.except_bind_of_ok ?_)
    exact if_pos hsmall

end NanoVllm
