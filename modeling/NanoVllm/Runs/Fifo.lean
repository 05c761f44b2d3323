/- module: NanoVllm/Runs/Fifo
   layer: main result
   source: nanovllm/engine/scheduler.py, add, schedule, preempt and cancel
   digest: Every call moves the waiting queue by the moves of a fair queue. -/

import NanoVllm.Runs.Turns

set_option autoImplicit false
set_option relaxedAutoImplicit false

namespace NanoVllm

open Library

variable {cfg : Config} {held held' : List Nat} {s t u : State} {x : Nat}

/-- The scheduler as a queue of tickets: the rows in hand and the running rows are in service. -/
def State.queueView (s : State) (held : List Nat) : QueueView Nat where
  history := s.history
  waiting := s.waiting
  active := held ++ s.running
  mid := s.midChunkSeq

private theorem State.queueView_eq (s : State) (held : List Nat) {history : List (QueueEvent Nat)}
    {waiting active : List Nat} {mid : Option Nat} (hhist : s.history = history)
    (hwait : s.waiting = waiting) (hact : held ++ s.running = active)
    (hmid : s.midChunkSeq = mid) : s.queueView held = ⟨history, waiting, active, mid⟩ := by
  subst hhist hwait hact hmid
  rfl

def admittedOf : QueueEvent Nat → Option Nat
  | .admitted x => some x
  | _ => none

def scheduledOf : QueueEvent Nat → Option Nat
  | .scheduled x => some x
  | _ => none

/-- The queue is fair, and tickets are numbered in the order of admission. -/
structure Fifo (held : List Nat) (s : State) : Prop where
  fair : Fair (s.queueView held)
  ordered : (s.history.filterMap admittedOf).Pairwise (· < ·)
  bounded : ∀ x ∈ s.history.filterMap admittedOf, x < s.nextSeqId

private theorem mem_admissions {events : List (QueueEvent Nat)} :
    x ∈ events.filterMap admittedOf ↔ .admitted x ∈ events := by
  rw [List.mem_filterMap]
  constructor
  · rintro ⟨e, he, hx⟩
    cases e <;> simp only [admittedOf, Option.some.injEq, reduceCtorEq] at hx
    rwa [← hx]
  · exact fun h => ⟨_, h, rfl⟩

private theorem Fifo.init (cfg : Config) : Fifo [] (State.init cfg) where
  fair := Fair.init
  ordered := List.Pairwise.nil
  bounded := by simp [State.init]

private theorem Fifo.move (h : Fifo held s) (hm : QueueMove (s.queueView held) (t.queueView held'))
    (hadm : t.history.filterMap admittedOf = s.history.filterMap admittedOf)
    (hnext : t.nextSeqId = s.nextSeqId) : Fifo held' t where
  fair := h.fair.move hm
  ordered := by rw [hadm]; exact h.ordered
  bounded := by rw [hadm, hnext]; exact h.bounded

private theorem Fifo.of_control (h : Fifo held s) (ht : t.control = s.control) : Fifo held t := by
  have hhist : t.history = s.history := congrArg Control.history ht
  have hview : t.queueView held = s.queueView held :=
    t.queueView_eq held hhist (congrArg Control.waiting ht)
      (congrArg (held ++ ·) (congrArg Control.running ht)) (congrArg Control.midChunkSeq ht)
  have hnext : t.nextSeqId = s.nextSeqId := congrArg Control.nextSeqId ht
  exact ⟨by rw [hview]; exact h.fair, by rw [hhist]; exact h.ordered,
    by rw [hhist, hnext]; exact h.bounded⟩

private theorem Fifo.fewerRunning (h : Fifo [] s) (hq : FewerRunning s t) : Fifo [] t := by
  refine h.move ?_ (by rw [hq.history]) hq.nextSeqId
  rw [t.queueView_eq [] hq.history hq.waiting rfl hq.mid]
  exact .retire (List.Subperm.append (List.Subperm.refl []) hq.running.subperm)

private theorem State.evict_history (s : State) (x : Nat) :
    (s.evict x).history = s.history ++ [.preempted x s.waiting] :=
  congrArg Control.history (s.evict_control x)

private theorem State.evict_nextSeqId (s : State) (x : Nat) : (s.evict x).nextSeqId = s.nextSeqId :=
  congrArg Control.nextSeqId (s.evict_control x)

private theorem Fifo.evictHead {rest : List Nat} (h : Fifo held s) (hwait : s.waiting = x :: rest)
    (hmid : s.midChunkSeq = some x) : Fifo held ((s.withWaiting rest).evict x) := by
  have hevict : ((s.withWaiting rest).evict x).midChunkSeq = none :=
    State.evict_mid (Or.inr hmid)
  refine h.move ?_ ?_ (State.evict_nextSeqId _ x)
  · rw [s.queueView_eq held rfl hwait rfl hmid,
      State.queueView_eq _ held (State.evict_history _ x) (State.evict_waiting _ x)
        (congrArg (held ++ ·) (State.evict_running _ x)) hevict]
    exact .preemptMid
  · rw [State.evict_history, List.filterMap_append]
    exact List.append_nil _

private theorem Fifo.evictActive {r : List Nat} (h : Fifo held s) (hmid : s.midChunkSeq = none)
    (hact : (held ++ s.running).Perm (x :: (held' ++ r))) :
    Fifo held' ((s.withRunning r).evict x) := by
  have hevict : ((s.withRunning r).evict x).midChunkSeq = none :=
    State.evict_mid (Or.inl hmid)
  refine h.move ?_ ?_ (State.evict_nextSeqId _ x)
  · rw [s.queueView_eq held rfl rfl rfl hmid,
      State.queueView_eq _ held' (State.evict_history _ x) (State.evict_waiting _ x)
        (congrArg (held' ++ ·) (State.evict_running _ x)) hevict]
    exact .preempt hact
  · rw [State.evict_history, List.filterMap_append]
    exact List.append_nil _

private theorem Fifo.again (h : Fifo held s) (hx : x ∈ held ++ s.running) :
    Fifo held (s.record (.scheduled x)) := by
  refine h.move ?_ ?_ rfl
  · exact .again hx
  · change (s.history ++ _).filterMap admittedOf = _
    rw [List.filterMap_append]
    exact List.append_nil _

private theorem DecodeMove.fifo {c c' : Cursor} (hm : DecodeMove cfg c c') (h : Fifo c.rows c.st) :
    Fifo c'.rows c'.st := by
  cases hm with
  | @take done rest x s hrun hcap =>
    refine h.move ?_ rfl rfl
    rw [State.queueView_eq (s.withRunning rest) (Cursor.rows ⟨done, some x, s.withRunning rest⟩)
      rfl rfl rfl rfl]
    refine .retire (List.Perm.subperm ?_)
    simp [Cursor.rows, hrun]
  | @evictMid done rest x w s hfull hmid hwait => exact h.evictHead hwait hmid
  | @evictLast done rest x v s hfull hmid hrun =>
    refine h.evictActive hmid ?_
    change ((done ++ [x]) ++ s.running).Perm (v :: ((done ++ [x]) ++ rest))
    rw [hrun, ← List.append_assoc]
    exact List.perm_append_singleton v _
  | @evictSelf done x s hfull hmid hrun =>
    have hmove : Fifo done ((s.withRunning s.running).evict x) := by
      refine h.evictActive hmid ?_
      change ((done ++ [x]) ++ s.running).Perm (x :: (done ++ s.running))
      rw [hrun, List.append_nil, List.append_nil]
      exact List.perm_append_singleton x done
    rw [show s.withRunning s.running = s from rfl] at hmove
    simpa [Cursor.rows] using hmove
  | @grant done x s hroom =>
    have hheld : Cursor.rows ⟨done ++ [x], none, (s.grant cfg x).record (.scheduled x)⟩ =
        Cursor.rows ⟨done, some x, s⟩ := by
      simp [Cursor.rows]
    rw [hheld]
    have hgrant := h.of_control (s.grant_control cfg x)
    exact hgrant.again (by simp [Cursor.rows])

private theorem DecodeWalk.fifo {c c' : Cursor} (hw : DecodeWalk cfg c c') (h : Fifo c.rows c.st) :
    Fifo c'.rows c'.st := by
  induction hw with
  | refl => exact h
  | tail _ hm ih => exact hm.fifo ih

private theorem Fifo.join {rest : List Nat} (h : Fifo [] s) (hwait : s.waiting = x :: rest)
    (hmid : s.midChunkSeq = none ∨ s.midChunkSeq = some x) (ht : t.control = s.control) :
    Fifo [] ((t.joinRunning x).record (.scheduled x)) := by
  have hctl := t.joinRunning_control x
  rw [ht] at hctl
  refine h.move ?_ ?_ (congrArg Control.nextSeqId hctl)
  · have hhist : ((t.joinRunning x).record (.scheduled x)).history =
        s.history ++ [.scheduled x] := congrArg (· ++ _) (congrArg Control.history hctl)
    have hwaiting : ((t.joinRunning x).record (.scheduled x)).waiting = rest :=
      (congrArg Control.waiting hctl).trans (by
        change t.waiting.tail = rest
        rw [show t.waiting = s.waiting from congrArg Control.waiting ht, hwait]
        rfl)
    have hrunning : ([] : List Nat) ++ ((t.joinRunning x).record (.scheduled x)).running =
        s.running ++ [x] := (congrArg Control.running hctl).trans
      (congrArg (· ++ [x]) (show t.running = s.running from congrArg Control.running ht))
    have hnone : ((t.joinRunning x).record (.scheduled x)).midChunkSeq = none :=
      (congrArg Control.midChunkSeq hctl).trans (by
        change (if t.midChunkSeq = some x then none else t.midChunkSeq) = none
        rw [show t.midChunkSeq = s.midChunkSeq from congrArg Control.midChunkSeq ht]
        rcases hmid with hmid | hmid <;> simp [hmid])
    rw [s.queueView_eq [] rfl hwait (List.nil_append _) rfl,
      State.queueView_eq _ [] hhist hwaiting hrunning hnone]
    exact .join (List.perm_append_singleton x s.running)
  · change ((t.joinRunning x).history ++ _).filterMap admittedOf = _
    rw [show (t.joinRunning x).history = s.history from congrArg Control.history hctl,
      List.filterMap_append]
    exact List.append_nil _

private theorem Fifo.chunk {rest : List Nat} (h : Fifo [] s) (hwait : s.waiting = x :: rest) :
    Fifo [] ((s.withMid (some x)).record (.scheduled x)) := by
  refine h.move ?_ ?_ rfl
  · have hwait' : ((s.withMid (some x)).record (.scheduled x)).waiting = x :: rest := hwait
    rw [s.queueView_eq [] rfl hwait rfl rfl, State.queueView_eq _ [] rfl hwait' rfl rfl]
    exact .chunk
  · change (s.history ++ _).filterMap admittedOf = _
    rw [List.filterMap_append]
    exact List.append_nil _

private theorem Fills.fifo {acc acc' : List Nat} {batched : Nat} (hf : Fills cfg acc batched s acc' u)
    (hr : s.Ready cfg) (h : Fifo [] s) : Fifo [] u := by
  induction hf with
  | stop _ => exact h
  | refuse _ _ _ _ _ => exact h
  | full hwait _ hbudget hallot hfull _ ih =>
    have ha := hr.allotted hwait (by omega) hallot
    exact ih ((hr.joined hwait ha hfull).record _)
      (h.join hwait (hr.2.mid_of_head hwait) ha.control)
  | @chunk acc rest batched x m s t hwait _ hbudget hallot hpart =>
    have ha := hr.allotted hwait (by omega) hallot
    have hwait' : t.waiting = x :: rest := (congrArg Control.waiting ha.control).trans hwait
    exact (h.of_control ha.control).chunk hwait'
  | @sendBackStop acc rest batched x m s hwait _ _ htab _ _ _ =>
    have hmid : s.midChunkSeq = some x := hr.2.mid_owner x (by rw [hwait]; simp) htab
    have hset := h.of_control (s.setScheduled_control x 0)
    exact hset.evictHead hwait hmid
  | @sendBack rest acc' batched x m s u hwait _ htab _ _ _ ih =>
    have hmid : s.midChunkSeq = some x := hr.2.mid_owner x (by rw [hwait]; simp) htab
    have hset := h.of_control (s.setScheduled_control x 0)
    exact ih (hr.sendBack hwait htab).1 (hset.evictHead hwait hmid)

private theorem Schedules.fifo {done batch : List Nat} (hs : Schedules cfg s done t batch u)
    (hr : s.Ready cfg) (h : Fifo [] s) : Fifo [] u := by
  have hwalk : Fifo (done ++ []) t := DecodeWalk.fifo hs.walk h
  rw [List.append_nil] at hwalk
  have hgood := DecodeWalk.good hs.walk hr.good
  have hrejoin : Fifo [] (t.withRunning (done ++ t.running)) := by
    refine hwalk.move ?_ rfl rfl
    exact .retire (List.Subperm.refl _)
  exact hs.fills.fifo (Cursor.Good.rejoin hgood) hrejoin

private theorem Fifo.schedule (h : Fifo [] s) (hp : Protocol cfg s) :
    Call.Leaves (schedule cfg) s (Fifo []) := by
  unfold Call.Leaves
  rcases hp.schedule_start with ⟨e, hres⟩ | hready
  · rw [hres]
    exact h
  · obtain ⟨done, v, batch, w, hs, -, hok, herr⟩ := schedule_trace hready
    have hw := hs.fifo hready h
    by_cases hbatch : batch = []
    · obtain ⟨message, hres⟩ := herr hbatch
      rw [hres]
      exact hw
    · rw [hok hbatch]
      exact hw

private theorem Fifo.created (h : Fifo [] s) (tokenIds : List Nat) (maxTokens : Nat)
    (ignoreEos : Bool) :
    Fifo [] (s.created tokenIds maxTokens ignoreEos) where
  fair := h.fair
  ordered := h.ordered
  bounded := fun x hx => Nat.lt_succ_of_lt (h.bounded x hx)

private theorem Fifo.enqueue (h : Fifo [] s) (tokenIds : List Nat) (maxTokens : Nat)
    (ignoreEos : Bool) :
    Fifo [] (s.enqueue tokenIds maxTokens ignoreEos) := by
  have hadm : (s.enqueue tokenIds maxTokens ignoreEos).history.filterMap admittedOf =
      s.history.filterMap admittedOf ++ [s.nextSeqId] := by
    change (s.history ++ _).filterMap admittedOf = _
    rw [List.filterMap_append]
    rfl
  refine ⟨h.fair.move (.enter ?_), ?_, ?_⟩
  · exact fun a ha => h.bounded a (mem_admissions.mpr ha)
  · rw [hadm, List.pairwise_append]
    refine ⟨h.ordered, List.pairwise_singleton _ _, ?_⟩
    intro a ha b hb
    rw [List.mem_singleton.mp hb]
    exact h.bounded a ha
  · intro a ha
    rw [hadm] at ha
    change a < s.nextSeqId + 1
    rcases List.mem_append.mp ha with ha | ha
    · exact Nat.lt_succ_of_lt (h.bounded a ha)
    · rw [List.mem_singleton.mp ha]
      exact Nat.lt_succ_self _

private theorem Fifo.add (h : Fifo [] s) (tokenIds : List Nat) (maxTokens : Nat) (ignoreEos : Bool) :
    Call.Leaves (add cfg tokenIds maxTokens ignoreEos) s (Fifo []) := by
  unfold Call.Leaves
  rcases add_cases cfg s tokenIds maxTokens ignoreEos with
    ⟨-, e, hres⟩ | ⟨-, -, e, hres⟩ | ⟨-, -, hres⟩
  · rw [hres]
    exact h
  · rw [hres]
    exact h.created tokenIds maxTokens ignoreEos
  · rw [hres]
    exact h.enqueue tokenIds maxTokens ignoreEos

private theorem Fifo.forget (h : Fifo [] s) (hx : x ∈ s.running ++ s.waiting) :
    Fifo [] (s.forget x) := by
  have hctl := s.forget_control x
  refine h.move ?_ ?_ (congrArg Control.nextSeqId hctl)
  · rw [State.queueView_eq (s.forget x) [] (congrArg Control.history hctl)
      (congrArg Control.waiting hctl) (congrArg Control.running hctl)
      (congrArg Control.midChunkSeq hctl)]
    exact .cancel hx
  · rw [show (s.forget x).history = s.history ++ [.cancelled x] from congrArg Control.history hctl,
      List.filterMap_append]
    exact List.append_nil _

private theorem Fifo.forgetAll {xs : List Nat} : ∀ {s : State}, Fifo [] s → xs.Nodup →
    (∀ x ∈ xs, x ∈ s.running ++ s.waiting) → Fifo [] (s.forgetAll xs) := by
  induction xs with
  | nil => exact fun h _ _ => h
  | cons x xs ih =>
    intro s h hnd hmem
    obtain ⟨hx, hnd'⟩ := List.nodup_cons.mp hnd
    have hctl := s.forget_control x
    apply ih (h.forget (hmem x (by simp))) hnd'
    intro y hy
    have hyx : y ≠ x := fun heq => hx (heq ▸ hy)
    rw [show (s.forget x).running = s.running.erase x from congrArg Control.running hctl,
      show (s.forget x).waiting = s.waiting.erase x from congrArg Control.waiting hctl,
      List.mem_append, List.mem_erase_of_ne hyx, List.mem_erase_of_ne hyx, ← List.mem_append]
    exact hmem y (by simp [hy])

private theorem Fifo.drop (h : Fifo [] s) (hcore : Core cfg [] s) (targets : List Nat) :
    Fifo [] (s.drop targets) := by
  have hlive := hcore.own.live_nodup
  rw [List.nil_append, List.nodup_append] at hlive
  have hwait : Fifo [] (s.forgetAll (s.waiting.filter (· ∈ targets))) :=
    h.forgetAll (hlive.2.1.filter _)
      fun x hx => List.mem_append_right _ (List.mem_filter.mp hx).1
  refine hwait.forgetAll (hlive.1.filter _) fun x hx => List.mem_append_left _ ?_
  rw [State.forgetAll_running]
  · exact (List.mem_filter.mp hx).1
  · exact fun y hy hyr => hlive.2.2 y hyr y (List.mem_filter.mp hy).1 rfl

private theorem Fifo.op (h : Fifo [] s) (hp : Protocol cfg s) (op : Op) : Fifo [] (op.apply cfg s) := by
  cases op with
  | add tokenIds maxTokens ignoreEos => exact h.add tokenIds maxTokens ignoreEos
  | schedule => exact h.schedule hp
  | postprocess batch tokenIds => exact h.fewerRunning (hp.leaves_postprocess batch tokenIds).2
  | plan workspace batch admission baseline =>
    exact h.fewerRunning (hp.leaves_plan workspace batch admission baseline).2.fewerRunning
  | prepare plan => exact h.fewerRunning (hp.leaves_prepare plan).2.fewerRunning
  | commit plan result => exact h.fewerRunning (hp.leaves_commit plan result).2
  | abort => exact h.fewerRunning hp.leaves_abort.1.2.fewerRunning
  | handoff plan => exact h.fewerRunning (hp.leaves_handoff plan).2.fewerRunning
  | stage plan batch coverage =>
    exact h.fewerRunning (hp.leaves_stage plan batch coverage).2.fewerRunning
  | cancel targets =>
    change Fifo [] (Call.after (NanoVllm.cancel cfg targets s))
    rcases hp.cancel_cases targets with hres | ⟨e, v, hres, -, hsame⟩ | ⟨v, hv, hsame, -, hres⟩
    · rw [hres]
      exact h
    · rw [hres]
      exact h.fewerRunning hsame.fewerRunning
    · rw [hres]
      exact (h.fewerRunning hsame.fewerRunning).drop hv.core targets

private theorem Fifo.turn (h : Fifo [] s) (hp : Protocol cfg s) (turn : Turn) :
    Fifo [] (turn.apply cfg s) := by
  cases turn with
  | call op => exact h.op hp op
  | arrive request =>
    change Fifo [] (Call.after (admitRequest cfg request s))
    rcases admitRequest_cases cfg request s with ⟨e, hres⟩ | ⟨promptIds, -, -, -, hres⟩
    · rw [hres]
      exact h
    · rw [hres]
      exact h.add promptIds request.maxTokens request.ignoreEos
  | step answers =>
    change Fifo [] (Call.after (stepUnlocked cfg answers s))
    have hsched := h.schedule hp
    have hproto := Protocol.leaves_schedule hp
    unfold Call.Leaves at hsched hproto
    rw [stepUnlocked_after]
    cases hres : NanoVllm.schedule cfg s with
    | error e v =>
      rw [hres] at hsched
      exact hsched
    | ok outcome v =>
      rw [hres] at hsched hproto
      exact hsched.fewerRunning (serves_executeStep answers outcome.1 outcome.2 v hproto).2

private theorem Fifo.runTurns (cfg : Config) (turns : List Turn) : Fifo [] (runTurns cfg turns) := by
  induction turns using List.reverseRecOn with
  | nil => exact Fifo.init cfg
  | append_singleton turns turn ih =>
    rw [runTurns_concat]
    exact ih.turn (Protocol.runTurns cfg turns) turn

/-- The waiting queue behind an event of a call: a served row leaves it, a preempted one joins its
end. -/
def queueStep (waiting : List Nat) : QueueEvent Nat → List Nat
  | .admitted x => waiting ++ [x]
  | .scheduled x => waiting.erase x
  | .preempted x _ => waiting.erase x ++ [x]
  | .cancelled x => waiting.erase x

def FindsQueue : List Nat → List (QueueEvent Nat) → Prop
  | _, [] => True
  | waiting, e :: events =>
    (∀ x ahead, e = .preempted x ahead → ahead = waiting.erase x) ∧
      FindsQueue (queueStep waiting e) events

private theorem findsQueue_append {waiting : List Nat} {events events' : List (QueueEvent Nat)} :
    FindsQueue waiting (events ++ events') ↔
      FindsQueue waiting events ∧ FindsQueue (events.foldl queueStep waiting) events' := by
  induction events generalizing waiting with
  | nil => exact (true_and _).symm.to_iff
  | cons e events ih => exact (and_congr_right fun _ => ih).trans and_assoc.symm

/-- From `s` to `t` the rows `rows` were scheduled, in this order, and each preemption found the
waiting queue of its moment. -/
def Logged (s t : State) (rows : List Nat) : Prop :=
  ∃ events, t.history = s.history ++ events ∧ events.filterMap scheduledOf = rows ∧
    FindsQueue s.waiting events

def LoggedThrough (s t : State) (rows : List Nat) : Prop :=
  ∃ events, t.history = s.history ++ events ∧ events.filterMap scheduledOf = rows ∧
    FindsQueue s.waiting events ∧ events.foldl queueStep s.waiting = t.waiting

private theorem Logged.quiet (h : t.history = s.history) : Logged s t [] :=
  ⟨[], by rw [h, List.append_nil], rfl, trivial⟩

private theorem LoggedThrough.quiet (h : t.history = s.history) (hwait : t.waiting = s.waiting) :
    LoggedThrough s t [] :=
  ⟨[], by rw [h, List.append_nil], rfl, trivial, hwait.symm⟩

private theorem LoggedThrough.then_logged {rows rows' : List Nat} (h : LoggedThrough s t rows)
    (h' : Logged t u rows') : Logged s u (rows ++ rows') := by
  obtain ⟨events, ht, hrows, hfinds, hwait⟩ := h
  obtain ⟨events', hu, hrows', hfinds'⟩ := h'
  exact ⟨events ++ events', by rw [hu, ht, List.append_assoc],
    by rw [List.filterMap_append, hrows, hrows'],
    findsQueue_append.mpr ⟨hfinds, hwait.symm ▸ hfinds'⟩⟩

private theorem LoggedThrough.trans {rows rows' : List Nat} (h : LoggedThrough s t rows)
    (h' : LoggedThrough t u rows') : LoggedThrough s u (rows ++ rows') := by
  obtain ⟨events, ht, hrows, hfinds, hwait⟩ := h
  obtain ⟨events', hu, hrows', hfinds', hwait'⟩ := h'
  exact ⟨events ++ events', by rw [hu, ht, List.append_assoc],
    by rw [List.filterMap_append, hrows, hrows'],
    findsQueue_append.mpr ⟨hfinds, hwait.symm ▸ hfinds'⟩,
    by rw [List.foldl_append, hwait, hwait']⟩

private theorem LoggedThrough.record (h : t.history = s.history)
    (hwait : t.waiting = s.waiting.erase x) :
    LoggedThrough s (t.record (.scheduled x)) [x] :=
  ⟨[.scheduled x], by rw [← h]; rfl, rfl, ⟨fun _ _ heq => (nomatch heq), trivial⟩, hwait.symm⟩

private theorem LoggedThrough.evict (h : t.history = s.history)
    (hwait : t.waiting = s.waiting.erase x) :
    LoggedThrough s (t.evict x) [] :=
  ⟨[.preempted x t.waiting], (State.evict_history t x).trans (by rw [h]), rfl,
    ⟨fun y ahead heq => by
      obtain ⟨rfl, rfl⟩ := QueueEvent.preempted.inj heq
      exact hwait, trivial⟩,
    by rw [State.evict_waiting, hwait]; rfl⟩

private theorem Cursor.Good.erase_waiting {c : Cursor} (h : c.Good cfg)
    (hx : x ∈ c.rows ++ c.st.running) :
    c.st.waiting.erase x = c.st.waiting := by
  obtain ⟨-, -, hdisj⟩ := List.nodup_append.mp h.2.own.live_nodup
  exact List.erase_of_not_mem fun hwait => hdisj x hx x hwait rfl

private theorem DecodeMove.logged {c c' : Cursor} (hm : DecodeMove cfg c c') (hgood : c.Good cfg) :
    ∃ rows, c'.done = c.done ++ rows ∧ LoggedThrough c.st c'.st rows := by
  cases hm with
  | take hrun hcap => exact ⟨[], (List.append_nil _).symm, .quiet rfl rfl⟩
  | @evictMid done rest x w s hfull hmid hwait =>
    have hlog : LoggedThrough s ((s.withWaiting rest).evict w) [] :=
      .evict rfl (by rw [hwait, List.erase_cons_head]; rfl)
    exact ⟨[], (List.append_nil _).symm, hlog⟩
  | @evictLast done rest x v s hfull hmid hrun =>
    have hself := hgood.erase_waiting (x := v) (List.mem_append_right _ (by simp [hrun]))
    have hlog : LoggedThrough s ((s.withRunning rest).evict v) [] := .evict rfl hself.symm
    exact ⟨[], (List.append_nil _).symm, hlog⟩
  | @evictSelf done x s hfull hmid hrun =>
    have hself := hgood.erase_waiting (x := x) (by simp [Cursor.rows])
    exact ⟨[], (List.append_nil _).symm, .evict rfl hself.symm⟩
  | @grant done x s hroom =>
    have hself := hgood.erase_waiting (x := x) (by simp [Cursor.rows])
    have hcontrol := s.grant_control cfg x
    exact ⟨[x], rfl, .record (congrArg Control.history hcontrol)
      ((congrArg Control.waiting hcontrol).trans hself.symm)⟩

private theorem DecodeWalk.logged {c c' : Cursor} (hw : DecodeWalk cfg c c') (hgood : c.Good cfg) :
    ∃ rows, c'.done = c.done ++ rows ∧ LoggedThrough c.st c'.st rows := by
  induction hw with
  | refl => exact ⟨[], (List.append_nil _).symm, .quiet rfl rfl⟩
  | tail hwalk hm ih =>
    obtain ⟨rows, hdone, hlog⟩ := ih
    obtain ⟨rows', hdone', hlog'⟩ := hm.logged (DecodeWalk.good hwalk hgood)
    exact ⟨rows ++ rows', by rw [hdone', hdone, List.append_assoc], hlog.trans hlog'⟩

private theorem Fills.logged {acc acc' : List Nat} {batched : Nat} (hf : Fills cfg acc batched s acc' u)
    (hr : s.Ready cfg) : ∃ rows, acc' = acc ++ rows ∧ Logged s u rows := by
  induction hf with
  | stop _ => exact ⟨[], (List.append_nil _).symm, .quiet rfl⟩
  | refuse _ _ _ _ _ => exact ⟨[], (List.append_nil _).symm, .quiet rfl⟩
  | @full acc rest acc' batched x m s t u hwait _ hbudget hallot hfull _ ih =>
    have ha := hr.allotted hwait (by omega) hallot
    obtain ⟨rows, hacc, hlog⟩ := ih ((hr.joined hwait ha hfull).record _)
    have hjoin := t.joinRunning_control x
    have hhist : (t.joinRunning x).history = s.history :=
      (congrArg Control.history hjoin).trans (congrArg Control.history ha.control)
    have hrest : (t.joinRunning x).waiting = s.waiting.erase x := by
      rw [show (t.joinRunning x).waiting = t.waiting.tail from congrArg Control.waiting hjoin,
        show t.waiting = s.waiting from congrArg Control.waiting ha.control, hwait,
        List.erase_cons_head, List.tail_cons]
    exact ⟨x :: rows, by rw [hacc, List.append_assoc]; rfl,
      (LoggedThrough.record hhist hrest).then_logged hlog⟩
  | @chunk acc rest batched x m s t hwait _ hbudget hallot hpart =>
    have ha := hr.allotted hwait (by omega) hallot
    have hhist : (t.withMid (some x)).history = s.history :=
      congrArg Control.history ha.control
    exact ⟨[x], rfl, [.scheduled x], by rw [← hhist]; rfl, rfl,
      ⟨fun _ _ heq => (nomatch heq), trivial⟩⟩
  | @sendBackStop acc rest batched x m s hwait _ _ htab _ _ _ =>
    have hlog : LoggedThrough s (s.sendBack x rest) [] :=
      .evict rfl (by rw [hwait, List.erase_cons_head]; rfl)
    exact ⟨[], (List.append_nil _).symm, hlog.then_logged (.quiet rfl)⟩
  | @sendBack rest acc' batched x m s u hwait _ htab _ _ _ ih =>
    obtain ⟨rows, hacc, hlog⟩ := ih (hr.sendBack hwait htab).1
    have hback : LoggedThrough s (s.sendBack x rest) [] :=
      .evict rfl (by rw [hwait, List.erase_cons_head]; rfl)
    exact ⟨rows, hacc, hback.then_logged hlog⟩

private theorem Schedules.logged {done batch : List Nat} (hs : Schedules cfg s done t batch u)
    (hr : s.Ready cfg) : Logged s u batch := by
  obtain ⟨rows, hdone, hlog⟩ := DecodeWalk.logged hs.walk hr.good
  obtain ⟨rows', hbatch, hlog'⟩ := hs.fills.logged
    (Cursor.Good.rejoin (DecodeWalk.good hs.walk hr.good))
  have hdone' : done = rows := hdone
  have hrejoin : LoggedThrough t (t.withRunning (done ++ t.running)) [] := .quiet rfl rfl
  have hall := (hlog.trans hrejoin).then_logged hlog'
  rwa [List.append_nil, ← hdone', ← hbatch] at hall

/-- The history grows by what a call returns. -/
structure Recorded (cfg : Config) (s : State) : Prop where
  admitted : ∀ tokenIds maxTokens ignoreEos x t,
    add cfg tokenIds maxTokens ignoreEos s = .ok x t → t.history = s.history ++ [.admitted x]
  scheduled : ∀ batch isPrefill t, schedule cfg s = .ok (batch, isPrefill) t → Logged s t batch
  unscheduled : ∀ e t, schedule cfg s = .error e t → Logged s t []
  cancelled : ∀ targets xs t, cancel cfg targets s = .ok xs t →
    t.history = s.history ++ xs.map .cancelled

private theorem State.forgetAll_history (s : State) (xs : List Nat) :
    (s.forgetAll xs).history = s.history ++ xs.map .cancelled := by
  induction xs generalizing s with
  | nil => exact (List.append_nil _).symm
  | cons x xs ih =>
    change ((s.forget x).forgetAll xs).history = _
    rw [ih, show (s.forget x).history = s.history ++ [.cancelled x] from
      congrArg Control.history (s.forget_control x), List.append_assoc]
    rfl

private theorem State.drop_history (s : State) (targets : List Nat) :
    (s.drop targets).history = s.history ++
      (s.waiting.filter (· ∈ targets) ++ s.running.filter (· ∈ targets)).map .cancelled := by
  rw [State.drop, State.forgetAll_history, State.forgetAll_history, List.append_assoc,
    List.map_append]

private theorem Protocol.recorded (h : Protocol cfg s) : Recorded cfg s where
  admitted := by
    intro tokenIds maxTokens ignoreEos x t hres
    rcases add_cases cfg s tokenIds maxTokens ignoreEos with
      ⟨-, e, hadd⟩ | ⟨-, -, e, hadd⟩ | ⟨-, -, hadd⟩
    · rw [hadd] at hres
      exact absurd hres (by simp)
    · rw [hadd] at hres
      exact absurd hres (by simp)
    · rw [hadd] at hres
      obtain ⟨hx, ht⟩ := EStateM.Result.ok.inj hres
      rw [← ht, ← hx]
      rfl
  scheduled := by
    intro batch isPrefill t hres
    rcases h.schedule_start with ⟨e, hsched⟩ | hready
    · rw [hsched] at hres
      exact absurd hres (by simp)
    · obtain ⟨done, v, rows, w, hs, -, hok, herr⟩ := schedule_trace hready
      by_cases hrows : rows = []
      · obtain ⟨message, hsched⟩ := herr hrows
        rw [hsched] at hres
        exact absurd hres (by simp)
      · rw [hok hrows] at hres
        obtain ⟨hout, ht⟩ := EStateM.Result.ok.inj hres
        rw [← (Prod.mk.inj hout).1, ← ht]
        exact hs.logged hready
  unscheduled := by
    intro e t hres
    rcases h.schedule_start with ⟨e', hsched⟩ | hready
    · rw [hsched] at hres
      obtain ⟨-, ht⟩ := EStateM.Result.error.inj hres
      rw [← ht]
      exact .quiet rfl
    · obtain ⟨done, v, rows, w, hs, -, hok, herr⟩ := schedule_trace hready
      by_cases hrows : rows = []
      · obtain ⟨message, hsched⟩ := herr hrows
        rw [hsched] at hres
        obtain ⟨-, ht⟩ := EStateM.Result.error.inj hres
        rw [← ht, ← hrows]
        exact hs.logged hready
      · rw [hok hrows] at hres
        exact absurd hres (by simp)
  cancelled := by
    intro targets xs t hres
    rcases h.cancel_cases targets with hcancel | ⟨e, u, hcancel, -, -⟩ | ⟨u, -, hsame, -, hcancel⟩
    · rw [hcancel] at hres
      obtain ⟨hxs, ht⟩ := EStateM.Result.ok.inj hres
      rw [← hxs, ← ht]
      exact (List.append_nil _).symm
    · rw [hcancel] at hres
      exact absurd hres (by simp)
    · rw [hcancel] at hres
      obtain ⟨hxs, ht⟩ := EStateM.Result.ok.inj hres
      rw [← hxs, ← ht, State.drop_history, hsame.history, hsame.waiting, hsame.running,
        State.queued]

/-- In every run a request is first scheduled only once each request admitted before it has
been scheduled or cancelled, and a preempted request is scheduled again only once everyone
it found waiting has; the history that says so grows by what the calls return, and a preemption in
it lists the waiting queue of its moment. -/
theorem first_come_first_served (cfg : Config) (turns : List Turn) :
    (∀ a b, [.admitted a, .admitted b].Sublist (runTurns cfg turns).history →
      ∀ pre post, (runTurns cfg turns).history = pre ++ .scheduled b :: post → Served a pre) ∧
    (∀ pre p ahead mid post, (runTurns cfg turns).history =
        pre ++ .preempted p ahead :: (mid ++ .scheduled p :: post) →
      ∀ a ∈ ahead, Served a mid) ∧
    Recorded cfg (runTurns cfg turns) := by
  have h := Fifo.runTurns cfg turns
  refine ⟨?_, h.fair.no_overtaking, (Protocol.runTurns cfg turns).recorded⟩
  intro a b hsub pre post hsplit
  have hlt : a < b := by
    have hpair : [a, b].Sublist ((runTurns cfg turns).history.filterMap admittedOf) :=
      hsub.filterMap admittedOf
    exact (List.pairwise_cons.mp (h.ordered.sublist hpair)).1 b (by simp)
  exact h.fair.first_come pre b post hsplit a hlt (hsub.subset (by simp))

end NanoVllm
