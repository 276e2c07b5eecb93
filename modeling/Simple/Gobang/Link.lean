import Simple.Shm.Channel

/-! The sending side of the link between a service and its gate. A message goes straight
into the channel while nothing waits, and through the send queue and the writer coroutine
otherwise. -/

namespace Simple.Gobang

open Simple.Lib Simple.Shm

/-- Where the writer coroutine stands. `selecting` and `ready` are inside the
`shm_channel::write` of the message it has read off the front of the queue. -/
inductive Writer
  | absent
  | posted
  | waiting
  | woken
  | selecting (m : Message)
  | ready (m : Message)

structure Link where
  channel : Option Channel := none
  sendQueue : List Message := []
  writer : Writer := .absent
  written : List Message := []

namespace Link

variable (size : ℕ)

def put (c : Channel) (m : Message) : Channel × Bool :=
  let (shm, ok) := c.tryWrite size m
  ({ c with shm := shm, sent := if ok then c.sent ++ [m] else c.sent }, ok)

/-- `cv_send_queue.notify_all()`; nobody but the writer waits there. -/
def notifyAll (s : Link) : Link :=
  match s.writer with
  | .waiting => { s with writer := .woken }
  | _ => s

def enqueue (s : Link) (m : Message) : Link :=
  notifyAll { s with sendQueue := s.sendQueue ++ [m] }

/-- The loop of `channel_write` and `auto_write` from its head until it suspends. -/
def writerLoop (s : Link) : Channel → List Message → Link
  | c, [] => { s with channel := some c, sendQueue := [], writer := .waiting }
  | c, m :: queue =>
    match put size c m with
    | (c, true) => writerLoop s c queue
    | (c, false) => { s with channel := some c, sendQueue := m :: queue, writer := .selecting m }

def resume (s : Link) : Option Link :=
  match s.channel, s.writer with
  | some c, .posted => some (writerLoop size s c s.sendQueue)
  | some c, .woken => some (writerLoop size s c s.sendQueue)
  | some c, .ready m =>
    match put size c m with
    | (c, true) => some (writerLoop size s c s.sendQueue.tail)
    | (c, false) => some { s with channel := some c, writer := .selecting m }
  | _, _ => none

def poll (s : Link) : Option Link :=
  match s.channel, s.writer with
  | some c, .selecting m =>
    if 4 + m.bytes.length ≤ ((ShmBuffer.writable size).run ShmData.access c.shm).2 then
      some { s with writer := .ready m }
    else some s
  | _, _ => none

def peerRead (s : Link) (capacity : Option ℕ) : Option Link := do
  let c ← s.channel
  let c ← Channel.step size c (.tryRead capacity)
  some { s with channel := some c }

inductive Action
  | write (m : Message)
  | create (shm : ShmData)
  | resume
  | poll
  | peerRead (capacity : Option ℕ)

end Link

namespace GateConnector

open Link

variable (size : ℕ)

def write (s : Link) (m : Message) : Link :=
  let s := { s with written := s.written ++ [m] }
  match s.channel, s.sendQueue with
  | some c, [] =>
    match put size c m with
    | (c, true) => { s with channel := some c }
    | (c, false) => enqueue { s with channel := some c } m
  | _, _ => enqueue s m

/-- The part of `register_to_gate` that makes the channel, on a ring as it finds it. -/
def createChannel (s : Link) (shm : ShmData) : Link :=
  match s.channel with
  | none => { s with channel := some { shm := shm }, writer := .posted }
  | some _ => s

def link : Machine Link Link.Action where
  initial := {}
  step s
    | .write m => some (write size s m)
    | .create shm => some (createChannel s shm)
    | .resume => s.resume size
    | .poll => s.poll size
    | .peerRead capacity => s.peerRead size capacity

end GateConnector

namespace LocalService

open Link

variable (size : ℕ)

/-- A `local_service` has its channel from the start. -/
def write (s : Link) (m : Message) : Option Link :=
  let s := { s with written := s.written ++ [m] }
  match s.sendQueue, s.channel with
  | [], some c =>
    match put size c m with
    | (c, true) => some { s with channel := some c }
    | (c, false) => some (enqueue { s with channel := some c } m)
  | [], none => none
  | _ :: _, _ => some (enqueue s m)

def link (shm : ShmData) : Machine Link Link.Action where
  initial := { channel := some { shm := shm }, writer := .posted }
  step s
    | .write m => write size s m
    | .create _ => none
    | .resume => s.resume size
    | .poll => s.poll size
    | .peerRead capacity => s.peerRead size capacity

end LocalService

namespace Link

def entered (s : Link) : List Message := (s.channel.map Channel.sent).getD []

/-- The channel and the queue together hold what was written, in order. While the writer
awaits a message, that message is the front of the queue; while it waits for the queue,
the queue is empty. -/
structure Fifo (s : Link) : Prop where
  order : s.entered ++ s.sendQueue = s.written
  awaited : ∀ m, s.writer = .selecting m ∨ s.writer = .ready m → ∃ rest, s.sendQueue = m :: rest
  waiting : s.writer = .waiting → s.sendQueue = []
  started : s.writer = .absent ↔ s.channel = none

variable {size : ℕ} {s : Link}

lemma put_true {c d : Channel} {m : Message} (h : put size c m = (d, true)) :
    d.sent = c.sent ++ [m] := by
  simp only [put, Prod.mk.injEq] at h
  rw [← h.1, h.2, if_pos rfl]

lemma put_false {c d : Channel} {m : Message} (h : put size c m = (d, false)) :
    d.sent = c.sent := by
  simp only [put, Prod.mk.injEq] at h
  rw [← h.1, h.2, if_neg (by simp)]

lemma writerLoop_fifo {c : Channel} {queue : List Message} (h : c.sent ++ queue = s.written) :
    Fifo (writerLoop size s c queue) := by
  induction queue generalizing c with
  | nil => exact ⟨h, nofun, fun _ => rfl, by simp [writerLoop]⟩
  | cons m queue ih =>
    rw [writerLoop]
    split
    · next d hput =>
      apply ih
      rw [put_true hput, List.append_assoc]
      exact h
    · next d hput =>
      refine ⟨?_, ?_, nofun, by simp⟩
      · simpa [entered, put_false hput] using h
      · rintro n (hn | hn)
        · obtain rfl := Writer.selecting.inj hn
          exact ⟨queue, rfl⟩
        · cases hn

lemma notifyAll_fifo (order : s.entered ++ s.sendQueue = s.written)
    (awaited : ∀ m, s.writer = .selecting m ∨ s.writer = .ready m → ∃ rest, s.sendQueue = m :: rest)
    (started : s.writer = .absent ↔ s.channel = none) : Fifo (notifyAll s) := by
  unfold notifyAll
  split
  · next hw =>
    refine ⟨order, nofun, nofun, ?_⟩
    simpa [hw] using started
  · next hw => exact ⟨order, awaited, fun hwait => absurd hwait hw, started⟩

lemma enqueue_fifo {c : Option Channel} {m : Message} (h : Fifo s)
    (hc : (c.map Channel.sent).getD [] = s.entered) (hn : c = none ↔ s.channel = none) :
    Fifo (enqueue { s with channel := c, written := s.written ++ [m] } m) := by
  apply notifyAll_fifo
  · change (c.map Channel.sent).getD [] ++ (s.sendQueue ++ [m]) = s.written ++ [m]
    rw [hc, ← List.append_assoc, h.order]
  · intro n hw
    obtain ⟨rest, hrest⟩ := h.awaited n hw
    exact ⟨rest ++ [m], by simp [hrest]⟩
  · rw [h.started, hn]

lemma direct_fifo {c : Channel} {m : Message} (h : Fifo s) (hq : s.sendQueue = [])
    (hs : s.channel ≠ none) (hc : c.sent = s.entered ++ [m]) :
    Fifo { s with channel := some c, written := s.written ++ [m] } := by
  have horder := h.order
  rw [hq, List.append_nil] at horder
  refine ⟨?_, ?_, h.waiting, ?_⟩
  · change c.sent ++ s.sendQueue = s.written ++ [m]
    rw [hq, List.append_nil, hc, horder]
  · exact h.awaited
  · simpa [hs] using h.started

lemma resume_fifo {t : Link} (h : Fifo s) (ht : s.resume size = some t) : Fifo t := by
  obtain ⟨channel, queue, writer, written⟩ := s
  cases channel with
  | none => simp [resume] at ht
  | some c =>
    cases writer with
    | absent => simp [resume] at ht
    | posted =>
      obtain rfl := Option.some.inj ht
      exact writerLoop_fifo h.order
    | waiting => simp [resume] at ht
    | woken =>
      obtain rfl := Option.some.inj ht
      exact writerLoop_fifo h.order
    | selecting m => simp [resume] at ht
    | ready m =>
      obtain ⟨rest, hrest⟩ := h.awaited m (Or.inr rfl)
      have horder := h.order
      simp only [resume] at ht
      split at ht
      · next d hput =>
        obtain rfl := Option.some.inj ht
        apply writerLoop_fifo
        rw [put_true hput, List.append_assoc]
        simpa [entered, show queue = m :: rest from hrest] using horder
      · next d hput =>
        obtain rfl := Option.some.inj ht
        refine ⟨?_, ?_, nofun, by simp⟩
        · simpa [entered, put_false hput] using horder
        · rintro n (hn | hn)
          · obtain rfl := Writer.selecting.inj hn
            exact ⟨rest, hrest⟩
          · cases hn

lemma poll_fifo {t : Link} (h : Fifo s) (ht : s.poll size = some t) : Fifo t := by
  obtain ⟨channel, queue, writer, written⟩ := s
  cases channel with
  | none => simp [poll] at ht
  | some c =>
    cases writer <;> simp only [poll, reduceCtorEq] at ht
    next m =>
    obtain ⟨rest, hrest⟩ := h.awaited m (Or.inl rfl)
    split at ht
    · obtain rfl := Option.some.inj ht
      refine ⟨h.order, ?_, nofun, by simp⟩
      rintro n (hn | hn)
      · cases hn
      · obtain rfl := Writer.ready.inj hn
        exact ⟨rest, hrest⟩
    · obtain rfl := Option.some.inj ht
      exact h

lemma peerRead_fifo {t : Link} {capacity : Option ℕ} (h : Fifo s)
    (ht : s.peerRead size capacity = some t) : Fifo t := by
  obtain ⟨channel, queue, writer, written⟩ := s
  cases channel with
  | none => simp [peerRead] at ht
  | some c =>
    obtain rfl := Option.some.inj ht
    refine ⟨h.order, h.awaited, h.waiting, ?_⟩
    simpa using h.started

end Link

open Link

lemma GateConnector.write_fifo {size : ℕ} {s : Link} (m : Message) (h : Fifo s) :
    Fifo (GateConnector.write size s m) := by
  unfold GateConnector.write
  dsimp only
  split
  · next c hc hq =>
    have hsent : s.entered = c.sent := by simp [entered, hc]
    split
    · next d hput => exact direct_fifo h hq (by simp [hc]) (by rw [put_true hput, hsent])
    · next d hput =>
      exact enqueue_fifo h (by simp [put_false hput, hsent]) (by simp [hc])
  · exact enqueue_fifo h rfl Iff.rfl

lemma LocalService.write_fifo {size : ℕ} {s t : Link} {m : Message} (h : Fifo s)
    (ht : LocalService.write size s m = some t) : Fifo t := by
  unfold LocalService.write at ht
  dsimp only at ht
  split at ht
  · next c hq hc =>
    have hsent : s.entered = c.sent := by simp [entered, hc]
    split at ht
    · next d hput =>
      obtain rfl := Option.some.inj ht
      exact direct_fifo h hq (by simp [hc]) (by rw [put_true hput, hsent])
    · next d hput =>
      obtain rfl := Option.some.inj ht
      exact enqueue_fifo h (by simp [put_false hput, hsent]) (by simp [hc])
  · cases ht
  · obtain rfl := Option.some.inj ht
    exact enqueue_fifo h rfl Iff.rfl

lemma GateConnector.createChannel_fifo {s : Link} (shm : ShmData) (h : Fifo s) :
    Fifo (GateConnector.createChannel s shm) := by
  obtain ⟨channel, queue, writer, written⟩ := s
  cases channel with
  | none => exact ⟨h.order, nofun, nofun, by simp [GateConnector.createChannel]⟩
  | some c => exact h

lemma GateConnector.step_fifo {size : ℕ} {s t : Link} {a : Link.Action} (h : Fifo s)
    (ht : (GateConnector.link size).step s a = some t) : Fifo t := by
  cases a with
  | write m =>
    obtain rfl := Option.some.inj ht
    exact write_fifo m h
  | create shm =>
    obtain rfl := Option.some.inj ht
    exact createChannel_fifo shm h
  | resume => exact resume_fifo h ht
  | poll => exact poll_fifo h ht
  | peerRead capacity => exact peerRead_fifo h ht

lemma LocalService.step_fifo {size : ℕ} {shm : ShmData} {s t : Link} {a : Link.Action} (h : Fifo s)
    (ht : (LocalService.link size shm).step s a = some t) : Fifo t := by
  cases a with
  | write m => exact write_fifo h ht
  | create _ => cases ht
  | resume => exact resume_fifo h ht
  | poll => exact poll_fifo h ht
  | peerRead capacity => exact peerRead_fifo h ht

theorem link_fifo (size : ℕ) (shm : ShmData) (s : Link)
    (h : (GateConnector.link size).Reachable s ∨ (LocalService.link size shm).Reachable s) :
    s.entered <+: s.written ∧ Fifo s := by
  have hfifo : Fifo s := by
    rcases h with h | h
    · refine Machine.reachable_invariant (I := Fifo) ?_ (fun _ _ _ => GateConnector.step_fifo) h
      exact ⟨rfl, nofun, nofun, by simp [GateConnector.link]⟩
    · refine Machine.reachable_invariant (I := Fifo) ?_ (fun _ _ _ => LocalService.step_fifo) h
      exact ⟨rfl, nofun, nofun, by simp [LocalService.link]⟩
  exact ⟨⟨s.sendQueue, hfifo.order⟩, hfifo⟩

def pressedRun : List Link.Action :=
  [.write ⟨[1, 1, 1], by decide⟩, .create {}, .write ⟨[2, 2, 2], by decide⟩, .resume,
    .write ⟨[3], by decide⟩, .peerRead (some 3), .poll, .resume]

def pressedLocalRun : List Link.Action :=
  [.write ⟨[1, 1, 1], by decide⟩, .resume, .write ⟨[2, 2, 2], by decide⟩, .resume,
    .write ⟨[3], by decide⟩, .peerRead (some 3), .poll, .resume]

def Link.summary (s : Link) : List (List UInt8) × List (List UInt8) :=
  (s.entered.map Message.bytes, s.sendQueue.map Message.bytes)

lemma pressedRun_result : ((GateConnector.link 9).run {} pressedRun).map Link.summary =
    some ([[1, 1, 1], [2, 2, 2]], [[3]]) := by
  decide +kernel

lemma pressedLocalRun_result :
    ((LocalService.link 9 {}).run (LocalService.link 9 {}).initial pressedLocalRun).map Link.summary =
      some ([[1, 1, 1], [2, 2, 2]], [[3]]) := by
  decide +kernel

theorem link_fifo_pressed :
    (∃ s, (GateConnector.link 9).run {} pressedRun = some s ∧
      s.summary = ([[1, 1, 1], [2, 2, 2]], [[3]]) ∧ s.entered <+: s.written ∧ Fifo s) ∧
    ∃ s, (LocalService.link 9 {}).run (LocalService.link 9 {}).initial pressedLocalRun = some s ∧
      s.summary = ([[1, 1, 1], [2, 2, 2]], [[3]]) ∧ s.entered <+: s.written ∧ Fifo s := by
  obtain ⟨s, hs, hsum⟩ := Option.map_eq_some_iff.mp pressedRun_result
  obtain ⟨t, ht, htsum⟩ := Option.map_eq_some_iff.mp pressedLocalRun_result
  exact ⟨⟨s, hs, hsum, link_fifo 9 {} s (Or.inl ⟨pressedRun, hs⟩)⟩,
    ⟨t, ht, htsum, link_fifo 9 {} t (Or.inr ⟨pressedLocalRun, ht⟩)⟩⟩

end Simple.Gobang
