import Simple.Lib.Machine

/-! How a TCP or SSL socket writes. `write` queues a buffer and cancels the wait of `write_blocker_`;
the coroutine `co_write` takes up to `max_buffers` buffers off the queue for each `async_write`. -/

namespace Simple.Net

open Simple.Lib

/-- Where `co_write` is. Cancelling the wait completes it, but the coroutine goes on later. -/
inductive TcpSession.Writer
  | absent
  | posted
  | waiting
  | woken
  | writing (batch : List (List UInt8))
  | ended
deriving DecidableEq

/-- `queued` is the counter of `trace_write_queue`, `wire` what the socket has taken, and `written`
what `write` was called with. `broken` says that an `async_write` has ended early. -/
structure TcpSession where
  isOpen : Bool := true
  deque : List (List UInt8) := []
  writer : TcpSession.Writer := .absent
  queued : ℤ := 0
  broken : Bool := false
  wire : List UInt8 := []
  written : List (List UInt8) := []
deriving DecidableEq

namespace TcpSession

variable (maxBuffers : ℕ)

def takeBatch (s : TcpSession) : TcpSession :=
  { s with
    deque := s.deque.drop (min s.deque.length maxBuffers)
    writer := .writing (s.deque.take (min s.deque.length maxBuffers)) }

/-- `co_write` from the head of its loop to where it suspends -/
def loop (s : TcpSession) : TcpSession :=
  if s.isOpen = false then { s with writer := .ended }
  else if s.deque = [] then { s with writer := .waiting }
  else s.takeBatch maxBuffers

def resume (s : TcpSession) : Option TcpSession :=
  match s.writer with
  | .posted => some (s.loop maxBuffers)
  | .woken =>
    if s.isOpen = false then some { s with writer := .ended } else some (s.takeBatch maxBuffers)
  | _ => none

/-- `async_write` completes; it ends early with an error. The loop goes on with the next batch. -/
def wrote (s : TcpSession) (len : ℕ) : Option TcpSession :=
  match s.writer with
  | .writing batch =>
    if len ≤ batch.flatten.length then
      some (loop maxBuffers { s with
        queued := s.queued - len
        broken := s.broken || decide (len < batch.flatten.length)
        wire := s.wire ++ batch.flatten.take len })
    else none
  | _ => none

/-- `write_blocker_.cancel()` -/
def cancel (s : TcpSession) : TcpSession :=
  match s.writer with
  | .waiting => { s with writer := .woken }
  | _ => s

def write (s : TcpSession) (buf : List UInt8) : TcpSession :=
  cancel { s with
    queued := s.queued + buf.length
    deque := s.deque ++ [buf]
    written := s.written ++ [buf] }

def stop (s : TcpSession) : TcpSession :=
  if s.isOpen = false then s else cancel { s with isOpen := false }

inductive Action
  | accept
  | write (buf : List UInt8)
  | resume
  | wrote (len : ℕ)
  | stop
deriving DecidableEq

/-- `socket_system` finds the socket until it is stopped. -/
def step (s : TcpSession) : Action → Option TcpSession
  | .accept =>
    if s.isOpen = true ∧ s.writer = .absent then some { s with writer := .posted } else none
  | .write buf => if s.isOpen = true then some (s.write buf) else none
  | .resume => s.resume maxBuffers
  | .wrote len => s.wrote maxBuffers len
  | .stop => some s.stop

def machine : Machine TcpSession Action where
  initial := {}
  step := step maxBuffers

/-- The socket takes nothing more once an `async_write` has ended early. -/
def Lasting (s : TcpSession) : Action → Prop
  | .wrote len => s.broken = true → len = 0
  | _ => True

instance (s : TcpSession) : DecidablePred s.Lasting
  | .wrote len => inferInstanceAs (Decidable (s.broken = true → len = 0))
  | .accept | .write _ | .resume | .stop => .isTrue trivial

/-- What `co_write` has taken off the queue and not seen to the end. -/
def inFlight (s : TcpSession) : List (List UInt8) :=
  match s.writer with
  | .writing batch => batch
  | _ => []

/-- The next event of `co_write` when nothing goes wrong. -/
def advance (s : TcpSession) : TcpSession :=
  match s.writer with
  | .writing batch => (s.wrote maxBuffers batch.flatten.length).getD s
  | _ => (s.resume maxBuffers).getD s

/-- The buffers in `flight` and the queue are the last ones written. `P` says that all steps of the
run were lasting. -/
structure Flows (P : Prop) (flight : List (List UInt8)) (s : TcpSession) : Prop where
  order : ∃ done, s.written = done ++ flight ++ s.deque ∧ s.wire.Sublist done.flatten ∧
    (P → s.wire <+: done.flatten) ∧ (s.broken = false → s.wire = done.flatten)
  counts : s.queued = s.written.flatten.length - s.wire.length

structure Inv (P : Prop) (s : TcpSession) : Prop where
  flows : s.Flows P s.inFlight
  waits : s.writer = .waiting → s.isOpen = true ∧ s.deque = []
  ended : s.writer = .ended → s.isOpen = false

variable {maxBuffers} {s t : TcpSession} {a : Action} {P : Prop}

lemma Flows.takeBatch (h : s.Flows P []) : (s.takeBatch maxBuffers).Inv P := by
  obtain ⟨done, hwritten, hrest⟩ := h.order
  have hsplit : (s.takeBatch maxBuffers).Flows P (s.takeBatch maxBuffers).inFlight := by
    refine ⟨⟨done, ?_, hrest⟩, h.counts⟩
    rw [List.append_nil] at hwritten
    rw [List.append_assoc]
    simp only [TcpSession.takeBatch, inFlight, List.take_append_drop]
    exact hwritten
  exact ⟨hsplit, nofun, nofun⟩

lemma Flows.loop (h : s.Flows P []) : (s.loop maxBuffers).Inv P := by
  rw [TcpSession.loop]
  split_ifs with hopen hempty
  · exact ⟨⟨h.order, h.counts⟩, nofun, fun _ => hopen⟩
  · exact ⟨⟨h.order, h.counts⟩, fun _ => ⟨by simpa using hopen, hempty⟩, nofun⟩
  · exact h.takeBatch

lemma Inv.resume (h : s.Inv P) (hs : s.resume maxBuffers = some t) : t.Inv P := by
  have hflows := h.flows
  rw [TcpSession.resume] at hs
  split at hs
  · next hw =>
    obtain rfl := Option.some.inj hs
    rw [inFlight, hw] at hflows
    exact hflows.loop
  · next hw =>
    rw [inFlight, hw] at hflows
    split_ifs at hs with hopen
    · obtain rfl := Option.some.inj hs
      exact ⟨⟨hflows.order, hflows.counts⟩, nofun, fun _ => hopen⟩
    · obtain rfl := Option.some.inj hs
      exact hflows.takeBatch
  · cases hs

lemma Inv.wrote {len : ℕ} (h : s.Inv P) (hlasting : P → s.Lasting (.wrote len))
    (hs : s.wrote maxBuffers len = some t) : t.Inv P := by
  have hflows := h.flows
  rw [TcpSession.wrote] at hs
  split at hs
  · next batch hw =>
    split_ifs at hs with hlen
    obtain rfl := Option.some.inj hs
    rw [inFlight, hw] at hflows
    obtain ⟨done, hwritten, hsub, hwire, hwhole⟩ := hflows.order
    apply Flows.loop
    refine ⟨⟨done ++ batch, ?_, ?_, ?_, ?_⟩, ?_⟩
    · rw [List.append_nil]
      exact hwritten
    · rw [List.flatten_append]
      exact hsub.append (List.take_sublist _ _)
    · intro hP
      rw [List.flatten_append]
      cases hbroken : s.broken with
      | true =>
        rw [hlasting hP hbroken, List.take_zero, List.append_nil]
        exact (hwire hP).trans (List.prefix_append _ _)
      | false =>
        rw [hwhole hbroken]
        exact (List.prefix_append_right_inj _).mpr (List.take_prefix _ _)
    · intro hwhole'
      obtain ⟨hbroken, hall⟩ := Bool.or_eq_false_iff.mp hwhole'
      have hle : batch.flatten.length ≤ len := not_lt.mp (of_decide_eq_false hall)
      rw [hwhole hbroken, List.flatten_append, List.take_of_length_le hle]
    · have htake : (batch.flatten.take len).length = len := List.length_take_of_le hlen
      rw [List.length_append, htake, hflows.counts]
      push_cast
      omega
  · cases hs

lemma inv_cancel (hflows : s.Flows P s.inFlight) (hended : s.writer = .ended → s.isOpen = false) :
    s.cancel.Inv P := by
  rw [TcpSession.cancel]
  split
  · next hw =>
    rw [inFlight, hw] at hflows
    exact ⟨⟨hflows.order, hflows.counts⟩, nofun, nofun⟩
  · next hw => exact ⟨hflows, fun hw' => absurd hw' hw, hended⟩

lemma step_inv (h : s.Inv P) (hlasting : P → s.Lasting a) (hs : s.step maxBuffers a = some t) :
    t.Inv P := by
  cases a with
  | accept =>
    simp only [step] at hs
    split_ifs at hs with hopen
    obtain rfl := Option.some.inj hs
    have hflows := h.flows
    rw [inFlight, hopen.2] at hflows
    exact ⟨⟨hflows.order, hflows.counts⟩, nofun, nofun⟩
  | write buf =>
    simp only [step] at hs
    split_ifs at hs with hopen
    obtain rfl := Option.some.inj hs
    obtain ⟨done, hwritten, hrest⟩ := h.flows.order
    apply inv_cancel
    · refine ⟨⟨done, ?_, hrest⟩, ?_⟩
      · simp only [hwritten]
        rw [← List.append_assoc]
        rfl
      · simp only [h.flows.counts, List.flatten_append, List.length_append, List.flatten_singleton]
        push_cast
        ring
    · exact h.ended
  | resume => exact h.resume hs
  | wrote len => exact h.wrote hlasting hs
  | stop =>
    obtain rfl := Option.some.inj hs
    rw [stop]
    split_ifs
    · exact h
    · exact inv_cancel ⟨h.flows.order, h.flows.counts⟩ fun _ => rfl

lemma inv_initial : ({} : TcpSession).Inv P :=
  ⟨⟨⟨[], rfl, List.Sublist.refl _, fun _ => List.prefix_rfl, fun _ => rfl⟩, rfl⟩, nofun, nofun⟩

lemma reachable_inv (h : (machine maxBuffers).Reachable s) : s.Inv False :=
  Machine.reachable_invariant (M := machine maxBuffers) inv_initial
    (fun _ _ _ hs ht => step_inv hs False.elim ht) h

lemma lasting_inv {as : List Action} (hlasting : (machine maxBuffers).Along Lasting {} as)
    (h : (machine maxBuffers).run {} as = some s) : s.Inv True :=
  hlasting.invariant (fun _ _ _ hs hc ht => step_inv hs (fun _ => hc) ht) inv_initial h

/-- `co_write` runs, and nothing has failed. -/
structure Running (s : TcpSession) : Prop where
  isOpen : s.isOpen = true
  whole : s.broken = false
  started : s.writer ≠ .absent ∧ s.writer ≠ .ended

/-- How many events of `co_write` it takes at most. -/
def rank (s : TcpSession) : ℕ :=
  match s.writer with
  | .waiting => 0
  | .writing _ => s.deque.length + 1
  | _ => s.deque.length + 2

lemma loop_running (hmax : 0 < maxBuffers) (hopen : s.isOpen = true) (hwhole : s.broken = false) :
    (s.loop maxBuffers).Running ∧ (s.loop maxBuffers).written = s.written ∧
      (s.loop maxBuffers).rank < s.deque.length + 1 := by
  rw [loop, if_neg (by simp [hopen])]
  split_ifs with hempty
  · exact ⟨⟨hopen, hwhole, by simp⟩, rfl, Nat.succ_pos _⟩
  · refine ⟨⟨hopen, hwhole, by simp [takeBatch]⟩, rfl, ?_⟩
    have hpos : 0 < s.deque.length := List.length_pos_iff.mpr hempty
    simp only [rank, takeBatch, List.length_drop]
    omega

lemma advance_running (hmax : 0 < maxBuffers) (h : s.Running) (hinv : s.Inv P) :
    (s.advance maxBuffers).Running ∧ (s.advance maxBuffers).Inv P ∧
      (s.advance maxBuffers).written = s.written ∧
      (s.advance maxBuffers).rank ≤ s.rank - 1 := by
  obtain ⟨hopen, hwhole, hstarted⟩ := h
  cases hw : s.writer with
  | absent => exact absurd hw hstarted.1
  | ended => exact absurd hw hstarted.2
  | waiting =>
    have hnone : s.advance maxBuffers = s := by simp [advance, resume, hw]
    rw [hnone]
    exact ⟨⟨hopen, hwhole, hstarted⟩, hinv, rfl, by simp [rank, hw]⟩
  | posted =>
    have hloop : s.resume maxBuffers = some (s.loop maxBuffers) := by simp [resume, hw]
    have hadvance : s.advance maxBuffers = s.loop maxBuffers := by simp [advance, hw, hloop]
    obtain ⟨hrunning, hwritten, hrank⟩ := loop_running hmax hopen hwhole
    rw [hadvance]
    refine ⟨hrunning, hinv.resume hloop, hwritten, ?_⟩
    simp only [rank, hw] at hrank ⊢
    omega
  | woken =>
    have hbatch : s.resume maxBuffers = some (s.takeBatch maxBuffers) := by simp [resume, hw, hopen]
    have hadvance : s.advance maxBuffers = s.takeBatch maxBuffers := by simp [advance, hw, hbatch]
    rw [hadvance]
    refine ⟨⟨hopen, hwhole, by simp [takeBatch]⟩, hinv.resume hbatch, rfl, ?_⟩
    simp only [rank, hw, takeBatch, List.length_drop]
    omega
  | writing batch =>
    have hwrote : ∃ t : TcpSession, s.wrote maxBuffers batch.flatten.length = some (t.loop maxBuffers) ∧
        t.isOpen = true ∧ t.broken = false ∧ t.written = s.written ∧ t.deque = s.deque := by
      refine ⟨{ s with
        queued := s.queued - batch.flatten.length
        broken := s.broken || decide (batch.flatten.length < batch.flatten.length)
        wire := s.wire ++ batch.flatten.take batch.flatten.length }, ?_, hopen, ?_, rfl, rfl⟩
      · simp [wrote, hw]
      · simp [hwhole]
    obtain ⟨t, ht, htopen, htwhole, htwritten, htdeque⟩ := hwrote
    have hadvance : s.advance maxBuffers = t.loop maxBuffers := by simp only [advance, hw, ht, Option.getD_some]
    obtain ⟨hrunning, hwritten, hrank⟩ := loop_running hmax htopen htwhole
    rw [hadvance]
    refine ⟨hrunning, hinv.wrote (fun _ hbroken => ?_) ht, hwritten.trans htwritten, ?_⟩
    · simp [hwhole] at hbroken
    rw [htdeque] at hrank
    simp only [rank, hw] at hrank ⊢
    omega

lemma drained (hmax : 0 < maxBuffers) (h : s.Running) (hinv : s.Inv P) {n : ℕ} (hn : s.rank ≤ n) :
    ((advance maxBuffers)^[n] s).writer = .waiting ∧
      ((advance maxBuffers)^[n] s).wire = s.written.flatten := by
  induction n generalizing s with
  | zero =>
    have hw : s.writer = .waiting := by
      cases hw : s.writer <;> simp [rank, hw] at hn
      rfl
    refine ⟨hw, ?_⟩
    obtain ⟨done, hwritten, -, -, hwhole⟩ := hinv.flows.order
    simp only [Function.iterate_zero, id, hwhole h.whole, hwritten, inFlight, hw, (hinv.waits hw).2,
      List.append_nil]
  | succ n ih =>
    obtain ⟨hrunning, hinv', hwritten, hrank⟩ := advance_running hmax h hinv
    rw [Function.iterate_succ_apply, ← hwritten]
    exact ih hrunning hinv' (by omega)

lemma rank_le : s.rank ≤ s.deque.length + 2 := by
  rw [rank]
  split <;> omega

lemma Inv.wire_sublist (h : s.Inv P) : s.wire.Sublist s.written.flatten := by
  obtain ⟨done, hwritten, hsub, -⟩ := h.flows.order
  rw [hwritten, List.append_assoc, List.flatten_append]
  exact hsub.trans (List.sublist_append_left _ _)

lemma Inv.wire_start (h : s.Inv True) : s.wire <+: s.written.flatten := by
  obtain ⟨done, hwritten, -, hwire, -⟩ := h.flows.order
  rw [hwritten, List.append_assoc, List.flatten_append]
  exact (hwire trivial).trans (List.prefix_append _ _)

/-- The socket takes the bytes of the buffers in the order of the calls, without a gap as long as an
`async_write` that has ended early is the last one to take any, and `trace_write_queue` counts what it
has not taken. While it is open, `co_write` is never left asleep or gone with buffers in the queue, and
gets them all out if nothing fails. -/
theorem writes_in_order (hmax : 0 < maxBuffers) {as : List Action}
    (h : (machine maxBuffers).run {} as = some s) :
    s.wire.Sublist s.written.flatten ∧
    ((machine maxBuffers).Along Lasting {} as → s.wire <+: s.written.flatten) ∧
    s.queued = s.written.flatten.length - s.wire.length ∧
    (s.broken = false → s.written.flatten = s.wire ++ (s.inFlight ++ s.deque).flatten) ∧
    (s.isOpen = true → s.deque ≠ [] → s.writer ≠ .waiting ∧ s.writer ≠ .ended) ∧
    (s.Running → ∀ n, s.deque.length + 2 ≤ n →
      ((advance maxBuffers)^[n] s).writer = .waiting ∧
        ((advance maxBuffers)^[n] s).wire = s.written.flatten) := by
  have hinv := reachable_inv ⟨as, h⟩
  obtain ⟨done, hwritten, -, -, hwhole⟩ := hinv.flows.order
  refine ⟨hinv.wire_sublist, fun hlasting => (lasting_inv hlasting h).wire_start, hinv.flows.counts,
    ?_, ?_, ?_⟩
  · intro hbroken
    rw [hwritten, List.append_assoc, List.flatten_append, hwhole hbroken]
  · intro hopen hdeque
    refine ⟨fun hw => hdeque (hinv.waits hw).2, fun hw => ?_⟩
    simp [hinv.ended hw] at hopen
  · intro hrunning n hn
    exact drained hmax hrunning hinv (rank_le.trans hn)

/-- A queue that two batches empty, and an `async_write` that ends early behind which one takes more. -/
theorem writes_in_order_split :
    (∃ s, (machine 2).run {} [.write [1], .accept, .write [2, 3], .resume, .write [4], .wrote 3,
        .write [5, 6]] = some s ∧ s.deque = [[5, 6]] ∧ s.wire = [1, 2, 3] ∧
      ((advance 2)^[3] s).wire = [1, 2, 3, 4, 5, 6]) ∧
    ∃ s, (machine 2).run {} [.write [1, 2], .accept, .resume, .write [3], .wrote 1, .wrote 1] = some s ∧
      s.wire = [1, 3] ∧ s.queued = 1 ∧ s.wire.Sublist [1, 2, 3] := by
  constructor
  · have hrun : (machine 2).run {} [.write [1], .accept, .write [2, 3], .resume, .write [4], .wrote 3,
        .write [5, 6]] = some _ := rfl
    refine ⟨_, hrun, rfl, rfl, ?_⟩
    have hall := (writes_in_order (by decide) hrun).2.2.2.2.2
    exact (hall ⟨rfl, rfl, by decide⟩ 3 le_rfl).2
  · have hrun : (machine 2).run {} [.write [1, 2], .accept, .resume, .write [3], .wrote 1,
        .wrote 1] = some _ := rfl
    exact ⟨_, hrun, rfl, rfl, (writes_in_order (by decide) hrun).1⟩

end TcpSession

end Simple.Net
