import Mathlib.Data.List.Nodup
import Simple.Lib.Modify
import Simple.Log.LogSystem

/-! Asynchronous loggers: the messages are objects of a pool, which a call takes out and fills, the
queue of the writer thread passes on, and the writer thread gives back. A push into one of the two
queues is the exchange and, later, the store of its link. The writer waits on `writer_cv_`, without an
end when the flush interval is 0; `send` notifies it without the lock. -/

namespace Simple.Log

open Simple.Lib

/-- A call of `log` or `flush` of an asynchronous logger. `H` is the level, the time, the thread and
the place in the source. -/
inductive LogCall (H : Type)
  | log (logger : Logger) (head : H) (buf : List UInt8)
  | flush (logger : Logger)

inductive MessageType
  | log
  | flush

structure LogRecord (H : Type) where
  ptr : Option Logger := none
  tp : MessageType := .log
  head : H
  buf : List UInt8 := []

/-- A call that has its message object, which it has still to fill or to send. -/
structure PendingCall (H : Type) where
  msg : ℕ
  call : LogCall H
  filled : Bool := false

/-- What the writer thread is about to do. `head` is the head of its loop; in `recv` it takes a
message, goes to sleep when there is none, and takes one when it is woken; behind `recv` it handles
and releases the message and looks at the flush interval. -/
inductive WriterPlace
  | head
  | receiving
  | empty
  | sleeping
  | woken
  | received (msg : ℕ)
  | handled (msg : ℕ)
  | checking
  | ended
deriving DecidableEq

def WriterPlace.held : WriterPlace → List ℕ
  | .received msg => [msg]
  | .handled msg => [msg]
  | _ => []

def WriterPlace.taken : WriterPlace → List ℕ
  | .received msg => [msg]
  | _ => []

def flushIntervalDefault : ℤ := 5

/-- Objects are numbered, those of the pool up to its size. `linking` are the messages, and `returning`
the object of the pool, that have been pushed up to the store of their link. `notifying` are the
threads that are still to call `notify_one`; `timed` tells whether the writer's next wait has an end.
`sent`, `delivered` and `dropped` tell what has happened to the calls. -/
structure Pipeline (H : Type) where
  free : List ℕ
  returning : Option ℕ := none
  record : ℕ → LogRecord H
  calls : List (PendingCall H) := []
  queue : List ℕ := []
  linking : List ℕ := []
  notifying : ℕ := 0
  flushInterval : ℤ := flushIntervalDefault
  timed : Bool := true
  writer : WriterPlace := .checking
  stopping : Bool := false
  sent : List (LogCall H) := []
  delivered : List (LogCall H) := []
  dropped : List (LogCall H) := []

variable {H : Type}

/-- `fill_msg` of `log`, or what `flush` sets; `flush` leaves the rest as it was. -/
def LogRecord.fill (r : LogRecord H) : LogCall H → LogRecord H
  | .log logger head buf => { ptr := some logger, tp := .log, head := head, buf := buf }
  | .flush logger => { r with ptr := some logger, tp := .flush }

def LogRecord.call (r : LogRecord H) : Option (LogCall H) :=
  match r.ptr with
  | none => none
  | some logger =>
    match r.tp with
    | .log => some (.log logger r.head r.buf)
    | .flush => some (.flush logger)

def LogRecord.release (r : LogRecord H) : LogRecord H := { r with ptr := none, buf := [] }

namespace Pipeline

section Code

variable (size : ℕ)

def inUse (s : Pipeline H) : List ℕ :=
  s.calls.map PendingCall.msg ++ s.queue ++ s.writer.held

def newObject (s : Pipeline H) (call : LogCall H) (address : ℕ) : Option (Pipeline H) :=
  if size ≤ address ∧ address ∉ s.inUse then
    some { s with calls := s.calls ++ [{ msg := address, call := call }] }
  else none

/-- `new_message`: a new object, at `address`, when the pool is empty, or its `pop` gives nothing because
the first object is not linked yet. -/
def newMessage (s : Pipeline H) (call : LogCall H) (address : ℕ) : Option (Pipeline H) :=
  match s.free with
  | [] => s.newObject size call address
  | msg :: free =>
    if s.returning = some msg then s.newObject size call address
    else some { s with free := free, calls := s.calls ++ [{ msg := msg, call := call }] }

def fill (s : Pipeline H) (k : ℕ) : Option (Pipeline H) :=
  match s.calls[k]? with
  | some ⟨msg, call, false⟩ => some { s with
      record := Function.update s.record msg ((s.record msg).fill call)
      calls := s.calls.set k ⟨msg, call, true⟩ }
  | _ => none

/-- `send` up to the exchange of `push`, which gives the message its place in the queue. -/
def send (s : Pipeline H) (k : ℕ) : Option (Pipeline H) :=
  match s.calls[k]? with
  | some ⟨msg, call, true⟩ => some { s with
      calls := s.calls.eraseIdx k
      queue := s.queue ++ [msg]
      linking := s.linking ++ [msg]
      sent := s.sent ++ [call] }
  | _ => none

/-- The store of the link, behind which `send` has only its notification left. -/
def link (s : Pipeline H) (k : ℕ) : Option (Pipeline H) :=
  if k < s.linking.length then
    some { s with linking := s.linking.eraseIdx k, notifying := s.notifying + 1 }
  else none

def setFlushInterval (s : Pipeline H) (seconds : ℤ) : Pipeline H :=
  if 0 ≤ seconds then { s with flushInterval := seconds, notifying := s.notifying + 1 } else s

def wake (s : Pipeline H) : Pipeline H :=
  { s with writer := if s.writer = .sleeping then .woken else s.writer }

/-- `notify_one`, which does nothing when the writer is not asleep yet. -/
def notify (s : Pipeline H) : Option (Pipeline H) :=
  if s.notifying = 0 then none else some { s.wake with notifying := s.notifying - 1 }

def loop (s : Pipeline H) : Option (Pipeline H) :=
  match s.writer with
  | .head => some { s with writer := if s.stopping then .ended else .receiving }
  | _ => none

/-- Nothing, too, when the first message is not linked yet. While the second is not, `pop` tries again
(or finds `stub_` before it); its end is what counts here. -/
def pop (s : Pipeline H) : Option (ℕ × List ℕ) :=
  match s.queue with
  | [] => none
  | msg :: queue => if msg ∈ s.linking then none else some (msg, queue)

/-- `pop`, before and after the wait. -/
def recv (s : Pipeline H) : Option (Pipeline H) :=
  match s.writer, s.pop with
  | .receiving, some (msg, queue) | .woken, some (msg, queue) =>
    some { s with queue := queue, writer := .received msg }
  | .receiving, none => some { s with writer := .empty }
  | .woken, none => some { s with writer := .checking }
  | _, _ => none

def sleep (s : Pipeline H) : Option (Pipeline H) :=
  match s.writer with
  | .empty => some { s with writer := .sleeping }
  | _ => none

def handle (s : Pipeline H) : Option (Pipeline H) :=
  match s.writer with
  | .received msg => some { s with
      writer := .handled msg
      delivered := s.delivered ++ (s.record msg).call.toList }
  | _ => none

/-- `release_message`, up to the exchange of `push`: an object of the pool goes back, another is
deleted. -/
def releaseMessage (s : Pipeline H) (msg : ℕ) : Pipeline H :=
  { s with
    record := Function.update s.record msg (s.record msg).release
    free := if msg < size then s.free ++ [msg] else s.free
    returning := if msg < size then some msg else none }

def release (s : Pipeline H) : Option (Pipeline H) :=
  match s.writer with
  | .handled msg => some { s.releaseMessage size msg with writer := .checking }
  | _ => none

/-- The store of the link of the released object. -/
def returned (s : Pipeline H) : Option (Pipeline H) :=
  s.returning.map fun _ => { s with returning := none }

/-- The next wait has an end when the flush interval is not 0. -/
def check (s : Pipeline H) : Option (Pipeline H) :=
  match s.writer, s.returning with
  | .checking, none => some { s with timed := decide (0 < s.flushInterval), writer := .head }
  | _, _ => none

/-- `~log_system` releases what is left in the queue. -/
def drain (s : Pipeline H) : Option (Pipeline H) :=
  match s.writer, s.returning, s.pop with
  | .ended, none, some (msg, queue) => some { s.releaseMessage size msg with
      queue := queue
      dropped := s.dropped ++ (s.record msg).call.toList }
  | _, _, _ => none

/-- `wake` is the end of a timed wait, or a wait that ends for no reason. -/
inductive Action (H : Type)
  | newMessage (call : LogCall H) (address : ℕ)
  | fill (k : ℕ)
  | send (k : ℕ)
  | link (k : ℕ)
  | setFlushInterval (seconds : ℤ)
  | requestStop
  | notify
  | loop
  | recv
  | sleep
  | wake
  | handle
  | release
  | returned
  | check
  | drain

def step (s : Pipeline H) : Action H → Option (Pipeline H)
  | .newMessage call address => s.newMessage size call address
  | .fill k => s.fill k
  | .send k => s.send k
  | .link k => s.link k
  | .setFlushInterval seconds => some (s.setFlushInterval seconds)
  | .requestStop => some { s with stopping := true, notifying := s.notifying + 1 }
  | .notify => s.notify
  | .loop => s.loop
  | .recv => s.recv
  | .sleep => s.sleep
  | .wake => some s.wake
  | .handle => s.handle
  | .release => s.release size
  | .returned => s.returned
  | .check => s.check
  | .drain => s.drain size

def machine (size : ℕ) (record : ℕ → LogRecord H) : Machine (Pipeline H) (Action H) where
  initial := { free := List.range size, record := record }
  step := step size

end Code

variable {size : ℕ} {record : ℕ → LogRecord H} {s t : Pipeline H} {a : Action H} {msg : ℕ}

/-- The objects that are still to be handled, in order. -/
def unhandled (s : Pipeline H) : List ℕ := s.writer.taken ++ s.queue

structure Inv (size : ℕ) (s : Pipeline H) : Prop where
  nodup : (s.free ++ s.inUse).Nodup
  owned : ∀ msg < size, msg ∈ s.free ++ s.inUse
  small : ∀ msg ∈ s.free, msg < size
  linking : ∀ msg ∈ s.linking, msg ∈ s.queue
  filled : ∀ c ∈ s.calls, c.filled = true → (s.record c.msg).call = some c.call
  order : ∃ pending, s.sent = s.delivered ++ s.dropped ++ pending ∧
    s.unhandled.map (fun msg => (s.record msg).call) = pending.map some
  dropped : s.writer ≠ .ended → s.dropped = []
  stopped : s.writer = .ended → s.stopping = true

lemma unhandled_subset (h : msg ∈ s.unhandled) : msg ∈ s.queue ++ s.writer.held := by
  rw [unhandled] at h
  rw [List.mem_append] at h ⊢
  obtain h | h := h
  · right
    cases hw : s.writer <;> simp_all [WriterPlace.held, WriterPlace.taken]
  · exact Or.inl h

lemma Inv.apart (h : s.Inv size) {c : PendingCall H} (hc : c ∈ s.calls)
    (hmsg : msg ∈ s.queue ++ s.writer.held) : msg ≠ c.msg := by
  have hnodup := (List.nodup_append'.mp h.nodup).2.1
  rw [inUse, List.append_assoc] at hnodup
  rintro rfl
  exact (List.nodup_append'.mp hnodup).2.2 (List.mem_map_of_mem hc) hmsg

lemma Inv.call_eq (h : s.Inv size) {c c' : PendingCall H} (hc : c ∈ s.calls) (hc' : c' ∈ s.calls)
    (hmsg : c.msg = c'.msg) : c = c' := by
  have hnodup := (List.nodup_append'.mp h.nodup).2.1
  rw [inUse, List.append_assoc] at hnodup
  exact List.inj_on_of_nodup_map (List.nodup_append'.mp hnodup).1 hc hc' hmsg

lemma Inv.of_perm (h : s.Inv size) (hperm : (t.free ++ t.inUse).Perm (s.free ++ s.inUse)) :
    (t.free ++ t.inUse).Nodup ∧ ∀ msg < size, msg ∈ t.free ++ t.inUse :=
  ⟨hperm.nodup_iff.mpr h.nodup, fun msg hmsg => hperm.mem_iff.mpr (h.owned msg hmsg)⟩

lemma fill_call (r : LogRecord H) (call : LogCall H) : (r.fill call).call = some call := by
  cases call <;> rfl

lemma Inv.unfilled (h : s.Inv size) (msg : ℕ) (call : LogCall H) :
    ∀ c ∈ s.calls ++ [{ msg := msg, call := call }], c.filled = true →
      (s.record c.msg).call = some c.call := by
  intro c hc hfilled
  obtain hc | hc := List.mem_append.mp hc
  · exact h.filled c hc hfilled
  · obtain rfl := List.mem_singleton.mp hc
    cases hfilled

lemma Inv.newObject (h : s.Inv size) {call : LogCall H} {address : ℕ}
    (ht : s.newObject size call address = some t) : t.Inv size := by
  rw [Pipeline.newObject] at ht
  split_ifs at ht with haddress
  obtain ⟨hsize, hunused⟩ := haddress
  obtain rfl := Option.some.inj ht
  have hperm : (s.free ++ inUse { s with
      calls := s.calls ++ [{ msg := address, call := call }] }).Perm
      (address :: (s.free ++ s.inUse)) := by
    rw [List.perm_iff_count]
    intro x
    simp only [inUse, List.map_append, List.count_append, List.map_cons, List.map_nil,
      List.count_cons, List.count_nil]
    omega
  have hfree : address ∉ s.free := fun hmem => absurd (h.small address hmem) (not_lt.mpr hsize)
  refine ⟨?_, ?_, h.small, h.linking, h.unfilled address call, h.order, h.dropped, h.stopped⟩
  · rw [hperm.nodup_iff, List.nodup_cons, List.mem_append, not_or]
    exact ⟨⟨hfree, hunused⟩, h.nodup⟩
  · intro msg hmsg
    rw [hperm.mem_iff]
    exact List.mem_cons_of_mem _ (h.owned msg hmsg)

lemma Inv.newMessage (h : s.Inv size) {call : LogCall H} {address : ℕ}
    (ht : s.newMessage size call address = some t) : t.Inv size := by
  rw [Pipeline.newMessage] at ht
  split at ht
  · exact h.newObject ht
  · next msg free hfree =>
    split_ifs at ht
    · exact h.newObject ht
    · obtain rfl := Option.some.inj ht
      have hperm : (free ++ inUse { s with
          free := free
          calls := s.calls ++ [{ msg := msg, call := call }] }).Perm (s.free ++ s.inUse) := by
        rw [hfree, List.perm_iff_count]
        intro x
        simp only [inUse, List.map_append, List.count_append, List.map_cons, List.map_nil,
          List.count_cons, List.count_nil]
        omega
      refine ⟨(h.of_perm hperm).1, (h.of_perm hperm).2, ?_, h.linking, h.unfilled msg call, h.order,
        h.dropped, h.stopped⟩
      intro msg' hmsg'
      exact h.small msg' (by rw [hfree]; exact List.mem_cons_of_mem _ hmsg')

lemma Inv.fill {k : ℕ} (h : s.Inv size) (ht : s.fill k = some t) : t.Inv size := by
  rw [Pipeline.fill] at ht
  split at ht
  · next msg call hk =>
    obtain rfl := Option.some.inj ht
    have hc : (⟨msg, call, false⟩ : PendingCall H) ∈ s.calls := List.mem_of_getElem? hk
    have hmsgs : (s.calls.set k ⟨msg, call, true⟩).map PendingCall.msg = s.calls.map PendingCall.msg :=
      map_set hk rfl
    have huse : inUse { s with
        record := Function.update s.record msg ((s.record msg).fill call)
        calls := s.calls.set k ⟨msg, call, true⟩ } = s.inUse := by
      rw [inUse, inUse, hmsgs]
    refine ⟨huse ▸ h.nodup, huse ▸ h.owned, h.small, h.linking, ?_, ?_, h.dropped, h.stopped⟩
    · intro c hcs hfilled
      obtain hcs | rfl := List.mem_or_eq_of_mem_set hcs
      · have hne : c.msg ≠ msg := by
          intro heq
          rw [h.call_eq hcs hc heq] at hfilled
          cases hfilled
        simp only [Function.update_of_ne hne]
        exact h.filled c hcs hfilled
      · simp only [Function.update_self]
        exact fill_call _ call
    · obtain ⟨pending, hsent, hpending⟩ := h.order
      refine ⟨pending, hsent, ?_⟩
      rw [← hpending]
      apply List.map_congr_left
      intro msg' hmsg'
      have hne : msg' ≠ msg := h.apart hc (unhandled_subset hmsg')
      simp only [Function.update_of_ne hne]
  · cases ht

lemma Inv.send {k : ℕ} (h : s.Inv size) (ht : s.send k = some t) : t.Inv size := by
  rw [Pipeline.send] at ht
  split at ht
  · next msg call hk =>
    obtain rfl := Option.some.inj ht
    obtain ⟨l₁, l₂, hcalls, -, herase⟩ := split_getElem? hk
    have hc : (⟨msg, call, true⟩ : PendingCall H) ∈ s.calls := List.mem_of_getElem? hk
    have hperm : (s.free ++ inUse { s with
        calls := s.calls.eraseIdx k
        queue := s.queue ++ [msg]
        linking := s.linking ++ [msg]
        sent := s.sent ++ [call] }).Perm (s.free ++ s.inUse) := by
      rw [List.perm_iff_count]
      intro x
      simp only [inUse]
      rw [herase, hcalls]
      simp only [List.map_append, List.map_cons, List.count_append, List.count_cons, List.count_nil]
      omega
    refine ⟨(h.of_perm hperm).1, (h.of_perm hperm).2, h.small, ?_, ?_, ?_, h.dropped, h.stopped⟩
    · intro msg' hmsg'
      rw [List.mem_append] at hmsg' ⊢
      exact hmsg'.imp_left (h.linking msg')
    · intro c hcs
      exact h.filled c (List.mem_of_mem_eraseIdx hcs)
    · obtain ⟨pending, hsent, hpending⟩ := h.order
      refine ⟨pending ++ [call], ?_, ?_⟩
      · rw [hsent, List.append_assoc (s.delivered ++ s.dropped)]
      · have hcall := h.filled _ hc rfl
        rw [List.map_append, ← hpending, unhandled, unhandled, ← List.append_assoc, List.map_append,
          List.map_singleton, hcall]
        rfl
  · cases ht

lemma Inv.link {k : ℕ} (h : s.Inv size) (ht : s.link k = some t) : t.Inv size := by
  rw [Pipeline.link] at ht
  split_ifs at ht
  obtain rfl := Option.some.inj ht
  refine ⟨h.nodup, h.owned, h.small, ?_, h.filled, h.order, h.dropped, h.stopped⟩
  exact fun msg hmsg => h.linking msg (List.mem_of_mem_eraseIdx hmsg)

lemma Inv.moves (h : s.Inv size) {place : WriterPlace} (hheld : place.held = s.writer.held)
    (htaken : place.taken = s.writer.taken) (hended : s.writer = .ended → place = .ended)
    {stopping : Bool} (hstopping : s.stopping = true → stopping = true)
    (hstopped : place = .ended → s.writer = .ended ∨ stopping = true)
    (notifying : ℕ) (flushInterval : ℤ) (timed : Bool) :
    Inv size { s with
      notifying := notifying
      flushInterval := flushInterval
      timed := timed
      writer := place
      stopping := stopping } := by
  have huse : inUse { s with
      notifying := notifying
      flushInterval := flushInterval
      timed := timed
      writer := place
      stopping := stopping } = s.inUse := congrArg (_ ++ ·) hheld
  have hsame : unhandled { s with
      notifying := notifying
      flushInterval := flushInterval
      timed := timed
      writer := place
      stopping := stopping } = s.unhandled := congrArg (· ++ s.queue) htaken
  refine ⟨huse ▸ h.nodup, huse ▸ h.owned, h.small, h.linking, h.filled, hsame ▸ h.order, ?_, ?_⟩
  · exact fun hplace => h.dropped fun hw => hplace (hended hw)
  · intro hplace
    exact (hstopped hplace).elim (fun hw => hstopping (h.stopped hw)) id

lemma Inv.place (h : s.Inv size) {old : WriterPlace} (hw : s.writer = old) (place : WriterPlace)
    (hheld : place.held = old.held) (htaken : place.taken = old.taken) (hended : old ≠ .ended)
    (hstopped : place = .ended → s.stopping = true) (timed : Bool) :
    Inv size { s with timed := timed, writer := place } := by
  subst hw
  exact h.moves hheld htaken (fun hw => absurd hw hended) id (fun hp => Or.inr (hstopped hp)) _ _ timed

lemma pop_eq_some {queue : List ℕ} :
    s.pop = some (msg, queue) ↔ s.queue = msg :: queue ∧ msg ∉ s.linking := by
  rw [pop]
  split
  · next hqueue => simp [hqueue]
  · next first rest hqueue =>
    rw [hqueue]
    split_ifs with hfirst
    · constructor
      · intro h
        cases h
      · rintro ⟨heq, hmsg⟩
        cases heq
        exact absurd hfirst hmsg
    · constructor
      · intro h
        cases h
        exact ⟨rfl, hfirst⟩
      · rintro ⟨heq, -⟩
        cases heq
        rfl

lemma Inv.linking_pop (h : s.Inv size) {queue : List ℕ} (hpop : s.pop = some (msg, queue)) :
    ∀ msg' ∈ s.linking, msg' ∈ queue := by
  obtain ⟨hqueue, hlinked⟩ := pop_eq_some.mp hpop
  intro msg' hmsg'
  have hmem := h.linking msg' hmsg'
  rw [hqueue, List.mem_cons] at hmem
  refine hmem.resolve_left ?_
  rintro rfl
  exact hlinked hmsg'

lemma Inv.takes (h : s.Inv size) {queue : List ℕ} (hw : s.writer = .receiving ∨ s.writer = .woken)
    (hpop : s.pop = some (msg, queue)) :
    Inv size { s with queue := queue, writer := .received msg } := by
  have hqueue := (pop_eq_some.mp hpop).1
  have hheld : s.writer.held = [] := by rcases hw with hw | hw <;> rw [hw] <;> rfl
  have htaken : s.writer.taken = [] := by rcases hw with hw | hw <;> rw [hw] <;> rfl
  have hperm : (s.free ++ inUse { s with queue := queue, writer := .received msg }).Perm
      (s.free ++ s.inUse) := by
    rw [List.perm_iff_count]
    intro x
    rw [inUse, inUse, hheld, hqueue]
    simp only [WriterPlace.held, List.count_append, List.count_cons, List.count_nil]
    omega
  have hsame : unhandled { s with queue := queue, writer := .received msg } = s.unhandled := by
    rw [unhandled, unhandled, htaken, hqueue]
    rfl
  refine ⟨(h.of_perm hperm).1, (h.of_perm hperm).2, h.small, h.linking_pop hpop, h.filled,
    hsame ▸ h.order, ?_, ?_⟩
  · intro _
    exact h.dropped (by rcases hw with hw | hw <;> simp [hw])
  · intro hended
    cases hended

lemma Inv.recv (h : s.Inv size) (ht : s.recv = some t) : t.Inv size := by
  rw [Pipeline.recv.eq_def] at ht
  split at ht
  · next msg queue hw hpop =>
    obtain rfl := Option.some.inj ht
    exact h.takes (Or.inl hw) hpop
  · next msg queue hw hpop =>
    obtain rfl := Option.some.inj ht
    exact h.takes (Or.inr hw) hpop
  · next hw hpop =>
    obtain rfl := Option.some.inj ht
    exact h.place hw .empty rfl rfl nofun nofun s.timed
  · next hw hpop =>
    obtain rfl := Option.some.inj ht
    exact h.place hw .checking rfl rfl nofun nofun s.timed
  · cases ht

lemma Inv.loop (h : s.Inv size) (ht : s.loop = some t) : t.Inv size := by
  rw [Pipeline.loop] at ht
  split at ht
  · next hw =>
    obtain rfl := Option.some.inj ht
    by_cases hstop : s.stopping = true
    · rw [if_pos hstop]
      exact h.place hw .ended rfl rfl nofun (fun _ => hstop) s.timed
    · rw [if_neg hstop]
      exact h.place hw .receiving rfl rfl nofun nofun s.timed
  · cases ht

lemma Inv.sleep (h : s.Inv size) (ht : s.sleep = some t) : t.Inv size := by
  rw [Pipeline.sleep] at ht
  split at ht
  · next hw =>
    obtain rfl := Option.some.inj ht
    exact h.place hw .sleeping rfl rfl nofun nofun s.timed
  · cases ht

lemma Inv.wake (h : s.Inv size) : s.wake.Inv size := by
  rw [Pipeline.wake]
  split
  · next hw => exact h.place hw .woken rfl rfl nofun nofun s.timed
  · exact h

lemma Inv.notify (h : s.Inv size) (ht : s.notify = some t) : t.Inv size := by
  rw [Pipeline.notify] at ht
  split at ht
  · cases ht
  · obtain rfl := Option.some.inj ht
    exact h.wake.moves rfl rfl id id Or.inl _ _ _

lemma Inv.returned (h : s.Inv size) (ht : s.returned = some t) : t.Inv size := by
  obtain ⟨msg, -, rfl⟩ := Option.map_eq_some_iff.mp ht
  exact ⟨h.nodup, h.owned, h.small, h.linking, h.filled, h.order, h.dropped, h.stopped⟩

lemma Inv.check (h : s.Inv size) (ht : s.check = some t) : t.Inv size := by
  rw [Pipeline.check.eq_def] at ht
  split at ht
  · next hw _ =>
    obtain rfl := Option.some.inj ht
    exact h.place hw .head rfl rfl nofun nofun _
  · cases ht

lemma Inv.handle (h : s.Inv size) (ht : s.handle = some t) : t.Inv size := by
  rw [Pipeline.handle] at ht
  split at ht
  · next msg hw =>
    obtain rfl := Option.some.inj ht
    have hdropped := h.dropped (by simp [hw])
    have huse : inUse { s with
        writer := .handled msg
        delivered := s.delivered ++ (s.record msg).call.toList } = s.inUse := by
      simp only [inUse, hw, WriterPlace.held]
    refine ⟨huse ▸ h.nodup, huse ▸ h.owned, h.small, h.linking, h.filled, ?_, fun _ => hdropped, nofun⟩
    obtain ⟨pending, hsent, hpending⟩ := h.order
    simp only [unhandled, hw, WriterPlace.taken, List.singleton_append, List.map_cons] at hpending
    obtain ⟨call, rest, rfl, hcall, hrest⟩ := List.map_eq_cons_iff.mp hpending.symm
    refine ⟨rest, ?_, hrest.symm⟩
    rw [hsent, hdropped, ← hcall]
    simp
  · cases ht

lemma Inv.releaseMessage (h : s.Inv size) (queue : List ℕ) (writer : WriterPlace)
    (dropped : List (LogCall H)) (hmsg : msg ∈ s.queue ++ s.writer.held)
    (hperm : s.inUse.Perm (msg :: inUse { s with queue := queue, writer := writer }))
    (hlinking : ∀ msg' ∈ s.linking, msg' ∈ queue)
    (horder : ∃ pending, s.sent = s.delivered ++ dropped ++ pending ∧
      (unhandled { s with queue := queue, writer := writer }).map (fun msg => (s.record msg).call) =
        pending.map some)
    (hdropped : writer ≠ .ended → dropped = []) (hstopped : writer = .ended → s.stopping = true) :
    Inv size { s.releaseMessage size msg with
      queue := queue
      writer := writer
      dropped := dropped } := by
  have hnodup : (s.free ++ msg :: inUse { s with queue := queue, writer := writer }).Nodup :=
    (hperm.append_left s.free).nodup_iff.mp h.nodup
  have howned : ∀ msg' < size, msg' ∈ s.free ++ msg :: inUse { s with queue := queue, writer := writer } :=
    fun msg' hmsg' => (hperm.append_left s.free).mem_iff.mp (h.owned msg' hmsg')
  have hother : msg ∉ inUse { s with queue := queue, writer := writer } :=
    (List.nodup_cons.mp (List.nodup_append'.mp hnodup).2.1).1
  have hplaces : (s.releaseMessage size msg).free ++ inUse { s with queue := queue, writer := writer } =
      if msg < size then s.free ++ msg :: inUse { s with queue := queue, writer := writer }
      else s.free ++ inUse { s with queue := queue, writer := writer } := by
    rw [Pipeline.releaseMessage]
    split_ifs <;> simp
  refine ⟨?_, ?_, ?_, hlinking, ?_, ?_, hdropped, hstopped⟩
  · show ((s.releaseMessage size msg).free ++ inUse { s with queue := queue, writer := writer }).Nodup
    rw [hplaces]
    split_ifs
    · exact hnodup
    · exact hnodup.sublist ((List.Sublist.refl _).append (List.sublist_cons_self _ _))
  · show ∀ msg' < size, msg' ∈ (s.releaseMessage size msg).free ++
      inUse { s with queue := queue, writer := writer }
    rw [hplaces]
    intro msg' hmsg'
    have hmem := howned msg' hmsg'
    split_ifs with hlt
    · exact hmem
    · rw [List.mem_append, List.mem_cons] at hmem
      rw [List.mem_append]
      have hne : msg' ≠ msg := by
        rintro rfl
        exact hlt hmsg'
      tauto
  · intro msg' hmsg'
    simp only [Pipeline.releaseMessage] at hmsg'
    split_ifs at hmsg' with hlt
    · obtain hmsg' | hmsg' := List.mem_append.mp hmsg'
      · exact h.small msg' hmsg'
      · rw [List.mem_singleton.mp hmsg']
        exact hlt
    · exact h.small msg' hmsg'
  · intro c hc hfilled
    simp only [Pipeline.releaseMessage]
    rw [Function.update_of_ne (h.apart hc hmsg).symm]
    exact h.filled c hc hfilled
  · obtain ⟨pending, hsent, hpending⟩ := horder
    refine ⟨pending, hsent, ?_⟩
    rw [← hpending]
    apply List.map_congr_left
    intro msg' hmsg'
    have hne : msg' ≠ msg := by
      rintro rfl
      apply hother
      rw [inUse, List.append_assoc]
      exact List.mem_append_right _ (unhandled_subset hmsg')
    simp only [Pipeline.releaseMessage]
    rw [Function.update_of_ne hne]

lemma Inv.release (h : s.Inv size) (ht : s.release size = some t) : t.Inv size := by
  rw [Pipeline.release] at ht
  split at ht
  · next msg hw =>
    obtain rfl := Option.some.inj ht
    refine h.releaseMessage s.queue .checking s.dropped ?_ ?_ h.linking ?_ ?_ nofun
    · simp [hw, WriterPlace.held]
    · rw [List.perm_iff_count]
      intro x
      simp only [inUse, hw, WriterPlace.held, List.count_append, List.count_cons, List.count_nil]
      omega
    · obtain ⟨pending, hsent, hpending⟩ := h.order
      refine ⟨pending, hsent, ?_⟩
      rw [← hpending, unhandled, unhandled, hw]
      rfl
    · intro _
      exact h.dropped (by simp [hw])
  · cases ht

lemma Inv.drain (h : s.Inv size) (ht : s.drain size = some t) : t.Inv size := by
  rw [Pipeline.drain.eq_def] at ht
  split at ht
  · next msg queue hw _ hpop =>
    obtain rfl := Option.some.inj ht
    have hqueue := (pop_eq_some.mp hpop).1
    refine h.releaseMessage queue s.writer (s.dropped ++ (s.record msg).call.toList) ?_ ?_
      (h.linking_pop hpop) ?_ ?_ h.stopped
    · simp [hqueue]
    · rw [List.perm_iff_count]
      intro x
      simp only [inUse, hw, hqueue, WriterPlace.held, List.count_append, List.count_cons,
        List.count_nil]
      omega
    · obtain ⟨pending, hsent, hpending⟩ := h.order
      simp only [unhandled, hw, WriterPlace.taken, hqueue, List.nil_append, List.map_cons] at hpending
      obtain ⟨call, rest, rfl, hcall, hrest⟩ := List.map_eq_cons_iff.mp hpending.symm
      refine ⟨rest, ?_, ?_⟩
      · rw [hsent, ← hcall]
        simp
      · rw [hrest, unhandled, hw]
        rfl
    · intro hended
      exact absurd hw hended
  · cases ht

lemma step_inv (h : s.Inv size) (ht : s.step size a = some t) : t.Inv size := by
  cases a with
  | newMessage call address => exact h.newMessage ht
  | fill k => exact h.fill ht
  | send k => exact h.send ht
  | link k => exact h.link ht
  | setFlushInterval seconds =>
    obtain rfl := Option.some.inj ht
    rw [setFlushInterval]
    split
    · exact h.moves rfl rfl id id Or.inl _ _ _
    · exact h
  | requestStop =>
    obtain rfl := Option.some.inj ht
    exact h.moves rfl rfl id (fun _ => rfl) Or.inl _ _ _
  | notify => exact h.notify ht
  | loop => exact h.loop ht
  | recv => exact h.recv ht
  | sleep => exact h.sleep ht
  | wake => exact Option.some.inj ht ▸ h.wake
  | handle => exact h.handle ht
  | release => exact h.release ht
  | returned => exact h.returned ht
  | check => exact h.check ht
  | drain => exact h.drain ht

lemma reachable_inv (h : (machine size record).Reachable s) : s.Inv size := by
  apply Machine.reachable_invariant (M := machine size record) _ (fun s a t hs ht => step_inv hs ht) h
  refine ⟨?_, ?_, ?_, nofun, nofun, ⟨[], rfl, rfl⟩, fun _ => rfl, nofun⟩
  · simpa [machine, inUse, WriterPlace.held] using List.nodup_range
  · intro msg hmsg
    exact List.mem_append_left _ (List.mem_range.mpr hmsg)
  · intro msg hmsg
    exact List.mem_range.mp hmsg

/-- What the writer thread does next when the other threads do nothing. -/
def next (s : Pipeline H) : Option (Action H) :=
  match s.writer with
  | .head => some .loop
  | .receiving | .woken => some .recv
  | .empty => some .sleep
  | .sleeping => if s.timed then some .wake else none
  | .received _ => some .handle
  | .handled _ => some .release
  | .checking => some (if s.returning = none then .check else .returned)
  | .ended => none

def advance (size : ℕ) (s : Pipeline H) : Pipeline H :=
  (s.next.bind (s.step size)).getD s

/-- A wait without an end, or the way to it, and messages in the queue. -/
def Asleep (s : Pipeline H) : Prop :=
  s.timed = false ∧ (s.writer = .empty ∨ s.writer = .sleeping) ∧ s.queue ≠ []

/-- The most that a pass needs until it has taken the next message. -/
def rank (s : Pipeline H) : ℕ :=
  9 * s.queue.length + match s.writer with
    | .received _ => 8
    | .handled _ => 7
    | .checking => if s.returning = none then 5 else 6
    | .empty => 4
    | .sleeping => 3
    | .woken => 2
    | .head => 1
    | _ => 0

structure Working (size : ℕ) (s : Pipeline H) : Prop where
  inv : s.Inv size
  linked : s.linking = []
  awake : ¬s.Asleep
  going : s.stopping = false

lemma Working.not_ended (h : s.Working size) : s.writer ≠ .ended := by
  intro hw
  exact Bool.false_ne_true (h.going.symm.trans (h.inv.stopped hw))

lemma inv_advance (h : s.Inv size) : (s.advance size).Inv size := by
  rw [advance]
  cases ht : s.next.bind (s.step size) with
  | none => exact h
  | some t =>
    obtain ⟨a, -, ht⟩ := Option.bind_eq_some_iff.mp ht
    exact step_inv h ht

lemma advance_same (size : ℕ) (s : Pipeline H) : (s.advance size).linking = s.linking ∧
    (s.advance size).sent = s.sent ∧ (s.advance size).stopping = s.stopping := by
  obtain ⟨free, returning, record, calls, queue, linking, notifying, interval, timed, writer, stopping,
    sent, delivered, dropped⟩ := s
  rw [advance, next]
  cases writer with
  | receiving =>
    simp only [Option.bind_some, step, recv]
    split <;> simp
  | woken =>
    simp only [Option.bind_some, step, recv]
    split <;> simp
  | sleeping => cases timed <;> simp [step, wake]
  | checking => cases returning <;> simp [step, check, returned]
  | _ => simp [step, loop, sleep, handle, release, releaseMessage]

lemma advance_spec (h : s.Working size) : (s.advance size).Working size ∧
    (s.unhandled ≠ [] → (s.advance size).rank + 1 ≤ s.rank) ∧
    (s.unhandled = [] → (s.advance size).unhandled = []) := by
  have hended := h.not_ended
  obtain ⟨hinv, hlinked, hawake, hgoing⟩ := h
  obtain ⟨hlinking, -, hstopping⟩ := advance_same size s
  suffices hkept : ¬(s.advance size).Asleep ∧
      (s.unhandled ≠ [] → (s.advance size).rank + 1 ≤ s.rank) ∧
      (s.unhandled = [] → (s.advance size).unhandled = []) from
    ⟨⟨inv_advance hinv, hlinking.trans hlinked, hkept.1, hstopping.trans hgoing⟩, hkept.2⟩
  clear hlinking hstopping
  obtain ⟨free, returning, record, calls, queue, linking, notifying, interval, timed, writer, stopping,
    sent, delivered, dropped⟩ := s
  obtain rfl : linking = [] := hlinked
  cases writer with
  | ended => exact absurd rfl hended
  | head =>
    obtain rfl : stopping = false := hgoing
    simp [advance, next, step, loop, Asleep, rank, unhandled, WriterPlace.taken]
  | receiving =>
    cases queue <;> simp [advance, next, step, recv, pop, Asleep, rank, unhandled, WriterPlace.taken]
    omega
  | empty =>
    simp [advance, next, step, sleep, Asleep, rank, unhandled, WriterPlace.taken] at hawake ⊢
    exact hawake
  | sleeping =>
    cases timed <;>
      simp_all [advance, next, step, wake, Asleep, rank, unhandled, WriterPlace.taken]
  | woken =>
    cases queue <;> simp [advance, next, step, recv, pop, Asleep, rank, unhandled, WriterPlace.taken]
    omega
  | received msg =>
    simp [advance, next, step, handle, Asleep, rank, unhandled, WriterPlace.taken]
  | handled msg =>
    simp [advance, next, step, release, releaseMessage, Asleep, rank, unhandled, WriterPlace.taken]
    split <;> omega
  | checking =>
    cases returning <;>
      simp [advance, next, step, check, returned, Asleep, rank, unhandled, WriterPlace.taken]

lemma Inv.delivered_eq (h : s.Inv size) (hw : s.writer ≠ .ended) :
    s.delivered = s.sent ↔ s.unhandled = [] := by
  obtain ⟨pending, hsent, hpending⟩ := h.order
  rw [hsent, h.dropped hw, List.append_nil]
  constructor
  · intro hnone
    have hnil : pending = [] := by simpa using hnone
    rw [hnil, List.map_nil] at hpending
    exact List.map_eq_nil_iff.mp hpending
  · intro hnone
    rw [hnone, List.map_nil] at hpending
    rw [List.map_eq_nil_iff.mp hpending.symm, List.append_nil]

lemma advance_all {n : ℕ} (h : s.Working size) (hn : s.unhandled = [] ∨ s.rank ≤ n) :
    ((advance size)^[n] s).delivered = s.sent := by
  induction n generalizing s with
  | zero =>
    refine (h.inv.delivered_eq h.not_ended).mpr (hn.elim id fun hrank => ?_)
    by_contra hmore
    have hless := (advance_spec h).2.1 hmore
    omega
  | succ n ih =>
    obtain ⟨hworking, hless, hdone⟩ := advance_spec h
    rw [Function.iterate_succ_apply, ← (advance_same size s).2.1]
    refine ih hworking ?_
    by_cases hnone : s.unhandled = []
    · exact Or.inl (hdone hnone)
    · have hrank := hless hnone
      right
      have := hn.resolve_left hnone
      omega

lemma advance_asleep {n : ℕ} (h : s.Asleep) :
    ((advance size)^[n] s).delivered = s.delivered := by
  induction n generalizing s with
  | zero => rfl
  | succ n ih =>
    obtain ⟨htimed, hw, hqueue⟩ := h
    rw [Function.iterate_succ_apply]
    rcases hw with hw | hw
    · have hnext : s.advance size = { s with writer := .sleeping } := by
        simp [advance, next, step, sleep, hw]
      rw [hnext]
      exact ih ⟨htimed, Or.inr rfl, hqueue⟩
    · have hnext : s.advance size = s := by
        simp [advance, next, hw, htimed]
      rw [hnext]
      exact ih ⟨htimed, Or.inr hw, hqueue⟩

lemma advance_linking {n : ℕ} (h : s.Inv size) (hgoing : s.stopping = false)
    (hall : ((advance size)^[n] s).delivered = s.sent) : s.linking = [] := by
  induction n generalizing s with
  | zero =>
    have hw : s.writer ≠ .ended := fun hw => Bool.false_ne_true (hgoing.symm.trans (h.stopped hw))
    have hqueue := (List.append_eq_nil_iff.mp ((h.delivered_eq hw).mp hall)).2
    refine List.eq_nil_iff_forall_not_mem.mpr fun msg hmsg => ?_
    have hmem := h.linking msg hmsg
    rw [hqueue] at hmem
    cases hmem
  | succ n ih =>
    obtain ⟨hlinking, hsent, hstopping⟩ := advance_same size s
    rw [Function.iterate_succ_apply, ← hsent] at hall
    rw [← hlinking]
    exact ih (inv_advance h) (hstopping.trans hgoing) hall

/-- The writer thread does what the calls asked for, once each and in the order in which they were
sent, although the objects that carry them are used again and again. No object is ever in two places
and none of the pool is lost; with nothing under way all of them are back. Left alone before it is
asked to stop, the writer delivers everything, unless a message in the queue is not linked yet, or the
writer waits without an end with a message in the queue, whose notification it has missed. -/
theorem messages_delivered (h : (machine size record).Reachable s) :
    (∃ pending, s.sent = s.delivered ++ s.dropped ++ pending ∧
      s.unhandled.map (fun msg => (s.record msg).call) = pending.map some) ∧
    (s.writer ≠ .ended → s.dropped = []) ∧
    (s.free ++ s.inUse).Nodup ∧ (∀ msg < size, msg ∈ s.free ++ s.inUse) ∧
    (s.inUse = [] → s.free.Perm (List.range size)) ∧
    (s.stopping = false → ((∀ n, 9 * s.queue.length + 8 ≤ n →
      ((advance size)^[n] s).delivered = s.sent) ↔ s.linking = [] ∧ ¬s.Asleep)) := by
  have hinv := reachable_inv h
  refine ⟨hinv.order, hinv.dropped, hinv.nodup, hinv.owned, ?_, ?_⟩
  · intro hnone
    have hnodup := hinv.nodup
    have howned := hinv.owned
    rw [hnone, List.append_nil] at hnodup howned
    apply (List.perm_ext_iff_of_nodup hnodup List.nodup_range).mpr
    intro msg
    rw [List.mem_range]
    exact ⟨hinv.small msg, howned msg⟩
  · intro hgoing
    have hended : s.writer ≠ .ended :=
      fun hw => Bool.false_ne_true (hgoing.symm.trans (hinv.stopped hw))
    constructor
    · intro hall
      have hdelivered := hall _ le_rfl
      refine ⟨advance_linking hinv hgoing hdelivered, ?_⟩
      intro hasleep
      rw [advance_asleep hasleep, hinv.delivered_eq hended] at hdelivered
      exact hasleep.2.2 (List.append_eq_nil_iff.mp hdelivered).2
    · rintro ⟨hlinked, hawake⟩ n hn
      refine advance_all ⟨hinv, hlinked, hawake, hgoing⟩ (Or.inr (le_trans ?_ hn))
      rw [rank]
      split
      case h_3 => split <;> omega
      all_goals omega

/-- A pool of one object and two calls that overlap; and a writer that goes to sleep for good behind a
call's notification, which the default flush interval would not let it. -/
theorem messages_delivered_two :
    (∃ s : Pipeline Unit, (machine 1 fun _ => { head := () }).Reachable s ∧ s.queue = [7, 0] ∧
      ((advance 1)^[26] s).delivered =
        [.flush ⟨2, "b", true, []⟩, .log ⟨1, "a", true, []⟩ () [65]]) ∧
    ∃ s : Pipeline Unit, (machine 1 fun _ => { head := () }).Reachable s ∧ s.queue = [0] ∧
      s.notifying = 0 ∧ s.linking = [] ∧
      ¬∀ n, 17 ≤ n → ((advance 1)^[n] s).delivered = s.sent := by
  constructor
  · have hreachable : (machine 1 fun _ => ({ head := () } : LogRecord Unit)).Reachable _ :=
      ⟨[.newMessage (.log ⟨1, "a", true, []⟩ () [65]) 0, .newMessage (.flush ⟨2, "b", true, []⟩) 7,
        .fill 1, .fill 0, .send 1, .send 0, .link 1, .link 0], rfl⟩
    refine ⟨_, hreachable, rfl, ?_⟩
    exact ((messages_delivered hreachable).2.2.2.2.2 rfl).mpr ⟨rfl, fun h => by cases h.1⟩ 26
      (by decide)
  · have hreachable : (machine 1 fun _ => ({ head := () } : LogRecord Unit)).Reachable _ :=
      ⟨[.setFlushInterval 0, .notify, .check, .loop, .recv,
        .newMessage (.log ⟨1, "a", true, []⟩ () [65]) 0, .fill 0, .send 0, .link 0, .notify, .sleep], rfl⟩
    refine ⟨_, hreachable, rfl, rfl, rfl, fun hall => ?_⟩
    exact (((messages_delivered hreachable).2.2.2.2.2 rfl).mp hall).2 ⟨rfl, Or.inr rfl, nofun⟩

end Pipeline

end Simple.Log
