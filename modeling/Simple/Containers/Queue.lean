import Simple.Lib.Gapped
import Simple.Lib.Machine

/-! `mpsc_queue` with any number of producers and one consumer: every access to a field that they
share is one step of whoever makes it. -/

namespace Simple.Containers

open Simple.Lib

/-- A node that was pushed, or `stub_`. -/
inductive QueueNode (N : Type)
  | stub
  | user (n : N)
deriving DecidableEq

structure MpscQueue (N : Type) where
  head : QueueNode N := .stub
  tail : QueueNode N := .stub
  next : QueueNode N → Option (QueueNode N)
  size : UInt64 := 0

/-- What a call of `push` does next. -/
inductive Push (N : Type)
  | idle
  | count (n : N)
  | clear (n : N)
  | exchange (n : N)
  | link (n : N) (prev : QueueNode N)
  | ret (n : N) (first : Bool)

/-- What a call of `pop` or `pop_and_check_end` does next. Only the consumer uses `tail_`, so it is
read and written together with what comes before or after. -/
inductive Pop (N : Type)
  | idle
  | first
  | second
  | check
  | clear
  | exchange
  | link (prev : QueueNode N)
  | last
  | count (n : QueueNode N)

/-- `again` is whether the consumer has called `pop`; `answer` is what its last call has returned,
and `empty` with it. `calls`, `counted` and `order` list the calls of `push`, their additions to `size_` and their
exchanges, `popped` what the consumer's calls have returned. -/
structure Mpsc (P N : Type) where
  queue : MpscQueue N
  producers : P → Push N := fun _ => .idle
  consumer : Pop N := .idle
  again : Bool := false
  answer : Option (Option (QueueNode N) × Bool) := none
  calls : List (P × N) := []
  counted : List N := []
  order : List (P × N) := []
  popped : List (QueueNode N) := []
  returned : List (N × Bool) := []

namespace Mpsc

variable {P N : Type} [DecidableEq P] [DecidableEq N]

def store (s : Mpsc P N) (n : QueueNode N) (v : Option (QueueNode N)) : Mpsc P N :=
  { s with queue := { s.queue with next := Function.update s.queue.next n v } }

def exchange (s : Mpsc P N) (n : QueueNode N) : Mpsc P N :=
  { s with queue := { s.queue with head := n } }

def setTail (s : Mpsc P N) (n : QueueNode N) : Mpsc P N :=
  { s with queue := { s.queue with tail := n } }

def goOn (s : Mpsc P N) (p : P) (pc : Push N) : Mpsc P N :=
  { s with producers := Function.update s.producers p pc }

def turn (s : Mpsc P N) (pc : Pop N) : Mpsc P N := { s with consumer := pc }

def answered (s : Mpsc P N) (n : Option (QueueNode N)) (empty : Bool) : Mpsc P N :=
  { s with consumer := .idle, answer := some (n, empty) }

omit [DecidableEq P] in
@[simp] lemma store_next (s : Mpsc P N) (n a : QueueNode N) (v : Option (QueueNode N)) :
    (s.store n v).queue.next a = if a = n then v else s.queue.next a := Function.update_apply ..

omit [DecidableEq N] in
@[simp] lemma goOn_queue (s : Mpsc P N) (p : P) (pc : Push N) : (s.goOn p pc).queue = s.queue := rfl

omit [DecidableEq N] in
@[simp] lemma goOn_producers (s : Mpsc P N) (p q : P) (pc : Push N) :
    (s.goOn p pc).producers q = if q = p then pc else s.producers q := Function.update_apply ..

def produce (s : Mpsc P N) (p : P) : Push N → Option (Mpsc P N)
  | .idle => none
  | .count n =>
    some ({ s with
      queue := { s.queue with size := s.queue.size + 1 }
      counted := s.counted ++ [n] }.goOn p (.clear n))
  | .clear n => some ((s.store (.user n) none).goOn p (.exchange n))
  | .exchange n =>
    some ({ s.exchange (.user n) with order := s.order ++ [(p, n)] }.goOn p (.link n s.queue.head))
  | .link n prev => some ((s.store prev (some (.user n))).goOn p (.ret n (prev = .stub)))
  | .ret n first => some ({ s with returned := s.returned ++ [(n, first)] }.goOn p .idle)

def take (s : Mpsc P N) (next : QueueNode N) : Mpsc P N :=
  (s.setTail next).turn (.count s.queue.tail)

/-- A null pointer is returned although the queue is not empty, on which `pop` tries again. -/
def retry (s : Mpsc P N) : Mpsc P N := if s.again then s.turn .first else s.answered none false

def consume (s : Mpsc P N) : Option (Mpsc P N) :=
  match s.consumer with
  | .idle => none
  | .first =>
    match s.queue.next s.queue.tail with
    | none => if s.queue.tail = .stub then some (s.answered none true) else some (s.turn .check)
    | some next =>
      if s.queue.tail = .stub then some ((s.setTail next).turn .second) else some (s.take next)
  | .second =>
    match s.queue.next s.queue.tail with
    | none => some (s.turn .check)
    | some next => some (s.take next)
  | .check => if s.queue.tail ≠ s.queue.head then some s.retry else some (s.turn .clear)
  | .clear => some ((s.store .stub none).turn .exchange)
  | .exchange => some ((s.exchange .stub).turn (.link s.queue.head))
  | .link prev => some ((s.store prev (some .stub)).turn .last)
  | .last =>
    match s.queue.next s.queue.tail with
    | none => some s.retry
    | some next => some (s.take next)
  | .count n =>
    some { (s.answered (some n) false) with
      queue := { s.queue with size := s.queue.size - 1 }
      popped := s.popped ++ [n] }

inductive Action (P N : Type)
  | push (p : P) (n : N)
  | produce (p : P)
  | pop
  | popAndCheckEnd
  | consume

def step (s : Mpsc P N) : Action P N → Option (Mpsc P N)
  | .push p n =>
    match s.producers p with
    | .idle =>
      if n ∈ s.calls.map Prod.snd then none
      else some ({ s with calls := s.calls ++ [(p, n)] }.goOn p (.count n))
    | _ => none
  | .produce p => s.produce p (s.producers p)
  | .pop =>
    match s.consumer with
    | .idle => some { s with consumer := .first, again := true, answer := none }
    | _ => none
  | .popAndCheckEnd =>
    match s.consumer with
    | .idle => some { s with consumer := .first, again := false, answer := none }
    | _ => none
  | .consume => s.consume

/-- Nodes may hold anything in `next` before they are pushed. -/
def initialNext (next : N → Option (QueueNode N)) : QueueNode N → Option (QueueNode N)
  | .stub => none
  | .user n => next n

def machine (P : Type) [DecidableEq P] (next : N → Option (QueueNode N)) :
    Machine (Mpsc P N) (Action P N) where
  initial := { queue := { next := initialNext next } }
  step := step

end Mpsc

end Simple.Containers
