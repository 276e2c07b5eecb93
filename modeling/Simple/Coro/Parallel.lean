import Simple.Lib.Machine

/-! `when_ready`: a coroutine that starts any number of children and waits for all of them. What the
children do is left to the run: a child that runs may suspend or complete, one that is suspended may
be resumed, and the token of the awaiting coroutine may be cancelled, at any moment and also inside
of a `notify`, whose decrement is a step of its own. -/

namespace Simple.Coro

open Simple.Lib

inductive WaitType
  | all
  | one
  | oneFail
  | oneSucc
deriving DecidableEq

/-- Whether a completion makes `notify` request the cancellation of the others. -/
def WaitType.fires : WaitType → Bool → Bool
  | .all, _ => false
  | .one, _ => true
  | .oneFail, failed => failed
  | .oneSucc, failed => !failed

structure ParallelCounter where
  count : ℕ
  type : WaitType
  cancelled : Bool := false
  handle : Bool := false
  index : ℕ := 0

/-- `throwing` is a child that found the token of the counter cancelled when it was started. A child
suspended in a cancellable awaiter is registered on that token, and `woken` is whether the callback
of its registration has run. -/
inductive Child
  | unstarted
  | running
  | throwing
  | suspended (cancellable woken : Bool)
  | finished (index : ℕ) (failed : Bool)
deriving DecidableEq

def Child.wake : Child → Child
  | .suspended true _ => .suspended true true
  | c => c

def Child.isFinished : Child → Bool
  | .finished _ _ => true
  | _ => false

def Child.getIndex : Child → ℕ
  | .finished index _ => index
  | _ => 2 ^ 64 - 1

/-- Where the awaiting coroutine is; `canceled` is the early return of `await_suspend`. -/
inductive Await
  | ready
  | starting (next : ℕ)
  | suspended
  | continued
  | canceled
deriving DecidableEq

/-- `order` lists the children in the order of their completions, `notifying` those whose `notify`
has still to decrement the count, `requested` is whether the callback on the token of the awaiting
coroutine has run, `null` whether a null handle was resumed. -/
structure WhenReady where
  size : ℕ
  tuple : Bool
  counter : ParallelCounter
  child : ℕ → Child := fun _ => .unstarted
  await : Await := .ready
  token : Bool
  tokenCancelled : Bool := false
  registered : Bool := false
  requested : Bool := false
  resumed : ℕ := 0
  null : Bool := false
  notifying : List ℕ := []
  order : List ℕ := []

namespace WhenReady

def requestCancellation (s : WhenReady) : WhenReady :=
  if s.counter.cancelled then s
  else { s with
    counter := { s.counter with cancelled := true }
    child := fun i => (s.child i).wake }

/-- The awaiting coroutine goes on with `await_resume`. -/
def goOn (s : WhenReady) (await : Await) : WhenReady :=
  { s with await := await, registered := false, resumed := s.resumed + 1 }

def awaitSuspend (s : WhenReady) : WhenReady :=
  if s.tuple = true ∧ s.size = 0 then s.goOn .continued
  else if s.tokenCancelled then s.goOn .canceled
  else { s with await := .starting 0 }

/-- `start`, up to where the body of `make_parallel_task` has looked at its token. -/
def start (s : WhenReady) (i : ℕ) : WhenReady :=
  { s with
    child := Function.update s.child i (if s.counter.cancelled then .throwing else .running)
    await := .starting (i + 1) }

/-- `counter_.try_await` and the rest of `await_suspend`. -/
def tryAwait (s : WhenReady) : WhenReady :=
  let ret := decide (s.counter.count > 1)
  let s := { s with counter := { s.counter with handle := true, count := s.counter.count - 1 } }
  if ret then { s with await := .suspended, registered := s.token && !s.tokenCancelled }
  else s.goOn .continued

/-- `final_suspend`, up to the decrement of `notify`. -/
def complete (s : WhenReady) (i : ℕ) (failed : Bool) : WhenReady :=
  let s := { s with
    child := Function.update s.child i (.finished s.counter.index failed)
    counter := { s.counter with index := s.counter.index + 1 }
    order := s.order ++ [i] }
  let s := if s.counter.type.fires failed then s.requestCancellation else s
  { s with notifying := i :: s.notifying }

def decrement (s : WhenReady) (notifying : List ℕ) : WhenReady :=
  let last := decide (s.counter.count = 1)
  let s := { s with
    notifying := notifying
    counter := { s.counter with count := s.counter.count - 1 } }
  if last then
    if s.counter.handle then s.goOn .continued else { s with null := true }
  else s

def cancelToken (s : WhenReady) : WhenReady :=
  if s.tokenCancelled then s
  else
    let s := { s with tokenCancelled := true }
    if s.registered then { s.requestCancellation with registered := false, requested := true } else s

/-- No child is in the middle of its body, and no `notify` is going on. -/
def Quiet (s : WhenReady) : Prop :=
  s.notifying = [] ∧ ∀ i < s.size, s.child i ≠ .running ∧ s.child i ≠ .throwing

instance (s : WhenReady) : Decidable s.Quiet := inferInstanceAs (Decidable (_ ∧ _))

inductive Action
  | await
  | start
  | tryAwait
  | suspend (i : ℕ) (cancellable : Bool)
  | resume (i : ℕ)
  | complete (i : ℕ) (failed : Bool)
  | decrement
  | cancel
deriving DecidableEq

/-- An awaiter that can be cancelled does not suspend on a cancelled token. -/
def step (s : WhenReady) : Action → Option WhenReady
  | .await => if s.await = .ready then some s.awaitSuspend else none
  | .start =>
    match s.await with
    | .starting i => if i < s.size ∧ s.Quiet then some (s.start i) else none
    | _ => none
  | .tryAwait =>
    if s.await = .starting s.size ∧ s.Quiet then some s.tryAwait else none
  | .suspend i cancellable =>
    if s.child i = .running ∧ (cancellable = true → s.counter.cancelled = false) then
      some { s with child := Function.update s.child i (.suspended cancellable false) }
    else none
  | .resume i =>
    match s.child i with
    | .suspended _ _ => some { s with child := Function.update s.child i .running }
    | _ => none
  | .complete i failed =>
    match s.child i with
    | .running => some (s.complete i failed)
    | .throwing => if failed then some (s.complete i true) else none
    | _ => none
  | .decrement =>
    match s.notifying with
    | [] => none
    | _ :: notifying => some (s.decrement notifying)
  | .cancel => if s.token then some s.cancelToken else none

/-- `when_ready(tp, ...)` on `size` children in a tuple or in a container, awaited by a coroutine
with or without a token. -/
def machine (type : WaitType) (size : ℕ) (tuple token : Bool) : Machine WhenReady Action where
  initial :=
    { size := size, tuple := tuple, counter := { count := size + 1, type := type }, token := token }
  step := step

end WhenReady

end Simple.Coro
