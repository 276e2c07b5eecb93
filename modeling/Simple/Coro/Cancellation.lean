import Simple.Lib.Intrusive
import Simple.Lib.Machine

/-! One `cancellation_state` with the registrations on it. A registration is a number that is not
used twice; what the callbacks do is left to the run, which may construct and destroy registrations
and request the cancellation again at any moment. -/

namespace Simple.Coro

open Simple.Lib

/-- A call of `callback_`, with whether the registration was alive then. -/
structure Call where
  registration : ℕ
  alive : Bool
deriving DecidableEq

/-- `bound` is whether `state_` of a registration is set, `running` the registration whose callback
the loop of `request_cancellation` is in, `stray` whether a pointer of a registration that is not
alive was read or written; `known` and `registered` are those constructed so far, and those of them
that were put on the list. -/
structure Cancellation where
  cancelled : Bool := false
  registrations : Option ℕ := none
  next : ℕ → Option ℕ := fun _ => none
  prev : ℕ → Option ℕ := fun _ => none
  bound : ℕ → Bool := fun _ => false
  alive : ℕ → Bool := fun _ => false
  running : Option ℕ := none
  calls : List Call := []
  stray : Bool := false
  known : List ℕ := []
  registered : List ℕ := []

namespace Cancellation

def access (s : Cancellation) (r : ℕ) : Cancellation :=
  { s with stray := s.stray || !s.alive r }

def setNext (s : Cancellation) (r : ℕ) (n : Option ℕ) : Cancellation :=
  { s.access r with next := Function.update s.next r n }

def setPrev (s : Cancellation) (r : ℕ) (p : Option ℕ) : Cancellation :=
  { s.access r with prev := Function.update s.prev r p }

def registerCallback (s : Cancellation) (r : ℕ) : Cancellation :=
  if s.cancelled then s
  else
    let s := s.access r
    if s.prev r ≠ none ∨ s.registrations = some r then s
    else
      let s := (s.setNext r s.registrations).setPrev r none
      let s := match s.registrations with
        | none => s
        | some head => s.setPrev head (some r)
      { s with registrations := some r }

def deregisterCallback (s : Cancellation) (r : ℕ) : Cancellation :=
  let s := s.access r
  let s := if s.registrations = some r then { s with registrations := s.next r } else s
  let s := match s.prev r with
    | none => s
    | some p => s.setNext p (s.next r)
  let s := match s.next r with
    | none => s
    | some n => s.setPrev n (s.prev r)
  (s.setNext r none).setPrev r none

def construct (s : Cancellation) (r : ℕ) : Cancellation :=
  let s := { s with
    known := r :: s.known
    alive := Function.update s.alive r true
    next := Function.update s.next r none
    prev := Function.update s.prev r none }
  if s.cancelled then s
  else
    { s with
      bound := Function.update s.bound r true
      registered := r :: s.registered }.registerCallback r

def destroy (s : Cancellation) (r : ℕ) : Cancellation :=
  let s := if s.bound r then s.deregisterCallback r else s
  { s with
    bound := Function.update s.bound r false
    alive := Function.update s.alive r false }

/-- The loop of `request_cancellation`, up to the call of the next callback. -/
def loop (s : Cancellation) : Cancellation :=
  match s.registrations with
  | none => { s with running := none }
  | some r =>
    let s := s.access r
    let s := { s with registrations := s.next r }
    let s := (s.setNext r none).setPrev r none
    { s with
      bound := Function.update s.bound r false
      calls := s.calls ++ [⟨r, s.alive r⟩]
      running := some r }

def requestCancellation (s : Cancellation) : Cancellation :=
  if s.cancelled then s else { s with cancelled := true }.loop

inductive Action
  | construct (r : ℕ)
  | destroy (r : ℕ)
  | request
  | done
deriving DecidableEq

/-- `done` is the return of the callback that is running. -/
def step (s : Cancellation) : Action → Option Cancellation
  | .construct r => if r ∈ s.known then none else some (s.construct r)
  | .destroy r => if s.alive r then some (s.destroy r) else none
  | .request => some s.requestCancellation
  | .done => if s.running = none then none else some s.loop

def machine : Machine Cancellation Action where
  initial := {}
  step := step

end Cancellation

end Simple.Coro
