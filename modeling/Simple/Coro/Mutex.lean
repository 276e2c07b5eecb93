import Simple.Coro.Tokens
import Simple.Lib.Intrusive
import Simple.Lib.Machine

/-! A coroutine mutex with any number of coroutines that call `lock`, are resumed by the scheduler
and have their tokens cancelled. A call of `lock` is the number of its awaiter, in the order of the
calls. -/

namespace Simple.Coro

open Simple.Lib

/-- Where a call of `lock` is: in the list of the mutex, scheduled by `unlock` or by a cancellation,
completed normally, released by `unlock`, or ended by `coro_errors::canceled`. -/
inductive LockStatus
  | waiting
  | handed
  | aborted
  | holding
  | released
  | canceled
deriving DecidableEq

def LockStatus.suspended : LockStatus → Bool
  | .waiting | .handed | .aborted => true
  | _ => false

/-- `wakeUp` is the scheduler's queue of coroutines to resume, `obtained` the calls that completed
normally, in the order in which they did. -/
structure Mutex where
  locked : Bool := false
  list : DList ℕ := {}
  size : ℕ := 0
  coroutine : ℕ → ℕ := fun _ => 0
  status : ℕ → Option LockStatus := fun _ => none
  tokens : Tokens := {}
  wakeUp : List ℕ := []
  obtained : List ℕ := []

namespace Mutex

variable (token : ℕ → Option ℕ)

def setStatus (m : Mutex) (k : ℕ) (status : LockStatus) : Mutex :=
  { m with status := Function.update m.status k (some status) }

def awaitResume (m : Mutex) (k : ℕ) : Mutex :=
  let m := { m with tokens := m.tokens.reset k }
  if m.tokens.isCancellationRequested (token (m.coroutine k)) then m.setStatus k .canceled
  else { m.setStatus k .holding with obtained := m.obtained ++ [k] }

/-- `co_await lock()`, up to where the coroutine `c` suspends or goes on. -/
def lock (m : Mutex) (c : ℕ) : Mutex :=
  let k := m.size
  let m := { m with size := k + 1, coroutine := Function.update m.coroutine k c }
  if m.tokens.isCancellationRequested (token c) then m.awaitResume token k
  else if m.locked = false then { m with locked := true }.awaitResume token k
  else
    { m.setStatus k .waiting with
      list := m.list.pushBack k
      tokens := m.tokens.emplace (token c) k }

def unlock (m : Mutex) : Mutex :=
  if m.locked = false then m
  else
    match m.list.header with
    | none => { m with locked := false }
    | some k =>
      { m.setStatus k .handed with
        list := m.list.unlink k
        tokens := m.tokens.reset k
        wakeUp := m.wakeUp ++ [k] }

def abort (m : Mutex) (k : ℕ) : Mutex :=
  { m.setStatus k .aborted with
    list := m.list.unlink k
    wakeUp := m.wakeUp ++ [k] }

def requestCancellation (m : Mutex) (t : ℕ) : Mutex :=
  let request := m.tokens.requestCancellation t
  request.2.foldl abort { m with tokens := request.1 }

inductive Action
  | lock (c : ℕ)
  | unlock (k : Option ℕ)
  | cancel (t : ℕ)
  | resume
deriving DecidableEq

/-- `unlock` ends the hold of a call, or is called by a coroutine that holds nothing. -/
def step (m : Mutex) : Action → Option Mutex
  | .lock c =>
    if ∃ k < m.size, m.coroutine k = c ∧ (m.status k).any LockStatus.suspended then none
    else some (m.lock token c)
  | .unlock none => some m.unlock
  | .unlock (some k) =>
    if m.status k = some .holding then some (m.setStatus k .released).unlock else none
  | .cancel t => some (m.requestCancellation t)
  | .resume =>
    match m.wakeUp with
    | [] => none
    | k :: wakeUp => some ({ m with wakeUp := wakeUp }.awaitResume token k)

def machine : Machine Mutex Action where
  initial := {}
  step := step token

def waiting (m : Mutex) : List ℕ :=
  (List.range m.size).filter fun k => m.status k = some .waiting

def tokenOf (m : Mutex) (k : ℕ) : Option ℕ := token (m.coroutine k)

def isCanceled (m : Mutex) (k : ℕ) : Bool := m.tokens.isCancellationRequested (m.tokenOf token k)

end Mutex

end Simple.Coro
