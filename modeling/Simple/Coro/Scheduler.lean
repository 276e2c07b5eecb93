import Simple.Containers.TimerQueue
import Simple.Coro.Tokens
import Simple.Gobang.Rpc
import Simple.Lib.Intrusive
import Simple.Lib.Machine

/-! The scheduler with everything that suspends a coroutine and wakes it up again: condition
variables, timers, frames, asynchronous sessions and remote calls, each of which a cancellation can
cut short. A suspension is known by its number, and stands for the handle of its coroutine. -/

namespace Simple.Coro

open Simple.Lib Simple.Containers Simple.Gobang

/-- What a coroutine is suspended on. An `async_session_awaiter` is known by its session, a
`rpc_awaiter` by its place among those created. -/
inductive Wait
  | conditionVariable (c : ℕ)
  | timer (point : ℤ)
  | frame (frame : ℕ)
  | session (session : ℕ)
  | rpc (awaiter : ℕ)
deriving DecidableEq

/-- The functions given to `scheduler::post`. -/
inductive Posted
  | resume (k : ℕ)
  | wakeUpSession (session : ℕ)
deriving DecidableEq

def Posted.handle : Posted → Option ℕ
  | .resume k => some k
  | .wakeUpSession _ => none

/-- `ready` are the timers that `run` has taken from the queue and has still to wake up, `result` is
whether a session has a result or an exception, `resumed` lists the suspensions in the order in which
their handles were resumed. -/
structure Scheduler where
  posted : List Posted := []
  timers : TimerQueue := {}
  ready : List ℕ := []
  wakeUp : List ℕ := []
  tokens : Tokens := {}
  conditionVariable : ℕ → DList ℕ := fun _ => {}
  frame : ℕ := 0
  frameCoroutine : ℕ → List ℕ := fun _ => []
  session : ℕ := 0
  result : ℕ → Bool := fun _ => false
  waitMap : ℕ → Option ℕ := fun _ => none
  rpc : RpcSystem := {}
  rpcSession : List UInt64 := []
  rpcMap : UInt64 → Option ℕ := fun _ => none
  size : ℕ := 0
  coroutine : ℕ → ℕ := fun _ => 0
  awaited : ℕ → Wait := fun _ => .frame 0
  resumed : List ℕ := []

namespace Scheduler

variable (token : ℕ → Option ℕ) (pid : ℕ)

/-- `onThread` is whether the caller runs in the thread of the scheduler. -/
def wakeUpCoroutine (onThread : Bool) (s : Scheduler) (k : ℕ) : Scheduler :=
  if onThread then { s with wakeUp := s.wakeUp ++ [k] }
  else { s with posted := s.posted ++ [.resume k] }

/-- The coroutine runs on from `await_resume`. -/
def resume (s : Scheduler) (k : ℕ) : Scheduler :=
  { s with tokens := s.tokens.reset k, resumed := s.resumed ++ [k] }

/-- `await_suspend` returns false. -/
def isReady (s : Scheduler) (c : ℕ) (awaited : Wait) (now : ℤ) : Bool :=
  s.tokens.isCancellationRequested (token c) ||
    match awaited with
    | .timer point => decide (now ≥ point)
    | .frame frame => decide (s.frame = frame)
    | _ => false

def emplace {K : Type} [DecidableEq K] (map : K → Option ℕ) (key : K) (k : ℕ) : K → Option ℕ :=
  if (map key).isSome then map else Function.update map key (some k)

/-- `await_suspend`, where it suspends the coroutine `c`. -/
def suspend (s : Scheduler) (c : ℕ) (awaited : Wait) : Scheduler :=
  let k := s.size
  let s := { s with
    size := k + 1
    coroutine := Function.update s.coroutine k c
    awaited := Function.update s.awaited k awaited
    tokens := s.tokens.emplace (token c) k }
  match awaited with
  | .conditionVariable v =>
    { s with conditionVariable :=
        Function.update s.conditionVariable v ((s.conditionVariable v).pushBack k) }
  | .timer point =>
    { s with timers :=
        TimerQueue.enqueue { s.timers with point := Function.update s.timers.point k point } k }
  | .frame frame =>
    { s with frameCoroutine :=
        Function.update s.frameCoroutine frame ((s.frameCoroutine frame).insert k) }
  | .session session => { s with waitMap := emplace s.waitMap session k }
  | .rpc awaiter =>
    match s.rpcSession[awaiter]? with
    | none => s
    | some session => { s with rpcMap := emplace s.rpcMap session k }

def hasAwaiter (d : DList ℕ) (k : ℕ) : Bool :=
  (d.next k).isSome || (d.prev k).isSome || decide (d.header = some k)

def removeAwaiter (s : Scheduler) (v k : ℕ) : Scheduler :=
  { s with conditionVariable :=
      Function.update s.conditionVariable v ((s.conditionVariable v).unlink k) }

def removeFrameCoroutine (s : Scheduler) (frame k : ℕ) : Scheduler :=
  { s with frameCoroutine :=
      Function.update s.frameCoroutine frame ((s.frameCoroutine frame).erase k) }

/-- `async_system::wake_up_session` -/
def wakeUpSession (onThread : Bool) (s : Scheduler) (session : ℕ) : Scheduler :=
  if onThread then
    match s.waitMap session with
    | none => s
    | some k =>
      wakeUpCoroutine true { s with waitMap := Function.update s.waitMap session none } k
  else { s with posted := s.posted ++ [.wakeUpSession session] }

/-- `rpc_system::wake_up_session` -/
def wakeUpRpc (onThread : Bool) (s : Scheduler) (session : UInt64) : Scheduler :=
  match s.rpcMap session with
  | none => s
  | some k =>
    wakeUpCoroutine onThread { s with rpcMap := Function.update s.rpcMap session none } k

def callback (onThread : Bool) (s : Scheduler) (k : ℕ) : Scheduler :=
  match s.awaited k with
  | .conditionVariable v =>
    if hasAwaiter (s.conditionVariable v) k then
      wakeUpCoroutine onThread (s.removeAwaiter v k) k
    else s
  | .timer _ =>
    if (s.timers.remove k).2 then
      wakeUpCoroutine onThread { s with timers := (s.timers.remove k).1 } k
    else s
  | .frame frame =>
    if k ∈ s.frameCoroutine frame then
      wakeUpCoroutine onThread (s.removeFrameCoroutine frame k) k
    else s
  | .session session => s.wakeUpSession onThread session
  | .rpc awaiter =>
    match s.rpcSession[awaiter]? with
    | none => s
    | some session => s.wakeUpRpc onThread session

def requestCancellation (onThread : Bool) (s : Scheduler) (t : ℕ) : Scheduler :=
  let request := s.tokens.requestCancellation t
  request.2.foldl (callback onThread) { s with tokens := request.1 }

def notifyOne (onThread : Bool) (s : Scheduler) (v : ℕ) : Scheduler :=
  match (s.conditionVariable v).header with
  | none => s
  | some k => wakeUpCoroutine onThread (s.removeAwaiter v k) k

/-- The loop of `notify_all`, with a bound on its rounds. -/
def notifyLoop (onThread : Bool) (v : ℕ) : ℕ → Option ℕ → Scheduler → Option Scheduler
  | _, none, s => some s
  | 0, some _, _ => none
  | fuel + 1, some k, s =>
    let d := s.conditionVariable v
    let e : DList ℕ :=
      { d with next := Function.update d.next k none, prev := Function.update d.prev k none }
    let s := { s with conditionVariable := Function.update s.conditionVariable v e }
    notifyLoop onThread v fuel (d.next k) (wakeUpCoroutine onThread s k)

def notifyAll (onThread : Bool) (s : Scheduler) (v : ℕ) : Option Scheduler :=
  (notifyLoop onThread v s.size (s.conditionVariable v).header s).map fun s =>
    let d : DList ℕ := { (s.conditionVariable v) with header := none, tail := none }
    { s with conditionVariable := Function.update s.conditionVariable v d }

/-- `wake_up_frame` after `++frame_`; the order in which it goes through the set is not known. -/
def advanceFrame (s : Scheduler) (order : List ℕ) : Scheduler :=
  let s := order.foldl (wakeUpCoroutine true) { s with frame := s.frame + 1 }
  { s with frameCoroutine := Function.update s.frameCoroutine s.frame [] }

/-- `set_result` and `set_exception` -/
def setResult (onThread : Bool) (s : Scheduler) (session : ℕ) : Scheduler :=
  wakeUpSession onThread { s with result := Function.update s.result session true } session

def call (s : Scheduler) : Posted → Scheduler
  | .resume k => s.resume k
  | .wakeUpSession session =>
    match s.waitMap session with
    | none => s
    | some k => resume { s with waitMap := Function.update s.waitMap session none } k

inductive Action
  | createSession
  | createRpc (now : ℕ)
  | await (c : ℕ) (awaited : Wait) (now : ℤ)
  | cancel (onThread : Bool) (t : ℕ)
  | notifyOne (onThread : Bool) (v : ℕ)
  | notifyAll (onThread : Bool) (v : ℕ)
  | advanceFrame (order : List ℕ)
  | setResult (onThread : Bool) (session : ℕ)
  | response (onThread : Bool) (session : UInt64)
  | readyTimers (now : ℤ)
  | callPosted
  | wakeUpTimer
  | wakeUpNext
deriving DecidableEq

/-- No coroutine is suspended on the awaiter of a session or of a remote call. -/
def Free (s : Scheduler) (awaited : Wait) : Prop :=
  ∀ k < s.size, s.awaited k = awaited → k ∈ s.resumed

instance (s : Scheduler) (awaited : Wait) : Decidable (s.Free awaited) :=
  inferInstanceAs (Decidable (∀ k < s.size, _ → _))

/-- The awaiter exists, and no other coroutine is suspended on it. -/
def CanAwait (s : Scheduler) : Wait → Prop
  | .session session => 0 < session ∧ session ≤ s.session ∧ s.Free (.session session)
  | .rpc awaiter => awaiter < s.rpcSession.length ∧ s.Free (.rpc awaiter)
  | _ => True

instance (s : Scheduler) : (awaited : Wait) → Decidable (s.CanAwait awaited)
  | .session _ => inferInstanceAs (Decidable (_ ∧ _ ∧ _))
  | .rpc _ => inferInstanceAs (Decidable (_ ∧ _))
  | .conditionVariable _ | .timer _ | .frame _ => inferInstanceAs (Decidable True)

/-- `createRpc` is `create_session` as long as the clock fits its numbers. -/
def step (s : Scheduler) : Action → Option Scheduler
  | .createSession => some { s with session := s.session + 1 }
  | .createRpc now =>
    let r := s.rpc.createSession pid now
    if r.1.Fits then some { s with rpc := r.1, rpcSession := s.rpcSession ++ [r.2] } else none
  | .await c awaited now =>
    if (∀ k < s.size, s.coroutine k = c → k ∈ s.resumed) ∧ s.CanAwait awaited then
      if s.isReady token c awaited now then some s else some (s.suspend token c awaited)
    else none
  | .cancel onThread t => some (s.requestCancellation onThread t)
  | .notifyOne onThread v => some (s.notifyOne onThread v)
  | .notifyAll onThread v => s.notifyAll onThread v
  | .advanceFrame order =>
    if order.Perm (s.frameCoroutine (s.frame + 1)) then some (s.advanceFrame order) else none
  | .setResult onThread session =>
    if 0 < session ∧ session ≤ s.session then some (s.setResult onThread session) else none
  | .response onThread session => some (s.wakeUpRpc onThread session)
  | .readyTimers now =>
    if s.ready = [] then
      some { s with timers := (s.timers.getReadyTimers now).1, ready := (s.timers.getReadyTimers now).2 }
    else none
  | .callPosted =>
    match s.posted with
    | [] => none
    | f :: posted => some (call { s with posted := posted } f)
  | .wakeUpTimer =>
    match s.ready with
    | [] => none
    | k :: ready => some (resume { s with ready := ready } k)
  | .wakeUpNext =>
    match s.wakeUp with
    | [] => none
    | k :: wakeUp => some (resume { s with wakeUp := wakeUp } k)

def machine : Machine Scheduler Action where
  initial := {}
  step := step token pid

def scheduled (s : Scheduler) : List ℕ :=
  s.ready ++ (s.wakeUp ++ (s.posted.filterMap Posted.handle ++ s.resumed))

def Idle (s : Scheduler) : Prop := s.posted = [] ∧ s.ready = [] ∧ s.wakeUp = []

end Scheduler

end Simple.Coro
