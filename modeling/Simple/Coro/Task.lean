import Simple.Lib.Machine

/-! Tasks that await tasks: the promise, the awaitables of `co_await` and
`when_ready`, and a scheduler that runs any number of coroutine bodies while
cancellation is requested at any moment. -/

namespace Simple.Coro

open Simple.Lib

abbrev CoroutineHandle := ℕ
abbrev CancellationState := ℕ

inductive Error (E : Type)
  | canceled
  | brokenPromise
  | badVariantAccess
  | exception (e : E)
deriving DecidableEq

/-- `task<void>` and `task<T>`; `task<T&>` stores a pointer in the place of the value. -/
inductive Kind
  | void
  | value
deriving DecidableEq

inductive Slot (V E : Type)
  | monostate
  | value (v : V)
  | exceptionPtr (e : Error E)

abbrev Result (V E : Type) := Except (Error E) (Option V)

structure TaskPromise (V E : Type) where
  kind : Kind
  token : Option CancellationState := none
  continuation : Option CoroutineHandle := none
  value : Slot V E := .monostate

variable {σ V E : Type}

namespace TaskPromise

def coReturn (p : TaskPromise V E) (v : V) : TaskPromise V E :=
  match p.kind with
  | .void => p
  | .value => { p with value := .value v }

def unhandledException (p : TaskPromise V E) (e : Error E) : TaskPromise V E :=
  { p with value := .exceptionPtr e }

def produced (p : TaskPromise V E) (v : V) : Option V :=
  match p.kind with
  | .void => none
  | .value => some v

def result (p : TaskPromise V E) : Result V E :=
  match p.kind, p.value with
  | _, .exceptionPtr e => .error e
  | .void, _ => .ok none
  | .value, .value v => .ok (some v)
  | .value, .monostate => .error .badVariantAccess

end TaskPromise

/-- One move of a coroutine body between two points where it can be observed.
A body owns the tasks it has created and names them by their position. -/
inductive Instr (σ V E : Type)
  | coReturn (v : V)
  | throw (e : Error E)
  | call (kind : Kind) (body next : σ)
  | coAwait (task : ℕ) (next : Result V E → σ)
  | whenReady (task : ℕ) (next : Except (Error E) Unit → σ)
  | suspend (next : Except (Error E) V → σ)
  | setCancellationToken (token : Option CancellationState) (next : σ)
  | requestCancellation (state : CancellationState) (next : σ)

inductive Awaitable (σ V E : Type)
  | coAwait (next : Result V E → σ)
  | whenReady (next : Except (Error E) Unit → σ)

inductive Point (σ V E : Type)
  | initial (s : σ)
  | running (s : σ)
  | suspended (next : Except (Error E) V → σ)
  | awaiting (child : CoroutineHandle) (awaitable : Awaitable σ V E)
  | final

/-- `outcome` records how the body ended; no code of the runtime reads it. -/
structure Frame (σ V E : Type) where
  promise : TaskPromise V E
  point : Point σ V E
  tasks : List CoroutineHandle := []
  outcome : Option (Result V E) := none

def Frame.done (f : Frame σ V E) : Bool :=
  match f.point with
  | .final => true
  | _ => false

def Frame.initial (kind : Kind) (body : σ) : Frame σ V E where
  promise := { kind := kind }
  point := .initial body

def Frame.detached (token : Option CancellationState) (body : σ) : Frame σ V E where
  promise := { kind := .void, token := token }
  point := .running body

def Frame.finish (f : Frame σ V E) (promise : TaskPromise V E) (outcome : Result V E) :
    Frame σ V E :=
  { f with promise := promise, point := .final, outcome := some outcome }

/-- A completed `co_await child`: whether `await_suspend` found the awaiting
coroutine's token cancelled, what the expression gave, and how the child's body
had ended by then. -/
structure Awaited (V E : Type) where
  early : Bool
  result : Result V E
  outcome : Option (Result V E)

structure World (σ V E : Type) where
  frames : CoroutineHandle → Option (Frame σ V E) := fun _ => none
  size : ℕ := 0
  cancelled : CancellationState → Bool := fun _ => false
  current : Option CoroutineHandle := none
  log : List (Awaited V E) := []

namespace World

def isCancellationRequested (w : World σ V E) (token : Option CancellationState) : Bool :=
  token.any w.cancelled

def setFrame (w : World σ V E) (c : CoroutineHandle) (f : Frame σ V E) : World σ V E :=
  { w with frames := Function.update w.frames c (some f) }

def create (w : World σ V E) (f : Frame σ V E) : World σ V E :=
  { w.setFrame w.size f with size := w.size + 1 }

/-- The early return leaves the child's promise as it is. -/
def awaitSuspend (w : World σ V E) (handle : CoroutineHandle) (f : Frame σ V E)
    (child : CoroutineHandle) (g : Frame σ V E) : World σ V E × CoroutineHandle :=
  match f.promise.token with
  | some t =>
    if w.cancelled t then (w, handle)
    else (w.setFrame child { g with
      promise := { g.promise with token := some t, continuation := some handle } }, child)
  | none =>
    (w.setFrame child { g with promise := { g.promise with continuation := some handle } }, child)

def checkToken (w : World σ V E) (g : Frame σ V E) : Except (Error E) Unit :=
  if w.isCancellationRequested g.promise.token then .error .canceled else .ok ()

def awaitResume (w : World σ V E) (g : Frame σ V E) : Result V E :=
  match w.checkToken g with
  | .error e => .error e
  | .ok () => g.promise.result

def pass (w : World σ V E) (p : CoroutineHandle) (f g : Frame σ V E) (early : Bool) :
    Awaitable σ V E → World σ V E
  | .coAwait next =>
    { w.setFrame p { f with point := .running (next (w.awaitResume g)) } with
      current := some p, log := w.log ++ [⟨early, w.awaitResume g, g.outcome⟩] }
  | .whenReady next =>
    { w.setFrame p { f with point := .running (next (w.checkToken g)) } with current := some p }

def resumeAwaiter (w : World σ V E) (p : CoroutineHandle) : Option (World σ V E) :=
  match w.frames p with
  | some f =>
    match f.point with
    | .awaiting child awaitable =>
      (w.frames child).map fun g => w.pass p f g false awaitable
    | _ => none
  | none => none

def finalSuspend (w : World σ V E) (f : Frame σ V E) : Option (World σ V E) :=
  match f.promise.continuation with
  | some p => w.resumeAwaiter p
  | none => some { w with current := none }

/-- `co_await` on an awaitable of an owned task. A child that is resumed has to
stand at its `initial_suspend`. -/
def await (w : World σ V E) (p : CoroutineHandle) (f : Frame σ V E) (child : CoroutineHandle)
    (awaitable : Awaitable σ V E) : Option (World σ V E) :=
  match w.frames child with
  | some g =>
    if g.done then some (w.pass p f g false awaitable)
    else
      let (w', handle) := w.awaitSuspend p f child g
      if handle = p then some (w'.pass p f g true awaitable)
      else
        let w'' := w'.setFrame p { f with point := .awaiting child awaitable }
        match w''.frames child with
        | some g' =>
          match g'.point with
          | .initial s => some { w''.setFrame child { g' with point := .running s } with
              current := some child }
          | _ => none
        | none => none
  | none => none

def exec (w : World σ V E) (p : CoroutineHandle) (f : Frame σ V E) :
    Instr σ V E → Option (World σ V E)
  | .coReturn v =>
    let f' := f.finish (f.promise.coReturn v) (.ok (f.promise.produced v))
    (w.setFrame p f').finalSuspend f'
  | .throw e =>
    let f' := f.finish (f.promise.unhandledException e) (.error e)
    (w.setFrame p f').finalSuspend f'
  | .call kind body next =>
    some ((w.create (.initial kind body)).setFrame p
      { f with point := .running next, tasks := f.tasks ++ [w.size] })
  | .coAwait i next =>
    match f.tasks[i]? with
    | some child => w.await p f child (.coAwait next)
    | none => some { w.setFrame p { f with point := .running (next (.error .brokenPromise)) } with
        log := w.log ++ [⟨false, .error .brokenPromise, none⟩] }
  | .whenReady i next =>
    match f.tasks[i]? with
    | some child => w.await p f child (.whenReady next)
    -- `check_token` would read the promise of an empty handle
    | none => none
  | .suspend next => some { w.setFrame p { f with point := .suspended next } with current := none }
  | .setCancellationToken token next =>
    some (w.setFrame p { f with
      promise := { f.promise with token := token }, point := .running next })
  | .requestCancellation state next =>
    some { w.setFrame p { f with point := .running next } with
      cancelled := Function.update w.cancelled state true }

end World

inductive Action (σ V E : Type)
  | go
  | resume (c : CoroutineHandle) (r : Except (Error E) V)
  | coStart (body : σ) (token : Option CancellationState)
  | requestCancellation (state : CancellationState)

def World.act (code : σ → Instr σ V E) (w : World σ V E) : Action σ V E → Option (World σ V E)
  | .go =>
    match w.current with
    | some p =>
      match w.frames p with
      | some f =>
        match f.point with
        | .running s => w.exec p f (code s)
        | _ => none
      | none => none
    | none => none
  | .resume c r =>
    match w.current, w.frames c with
    | none, some f =>
      match f.point with
      | .suspended next =>
        some { w.setFrame c { f with point := .running (next r) } with current := some c }
      | _ => none
    | _, _ => none
  | .coStart body token =>
    match w.current with
    | none =>
      -- the posted callback returns before it launches the coroutine
      if w.isCancellationRequested token then some w
      else some { w.create (.detached token body) with current := some w.size }
    | some _ => none
  | .requestCancellation state =>
    some { w with cancelled := Function.update w.cancelled state true }

def scheduler (code : σ → Instr σ V E) : Machine (World σ V E) (Action σ V E) where
  initial := {}
  step w a := w.act code a

end Simple.Coro
