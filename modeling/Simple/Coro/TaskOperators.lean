import Simple.Coro.ParallelJoin

/-! `operator||` and `operator&&` of two tasks, for which `when_ready` waits. -/

namespace Simple.Coro

open Simple.Lib

variable {α ε : Type}

/-- `error` is what a task throws by itself. -/
inductive Thrown (ε : Type)
  | error (e : ε)
  | canceled
  | emptyVariant
  | multiple (first : Thrown ε)

/-- What a task returns; as an alternative `void` is the `std::monostate`. -/
inductive Returned (α : Type)
  | void
  | value (a : α)
  | variant (index : ℕ) (alternative : Returned α)
  | tuple (elements : List (Returned α))

inductive ReturnType
  | void
  | value
  | variant (alternatives : ℕ)
  | tuple (elements : ℕ)
deriving DecidableEq

def Returned.Of : Returned α → ReturnType → Prop
  | .void, .void => True
  | .value _, .value => True
  | .variant index _, .variant n => index < n
  | .tuple rs, .tuple n => rs.length = n
  | _, _ => False

abbrev Outcome (α ε : Type) := Except (Thrown ε) (Returned α)

/-- A `parallel_task` that has completed. -/
structure ParallelTask (α ε : Type) where
  index : ℕ
  outcome : Outcome α ε

def ParallelTask.getException (t : ParallelTask α ε) : Option (Thrown ε) :=
  match t.outcome with
  | .error e => some e
  | .ok _ => none

def ParallelTask.result (t : ParallelTask α ε) : Outcome α ε := t.outcome

/-- `widen_variant::call`, from the alternative `i` on. -/
def widenCall (size i index : ℕ) (alternative : Returned α) : Outcome α ε :=
  if index = i then .ok (.variant i alternative)
  else if i + 1 < size then widenCall size (i + 1) index alternative
  else .error .emptyVariant
termination_by size - i

def widen (size : ℕ) : Returned α → Outcome α ε
  | .variant index alternative => widenCall size 0 index alternative
  | _ => .error .emptyVariant

/-- The body that the overloads have in common; `onLeft` and `onRight` are their `co_return`s. -/
def either (l r : ParallelTask α ε) (onLeft onRight : Outcome α ε) : Outcome α ε :=
  if l.index = 0 then
    match l.getException, r.getException with
    | none, _ => onLeft
    | some _, none => onRight
    | some le, some _ => .error (.multiple le)
  else
    match r.getException, l.getException with
    | none, _ => onRight
    | some _, none => onLeft
    | some re, some _ => .error (.multiple re)

def orVoidVoid (l r : ParallelTask α ε) : Outcome α ε :=
  either l r (.ok (.variant 0 .void)) (.ok (.variant 1 .void))

def orValueVoid (l r : ParallelTask α ε) : Outcome α ε :=
  either l r (l.result.map (.variant 0)) (.ok (.variant 1 .void))

def orVoidValue (l r : ParallelTask α ε) : Outcome α ε :=
  either l r (.ok (.variant 0 .void)) (r.result.map (.variant 1))

def orValueValue (l r : ParallelTask α ε) : Outcome α ε :=
  either l r (l.result.map (.variant 0)) (r.result.map (.variant 1))

def orVariantVoid (size : ℕ) (l r : ParallelTask α ε) : Outcome α ε :=
  either l r (l.result.bind (widen size)) (.ok (.variant size .void))

def orVariantValue (size : ℕ) (l r : ParallelTask α ε) : Outcome α ε :=
  either l r (l.result.bind (widen size)) (r.result.map (.variant size))

/-- The overload that is chosen, of which the one for a variant is the more special. -/
def operatorOr : ReturnType → ReturnType → ParallelTask α ε → ParallelTask α ε → Outcome α ε
  | .variant n, .void => orVariantVoid n
  | .variant n, _ => orVariantValue n
  | .void, .void => orVoidVoid
  | .void, _ => orVoidValue
  | _, .void => orValueVoid
  | _, _ => orValueValue

def both (l r : ParallelTask α ε) (onBoth : Outcome α ε) : Outcome α ε :=
  match l.getException, r.getException with
  | some le, some _ => .error (.multiple le)
  | some le, none => .error le
  | none, some re => .error re
  | none, none => onBoth

def tupleCat : Returned α → List (Returned α) → Returned α
  | .tuple rs, rs' => .tuple (rs ++ rs')
  | r, rs' => .tuple (r :: rs')

def andVoidVoid (l r : ParallelTask α ε) : Outcome α ε := both l r (.ok .void)

def andValueVoid (l r : ParallelTask α ε) : Outcome α ε := both l r l.result

def andVoidValue (l r : ParallelTask α ε) : Outcome α ε := both l r r.result

def andValueValue (l r : ParallelTask α ε) : Outcome α ε :=
  both l r (l.result.bind fun a => r.result.map fun b => .tuple [a, b])

def andTupleVoid (l r : ParallelTask α ε) : Outcome α ε := both l r l.result

def andTupleValue (l r : ParallelTask α ε) : Outcome α ε :=
  both l r (l.result.bind fun a => r.result.map fun b => tupleCat a [b])

def operatorAnd : ReturnType → ReturnType → ParallelTask α ε → ParallelTask α ε → Outcome α ε
  | .tuple _, .void => andTupleVoid
  | .tuple _, _ => andTupleValue
  | .void, .void => andVoidVoid
  | .void, _ => andVoidValue
  | _, .void => andValueVoid
  | _, _ => andValueValue

def ReturnType.alternatives : ReturnType → ℕ
  | .variant n => n
  | _ => 1

def ReturnType.both : ReturnType → ReturnType → ReturnType
  | .tuple n, .void => .tuple n
  | .tuple n, _ => .tuple (n + 1)
  | .void, r => r
  | l, .void => l
  | _, _ => .tuple 2

/-- A task by its outcome, or an operator with the state of its `when_ready` when it goes on. A task
that `make_parallel_task` does not begin, or that is cancelled when it awaits, is one that throws. -/
inductive TaskTree (α ε : Type)
  | task (type : ReturnType) (outcome : Outcome α ε)
  | or (left right : TaskTree α ε) (s : WhenReady)
  | and (left right : TaskTree α ε) (s : WhenReady)

/-- `await_resume` throws if the token of the awaiting coroutine is cancelled. -/
def WhenReady.awaitResume (s : WhenReady) (left right : Outcome α ε) :
    Except (Thrown ε) (ParallelTask α ε × ParallelTask α ε) :=
  if s.tokenCancelled then .error .canceled
  else .ok (⟨(s.child 0).getIndex, left⟩, ⟨(s.child 1).getIndex, right⟩)

namespace TaskTree

def type : TaskTree α ε → ReturnType
  | .task type _ => type
  | .or left _ _ => .variant (left.type.alternatives + 1)
  | .and left right _ => left.type.both right.type

def eval : TaskTree α ε → Outcome α ε
  | .task _ outcome => outcome
  | .or left right s =>
    (s.awaitResume left.eval right.eval).bind fun (l, r) => operatorOr left.type right.type l r
  | .and left right s =>
    (s.awaitResume left.eval right.eval).bind fun (l, r) => operatorAnd left.type right.type l r

def sides (left right : TaskTree α ε) (i : ℕ) : Outcome α ε := if i = 0 then left.eval else right.eval

/-- The coroutine goes on after a run in which the two children succeed or fail as they do. -/
def Joined (wait : WaitType) (left right : TaskTree α ε) (s : WhenReady) : Prop :=
  (∃ token, (WhenReady.machine wait 2 true token).Reachable s) ∧ s.await = .continued ∧
    ∀ i < 2, ∃ index, s.child i = .finished index (sides left right i).toOption.isNone

def Ran : TaskTree α ε → Prop
  | .task type outcome => ∀ r, outcome = .ok r → r.Of type
  | .or left right s => left.Ran ∧ right.Ran ∧ Joined .oneSucc left right s
  | .and left right s => left.Ran ∧ right.Ran ∧ Joined .oneFail left right s

end TaskTree

end Simple.Coro
