import Simple.Containers.MemoryBuffer
import Simple.Lib.Machine
import Simple.Lib.Memory

/-! `base_memory_buffer` in memory: each object has a store of `fixed` bytes of its own, and a block of
the heap when it has outgrown the store. A `size_t` is a number modulo 2 ^ 64. -/

namespace Simple.Containers

open Simple.Lib

inductive Pointer (P A : Type)
  | store (p : P)
  | block (a : A)
deriving DecidableEq

structure BaseBuffer (P A : Type) where
  data : Pointer P A
  capacity : ℕ
  read : ℕ
  write : ℕ

namespace BaseBuffer

variable {P A : Type}

def writable (b : BaseBuffer P A) : ℕ := b.capacity - b.write

def readable (b : BaseBuffer P A) : ℕ := b.write - b.read

end BaseBuffer

structure BufferMemory (P A : Type) where
  memory : Memory (Pointer P A) UInt8 := fun _ => none
  objects : P → Option (BaseBuffer P A) := fun _ => none

/-- What the allocator has: a block, and what is in it. It throws when it has none. -/
abbrev Allocation (A : Type) := Option (A × (ℕ → UInt8))

namespace BufferMemory

variable {P A : Type} [DecidableEq P] [DecidableEq A]

def get (p : P) (w : BufferMemory P A) : Result (BaseBuffer P A) := .ofOption (w.objects p)

def put (p : P) (b : BaseBuffer P A) (w : BufferMemory P A) : BufferMemory P A :=
  { w with objects := Function.update w.objects p (some b) }

def memmove (dst : Pointer P A) (i : ℕ) (bytes : List UInt8) (w : BufferMemory P A) :
    Result (BufferMemory P A) :=
  (w.memory.save dst i bytes).bind fun m => .returns { w with memory := m }

def memcpy (dst src : Pointer P A) (n : ℕ) (w : BufferMemory P A) : Result (BufferMemory P A) :=
  if dst = src then .undefined
  else (w.memory.load src 0 n).bind fun bytes => w.memmove dst 0 bytes

def allocate (alloc : Allocation A) (n : ℕ) (w : BufferMemory P A) : Result (BufferMemory P A × A) :=
  match alloc with
  | none => .throws
  | some (a, fresh) =>
    if MemoryBuffer.maxSize < n then .throws
    else .returns ({ w with memory := w.memory.map (.block a) ⟨n, fresh⟩ }, a)

def deallocate (r : Pointer P A) (n : ℕ) (w : BufferMemory P A) : Result (BufferMemory P A) :=
  (w.memory.free r n).bind fun m => .returns { w with memory := m }

def clear (p : P) (prependable : ℕ) (w : BufferMemory P A) : Result (BufferMemory P A) :=
  (w.get p).bind fun b =>
    .returns (w.put p { b with read := min prependable b.capacity, write := min prependable b.capacity })

def written (p : P) (sz : ℕ) (w : BufferMemory P A) : Result (BufferMemory P A) :=
  (w.get p).bind fun b => .returns (w.put p { b with write := b.write + min sz b.writable })

def read (p : P) (sz : ℕ) (w : BufferMemory P A) : Result (BufferMemory P A) :=
  (w.get p).bind fun b => .returns (w.put p { b with read := b.read + min sz b.readable })

/-- The pointer is one into the buffer, by its distance from `data_`. -/
def readUntil (p : P) (last : ℕ) (w : BufferMemory P A) : Result (BufferMemory P A) :=
  (w.get p).bind fun b =>
    if b.read < last ∧ last ≤ b.write then .returns (w.put p { b with read := b.read + (last - b.read) })
    else .returns w

def shrink (p : P) (w : BufferMemory P A) : Result (BufferMemory P A) :=
  (w.get p).bind fun b =>
    if b.read = 0 then .returns w
    else
      (w.memory.load b.data b.read b.readable).bind fun bytes =>
        (w.memmove b.data 0 bytes).bind fun w =>
          .returns (w.put p { b with read := 0, write := b.readable })

def prepend (p : P) (bytes : List UInt8) (w : BufferMemory P A) : Result (BufferMemory P A × Bool) :=
  (w.get p).bind fun b =>
    if b.read < bytes.length then .returns (w, false)
    else
      (w.memmove b.data (b.read - bytes.length) bytes).bind fun w =>
        .returns (w.put p { b with read := b.read - bytes.length }, true)

/-- `buffer::append`, which appends as much as there is room for. -/
def appendSome (p : P) (bytes : List UInt8) (w : BufferMemory P A) : Result (BufferMemory P A) :=
  (w.get p).bind fun b =>
    let len := min bytes.length b.writable
    (w.memmove b.data b.write (bytes.take len)).bind fun w => w.written p len

variable (fixed : ℕ)

def construct (p : P) (prependable : ℕ) (w : BufferMemory P A) : BufferMemory P A :=
  let index := if prependable ≤ fixed then prependable else 0
  { memory := w.memory.map (.store p) ⟨fixed, fun _ => 0⟩
    objects := Function.update w.objects p (some ⟨.store p, fixed, index, index⟩) }

def newCapacity (capacity size : ℕ) : ℕ :=
  let grown := (capacity + capacity / 2) % 2 ^ 64
  if grown < size then size
  else if MemoryBuffer.maxSize < grown then
    if MemoryBuffer.maxSize < size then size else MemoryBuffer.maxSize
  else grown

def grow (p : P) (size : ℕ) (alloc : Allocation A) (w : BufferMemory P A) : Result (BufferMemory P A) :=
  (w.get p).bind fun b =>
    (w.allocate alloc (newCapacity b.capacity size)).bind fun (w, a) =>
      (w.memcpy (.block a) b.data b.write).bind fun w =>
        let w := w.put p { b with data := .block a, capacity := newCapacity b.capacity size }
        if b.data = .store p then .returns w else w.deallocate b.data b.capacity

def makeSureWritable (p : P) (len : ℕ) (alloc : Allocation A) (w : BufferMemory P A) :
    Result (BufferMemory P A) :=
  (w.get p).bind fun b =>
    if b.writable < len then w.grow p ((b.capacity + len - b.writable) % 2 ^ 64) alloc else .returns w

/-- `append` of bytes that are not the buffer's own: growing would move those away first. -/
def append (p : P) (bytes : List UInt8) (alloc : Allocation A) (w : BufferMemory P A) :
    Result (BufferMemory P A) :=
  (w.makeSureWritable p bytes.length alloc).bind fun w => w.appendSome p bytes

def reserve (p : P) (size : ℕ) (alloc : Allocation A) (w : BufferMemory P A) : Result (BufferMemory P A) :=
  (w.get p).bind fun b => if b.capacity < size then w.grow p size alloc else .returns w

def release (p : P) (w : BufferMemory P A) : Result (BufferMemory P A) :=
  (w.get p).bind fun b =>
    if b.data = .store p then w.clear p 0
    else
      (w.deallocate b.data b.capacity).bind fun w =>
        (w.put p { b with data := .store p, capacity := fixed }).clear p 0

/-- The end of the object is also the end of its store. -/
def destroy (p : P) (w : BufferMemory P A) : Result (BufferMemory P A) :=
  (w.get p).bind fun b =>
    let gone (w : BufferMemory P A) : BufferMemory P A :=
      { memory := w.memory.unmap (.store p), objects := Function.update w.objects p none }
    if b.data = .store p then .returns (gone w)
    else (w.deallocate b.data b.capacity).bind fun w => .returns (gone w)

def constructFrom (p : P) (bytes : List UInt8) (alloc : Allocation A) (w : BufferMemory P A) :
    Result (BufferMemory P A) := (w.construct fixed p 0).append p bytes alloc

/-- The last statements of the copy constructor and of the copy assignment. -/
def copyFrom (p q : P) (alloc : Allocation A) (w : BufferMemory P A) : Result (BufferMemory P A) :=
  (w.get q).bind fun other =>
    (w.reserve p other.capacity alloc).bind fun w =>
      (w.get p).bind fun b =>
        (w.put p { b with read := other.read, write := other.write }).memcpy b.data other.data other.write

/-- When the allocator throws, the base that was constructed is destroyed again. -/
def copyConstruct (p q : P) (alloc : Allocation A) (w : BufferMemory P A) : Result (BufferMemory P A) :=
  (w.construct fixed p 0).copyFrom p q alloc

def copyAssign (p q : P) (alloc : Allocation A) (w : BufferMemory P A) : Result (BufferMemory P A) :=
  if p = q then .returns w else w.copyFrom p q alloc

def moveConstruct (p q : P) (w : BufferMemory P A) : Result (BufferMemory P A) :=
  (w.get q).bind fun other =>
    let w := { w with memory := w.memory.map (.store p) ⟨fixed, fun _ => 0⟩ }
    let w := w.put q { other with capacity := 0, read := 0, write := 0 }
    if other.data = .store q then
      (w.put p { other with data := .store p }).memcpy (.store p) (.store q) other.write
    else .returns ((w.put p other).put q ⟨.store q, 0, 0, 0⟩)

/-- `t` is the place of `temp`. -/
def moveAssign (p q t : P) (w : BufferMemory P A) : Result (BufferMemory P A) :=
  if p = q then .returns w
  else
    (w.moveConstruct fixed t p).bind fun w =>
      (w.get p).bind fun b =>
        (w.get q).bind fun other =>
          let w := w.put q { other with capacity := b.capacity, read := b.read, write := b.write }
          let w := w.put p { other with data := b.data }
          Result.bind (if other.data = .store q then w.memcpy (.store p) (.store q) other.write
            else .returns ((w.put p other).put q ⟨.store q, b.capacity, b.read, b.write⟩))
            fun w => w.destroy t

/-- What is filled in at `begin_write` comes with `written`. -/
inductive Action (P A : Type)
  | construct (p : P) (prependable : ℕ)
  | constructFrom (p : P) (bytes : List UInt8) (alloc : Allocation A)
  | copyConstruct (p q : P) (alloc : Allocation A)
  | moveConstruct (p q : P)
  | destroy (p : P)
  | append (p : P) (bytes : List UInt8) (alloc : Allocation A)
  | prepend (p : P) (bytes : List UInt8)
  | read (p : P) (sz : ℕ)
  | readUntil (p : P) (last : ℕ)
  | written (p : P) (bytes : List UInt8)
  | clear (p : P) (prependable : ℕ)
  | shrink (p : P)
  | reserve (p : P) (size : ℕ) (alloc : Allocation A)
  | makeSureWritable (p : P) (len : ℕ) (alloc : Allocation A)
  | release (p : P)
  | copyAssign (p q : P) (alloc : Allocation A)
  | moveAssign (p q t : P)

def perform (w : BufferMemory P A) : Action P A → Result (BufferMemory P A)
  | .construct p prependable => .returns (w.construct fixed p prependable)
  | .constructFrom p bytes alloc => w.constructFrom fixed p bytes alloc
  | .copyConstruct p q alloc => w.copyConstruct fixed p q alloc
  | .moveConstruct p q => w.moveConstruct fixed p q
  | .destroy p => w.destroy p
  | .append p bytes alloc => w.append p bytes alloc
  | .prepend p bytes => (w.prepend p bytes).bind fun (w, _) => .returns w
  | .read p sz => w.read p sz
  | .readUntil p last => w.readUntil p last
  | .written p bytes =>
    (w.get p).bind fun b => (w.memmove b.data b.write bytes).bind fun w => w.written p bytes.length
  | .clear p prependable => w.clear p prependable
  | .shrink p => w.shrink p
  | .reserve p size alloc => w.reserve p size alloc
  | .makeSureWritable p len alloc => w.makeSureWritable p len alloc
  | .release p => w.release fixed p
  | .copyAssign p q alloc => w.copyAssign p q alloc
  | .moveAssign p q t => w.moveAssign fixed p q t

def Live (w : BufferMemory P A) (p : P) : Prop := (w.objects p).isSome = true

instance (w : BufferMemory P A) (p : P) : Decidable (w.Live p) := inferInstanceAs (Decidable (_ = _))

def Fresh (w : BufferMemory P A) (alloc : Allocation A) : Prop :=
  ∀ x, alloc = some x → (w.memory (.block x.1)).isNone = true

instance (w : BufferMemory P A) (alloc : Allocation A) : Decidable (w.Fresh alloc) :=
  match alloc with
  | none => .isTrue fun _ h => by cases h
  | some x => decidable_of_iff ((w.memory (.block x.1)).isNone = true) (by simp [Fresh])

def room (w : BufferMemory P A) (p : P) : ℕ := ((w.objects p).map BaseBuffer.writable).getD 0

def front (w : BufferMemory P A) (p : P) : ℕ := ((w.objects p).map BaseBuffer.read).getD 0

def taken (w : BufferMemory P A) (p : P) : ℕ := ((w.objects p).map BaseBuffer.write).getD 0

/-- What the language asks of the caller, and that no more is filled in than there is room for. -/
def Allowed (w : BufferMemory P A) : Action P A → Prop
  | .construct p _ => ¬w.Live p
  | .constructFrom p _ alloc => ¬w.Live p ∧ w.Fresh alloc
  | .copyConstruct p q alloc => ¬w.Live p ∧ w.Live q ∧ w.Fresh alloc
  | .moveConstruct p q => ¬w.Live p ∧ w.Live q
  | .append p _ alloc | .reserve p _ alloc | .makeSureWritable p _ alloc => w.Live p ∧ w.Fresh alloc
  | .written p bytes => w.Live p ∧ bytes.length ≤ w.room p
  | .copyAssign p q alloc => w.Live p ∧ w.Live q ∧ w.Fresh alloc
  | .moveAssign p q t => w.Live p ∧ w.Live q ∧ ¬w.Live t
  | .destroy p | .prepend p _ | .read p _ | .readUntil p _ | .clear p _ | .shrink p | .release p =>
    w.Live p

instance (w : BufferMemory P A) (a : Action P A) : Decidable (w.Allowed a) := by
  cases a <;> unfold Allowed <;> infer_instance

def model (w : BufferMemory P A) (l : P → Option (List UInt8)) : Action P A → P → Option (List UInt8)
  | .construct p _ => Function.update l p (some [])
  | .constructFrom p bytes _ => Function.update l p (some bytes)
  | .copyConstruct p q _ => Function.update l p (l q)
  | .moveConstruct p q => Function.update (Function.update l q (some [])) p (l q)
  | .destroy p => Function.update l p none
  | .append p bytes _ => Function.update l p ((l p).map (· ++ bytes))
  | .prepend p bytes =>
    if bytes.length ≤ w.front p then Function.update l p ((l p).map (bytes ++ ·)) else l
  | .read p sz => Function.update l p ((l p).map (List.drop sz))
  | .readUntil p last =>
    if last ≤ w.taken p then Function.update l p ((l p).map (List.drop (last - w.front p))) else l
  | .written p bytes => Function.update l p ((l p).map (· ++ bytes))
  | .clear p _ => Function.update l p (some [])
  | .shrink _ => l
  | .reserve _ _ _ => l
  | .makeSureWritable _ _ _ => l
  | .release p => Function.update l p (some [])
  | .copyAssign p q _ => Function.update l p (l q)
  | .moveAssign p q _ =>
    if p = q then l else Function.update (Function.update l q (some [])) p (l q)

def step (s : Option (BufferMemory P A) × (P → Option (List UInt8))) (a : Action P A) :
    Option (Option (BufferMemory P A) × (P → Option (List UInt8))) :=
  match s.1 with
  | none => none
  | some w =>
    if w.Allowed a then
      match w.perform fixed a with
      | .undefined => some (none, s.2)
      | .throws => some (some w, s.2)
      | .returns w' => some (some w', w.model s.2 a)
    else none

def machine (P A : Type) [DecidableEq P] [DecidableEq A] (fixed : ℕ) :
    Machine (Option (BufferMemory P A) × (P → Option (List UInt8))) (Action P A) where
  initial := (some {}, fun _ => none)
  step := step fixed

end BufferMemory

end Simple.Containers
