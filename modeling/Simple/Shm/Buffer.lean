import Simple.Lib.Cyclic
import Simple.Lib.Program

/-! The byte ring in shared memory: the functions of `shm_buffer` as programs of
atomic accesses to the header words and to the bytes. -/

namespace Simple.Shm

open Simple.Lib Simple.Lib.Cyclic

def add64 (a b : ℕ) : ℕ := (a + b) % 2 ^ 64

def sub64 (a b : ℕ) : ℕ := (a + (2 ^ 64 - b)) % 2 ^ 64

@[ext]
structure ShmData where
  read : ℕ := 0
  write : ℕ := 0
  readIndex : ℕ := 0
  writeIndex : ℕ := 0
  data : ℕ → UInt8 := fun _ => 0

/-- A segment that the constructor has mapped: the header's four words and the
ring are one object, so they are fewer than `PTRDIFF_MAX` bytes. -/
structure Segment where
  size : ℕ
  mapped : size + 4 * 8 < 2 ^ 63

inductive Word
  | read
  | write
  | readIndex
  | writeIndex
deriving DecidableEq

inductive Access
  | load (w : Word)
  | store (w : Word) (v : ℕ)
  | copyOut (index len : ℕ)
  | copyIn (index : ℕ) (bytes : List UInt8)

def Access.Answer : Access → Type
  | .load _ => ℕ
  | .copyOut _ _ => List UInt8
  | .store _ _ | .copyIn _ _ => Unit

def Access.InBounds (size : ℕ) : Access → Prop
  | .copyOut index len => ∀ j < len, index + j < size
  | .copyIn index bytes => ∀ j < bytes.length, index + j < size
  | .load _ | .store _ _ => True

namespace ShmData

def get (d : ShmData) : Word → ℕ
  | .read => d.read
  | .write => d.write
  | .readIndex => d.readIndex
  | .writeIndex => d.writeIndex

def set (d : ShmData) (v : ℕ) : Word → ShmData
  | .read => { d with read := v }
  | .write => { d with write := v }
  | .readIndex => { d with readIndex := v }
  | .writeIndex => { d with writeIndex := v }

def access : (x : Access) → ShmData → ShmData × x.Answer
  | .load w, d => (d, d.get w)
  | .store w v, d => (d.set v w, ())
  | .copyOut index len, d => (d, readRange d.data index len)
  | .copyIn index bytes, d => ({ d with data := writeRange d.data index bytes }, ())

end ShmData

abbrev Code := Prog Access Access.Answer

def load (w : Word) : Code ℕ := Prog.perform (Access.load w)

def store (w : Word) (v : ℕ) : Code Unit := Prog.perform (Access.store w v)

def memcpyOut (index len : ℕ) : Code (List UInt8) := Prog.perform (Access.copyOut index len)

def memmoveIn (index : ℕ) (bytes : List UInt8) : Code Unit := Prog.perform (Access.copyIn index bytes)

namespace ShmBuffer

variable (size : ℕ)

def readable : Code ℕ := do
  let write ← load .write
  let read ← load .read
  pure (sub64 write read)

def writable : Code ℕ := do
  let read ← load .read
  let write ← load .write
  pure (sub64 (add64 size read) write)

def wrap (index : ℕ) : ℕ := if size ≤ index then sub64 index size else index

def readImpl (len offset : ℕ) : Code (List UInt8 × ℕ) := do
  let total ← readable
  if total ≤ offset then pure ([], 0)
  else
    let len := min len (sub64 total offset)
    if len = 0 then pure ([], 0)
    else do
      let readIndex ← load .readIndex
      let index := wrap size (add64 readIndex offset)
      let temp := sub64 size index
      if temp < len then do
        let head ← memcpyOut index temp
        let tail ← memcpyOut 0 (sub64 len temp)
        pure (head ++ tail, sub64 len temp)
      else do
        let bytes ← memcpyOut index len
        pure (bytes, if add64 index len = size then 0 else add64 index len)

def writeImpl (buf : List UInt8) (offset : ℕ) : Code (Option ℕ) := do
  let total ← writable size
  if total ≤ offset then pure none
  else if sub64 total offset < buf.length then pure none
  else do
    let writeIndex ← load .writeIndex
    let index := wrap size (add64 writeIndex offset)
    let temp := sub64 size index
    if temp < buf.length then do
      memmoveIn index (buf.take temp)
      memmoveIn 0 (buf.drop temp)
      pure (some (sub64 buf.length temp))
    else do
      memmoveIn index buf
      pure (some (if add64 index buf.length = size then 0 else add64 index buf.length))

def write (buf : List UInt8) : Code Bool := do
  let result ← writeImpl size buf 0
  match result with
  | none => pure false
  | some index => do
    store .writeIndex index
    let write ← load .write
    store .write (add64 write buf.length)
    pure true

/-- The part of `write(len)` that moves the index; it passes through `size_`. -/
def advanceWriteIndex (len : ℕ) : Code Unit := do
  let writeIndex ← load .writeIndex
  let temp := sub64 size writeIndex
  if temp < len then store .writeIndex (sub64 len temp)
  else do
    let writeIndex ← load .writeIndex
    store .writeIndex (add64 writeIndex len)
    let writeIndex ← load .writeIndex
    if writeIndex = size then store .writeIndex 0 else pure ()

/-- `write(len)` -/
def commit (len : ℕ) : Code Unit := do
  let room ← writable size
  if room < len then pure ()
  else do
    advanceWriteIndex size len
    let write ← load .write
    store .write (add64 write len)

def fill (buf : List UInt8) (offset : ℕ) : Code Bool := do
  let result ← writeImpl size buf offset
  pure result.isSome

def read (len : ℕ) : Code (List UInt8) := do
  let (bytes, index) ← readImpl size len 0
  if 0 < bytes.length then do
    store .readIndex index
    let read ← load .read
    store .read (add64 read bytes.length)
    pure bytes
  else pure bytes

/-- `read(len)` -/
def skip (len : ℕ) : Code Unit := do
  let total ← readable
  let len := min len total
  if len = 0 then pure ()
  else do
    let index ← load .readIndex
    let temp := sub64 size index
    let index :=
      if temp < len then sub64 len temp
      else if add64 index len = size then 0 else add64 index len
    store .readIndex index
    let read ← load .read
    store .read (add64 read len)

def peek (len offset : ℕ) : Code (List UInt8) := do
  let (bytes, _) ← readImpl size len offset
  pure bytes

end ShmBuffer

end Simple.Shm
