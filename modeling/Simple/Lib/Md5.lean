import Simple.Lib.Blocks
import Simple.Lib.Bytes
import Simple.Lib.Sine

/-! The message digest of 128 bits, as its standard defines it. -/

namespace Simple.Lib.Md5

open Bytes

def f (x y z : UInt32) : UInt32 := (x &&& y) ||| (~~~x &&& z)

def g (x y z : UInt32) : UInt32 := (x &&& z) ||| (y &&& ~~~z)

def h (x y z : UInt32) : UInt32 := x ^^^ y ^^^ z

def i (x y z : UInt32) : UInt32 := y ^^^ (x ||| ~~~z)

def fn (t : ℕ) : UInt32 → UInt32 → UInt32 → UInt32 :=
  if t < 16 then f else if t < 32 then g else if t < 48 then h else i

def index (t : ℕ) : ℕ :=
  if t < 16 then t else if t < 32 then (5 * t + 1) % 16 else if t < 48 then (3 * t + 5) % 16
  else 7 * t % 16

def shifts : List (List UInt32) := [[7, 12, 17, 22], [5, 9, 14, 20], [4, 11, 16, 23], [6, 10, 15, 21]]

def shift (t : ℕ) : UInt32 := (shifts.getD (t / 16) []).getD (t % 4) 0

/-- The table of sines, which the standard counts from one. -/
noncomputable def sine (t : ℕ) : UInt32 := .ofNat ⌊2 ^ 32 * |Real.sin (t + 1 : ℕ)|⌋₊

structure State where
  a : UInt32
  b : UInt32
  c : UInt32
  d : UInt32

def initial : State := ⟨0x67452301, 0xefcdab89, 0x98badcfe, 0x10325476⟩

def word (block : List UInt8) (k : ℕ) : UInt32 := .ofNat (ofLe ((block.drop (4 * k)).take 4))

noncomputable def operation (block : List UInt8) (s : State) (t : ℕ) : State :=
  ⟨s.d, s.b + rotl (s.a + fn t s.b s.c s.d + word block (index t) + sine t) (shift t), s.b, s.c⟩

noncomputable def operations (block : List UInt8) (s : State) (n : ℕ) : State :=
  (List.range n).foldl (operation block) s

noncomputable def compress (s : State) (block : List UInt8) : State :=
  let s' := operations block s 64
  ⟨s.a + s'.a, s.b + s'.b, s.c + s'.c, s.d + s'.d⟩

/-- To whole blocks of 64 bytes, the last eight of which are the length in bits. -/
def pad (message : List UInt8) : List UInt8 :=
  message ++ 0x80 :: List.replicate ((119 - message.length % 64) % 64) 0 ++
    toLe 8 (8 * message.length)

def State.bytes (s : State) : List UInt8 := [s.a, s.b, s.c, s.d].flatMap fun w => toLe 4 w.toNat

noncomputable def md5 (message : List UInt8) : List UInt8 :=
  (Blocks.absorb 64 compress initial (pad message)).1.bytes

end Simple.Lib.Md5
