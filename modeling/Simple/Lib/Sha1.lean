import Simple.Lib.Blocks
import Simple.Lib.Bytes

/-! The secure hash of 160 bits, as its standard defines it. -/

namespace Simple.Lib.Sha1

open Bytes

def ch (x y z : UInt32) : UInt32 := (x &&& y) ^^^ (~~~x &&& z)

def parity (x y z : UInt32) : UInt32 := x ^^^ y ^^^ z

def maj (x y z : UInt32) : UInt32 := (x &&& y) ^^^ (x &&& z) ^^^ (y &&& z)

def f (t : ℕ) : UInt32 → UInt32 → UInt32 → UInt32 :=
  if t < 20 then ch else if t < 40 then parity else if t < 60 then maj else parity

def k (t : ℕ) : UInt32 :=
  if t < 20 then 0x5a827999 else if t < 40 then 0x6ed9eba1 else if t < 60 then 0x8f1bbcdc
  else 0xca62c1d6

structure State where
  a : UInt32
  b : UInt32
  c : UInt32
  d : UInt32
  e : UInt32

def initial : State := ⟨0x67452301, 0xefcdab89, 0x98badcfe, 0x10325476, 0xc3d2e1f0⟩

def word (block : List UInt8) (t : ℕ) : UInt32 := .ofNat (ofBe ((block.drop (4 * t)).take 4))

def schedule (block : List UInt8) (t : ℕ) : UInt32 :=
  if t < 16 then word block t
  else rotl (schedule block (t - 3) ^^^ schedule block (t - 8) ^^^ schedule block (t - 14) ^^^
    schedule block (t - 16)) 1

def round (w : ℕ → UInt32) (s : State) (t : ℕ) : State :=
  ⟨rotl s.a 5 + f t s.b s.c s.d + s.e + k t + w t, s.a, rotl s.b 30, s.c, s.d⟩

def rounds (block : List UInt8) (s : State) (n : ℕ) : State :=
  (List.range n).foldl (round (schedule block)) s

def compress (s : State) (block : List UInt8) : State :=
  let s' := rounds block s 80
  ⟨s.a + s'.a, s.b + s'.b, s.c + s'.c, s.d + s'.d, s.e + s'.e⟩

/-- To whole blocks of 64 bytes, the last eight of which are the length in bits. -/
def pad (message : List UInt8) : List UInt8 :=
  message ++ 0x80 :: List.replicate ((119 - message.length % 64) % 64) 0 ++
    toBe 8 (8 * message.length)

def State.bytes (s : State) : List UInt8 :=
  [s.a, s.b, s.c, s.d, s.e].flatMap fun w => toBe 4 w.toNat

def sha1 (message : List UInt8) : List UInt8 :=
  (Blocks.absorb 64 compress initial (pad message)).1.bytes

def words (block : List UInt8) : ℕ → List UInt32
  | 0 => []
  | n + 1 =>
    let ws := words block n
    (if n < 16 then word block n
      else rotl (ws.getD 2 0 ^^^ ws.getD 7 0 ^^^ ws.getD 13 0 ^^^ ws.getD 15 0) 1) :: ws

lemma words_getD (block : List UInt8) {n t : ℕ} (ht : t < n) :
    (words block n).getD (n - 1 - t) 0 = schedule block t := by
  induction n generalizing t with
  | zero => exact absurd ht (Nat.not_lt_zero t)
  | succ n ih =>
    by_cases hn : t = n
    · subst hn
      have hplace : t + 1 - 1 - t = 0 := by omega
      rw [words, hplace, List.getD_cons_zero, schedule]
      by_cases h16 : t < 16
      · rw [if_pos h16, if_pos h16]
      · have hword : ∀ i, i < t → (words block t).getD i 0 = schedule block (t - (i + 1)) := by
          intro i hi
          rw [← ih (by omega)]
          congr 1
          omega
        rw [if_neg h16, if_neg h16, hword 2 (by omega), hword 7 (by omega), hword 13 (by omega),
          hword 15 (by omega)]
    · have hplace : n + 1 - 1 - t = n - 1 - t + 1 := by omega
      rw [words, hplace, List.getD_cons_succ]
      exact ih (by omega)

lemma rounds_words (block : List UInt8) (s : State) {n : ℕ} (hn : n ≤ 80) :
    rounds block s n =
      (List.range n).foldl (round fun t => (words block 80).getD (79 - t) 0) s := by
  induction n with
  | zero => rfl
  | succ n ih =>
    rw [rounds, List.range_succ, List.foldl_append, List.foldl_append, ← rounds,
      ih (Nat.le_of_succ_le hn)]
    simp only [List.foldl_cons, List.foldl_nil, round]
    rw [words_getD block (show n < 80 from hn)]

end Simple.Lib.Sha1
