import Simple.Lib.Md5
import Simple.Utils.Sha1

/-! `md5_context` keeps four words, the number of bits, and what is left of the input. -/

namespace Simple.Utils.Md5

open Simple.Lib Simple.Lib.Bytes
open Simple.Lib.Md5 (State compress pad)
open Simple.Utils.Sha1 (leftRotate)

def get32BitLe (value : List UInt8) : UInt32 :=
  (((value.getD 3 0).toUInt32 <<< 8 ||| (value.getD 2 0).toUInt32) <<< 8 |||
    (value.getD 1 0).toUInt32) <<< 8 ||| (value.getD 0 0).toUInt32

def fnF (x y z : UInt32) : UInt32 := ((y ^^^ z) &&& x) ^^^ z

def fnG (x y z : UInt32) : UInt32 := fnF z x y

def fnH (x y z : UInt32) : UInt32 := x ^^^ y ^^^ z

def fnI (x y z : UInt32) : UInt32 := y ^^^ (x ||| ~~~z)

/-- The four variables that are named from `w` on, in a circle, are the arguments. -/
def step (fn : UInt32 → UInt32 → UInt32 → UInt32) (vars : Fin 4 → UInt32) (w : Fin 4)
    (data s : UInt32) : Fin 4 → UInt32 :=
  let sum := vars w + (fn (vars (w + 1)) (vars (w + 2)) (vars (w + 3)) + data)
  Function.update vars w (leftRotate sum s + vars (w + 1))

/-- Of each call in `transform`: the word of `in`, what is added to it, and the rotation. -/
def arguments : List (ℕ × UInt32 × UInt32) :=
  [(0, 0xd76aa478, 7), (1, 0xe8c7b756, 12), (2, 0x242070db, 17), (3, 0xc1bdceee, 22),
    (4, 0xf57c0faf, 7), (5, 0x4787c62a, 12), (6, 0xa8304613, 17), (7, 0xfd469501, 22),
    (8, 0x698098d8, 7), (9, 0x8b44f7af, 12), (10, 0xffff5bb1, 17), (11, 0x895cd7be, 22),
    (12, 0x6b901122, 7), (13, 0xfd987193, 12), (14, 0xa679438e, 17), (15, 0x49b40821, 22),
    (1, 0xf61e2562, 5), (6, 0xc040b340, 9), (11, 0x265e5a51, 14), (0, 0xe9b6c7aa, 20),
    (5, 0xd62f105d, 5), (10, 0x02441453, 9), (15, 0xd8a1e681, 14), (4, 0xe7d3fbc8, 20),
    (9, 0x21e1cde6, 5), (14, 0xc33707d6, 9), (3, 0xf4d50d87, 14), (8, 0x455a14ed, 20),
    (13, 0xa9e3e905, 5), (2, 0xfcefa3f8, 9), (7, 0x676f02d9, 14), (12, 0x8d2a4c8a, 20),
    (5, 0xfffa3942, 4), (8, 0x8771f681, 11), (11, 0x6d9d6122, 16), (14, 0xfde5380c, 23),
    (1, 0xa4beea44, 4), (4, 0x4bdecfa9, 11), (7, 0xf6bb4b60, 16), (10, 0xbebfbc70, 23),
    (13, 0x289b7ec6, 4), (0, 0xeaa127fa, 11), (3, 0xd4ef3085, 16), (6, 0x04881d05, 23),
    (9, 0xd9d4d039, 4), (12, 0xe6db99e5, 11), (15, 0x1fa27cf8, 16), (2, 0xc4ac5665, 23),
    (0, 0xf4292244, 6), (7, 0x432aff97, 10), (14, 0xab9423a7, 15), (5, 0xfc93a039, 21),
    (12, 0x655b59c3, 6), (3, 0x8f0ccc92, 10), (10, 0xffeff47d, 15), (1, 0x85845dd1, 21),
    (8, 0x6fa87e4f, 6), (15, 0xfe2ce6e0, 10), (6, 0xa3014314, 15), (13, 0x4e0811a1, 21),
    (4, 0xf7537e82, 6), (11, 0xbd3af235, 10), (2, 0x2ad7d2bb, 15), (9, 0xeb86d391, 21)]

/-- The calls in `transform`: each begins with the variable before that of the last. -/
def call (words : Fin 16 → UInt32) (vars : Fin 4 → UInt32) (n : ℕ) : Fin 4 → UInt32 :=
  let (k, t, s) := arguments.getD n (0, 0, 0)
  let fn := if n < 16 then fnF else if n < 32 then fnG else if n < 48 then fnH else fnI
  step fn vars (.ofNat 4 (3 * n)) (words (.ofNat 16 k) + t) s

structure Context where
  state : Fin 4 → UInt32 := fun _ => 0
  count : UInt64 := 0
  buff : List UInt8 := List.replicate 64 0

namespace Context

def init (ctx : Context) : Context :=
  { ctx with count := 0, state := ![0x67452301, 0xEFCDAB89, 0x98BADCFE, 0x10325476] }

def transform (state : Fin 4 → UInt32) (block : List UInt8) : Fin 4 → UInt32 :=
  let words (i : Fin 16) := get32BitLe (block.drop (4 * i))
  let vars := (List.range 64).foldl (call words) state
  fun i => state i + vars i

/-- `count` is in bits. -/
def update (ctx : Context) (data : List UInt8) : Context :=
  let have' := ((ctx.count >>> 3) &&& 63).toNat
  let count := ctx.count + UInt64.ofNat data.length <<< 3
  let (state, buff) := Blocks.feed 64 transform ctx.state have' ctx.buff data
  ⟨state, count, buff⟩

/-- The two updates of `final`. -/
def close (ctx : Context) : Context :=
  let countTemp := toLe 8 ctx.count.toNat
  let have' := ((ctx.count >>> 3) &&& 63).toNat
  let len := if 64 - have' < 1 + 8 then 64 - have' + 64 else 64 - have'
  (ctx.update (Sha1.Context.padding.take (len - 8))).update countTemp

def final (ctx : Context) : List UInt8 := (List.ofFn ctx.close.state).flatMap fun s => toLe 4 s.toNat

end Context

lemma fnF_eq (x y z : UInt32) : fnF x y z = Lib.Md5.f x y z := by
  apply UInt32.toBitVec_inj.mp
  ext i hi
  simp only [fnF, Lib.Md5.f, UInt32.toBitVec_and, UInt32.toBitVec_xor, UInt32.toBitVec_or,
    UInt32.toBitVec_not, BitVec.getElem_and, BitVec.getElem_xor, BitVec.getElem_or,
    BitVec.getElem_not]
  cases x.toBitVec[i] <;> simp

lemma fnG_eq (x y z : UInt32) : fnG x y z = Lib.Md5.g x y z := by
  apply UInt32.toBitVec_inj.mp
  ext i hi
  simp only [fnG, fnF, Lib.Md5.g, UInt32.toBitVec_and, UInt32.toBitVec_xor, UInt32.toBitVec_or,
    UInt32.toBitVec_not, BitVec.getElem_and, BitVec.getElem_xor, BitVec.getElem_or,
    BitVec.getElem_not]
  cases z.toBitVec[i] <;> simp

lemma fn_eq (n : ℕ) :
    (if n < 16 then fnF else if n < 32 then fnG else if n < 48 then fnH else fnI) = Lib.Md5.fn n := by
  have hf : fnF = Lib.Md5.f := by
    funext x y z
    exact fnF_eq x y z
  have hg : fnG = Lib.Md5.g := by
    funext x y z
    exact fnG_eq x y z
  rw [hf, hg]
  rfl

lemma arguments_eq : ∀ n < 64, (arguments.getD n (0, 0, 0)).1 = Lib.Md5.index n ∧
    (arguments.getD n (0, 0, 0)).2.2 = Lib.Md5.shift n := by
  decide +kernel

/-- The constants of the code are close enough to the sines to be their integer parts. -/
lemma constants_close : ∀ n < 64,
    (arguments.getD n (0, 0, 0)).2.1.toNat * 2 ^ 28 + 6 * (n + 1) ≤ (Sine.point (n + 1)).2.natAbs ∧
    (Sine.point (n + 1)).2.natAbs + 6 * (n + 1) <
      ((arguments.getD n (0, 0, 0)).2.1.toNat + 1) * 2 ^ 28 := by
  decide +kernel

lemma constants_eq {n : ℕ} (hn : n < 64) : (arguments.getD n (0, 0, 0)).2.1 = Lib.Md5.sine n := by
  obtain ⟨hlow, hhigh⟩ := constants_close n hn
  rw [Lib.Md5.sine, Sine.floor_sin (by omega) hlow hhigh, UInt32.ofNat_toNat]

def view (vars : Fin 4 → UInt32) (w : Fin 4) : State :=
  ⟨vars w, vars (w + 1), vars (w + 2), vars (w + 3)⟩

lemma view_step (fn : UInt32 → UInt32 → UInt32 → UInt32) (vars : Fin 4 → UInt32) (w : Fin 4)
    (data s : UInt32) : view (step fn vars w data s) (w + 3) =
      let v := view vars w
      ⟨v.d, leftRotate (v.a + (fn v.b v.c v.d + data)) s + v.b, v.b, v.c⟩ := by
  fin_cases w <;> simp [view, step]

lemma get32BitLe_eq (a b c d : UInt8) (rest : List UInt8) :
    get32BitLe (a :: b :: c :: d :: rest) = .ofNat (ofLe [a, b, c, d]) := by
  have hbe := Sha1.get32BitBe_eq d c b a []
  have hreverse : ofBe [d, c, b, a] = ofLe [a, b, c, d] := rfl
  rw [hreverse] at hbe
  exact hbe

variable {block : List UInt8} {vars : Fin 4 → UInt32} {s : State} {n : ℕ}

lemma words_eq (hlen : block.length = 64) (i : Fin 16) :
    get32BitLe (block.drop (4 * i)) = Lib.Md5.word block i := by
  have hdrop : 4 ≤ (block.drop (4 * i)).length := by
    rw [List.length_drop]
    omega
  rw [Lib.Md5.word]
  generalize block.drop (4 * i) = xs at hdrop
  rcases xs with _ | ⟨a, _ | ⟨b, _ | ⟨c, _ | ⟨d, rest⟩⟩⟩⟩
  case cons.cons.cons.cons => exact get32BitLe_eq a b c d rest
  all_goals simp at hdrop

lemma index_lt (n : ℕ) : Lib.Md5.index n < 16 := by
  unfold Lib.Md5.index
  split_ifs with h
  · exact h
  all_goals exact Nat.mod_lt _ (by decide)

lemma call_view (hlen : block.length = 64) (hn : n < 64) (h : view vars (.ofNat 4 (3 * n)) = s) :
    view (call (fun i => get32BitLe (block.drop (4 * i))) vars n) (.ofNat 4 (3 * (n + 1))) =
      Lib.Md5.operation block s n := by
  have hplace : Fin.ofNat 4 (3 * (n + 1)) = Fin.ofNat 4 (3 * n) + 3 := by
    apply Fin.ext
    simp only [Fin.val_add, Fin.val_ofNat]
    omega
  obtain ⟨hindex, hshift⟩ := arguments_eq n hn
  have hword := words_eq hlen (.ofNat 16 (Lib.Md5.index n))
  rw [Fin.val_ofNat, Nat.mod_eq_of_lt (index_lt n)] at hword
  simp only [call, fn_eq, hindex, hshift, constants_eq hn]
  rw [hplace, view_step, h, Fin.val_ofNat, Nat.mod_eq_of_lt (index_lt n), hword]
  dsimp only
  rw [← UInt32.add_assoc, ← UInt32.add_assoc, UInt32.add_comm _ s.b]
  rfl

lemma calls_view (vars : Fin 4 → UInt32) (hlen : block.length = 64) (s : State) (hn : n ≤ 64) (h : view vars 0 = s) :
    view ((List.range n).foldl (call (fun i => get32BitLe (block.drop (4 * i)))) vars)
      (.ofNat 4 (3 * n)) = Lib.Md5.operations block s n := by
  induction n with
  | zero => exact h
  | succ n ih =>
    rw [Lib.Md5.operations, List.range_succ, List.foldl_append, List.foldl_append]
    exact call_view hlen hn (ih (Nat.le_of_succ_le hn))

def wordsOf (s : State) : Fin 4 → UInt32 := ![s.a, s.b, s.c, s.d]

lemma transform_words (s : State) (hlen : block.length = 64) :
    Context.transform (wordsOf s) block = wordsOf (compress s block) := by
  have hcalls := calls_view (wordsOf s) hlen s (le_refl 64) rfl
  funext i
  rw [Context.transform, compress, ← hcalls]
  fin_cases i <;> rfl

variable {message stream data : List UInt8} {ctx : Context}

/-- What is kept of a message that has been taken in. -/
structure Absorbed (message : List UInt8) (ctx : Context) : Prop where
  fed : Blocks.Fed 64 Context.transform (wordsOf Lib.Md5.initial) message (ctx.state, ctx.buff)
  count : ctx.count.toNat = 8 * message.length % 2 ^ 64

lemma Absorbed.used (h : Absorbed message ctx) :
    ((ctx.count >>> 3) &&& 63).toNat = message.length % 64 := by
  rw [Sha1.used_eq, UInt64.toNat_shiftRight, h.count]
  change (8 * message.length % 2 ^ 64) >>> 3 % 64 = _
  rw [Nat.shiftRight_eq_div_pow]
  omega

lemma Absorbed.update (h : Absorbed message ctx) (data : List UInt8) :
    Absorbed (message ++ data) (ctx.update data) := by
  refine ⟨?_, ?_⟩
  · rw [Context.update, h.used]
    exact h.fed.feed data
  · change (ctx.count + UInt64.ofNat data.length <<< 3).toNat = _
    rw [UInt64.toNat_add, h.count, UInt64.toNat_shiftLeft, UInt64.toNat_ofNat', List.length_append]
    change (8 * message.length % 2 ^ 64 + (data.length % 2 ^ 64) <<< 3 % 2 ^ 64) % 2 ^ 64 = _
    rw [Nat.shiftLeft_eq]
    omega

lemma absorbed_init (h : ctx.buff.length = 64) : Absorbed [] ctx.init :=
  ⟨Blocks.Fed.nil h, rfl⟩

lemma Absorbed.close (h : Absorbed message ctx) : Absorbed (pad message) ctx.close := by
  have hlen : (if 64 - message.length % 64 < 1 + 8 then 64 - message.length % 64 + 64
      else 64 - message.length % 64) - 8 = (119 - message.length % 64) % 64 + 1 := by
    split <;> omega
  have hbits : toLe 8 (8 * message.length % 2 ^ 64) = toLe 8 (8 * message.length) :=
    toLe_mod 8 (8 * message.length)
  rw [Context.close, h.used, hlen, Sha1.padding_take (by omega), h.count, hbits]
  exact (h.update _).update _

lemma Absorbed.final (h : Absorbed message ctx) : ctx.final = Lib.Md5.md5 message := by
  have hstate : ctx.close.state = _ :=
    h.close.fed.state_map fun s _ hlen => transform_words s hlen
  rw [Context.final, hstate]
  rfl

lemma Absorbed.updates (h : Absorbed message ctx) (pieces : List (List UInt8)) :
    Absorbed (message ++ pieces.flatten) (pieces.foldl Context.update ctx) := by
  induction pieces generalizing message ctx with
  | nil => simpa using h
  | cons piece pieces ih =>
    rw [List.flatten_cons, ← List.append_assoc]
    exact ih (h.update piece)

end Simple.Utils.Md5
