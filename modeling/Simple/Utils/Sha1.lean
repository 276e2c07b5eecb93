import Simple.Lib.Sha1

/-! `sha1_context` keeps five words, a circular block of sixteen, and what is left of the input. -/

namespace Simple.Utils.Sha1

open Simple.Lib Simple.Lib.Bytes
open Simple.Lib.Sha1 (State schedule compress pad)

def leftRotate (d num : UInt32) : UInt32 := d <<< num ||| d >>> (32 - num)

def get32BitBe (value : List UInt8) : UInt32 :=
  (((value.getD 0 0).toUInt32 <<< 8 ||| (value.getD 1 0).toUInt32) <<< 8 |||
    (value.getD 2 0).toUInt32) <<< 8 ||| (value.getD 3 0).toUInt32

def blk (block : Fin 16 → UInt32) (i : Fin 16) : UInt32 :=
  leftRotate (block (i + 13) ^^^ block (i + 8) ^^^ block (i + 2) ^^^ block i) 1

def f1 (x y w : UInt32) : UInt32 := (w &&& (x ^^^ y)) ^^^ y

def f2 (x y w : UInt32) : UInt32 := w ^^^ x ^^^ y

def f3 (x y w : UInt32) : UInt32 := ((w ||| x) &&& y) ||| (w &&& x)

/-- The variables `a` to `e` by their place, and the words of the block. -/
structure Locals where
  vars : Fin 5 → UInt32
  block : Fin 16 → UInt32

namespace Locals

/-- The five variables that are named from `v` on, in a circle, are the arguments. -/
def step0 (l : Locals) (fn : UInt32 → UInt32 → UInt32 → UInt32) (v : Fin 5) (t : UInt32)
    (i : Fin 16) : Locals :=
  let z := l.vars (v + 4) + (fn (l.vars (v + 2)) (l.vars (v + 3)) (l.vars (v + 1)) + l.block i + t +
    leftRotate (l.vars v) 5)
  let w := leftRotate (l.vars (v + 1)) 30
  { l with vars := Function.update (Function.update l.vars (v + 4) z) (v + 1) w }

def step1 (l : Locals) (fn : UInt32 → UInt32 → UInt32 → UInt32) (v : Fin 5) (t : UInt32)
    (i : Fin 16) : Locals :=
  step0 { l with block := Function.update l.block i (blk l.block i) } fn v t i

/-- The eighty calls in `transform`: each begins with the variable before that of the last. -/
def call (l : Locals) (n : ℕ) : Locals :=
  if n < 16 then l.step0 f1 (.ofNat 5 (4 * n)) 0x5a827999 (.ofNat 16 n)
  else if n < 20 then l.step1 f1 (.ofNat 5 (4 * n)) 0x5a827999 (.ofNat 16 n)
  else if n < 40 then l.step1 f2 (.ofNat 5 (4 * n)) 0x6ed9eba1 (.ofNat 16 n)
  else if n < 60 then l.step1 f3 (.ofNat 5 (4 * n)) 0x8f1bbcdc (.ofNat 16 n)
  else l.step1 f2 (.ofNat 5 (4 * n)) 0xca62c1d6 (.ofNat 16 n)

end Locals

structure Context where
  state : Fin 5 → UInt32 := fun _ => 0
  count : UInt64 := 0
  buff : List UInt8 := List.replicate 64 0

namespace Context

/-- The count and the buffer of an earlier use are left. -/
def init (ctx : Context) : Context :=
  { ctx with state := ![0x67452301, 0xefcdab89, 0x98badcfe, 0x10325476, 0xc3d2e1f0] }

def transform (state : Fin 5 → UInt32) (block : List UInt8) : Fin 5 → UInt32 :=
  let words (i : Fin 16) := get32BitBe (block.drop (4 * i))
  let l := (List.range 80).foldl Locals.call ⟨state, words⟩
  fun i => state i + l.vars i

def update (ctx : Context) (data : List UInt8) : Context :=
  let used := (ctx.count &&& 63).toNat
  let count := ctx.count + .ofNat data.length
  let need := 64 - used
  if data.length < need then { ctx with count := count, buff := Blocks.copy ctx.buff used data }
  else if used = 0 then
    let (state, rest) := Blocks.absorb 64 transform ctx.state data
    ⟨state, count, Blocks.copy ctx.buff 0 rest⟩
  else
    let buff := Blocks.copy ctx.buff used (data.take need)
    let (state, rest) := Blocks.absorb 64 transform (transform ctx.state buff) (data.drop need)
    ⟨state, count, Blocks.copy buff 0 rest⟩

def padding : List UInt8 := 0x80 :: List.replicate 127 0

/-- The two updates of `final`. -/
def close (ctx : Context) : Context :=
  let countTemp := toBe 8 (ctx.count <<< 3).toNat
  let used := (ctx.count &&& 63).toNat
  let len := if 64 - used < 1 + 8 then 64 - used + 64 else 64 - used
  (ctx.update (padding.take (len - 8))).update countTemp

def final (ctx : Context) : List UInt8 := (List.ofFn ctx.close.state).flatMap fun s => toBe 4 s.toNat

end Context

lemma f1_eq (x y w : UInt32) : f1 x y w = Lib.Sha1.ch w x y := by
  apply UInt32.toBitVec_inj.mp
  ext i hi
  simp only [f1, Lib.Sha1.ch, UInt32.toBitVec_and, UInt32.toBitVec_xor, UInt32.toBitVec_not,
    BitVec.getElem_and, BitVec.getElem_xor, BitVec.getElem_not]
  cases w.toBitVec[i] <;> simp

lemma f3_eq (x y w : UInt32) : f3 x y w = Lib.Sha1.maj w x y := by
  apply UInt32.toBitVec_inj.mp
  ext i hi
  simp only [f3, Lib.Sha1.maj, UInt32.toBitVec_and, UInt32.toBitVec_xor, UInt32.toBitVec_or,
    BitVec.getElem_and, BitVec.getElem_xor, BitVec.getElem_or]
  cases w.toBitVec[i] <;> cases x.toBitVec[i] <;> simp

def view (vars : Fin 5 → UInt32) (v : Fin 5) : State :=
  ⟨vars v, vars (v + 1), vars (v + 2), vars (v + 3), vars (v + 4)⟩

lemma view_step0 (l : Locals) (fn : UInt32 → UInt32 → UInt32 → UInt32) (v : Fin 5) (t : UInt32)
    (i : Fin 16) : view (l.step0 fn v t i).vars (v + 4) =
      let s := view l.vars v
      ⟨leftRotate s.a 5 + fn s.c s.d s.b + s.e + t + l.block i, s.a, leftRotate s.b 30, s.c, s.d⟩ := by
  have hsum : ∀ p q r s u : UInt32, p + (q + r + s + u) = u + q + p + s + r := by
    intro p q r s u
    ac_rfl
  fin_cases v <;> simp [view, Locals.step0, Function.update, hsum]

def Locals.fresh (l : Locals) (n : ℕ) : Fin 16 → UInt32 :=
  if n < 16 then l.block else Function.update l.block (.ofNat 16 n) (blk l.block (.ofNat 16 n))

lemma call_eq (l : Locals) (n : ℕ) : l.call n =
    Locals.step0 { l with block := l.fresh n } (fun x y w => Lib.Sha1.f n w x y) (.ofNat 5 (4 * n))
      (Lib.Sha1.k n) (.ofNat 16 n) := by
  have h1 : (fun x y w => Lib.Sha1.ch w x y) = f1 := by
    funext x y w
    exact (f1_eq x y w).symm
  have h3 : (fun x y w => Lib.Sha1.maj w x y) = f3 := by
    funext x y w
    exact (f3_eq x y w).symm
  have h2 : (fun x y w => Lib.Sha1.parity w x y) = f2 := rfl
  rw [Locals.call, Locals.fresh]
  by_cases h16 : n < 16
  · have h20 : n < 20 := by omega
    simp only [if_pos h16, if_pos h20, Lib.Sha1.f, Lib.Sha1.k, h1]
  · by_cases h20 : n < 20
    · simp only [if_neg h16, if_pos h20, Lib.Sha1.f, Lib.Sha1.k, h1]
      rfl
    · by_cases h40 : n < 40
      · simp only [if_neg h16, if_neg h20, if_pos h40, Lib.Sha1.f, Lib.Sha1.k, h2]
        rfl
      · by_cases h60 : n < 60
        · simp only [if_neg h16, if_neg h20, if_neg h40, if_pos h60, Lib.Sha1.f, Lib.Sha1.k, h3]
          rfl
        · simp only [if_neg h16, if_neg h20, if_neg h40, if_neg h60, Lib.Sha1.f, Lib.Sha1.k, h2]
          rfl

/-- After `n` calls: the block holds the last sixteen words of the schedule. -/
structure Follows (block : List UInt8) (s : State) (n : ℕ) (l : Locals) : Prop where
  vars : view l.vars (.ofNat 5 (4 * n)) = s
  window : ∀ t, t < max n 16 → max n 16 ≤ t + 16 → l.block (.ofNat 16 t) = schedule block t

variable {block : List UInt8} {s : State} {n : ℕ} {l : Locals}

lemma place_add {t u i : ℕ} (h : t % 16 = (u + i) % 16) :
    Fin.ofNat 16 t = Fin.ofNat 16 u + Fin.ofNat 16 i := by
  apply Fin.ext
  simp only [Fin.val_add, Fin.val_ofNat]
  omega

lemma Follows.fresh_eq (h : Follows block s n l) (t : ℕ) (hlt : t < max (n + 1) 16)
    (hge : max (n + 1) 16 ≤ t + 16) : l.fresh n (.ofNat 16 t) = schedule block t := by
  rw [Locals.fresh]
  by_cases h16 : n < 16
  · rw [if_pos h16]
    exact h.window t (by omega) (by omega)
  · rw [if_neg h16]
    by_cases ht : t = n
    · subst ht
      have hw : ∀ i u, u < t → t ≤ u + 16 → u % 16 = (t + i) % 16 →
          l.block (Fin.ofNat 16 t + Fin.ofNat 16 i) = schedule block u := by
        intro i u hu hu' hmod
        rw [← place_add hmod]
        exact h.window u (by omega) (by omega)
      have h3 := hw 13 (t - 3) (by omega) (by omega) (by omega)
      have h8 := hw 8 (t - 8) (by omega) (by omega) (by omega)
      have h14 := hw 2 (t - 14) (by omega) (by omega) (by omega)
      have h0 := hw 0 (t - 16) (by omega) (by omega) (by omega)
      rw [Function.update_self, blk, schedule, if_neg h16, ← h3, ← h8, ← h14, ← h0]
      simp only [Fin.ofNat_zero, add_zero]
      rfl
    · have hne : Fin.ofNat 16 t ≠ Fin.ofNat 16 n := by
        intro heq
        have := congrArg Fin.val heq
        simp only [Fin.val_ofNat] at this
        omega
      rw [Function.update_of_ne hne]
      exact h.window t (by omega) (by omega)

lemma Follows.call (h : Follows block s n l) :
    Follows block (Lib.Sha1.round (schedule block) s n) (n + 1) (l.call n) := by
  have hplace : Fin.ofNat 5 (4 * (n + 1)) = Fin.ofNat 5 (4 * n) + 4 := by
    apply Fin.ext
    simp only [Fin.val_add, Fin.val_ofNat]
    omega
  have hword := h.fresh_eq n (by omega) (by omega)
  refine ⟨?_, ?_⟩
  · rw [hplace, call_eq, view_step0]
    simp only [h.vars, hword]
    rfl
  · intro t hlt hge
    rw [call_eq]
    exact h.fresh_eq t hlt hge

lemma Follows.calls (h : Follows block s 0 l) (n : ℕ) :
    Follows block (Lib.Sha1.rounds block s n) n ((List.range n).foldl Locals.call l) := by
  induction n with
  | zero => exact h
  | succ n ih =>
    rw [Lib.Sha1.rounds, List.range_succ, List.foldl_append, List.foldl_append]
    exact ih.call

lemma shift_or (x : UInt32) (b : UInt8) (hx : x.toNat < 2 ^ 24) :
    (x <<< 8 ||| b.toUInt32).toNat = x.toNat * 256 + b.toNat := by
  have hb := b.toNat_lt
  rw [UInt32.toNat_or, UInt32.toNat_shiftLeft, UInt8.toNat_toUInt32]
  change (x.toNat <<< 8) % 2 ^ 32 ||| b.toNat = _
  rw [Nat.shiftLeft_eq, Nat.mod_eq_of_lt (by omega), Nat.mul_comm,
    ← Nat.two_pow_add_eq_or_of_lt hb, Nat.mul_comm]

lemma get32BitBe_eq (a b c d : UInt8) (rest : List UInt8) :
    get32BitBe (a :: b :: c :: d :: rest) = .ofNat (ofBe [a, b, c, d]) := by
  have ha := a.toNat_lt
  have hb := b.toNat_lt
  have hc := c.toNat_lt
  have hd := d.toNat_lt
  have h1 : a.toUInt32.toNat = a.toNat := rfl
  have h2 := shift_or a.toUInt32 b (by omega)
  have h3 := shift_or (a.toUInt32 <<< 8 ||| b.toUInt32) c (by omega)
  have h4 := shift_or ((a.toUInt32 <<< 8 ||| b.toUInt32) <<< 8 ||| c.toUInt32) d (by omega)
  apply UInt32.toNat_inj.mp
  simp only [get32BitBe, List.getD_cons_zero, List.getD_cons_succ]
  have hbe : ofBe [a, b, c, d] = ((a.toNat * 256 + b.toNat) * 256 + c.toNat) * 256 + d.toNat := by
    simp only [ofBe, List.reverse_cons, List.reverse_nil, List.nil_append, List.cons_append, ofLe]
    omega
  rw [UInt32.toNat_ofNat', hbe, h4, h3, h2, h1, Nat.mod_eq_of_lt (by omega)]

lemma words_eq (hlen : block.length = 64) (i : Fin 16) :
    get32BitBe (block.drop (4 * i)) = Lib.Sha1.word block i := by
  have hdrop : 4 ≤ (block.drop (4 * i)).length := by
    rw [List.length_drop]
    omega
  rw [Lib.Sha1.word]
  generalize block.drop (4 * i) = xs at hdrop
  rcases xs with _ | ⟨a, _ | ⟨b, _ | ⟨c, _ | ⟨d, rest⟩⟩⟩⟩
  case cons.cons.cons.cons => exact get32BitBe_eq a b c d rest
  all_goals simp at hdrop

def wordsOf (s : State) : Fin 5 → UInt32 := ![s.a, s.b, s.c, s.d, s.e]

lemma transform_words (s : State) (hlen : block.length = 64) :
    Context.transform (wordsOf s) block = wordsOf (compress s block) := by
  have hstart : Follows block s 0 ⟨wordsOf s, fun i => get32BitBe (block.drop (4 * i))⟩ := by
    refine ⟨rfl, fun t hlt _ => ?_⟩
    have ht : t < 16 := by omega
    have hword := words_eq hlen (.ofNat 16 t)
    rw [Fin.val_ofNat, Nat.mod_eq_of_lt ht] at hword
    rw [schedule, if_pos ht, ← hword]
    simp only [Fin.val_ofNat, Nat.mod_eq_of_lt ht]
  have hvars := (hstart.calls 80).vars
  funext i
  rw [Context.transform, compress, ← hvars]
  fin_cases i <;> rfl

variable {message stream data : List UInt8} {ctx : Context}

/-- What has been taken in since the state was set. -/
structure Taken (stream : List UInt8) (ctx : Context) : Prop where
  fed : Blocks.Fed 64 Context.transform (wordsOf Lib.Sha1.initial) stream (ctx.state, ctx.buff)
  aligned : ctx.count.toNat % 64 = stream.length % 64

lemma Taken.state (h : Taken stream ctx) :
    ctx.state = wordsOf (Blocks.absorb 64 compress Lib.Sha1.initial stream).1 :=
  h.fed.state_map fun s _ hlen => transform_words s hlen

/-- What is kept of a message that has been taken in. -/
structure Absorbed (message : List UInt8) (ctx : Context) : Prop where
  taken : Taken message ctx
  count : ctx.count = .ofNat message.length

lemma used_eq (count : UInt64) : (count &&& 63).toNat = count.toNat % 64 := by
  rw [UInt64.toNat_and]
  exact Nat.and_two_pow_sub_one_eq_mod count.toNat 6

lemma update_eq (ctx : Context) (data : List UInt8) :
    ctx.update data =
      let r := Blocks.feed 64 Context.transform ctx.state (ctx.count.toNat % 64) ctx.buff data
      ⟨r.1, ctx.count + .ofNat data.length, r.2⟩ := by
  unfold Context.update Blocks.feed
  rw [used_eq]
  dsimp only
  split_ifs <;> rfl

lemma Taken.update (h : Taken stream ctx) (data : List UInt8) :
    Taken (stream ++ data) (ctx.update data) := by
  rw [update_eq]
  refine ⟨?_, ?_⟩
  · rw [h.aligned]
    exact h.fed.feed data
  · have haligned := h.aligned
    change (ctx.count + UInt64.ofNat data.length).toNat % 64 = _
    rw [UInt64.toNat_add, UInt64.toNat_ofNat', List.length_append]
    omega

lemma padding_take {n : ℕ} (h : n < 128) :
    Context.padding.take (n + 1) = 0x80 :: List.replicate n 0 := by
  rw [Context.padding, List.take_succ_cons, List.take_replicate, Nat.min_eq_left (by omega)]

def closing (count : ℕ) : List UInt8 :=
  0x80 :: List.replicate ((119 - count % 64) % 64) 0 ++ toBe 8 (8 * count)

lemma pad_eq (message : List UInt8) : pad message = message ++ closing message.length := by
  rw [pad, closing, List.append_assoc]

lemma toBe_bits (count : UInt64) : toBe 8 (count <<< 3).toNat = toBe 8 (8 * count.toNat) := by
  have hbits : (count <<< 3).toNat = 8 * count.toNat % 2 ^ 64 := by
    rw [UInt64.toNat_shiftLeft]
    change count.toNat <<< 3 % 2 ^ 64 = _
    rw [Nat.shiftLeft_eq, Nat.mul_comm]
  apply toBe_congr
  omega

lemma Taken.final (h : Taken stream ctx) : ctx.final =
    (Blocks.absorb 64 compress Lib.Sha1.initial (stream ++ closing ctx.count.toNat)).1.bytes := by
  have hlen : (if 64 - ctx.count.toNat % 64 < 1 + 8 then 64 - ctx.count.toNat % 64 + 64
      else 64 - ctx.count.toNat % 64) - 8 = (119 - ctx.count.toNat % 64) % 64 + 1 := by
    split <;> omega
  have hpad := (h.update (0x80 :: List.replicate ((119 - ctx.count.toNat % 64) % 64) 0)).update
    (toBe 8 (8 * ctx.count.toNat))
  rw [Context.final, Context.close, used_eq, hlen, padding_take (by omega), toBe_bits, hpad.state,
    List.append_assoc, ← closing]
  rfl

lemma Absorbed.update (h : Absorbed message ctx) (data : List UInt8) :
    Absorbed (message ++ data) (ctx.update data) := by
  refine ⟨h.taken.update data, ?_⟩
  rw [update_eq, List.length_append, UInt64.ofNat_add, ← h.count]

lemma absorbed_init : Absorbed [] (Context.init {}) := ⟨⟨Blocks.Fed.nil rfl, rfl⟩, rfl⟩

lemma closing_mod (n : ℕ) : closing (n % 2 ^ 64) = closing n := by
  have hbits : toBe 8 (8 * (n % 2 ^ 64)) = toBe 8 (8 * n) := by
    apply toBe_congr
    omega
  rw [closing, closing, hbits, show n % 2 ^ 64 % 64 = n % 64 by omega]

lemma Absorbed.final (h : Absorbed message ctx) : ctx.final = Lib.Sha1.sha1 message := by
  rw [h.taken.final, h.count, UInt64.toNat_ofNat', closing_mod, ← pad_eq]
  rfl

/-- In whatever pieces the message comes, the hash is that of the whole. -/
theorem sha1_eq (pieces : List (List UInt8)) :
    (pieces.foldl Context.update (Context.init {})).final = Lib.Sha1.sha1 pieces.flatten := by
  have hpieces : Absorbed pieces.flatten (pieces.foldl Context.update (Context.init {})) := by
    induction pieces using List.reverseRecOn with
    | nil => exact absorbed_init
    | append_singleton pieces piece ih =>
      rw [List.foldl_append, List.flatten_append, List.flatten_singleton]
      exact ih.update piece
  exact hpieces.final

end Simple.Utils.Sha1
