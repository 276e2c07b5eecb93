import Simple.Utils.Md5

/-! Contexts that are fed in pieces, and contexts that are used more than once. -/

namespace Simple.Utils

open Simple.Lib Simple.Lib.Bytes
open Simple.Lib.Sha1 (compress initial pad)

inductive HashCall
  | init
  | update (data : List UInt8)
  | final

def Md5.Context.call (ctx : Md5.Context) : HashCall → Md5.Context
  | .init => ctx.init
  | .update data => ctx.update data
  | .final => ctx.close

def Sha1.Context.call (ctx : Sha1.Context) : HashCall → Sha1.Context
  | .init => ctx.init
  | .update data => ctx.update data
  | .final => ctx.close

/-- Each hash is that of the whole, in whatever pieces it comes. -/
theorem digests_eq (pieces : List (List UInt8)) :
    (pieces.foldl Md5.Context.update (Md5.Context.init {})).final = Lib.Md5.md5 pieces.flatten ∧
      (pieces.foldl Sha1.Context.update (Sha1.Context.init {})).final =
        Lib.Sha1.sha1 pieces.flatten := by
  refine ⟨?_, Sha1.sha1_eq pieces⟩
  have hstart : Md5.Absorbed [] (Md5.Context.init {}) := Md5.absorbed_init List.length_replicate
  exact (hstart.updates pieces).final

lemma Md5.update_length {ctx : Md5.Context} (h : ctx.buff.length = 64) (data : List UInt8) :
    (ctx.update data).buff.length = 64 := by
  have hused : ((ctx.count >>> 3) &&& 63).toNat < 64 := by
    rw [Sha1.used_eq]
    exact Nat.mod_lt _ (by decide)
  exact Blocks.feed_length h hused

lemma Md5.calls_length {ctx : Md5.Context} (h : ctx.buff.length = 64) (calls : List HashCall) :
    (calls.foldl Md5.Context.call ctx).buff.length = 64 := by
  induction calls generalizing ctx with
  | nil => exact h
  | cons c calls ih =>
    apply ih
    cases c with
    | init => exact h
    | update data => exact update_length h data
    | final => exact update_length (update_length h _) _

lemma Sha1.update_length {ctx : Sha1.Context} (h : ctx.buff.length = 64) (data : List UInt8) :
    (ctx.update data).buff.length = 64 := by
  rw [update_eq]
  exact Blocks.feed_length h (Nat.mod_lt _ (by decide))

lemma Sha1.calls_length {ctx : Sha1.Context} (h : ctx.buff.length = 64) (calls : List HashCall) :
    (calls.foldl Sha1.Context.call ctx).buff.length = 64 := by
  induction calls generalizing ctx with
  | nil => exact h
  | cons c calls ih =>
    apply ih
    cases c with
    | init => exact h
    | update data => exact update_length h data
    | final => exact update_length (update_length h _) _

namespace Sha1

/-- What a context hashes for a message that comes after `init`: its buffer counts up to the place
that the old count gives, and the closing is that of both counts. -/
def hashed (ctx : Context) (message : List UInt8) : List UInt8 :=
  ctx.buff.take (ctx.count.toNat % 64) ++ message ++ closing (ctx.count.toNat + message.length)

variable {ctx : Context} {stream message : List UInt8}

lemma taken_init (h : ctx.buff.length = 64) :
    Taken (ctx.buff.take (ctx.count.toNat % 64)) ctx.init := by
  have hlt := Nat.mod_lt ctx.count.toNat (show 64 > 0 by decide)
  refine ⟨Blocks.Fed.start h hlt, ?_⟩
  rw [List.length_take, h, Nat.min_eq_left hlt.le, Nat.mod_mod]
  rfl

lemma Taken.updates (h : Taken stream ctx) (pieces : List (List UInt8)) :
    Taken (stream ++ pieces.flatten) (pieces.foldl Context.update ctx) := by
  induction pieces generalizing stream ctx with
  | nil => simpa using h
  | cons piece pieces ih =>
    rw [List.flatten_cons, ← List.append_assoc]
    exact ih (h.update piece)

lemma updates_count (ctx : Context) (pieces : List (List UInt8)) :
    (pieces.foldl Context.update ctx).count.toNat =
      (ctx.count.toNat + pieces.flatten.length) % 2 ^ 64 := by
  induction pieces generalizing ctx with
  | nil => exact (Nat.mod_eq_of_lt ctx.count.toNat_lt).symm
  | cons piece pieces ih =>
    rw [List.foldl_cons, ih, update_eq, List.flatten_cons, List.length_append]
    change ((ctx.count + UInt64.ofNat piece.length).toNat + _) % _ = _
    rw [UInt64.toNat_add, UInt64.toNat_ofNat']
    omega

lemma final_hashed (h : ctx.buff.length = 64) (pieces : List (List UInt8)) :
    (pieces.foldl Context.update ctx.init).final =
      (Blocks.absorb 64 compress initial (hashed ctx pieces.flatten)).1.bytes := by
  rw [((taken_init h).updates pieces).final, updates_count, closing_mod]
  rfl

lemma hashed_eq_pad_iff (ctx : Context) (message : List UInt8) :
    hashed ctx message = pad message ↔ ctx.count.toNat % 2 ^ 61 = 0 := by
  rw [pad_eq, hashed]
  constructor
  · intro h
    have hdrop : ∀ xs : List UInt8, ∀ n,
        (xs ++ closing n).drop ((xs ++ closing n).length - 8) = toBe 8 (8 * n) := by
      intro xs n
      rw [closing, ← List.append_assoc, List.length_append, toBe_length, Nat.add_sub_cancel]
      exact List.drop_left
    have hlast := hdrop (ctx.buff.take (ctx.count.toNat % 64) ++ message)
      (ctx.count.toNat + message.length)
    rw [h, hdrop] at hlast
    have hbits := congrArg ofBe hlast
    rw [ofBe_toBe, ofBe_toBe] at hbits
    omega
  · intro h
    have hzero : ctx.count.toNat % 64 = 0 := by omega
    have hbits : toBe 8 (8 * (ctx.count.toNat + message.length)) = toBe 8 (8 * message.length) := by
      apply toBe_congr
      omega
    have hplace : (ctx.count.toNat + message.length) % 64 = message.length % 64 := by omega
    rw [hzero, List.take_zero, List.nil_append, closing, hbits, hplace, ← closing]

end Sha1

/-- After any earlier use `init` starts a new hash of md5. With sha1 what is hashed is what the
standard says just when the count of the earlier uses is one that `init` need not have set back. -/
theorem reused_digests (calls : List HashCall) (pieces : List (List UInt8)) :
    let md5 := calls.foldl Md5.Context.call {}
    let sha1 := calls.foldl Sha1.Context.call {}
    (pieces.foldl Md5.Context.update md5.init).final = Lib.Md5.md5 pieces.flatten ∧
      (sha1.count.toNat % 2 ^ 61 = 0 →
        (pieces.foldl Sha1.Context.update sha1.init).final =
          Lib.Sha1.sha1 pieces.flatten) ∧
      (pieces.foldl Sha1.Context.update sha1.init).final =
        (Blocks.absorb 64 compress initial (Sha1.hashed sha1 pieces.flatten)).1.bytes ∧
      (Sha1.hashed sha1 pieces.flatten = pad pieces.flatten ↔ sha1.count.toNat % 2 ^ 61 = 0) := by
  intro md5 sha1
  have hmd5 : md5.buff.length = 64 := Md5.calls_length List.length_replicate calls
  have hsha1 : sha1.buff.length = 64 := Sha1.calls_length List.length_replicate calls
  have hhashed := Sha1.final_hashed hsha1 pieces
  refine ⟨((Md5.absorbed_init hmd5).updates pieces).final, ?_, hhashed,
    Sha1.hashed_eq_pad_iff sha1 pieces.flatten⟩
  intro hcount
  rw [hhashed, (Sha1.hashed_eq_pad_iff sha1 pieces.flatten).mpr hcount]
  rfl

lemma compress_words (s : Lib.Sha1.State) (block : List UInt8) : compress s block =
    let words := Lib.Sha1.words block 80
    let s' := (List.range 80).foldl (Lib.Sha1.round fun t => words.getD (79 - t) 0) s
    ⟨s.a + s'.a, s.b + s'.b, s.c + s'.c, s.d + s'.d, s.e + s'.e⟩ := by
  rw [compress, Lib.Sha1.rounds_words block s (le_refl 80)]

lemma absorb_closing {n : ℕ} (h : (Sha1.closing n).length = 64) :
    (Blocks.absorb 64 compress initial (Sha1.closing n)).1 = compress initial (Sha1.closing n) := by
  have hblock : Blocks.absorb 64 compress initial (Sha1.closing n ++ []) = _ := Blocks.absorb_block h
  rw [List.append_nil] at hblock
  rw [hblock, Blocks.absorb_of_lt (by decide)]

set_option maxRecDepth 100000 in
/-- The empty message again: it is closed as if it had the 64 bytes of the first closing. -/
theorem second_empty_message_differs :
    ([HashCall.init, .final].foldl Sha1.Context.call {}).init.final ≠ Lib.Sha1.sha1 [] := by
  have hlen : ([HashCall.init, .final].foldl Sha1.Context.call {}).buff.length = 64 :=
    Sha1.calls_length List.length_replicate _
  have hcount : ([HashCall.init, .final].foldl Sha1.Context.call {}).count = 64 := by
    rfl
  have hfinal := Sha1.final_hashed hlen []
  rw [Sha1.hashed, hcount] at hfinal
  intro h
  have hdigest : (Blocks.absorb 64 compress initial (Sha1.closing 64)).1.bytes =
      (Blocks.absorb 64 compress initial (Sha1.closing 0)).1.bytes := hfinal.symm.trans h
  rw [absorb_closing (by decide), absorb_closing (by decide), compress_words, compress_words] at hdigest
  revert hdigest
  decide +kernel

end Simple.Utils
