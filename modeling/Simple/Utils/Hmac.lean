import Simple.Lib.Hmac
import Simple.Utils.Md5

/-! `hmac_md5` and `hmac_sha1` begin with the outer hash and finish it last. -/

namespace Simple.Utils

open Simple.Lib Simple.Lib.Bytes

/-- A context that has been constructed and had `init`, and what can be done with it. -/
structure Hasher where
  Context : Type
  init : Context
  update : Context → List UInt8 → Context
  final : Context → List UInt8

namespace Hasher

def hash (h : Hasher) (input : List UInt8) : List UInt8 := h.final (h.update h.init input)

end Hasher

/-- Words of four bytes in the order of the machine. -/
def xorKey (xorNum : UInt32) : List UInt8 → List UInt8
  | a :: b :: c :: d :: key =>
    toLe 4 (UInt32.ofNat (ofLe [a, b, c, d]) ^^^ xorNum).toNat ++ xorKey xorNum key
  | key => key

def Hasher.hmac (h : Hasher) (input inputKey : List UInt8) : List UInt8 :=
  let key := List.replicate 64 0
  let key := if inputKey.length > 64 then Blocks.copy key 0 (h.hash inputKey)
    else Blocks.copy key 0 inputKey
  let key := xorKey 0x5c5c5c5c key
  let ctx1 := h.update h.init key
  let key := xorKey (0x5c5c5c5c ^^^ 0x36363636) key
  let ctx2 := h.update (h.update h.init key) input
  h.final (h.update ctx1 (h.final ctx2))

def md5Hasher : Hasher := ⟨Md5.Context, Md5.Context.init {}, Md5.Context.update, Md5.Context.final⟩

def sha1Hasher : Hasher := ⟨Sha1.Context, Sha1.Context.init {}, Sha1.Context.update, Sha1.Context.final⟩

def md5 (input : List UInt8) : List UInt8 := md5Hasher.hash input

def sha1 (input : List UInt8) : List UInt8 := sha1Hasher.hash input

def hmacMd5 (input inputKey : List UInt8) : List UInt8 := md5Hasher.hmac input inputKey

def hmacSha1 (input inputKey : List UInt8) : List UInt8 := sha1Hasher.hmac input inputKey

lemma xorKey_map {xorNum : UInt32} {x : UInt8} (hx : toLe 4 xorNum.toNat = [x, x, x, x])
    (key : List UInt8) (hlen : 4 ∣ key.length) : xorKey xorNum key = key.map (· ^^^ x) := by
  induction key using xorKey.induct with
  | case1 a b c d key ih =>
    have hword : (UInt32.ofNat (ofLe [a, b, c, d])).toNat = ofLe [a, b, c, d] % 256 ^ 4 :=
      UInt32.toNat_ofNat'
    have hbytes : toLe 4 (ofLe [a, b, c, d]) = [a, b, c, d] := toLe_ofLe [a, b, c, d]
    rw [xorKey, UInt32.toNat_xor, hword, toLe_xor, toLe_mod, hbytes, hx, ih]
    · rfl
    · simpa using hlen
  | case2 key h =>
    rcases key with _ | ⟨a, _ | ⟨b, _ | ⟨c, _ | ⟨d, key⟩⟩⟩⟩
    · rfl
    · simp at hlen
    · simp at hlen
    · simp at hlen
    · exact absurd rfl (h a b c d key)

lemma copy_zero (src : List UInt8) (size : ℕ) :
    Blocks.copy (List.replicate size 0) 0 src = src ++ List.replicate (size - src.length) 0 := by
  rw [Blocks.copy, List.take_zero, List.nil_append, Nat.zero_add, List.drop_replicate]

namespace Hasher

variable {h : Hasher}

theorem hmac_eq (hchunks : ∀ x y, h.final (h.update (h.update h.init x) y) = h.hash (x ++ y))
    (hlen : ∀ x, (h.hash x).length ≤ 64) (input inputKey : List UInt8) :
    h.hmac input inputKey = Lib.Hmac.hmac 64 h.hash inputKey input := by
  have hkey : (if inputKey.length > 64 then Blocks.copy (List.replicate 64 0) 0 (h.hash inputKey)
      else Blocks.copy (List.replicate 64 0) 0 inputKey) = Lib.Hmac.blockKey 64 h.hash inputKey := by
    rw [copy_zero, copy_zero, Lib.Hmac.blockKey]
    split_ifs <;> rfl
  have hblock := Lib.Hmac.blockKey_length 64 h.hash hlen inputKey
  have houter : xorKey 0x5c5c5c5c (Lib.Hmac.blockKey 64 h.hash inputKey) = _ :=
    xorKey_map (x := 0x5c) rfl _ (by rw [hblock]; decide)
  have hinner : xorKey (0x5c5c5c5c ^^^ 0x36363636)
      ((Lib.Hmac.blockKey 64 h.hash inputKey).map (· ^^^ 0x5c)) = _ :=
    xorKey_map (x := 0x5c ^^^ 0x36) rfl _ (by rw [List.length_map, hblock]; decide)
  have htwice : ((Lib.Hmac.blockKey 64 h.hash inputKey).map (· ^^^ 0x5c)).map (· ^^^ (0x5c ^^^ 0x36)) =
      (Lib.Hmac.blockKey 64 h.hash inputKey).map (· ^^^ 0x36) := by
    rw [List.map_map]
    apply List.map_congr_left
    intro b _
    change b ^^^ 0x5c ^^^ (0x5c ^^^ 0x36) = b ^^^ 0x36
    rw [← UInt8.xor_assoc, UInt8.xor_assoc b, UInt8.xor_self, UInt8.xor_zero]
  rw [hmac, hkey, houter, hinner, htwice]
  rw [hchunks, hchunks]
  rfl

end Hasher

lemma md5_update (x y : List UInt8) :
    md5Hasher.final (md5Hasher.update (md5Hasher.update md5Hasher.init x) y) =
      md5Hasher.hash (x ++ y) := by
  have hstart : Md5.Absorbed [] (Md5.Context.init {}) := Md5.absorbed_init List.length_replicate
  have hpieces := ((hstart.update x).update y).final
  have hwhole := (hstart.update (x ++ y)).final
  exact hpieces.trans hwhole.symm

lemma sha1_update (x y : List UInt8) :
    sha1Hasher.final (sha1Hasher.update (sha1Hasher.update sha1Hasher.init x) y) =
      sha1Hasher.hash (x ++ y) := by
  have hpieces := ((Sha1.absorbed_init.update x).update y).final
  have hwhole := (Sha1.absorbed_init.update (x ++ y)).final
  exact hpieces.trans hwhole.symm

/-- Keys of any length, with the functions of this file as the hashes. -/
theorem hmac_digests (input inputKey : List UInt8) :
    hmacMd5 input inputKey = Lib.Hmac.hmac 64 md5 inputKey input ∧
      hmacSha1 input inputKey = Lib.Hmac.hmac 64 sha1 inputKey input := by
  constructor
  · exact Hasher.hmac_eq md5_update (fun x => show 16 ≤ 64 by decide) input inputKey
  · exact Hasher.hmac_eq sha1_update (fun x => show 20 ≤ 64 by decide) input inputKey

end Simple.Utils
