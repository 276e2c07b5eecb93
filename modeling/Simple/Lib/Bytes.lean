import Mathlib.Tactic

/-! Unsigned numbers as their bytes, least significant first or last, and words that are rotated. -/

namespace Simple.Lib.Bytes

/-! Bytes of eight bits, words of four bytes, and blocks of sixteen words. -/

scoped instance neZero_four : NeZero 4 := ⟨by decide⟩

scoped instance neZero_eight : NeZero 8 := ⟨by decide⟩

scoped instance neZero_sixteen : NeZero 16 := ⟨by decide⟩

scoped instance neZero_sixtyFour : NeZero 64 := ⟨by decide⟩

def rotl (x n : UInt32) : UInt32 := x <<< n ||| x >>> (32 - n)

def toLe : ℕ → ℕ → List UInt8
  | 0, _ => []
  | width + 1, n => UInt8.ofNat n :: toLe width (n / 256)

def ofLe : List UInt8 → ℕ
  | [] => 0
  | b :: bytes => b.toNat + 256 * ofLe bytes

@[simp] lemma toLe_length (width n : ℕ) : (toLe width n).length = width := by
  induction width generalizing n with
  | zero => rfl
  | succ width ih => simp [toLe, ih]

lemma ofLe_toLe (width n : ℕ) : ofLe (toLe width n) = n % 256 ^ width := by
  induction width generalizing n with
  | zero => simp [toLe, ofLe, Nat.mod_one]
  | succ width ih =>
    have hb : (UInt8.ofNat n).toNat = n % 256 := UInt8.toNat_ofNat'
    rw [toLe, ofLe, ih, hb, pow_succ', Nat.mod_mul]

lemma toLe_ofLe (bytes : List UInt8) : toLe bytes.length (ofLe bytes) = bytes := by
  induction bytes with
  | nil => rfl
  | cons b bytes ih =>
    have hb := b.toNat_lt
    have hdiv : ofLe (b :: bytes) / 256 = ofLe bytes := by
      rw [ofLe]
      omega
    have hhead : UInt8.ofNat (ofLe (b :: bytes)) = b := by
      apply UInt8.toNat_inj.mp
      rw [UInt8.toNat_ofNat', ofLe]
      omega
    rw [List.length_cons, toLe, hdiv, ih, hhead]

def toBe (width n : ℕ) : List UInt8 := (toLe width n).reverse

def ofBe (bytes : List UInt8) : ℕ := ofLe bytes.reverse

@[simp] lemma toBe_length (width n : ℕ) : (toBe width n).length = width := by simp [toBe]

lemma ofBe_toBe (width n : ℕ) : ofBe (toBe width n) = n % 256 ^ width := by
  rw [ofBe, toBe, List.reverse_reverse, ofLe_toLe]

lemma toBe_ofBe (bytes : List UInt8) : toBe bytes.length (ofBe bytes) = bytes := by
  have h := toLe_ofLe bytes.reverse
  rw [List.length_reverse] at h
  rw [toBe, ofBe, h, List.reverse_reverse]

lemma toLe_mod (width n : ℕ) : toLe width (n % 256 ^ width) = toLe width n := by
  have h := toLe_ofLe (toLe width n)
  rwa [toLe_length, ofLe_toLe] at h

lemma toBe_congr {width m n : ℕ} (h : m % 256 ^ width = n % 256 ^ width) :
    toBe width m = toBe width n := by
  rw [toBe, toBe, ← toLe_mod width m, h, toLe_mod]

lemma toLe_add (v w n : ℕ) : toLe (v + w) n = toLe v n ++ toLe w (n / 256 ^ v) := by
  induction v generalizing n with
  | zero => rw [Nat.zero_add, pow_zero, Nat.div_one, toLe, List.nil_append]
  | succ v ih =>
    rw [Nat.succ_add_eq_add_succ, Nat.add_succ, toLe, toLe, ih, List.cons_append, Nat.div_div_eq_div_mul, pow_succ']

lemma toBe_add (v w n : ℕ) : toBe (v + w) n = toBe v (n / 256 ^ w) ++ toBe w n := by
  rw [toBe, toBe, toBe, Nat.add_comm, toLe_add, List.reverse_append]

lemma toLe_xor (width m n : ℕ) : toLe width (m ^^^ n) =
    List.zipWith (· ^^^ ·) (toLe width m) (toLe width n) := by
  induction width generalizing m n with
  | zero => rfl
  | succ width ih =>
    have hhead : UInt8.ofNat (m ^^^ n) = UInt8.ofNat m ^^^ UInt8.ofNat n := by
      apply UInt8.toBitVec_inj.mp
      exact BitVec.ofNat_xor
    have htail : (m ^^^ n) / 256 = m / 256 ^^^ n / 256 := Nat.xor_div_two_pow (n := 8)
    rw [toLe, htail, ih, hhead]
    rfl

def ascii (s : String) : List UInt8 := s.toList.map fun c => UInt8.ofNat c.toNat

end Simple.Lib.Bytes
