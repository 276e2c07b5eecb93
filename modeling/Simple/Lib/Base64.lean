import Simple.Lib.Bytes

/-! Three bytes as four characters of an alphabet of 64. -/

namespace Simple.Lib.Base64

open Bytes

def alphabet : List UInt8 :=
  ascii "ABCDEFGHIJKLMNOPQRSTUVWXYZabcdefghijklmnopqrstuvwxyz0123456789+/"

def char (n : ℕ) : UInt8 := alphabet.getD n 0

def group (a b c : UInt8) : ℕ := a.toNat * 2 ^ 16 + b.toNat * 2 ^ 8 + c.toNat

def chars (n : ℕ) : List UInt8 :=
  [char (n / 2 ^ 18 % 64), char (n / 2 ^ 12 % 64), char (n / 2 ^ 6 % 64), char (n % 64)]

def encode : List UInt8 → List UInt8
  | [] => []
  | [a] => (chars (group a 0 0)).take 2 ++ [61, 61]
  | [a, b] => (chars (group a b 0)).take 3 ++ [61]
  | a :: b :: c :: rest => chars (group a b c) ++ encode rest

@[simp] lemma chars_length (n : ℕ) : (chars n).length = 4 := rfl

lemma encode_length (xs : List UInt8) : (encode xs).length = (xs.length + 2) / 3 * 4 := by
  induction xs using encode.induct with
  | case1 => rfl
  | case2 a => simp [encode]
  | case3 a b => simp [encode]
  | case4 a b c rest ih =>
    simp only [encode, List.length_append, chars_length, ih, List.length_cons]
    omega

lemma char_mem {n : ℕ} (h : n < 64) : char n ∈ alphabet := by
  have hlen : n < alphabet.length := h
  rw [char, List.getD_eq_getElem?_getD, List.getElem?_eq_getElem hlen]
  exact List.getElem_mem hlen

lemma chars_mem {n : ℕ} {c : UInt8} (h : c ∈ chars n) : c ∈ alphabet := by
  simp only [chars, List.mem_cons, List.not_mem_nil, or_false] at h
  rcases h with rfl | rfl | rfl | rfl <;> exact char_mem (Nat.mod_lt _ (by norm_num))

lemma encode_mem {xs : List UInt8} {c : UInt8} (h : c ∈ encode xs) : c ∈ alphabet ∨ c = 61 := by
  induction xs using encode.induct with
  | case1 => cases h
  | case2 a =>
    rcases List.mem_append.mp h with h | h
    · exact .inl (chars_mem (List.mem_of_mem_take h))
    · exact .inr (by simpa using h)
  | case3 a b =>
    rcases List.mem_append.mp h with h | h
    · exact .inl (chars_mem (List.mem_of_mem_take h))
    · exact .inr (by simpa using h)
  | case4 a b d rest ih =>
    rcases List.mem_append.mp h with h | h
    · exact .inl (chars_mem h)
    · exact ih h

def value (c : UInt8) : ℕ := alphabet.idxOf c

def decode (values : List ℕ) : List UInt8 :=
  toBe (3 * values.length / 4)
    (Nat.ofDigits 64 values.reverse / 2 ^ (6 * values.length % 8))

/-- Whole groups of characters, of which the last may be filled up, and no bit that is not used. -/
def Canonical (s : List UInt8) : Prop :=
  4 ∣ s.length ∧ ∃ body n, s = body ++ List.replicate n 61 ∧ n ≤ 2 ∧ (∀ c ∈ body, c ∈ alphabet) ∧
    Nat.ofDigits 64 (body.map value).reverse % 2 ^ (6 * body.length % 8) = 0

lemma decode_length (values : List ℕ) : (decode values).length = 3 * values.length / 4 :=
  toBe_length _ _

lemma value_char : ∀ n < 64, value (char n) = n := by
  decide +kernel

lemma char_value : ∀ c ∈ alphabet, char (value c) = c := by
  have h : alphabet.all (fun c => char (value c) = c) = true := by decide +kernel
  intro c hc
  exact of_decide_eq_true (List.all_eq_true.mp h c hc)

lemma value_lt {c : UInt8} (h : c ∈ alphabet) : value c < 64 := List.idxOf_lt_length_of_mem h

lemma values_lt {body : List UInt8} (h : ∀ c ∈ body, c ∈ alphabet) : ∀ v ∈ body.map value, v < 64 := by
  intro v hv
  obtain ⟨c, hc, rfl⟩ := List.mem_map.mp hv
  exact value_lt (h c hc)

lemma map_char {body : List UInt8} (h : ∀ c ∈ body, c ∈ alphabet) :
    (body.map value).map char = body := by
  rw [List.map_map]
  refine (List.map_congr_left ?_).trans (List.map_id body)
  intro c hc
  exact char_value c (h c hc)

lemma number_lt {values : List ℕ} (h : ∀ v ∈ values, v < 64) :
    Nat.ofDigits 64 values.reverse < 64 ^ values.length := by
  rw [← List.length_reverse]
  apply Nat.ofDigits_lt_base_pow_length (by decide)
  intro v hv
  exact h v (List.mem_reverse.mp hv)

lemma bits_eq (k : ℕ) : (64 : ℕ) ^ k = 256 ^ (3 * k / 4) * 2 ^ (6 * k % 8) := by
  have hexp : 6 * k = 8 * (3 * k / 4) + 6 * k % 8 := by omega
  calc (64 : ℕ) ^ k = 2 ^ (6 * k) := by rw [pow_mul]; rfl
    _ = 2 ^ (8 * (3 * k / 4) + 6 * k % 8) := congrArg (2 ^ ·) hexp
    _ = 256 ^ (3 * k / 4) * 2 ^ (6 * k % 8) := by rw [pow_add, pow_mul]; rfl

def number4 (a b c d : ℕ) : ℕ := ((a * 64 + b) * 64 + c) * 64 + d

lemma number_group (a b c d : ℕ) (values : List ℕ) :
    Nat.ofDigits 64 (a :: b :: c :: d :: values).reverse =
      number4 a b c d * 64 ^ values.length + Nat.ofDigits 64 values.reverse := by
  simp only [List.reverse_cons, List.append_assoc, Nat.ofDigits_append, List.length_reverse]
  simp [Nat.ofDigits, number4]
  ring

lemma decode_group (a b c d : ℕ) {values : List ℕ} (h : ∀ v ∈ values, v < 64) :
    decode (a :: b :: c :: d :: values) = toBe 3 (number4 a b c d) ++ decode values := by
  have hlen : 3 * (values.length + 4) / 4 = 3 + 3 * values.length / 4 := by omega
  have hbits : 6 * (values.length + 4) % 8 = 6 * values.length % 8 := by omega
  have hnumber : (number4 a b c d * 64 ^ values.length + Nat.ofDigits 64 values.reverse) /
      2 ^ (6 * values.length % 8) = number4 a b c d * 256 ^ (3 * values.length / 4) +
        Nat.ofDigits 64 values.reverse / 2 ^ (6 * values.length % 8) := by
    rw [bits_eq, ← mul_assoc, Nat.add_comm, Nat.add_mul_div_right _ _ (by positivity), Nat.add_comm]
  have hlt : Nat.ofDigits 64 values.reverse / 2 ^ (6 * values.length % 8) <
      256 ^ (3 * values.length / 4) := by
    apply Nat.div_lt_of_lt_mul
    rw [Nat.mul_comm, ← bits_eq]
    exact number_lt h
  rw [decode, number_group]
  simp only [List.length_cons]
  rw [hlen, hbits, hnumber, toBe_add, decode]
  congr 1
  · rw [Nat.add_comm, Nat.add_mul_div_right _ _ (by positivity), Nat.div_eq_of_lt hlt, Nat.zero_add]
  · apply toBe_congr
    rw [Nat.add_comm, Nat.add_mul_mod_self_right]

lemma decode_one (a : ℕ) : decode [a] = [] := by simp [decode, toBe, toLe]

lemma decode_two (a b : ℕ) : decode [a, b] = [.ofNat ((a * 64 + b) / 16)] := by
  have hnumber : Nat.ofDigits 64 [b, a] = a * 64 + b := by
    simp only [Nat.ofDigits, Nat.cast_id]
    omega
  simp [decode, hnumber, toBe, toLe]

lemma decode_three (a b c : ℕ) : decode [a, b, c] =
    [.ofNat (((a * 64 + b) * 64 + c) / 4 / 256), .ofNat (((a * 64 + b) * 64 + c) / 4)] := by
  have hnumber : Nat.ofDigits 64 [c, b, a] = (a * 64 + b) * 64 + c := by
    simp only [Nat.ofDigits, Nat.cast_id]
    omega
  simp [decode, hnumber, toBe, toLe]

lemma chars_number4 {a b c d : ℕ} (ha : a < 64) (hb : b < 64) (hc : c < 64) (hd : d < 64) :
    chars (number4 a b c d) = [char a, char b, char c, char d] := by
  have h1 : number4 a b c d / 2 ^ 18 % 64 = a := by
    rw [number4]
    omega
  have h2 : number4 a b c d / 2 ^ 12 % 64 = b := by
    rw [number4]
    omega
  have h3 : number4 a b c d / 2 ^ 6 % 64 = c := by
    rw [number4]
    omega
  have h4 : number4 a b c d % 64 = d := by
    rw [number4]
    omega
  rw [chars, h1, h2, h3, h4]

lemma values_chars {n : ℕ} (h : n < 2 ^ 24) : (chars n).map value =
    [n / 2 ^ 18, n / 2 ^ 12 % 64, n / 2 ^ 6 % 64, n % 64] := by
  have hlt : n / 2 ^ 18 % 64 = n / 2 ^ 18 := by omega
  simp only [chars, List.map_cons, List.map_nil]
  rw [value_char _ (Nat.mod_lt _ (by decide)), value_char _ (Nat.mod_lt _ (by decide)),
    value_char _ (Nat.mod_lt _ (by decide)), value_char _ (Nat.mod_lt _ (by decide)), hlt]

lemma group_lt (a b c : UInt8) : group a b c < 2 ^ 24 := by
  have ha := a.toNat_lt
  have hb := b.toNat_lt
  have hc := c.toNat_lt
  rw [group]
  omega

lemma ofNat_eq {n : ℕ} {b : UInt8} (h : n % 256 = b.toNat) : UInt8.ofNat n = b := by
  apply UInt8.toNat_inj.mp
  rw [UInt8.toNat_ofNat']
  exact h

lemma toBe_group (a b c : UInt8) : toBe 3 (group a b c) = [a, b, c] := by
  have ha := a.toNat_lt
  have hb := b.toNat_lt
  have hc := c.toNat_lt
  change [UInt8.ofNat (group a b c / 256 / 256), UInt8.ofNat (group a b c / 256),
    UInt8.ofNat (group a b c)] = _
  rw [ofNat_eq (b := a), ofNat_eq (b := b), ofNat_eq (b := c)]
  all_goals
    rw [group]
    omega

lemma group_toBe {n : ℕ} (h : n < 2 ^ 24) :
    group (.ofNat (n / 256 / 256)) (.ofNat (n / 256)) (.ofNat n) = n := by
  rw [group, UInt8.toNat_ofNat', UInt8.toNat_ofNat', UInt8.toNat_ofNat']
  omega

lemma decode_encode (xs : List UInt8) : ∃ body n, encode xs = body ++ List.replicate n 61 ∧
    (∀ c ∈ body, c ∈ alphabet) ∧ decode (body.map value) = xs := by
  induction xs using encode.induct with
  | case1 => exact ⟨[], 0, rfl, fun c h => absurd h List.not_mem_nil, rfl⟩
  | case2 a =>
    refine ⟨(chars (group a 0 0)).take 2, 2, rfl, fun c h => chars_mem (List.mem_of_mem_take h), ?_⟩
    have ha := a.toNat_lt
    have hgroup : group a 0 0 = a.toNat * 2 ^ 16 := by simp [group]
    rw [List.map_take, values_chars (group_lt a 0 0)]
    change decode [group a 0 0 / 2 ^ 18, group a 0 0 / 2 ^ 12 % 64] = [a]
    rw [decode_two, ofNat_eq]
    omega
  | case3 a b =>
    refine ⟨(chars (group a b 0)).take 3, 1, rfl, fun c h => chars_mem (List.mem_of_mem_take h), ?_⟩
    have ha := a.toNat_lt
    have hb := b.toNat_lt
    rw [List.map_take, values_chars (group_lt a b 0)]
    have hgroup : group a b 0 = a.toNat * 2 ^ 16 + b.toNat * 2 ^ 8 := by simp [group]
    change decode [group a b 0 / 2 ^ 18, group a b 0 / 2 ^ 12 % 64, group a b 0 / 2 ^ 6 % 64] = [a, b]
    rw [decode_three, ofNat_eq (b := a), ofNat_eq (b := b)]
    all_goals omega
  | case4 a b c rest ih =>
    obtain ⟨body, n, hencode, hmem, hdecode⟩ := ih
    refine ⟨chars (group a b c) ++ body, n, ?_, ?_, ?_⟩
    · rw [encode, hencode, List.append_assoc]
    · intro x hx
      rcases List.mem_append.mp hx with hx | hx
      · exact chars_mem hx
      · exact hmem x hx
    · have hnumber : number4 (group a b c / 2 ^ 18) (group a b c / 2 ^ 12 % 64)
          (group a b c / 2 ^ 6 % 64) (group a b c % 64) = group a b c := by
        rw [number4]
        omega
      rw [List.map_append, values_chars (group_lt a b c)]
      exact (decode_group _ _ _ _ (values_lt hmem)).trans (by rw [hnumber, toBe_group, hdecode]; rfl)

lemma toBe_three (n : ℕ) : toBe 3 n = [.ofNat (n / 256 / 256), .ofNat (n / 256), .ofNat n] := rfl

lemma encode_values : ∀ (values : List ℕ) (n : ℕ), (∀ v ∈ values, v < 64) →
    4 ∣ values.length + n → n ≤ 2 →
    Nat.ofDigits 64 values.reverse % 2 ^ (6 * values.length % 8) = 0 →
    encode (decode values) = values.map char ++ List.replicate n 61
  | [], n, _, hlen, hn, _ => by
    have hzero : n = 0 := by
      rw [List.length_nil] at hlen
      omega
    rw [hzero]
    rfl
  | [_], n, _, hlen, hn, _ => by
    simp only [List.length_cons, List.length_nil] at hlen
    omega
  | [a, b], n, hvalues, hlen, hn, hbits => by
    obtain rfl : n = 2 := by
      simp only [List.length_cons, List.length_nil] at hlen
      omega
    simp only [List.forall_mem_cons] at hvalues
    obtain ⟨ha, hb, -⟩ := hvalues
    replace hbits : (b + 64 * a) % 16 = 0 := by simpa [Nat.ofDigits] using hbits
    have hgroup : group (.ofNat ((a * 64 + b) / 16)) 0 0 = number4 a b 0 0 := by
      simp only [group, number4, UInt8.toNat_ofNat', UInt8.toNat_zero]
      omega
    rw [decode_two, encode, hgroup, chars_number4 ha hb (by decide) (by decide)]
    rfl
  | [a, b, c], n, hvalues, hlen, hn, hbits => by
    obtain rfl : n = 1 := by
      simp only [List.length_cons, List.length_nil] at hlen
      omega
    simp only [List.forall_mem_cons] at hvalues
    obtain ⟨ha, hb, hc, -⟩ := hvalues
    replace hbits : (c + 64 * (b + 64 * a)) % 4 = 0 := by simpa [Nat.ofDigits] using hbits
    have hgroup : group (.ofNat (((a * 64 + b) * 64 + c) / 4 / 256))
        (.ofNat (((a * 64 + b) * 64 + c) / 4)) 0 = number4 a b c 0 := by
      simp only [group, number4, UInt8.toNat_ofNat', UInt8.toNat_zero]
      omega
    rw [decode_three, encode, hgroup, chars_number4 ha hb hc (by decide)]
    rfl
  | a :: b :: c :: d :: values, n, hvalues, hlen, hn, hbits => by
    simp only [List.forall_mem_cons] at hvalues
    obtain ⟨ha, hb, hc, hd, hrest⟩ := hvalues
    have hlt : number4 a b c d < 2 ^ 24 := by
      rw [number4]
      omega
    have hplace : 6 * (a :: b :: c :: d :: values).length % 8 = 6 * values.length % 8 := by
      simp only [List.length_cons]
      omega
    rw [number_group, hplace, bits_eq, ← mul_assoc, Nat.mul_add_mod'] at hbits
    have ih := encode_values values n hrest (by simp only [List.length_cons] at hlen; omega) hn hbits
    rw [decode_group _ _ _ _ hrest, toBe_three]
    change encode (_ :: _ :: _ :: decode values) = _
    rw [encode, group_toBe hlt, chars_number4 ha hb hc hd, ih]
    rfl

lemma encode_decode (body : List UInt8) (n : ℕ) (hmem : ∀ c ∈ body, c ∈ alphabet)
    (hlen : 4 ∣ body.length + n) (hn : n ≤ 2)
    (hbits : Nat.ofDigits 64 (body.map value).reverse % 2 ^ (6 * body.length % 8) = 0) :
    encode (decode (body.map value)) = body ++ List.replicate n 61 := by
  rw [← List.length_map value] at hlen hbits
  rw [encode_values _ n (values_lt hmem) hlen hn hbits, map_char hmem]

end Simple.Lib.Base64
