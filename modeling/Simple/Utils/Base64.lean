import Mathlib.Data.List.DropRight
import Simple.Lib.Base64

/-! `base64_encode` writes what the encoding prescribes, and `base64_decode` reads it. -/

namespace Simple.Utils.Base64

open Simple.Lib.Bytes

def base64Chars : List UInt8 :=
  ascii "ABCDEFGHIJKLMNOPQRSTUVWXYZ" ++ ascii "abcdefghijklmnopqrstuvwxyz" ++ ascii "0123456789+/"

def charArray3To4 (a b c : UInt8) : List UInt8 :=
  [(a &&& 0xfc) >>> 2, ((a &&& 0x03) <<< 4) + ((b &&& 0xf0) >>> 4),
    ((b &&& 0x0f) <<< 2) + ((c &&& 0xc0) >>> 6), c &&& 0x3f].map
      fun x => base64Chars.getD x.toNat 0

/-- The bytes of `char_array_3` that have been set, of which there are `i`. -/
structure State where
  output : List UInt8 := []
  charArray3 : List UInt8 := []

def State.next (s : State) (ch : UInt8) : State :=
  match s.charArray3 with
  | [a, b] => { output := s.output ++ charArray3To4 a b ch, charArray3 := [] }
  | chars => { s with charArray3 := chars ++ [ch] }

def State.finish (s : State) : List UInt8 :=
  let i := s.charArray3.length
  if i = 0 then s.output
  else
    let chars := charArray3To4 (s.charArray3.getD 0 0) (s.charArray3.getD 1 0) (s.charArray3.getD 2 0)
    s.output ++ chars.take (i + 1) ++ List.replicate (3 - i) 61

def base64Encode (input : List UInt8) : List UInt8 := (input.foldl State.next {}).finish

def isBase64 (c : UInt8) : Bool :=
  c == 43 || (47 ≤ c && c ≤ 57) || (65 ≤ c && c ≤ 90) || (97 ≤ c && c ≤ 122)

/-- `npos` ends up as a byte as well. -/
def find (c : UInt8) : UInt8 :=
  match base64Chars.findIdx? (· == c) with
  | some i => .ofNat i
  | none => 0xff

/-- `char_array_4_to_3`. -/
def charArray4To3 (a b c d : UInt8) : List UInt8 :=
  [(find a <<< 2) + ((find b &&& 0x30) >>> 4),
    ((find b &&& 0xf) <<< 4) + ((find c &&& 0x3c) >>> 2), ((find c &&& 0x3) <<< 6) + find d]

structure DecodeState where
  output : List UInt8 := []
  charArray4 : List UInt8 := []

def DecodeState.next (s : DecodeState) (ch : UInt8) : DecodeState :=
  match s.charArray4 with
  | [a, b, c] => { output := s.output ++ charArray4To3 a b c ch, charArray4 := [] }
  | chars => { s with charArray4 := chars ++ [ch] }

def DecodeState.run (s : DecodeState) : List UInt8 → DecodeState
  | [] => s
  | ch :: input => if isBase64 ch then (s.next ch).run input else s

def DecodeState.finish (s : DecodeState) : List UInt8 :=
  let i := s.charArray4.length
  if i = 0 then s.output
  else
    s.output ++ (charArray4To3 (s.charArray4.getD 0 0) (s.charArray4.getD 1 0)
      (s.charArray4.getD 2 0) (s.charArray4.getD 3 0)).take (i - 1)

def base64Decode (input : List UInt8) : List UInt8 := (DecodeState.run {} input).finish

lemma masks_lt : ∀ n < 256, ((UInt8.ofNat n &&& 0xfc) >>> 2).toNat = n / 4 ∧
    ((UInt8.ofNat n &&& 0x03) <<< 4).toNat = n % 4 * 16 ∧
    ((UInt8.ofNat n &&& 0xf0) >>> 4).toNat = n / 16 ∧
    ((UInt8.ofNat n &&& 0x0f) <<< 2).toNat = n % 16 * 4 ∧
    ((UInt8.ofNat n &&& 0xc0) >>> 6).toNat = n / 64 ∧ (UInt8.ofNat n &&& 0x3f).toNat = n % 64 := by
  decide +kernel

lemma masks (x : UInt8) : ((x &&& 0xfc) >>> 2).toNat = x.toNat / 4 ∧
    ((x &&& 0x03) <<< 4).toNat = x.toNat % 4 * 16 ∧ ((x &&& 0xf0) >>> 4).toNat = x.toNat / 16 ∧
    ((x &&& 0x0f) <<< 2).toNat = x.toNat % 16 * 4 ∧ ((x &&& 0xc0) >>> 6).toNat = x.toNat / 64 ∧
    (x &&& 0x3f).toNat = x.toNat % 64 := by
  have h := masks_lt x.toNat x.toNat_lt
  rwa [UInt8.ofNat_toNat] at h

lemma base64Chars_eq : base64Chars = Lib.Base64.alphabet := by decide +kernel

lemma charArray3To4_eq (a b c : UInt8) :
    charArray3To4 a b c = Lib.Base64.chars (Lib.Base64.group a b c) := by
  have ha := a.toNat_lt
  have hb := b.toNat_lt
  have hc := c.toNat_lt
  obtain ⟨ha1, ha2, -, -, -, -⟩ := masks a
  obtain ⟨-, -, hb2, hb3, -, -⟩ := masks b
  obtain ⟨-, -, -, -, hc3, hc4⟩ := masks c
  have h2 : (((a &&& 0x03) <<< 4) + ((b &&& 0xf0) >>> 4)).toNat =
      Lib.Base64.group a b c / 2 ^ 12 % 64 := by
    rw [UInt8.toNat_add, ha2, hb2, Lib.Base64.group]
    omega
  have h3 : (((b &&& 0x0f) <<< 2) + ((c &&& 0xc0) >>> 6)).toNat =
      Lib.Base64.group a b c / 2 ^ 6 % 64 := by
    rw [UInt8.toNat_add, hb3, hc3, Lib.Base64.group]
    omega
  have h1 : ((a &&& 0xfc) >>> 2).toNat = Lib.Base64.group a b c / 2 ^ 18 % 64 := by
    rw [ha1, Lib.Base64.group]
    omega
  have h4 : (c &&& 0x3f).toNat = Lib.Base64.group a b c % 64 := by
    rw [hc4, Lib.Base64.group]
    omega
  simp only [charArray3To4, List.map_cons, List.map_nil, h1, h2, h3, h4, base64Chars_eq]
  rfl

lemma next_group (output : List UInt8) (a b c : UInt8) (xs : List UInt8) :
    (a :: b :: c :: xs).foldl State.next ⟨output, []⟩ =
      xs.foldl State.next ⟨output ++ charArray3To4 a b c, []⟩ := rfl

lemma finish_fold (output : List UInt8) (xs : List UInt8) :
    (xs.foldl State.next ⟨output, []⟩).finish = output ++ Lib.Base64.encode xs := by
  induction xs using Lib.Base64.encode.induct generalizing output with
  | case1 => exact (List.append_nil output).symm
  | case2 a =>
    change output ++ (charArray3To4 a 0 0).take 2 ++ [61, 61] = _
    rw [charArray3To4_eq, List.append_assoc]
    rfl
  | case3 a b =>
    change output ++ (charArray3To4 a b 0).take 3 ++ [61] = _
    rw [charArray3To4_eq, List.append_assoc]
    rfl
  | case4 a b c xs ih =>
    rw [next_group, ih, charArray3To4_eq, List.append_assoc]
    rfl

theorem base64Encode_eq (input : List UInt8) : base64Encode input = Lib.Base64.encode input :=
  finish_fold [] input

open Lib.Base64 (value alphabet decode number4)

lemma mem_of_isBase64 : ∀ n < 256, isBase64 (.ofNat n) = true → UInt8.ofNat n ∈ alphabet := by
  decide +kernel

lemma isBase64_of_mem : ∀ c ∈ alphabet, isBase64 c = true :=
  List.all_eq_true.mp (by decide +kernel)

lemma isBase64_iff (c : UInt8) : isBase64 c = true ↔ c ∈ alphabet := by
  refine ⟨?_, isBase64_of_mem c⟩
  have h := mem_of_isBase64 c.toNat c.toNat_lt
  rwa [UInt8.ofNat_toNat] at h

lemma find_eq : ∀ c ∈ alphabet, find c = .ofNat (value c) := by
  have h : alphabet.all (fun c => find c = .ofNat (value c)) = true := by decide +kernel
  intro c hc
  exact of_decide_eq_true (List.all_eq_true.mp h c hc)

lemma shifts_lt : ∀ n < 64, ((UInt8.ofNat n) <<< 2).toNat = n * 4 ∧
    ((UInt8.ofNat n &&& 0x30) >>> 4).toNat = n / 16 ∧
    ((UInt8.ofNat n &&& 0xf) <<< 4).toNat = n % 16 * 16 ∧
    ((UInt8.ofNat n &&& 0x3c) >>> 2).toNat = n / 4 ∧
    ((UInt8.ofNat n &&& 0x3) <<< 6).toNat = n % 4 * 64 ∧ (UInt8.ofNat n).toNat = n := by
  decide +kernel

variable {a b c d : UInt8}

lemma first_eq (ha : a ∈ alphabet) (hb : b ∈ alphabet) :
    (find a <<< 2) + ((find b &&& 0x30) >>> 4) = .ofNat (value a * 4 + value b / 16) := by
  obtain ⟨h1, -⟩ := shifts_lt _ (Lib.Base64.value_lt ha)
  obtain ⟨-, h2, -⟩ := shifts_lt _ (Lib.Base64.value_lt hb)
  apply UInt8.toNat_inj.mp
  rw [find_eq a ha, find_eq b hb, UInt8.toNat_add, h1, h2, UInt8.toNat_ofNat']

lemma second_eq (hb : b ∈ alphabet) (hc : c ∈ alphabet) :
    ((find b &&& 0xf) <<< 4) + ((find c &&& 0x3c) >>> 2) =
      .ofNat (value b % 16 * 16 + value c / 4) := by
  obtain ⟨-, -, h1, -⟩ := shifts_lt _ (Lib.Base64.value_lt hb)
  obtain ⟨-, -, -, h2, -⟩ := shifts_lt _ (Lib.Base64.value_lt hc)
  apply UInt8.toNat_inj.mp
  rw [find_eq b hb, find_eq c hc, UInt8.toNat_add, h1, h2, UInt8.toNat_ofNat']

lemma third_eq (hc : c ∈ alphabet) (hd : d ∈ alphabet) :
    ((find c &&& 0x3) <<< 6) + find d = .ofNat (value c % 4 * 64 + value d) := by
  obtain ⟨-, -, -, -, h1, -⟩ := shifts_lt _ (Lib.Base64.value_lt hc)
  obtain ⟨-, -, -, -, -, h2⟩ := shifts_lt _ (Lib.Base64.value_lt hd)
  apply UInt8.toNat_inj.mp
  rw [find_eq c hc, find_eq d hd, UInt8.toNat_add, h1, h2, UInt8.toNat_ofNat']

lemma ofNat_congr {m n : ℕ} (h : m % 256 = n % 256) : UInt8.ofNat m = UInt8.ofNat n := by
  apply UInt8.toNat_inj.mp
  rw [UInt8.toNat_ofNat', UInt8.toNat_ofNat']
  exact h

lemma charArray4To3_eq (ha : a ∈ alphabet) (hb : b ∈ alphabet) (hc : c ∈ alphabet)
    (hd : d ∈ alphabet) :
    charArray4To3 a b c d = toBe 3 (number4 (value a) (value b) (value c) (value d)) := by
  have ha' := Lib.Base64.value_lt ha
  have hb' := Lib.Base64.value_lt hb
  have hc' := Lib.Base64.value_lt hc
  have hd' := Lib.Base64.value_lt hd
  rw [charArray4To3, first_eq ha hb, second_eq hb hc, third_eq hc hd, Lib.Base64.toBe_three, number4]
  congr 1
  · apply ofNat_congr
    omega
  congr 1
  · apply ofNat_congr
    omega
  congr 1
  apply ofNat_congr
  omega

lemma run_cons {s : DecodeState} {xs : List UInt8} (ha : a ∈ alphabet) :
    s.run (a :: xs) = (s.next a).run xs := by
  rw [DecodeState.run, if_pos ((isBase64_iff a).mpr ha)]

lemma run_takeWhile (s : DecodeState) (input : List UInt8) :
    s.run input = s.run (input.takeWhile isBase64) := by
  induction input generalizing s with
  | nil => rfl
  | cons ch input ih =>
    by_cases hch : isBase64 ch
    · rw [List.takeWhile_cons_of_pos hch, DecodeState.run, DecodeState.run, if_pos hch, if_pos hch]
      exact ih (s.next ch)
    · rw [List.takeWhile_cons_of_neg hch, DecodeState.run.eq_2, if_neg hch]
      rfl

lemma finish_run : ∀ (xs output : List UInt8), (∀ c ∈ xs, c ∈ alphabet) →
    (DecodeState.run ⟨output, []⟩ xs).finish = output ++ decode (xs.map value)
  | [], output, _ => (List.append_nil output).symm
  | [a], output, h => by
    rw [run_cons (h a (by simp)), List.map_cons, List.map_nil, Lib.Base64.decode_one]
    rfl
  | [a, b], output, h => by
    simp only [List.forall_mem_cons] at h
    obtain ⟨ha, hb, -⟩ := h
    have hlast : value b < 64 := Lib.Base64.value_lt hb
    rw [run_cons ha, run_cons hb, List.map_cons, List.map_cons, List.map_nil, Lib.Base64.decode_two]
    change output ++ [(find a <<< 2) + ((find b &&& 0x30) >>> 4)] = _
    rw [first_eq ha hb]
    congr 2
    apply ofNat_congr
    omega
  | [a, b, c], output, h => by
    simp only [List.forall_mem_cons] at h
    obtain ⟨ha, hb, hc, -⟩ := h
    have hb' : value b < 64 := Lib.Base64.value_lt hb
    have hc' : value c < 64 := Lib.Base64.value_lt hc
    rw [run_cons ha, run_cons hb, run_cons hc, List.map_cons, List.map_cons, List.map_cons,
      List.map_nil, Lib.Base64.decode_three]
    change output ++ [(find a <<< 2) + ((find b &&& 0x30) >>> 4),
      ((find b &&& 0xf) <<< 4) + ((find c &&& 0x3c) >>> 2)] = _
    rw [first_eq ha hb, second_eq hb hc]
    congr 2
    · apply ofNat_congr
      omega
    congr 1
    apply ofNat_congr
    omega
  | a :: b :: c :: d :: xs, output, h => by
    simp only [List.forall_mem_cons] at h
    obtain ⟨ha, hb, hc, hd, hxs⟩ := h
    have ih := finish_run xs (output ++ charArray4To3 a b c d) hxs
    rw [run_cons ha, run_cons hb, run_cons hc, run_cons hd]
    refine ih.trans ?_
    rw [charArray4To3_eq ha hb hc hd, List.append_assoc, List.map_cons, List.map_cons, List.map_cons,
      List.map_cons, Lib.Base64.decode_group _ _ _ _ (Lib.Base64.values_lt hxs)]

lemma base64Decode_eq (input : List UInt8) :
    base64Decode input = decode ((input.takeWhile isBase64).map value) := by
  rw [base64Decode, run_takeWhile]
  refine finish_run _ [] ?_
  intro c hc
  exact (isBase64_iff c).mp (List.all_eq_true.mp List.all_takeWhile c hc)

lemma takeWhile_body {body : List UInt8} (h : ∀ c ∈ body, c ∈ alphabet) (n : ℕ) :
    (body ++ List.replicate n 61).takeWhile isBase64 = body := by
  have hbody : ∀ c ∈ body, isBase64 c = true := by
    intro c hc
    exact (isBase64_iff c).mpr (h c hc)
  have hfill : (List.replicate n (61 : UInt8)).takeWhile isBase64 = [] := by
    rcases n with _ | n
    · rfl
    · rw [List.replicate_succ]
      exact List.takeWhile_cons_of_neg (by decide)
  rw [List.takeWhile_append_of_pos hbody, hfill, List.append_nil]

lemma rdropWhile_body {body : List UInt8} (h : ∀ c ∈ body, c ∈ alphabet) (n : ℕ) :
    (body ++ List.replicate n 61).rdropWhile (· == 61) = body := by
  induction n with
  | zero =>
    rw [List.replicate_zero, List.append_nil, List.rdropWhile_eq_self_iff]
    intro hne hlast
    have hmem := h _ (List.getLast_mem hne)
    rw [beq_iff_eq.mp hlast] at hmem
    exact absurd hmem (by decide)
  | succ n ih =>
    rw [List.replicate_succ', ← List.append_assoc, List.rdropWhile_concat_pos _ _ _ (by decide)]
    exact ih

/-- Both directions, and what is decoded of any input: the longest prefix of characters of the
alphabet. -/
theorem base64_laws :
    (∀ x, base64Decode (base64Encode x) = x ∧
      base64Decode ((base64Encode x).rdropWhile (· == 61)) = x) ∧
    (∀ s, Lib.Base64.Canonical s → base64Encode (base64Decode s) = s) ∧
    ∀ s, base64Decode s = decode ((s.takeWhile (· ∈ alphabet)).map value) ∧
      (base64Decode s).length = 3 * (s.takeWhile (· ∈ alphabet)).length / 4 := by
  have hprefix : ∀ s : List UInt8, s.takeWhile isBase64 = s.takeWhile (· ∈ alphabet) := by
    intro s
    congr 1
    funext c
    rw [Bool.eq_iff_iff, isBase64_iff, decide_eq_true_iff]
  refine ⟨?_, ?_, ?_⟩
  · intro x
    obtain ⟨body, n, hencode, hbody, hdecode⟩ := Lib.Base64.decode_encode x
    rw [base64Encode_eq, hencode, rdropWhile_body hbody n]
    constructor
    · rw [base64Decode_eq, takeWhile_body hbody]
      exact hdecode
    · have hall := takeWhile_body hbody 0
      rw [List.replicate_zero, List.append_nil] at hall
      rw [base64Decode_eq, hall]
      exact hdecode
  · intro s h
    obtain ⟨hlen, body, n, rfl, hn, hbody, hbits⟩ := h
    rw [List.length_append, List.length_replicate] at hlen
    rw [base64Encode_eq, base64Decode_eq, takeWhile_body hbody]
    exact Lib.Base64.encode_decode body n hbody hlen hn hbits
  · intro s
    rw [base64Decode_eq, hprefix]
    refine ⟨rfl, ?_⟩
    rw [Lib.Base64.decode_length, List.length_map]

end Simple.Utils.Base64
