import Simple.Lib.Suffix

/-! UTF-8: where a character ends is told by its first byte, and no character occurs in a text but
between two others. -/

namespace Simple.Lib

def Continues (b : UInt8) : Prop := 128 ≤ b ∧ b < 192

def charWidth (b : UInt8) : ℕ :=
  if b < 128 then 1 else if b < 224 then 2 else if b < 240 then 3 else 4

inductive IsCharacter : List UInt8 → Prop
  | mk (b : UInt8) (bs : List UInt8) (lead : ¬Continues b) (low : b < 248)
      (rest : ∀ x ∈ bs, Continues x) (width : bs.length + 1 = charWidth b) : IsCharacter (b :: bs)

def utf8 (text : List Char) : List UInt8 := text.flatMap String.utf8EncodeChar

lemma utf8_cons (c : Char) (text : List Char) :
    utf8 (c :: text) = String.utf8EncodeChar c ++ utf8 text := rfl

section

variable {n : ℕ} (hn : n < 256)

include hn

lemma toNat_byte : (UInt8.ofNat n).toNat = n := UInt8.toNat_ofNat_of_lt' hn

lemma zero_eq_byte : 0 = UInt8.ofNat n ↔ n = 0 := by
  rw [← UInt8.toNat_inj, toNat_byte hn]
  exact eq_comm

lemma byte_lt_iff {m : ℕ} (hm : m < 256) : UInt8.ofNat n < UInt8.ofNat m ↔ n < m := by
  rw [UInt8.lt_iff_toNat_lt, toNat_byte hn, toNat_byte hm]

lemma continues_iff : Continues (UInt8.ofNat n) ↔ 128 ≤ n ∧ n < 192 := by
  unfold Continues
  refine and_congr ?_ (byte_lt_iff hn (by decide))
  rw [UInt8.le_iff_toNat_le, toNat_byte hn]
  rfl

lemma charWidth_byte : charWidth (UInt8.ofNat n) =
    if n < 128 then 1 else if n < 224 then 2 else if n < 240 then 3 else 4 := by
  unfold charWidth
  simp only [← byte_lt_iff hn (show 128 < 256 by decide),
    ← byte_lt_iff hn (show 224 < 256 by decide), ← byte_lt_iff hn (show 240 < 256 by decide)]
  rfl

lemma isCharacter_byte {bs : List UInt8} (lead : n < 128 ∨ 192 ≤ n) (low : n < 248)
    (rest : ∀ x ∈ bs, Continues x)
    (width : bs.length + 1 = if n < 128 then 1 else if n < 224 then 2 else if n < 240 then 3 else 4) :
    IsCharacter (UInt8.ofNat n :: bs) := by
  refine ⟨_, _, ?_, (byte_lt_iff hn (by decide)).mpr low, rest, width.trans (charWidth_byte hn).symm⟩
  rw [continues_iff hn]
  omega

end

lemma continues_rest (n : ℕ) : Continues (UInt8.ofNat (n % 64 + 128)) := by
  have hlt : n % 64 < 64 := Nat.mod_lt n (by decide)
  rw [continues_iff (by omega)]
  omega

lemma isCharacter_utf8EncodeChar (c : Char) : IsCharacter (String.utf8EncodeChar c) := by
  unfold String.utf8EncodeChar
  extract_lets v
  split_ifs with h1 h2 h3
  · refine isCharacter_byte (by omega) (by omega) (by omega) (by simp) ?_
    rw [if_pos (by omega)]
    rfl
  · refine isCharacter_byte (by omega) (by omega) (by omega) ?_ ?_
    · simp [continues_rest, -UInt8.ofNat_add]
    · rw [if_neg (by omega), if_pos (by omega)]
      rfl
  · refine isCharacter_byte (by omega) (by omega) (by omega) ?_ ?_
    · simp [continues_rest, -UInt8.ofNat_add]
    · rw [if_neg (by omega), if_neg (by omega), if_pos (by omega)]
      rfl
  · refine isCharacter_byte (by omega) (by omega) (by omega) ?_ ?_
    · simp [continues_rest, -UInt8.ofNat_add]
    · rw [if_neg (by omega), if_neg (by omega), if_neg (by omega)]
      rfl

variable {us vs : List (List UInt8)} {u v x y : List UInt8}

lemma IsCharacter.append_inj (hx : IsCharacter x) (hy : IsCharacter y) (h : x ++ u = y ++ v) :
    x = y ∧ u = v := by
  obtain ⟨b, bs, -, -, -, hbs⟩ := hx
  obtain ⟨b', bs', -, -, -, hbs'⟩ := hy
  obtain ⟨rfl, -⟩ := List.cons_eq_cons.mp h
  refine List.append_inj h ?_
  rw [List.length_cons, List.length_cons, hbs, hbs']

lemma IsCharacter.ne_nil (hx : IsCharacter x) : x ≠ [] := by
  cases hx
  exact List.cons_ne_nil _ _

def Begins (u : List UInt8) : Prop := ∀ b ∈ u.head?, ¬Continues b

lemma IsCharacter.begins (hx : IsCharacter x) (u : List UInt8) : Begins (x ++ u) := by
  obtain ⟨b, bs, hlead, -, -, -⟩ := hx
  intro b' hb'
  obtain rfl : b = b' := by simpa using hb'
  exact hlead

lemma split_at_begin (hus : ∀ x ∈ us, IsCharacter x) (hv : Begins v) (h : us.flatten = u ++ v) :
    ∃ as bs, us = as ++ bs ∧ as.flatten = u ∧ bs.flatten = v := by
  induction us generalizing u with
  | nil =>
    obtain ⟨rfl, rfl⟩ : u = [] ∧ v = [] := by simpa using h
    exact ⟨[], [], rfl, rfl, rfl⟩
  | cons x us ih =>
    rw [List.forall_mem_cons] at hus
    cases u with
    | nil => exact ⟨[], x :: us, rfl, rfl, h⟩
    | cons a u =>
      obtain ⟨b, bs, hlead, hlow, hrest, hwidth⟩ := hus.1
      rw [List.flatten_cons, List.cons_append, List.cons_append, List.cons_eq_cons] at h
      obtain ⟨rfl, h⟩ := h
      rcases List.append_eq_append_iff.mp h with ⟨w, rfl, hw⟩ | ⟨w, rfl, hw⟩
      · obtain ⟨as, cs, rfl, rfl, hcs⟩ := ih hus.2 hw
        exact ⟨(b :: bs) :: as, cs, rfl, rfl, hcs⟩
      · cases w with
        | nil =>
          obtain ⟨as, cs, rfl, has, hcs⟩ := ih hus.2 (u := []) (by simpa using hw.symm)
          refine ⟨(b :: u) :: as, cs, by simp, ?_, hcs⟩
          simp [has]
        | cons d w =>
          have hd : Continues d := hrest d (by simp)
          exact absurd hd (hv d (by simp [hw]))

lemma prefix_flatten (hus : ∀ x ∈ us, IsCharacter x) (hvs : ∀ x ∈ vs, IsCharacter x)
    (h : us.flatten = vs.flatten ++ v) : ∃ ws, us = vs ++ ws ∧ ws.flatten = v := by
  induction vs generalizing us with
  | nil => exact ⟨us, rfl, h⟩
  | cons y vs ih =>
    rw [List.forall_mem_cons] at hvs
    cases us with
    | nil =>
      rw [List.flatten_cons, List.append_assoc] at h
      exact absurd (List.append_eq_nil_iff.mp h.symm).1 hvs.1.ne_nil
    | cons x us =>
      rw [List.forall_mem_cons] at hus
      rw [List.flatten_cons, List.flatten_cons, List.append_assoc] at h
      obtain ⟨rfl, htail⟩ := hus.1.append_inj hvs.1 h
      obtain ⟨ws, rfl, hws⟩ := ih hus.2 hvs.2 htail
      exact ⟨ws, rfl, hws⟩

/-- A text that occurs in another one is made of characters of it. -/
theorem occurs_at_characters (hus : ∀ x ∈ us, IsCharacter x) (hvs : ∀ x ∈ vs, IsCharacter x)
    (hne : vs ≠ []) (h : us.flatten = u ++ (vs.flatten ++ v)) :
    ∃ as bs, us = as ++ (vs ++ bs) ∧ as.flatten = u ∧ bs.flatten = v := by
  have hbegins : Begins (vs.flatten ++ v) := by
    obtain ⟨y, ys, rfl⟩ := List.exists_cons_of_ne_nil hne
    rw [List.flatten_cons, List.append_assoc]
    exact (hvs y List.mem_cons_self).begins _
  obtain ⟨as, bs, rfl, has, hbs⟩ := split_at_begin hus hbegins h
  obtain ⟨cs, rfl, hcs⟩ := prefix_flatten (fun x hx => hus x (List.mem_append_right _ hx)) hvs hbs
  exact ⟨as, cs, rfl, has, hcs⟩

lemma IsCharacter.map {f : UInt8 → UInt8} (hf : ∀ b, Continues (f b) ↔ Continues b)
    (hlow : ∀ b, b < 248 → f b < 248) (hwidth : ∀ b, charWidth (f b) = charWidth b)
    (hx : IsCharacter x) : IsCharacter (x.map f) := by
  obtain ⟨b, bs, lead, low, rest, width⟩ := hx
  refine ⟨f b, bs.map f, (hf b).not.mpr lead, hlow b low, ?_, ?_⟩
  · intro y hy
    obtain ⟨z, hz, rfl⟩ := List.mem_map.mp hy
    exact (hf z).mpr (rest z hz)
  · rw [List.length_map, hwidth, width]

lemma IsCharacter.eq_of_zero_mem (hx : IsCharacter x) (h : 0 ∈ x) : x = [0] := by
  obtain ⟨b, bs, lead, low, rest, width⟩ := hx
  rcases List.mem_cons.mp h with rfl | h
  · have hnil : bs.length = 0 := Nat.succ.inj width
    rw [List.length_eq_zero_iff.mp hnil]
  · exact absurd (rest 0 h).1 (by decide)

lemma zero_mem_utf8EncodeChar {c : Char} : 0 ∈ String.utf8EncodeChar c ↔ c = Char.ofNat 0 := by
  constructor
  · intro h
    replace h := (isCharacter_utf8EncodeChar c).eq_of_zero_mem h
    unfold String.utf8EncodeChar at h
    extract_lets v at h
    split_ifs at h
    · rw [List.singleton_inj, eq_comm, zero_eq_byte (by omega)] at h
      exact Char.ofNat_toNat c ▸ congrArg Char.ofNat h
    all_goals simp at h
  · rintro rfl
    decide

lemma exists_item {k : ℕ} (us : List (List UInt8)) (hk : k < us.flatten.length) :
    ∃ i < us.length, (us.take i).flatten.length ≤ k ∧ k < (us.take (i + 1)).flatten.length := by
  induction us generalizing k with
  | nil => exact absurd hk (Nat.not_lt_zero k)
  | cons x us ih =>
    by_cases hx : k < x.length
    · exact ⟨0, Nat.succ_pos _, Nat.zero_le _, by simpa using hx⟩
    · rw [List.flatten_cons, List.length_append] at hk
      obtain ⟨i, hi, hle, hlt⟩ := ih (k := k - x.length) (by omega)
      refine ⟨i + 1, Nat.succ_lt_succ hi, ?_, ?_⟩
      · rw [List.take_succ_cons, List.flatten_cons, List.length_append]
        omega
      · rw [List.take_succ_cons, List.flatten_cons, List.length_append]
        omega

lemma flatten_take_mono (us : List (List UInt8)) {m n : ℕ} (hmn : m ≤ n) :
    (us.take m).flatten.length ≤ (us.take n).flatten.length := by
  obtain ⟨j, rfl⟩ := Nat.exists_eq_add_of_le hmn
  rw [List.take_add, List.flatten_append, List.length_append]
  exact Nat.le_add_right _ _

/-- The characters that are covered are those with a covered byte. -/
theorem covered_flatten {pats : List (List (List UInt8))} {k : ℕ} (hus : ∀ x ∈ us, IsCharacter x)
    (hpats : ∀ p ∈ pats, ∀ x ∈ p, IsCharacter x) :
    Covered (pats.map List.flatten) us.flatten k ↔ ∃ i, Covered pats us i ∧
      (us.take i).flatten.length ≤ k ∧ k < (us.take (i + 1)).flatten.length := by
  constructor
  · intro h
    obtain ⟨q, hq, u, v, heq, hle, hlt⟩ := covered_iff.mp h
    obtain ⟨p, hp, rfl⟩ := List.mem_map.mp hq
    have hne : p ≠ [] := by
      rintro rfl
      rw [List.flatten_nil, List.length_nil] at hlt
      omega
    obtain ⟨as, bs, rfl, rfl, rfl⟩ := occurs_at_characters hus (hpats p hp) hne heq
    obtain ⟨j, hj, hjle, hjlt⟩ := exists_item (k := k - as.flatten.length) p (by omega)
    refine ⟨as.length + j, covered_iff.mpr ⟨p, hp, as, bs, rfl, Nat.le_add_right _ _, ?_⟩, ?_, ?_⟩
    · exact Nat.add_lt_add_left hj _
    · rw [List.take_length_add_append, List.take_append_of_le_length hj.le, List.flatten_append,
        List.length_append]
      omega
    · rw [Nat.add_assoc, List.take_length_add_append,
        List.take_append_of_le_length (show j + 1 ≤ p.length from hj),
        List.flatten_append, List.length_append]
      omega
  · rintro ⟨i, h, hle, hlt⟩
    obtain ⟨p, hp, u, v, rfl, hle', hlt'⟩ := covered_iff.mp h
    have hstart := flatten_take_mono (u ++ (p ++ v)) hle'
    have hend := flatten_take_mono (u ++ (p ++ v)) (Nat.succ_le_of_lt hlt')
    rw [List.take_left] at hstart
    rw [List.take_length_add_append, List.take_left, List.flatten_append, List.length_append] at hend
    exact covered_iff.mpr ⟨p.flatten, List.mem_map_of_mem hp, u.flatten, v.flatten, by simp,
      hstart.trans hle, hlt.trans_le hend⟩

end Simple.Lib
