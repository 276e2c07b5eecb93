import Mathlib.Data.List.GetD
import Mathlib.Tactic

/-! Ranges of a cyclic memory of `size` cells, addressed by unbounded positions. -/

namespace Simple.Lib.Cyclic

variable {β : Type}

def readRange (mem : ℕ → β) (i n : ℕ) : List β := (List.range n).map fun j => mem (i + j)

def writeRange (mem : ℕ → β) (i : ℕ) (xs : List β) : ℕ → β := fun k =>
  if i ≤ k then xs.getD (k - i) (mem k) else mem k

def segment (mem : ℕ → β) (size pos n : ℕ) : List β :=
  (List.range n).map fun j => mem ((pos + j) % size)

def overwrite (mem : ℕ → β) (size pos : ℕ) (xs : List β) : ℕ → β := fun i =>
  if i < size then xs.getD ((i + size - pos % size) % size) (mem i) else mem i

variable {mem : ℕ → β} {size pos : ℕ}

lemma add_mod_cases (hs : 0 < size) {j : ℕ} (hj : j ≤ size) :
    (pos + j) % size = if pos % size + j < size then pos % size + j else pos % size + j - size := by
  have hp := Nat.mod_lt pos hs
  rw [← Nat.mod_add_mod]
  split
  · exact Nat.mod_eq_of_lt ‹_›
  · rw [Nat.mod_eq_sub_mod (by omega), Nat.mod_eq_of_lt (by omega)]

@[simp] lemma readRange_length (i n : ℕ) : (readRange mem i n).length = n := by simp [readRange]

@[simp] lemma segment_length (n : ℕ) : (segment mem size pos n).length = n := by simp [segment]

lemma readRange_eq_segment {n : ℕ} (h : pos % size + n ≤ size) :
    readRange mem (pos % size) n = segment mem size pos n := by
  rcases Nat.eq_zero_or_pos n with rfl | hn
  · rfl
  apply List.map_congr_left
  intro j hj
  have hj' := List.mem_range.mp hj
  rw [add_mod_cases (by omega) (by omega), if_pos (by omega)]

lemma exists_offset (pos : ℕ) {i : ℕ} (hi : i < size) : ∃ k < size, i = (pos + k) % size := by
  have hs : 0 < size := by omega
  have hp := Nat.mod_lt pos hs
  by_cases h : pos % size ≤ i
  · refine ⟨i - pos % size, by omega, ?_⟩
    rw [add_mod_cases hs (by omega), if_pos (by omega)]
    omega
  · refine ⟨i + size - pos % size, by omega, ?_⟩
    rw [add_mod_cases hs (by omega), if_neg (by omega)]
    omega

lemma overwrite_get (hs : 0 < size) (xs : List β) {j : ℕ} (hj : j < size) :
    overwrite mem size pos xs ((pos + j) % size) = xs.getD j (mem ((pos + j) % size)) := by
  have hp := Nat.mod_lt pos hs
  have hlt := Nat.mod_lt (pos + j) hs
  have hoff : ((pos + j) % size + size - pos % size) % size = j := by
    rw [add_mod_cases hs hj.le]
    split
    · rw [show pos % size + j + size - pos % size = j + size by omega, Nat.add_mod_right,
        Nat.mod_eq_of_lt hj]
    · rw [show pos % size + j - size + size - pos % size = j by omega, Nat.mod_eq_of_lt hj]
  rw [overwrite, if_pos hlt, hoff]

lemma overwrite_before (hs : 0 < size) {xs : List β} {p : ℕ} (hp : p < pos)
    (h : pos + xs.length ≤ p + size) : overwrite mem size pos xs (p % size) = mem (p % size) := by
  have hround : p % size = (pos + (p + size - pos)) % size := by
    rw [show pos + (p + size - pos) = p + size by omega, Nat.add_mod_right]
  rw [hround, overwrite_get hs _ (by omega), List.getD_eq_default _ _ (by omega)]

lemma overwrite_after (hs : 0 < size) {xs : List β} {p : ℕ} (hp : pos + xs.length ≤ p)
    (h : p < pos + size) : overwrite mem size pos xs (p % size) = mem (p % size) := by
  rw [show p = pos + (p - pos) by omega, overwrite_get hs _ (by omega),
    List.getD_eq_default _ _ (by omega)]

lemma segment_overwrite (hs : 0 < size) (xs : List β) (hx : xs.length ≤ size) :
    segment (overwrite mem size pos xs) size pos xs.length = xs := by
  apply List.ext_getElem
  · simp
  · intro j hj hj'
    simp only [segment, List.getElem_map, List.getElem_range]
    rw [overwrite_get hs xs (by omega), List.getD_eq_getElem _ _ hj']

lemma writeRange_eq_overwrite (hs : 0 < size) {xs : List β} (h : pos % size + xs.length ≤ size) :
    writeRange mem (pos % size) xs = overwrite mem size pos xs := by
  have hp := Nat.mod_lt pos hs
  funext i
  simp only [overwrite, writeRange]
  generalize pos % size = idx at *
  by_cases hi : i < size
  · rw [if_pos hi]
    by_cases hw : idx ≤ i
    · rw [if_pos hw, show i + size - idx = i - idx + size by omega, Nat.add_mod_right,
        Nat.mod_eq_of_lt (by omega)]
    · rw [if_neg hw, Nat.mod_eq_of_lt (by omega), List.getD_eq_default _ _ (by omega)]
  · rw [if_neg hi, if_pos (by omega), List.getD_eq_default _ _ (by omega)]

lemma overwrite_append (hs : 0 < size) {xs ys : List β} (h : xs.length + ys.length ≤ size) :
    overwrite (overwrite mem size pos xs) size (pos + xs.length) ys =
      overwrite mem size pos (xs ++ ys) := by
  funext i
  by_cases hi : i < size
  · obtain ⟨k, hk, rfl⟩ := exists_offset pos hi
    rw [overwrite_get hs _ hk]
    by_cases hx : k < xs.length
    · rw [overwrite_before hs (by omega) (by omega), overwrite_get hs _ hk,
        List.getD_append _ _ _ _ hx]
    · have hround : (pos + k) % size = (pos + xs.length + (k - xs.length)) % size := by
        rw [show pos + xs.length + (k - xs.length) = pos + k by omega]
      have hold : overwrite mem size pos xs ((pos + k) % size) = mem ((pos + k) % size) :=
        overwrite_after hs (by omega) (by omega)
      rw [List.getD_append_right _ _ _ _ (by omega), ← hold, hround, overwrite_get hs _ (by omega)]
  · simp only [overwrite, if_neg hi]

end Simple.Lib.Cyclic
