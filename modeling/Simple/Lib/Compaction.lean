import Mathlib.Tactic

/-! A list that is compacted in place. What is read at `i` and stays is moved to `w`, which is ahead of
`i` as long as all stay. -/

namespace Simple.Lib.Compaction

variable {α : Type*} {xs : List α} {w i : ℕ} {y : α}

def kept (xs : List α) (w i : ℕ) : List α := xs.take (min w i) ++ xs.drop i

def gap (xs : List α) (w i : ℕ) : List α := (xs.take i).drop (min w i)

lemma split_gap (xs : List α) (w i : ℕ) : xs = xs.take (min w i) ++ gap xs w i ++ xs.drop i := by
  have htake : (xs.take i).take (min w i) = xs.take (min w i) := by
    rw [List.take_take]
    congr 1
    omega
  rw [gap, ← htake, List.take_append_drop, List.take_append_drop]

@[simp] lemma kept_zero : kept xs w 0 = xs := by simp [kept]

@[simp] lemma gap_zero : gap xs w 0 = [] := by simp [gap]

lemma kept_of_le (h : i ≤ w) : kept xs w i = xs := by
  rw [kept, Nat.min_eq_right h, List.take_append_drop]

lemma gap_of_le (h : i ≤ w) : gap xs w i = [] := by
  rw [gap, Nat.min_eq_right h]
  exact List.drop_eq_nil_of_le (List.length_take_le i xs)

lemma kept_eq_cons (hi : i < xs.length) : kept xs w i = xs.take (min w i) ++ xs[i] :: xs.drop (i + 1) := by
  rw [kept, List.drop_eq_getElem_cons hi]

lemma kept_leave : kept xs (min w i) (i + 1) = xs.take (min w i) ++ xs.drop (i + 1) := by
  rw [kept]
  congr 2
  omega

lemma gap_leave (hi : i < xs.length) : gap xs (min w i) (i + 1) = gap xs w i ++ [xs[i]] := by
  have hmin : min (min w i) (i + 1) = min w i := by omega
  rw [gap, gap, hmin, List.take_succ_eq_append_getElem hi, List.drop_append_of_le_length]
  rw [List.length_take]
  omega

lemma kept_move (hw : w < i) (hi : i < xs.length) :
    kept ((xs.set w xs[i]).set i y) (w + 1) (i + 1) = kept xs w i := by
  rw [kept_eq_cons hi, kept, Nat.min_eq_left (by omega), Nat.min_eq_left (by omega)]
  rw [List.take_set_of_le (by omega), List.drop_set_of_lt (by omega), List.drop_set_of_lt (by omega),
    List.take_succ_eq_append_getElem (by rw [List.length_set]; omega), List.getElem_set_self,
    List.take_set_of_le le_rfl, List.append_assoc, List.singleton_append]

lemma gap_move (hw : w < i) (hi : i < xs.length) :
    gap ((xs.set w xs[i]).set i y) (w + 1) (i + 1) = (gap xs w i).tail ++ [y] := by
  have htake : ((xs.set w xs[i]).set i y).take (i + 1) = (xs.take i).set w xs[i] ++ [y] := by
    rw [List.take_succ_eq_append_getElem (by rw [List.length_set, List.length_set]; omega),
      List.getElem_set_self, List.take_set_of_le le_rfl, List.take_set]
  rw [gap, gap, htake, Nat.min_eq_left (by omega), Nat.min_eq_left (by omega), List.drop_append_of_le_length,
    List.drop_set_of_lt (by omega), List.tail_drop]
  rw [List.length_set, List.length_take]
  omega

lemma kept_end (h : xs.length ≤ i) : kept xs w i = xs.take (min w i) := by
  rw [kept, List.drop_eq_nil_of_le h, List.append_nil]

end Simple.Lib.Compaction
