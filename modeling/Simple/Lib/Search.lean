import Mathlib.Data.List.Infix
import Mathlib.Tactic

/-! The first place where a pattern stands in a list, and the shortest prefix that ends with it. -/

namespace Simple.Lib

universe u

variable {α : Type u}

/-- The shortest non-empty prefix of `xs` that ends with `pattern`. -/
structure ShortestTo (pattern xs r : List α) : Prop where
  isPrefix : r <+: xs
  ne_nil : r ≠ []
  ends : pattern <:+ r
  le_of : ∀ q, q <+: xs → q ≠ [] → pattern <:+ q → r.length ≤ q.length

lemma ShortestTo.append {pattern xs r : List α} (h : ShortestTo pattern xs r) (ys : List α) :
    ShortestTo pattern (xs ++ ys) r where
  isPrefix := h.isPrefix.trans (List.prefix_append xs ys)
  ne_nil := h.ne_nil
  ends := h.ends
  le_of := by
    intro q hq hn he
    rcases Nat.le_total q.length xs.length with hle | hle
    · exact h.le_of q (List.prefix_of_prefix_length_le hq (List.prefix_append xs ys) hle) hn he
    · exact h.isPrefix.length_le.trans hle

namespace Search

variable [DecidableEq α]

def find (pattern xs : List α) : Option ℕ := xs.tails.findIdx? pattern.isPrefixOf

variable {pattern xs ys : List α} {n : ℕ}

lemma find_eq_some_iff (hp : pattern ≠ []) :
    find pattern xs = some n ↔ pattern <+: xs.drop n ∧ ∀ m < n, ¬pattern <+: xs.drop m := by
  rw [find, List.findIdx?_eq_some_iff_getElem]
  simp only [List.getElem_tails, List.isPrefixOf_iff_prefix, List.length_tails]
  constructor
  · rintro ⟨-, hn, hbefore⟩
    refine ⟨hn, fun m hm h => ?_⟩
    have := hbefore m hm
    simp [h] at this
  · rintro ⟨hn, hbefore⟩
    refine ⟨?_, hn, fun m hm => ?_⟩
    · by_contra hlt
      rw [List.drop_eq_nil_of_le (by omega), List.prefix_nil] at hn
      exact hp hn
    · simpa using hbefore m hm

lemma find_eq_none_iff : find pattern xs = none ↔ ∀ m ≤ xs.length, ¬pattern <+: xs.drop m := by
  rw [find, List.findIdx?_eq_none_iff]
  simp only [List.mem_tails]
  constructor
  · intro h m _ hd
    have := h _ (List.drop_suffix m xs)
    rw [List.isPrefixOf_iff_prefix.mpr hd] at this
    cases this
  · rintro h _ ⟨ys, rfl⟩
    rw [← Bool.not_eq_true, List.isPrefixOf_iff_prefix]
    simpa using h ys.length

lemma add_le_of_find (hp : pattern ≠ []) (h : find pattern xs = some n) :
    n + pattern.length ≤ xs.length := by
  have hle := ((find_eq_some_iff hp).mp h).1.length_le
  have hpos := List.length_pos_iff.mpr hp
  rw [List.length_drop] at hle
  omega

lemma find_append (hp : pattern ≠ []) (h : find pattern xs = some n) (ys : List α) :
    find pattern (xs ++ ys) = some n := by
  have hle := add_le_of_find hp h
  obtain ⟨hn, hbefore⟩ := (find_eq_some_iff hp).mp h
  refine (find_eq_some_iff hp).mpr ⟨?_, fun m hm hpre => hbefore m hm ?_⟩
  · rw [List.drop_append_of_le_length (by omega)]
    exact hn.trans (List.prefix_append _ _)
  · rw [List.drop_append_of_le_length (by omega)] at hpre
    refine List.prefix_of_prefix_length_le hpre (List.prefix_append _ _) ?_
    rw [List.length_drop]
    omega

lemma find_drop (hp : pattern ≠ []) (hnone : find pattern xs = none) {k : ℕ}
    (hk : k + pattern.length ≤ xs.length + 1) :
    find pattern (xs ++ ys) = (find pattern ((xs ++ ys).drop k)).map (k + ·) := by
  have hclear : ∀ m < k, ¬pattern <+: (xs ++ ys).drop m := by
    intro m hm hpre
    rw [List.drop_append_of_le_length (by omega)] at hpre
    refine find_eq_none_iff.mp hnone m (by omega) ?_
    refine List.prefix_of_prefix_length_le hpre (List.prefix_append _ _) ?_
    rw [List.length_drop]
    omega
  cases h : find pattern ((xs ++ ys).drop k) with
  | none =>
    refine find_eq_none_iff.mpr fun m hm => ?_
    by_cases hmk : m < k
    · exact hclear m hmk
    · have := find_eq_none_iff.mp h (m - k) (by rw [List.length_drop]; omega)
      rwa [List.drop_drop, Nat.add_sub_of_le (Nat.le_of_not_lt hmk)] at this
  | some n =>
    obtain ⟨hn, hbefore⟩ := (find_eq_some_iff hp).mp h
    rw [List.drop_drop] at hn
    refine (find_eq_some_iff hp).mpr ⟨hn, fun m (hm : m < k + n) => ?_⟩
    by_cases hmk : m < k
    · exact hclear m hmk
    · have := hbefore (m - k) (by omega)
      rwa [List.drop_drop, Nat.add_sub_of_le (Nat.le_of_not_lt hmk)] at this

lemma shortestTo_of_find (hp : pattern ≠ []) (h : find pattern xs = some n) :
    ShortestTo pattern xs (xs.take (n + pattern.length)) := by
  have hle := add_le_of_find hp h
  have hpos := List.length_pos_iff.mpr hp
  obtain ⟨⟨ys, hys⟩, hbefore⟩ := (find_eq_some_iff hp).mp h
  have hlen : (xs.take (n + pattern.length)).length = n + pattern.length := by
    rw [List.length_take]
    omega
  refine ⟨List.take_prefix _ _, ?_, ⟨xs.take n, ?_⟩, ?_⟩
  · rw [← List.length_pos_iff]
    omega
  · rw [List.take_add, ← hys, List.take_left]
  · rintro q ⟨zs, rfl⟩ - ⟨ws, rfl⟩
    rw [hlen, List.length_append]
    by_contra hlt
    refine hbefore ws.length (by omega) ?_
    simp

lemma find_pair {a b : α} {line : List α} (ha : a ∉ line) (rest : List α) :
    find [a, b] (line ++ a :: b :: rest) = some line.length := by
  refine (find_eq_some_iff (by simp)).mpr ⟨by simp, fun m hm hpre => ha ?_⟩
  rw [List.drop_append_of_le_length hm.le, List.drop_eq_getElem_cons hm] at hpre
  obtain rfl := (List.cons_prefix_cons.mp hpre).1
  exact List.getElem_mem hm

end Search

end Simple.Lib
