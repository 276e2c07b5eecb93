import Mathlib.Tactic

/-! The longest suffix of a word that is in a dictionary. -/

namespace Simple.Lib

variable {α : Type}

/-- The suffix is empty where no other one is in the dictionary. -/
def longest (P : List α → Prop) [DecidablePred P] : List α → List α
  | [] => []
  | a :: w => if P (a :: w) then a :: w else longest P w

def border (P : List α → Prop) [DecidablePred P] (w : List α) : List α := longest P w.tail

def PrefixClosed (P : List α → Prop) : Prop := ∀ w c, P (w ++ [c]) → P w

lemma PrefixClosed.take {P : List α → Prop} (hp : PrefixClosed P) {w : List α} (hw : P w) (k : ℕ) :
    P (w.take k) := by
  induction w using List.reverseRecOn with
  | nil => simpa using hw
  | append_singleton v c ih =>
    by_cases hk : k ≤ v.length
    · rw [List.take_append_of_le_length hk]
      exact ih (hp v c hw)
    · rw [List.take_of_length_le]
      · exact hw
      · rw [List.length_append, List.length_singleton]
        omega

lemma PrefixClosed.length_lt {words : List (List α)} (hp : PrefixClosed (· ∈ words)) {w : List α}
    (hw : w ∈ words) : w.length < words.length := by
  have hnodup : ((List.range (w.length + 1)).map w.take).Nodup := by
    refine List.nodup_range.map_on ?_
    intro k hk l hl heq
    rw [List.mem_range] at hk hl
    have hlen := congrArg List.length heq
    rw [List.length_take, List.length_take] at hlen
    omega
  have hsub : (List.range (w.length + 1)).map w.take ⊆ words := by
    intro v hv
    obtain ⟨k, -, rfl⟩ := List.mem_map.mp hv
    exact hp.take hw k
  have hle := (List.subperm_of_subset hnodup hsub).length_le
  rw [List.length_map, List.length_range] at hle
  omega

variable {P Q : List α → Prop} [DecidablePred P] [DecidablePred Q] {v w : List α} {c : α}

lemma longest_of_mem (h : P w) : longest P w = w := by
  cases w with
  | nil => rfl
  | cons a w => exact if_pos h

lemma longest_cons_of_not_mem {a : α} (h : ¬P (a :: w)) : longest P (a :: w) = longest P w :=
  if_neg h

lemma longest_suffix (w : List α) : longest P w <:+ w := by
  induction w with
  | nil => exact List.suffix_rfl
  | cons a w ih =>
    unfold longest
    split_ifs
    · exact List.suffix_rfl
    · exact ih.trans (List.suffix_cons a w)

lemma suffix_longest (hv : P v) (hs : v <:+ w) : v <:+ longest P w := by
  induction w with
  | nil => exact hs
  | cons a w ih =>
    unfold longest
    split_ifs with h
    · exact hs
    · rcases List.suffix_cons_iff.mp hs with rfl | hs
      · exact absurd hv h
      · exact ih hs

lemma longest_ne_nil_iff : longest P w ≠ [] ↔ ∃ v, P v ∧ v ≠ [] ∧ v <:+ w := by
  constructor
  · intro h
    induction w with
    | nil => exact absurd rfl h
    | cons a w ih =>
      by_cases hw : P (a :: w)
      · exact ⟨a :: w, hw, List.cons_ne_nil a w, List.suffix_rfl⟩
      · rw [longest_cons_of_not_mem hw] at h
        obtain ⟨v, hv, hne, hs⟩ := ih h
        exact ⟨v, hv, hne, hs.trans (List.suffix_cons a w)⟩
  · rintro ⟨v, hv, hne, hs⟩ hnil
    have hsuffix := suffix_longest hv hs
    rw [hnil] at hsuffix
    exact hne (List.suffix_nil.mp hsuffix)

lemma longest_concat (hp : PrefixClosed P) :
    longest P (w ++ [c]) = longest P (longest P w ++ [c]) := by
  induction w with
  | nil => rfl
  | cons a w ih =>
    by_cases h : P (a :: w)
    · rw [longest_of_mem h]
    · have hc : ¬P (a :: (w ++ [c])) := fun hc => h (hp (a :: w) c hc)
      rw [longest_cons_of_not_mem h, List.cons_append, longest_cons_of_not_mem hc, ih]

lemma longest_longest (hQ : ∀ v, Q v → P v) : longest Q (longest P w) = longest Q w := by
  induction w with
  | nil => rfl
  | cons a w ih =>
    by_cases h : P (a :: w)
    · rw [longest_of_mem h]
    · rw [longest_cons_of_not_mem h, longest_cons_of_not_mem fun hq => h (hQ _ hq), ih]

lemma border_length_lt (hw : w ≠ []) : (border P w).length < w.length := by
  have hle := (longest_suffix (P := P) w.tail).length_le
  have hpos := List.length_pos_iff.mpr hw
  rw [List.length_tail] at hle
  unfold border
  omega

lemma border_concat (hp : PrefixClosed P) (hw : w ≠ []) :
    border P (w ++ [c]) = longest P (border P w ++ [c]) := by
  unfold border
  rw [List.tail_append_of_ne_nil hw, longest_concat hp]

lemma longest_concat_of_not_mem (hp : PrefixClosed P) (hw : w ≠ []) (h : ¬P (w ++ [c])) :
    longest P (w ++ [c]) = longest P (border P w ++ [c]) := by
  rw [← border_concat hp hw]
  obtain ⟨a, w, rfl⟩ := List.exists_cons_of_ne_nil hw
  exact longest_cons_of_not_mem h

lemma longest_singleton_of_not_mem (h : ¬P [c]) : longest P [c] = [] := longest_cons_of_not_mem h

lemma longest_mem_of_ne_nil (h : longest P w ≠ []) : P (longest P w) := by
  induction w with
  | nil => exact absurd rfl h
  | cons a w ih =>
    by_cases hw : P (a :: w)
    · rwa [longest_of_mem hw]
    · rw [longest_cons_of_not_mem hw] at h ⊢
      exact ih h

/-- The letter `k` of a text is covered where a word of the dictionary occurs over it. -/
def Covered (pats : List (List α)) (text : List α) (k : ℕ) : Prop :=
  ∃ p ∈ pats, ∃ i ∈ List.range (k + 1), k < i + p.length ∧ p <+: text.drop i

variable {pats : List (List α)} {p text : List α} {i k : ℕ}

instance [DecidableEq α] : Decidable (Covered pats text k) :=
  inferInstanceAs (Decidable (∃ p ∈ pats, ∃ i ∈ List.range (k + 1), k < i + p.length ∧ p <+: text.drop i))

lemma covered_iff : Covered pats text k ↔
    ∃ p ∈ pats, ∃ u v, text = u ++ (p ++ v) ∧ u.length ≤ k ∧ k < u.length + p.length := by
  constructor
  · rintro ⟨p, hp, i, hi, hk, v, hv⟩
    rw [List.mem_range] at hi
    have hlen := congrArg List.length hv
    rw [List.length_append, List.length_drop] at hlen
    have hi' : (text.take i).length = i := by
      rw [List.length_take]
      omega
    refine ⟨p, hp, text.take i, v, ?_, by omega, by omega⟩
    rw [hv, List.take_append_drop]
  · rintro ⟨p, hp, u, v, rfl, hle, hlt⟩
    refine ⟨p, hp, u.length, List.mem_range.mpr (by omega), hlt, ?_⟩
    rw [List.drop_left]
    exact List.prefix_append p v

lemma Covered.lt (h : Covered pats text k) : k < text.length := by
  obtain ⟨p, hp, u, v, rfl, hle, hlt⟩ := covered_iff.mp h
  simp only [List.length_append]
  omega

lemma covered_concat [DecidableEq α] : Covered pats (w ++ [c]) k ↔ Covered pats w k ∨
    k < w.length + 1 ∧ w.length + 1 ≤ k + (longest (· ∈ pats) (w ++ [c])).length := by
  constructor
  · intro h
    obtain ⟨p, hp, u, v, heq, hle, hlt⟩ := covered_iff.mp h
    obtain rfl | ⟨v, d, rfl⟩ := List.eq_nil_or_concat' v
    · have hs : p <:+ longest (· ∈ pats) (w ++ [c]) := by
        refine suffix_longest hp ?_
        rw [heq, List.append_nil]
        exact List.suffix_append u p
      have hlen := congrArg List.length heq
      have hle' := hs.length_le
      simp only [List.length_append, List.length_singleton, List.length_nil] at hlen
      exact Or.inr ⟨by omega, by omega⟩
    · refine Or.inl (covered_iff.mpr ⟨p, hp, u, v, ?_, hle, hlt⟩)
      have heq' : w ++ [c] = (u ++ (p ++ v)) ++ [d] := by simpa using heq
      exact (List.append_inj' heq' rfl).1
  · rintro (h | ⟨hlt, hle⟩)
    · obtain ⟨p, hp, u, v, rfl, hle, hlt⟩ := covered_iff.mp h
      exact covered_iff.mpr ⟨p, hp, u, v ++ [c], by simp, hle, hlt⟩
    · have hne : longest (· ∈ pats) (w ++ [c]) ≠ [] := by
        rw [← List.length_pos_iff]
        omega
      obtain ⟨u, hu⟩ := longest_suffix (P := (· ∈ pats)) (w ++ [c])
      have hlen := congrArg List.length hu
      rw [List.length_append, List.length_append, List.length_singleton] at hlen
      have hmem : longest (· ∈ pats) (w ++ [c]) ∈ pats := longest_mem_of_ne_nil hne
      refine covered_iff.mpr ⟨_, hmem, u, [], ?_, by omega, by omega⟩
      rw [List.append_nil, hu]

end Simple.Lib
