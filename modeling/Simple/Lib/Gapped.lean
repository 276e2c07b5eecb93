import Mathlib.Data.List.Infix
import Mathlib.Tactic

/-! Singly linked lists that grow at the end in two moves: the end is taken first, and the link to
the new node is stored later. Between the two the list has a gap. -/

namespace Simple.Lib

universe u

variable {ι : Type u}

/-- `b` stands right behind `a` in the list. -/
def Adj (xs : List ι) (a b : ι) : Prop := [a, b] <:+: xs

namespace Adj

variable {xs ys : List ι} {a b c x : ι}

lemma left_mem (h : Adj xs a b) : a ∈ xs := h.subset (by simp)

lemma cons (h : Adj xs a b) (x : ι) : Adj (x :: xs) a b := List.infix_cons h

lemma append (h : Adj xs a b) (ys : List ι) : Adj (xs ++ ys) a b := List.infix_append_of_infix_left h

lemma cons_iff : Adj (x :: xs) a b ↔ (a = x ∧ xs.head? = some b) ∨ Adj xs a b := by
  rw [Adj, List.infix_cons_iff]
  apply or_congr_left
  cases xs with
  | nil => simp
  | cons y ys =>
    rw [List.cons_prefix_cons, List.cons_prefix_cons, List.head?_cons, Option.some.injEq, eq_comm (a := y)]
    simp

lemma not_singleton : ¬Adj [x] a b := by
  intro h
  have := List.IsInfix.length_le h
  simp at this

lemma concat_iff : Adj (xs ++ [x]) a b ↔ Adj xs a b ∨ (xs.getLast? = some a ∧ b = x) := by
  induction xs with
  | nil =>
    rw [List.nil_append, iff_false_left not_singleton]
    simp [Adj]
  | cons y ys ih =>
    rw [List.cons_append, cons_iff, ih, cons_iff, or_assoc]
    cases ys with
    | nil =>
      have hnil : ¬Adj ([] : List ι) a b := by simp [Adj]
      simp only [List.nil_append, List.head?_cons, List.head?_nil, List.getLast?_singleton,
        List.getLast?_nil, Option.some.injEq, reduceCtorEq, and_false, false_and, hnil, or_false,
        false_or, eq_comm]
    | cons z zs => simp [List.getLast?_cons_cons]

lemma right_unique (hd : xs.Nodup) (h : Adj xs a b) (h' : Adj xs a c) : b = c := by
  induction xs with
  | nil => simp [Adj] at h
  | cons x xs ih =>
    obtain ⟨hx, hxs⟩ := List.nodup_cons.mp hd
    rcases cons_iff.mp h with ⟨rfl, hb⟩ | hb <;> rcases cons_iff.mp h' with ⟨hc', hc⟩ | hc
    · exact Option.some.inj (hb.symm.trans hc)
    · exact absurd hc.left_mem hx
    · exact absurd (hc' ▸ hb.left_mem) hx
    · exact ih hxs hb hc

lemma ne_last (hd : xs.Nodup) (h : Adj xs a b) : xs.getLast? ≠ some a := by
  induction xs with
  | nil => simp
  | cons x xs ih =>
    obtain ⟨hx, hxs⟩ := List.nodup_cons.mp hd
    rcases cons_iff.mp h with ⟨rfl, hb⟩ | hb
    · cases xs with
      | nil => simp at hb
      | cons y ys =>
        rw [List.getLast?_cons_cons]
        intro hlast
        exact hx (List.mem_of_getLast? hlast)
    · cases xs with
      | nil => simp [Adj] at hb
      | cons y ys =>
        rw [List.getLast?_cons_cons]
        exact ih hxs hb

end Adj

/-- The links that are missing are those of `gap`. -/
structure Gapped (next : ι → Option ι) (gap : ι → ι → Prop) (xs : List ι) : Prop where
  nodup : xs.Nodup
  link : ∀ a b, Adj xs a b → next a = some b ∨ next a = none ∧ gap a b
  gap : ∀ a b, gap a b → Adj xs a b ∧ next a = none
  last : ∀ a, xs.getLast? = some a → next a = none

namespace Gapped

variable {next next' : ι → Option ι} {gap gap' : ι → ι → Prop} {xs : List ι} {a b x y : ι}

lemma congr (h : Gapped next gap xs) (hn : ∀ a ∈ xs, next' a = next a)
    (hg : ∀ a b, gap' a b ↔ gap a b) : Gapped next' gap' xs := by
  refine ⟨h.nodup, ?_, ?_, ?_⟩
  · intro a b hab
    rw [hn a hab.left_mem, hg]
    exact h.link a b hab
  · intro a b hab
    obtain ⟨hadj, hnone⟩ := h.gap a b ((hg a b).mp hab)
    exact ⟨hadj, (hn a hadj.left_mem).trans hnone⟩
  · intro a ha
    rw [hn a (List.mem_of_getLast? ha)]
    exact h.last a ha

lemma concat (h : Gapped next gap xs) (hlast : xs.getLast? = some a) (hx : x ∉ xs)
    (hnone : next x = none) (hg : ∀ b c, gap' b c ↔ gap b c ∨ (b = a ∧ c = x)) :
    Gapped next gap' (xs ++ [x]) := by
  refine ⟨?_, ?_, ?_, ?_⟩
  · apply h.nodup.append (List.nodup_singleton x)
    simpa using hx
  · intro b c hbc
    rcases Adj.concat_iff.mp hbc with hbc | ⟨hb, rfl⟩
    · exact (h.link b c hbc).imp_right fun hgap => ⟨hgap.1, (hg b c).mpr (Or.inl hgap.2)⟩
    · obtain rfl := Option.some.inj (hlast.symm.trans hb)
      exact Or.inr ⟨h.last a hlast, (hg a c).mpr (Or.inr ⟨rfl, rfl⟩)⟩
  · intro b c hbc
    rcases (hg b c).mp hbc with hbc | ⟨rfl, rfl⟩
    · exact ⟨(h.gap b c hbc).1.append [x], (h.gap b c hbc).2⟩
    · exact ⟨Adj.concat_iff.mpr (Or.inr ⟨hlast, rfl⟩), h.last b hlast⟩
  · intro b hb
    obtain rfl : x = b := by simpa using hb
    exact hnone

variable [DecidableEq ι]

lemma store (h : Gapped next gap xs) (hab : gap a b)
    (hg : ∀ c d, gap' c d ↔ gap c d ∧ c ≠ a) : Gapped (Function.update next a (some b)) gap' xs := by
  obtain ⟨hadj, -⟩ := h.gap a b hab
  refine ⟨h.nodup, ?_, ?_, ?_⟩
  · intro c d hcd
    by_cases hc : c = a
    · subst hc
      rw [Function.update_self, hadj.right_unique h.nodup hcd]
      exact Or.inl rfl
    · rw [Function.update_of_ne hc, hg]
      exact (h.link c d hcd).imp_right fun hgap => ⟨hgap.1, hgap.2, hc⟩
  · intro c d hcd
    obtain ⟨hgap, hc⟩ := (hg c d).mp hcd
    rw [Function.update_of_ne hc]
    exact h.gap c d hgap
  · intro c hc
    have hca : c ≠ a := by
      rintro rfl
      exact hadj.ne_last h.nodup hc
    rw [Function.update_of_ne hca]
    exact h.last c hc

omit [DecidableEq ι]

lemma tail (h : Gapped next gap (x :: xs)) (hx : next x ≠ none) : Gapped next gap xs := by
  refine ⟨h.nodup.of_cons, ?_, ?_, ?_⟩
  · exact fun a b hab => h.link a b (hab.cons x)
  · intro a b hab
    obtain ⟨hadj, hnone⟩ := h.gap a b hab
    rcases Adj.cons_iff.mp hadj with ⟨rfl, -⟩ | hadj
    · exact absurd hnone hx
    · exact ⟨hadj, hnone⟩
  · intro a ha
    cases xs with
    | nil => simp at ha
    | cons y ys => exact h.last a (by rw [List.getLast?_cons_cons]; exact ha)

lemma head_next (h : Gapped next gap (x :: xs)) (hx : next x = some y) : xs.head? = some y := by
  cases xs with
  | nil => simp [h.last x rfl] at hx
  | cons z zs =>
    have hadj : Adj (x :: z :: zs) x z := Adj.cons_iff.mpr (Or.inl ⟨rfl, rfl⟩)
    rcases h.link x z hadj with hz | ⟨hnone, -⟩
    · exact (hz.symm.trans hx)
    · simp [hnone] at hx

end Gapped

end Simple.Lib
