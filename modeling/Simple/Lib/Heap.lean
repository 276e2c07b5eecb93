import Mathlib.Logic.Equiv.Basic
import Mathlib.Tactic

/-! Binary heaps laid out by position: the keys of the positions below `n`, and what exchanging the
keys of a position and of its parent does to their order. -/

namespace Simple.Lib.Heap

universe u

def parent (i : ℕ) : ℕ := (i - 1) / 2

lemma parent_lt {i : ℕ} (hi : 0 < i) : parent i < i := by
  rw [parent]
  omega

lemma parent_eq_iff {i j : ℕ} (hj : 0 < j) : parent j = i ↔ j = 2 * i + 1 ∨ j = 2 * i + 2 := by
  rw [parent]
  omega

variable {β : Type u} [LinearOrder β] {key key' : ℕ → β} {n i : ℕ}

def Ordered (key : ℕ → β) (n : ℕ) : Prop := ∀ i, 0 < i → i < n → key (parent i) ≤ key i

/-- The order, but for the key of `i`, which can be any. -/
structure Hole (key : ℕ → β) (n i : ℕ) : Prop where
  off : ∀ j, 0 < j → j < n → j ≠ i → parent j ≠ i → key (parent j) ≤ key j
  grand : 0 < i → ∀ j, 0 < j → j < n → parent j = i → key (parent i) ≤ key j

def Below (key : ℕ → β) (n i : ℕ) : Prop := ∀ j, 0 < j → j < n → parent j = i → key i ≤ key j

def Above (key : ℕ → β) (i : ℕ) : Prop := 0 < i → key (parent i) ≤ key i

lemma Hole.ordered (h : Hole key n i) (ha : Above key i) (hb : Below key n i) : Ordered key n := by
  intro j hj hjn
  by_cases hji : j = i
  · subst hji
    exact ha hj
  by_cases hp : parent j = i
  · rw [hp]
    exact hb j hj hjn hp
  · exact h.off j hj hjn hji hp

lemma Ordered.root_le (h : Ordered key n) : ∀ i < n, key 0 ≤ key i := by
  intro i
  induction i using Nat.strong_induction_on with
  | _ i ih =>
    intro hi
    rcases Nat.eq_zero_or_pos i with rfl | hpos
    · exact le_rfl
    · have hlt := parent_lt hpos
      exact (ih (parent i) hlt (by omega)).trans (h i hpos hi)

lemma Ordered.hole {m : ℕ} (h : Ordered key n) (hm : m ≤ n) (hi : i < n)
    (hkey : ∀ j < m, j ≠ i → key' j = key j) (him : i < m) : Hole key' m i where
  off := by
    intro j hj hjm hji hp
    have hlt := parent_lt hj
    rw [hkey j hjm hji, hkey (parent j) (by omega) hp]
    exact h j hj (by omega)
  grand := by
    intro hpos j hj hjm hp
    have hlt := parent_lt hpos
    have hji : j ≠ i := fun e => by
      have := parent_lt hj
      omega
    rw [hkey j hjm hji, hkey (parent i) (by omega) hlt.ne]
    refine (h i hpos hi).trans ?_
    rw [← hp]
    exact h j hj (by omega)

lemma Ordered.push (h : Ordered key n) (hkey : ∀ j < n, key' j = key j) :
    Hole key' (n + 1) n ∧ Below key' (n + 1) n := by
  refine ⟨⟨?_, ?_⟩, ?_⟩
  · intro j hj hjn hne hp
    have hlt := parent_lt hj
    rw [hkey j (by omega), hkey (parent j) (by omega)]
    exact h j hj (by omega)
  · intro _ j hj hjn hp
    have hlt := parent_lt hj
    omega
  · intro j hj hjn hp
    have hlt := parent_lt hj
    omega

lemma Hole.below_of_lt (h : Hole key n i) (hi : 0 < i) (hlt : key i < key (parent i)) :
    Below key n i := fun j hj hjn hp => (hlt.le.trans (h.grand hi j hj hjn hp))

lemma Hole.up (h : Hole key n i) (hi : 0 < i) (hin : i < n) (hlt : key i < key (parent i)) :
    Hole (key ∘ Equiv.swap i (parent i)) n (parent i) ∧
      Below (key ∘ Equiv.swap i (parent i)) n (parent i) := by
  have hp := parent_lt hi
  have hkeep : ∀ j, j ≠ i → j ≠ parent i → (key ∘ Equiv.swap i (parent i)) j = key j := by
    intro j hj hjp
    simp [Equiv.swap_apply_of_ne_of_ne hj hjp]
  have hself : (key ∘ Equiv.swap i (parent i)) i = key (parent i) := by simp
  have hpar : (key ∘ Equiv.swap i (parent i)) (parent i) = key i := by simp
  have hup : 0 < parent i → key (parent (parent i)) ≤ key (parent i) := by
    intro hpos
    have hlt' := parent_lt hpos
    exact h.off (parent i) hpos (by omega) (by omega) (by omega)
  refine ⟨⟨?_, ?_⟩, ?_⟩
  · intro j hj hjn hjp hpp
    by_cases hji : j = i
    · exact absurd (hji ▸ rfl) hpp
    by_cases hpi : parent j = i
    · rw [hpi, hself, hkeep j hji hjp]
      exact h.grand hi j hj hjn hpi
    · rw [hkeep j hji hjp, hkeep (parent j) hpi hpp]
      exact h.off j hj hjn hji hpi
  · intro hpos j hj hjn hpp
    have hlt' := parent_lt hpos
    rw [hkeep (parent (parent i)) (by omega) (by omega)]
    by_cases hji : j = i
    · rw [hji, hself]
      exact hup hpos
    · have hjp : j ≠ parent i := fun e => by
        have := parent_lt hj
        omega
      rw [hkeep j hji hjp]
      refine (hup hpos).trans ?_
      rw [← hpp]
      exact h.off j hj hjn hji (by omega)
  · intro j hj hjn hpp
    rw [hpar]
    by_cases hji : j = i
    · rw [hji, hself]
      exact hlt.le
    · have hjp : j ≠ parent i := fun e => by
        have := parent_lt hj
        omega
      rw [hkeep j hji hjp]
      refine hlt.le.trans ?_
      rw [← hpp]
      exact h.off j hj hjn hji (by omega)

lemma Hole.down {m : ℕ} (h : Hole key n i) (ha : Above key i) (hm : 0 < m) (hmn : m < n)
    (hp : parent m = i) (hmin : ∀ j, 0 < j → j < n → parent j = i → key m ≤ key j)
    (hle : key m ≤ key i) :
    Hole (key ∘ Equiv.swap i m) n m ∧ Above (key ∘ Equiv.swap i m) m := by
  have him : i < m := hp ▸ parent_lt hm
  have hkeep : ∀ j, j ≠ i → j ≠ m → (key ∘ Equiv.swap i m) j = key j := by
    intro j hj hjm
    simp [Equiv.swap_apply_of_ne_of_ne hj hjm]
  have hself : (key ∘ Equiv.swap i m) i = key m := by simp
  have hdown : (key ∘ Equiv.swap i m) m = key i := by simp
  refine ⟨⟨?_, ?_⟩, ?_⟩
  · intro j hj hjn hjm hpm
    by_cases hpi : parent j = i
    · have hji : j ≠ i := fun e => by
        have := parent_lt hj
        omega
      rw [hpi, hself, hkeep j hji hjm]
      exact hmin j hj hjn hpi
    by_cases hji : j = i
    · subst hji
      have hlt := parent_lt hj
      rw [hself, hkeep (parent j) hlt.ne (by omega)]
      exact h.grand hj m hm hmn hp
    · rw [hkeep j hji hjm, hkeep (parent j) hpi hpm]
      exact h.off j hj hjn hji hpi
  · intro _ j hj hjn hpm
    have hlt := parent_lt hj
    rw [hp, hself, hkeep j (by omega) (by omega), ← hpm]
    exact h.off j hj hjn (by omega) (by omega)
  · intro _
    rw [hp, hself, hdown]
    exact hle

end Simple.Lib.Heap
