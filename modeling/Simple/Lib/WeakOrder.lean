import Mathlib.Order.Antisymmetrization
import Mathlib.Tactic

/-! A strict weak order is a linear order of ranks. -/

namespace Simple.Lib.WeakOrder

universe u

variable {α : Type u} {lt : α → α → Prop}

lemma not_lt_trans [IsStrictWeakOrder α lt] {a b c : α} (hab : ¬lt b a) (hbc : ¬lt c b) : ¬lt c a := by
  intro hca
  by_cases hab' : lt a b
  · exact hbc (IsTrans.trans c a b hca hab')
  by_cases hbc' : lt b c
  · exact hab (IsTrans.trans b c a hbc' hca)
  · exact (IsStrictWeakOrder.incomp_trans a b c ⟨hab', hab⟩ ⟨hbc', hbc⟩).2 hca

lemma asymm [IsStrictWeakOrder α lt] {a b : α} (hab : lt a b) : ¬lt b a := fun hba =>
  Std.Irrefl.irrefl a (IsTrans.trans a b a hab hba)

variable (lt) in
abbrev preorder [IsStrictWeakOrder α lt] : Preorder α where
  le a b := ¬lt b a
  lt := lt
  le_refl a := Std.Irrefl.irrefl a
  le_trans _ _ _ hab hbc := not_lt_trans hab hbc
  lt_iff_le_not_ge _ _ := ⟨fun hab => ⟨asymm hab, not_not.mpr hab⟩, fun hab => not_not.mp hab.2⟩

theorem exists_rank (lt : α → α → Prop) [IsStrictWeakOrder α lt] :
    ∃ (β : Type u) (_ : LinearOrder β) (rank : α → β), ∀ a b, lt a b ↔ rank a < rank b := by
  classical
  let := preorder lt
  have : Std.Total (α := α) (· ≤ ·) := ⟨fun a b => by
    by_contra! hno
    exact asymm (not_not.mp hno.1) (not_not.mp hno.2)⟩
  exact ⟨Antisymmetrization α (· ≤ ·), inferInstance, toAntisymmetrization (· ≤ ·), fun _ _ => Iff.rfl⟩

end Simple.Lib.WeakOrder
