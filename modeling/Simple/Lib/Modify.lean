import Mathlib.Tactic

/-! Lists one element of which is changed in place. -/

namespace Simple.Lib

variable {α β : Type} {l : List α} {i : ℕ} {f : α → α}

lemma map_modify_comm {g : α → β} {h : β → β} (hf : ∀ x, g (f x) = h (g x)) :
    (l.modify i f).map g = (l.map g).modify i h := by
  apply List.ext_getElem?
  intro j
  simp only [List.getElem?_map, List.getElem?_modify]
  split_ifs <;> simp [Function.comp_def, hf]

lemma map_modify {g : α → β} (hf : ∀ x, g (f x) = g x) : (l.modify i f).map g = l.map g := by
  rw [map_modify_comm (h := id) hf]
  exact List.modify_id _ _

lemma getElem?_modify_map {g : α → β} (hf : ∀ x, g (f x) = g x) (j : ℕ) :
    (l.modify i f)[j]?.map g = l[j]?.map g := by
  rw [← List.getElem?_map, map_modify hf, List.getElem?_map]

lemma map_set {g : α → β} {x y : α} (hx : l[i]? = some x) (hg : g y = g x) :
    (l.set i y).map g = l.map g := by
  apply List.ext_getElem?
  intro j
  have hlt := (List.getElem?_eq_some_iff.mp hx).1
  rw [List.getElem?_map, List.getElem?_map, List.getElem?_set]
  split_ifs with hij
  · rw [← hij, hx, Option.map_some, Option.map_some, hg]
  · rfl

lemma split_getElem? {x : α} (h : l[i]? = some x) : ∃ l₁ l₂, l = l₁ ++ x :: l₂ ∧
    (∀ y, l.set i y = l₁ ++ y :: l₂) ∧ l.eraseIdx i = l₁ ++ l₂ := by
  obtain ⟨hlt, rfl⟩ := List.getElem?_eq_some_iff.mp h
  refine ⟨l.take i, l.drop (i + 1), ?_, ?_, List.eraseIdx_eq_take_drop_succ _ _⟩
  · rw [List.getElem_cons_drop, List.take_append_drop]
  · intro y
    rw [List.set_eq_take_append_cons_drop, if_pos hlt]

lemma forall_getElem?_modify {P : ℕ → α → Prop} (h : ∀ (j : ℕ) x, l[j]? = some x → P j x)
    (hf : ∀ x, l[i]? = some x → P i (f x)) (j : ℕ) (x : α) (hx : (l.modify i f)[j]? = some x) :
    P j x := by
  rw [List.getElem?_modify] at hx
  obtain ⟨y, hy, rfl⟩ := Option.map_eq_some_iff.mp hx
  split_ifs with hij
  · subst hij
    exact hf y hy
  · exact h j y hy

lemma modify_concat (l : List α) (x : α) (f : α → α) :
    (l ++ [x]).modify l.length f = l ++ [f x] := by
  induction l with
  | nil => rfl
  | cons y l ih =>
    rw [List.cons_append, List.length_cons, List.modify_succ_cons, ih]
    rfl

lemma eq_of_nodup_filterMap {g : α → Option β} {a b : α} {c : β} (h : (l.filterMap g).Nodup)
    (ha : a ∈ l) (hb : b ∈ l) (hga : g a = some c) (hgb : g b = some c) : a = b := by
  induction l with
  | nil => cases ha
  | cons x l ih =>
    have hmem : ∀ y ∈ l, g y = some c → c ∈ l.filterMap g :=
      fun y hy hgy => List.mem_filterMap.mpr ⟨y, hy, hgy⟩
    have hx : g x = some c → c ∉ l.filterMap g := by
      intro hgx
      rw [List.filterMap_cons_some hgx, List.nodup_cons] at h
      exact h.1
    rcases List.mem_cons.mp ha with rfl | ha' <;> rcases List.mem_cons.mp hb with rfl | hb'
    · rfl
    · exact absurd (hmem b hb' hgb) (hx hga)
    · exact absurd (hmem a ha' hga) (hx hgb)
    · exact ih (h.sublist ((List.sublist_cons_self x l).filterMap g)) ha' hb'

end Simple.Lib
