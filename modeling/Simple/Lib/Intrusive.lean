import Mathlib.Tactic

/-! Intrusive doubly linked lists: the nodes carry the two pointers, the list only its ends.
A list of nodes is linked when each node points to its neighbours; what the first one points back
to is a parameter, so that a list whose front was cut off can be described too. -/

namespace Simple.Lib

universe u

variable {ι : Type u}

def Linked (next prev : ι → Option ι) (p : Option ι) (xs : List ι) : Prop :=
  ∀ l x r, xs = l ++ x :: r → next x = r.head? ∧ prev x = l.getLast?.or p

namespace Linked

variable {next prev next' prev' : ι → Option ι} {p q : Option ι} {xs : List ι}

lemma nil : Linked next prev p [] := by
  intro l x r h
  simp at h

lemma congr (h : Linked next prev p xs) (hn : ∀ x ∈ xs, next' x = next x)
    (hp : ∀ x ∈ xs, prev' x = prev x) : Linked next' prev' p xs := by
  intro l x r hx
  have hmem : x ∈ xs := by simp [hx]
  rw [hn x hmem, hp x hmem]
  exact h l x r hx

lemma cons_iff {x : ι} :
    Linked next prev p (x :: xs) ↔
      next x = xs.head? ∧ prev x = p ∧ Linked next prev (some x) xs := by
  have hlast : ∀ l : List ι, (x :: l).getLast?.or p = l.getLast?.or (some x) := by
    intro l
    rw [List.getLast?_cons]
    cases l.getLast? <;> rfl
  constructor
  · intro h
    refine ⟨(h [] x xs rfl).1, by simpa using (h [] x xs rfl).2, ?_⟩
    intro l y r hy
    have hl := h (x :: l) y r (by simp [hy])
    exact ⟨hl.1, hl.2.trans (hlast l)⟩
  · rintro ⟨hn, hp, h⟩ l y r hy
    cases l with
    | nil =>
      obtain ⟨rfl, rfl⟩ := List.cons_eq_cons.mp hy
      simp [hn, hp]
    | cons z l =>
      obtain ⟨rfl, rfl⟩ := List.cons_eq_cons.mp hy
      exact ⟨(h l y r rfl).1, (h l y r rfl).2.trans (hlast l).symm⟩

lemma relink (h : Linked next prev p xs) (hd : xs.Nodup) (hn : ∀ x ∈ xs, next' x = next x)
    (hq : ∀ x ∈ xs.head?, prev' x = q) (hp : ∀ x ∈ xs, x ∉ xs.head? → prev' x = prev x) :
    Linked next' prev' q xs := by
  cases xs with
  | nil => exact nil
  | cons x xs =>
    obtain ⟨hnx, -, hxs⟩ := cons_iff.mp h
    refine cons_iff.mpr ⟨by rw [hn x (by simp), hnx], hq x (by simp), hxs.congr ?_ ?_⟩
    · intro y hy
      exact hn y (by simp [hy])
    · intro y hy
      refine hp y (by simp [hy]) ?_
      rintro ⟨⟩
      exact (List.nodup_cons.mp hd).1 hy

variable [DecidableEq ι]

lemma unlink {x : ι} (h : Linked next prev p xs) (hd : xs.Nodup) (hx : x ∈ xs)
    (hp : ∀ y ∈ p, y ∉ xs)
    (hn' : ∀ y ∈ xs, y ≠ x → next' y = if prev x = some y then next x else next y)
    (hp' : ∀ y ∈ xs, y ≠ x → prev' y = if next x = some y then prev x else prev y) :
    Linked next' prev' p (xs.erase x) := by
  obtain ⟨a, b, rfl⟩ := List.append_of_mem hx
  obtain ⟨hda, hdb, hab⟩ := List.nodup_append.mp hd
  obtain ⟨hxb, hdb⟩ := List.nodup_cons.mp hdb
  have ha : x ∉ a := fun hxa => hab x hxa x (by simp) rfl
  obtain ⟨hnx, hpx⟩ := h a x b rfl
  rw [List.erase_append_right _ ha, List.erase_cons_head]
  -- `y` stands behind the removed node, with `c` between the two
  have behind : ∀ c y r, b = c ++ y :: r →
      next' y = r.head? ∧ prev' y = (a ++ c).getLast?.or p := by
    rintro c y r rfl
    have hyx : y ≠ x := by rintro rfl; simp at hxb
    have hya : prev x ≠ some y := by
      rw [hpx]
      cases hl : a.getLast? with
      | none => exact fun hy => hp y (by simpa using hy) (by simp)
      | some z =>
        intro hy
        obtain rfl : z = y := by simpa using hy
        exact hab z (List.mem_of_getLast? hl) z (by simp) rfl
    obtain ⟨hny, hpy⟩ := h (a ++ x :: c) y r (by simp)
    refine ⟨by rw [hn' y (by simp) hyx, if_neg hya, hny], ?_⟩
    rw [hp' y (by simp) hyx, hnx]
    cases c with
    | nil => simpa using hpx
    | cons z c =>
      have hzy : z ≠ y := by rintro rfl; simp at hdb
      simp [hzy, hpy, List.getLast?_append, List.getLast?_cons]
  -- `y` stands before the removed node
  have before : ∀ l y c, a = l ++ y :: c →
      next' y = (c ++ b).head? ∧ prev' y = l.getLast?.or p := by
    rintro l y c rfl
    have hyx : y ≠ x := by rintro rfl; simp at ha
    have hyb : next x ≠ some y := by
      rw [hnx]
      exact fun hy => hab y (by simp) y (List.mem_cons_of_mem _ (List.mem_of_head? hy)) rfl
    obtain ⟨hny, hpy⟩ := h l y (c ++ x :: b) (by simp)
    refine ⟨?_, by rw [hp' y (by simp) hyx, if_neg hyb, hpy]⟩
    rw [hn' y (by simp) hyx, hpx]
    cases c using List.reverseRecOn with
    | nil => simpa using hnx
    | append_singleton c z =>
      have hzy : z ≠ y := by
        rintro rfl
        simp [List.nodup_append] at hda
      rw [if_neg (by simpa [List.getLast?_append, List.getLast?_cons] using hzy), hny]
      cases c <;> simp
  intro l y r hy
  obtain ⟨c, rfl, hb⟩ | ⟨c, rfl, hr⟩ := List.append_eq_append_iff.mp hy
  · exact behind c y r hb
  · cases c with
    | nil => simpa using behind [] y r (by simpa using hr.symm)
    | cons z c =>
      obtain ⟨rfl, rfl⟩ := List.cons_eq_cons.mp hr
      exact before l y c rfl

end Linked

structure DList (ι : Type u) where
  next : ι → Option ι := fun _ => none
  prev : ι → Option ι := fun _ => none
  header : Option ι := none
  tail : Option ι := none

/-- The list is exactly `xs`; a node outside of it points nowhere. -/
structure DList.Holds (d : DList ι) (xs : List ι) : Prop where
  nodup : xs.Nodup
  header : d.header = xs.head?
  tail : d.tail = xs.getLast?
  linked : Linked d.next d.prev none xs
  off : ∀ x ∉ xs, d.next x = none ∧ d.prev x = none

namespace DList

lemma Holds.empty : ({} : DList ι).Holds [] where
  nodup := List.nodup_nil
  header := rfl
  tail := rfl
  linked := Linked.nil
  off := fun _ _ => ⟨rfl, rfl⟩

variable [DecidableEq ι]

def pushBack (d : DList ι) (x : ι) : DList ι :=
  if d.next x ≠ none ∨ d.header = some x then d
  else if d.prev x ≠ none ∨ d.tail = some x then d
  else
    let next := Function.update d.next x none
    { next := match d.tail with
        | none => next
        | some t => Function.update next t (some x)
      prev := Function.update d.prev x d.tail
      header := if d.header = none then some x else d.header
      tail := some x }

def unlink (d : DList ι) (x : ι) : DList ι :=
  let header := if d.header = some x then d.next x else d.header
  let tail := if d.tail = some x then d.prev x else d.tail
  let next := match d.prev x with
    | none => d.next
    | some p => Function.update d.next p (d.next x)
  let prev := match d.next x with
    | none => d.prev
    | some n => Function.update d.prev n (d.prev x)
  { next := Function.update next x none
    prev := Function.update prev x none
    header := header
    tail := tail }

namespace Holds

variable {d : DList ι} {xs : List ι}

lemma pushBack {x : ι} (h : d.Holds xs) (hx : x ∉ xs) : (d.pushBack x).Holds (xs ++ [x]) := by
  obtain ⟨hnx, hpx⟩ := h.off x hx
  have hhead : d.header ≠ some x := fun he => hx (List.mem_of_head? (h.header ▸ he))
  have htail : d.tail ≠ some x := fun he => hx (List.mem_of_getLast? (h.tail ▸ he))
  have hnext : ∀ y, (d.pushBack x).next y = if d.tail = some y then some x else d.next y := by
    intro y
    rw [DList.pushBack, if_neg (by simp [hnx, hhead]), if_neg (by simp [hpx, htail])]
    cases ht : d.tail with
    | none => by_cases hy : y = x <;> simp [hy, hnx]
    | some t =>
      have htx : x ≠ t := fun e => htail (by rw [ht, e])
      by_cases hy : y = t
      · simp [hy]
      · have hty : t ≠ y := fun e => hy e.symm
        by_cases hyx : y = x <;> simp_all
  have hprev : ∀ y, (d.pushBack x).prev y = if y = x then d.tail else d.prev y := by
    intro y
    rw [DList.pushBack, if_neg (by simp [hnx, hhead]), if_neg (by simp [hpx, htail])]
    simp [Function.update_apply]
  have hends : (d.pushBack x).header = (if d.header = none then some x else d.header) ∧
      (d.pushBack x).tail = some x := by
    rw [DList.pushBack, if_neg (by simp [hnx, hhead]), if_neg (by simp [hpx, htail])]
    exact ⟨rfl, rfl⟩
  refine ⟨?_, ?_, ?_, ?_, ?_⟩
  · exact List.nodup_append.mpr ⟨h.nodup, List.nodup_singleton x, by
      rintro y hy z hz rfl
      exact hx (List.mem_singleton.mp hz ▸ hy)⟩
  · rw [hends.1, h.header]
    cases xs <;> simp
  · simp [hends.2]
  · intro l y r hy
    rw [hnext, hprev]
    cases r using List.reverseRecOn with
    | nil =>
      obtain ⟨rfl, hyx⟩ := List.append_inj' hy rfl
      obtain rfl : x = y := by simpa using hyx
      exact ⟨by rw [if_neg htail, hnx]; rfl, by simp [h.tail]⟩
    | append_singleton r z =>
      have hsplit : xs ++ [x] = (l ++ y :: r) ++ [z] := by simpa using hy
      obtain ⟨rfl, hz⟩ := List.append_inj' hsplit rfl
      obtain rfl : x = z := by simpa using hz
      have hyx : y ≠ x := by rintro rfl; simp at hx
      obtain ⟨hny, hpy⟩ := h.linked l y r rfl
      refine ⟨?_, by rw [if_neg hyx, hpy]⟩
      cases r using List.reverseRecOn with
      | nil => simp [h.tail]
      | append_singleton r w =>
        have hwy : w ≠ y := by
          rintro rfl
          simpa [List.nodup_append] using h.nodup
        rw [if_neg (by simpa [h.tail, List.getLast?_append, List.getLast?_cons] using hwy), hny]
        cases r <;> simp
  · intro y hy
    have hyx : y ≠ x := fun e => hy (by simp [e])
    have hyxs : y ∉ xs := fun e => hy (by simp [e])
    have hyt : d.tail ≠ some y := fun e => hyxs (List.mem_of_getLast? (h.tail ▸ e))
    rw [hnext, hprev, if_neg hyt, if_neg hyx]
    exact h.off y hyxs

lemma unlink_of_not_mem {x : ι} (h : d.Holds xs) (hx : x ∉ xs) : d.unlink x = d := by
  obtain ⟨hnx, hpx⟩ := h.off x hx
  have hhead : d.header ≠ some x := fun he => hx (List.mem_of_head? (h.header ▸ he))
  have htail : d.tail ≠ some x := fun he => hx (List.mem_of_getLast? (h.tail ▸ he))
  have hn : Function.update d.next x none = d.next := by rw [← hnx, Function.update_eq_self]
  have hp : Function.update d.prev x none = d.prev := by rw [← hpx, Function.update_eq_self]
  simp [DList.unlink, hnx, hpx, hhead, htail, hn, hp]

lemma next_unlink (x y : ι) :
    (d.unlink x).next y =
      if y = x then none else if d.prev x = some y then d.next x else d.next y := by
  by_cases hy : y = x
  · simp [DList.unlink, hy]
  · cases hp : d.prev x with
    | none => simp [DList.unlink, hy, hp]
    | some p => by_cases hpy : y = p <;> simp [DList.unlink, hy, hp, hpy, Function.update_apply, eq_comm]

lemma prev_unlink (x y : ι) :
    (d.unlink x).prev y =
      if y = x then none else if d.next x = some y then d.prev x else d.prev y := by
  by_cases hy : y = x
  · simp [DList.unlink, hy]
  · cases hn : d.next x with
    | none => simp [DList.unlink, hy, hn]
    | some n => by_cases hny : y = n <;> simp [DList.unlink, hy, hn, hny, Function.update_apply, eq_comm]

lemma unlink {x : ι} (h : d.Holds xs) : (d.unlink x).Holds (xs.erase x) := by
  by_cases hx : x ∈ xs
  swap
  · rwa [h.unlink_of_not_mem hx, List.erase_of_not_mem hx]
  have hlinked : Linked (d.unlink x).next (d.unlink x).prev none (xs.erase x) := by
    refine h.linked.unlink h.nodup hx (by simp) ?_ ?_
    · intro y _ hy
      rw [next_unlink, if_neg hy]
    · intro y _ hy
      rw [prev_unlink, if_neg hy]
  have hdup := h.nodup.erase x
  obtain ⟨a, b, rfl⟩ := List.append_of_mem hx
  obtain ⟨-, hdb, hab⟩ := List.nodup_append.mp h.nodup
  have hxa : x ∉ a := fun e => hab x e x (by simp) rfl
  have hxb : x ∉ b := (List.nodup_cons.mp hdb).1
  obtain ⟨hnx, hpx⟩ := h.linked a x b rfl
  rw [Option.or_none] at hpx
  rw [List.erase_append_right _ hxa, List.erase_cons_head] at hlinked hdup ⊢
  refine ⟨hdup, ?_, ?_, hlinked, ?_⟩
  · simp only [DList.unlink, h.header]
    cases a with
    | nil => simp [hnx]
    | cons z a =>
      have hzx : z ≠ x := fun e => hxa (by simp [e])
      simp [hzx]
  · simp only [DList.unlink, h.tail]
    cases b using List.reverseRecOn with
    | nil => simp [hpx]
    | append_singleton b z =>
      have hzx : z ≠ x := fun e => hxb (by simp [e])
      simp [List.getLast?_append, List.getLast?_cons, hzx]
  · intro y hy
    rw [next_unlink, prev_unlink]
    by_cases hyx : y = x
    · simp [hyx]
    · have hya : d.prev x ≠ some y := fun e => hy (by simp [List.mem_of_getLast? (hpx ▸ e)])
      have hyb : d.next x ≠ some y := fun e => hy (by simp [List.mem_of_head? (hnx ▸ e)])
      simpa [hyx, hya, hyb] using h.off y (by simpa [hyx] using hy)

lemma foldl_unlink (h : d.Holds xs) (ys : List ι) :
    (ys.foldl DList.unlink d).Holds (xs.diff ys) := by
  induction ys generalizing d xs with
  | nil => simpa using h
  | cons y ys ih =>
    rw [List.foldl_cons, List.diff_cons]
    exact ih h.unlink

end Holds

end DList

end Simple.Lib
