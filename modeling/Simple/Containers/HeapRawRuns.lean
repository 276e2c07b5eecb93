import Simple.Containers.HeapRawOrder

/-! The heaps after every sequence of calls. -/

namespace Simple.Containers.HeapRaw

open Simple.Lib Simple.Lib.Heap

variable {N H : Type} [DecidableEq N] [DecidableEq H] {m m' : HeapRaw N H} {h g : H} {x : N}

/-- What `insert` and `remove` do next is part of it: that they return, and with which nodes. -/
structure Right (less : N → N → Bool) (m : HeapRaw N H) (h : H) : Prop where
  -- the positions need a node to be there at all
  tree : Nonempty N → ∃ pos, Shape m h (m.size h) pos ∧
    ∀ i, 0 < i → i < m.size h → less (pos i) (pos (parent i)) = false
  min_none : m.min h = none ↔ m.size h = 0
  min_first : ∀ x, m.min h = some x → (m.node x).heap = some h ∧
    ∀ y, (m.node y).heap = some h → less y x = false
  insert : ∀ x, ∃ m', m.insert less h x = some (m', (m.node x).heap.isNone) ∧
    ∀ y, (m'.node y).heap = if y = x ∧ (m.node x).heap = none then some h else (m.node y).heap
  remove : ∀ x, ∃ m', m.remove less h x = some (m', decide ((m.node x).heap = some h)) ∧
    ∀ y, (m'.node y).heap = if y = x ∧ (m.node x).heap = some h then none else (m.node y).heap

section Invariant

variable {less : N → N → Bool} {β : Type} [LinearOrder β] {rank : N → β}

def Heaped (rank : N → β) (m : HeapRaw N H) : Prop :=
  ∀ h, ∃ pos, Shape m h (m.size h) pos ∧ Ordered (rank ∘ pos) (m.size h)

omit [DecidableEq N] [DecidableEq H] in
lemma initial_heaped [Nonempty N] : Heaped rank ({} : HeapRaw N H) := by
  intro h
  have hnone (i : ℕ) : ¬i < ({} : HeapRaw N H).size h := Nat.not_lt_zero i
  refine ⟨fun _ => Classical.arbitrary N, ⟨⟨rfl, rfl, ?_, ?_, ?_, ?_⟩, ?_⟩, ?_⟩
  · exact fun i hi => absurd hi (hnone i)
  · exact fun i hi => absurd hi (hnone i)
  · exact fun i hi => absurd hi (hnone i)
  · exact fun i hi => absurd hi (hnone i)
  · exact fun y => ⟨fun he => absurd he (Option.some_ne_none h).symm, fun he => absurd he.choose_spec.1 (hnone _)⟩
  · exact fun i _ hi => absurd hi (hnone i)

omit [DecidableEq N] in
lemma Heaped.of_changes (hm : Heaped rank m) (hchanges : Changes h x m m')
    (hheap : ∀ g, g ≠ h → (m.node x).heap ≠ some g ∧ (m'.node x).heap ≠ some g) {n : ℕ} {pos : ℕ → N}
    (hs : Shape m' h n pos) (hordered : Ordered (rank ∘ pos) n) : Heaped rank m' := by
  intro g
  by_cases hg : g = h
  · rw [hg, hs.size]
    exact ⟨pos, hs, hordered⟩
  · obtain ⟨pos', hs', hordered'⟩ := hm g
    rw [hchanges.size g hg]
    exact ⟨pos', hs'.other hchanges hg (hheap g hg).1 (hheap g hg).2, hordered'⟩

variable (hrank : ∀ x y, less x y = true ↔ rank x < rank y) (hm : Heaped rank m)

include hrank hm

lemma Heaped.insert (h : H) (x : N) : ∃ m', m.insert less h x = some (m', (m.node x).heap.isNone) ∧ Heaped rank m' ∧
    ∀ y, (m'.node y).heap = if y = x ∧ (m.node x).heap = none then some h else (m.node y).heap := by
  by_cases hx : (m.node x).heap = none
  · obtain ⟨pos, hs, hordered⟩ := hm h
    obtain ⟨m', pos', hinsert, hs', hordered', hchanges, hx'⟩ := insert_spec hrank hs hordered hx
    refine ⟨m', by rw [hinsert, hx, Option.isNone_none], hm.of_changes hchanges ?_ hs' hordered', ?_⟩
    · intro g hg
      rw [hx, hx']
      exact ⟨(Option.some_ne_none g).symm, fun he => hg (Option.some.inj he).symm⟩
    · intro y
      by_cases hy : y = x
      · rw [if_pos ⟨hy, hx⟩, hy, hx']
      · rw [if_neg fun he => hy he.1, hchanges.heap y hy]
  · have hsome : (m.node x).heap.isSome = true := Option.isSome_iff_ne_none.mpr hx
    refine ⟨m, ?_, hm, fun y => by rw [if_neg fun he => hx he.2]⟩
    rw [HeapRaw.insert, if_pos hsome, Option.isNone_eq_false_iff.mpr hsome]

lemma Heaped.remove (h : H) (x : N) :
    ∃ m', m.remove less h x = some (m', decide ((m.node x).heap = some h)) ∧ Heaped rank m' ∧
      ∀ y, (m'.node y).heap = if y = x ∧ (m.node x).heap = some h then none else (m.node y).heap := by
  by_cases hx : (m.node x).heap = some h
  · obtain ⟨pos, hs, hordered⟩ := hm h
    obtain ⟨i, hi, -⟩ := (hs.mem x).mp hx
    obtain ⟨n, hn⟩ : ∃ n, m.size h = n + 1 := ⟨m.size h - 1, by omega⟩
    rw [hn] at hs hordered
    obtain ⟨m', pos', hremove, hs', hordered', hchanges, hx'⟩ := remove_spec hrank hs hordered hx
    refine ⟨m', by rw [hremove, decide_eq_true hx], hm.of_changes hchanges ?_ hs' hordered', ?_⟩
    · intro g hg
      rw [hx, hx']
      exact ⟨fun he => hg (Option.some.inj he).symm, (Option.some_ne_none g).symm⟩
    · intro y
      by_cases hy : y = x
      · rw [if_pos ⟨hy, hx⟩, hy, hx']
      · rw [if_neg fun he => hy he.1, hchanges.heap y hy]
  · refine ⟨m, ?_, hm, fun y => by rw [if_neg fun he => hx he.2]⟩
    rw [HeapRaw.remove, if_pos hx, decide_eq_false hx]

lemma Heaped.step {a : Action N H} (ha : step less m a = some m') : Heaped rank m' := by
  cases a with
  | insert h x =>
    obtain ⟨m₁, hinsert, hm₁, -⟩ := hm.insert hrank h x
    rw [HeapRaw.step, hinsert, Option.map_some] at ha
    rwa [← Option.some.inj ha]
  | remove h x =>
    obtain ⟨m₁, hremove, hm₁, -⟩ := hm.remove hrank h x
    rw [HeapRaw.step, hremove, Option.map_some] at ha
    rwa [← Option.some.inj ha]

lemma Heaped.right (h : H) : Right less m h := by
  obtain ⟨pos, hs, hordered⟩ := hm h
  have hless {x y : N} (hle : rank x ≤ rank y) : less y x = false := by
    rw [Bool.eq_false_iff, Ne, hrank]
    exact not_lt.mpr hle
  have hroot := hs.root
  rw [link] at hroot
  refine ⟨fun _ => ⟨pos, hs, fun i hi hin => hless (hordered i hi hin)⟩, ?_, ?_, ?_, ?_⟩
  · rw [hroot]
    by_cases hpos : 0 < m.size h
    · rw [if_pos hpos]
      exact iff_of_false (Option.some_ne_none _) hpos.ne'
    · rw [if_neg hpos]
      exact iff_of_true rfl (Nat.eq_zero_of_not_pos hpos)
  · intro x hx
    rw [hroot] at hx
    split_ifs at hx with hpos
    obtain rfl := Option.some.inj hx
    refine ⟨(hs.mem _).mpr ⟨0, hpos, rfl⟩, ?_⟩
    intro y hy
    obtain ⟨i, hi, rfl⟩ := (hs.mem y).mp hy
    exact hless (hordered.root_le i hi)
  · intro x
    obtain ⟨m', hinsert, -, hheap⟩ := hm.insert hrank h x
    exact ⟨m', hinsert, hheap⟩
  · intro x
    obtain ⟨m', hremove, -, hheap⟩ := hm.remove hrank h x
    exact ⟨m', hremove, hheap⟩

end Invariant

/-- For every strict weak order of the nodes, each heap is a complete tree with the order of a heap, whatever
nodes are put into the heaps and taken out of them. -/
theorem calls_heaped (less : N → N → Bool) [IsStrictWeakOrder N fun x y => less x y = true] (as : List (Action N H)) :
    (machine less).Always (fun m => ∀ h, Right less m h) (machine less).initial as := by
  obtain ⟨β, _, rank, hrank⟩ := WeakOrder.exists_rank fun x y => less x y = true
  obtain hempty | hnodes := isEmpty_or_nonempty N
  · cases as with
    | nil =>
      intro h
      exact ⟨fun hn => hn.elim hempty.elim, iff_of_true rfl rfl, hempty.elim, hempty.elim, hempty.elim⟩
    | cons a as => cases a <;> exact hempty.elim ‹N›
  · refine Machine.always_of_along (I := Heaped rank) (fun m hm h => hm.right hrank h) ?_ initial_heaped
      (Machine.along_true _ as)
    intro m a m' hm _ ha
    exact hm.step hrank ha

theorem calls_heaped_pairs : (machine fun x y : ℕ => decide (x / 2 < y / 2)).Always
    (fun m => ∀ h, Right (fun x y => decide (x / 2 < y / 2)) m h) (machine fun x y => decide (x / 2 < y / 2)).initial
    [.insert true 5, .insert true 4, .insert false 4, .insert true 2, .remove true 5, .remove true 5] := by
  have horder : IsStrictWeakOrder ℕ fun x y => decide (x / 2 < y / 2) = true := by
    simp only [decide_eq_true_eq]
    exact { irrefl := fun a => lt_irrefl _, trans := fun a b c hab hbc => hab.trans hbc, incomp_trans := by omega }
  exact calls_heaped _ _

end Simple.Containers.HeapRaw
