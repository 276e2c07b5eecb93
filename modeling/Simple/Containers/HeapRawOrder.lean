import Simple.Containers.HeapRawLinks
import Simple.Lib.WeakOrder

/-! `insert` and `remove` keep every heap a heap. -/

namespace Simple.Containers.HeapRaw

open Simple.Lib Simple.Lib.Heap

variable {N H : Type} [DecidableEq N] [DecidableEq H] {m m' m'' : HeapRaw N H} {h g : H} {x y c : N} {n i j k : ℕ}
  {pos : ℕ → N}

structure Same (h : H) (m m' : HeapRaw N H) : Prop where
  node : ∀ y, (m.node y).heap ≠ some h → m'.node y = m.node y
  heap : ∀ y, (m'.node y).heap = (m.node y).heap
  min : ∀ g, g ≠ h → m'.min g = m.min g
  size : m'.size = m.size

omit [DecidableEq N] [DecidableEq H] in
lemma Same.refl (h : H) (m : HeapRaw N H) : Same h m m := ⟨fun _ _ => rfl, fun _ => rfl, fun _ _ => rfl, rfl⟩

omit [DecidableEq N] [DecidableEq H] in
lemma Same.trans (hm : Same h m m') (hm' : Same h m' m'') : Same h m m'' where
  node y hy := (hm'.node y (by rwa [hm.heap])).trans (hm.node y hy)
  heap y := (hm'.heap y).trans (hm.heap y)
  min g hg := (hm'.min g hg).trans (hm.min g hg)
  size := hm'.size.trans hm.size

omit [DecidableEq N] [DecidableEq H] in
lemma up_ne (hy : ∀ j < n, pos j ≠ y) (hi : i < n) : up pos i ≠ some y := by
  rw [up]
  split_ifs with hzero
  · exact (Option.some_ne_none y).symm
  · have hlt := parent_lt (Nat.pos_of_ne_zero hzero)
    exact fun he => hy _ (by omega) (Option.some.inj he)

lemma Shape.swap_same (hs : Shape m h n pos) (hi : 0 < i) (hin : i < n) :
    Same h m (m.swapNode h (pos (parent i)) (pos i)) := by
  have hlt := parent_lt hi
  have hp : parent i < n := by omega
  have hpc := hs.parent_ne hi hin
  refine ⟨?_, fun y => hs.swap_heap hi hin, ?_, ?_⟩
  · intro y hy
    have hne (j : ℕ) (hj : j < n) : pos j ≠ y := hs.ne_of_free hy hj
    have hsibling : m.sibling (pos (parent i)) (pos i) ≠ some y := by
      rw [sibling, hs.lefts _ hp, hs.rights _ hp]
      split_ifs
      · exact link_ne hne
      · exact link_ne hne
    apply HeapNode.ext
    · rw [swapNode, replace_left, hs.exchange_top hi hin, if_neg fun he => up_ne hne hp he.1, exchange_left hpc,
        if_neg (hne i hin).symm, if_neg (hne _ hp).symm]
    · rw [swapNode, replace_right, hs.exchange_top hi hin, if_neg fun he => up_ne hne hp he.1, exchange_right hpc,
        if_neg (hne i hin).symm, if_neg (hne _ hp).symm]
    · rw [swapNode, replace_parent, exchange_parent hpc, hs.rights i hin, hs.lefts i hin, if_neg (link_ne hne),
        if_neg (link_ne hne), if_neg hsibling, if_neg (hne i hin).symm, if_neg (hne _ hp).symm]
    · exact hs.swap_heap hi hin
  · intro g hg
    rw [hs.swap_min hi hin, if_neg hg]
  · rw [swapNode, replace_size, exchange_size]

section Loops

variable {less : N → N → Bool} {β : Type} [LinearOrder β] {rank : N → β}
  (hrank : ∀ x y, less x y = true ↔ rank x < rank y)

include hrank

lemma siftUp_spec (turns : ℕ) (hs : Shape m h n pos) (hi : i < n) (hturns : i < turns)
    (hhole : Hole (rank ∘ pos) n i) (hbelow : Below (rank ∘ pos) n i) :
    ∃ m' pos', siftUp less h (pos i) turns m = some m' ∧ Shape m' h n pos' ∧ Ordered (rank ∘ pos') n ∧
      Same h m m' := by
  induction turns generalizing m pos i with
  | zero => omega
  | succ turns ih =>
    rw [siftUp, hs.parents i hi, up]
    by_cases hzero : i = 0
    · rw [if_pos hzero]
      refine ⟨m, pos, rfl, hs, hhole.ordered ?_ hbelow, Same.refl h m⟩
      intro hpos
      omega
    have hpos : 0 < i := Nat.pos_of_ne_zero hzero
    have hlt := parent_lt hpos
    rw [if_neg hzero]
    dsimp only
    by_cases hless : less (pos i) (pos (parent i)) = true
    · have hs' := hs.swap hpos hi
      obtain ⟨hhole', hbelow'⟩ := hhole.up hpos hi ((hrank _ _).mp hless)
      have hx : (pos ∘ Equiv.swap i (parent i)) (parent i) = pos i := by simp
      obtain ⟨m', pos', hsift, hs'', hordered, hsame⟩ := ih hs' (by omega) (by omega) hhole' hbelow'
      rw [hx] at hsift
      rw [if_pos hless]
      exact ⟨m', pos', hsift, hs'', hordered, (hs.swap_same hpos hi).trans hsame⟩
    · rw [if_neg hless]
      refine ⟨m, pos, rfl, hs, hhole.ordered ?_ hbelow, Same.refl h m⟩
      intro _
      rw [hrank] at hless
      exact not_lt.mp hless

omit [DecidableEq N] [DecidableEq H] in
lemma smallest_cases (hs : Shape m h n pos) (hi : i < n) :
    (smaller less (m.node (pos i)).right (smaller less (m.node (pos i)).left (pos i)) = pos i ∧
      Below (rank ∘ pos) n i) ∨
    ∃ k, 0 < k ∧ k < n ∧ parent k = i ∧
      smaller less (m.node (pos i)).right (smaller less (m.node (pos i)).left (pos i)) = pos k ∧
      (rank ∘ pos) k < (rank ∘ pos) i ∧ ∀ j, 0 < j → j < n → parent j = i → (rank ∘ pos) k ≤ (rank ∘ pos) j := by
  have hchildren {P : ℕ → Prop} (hleft : 2 * i + 1 < n → P (2 * i + 1)) (hright : 2 * i + 2 < n → P (2 * i + 2))
      (j : ℕ) (hpos : 0 < j) (hj : j < n) (hp : parent j = i) : P j := by
    obtain rfl | rfl := (parent_eq_iff hpos).mp hp
    · exact hleft hj
    · exact hright hj
  have hsmaller (j l : ℕ) (hj : j < n) : smaller less (link pos n j) (pos l) =
      if rank (pos j) < rank (pos l) then pos j else pos l := by
    rw [link, if_pos hj, smaller]
    simp only [hrank]
  have hnone (j l : ℕ) (hj : ¬j < n) : smaller less (link pos n j) (pos l) = pos l := by
    rw [link, if_neg hj, smaller]
  have hl : parent (2 * i + 1) = i := (parent_eq_iff (by omega)).mpr (.inl rfl)
  have hr : parent (2 * i + 2) = i := (parent_eq_iff (by omega)).mpr (.inr rfl)
  rw [hs.lefts i hi, hs.rights i hi]
  by_cases hleft : 2 * i + 1 < n
  · rw [hsmaller _ _ hleft]
    by_cases hright : 2 * i + 2 < n
    · split_ifs with hless
      · rw [hsmaller _ _ hright]
        split_ifs with hless'
        · refine .inr ⟨2 * i + 2, by omega, hright, hr, rfl, hless'.trans hless, hchildren ?_ ?_⟩
          · exact fun _ => hless'.le
          · exact fun _ => le_rfl
        · refine .inr ⟨2 * i + 1, by omega, hleft, hl, rfl, hless, hchildren ?_ ?_⟩
          · exact fun _ => le_rfl
          · exact fun _ => not_lt.mp hless'
      · rw [hsmaller _ _ hright]
        split_ifs with hless'
        · refine .inr ⟨2 * i + 2, by omega, hright, hr, rfl, hless', hchildren ?_ ?_⟩
          · exact fun _ => hless'.le.trans (not_lt.mp hless)
          · exact fun _ => le_rfl
        · exact .inl ⟨rfl, hchildren (fun _ => not_lt.mp hless) fun _ => not_lt.mp hless'⟩
    · split_ifs with hless
      · rw [hnone _ _ hright]
        exact .inr ⟨2 * i + 1, by omega, hleft, hl, rfl, hless, hchildren (fun _ => le_rfl) fun hj => absurd hj hright⟩
      · rw [hnone _ _ hright]
        exact .inl ⟨rfl, hchildren (fun _ => not_lt.mp hless) fun hj => absurd hj hright⟩
  · rw [hnone _ _ hleft, hnone _ _ (by omega)]
    exact .inl ⟨rfl, hchildren (fun hj => absurd hj hleft) fun hj => absurd hj (by omega)⟩

lemma siftDown_spec (turns : ℕ) (hs : Shape m h n pos) (hi : i < n) (hturns : n < i + turns + 1)
    (hhole : Hole (rank ∘ pos) n i) (hor : Above (rank ∘ pos) i ∨ Below (rank ∘ pos) n i) :
    ∃ m' pos' j, siftDown less h (pos i) turns m = some m' ∧ Shape m' h n pos' ∧ j < n ∧ pos' j = pos i ∧
      Hole (rank ∘ pos') n j ∧ Below (rank ∘ pos') n j ∧ Same h m m' := by
  induction turns generalizing m pos i with
  | zero => omega
  | succ turns ih =>
    rw [siftDown]
    obtain ⟨hsmallest, hbelow⟩ | ⟨k, hk, hkn, hp, hsmallest, hlt, hmin⟩ := smallest_cases hrank hs hi
    · rw [hsmallest, if_pos rfl]
      exact ⟨m, pos, i, rfl, hs, hi, rfl, hhole, hbelow, Same.refl h m⟩
    -- a child goes before the node, which was not before its children then
    have habove : Above (rank ∘ pos) i := hor.resolve_right fun hbelow => absurd (hbelow k hk hkn hp) (not_le.mpr hlt)
    have hne : pos k ≠ pos i := by
      rw [← hp]
      exact (hs.parent_ne hk hkn).symm
    have hlt' := parent_lt hk
    obtain ⟨hhole', habove'⟩ := hhole.down habove hk hkn hp hmin hlt.le
    have hs' := hs.swap hk hkn
    have hsame := hs.swap_same hk hkn
    rw [hp] at hs' hsame
    rw [← hp, Equiv.swap_comm, hp] at hhole' habove'
    have hx : (pos ∘ Equiv.swap k i) k = pos i := by simp
    obtain ⟨m', pos', j, hsift, hs'', hj, hpos', hhole'', hbelow, hsame'⟩ :=
      ih hs' hkn (by omega) hhole' (.inl habove')
    rw [hx] at hsift hpos'
    rw [hsmallest, if_neg hne]
    exact ⟨m', pos', j, hsift, hs'', hj, hpos', hhole'', hbelow, hsame.trans hsame'⟩

end Loops

/-- Only the nodes of the heap and `x` change, and of the others not their heap. -/
structure Changes (h : H) (x : N) (m m' : HeapRaw N H) : Prop where
  node : ∀ y, y ≠ x → (m.node y).heap ≠ some h → m'.node y = m.node y
  heap : ∀ y, y ≠ x → (m'.node y).heap = (m.node y).heap
  min : ∀ g, g ≠ h → m'.min g = m.min g
  size : ∀ g, g ≠ h → m'.size g = m.size g

omit [DecidableEq N] [DecidableEq H] in
lemma Changes.same (hm : Changes h x m m') (hm' : Same h m' m'') : Changes h x m m'' where
  node y hy hheap := (hm'.node y (by rwa [hm.heap y hy])).trans (hm.node y hy hheap)
  heap y hy := (hm'.heap y).trans (hm.heap y hy)
  min g hg := (hm'.min g hg).trans (hm.min g hg)
  size g hg := by rw [hm'.size, hm.size g hg]

omit [DecidableEq N] [DecidableEq H] in
lemma Changes.trans (hm : Changes h x m m') (hm' : Changes h x m' m'') : Changes h x m m'' where
  node y hy hheap := (hm'.node y hy (by rwa [hm.heap y hy])).trans (hm.node y hy hheap)
  heap y hy := (hm'.heap y hy).trans (hm.heap y hy)
  min g hg := (hm'.min g hg).trans (hm.min g hg)
  size g hg := (hm'.size g hg).trans (hm.size g hg)

omit [DecidableEq N] [DecidableEq H] in
lemma Shape.other (hs : Shape m g n pos) (hm : Changes h x m m') (hg : g ≠ h) (hx : (m.node x).heap ≠ some g)
    (hx' : (m'.node x).heap ≠ some g) : Shape m' g n pos := by
  have hnode (i : ℕ) (hi : i < n) : m'.node (pos i) = m.node (pos i) := by
    refine hm.node _ (hs.ne_of_free hx hi) ?_
    rw [(hs.mem _).mpr ⟨i, hi, rfl⟩]
    exact fun he => hg (Option.some.inj he)
  refine ⟨⟨by rw [hm.size g hg, hs.size], by rw [hm.min g hg, hs.root], ?_, ?_, ?_, hs.inj⟩, ?_⟩
  · intro i hi
    rw [hnode i hi, hs.lefts i hi]
  · intro i hi
    rw [hnode i hi, hs.rights i hi]
  · intro i hi
    rw [hnode i hi, hs.parents i hi]
  · intro y
    rw [← hs.mem]
    by_cases hy : y = x
    · rw [hy]
      exact ⟨fun he => absurd he hx', fun he => absurd he hx⟩
    · rw [hm.heap y hy]

omit [DecidableEq H] in
lemma Shape.cleared (hs : Shape m h n pos) (hx : (m.node x).heap = none) :
    Shape (m.modify x fun v => { v with left := none, right := none, parent := none }) h n pos := by
  have hne (i : ℕ) (hi : i < n) : pos i ≠ x := by
    refine hs.ne_of_free ?_ hi
    rw [hx]
    exact (Option.some_ne_none h).symm
  refine ⟨⟨hs.size, hs.root, ?_, ?_, ?_, hs.inj⟩, ?_⟩
  · intro i hi
    rw [modify_node, if_neg (hne i hi), hs.lefts i hi]
  · intro i hi
    rw [modify_node, if_neg (hne i hi), hs.rights i hi]
  · intro i hi
    rw [modify_node, if_neg (hne i hi), hs.parents i hi]
  · intro y
    rw [← hs.mem, modify_field HeapNode.heap]
    exact fun _ => rfl

omit [DecidableEq H] in
lemma changes_modify {f : HeapNode N H → HeapNode N H} : Changes h x m (m.modify x f) where
  node y hy _ := by rw [modify_node, if_neg hy]
  heap y hy := by rw [modify_node, if_neg hy]
  min _ _ := rfl
  size _ _ := rfl

lemma Shape.changes_attach (hs : Shape m h n pos) :
    Changes h x m (m.attach h x (slotAt pos (parent n)) (slotAt pos n)) := by
  refine ⟨?_, ?_, ?_, ?_⟩
  · intro y hy hheap
    obtain ⟨hleft, hright⟩ := slotAt_ne fun i hi => hs.ne_of_free hheap hi
    apply HeapNode.ext
    · rw [attach_left, if_neg hleft]
    · rw [attach_right, if_neg hright]
    · rw [attach_parent, if_neg hy]
    · rw [attach_heap, if_neg hy]
  · intro y hy
    rw [attach_heap, if_neg hy]
  · intro g hg
    rw [attach_min, if_neg fun he => hg he.2]
  · intro g hg
    rw [attach_size, if_neg hg]

lemma Shape.changes_unlink (hs : Shape m h (n + 1) pos) :
    Changes h x m ((m.setSize h n).set h none (slotAt pos n)) := by
  refine ⟨?_, ?_, ?_, ?_⟩
  · intro y hy hheap
    obtain ⟨hleft, hright⟩ := slotAt_ne fun i hi => hs.ne_of_free hheap (Nat.lt_succ_of_lt hi)
    apply HeapNode.ext
    · rw [set_left, if_neg hleft, setSize_node]
    · rw [set_right, if_neg hright, setSize_node]
    · rw [set_parent, setSize_node]
    · rw [set_heap, setSize_node]
  · intro y _
    rw [set_heap, setSize_node]
  · intro g hg
    rw [set_min, if_neg fun he => hg he.2, setSize_min]
  · intro g hg
    rw [set_size, setSize_size, if_neg hg]

lemma Links.changes_putInPlace (hs : Links m h n pos) (hi : i < n) (hc : ∀ j < n, pos j ≠ c)
    (hfree : ∀ y, (m.node y).heap ≠ some h → y ≠ c ∧ ∀ j < n, pos j ≠ y) :
    Changes h (pos i) m (m.putInPlace h (pos i) c) := by
  have htop := hs.inherit_top hi hc
  refine ⟨?_, ?_, ?_, ?_⟩
  · intro y hy hheap
    obtain ⟨hyc, hne⟩ := hfree y hheap
    have hup : up pos i ≠ some y := up_ne hne hi
    apply HeapNode.ext
    · rw [HeapRaw.putInPlace, modify_node, if_neg hy, htop, replace_left, if_neg fun he => hup he.1, inherit_left,
        if_neg hyc]
    · rw [HeapRaw.putInPlace, modify_node, if_neg hy, htop, replace_right, if_neg fun he => hup he.1, inherit_right,
        if_neg hyc]
    · rw [HeapRaw.putInPlace, modify_node, if_neg hy, replace_parent, inherit_parent, hs.rights i hi, hs.lefts i hi,
        if_neg (link_ne hne), if_neg (link_ne hne), if_neg hyc]
    · rw [putInPlace_heap, if_neg hy]
  · intro y hy
    rw [putInPlace_heap, if_neg hy]
  · intro g hg
    rw [HeapRaw.putInPlace, modify_min, replace_min, inherit_min]
    split_ifs
    · rw [Function.update_of_ne hg]
    · rfl
  · intro g _
    rw [HeapRaw.putInPlace, modify_size, replace_size, inherit_size]

omit [DecidableEq N] [DecidableEq H] in
lemma Links.others (hs : Links m h (n + 1) pos) (hi : i < n + 1) :
    (y ≠ pos i ∧ ∃ j < n + 1, pos j = y) ↔ ∃ j < n, Function.update pos i (pos n) j = y := by
  constructor
  · rintro ⟨hy, j, hj, rfl⟩
    have hji : j ≠ i := fun he => hy (by rw [he])
    by_cases hjn : j = n
    · exact ⟨i, by omega, by rw [Function.update_self, hjn]⟩
    · exact ⟨j, by omega, Function.update_of_ne hji ..⟩
  · rintro ⟨j, hj, rfl⟩
    rw [Function.update_apply]
    split_ifs with hji
    · exact ⟨fun he => by have := hs.inj n (by omega) i hi he; omega, n, by omega, rfl⟩
    · exact ⟨fun he => hji (hs.inj j (by omega) i hi he), j, by omega, rfl⟩

omit [DecidableEq H] in
lemma Shape.mem_removed (hs : Shape m h (n + 1) pos) (hi : i < n + 1)
    (hheap : ∀ y, (m'.node y).heap = if y = pos i then none else (m.node y).heap) (y : N) :
    (m'.node y).heap = some h ↔ ∃ j < n, Function.update pos i (pos n) j = y := by
  rw [← hs.others hi, ← hs.mem, hheap]
  by_cases hy : y = pos i
  · rw [if_pos hy]
    exact ⟨fun he => absurd he (Option.some_ne_none h).symm, fun he => absurd hy he.1⟩
  · rw [if_neg hy]
    exact ⟨fun he => ⟨hy, he⟩, fun he => he.2⟩

omit [DecidableEq H] in
lemma Links.forget (hs : Links m h n pos) : Links (m.modify x fun v => { v with heap := none }) h n pos where
  size := hs.size
  root := hs.root
  lefts i hi := by
    rw [← hs.lefts i hi]
    exact modify_field HeapNode.left fun _ => rfl
  rights i hi := by
    rw [← hs.rights i hi]
    exact modify_field HeapNode.right fun _ => rfl
  parents i hi := by
    rw [← hs.parents i hi]
    exact modify_field HeapNode.parent fun _ => rfl
  inj := hs.inj

lemma Shape.remove_eq (less : N → N → Bool) (hs : Shape m h (n + 1) pos) (hx : (m.node x).heap = some h) :
    ∃ m₁, Links m₁ h n pos ∧ Changes h x m m₁ ∧ (∀ y, (m₁.node y).heap = (m.node y).heap) ∧
      m.remove less h x =
        if pos n = x then some (m₁.modify x fun v => { v with heap := none }, true)
        else (siftDown less h (pos n) n (m₁.putInPlace h x (pos n))).bind fun m =>
          (siftUp less h (pos n) (m.size h) m).map fun m => (m, true) := by
  have hwalk : walk h m (path (m.size h) 0 0).1 (path (m.size h) 0 0).2 .min .min =
      some (slotAt pos (parent n), slotAt pos n) := by
    rw [hs.size, hs.walk_path (Nat.le_succ n), walk]
  have hlast : (m.setSize h n).get h (slotAt pos n) = some (pos n) := by
    have hget : (m.setSize h n).get h (slotAt pos n) = m.get h (slotAt pos n) := by
      cases slotAt pos n <;> rfl
    rw [hget, hs.get_slotAt (Nat.le_succ n), link, if_pos (Nat.lt_succ_self n)]
  have hlinks := hs.unlink
  refine ⟨(m.setSize h n).set h none (slotAt pos n), hlinks, hs.changes_unlink, ?_, ?_⟩
  · intro y
    rw [set_heap, setSize_node]
  -- the last node was the root only if its link is gone
  have hroot : some (pos n) ≠ ((m.setSize h n).set h none (slotAt pos n)).min h := by
    rw [hlinks.root]
    exact (link_ne fun j hj he => hj.ne (hs.inj j (by omega) n (by omega) he)).symm
  have hsize : m.size h - 1 = n := by rw [hs.size, Nat.add_sub_cancel]
  rw [remove, if_neg (not_not.mpr hx), if_neg (by rw [hs.size]; exact Nat.succ_ne_zero n)]
  dsimp only
  rw [hwalk, Option.bind_some]
  dsimp only
  rw [hsize, hlast, Option.bind_some, if_neg hroot, hlinks.size]

section Operations

variable {less : N → N → Bool} {β : Type} [LinearOrder β] {rank : N → β}
  (hrank : ∀ x y, less x y = true ↔ rank x < rank y)

include hrank

theorem insert_spec (hs : Shape m h n pos) (hordered : Ordered (rank ∘ pos) n) (hx : (m.node x).heap = none) :
    ∃ m' pos', m.insert less h x = some (m', true) ∧ Shape m' h (n + 1) pos' ∧ Ordered (rank ∘ pos') (n + 1) ∧
      Changes h x m m' ∧ (m'.node x).heap = some h := by
  have hnone : ¬(m.node x).heap.isSome = true := by simp [hx]
  have hcleared := hs.cleared hx
  generalize hm₁ : (m.modify x fun v => { v with left := none, right := none, parent := none }) = m₁ at hcleared
  have hx₁ : (m₁.node x).heap = none ∧ (m₁.node x).left = none ∧ (m₁.node x).right = none := by
    rw [← hm₁, modify_node, if_pos rfl]
    exact ⟨hx, rfl, rfl⟩
  have hwalk : walk h m₁ (path (1 + m₁.size h) 0 0).1 (path (1 + m₁.size h) 0 0).2 .min .min =
      some (slotAt pos (parent n), slotAt pos n) := by
    rw [hcleared.size, Nat.add_comm, hcleared.walk_path le_rfl, walk]
  have hattach := hcleared.attach hx₁.1 hx₁.2.1 hx₁.2.2
  have hchanges : Changes h x m (m₁.attach h x (slotAt pos (parent n)) (slotAt pos n)) := by
    have hmodify := changes_modify (h := h) (m := m) (x := x)
      (f := fun v => { v with left := none, right := none, parent := none })
    rw [hm₁] at hmodify
    exact hmodify.trans hcleared.changes_attach
  generalize hm₂ : m₁.attach h x (slotAt pos (parent n)) (slotAt pos n) = m₂ at hattach hchanges
  -- the order holds but for the new node, which nothing is below
  obtain ⟨hhole, hbelow⟩ : Hole (rank ∘ Function.update pos n x) (n + 1) n ∧
      Below (rank ∘ Function.update pos n x) (n + 1) n := by
    refine hordered.push fun j hj => ?_
    rw [Function.comp_apply, Function.update_of_ne (by omega), Function.comp_apply]
  obtain ⟨m', pos', hsift, hs', hordered', hsame⟩ :=
    siftUp_spec hrank (n + 1) hattach (Nat.lt_succ_self n) (Nat.lt_succ_self n) hhole hbelow
  rw [Function.update_self] at hsift
  refine ⟨m', pos', ?_, hs', hordered', hchanges.same hsame, ?_⟩
  · rw [insert, if_neg hnone, hm₁]
    dsimp only
    rw [hwalk, Option.bind_some]
    dsimp only
    rw [hm₂, hattach.size, hsift, Option.map_some]
  · rw [hsame.heap, ← hm₂, attach_heap, if_pos rfl]

theorem remove_spec (hs : Shape m h (n + 1) pos) (hordered : Ordered (rank ∘ pos) (n + 1))
    (hx : (m.node x).heap = some h) :
    ∃ m' pos', m.remove less h x = some (m', true) ∧ Shape m' h n pos' ∧ Ordered (rank ∘ pos') n ∧
      Changes h x m m' ∧ (m'.node x).heap = none := by
  obtain ⟨m₁, hlinks, hchanges, hheap, hremove⟩ := hs.remove_eq less hx
  obtain ⟨i, hi, rfl⟩ := (hs.mem x).mp hx
  rw [hremove]
  by_cases hin : i = n
  · rw [if_pos (by rw [hin])]
    have hheap' (y : N) : ((m₁.modify (pos i) fun v => { v with heap := none }).node y).heap =
        if y = pos i then none else (m.node y).heap := by
      rw [modify_node]
      split_ifs
      · rfl
      · exact hheap y
    refine ⟨_, pos, rfl, ⟨hlinks.forget, ?_⟩, ?_, hchanges.trans changes_modify, ?_⟩
    · intro y
      rw [hs.mem_removed hi hheap', hin, Function.update_eq_self]
    · intro j hj hjn
      exact hordered j hj (Nat.lt_succ_of_lt hjn)
    · rw [hheap', if_pos rfl]
  have hlt : i < n := by omega
  have hne : pos n ≠ pos i := fun he => hin (hs.inj i hi n (Nat.lt_succ_self n) he.symm)
  have hfree (j : ℕ) (hj : j < n) : pos j ≠ pos n := fun he => hj.ne (hs.inj j (by omega) n (by omega) he)
  rw [if_neg hne]
  have hheap' (y : N) : ((m₁.putInPlace h (pos i) (pos n)).node y).heap =
      if y = pos i then none else (m.node y).heap := by rw [putInPlace_heap, hheap]
  have hs₂ : Shape (m₁.putInPlace h (pos i) (pos n)) h n (Function.update pos i (pos n)) :=
    ⟨hlinks.putInPlace hlt hfree, hs.mem_removed hi hheap'⟩
  have hchanges₂ : Changes h (pos i) m (m₁.putInPlace h (pos i) (pos n)) := by
    refine hchanges.trans (hlinks.changes_putInPlace hlt hfree fun y hy => ?_)
    rw [hheap] at hy
    exact ⟨(hs.ne_of_free hy (Nat.lt_succ_self n)).symm, fun j hj => hs.ne_of_free hy (Nat.lt_succ_of_lt hj)⟩
  have hnone : ((m₁.putInPlace h (pos i) (pos n)).node (pos i)).heap = none := by rw [hheap', if_pos rfl]
  generalize m₁.putInPlace h (pos i) (pos n) = m₂ at hs₂ hchanges₂ hnone
  -- the order holds but for the last node at its new place
  have hhole : Hole (rank ∘ Function.update pos i (pos n)) n i := by
    refine hordered.hole (Nat.le_succ n) hi (fun j _ hj => ?_) hlt
    rw [Function.comp_apply, Function.update_of_ne hj, Function.comp_apply]
  have hor : Above (rank ∘ Function.update pos i (pos n)) i ∨ Below (rank ∘ Function.update pos i (pos n)) n i := by
    by_cases hup : 0 < i ∧ (rank ∘ Function.update pos i (pos n)) i < (rank ∘ Function.update pos i (pos n)) (parent i)
    · exact .inr (hhole.below_of_lt hup.1 hup.2)
    · exact .inl fun hpos => not_lt.mp fun hlt => hup ⟨hpos, hlt⟩
  have hself : Function.update pos i (pos n) i = pos n := Function.update_self ..
  obtain ⟨m₃, pos₃, j, hdown, hs₃, hj, hpos₃, hhole₃, hbelow, hsame⟩ :=
    siftDown_spec hrank n hs₂ hlt (by omega) hhole hor
  obtain ⟨m₄, pos₄, hup, hs₄, hordered₄, hsame'⟩ := siftUp_spec hrank n hs₃ hj hj hhole₃ hbelow
  rw [hself] at hdown hpos₃
  rw [hpos₃] at hup
  refine ⟨m₄, pos₄, ?_, hs₄, hordered₄, (hchanges₂.same hsame).same hsame', ?_⟩
  · rw [hdown, Option.bind_some, hs₃.size, hup, Option.map_some]
  · rw [hsame'.heap, hsame.heap, hnone]

end Operations

end Simple.Containers.HeapRaw
