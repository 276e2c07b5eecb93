import Simple.Containers.HeapRawShape

/-! A node is linked to a heap at the end of its last row, and unlinked from it. -/

namespace Simple.Containers.HeapRaw

open Simple.Lib Simple.Lib.Heap

variable {N H : Type} [DecidableEq N] [DecidableEq H] {m m' : HeapRaw N H} {h g : H} {x y c : N} {o : Option N}
  {n i j k p : ℕ} {pos : ℕ → N} {s t : Slot N}

def slotAt (pos : ℕ → N) (i : ℕ) : Slot N :=
  if i = 0 then .min else if i % 2 = 0 then .right (pos (parent i)) else .left (pos (parent i))

section Path

omit [DecidableEq N] [DecidableEq H]

lemma Links.get_slotAt (hs : Links m h n pos) (hi : i ≤ n) : m.get h (slotAt pos i) = link pos n i := by
  rw [slotAt]
  split_ifs with hzero heven
  · rw [hzero]
    exact hs.root
  · have hlt := parent_lt (Nat.pos_of_ne_zero hzero)
    have hchild := (parent_eq_iff (i := parent i) (Nat.pos_of_ne_zero hzero)).mp rfl
    have hright : 2 * parent i + 2 = i := by omega
    rw [get, hs.rights _ (by omega), hright]
  · have hlt := parent_lt (Nat.pos_of_ne_zero hzero)
    have hchild := (parent_eq_iff (i := parent i) (Nat.pos_of_ne_zero hzero)).mp rfl
    have hleft : 2 * parent i + 1 = i := by omega
    rw [get, hs.lefts _ (by omega), hleft]

lemma shiftRight_push (n p : ℕ) : (p <<< 1 ||| (n &&& 1)) >>> 1 = p := by
  rw [Nat.shiftRight_or_distrib, Nat.shiftLeft_shiftRight, Nat.and_one_is_mod, Nat.shiftRight_one]
  have hzero : n % 2 / 2 = 0 := by omega
  rw [hzero, Nat.or_zero]

lemma low_push (n p : ℕ) : (p <<< 1 ||| (n &&& 1)) &&& 1 = n % 2 := by
  rw [Nat.and_or_distrib_right, Nat.and_one_is_mod, Nat.shiftLeft_eq, Nat.and_assoc, Nat.and_self, Nat.and_one_is_mod]
  have hzero : p * 2 ^ 1 % 2 = 0 := by omega
  rw [hzero, Nat.zero_or]

lemma Links.walk_path (hs : Links m h n pos) (hi : i ≤ n) :
    walk h m (path (i + 1) k p).1 (path (i + 1) k p).2 .min .min =
      walk h m k p (slotAt pos (parent i)) (slotAt pos i) := by
  induction i using Nat.strong_induction_on generalizing k p with
  | _ i ih =>
    rw [path]
    split_ifs with htwo
    · have hlt := parent_lt (show 0 < i by omega)
      have hhalf : (i + 1) / 2 = parent i + 1 := by
        rw [parent]
        omega
      rw [hhalf, ih _ hlt (by omega), walk, hs.get_slotAt (by omega), link, if_pos (by omega), Option.bind_some,
        shiftRight_push, low_push]
      congr 1
      rw [slotAt, if_neg (show i ≠ 0 by omega)]
      split_ifs <;> first | rfl | omega
    · have hzero : i = 0 := by omega
      rw [hzero]
      rfl

end Path

@[simp] lemma set_size : (m.set h o s).size = m.size := by cases s <;> rfl

@[simp] lemma set_min : (m.set h o s).min g = if s = .min ∧ g = h then o else m.min g := by
  cases s with
  | min => simp [set]
  | left x => simp [set]
  | right x => simp [set]

@[simp] lemma set_left : ((m.set h o s).node y).left = if s = .left y then o else (m.node y).left := by
  cases s with
  | min => simp [set]
  | left x =>
    rw [set, modify_node]
    by_cases hy : y = x
    · simp [hy]
    · simp [hy, Ne.symm hy]
  | right x =>
    rw [set, if_neg (by simp)]
    exact modify_field HeapNode.left fun _ => rfl

@[simp] lemma set_right : ((m.set h o s).node y).right = if s = .right y then o else (m.node y).right := by
  cases s with
  | min => simp [set]
  | left x =>
    rw [set, if_neg (by simp)]
    exact modify_field HeapNode.right fun _ => rfl
  | right x =>
    rw [set, modify_node]
    by_cases hy : y = x
    · simp [hy]
    · simp [hy, Ne.symm hy]

@[simp] lemma set_parent : ((m.set h o s).node y).parent = (m.node y).parent := by
  cases s with
  | min => rfl
  | left x =>
    rw [set]
    exact modify_field HeapNode.parent fun _ => rfl
  | right x =>
    rw [set]
    exact modify_field HeapNode.parent fun _ => rfl

@[simp] lemma set_heap : ((m.set h o s).node y).heap = (m.node y).heap := by
  cases s with
  | min => rfl
  | left x =>
    rw [set]
    exact modify_field HeapNode.heap fun _ => rfl
  | right x =>
    rw [set]
    exact modify_field HeapNode.heap fun _ => rfl

omit [DecidableEq N] [DecidableEq H] in
lemma Links.slotAt_left (hs : Links m h n pos) (hj : j ≤ n) (hi : i < n) : slotAt pos j = .left (pos i) ↔ j = 2 * i + 1 := by
  rw [slotAt]
  by_cases hzero : j = 0
  · simp [hzero]
  have hlt := parent_lt (Nat.pos_of_ne_zero hzero)
  rw [if_neg hzero]
  split_ifs with heven
  · simp
    omega
  · rw [Slot.left.injEq]
    constructor
    · intro he
      have hp := hs.inj _ (by omega) i hi he
      have := (parent_eq_iff (Nat.pos_of_ne_zero hzero)).mp hp
      omega
    · rintro rfl
      rw [(parent_eq_iff (by omega)).mpr (.inl rfl)]

omit [DecidableEq N] [DecidableEq H] in
lemma Links.slotAt_right (hs : Links m h n pos) (hj : j ≤ n) (hi : i < n) :
    slotAt pos j = .right (pos i) ↔ j = 2 * i + 2 := by
  rw [slotAt]
  by_cases hzero : j = 0
  · simp [hzero]
  have hlt := parent_lt (Nat.pos_of_ne_zero hzero)
  rw [if_neg hzero]
  split_ifs with heven
  · rw [Slot.right.injEq]
    constructor
    · intro he
      have hp := hs.inj _ (by omega) i hi he
      have := (parent_eq_iff (Nat.pos_of_ne_zero hzero)).mp hp
      omega
    · rintro rfl
      rw [(parent_eq_iff (by omega)).mpr (.inr rfl)]
  · simp
    omega

omit [DecidableEq N] [DecidableEq H] in
lemma slotAt_min : slotAt pos j = .min ↔ j = 0 := by
  rw [slotAt]
  split_ifs with hzero <;> simp [hzero]

omit [DecidableEq N] [DecidableEq H] in
lemma link_push : link (Function.update pos n x) (n + 1) j = if j = n then some x else link pos n j := by
  rw [link, link, Function.update_apply]
  split_ifs <;> first | rfl | omega

omit [DecidableEq N] [DecidableEq H] in
lemma Shape.ne_of_free (hs : Shape m h n pos) (hx : (m.node x).heap ≠ some h) (hi : i < n) : pos i ≠ x := by
  rintro rfl
  exact hx ((hs.mem _).mpr ⟨i, hi, rfl⟩)

omit [DecidableEq N] [DecidableEq H] in
lemma slotAt_ne (hy : ∀ j < n, pos j ≠ y) : slotAt pos n ≠ .left y ∧ slotAt pos n ≠ .right y := by
  rw [slotAt]
  split_ifs with hzero heven
  · simp
  · have hlt := parent_lt (Nat.pos_of_ne_zero hzero)
    exact ⟨by simp, fun he => hy _ hlt (Slot.right.inj he)⟩
  · have hlt := parent_lt (Nat.pos_of_ne_zero hzero)
    exact ⟨fun he => hy _ hlt (Slot.left.inj he), by simp⟩

lemma attach_left : ((m.attach h x s t).node y).left = if t = .left y then some x else (m.node y).left := by
  by_cases hy : y = x <;> simp [attach, hy]

lemma attach_right : ((m.attach h x s t).node y).right = if t = .right y then some x else (m.node y).right := by
  by_cases hy : y = x <;> simp [attach, hy]

lemma attach_parent : ((m.attach h x s t).node y).parent = if y = x then m.get h s else (m.node y).parent := by
  by_cases hy : y = x <;> simp [attach, hy]

lemma attach_heap : ((m.attach h x s t).node y).heap = if y = x then some h else (m.node y).heap := by
  by_cases hy : y = x <;> simp [attach, hy]

lemma attach_min : (m.attach h x s t).min g = if t = .min ∧ g = h then some x else m.min g := by
  simp [attach]

lemma attach_size : (m.attach h x s t).size g = if g = h then m.size h + 1 else m.size g := by
  simp [attach]

theorem Shape.attach (hs : Shape m h n pos) (hx : (m.node x).heap = none) (hleft : (m.node x).left = none)
    (hright : (m.node x).right = none) :
    Shape (m.attach h x (slotAt pos (parent n)) (slotAt pos n)) h (n + 1) (Function.update pos n x) := by
  have hfree : (m.node x).heap ≠ some h := by rw [hx]; exact (Option.some_ne_none h).symm
  have hne (i : ℕ) (hi : i < n) : pos i ≠ x := hs.ne_of_free hfree hi
  have hold (i : ℕ) (hi : i < n) : Function.update pos n x i = pos i := Function.update_of_ne (by omega) ..
  have hnew : Function.update pos n x n = x := Function.update_self ..
  have hparent (j : ℕ) (hj : 0 < j) : parent j < j := parent_lt hj
  -- the new node is not above itself
  obtain ⟨hslot, hslot'⟩ := slotAt_ne hne
  refine ⟨⟨?size, ?root, ?lefts, ?rights, ?parents, ?inj⟩, ?mem⟩
  case size => rw [attach_size, if_pos rfl, hs.size]
  case root =>
    rw [attach_min, link_push, ← hs.root]
    simp only [slotAt_min, and_true, eq_comm]
  case lefts =>
    intro j hj
    obtain hj | rfl := Nat.lt_succ_iff_lt_or_eq.mp hj
    · rw [hold j hj, attach_left, link_push, hs.lefts j hj]
      simp only [hs.slotAt_left le_rfl hj, eq_comm]
    · rw [hnew, attach_left, if_neg hslot, hleft, link, if_neg (by omega)]
  case rights =>
    intro j hj
    obtain hj | rfl := Nat.lt_succ_iff_lt_or_eq.mp hj
    · rw [hold j hj, attach_right, link_push, hs.rights j hj]
      simp only [hs.slotAt_right le_rfl hj, eq_comm]
    · rw [hnew, attach_right, if_neg hslot', hright, link, if_neg (by omega)]
  case parents =>
    intro j hj
    have hup : up (Function.update pos n x) j = up pos j := by
      rw [up, up]
      split_ifs with hzero
      · rfl
      · have := hparent j (by omega)
        rw [hold _ (by omega)]
    rw [hup]
    obtain hj | rfl := Nat.lt_succ_iff_lt_or_eq.mp hj
    · rw [hold j hj, attach_parent, if_neg (hne j hj), hs.parents j hj]
    · have hle : parent j ≤ j := by
        rw [parent]
        omega
      rw [hnew, attach_parent, if_pos rfl, hs.get_slotAt hle, link, up]
      by_cases hzero : j = 0
      · simp [hzero, parent]
      · rw [if_neg hzero, if_pos (hparent j (by omega))]
  case inj =>
    intro i hi j hj he
    obtain hi | rfl := Nat.lt_succ_iff_lt_or_eq.mp hi <;> obtain hj | rfl := Nat.lt_succ_iff_lt_or_eq.mp hj
    · rw [hold i hi, hold j hj] at he
      exact hs.inj i hi j hj he
    · rw [hold i hi, hnew] at he
      exact absurd he (hne i hi)
    · rw [hold j hj, hnew] at he
      exact absurd he.symm (hne j hj)
    · rfl
  case mem =>
    intro y
    rw [attach_heap]
    split_ifs with hy
    · exact ⟨fun _ => ⟨n, by omega, by rw [hnew, hy]⟩, fun _ => rfl⟩
    · rw [hs.mem]
      constructor
      · rintro ⟨i, hi, rfl⟩
        exact ⟨i, by omega, hold i hi⟩
      · rintro ⟨i, hi, rfl⟩
        obtain hi | rfl := Nat.lt_succ_iff_lt_or_eq.mp hi
        · exact ⟨i, hi, (hold i hi).symm⟩
        · exact absurd hnew hy

omit [DecidableEq N] [DecidableEq H] in
lemma link_pop : link pos n j = if n = j then none else link pos (n + 1) j := by
  rw [link, link]
  split_ifs <;> first | rfl | omega

theorem Links.unlink (hs : Links m h (n + 1) pos) :
    Links ((m.setSize h n).set h none (slotAt pos n)) h n pos where
  size := by simp
  root := by
    rw [set_min, setSize_min, link_pop, ← hs.root]
    simp only [slotAt_min, and_true]
  lefts j hj := by
    rw [set_left, setSize_node, link_pop, ← hs.lefts j (by omega)]
    simp only [hs.slotAt_left (Nat.le_succ n) (Nat.lt_succ_of_lt hj)]
  rights j hj := by
    rw [set_right, setSize_node, link_pop, ← hs.rights j (by omega)]
    simp only [hs.slotAt_right (Nat.le_succ n) (Nat.lt_succ_of_lt hj)]
  parents j hj := by rw [set_parent, setSize_node, hs.parents j (by omega)]
  inj i hi j hj := hs.inj i (by omega) j (by omega)

section Inherit

omit [DecidableEq H]

lemma inherit_left : ((m.inherit x c).node y).left =
    if y = c then (m.node x).left else (m.node y).left := by
  simp only [inherit, adopt_left, modify_node]
  split_ifs <;> simp_all

lemma inherit_right : ((m.inherit x c).node y).right =
    if y = c then (m.node x).right else (m.node y).right := by
  simp only [inherit, adopt_right, modify_node]
  split_ifs <;> simp_all

lemma inherit_heap : ((m.inherit x c).node y).heap = (m.node y).heap := by
  simp only [inherit, adopt_heap, modify_node]
  split_ifs <;> simp_all

lemma inherit_parent : ((m.inherit x c).node y).parent =
    if (m.node x).right = some y then some c
    else if (m.node x).left = some y then some c
    else if y = c then (m.node x).parent
    else (m.node y).parent := by
  simp only [inherit, adopt_parent, adopt_right, modify_node]
  split_ifs <;> simp_all

lemma inherit_min : (m.inherit x c).min = m.min := by simp [inherit]

lemma inherit_size : (m.inherit x c).size = m.size := by simp [inherit]

end Inherit

lemma putInPlace_heap : ((m.putInPlace h x c).node y).heap = if y = x then none else (m.node y).heap := by
  rw [putInPlace, modify_node]
  split_ifs with hy
  · rfl
  · rw [replace_heap, inherit_heap]

omit [DecidableEq N] [DecidableEq H] in
lemma link_ne (hc : ∀ j < n, pos j ≠ c) : link pos n j ≠ some c := by
  rw [link]
  split_ifs with hj
  · exact fun he => hc j hj (Option.some.inj he)
  · exact (Option.some_ne_none c).symm

omit [DecidableEq N] [DecidableEq H] in
lemma link_update (hi : i < n) : link (Function.update pos i c) n j = if j = i then some c else link pos n j := by
  rw [link, link, Function.update_apply]
  split_ifs <;> first | rfl | omega

omit [DecidableEq N] [DecidableEq H] in
lemma up_update : up (Function.update pos i c) j = if 0 < j ∧ parent j = i then some c else up pos j := by
  rw [up, up, Function.update_apply]
  split_ifs <;> first | rfl | omega

section Place

variable (hs : Links m h n pos) (hi : i < n) (hc : ∀ j < n, pos j ≠ c)

include hs hi hc

omit [DecidableEq H] in
lemma Links.inherit_top : ((m.inherit (pos i) c).node (pos i)).parent = up pos i := by
  rw [inherit_parent, hs.rights i hi, hs.lefts i hi, if_neg (hc i hi), hs.parents i hi]
  simp only [hs.link_eq hi]
  rw [if_neg (by omega), if_neg (by omega)]

theorem Links.putInPlace : Links (m.putInPlace h (pos i) c) h n (Function.update pos i c) := by
  have hnew : Function.update pos i c i = c := Function.update_self ..
  have hold (j : ℕ) (hj : j ≠ i) : Function.update pos i c j = pos j := Function.update_of_ne hj ..
  have htop := hs.inherit_top hi hc
  have hupc : up pos i ≠ some c := by
    rw [up]
    split_ifs with hzero
    · exact (Option.some_ne_none c).symm
    · have hlt := parent_lt (Nat.pos_of_ne_zero hzero)
      exact fun he => hc _ (by omega) (Option.some.inj he)
  have hmodify (y : N) : ((m.putInPlace h (pos i) c).node y).left =
      (((m.inherit (pos i) c).replace h (up pos i) (pos i) c).node y).left ∧
      ((m.putInPlace h (pos i) c).node y).right =
      (((m.inherit (pos i) c).replace h (up pos i) (pos i) c).node y).right ∧
      ((m.putInPlace h (pos i) c).node y).parent =
      (((m.inherit (pos i) c).replace h (up pos i) (pos i) c).node y).parent := by
    rw [HeapRaw.putInPlace, htop, modify_node]
    split_ifs with hy
    · rw [hy]
      exact ⟨rfl, rfl, rfl⟩
    · exact ⟨rfl, rfl, rfl⟩
  refine ⟨?size, ?root, ?lefts, ?rights, ?parents, ?inj⟩
  case size => rw [HeapRaw.putInPlace, modify_size, replace_size, inherit_size, hs.size]
  case root =>
    rw [HeapRaw.putInPlace, htop, modify_min, replace_min, inherit_min, link_update hi, up]
    by_cases hzero : i = 0
    · rw [if_pos hzero, if_pos rfl, Function.update_self, if_pos hzero.symm]
    · rw [if_neg hzero, if_neg (Option.some_ne_none _), if_neg (Ne.symm hzero), hs.root]
  case lefts =>
    intro j hj
    rw [(hmodify _).1, replace_left, inherit_left, link_update hi]
    by_cases hji : j = i
    · rw [hji, hnew, if_pos rfl, hs.lefts i hi, if_neg fun he => hupc he.1, if_neg (by omega)]
    · rw [hold j hji, if_neg (hc j hj), hs.lefts j hj]
      simp only [hs.up_eq hi hj, hs.link_eq hi]
      refine if_congr ⟨fun he => he.2, fun he => ⟨⟨by omega, ?_⟩, he⟩⟩ rfl rfl
      exact (parent_eq_iff (by omega)).mpr (.inl he.symm)
  case rights =>
    intro j hj
    rw [(hmodify _).2.1, replace_right, inherit_left, inherit_right, link_update hi]
    by_cases hji : j = i
    · rw [hji, hnew, if_pos rfl, if_pos rfl, hs.rights i hi, if_neg fun he => hupc he.1, if_neg (by omega)]
    · rw [hold j hji, if_neg (hc j hj), if_neg (hc j hj), hs.lefts j hj, hs.rights j hj]
      simp only [hs.up_eq hi hj, hs.link_eq hi, ne_eq]
      refine if_congr ⟨fun he => ?_, fun he => ⟨⟨by omega, ?_⟩, by omega⟩⟩ rfl rfl
      · have := (parent_eq_iff he.1.1).mp he.1.2
        omega
      · exact (parent_eq_iff (by omega)).mpr (.inr he.symm)
  case parents =>
    intro j hj
    rw [(hmodify _).2.2, replace_parent, inherit_parent, up_update]
    by_cases hji : j = i
    · have hself : ¬(0 < i ∧ parent i = i) := by
        rintro ⟨hpos, he⟩
        have := parent_lt hpos
        omega
      rw [hji, hnew, hs.rights i hi, hs.lefts i hi, if_neg (link_ne hc), if_neg (link_ne hc), if_pos rfl,
        hs.parents i hi, if_neg hself]
    · rw [hold j hji, if_neg (hc j hj), hs.rights i hi, hs.lefts i hi, hs.parents j hj]
      simp only [hs.link_eq hj]
      by_cases hchild : 0 < j ∧ parent j = i
      · have := (parent_eq_iff hchild.1).mp hchild.2
        rw [if_pos hchild]
        split_ifs <;> first | rfl | omega
      · rw [if_neg hchild, if_neg, if_neg]
        · rintro rfl
          exact hchild ⟨by omega, (parent_eq_iff (by omega)).mpr (.inl rfl)⟩
        · rintro rfl
          exact hchild ⟨by omega, (parent_eq_iff (by omega)).mpr (.inr rfl)⟩
  case inj =>
    intro j hj k hk he
    by_cases hji : j = i <;> by_cases hki : k = i
    · rw [hji, hki]
    · rw [hji, hnew, hold k hki] at he
      exact absurd he.symm (hc k hk)
    · rw [hki, hnew, hold j hji] at he
      exact absurd he (hc j hj)
    · rw [hold j hji, hold k hki] at he
      exact hs.inj j hj k hk he

end Place

end Simple.Containers.HeapRaw
