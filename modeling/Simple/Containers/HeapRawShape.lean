import Simple.Containers.HeapRaw
import Simple.Lib.Heap

/-! The links of a heap and the positions of its nodes. -/

namespace Simple.Containers.HeapRaw

open Simple.Lib Simple.Lib.Heap

variable {N H : Type} [DecidableEq N] [DecidableEq H] {m m' : HeapRaw N H} {h g : H} {x y p c : N} {o : Option N}
  {f : HeapNode N H → HeapNode N H} {n i j : ℕ} {pos : ℕ → N}

section Fields

omit [DecidableEq H]

@[simp] lemma modify_node : (m.modify x f).node y = if y = x then f (m.node x) else m.node y := Function.update_apply ..

lemma modify_field {γ : Type} (F : HeapNode N H → γ) (hf : ∀ v, F (f v) = F v) :
    F ((m.modify x f).node y) = F (m.node y) := by
  rw [modify_node]
  split_ifs with hy
  · rw [hy, hf]
  · rfl

@[simp] lemma modify_min : (m.modify x f).min = m.min := rfl

@[simp] lemma modify_size : (m.modify x f).size = m.size := rfl

@[simp] lemma adopt_min : (m.adopt o y).min = m.min := by cases o <;> rfl

@[simp] lemma adopt_size : (m.adopt o y).size = m.size := by cases o <;> rfl

@[simp] lemma adopt_left : ((m.adopt o y).node x).left = (m.node x).left := by
  cases o with
  | none => rfl
  | some z =>
    rw [adopt, modify_field HeapNode.left]
    exact fun _ => rfl

@[simp] lemma adopt_right : ((m.adopt o y).node x).right = (m.node x).right := by
  cases o with
  | none => rfl
  | some z =>
    rw [adopt, modify_field HeapNode.right]
    exact fun _ => rfl

@[simp] lemma adopt_heap : ((m.adopt o y).node x).heap = (m.node x).heap := by
  cases o with
  | none => rfl
  | some z =>
    rw [adopt, modify_field HeapNode.heap]
    exact fun _ => rfl

@[simp] lemma adopt_parent : ((m.adopt o y).node x).parent = if o = some x then some y else (m.node x).parent := by
  cases o with
  | none => rfl
  | some z =>
    rw [adopt, modify_node]
    by_cases hx : x = z
    · rw [if_pos hx, if_pos (by rw [hx])]
    · rw [if_neg hx, if_neg fun he => hx (Option.some.inj he).symm]

end Fields

omit [DecidableEq N] in
@[simp] lemma setMin_node : (m.setMin h o).node = m.node := rfl

omit [DecidableEq N] in
@[simp] lemma setMin_min : (m.setMin h o).min g = if g = h then o else m.min g := Function.update_apply ..

omit [DecidableEq N] in
@[simp] lemma setMin_size : (m.setMin h o).size = m.size := rfl

omit [DecidableEq N] in
@[simp] lemma setSize_min : (m.setSize h n).min = m.min := rfl

omit [DecidableEq N] in
@[simp] lemma setSize_size : (m.setSize h n).size g = if g = h then n else m.size g := Function.update_apply ..

omit [DecidableEq N] in
@[simp] lemma setSize_node : (m.setSize h n).node = m.node := rfl

lemma replace_of_left (hl : (m.node p).left = some x) :
    m.replace h (some p) x y = m.modify p fun v => { v with left := some y } := if_pos hl

lemma replace_of_right (hl : (m.node p).left ≠ some x) :
    m.replace h (some p) x y = m.modify p fun v => { v with right := some y } := if_neg hl

@[simp] lemma replace_size : (m.replace h o x y).size = m.size := by
  cases o with
  | none => rfl
  | some p =>
    by_cases hl : (m.node p).left = some x
    · rw [replace_of_left hl, modify_size]
    · rw [replace_of_right hl, modify_size]

@[simp] lemma replace_min : (m.replace h o x y).min = if o = none then Function.update m.min h (some y) else m.min := by
  cases o with
  | none => rfl
  | some p =>
    rw [if_neg (Option.some_ne_none p)]
    by_cases hl : (m.node p).left = some x
    · rw [replace_of_left hl, modify_min]
    · rw [replace_of_right hl, modify_min]

@[simp] lemma replace_parent {z : N} : ((m.replace h o x y).node z).parent = (m.node z).parent := by
  cases o with
  | none => rfl
  | some p =>
    rw [replace]
    split_ifs
    · exact modify_field HeapNode.parent fun _ => rfl
    · exact modify_field HeapNode.parent fun _ => rfl

@[simp] lemma replace_heap {z : N} : ((m.replace h o x y).node z).heap = (m.node z).heap := by
  cases o with
  | none => rfl
  | some p =>
    rw [replace]
    split_ifs
    · exact modify_field HeapNode.heap fun _ => rfl
    · exact modify_field HeapNode.heap fun _ => rfl

@[simp] lemma replace_left {z : N} : ((m.replace h o x y).node z).left =
    if o = some z ∧ (m.node z).left = some x then some y else (m.node z).left := by
  cases o with
  | none => simp [replace]
  | some p =>
    by_cases hl : (m.node p).left = some x
    · rw [replace_of_left hl]
      by_cases hz : z = p
      · simp [hz, hl]
      · simp [hz, Ne.symm hz]
    · rw [replace_of_right hl]
      by_cases hz : z = p
      · simp [hz, hl]
      · simp [hz, Ne.symm hz]

@[simp] lemma replace_right {z : N} : ((m.replace h o x y).node z).right =
    if o = some z ∧ (m.node z).left ≠ some x then some y else (m.node z).right := by
  cases o with
  | none => simp [replace]
  | some p =>
    by_cases hl : (m.node p).left = some x
    · rw [replace_of_left hl]
      by_cases hz : z = p
      · simp [hz, hl]
      · simp [hz, Ne.symm hz]
    · rw [replace_of_right hl]
      by_cases hz : z = p
      · simp [hz, hl]
      · simp [hz, Ne.symm hz]

section Exchange

omit [DecidableEq H]

def sibling (m : HeapRaw N H) (p c : N) : Option N :=
  if (m.node p).left = some c then (m.node p).right else (m.node p).left

@[simp] lemma exchange_min : (m.exchange p c).min = m.min := by
  simp only [exchange]
  split_ifs <;> simp

@[simp] lemma exchange_size : (m.exchange p c).size = m.size := by
  simp only [exchange]
  split_ifs <;> simp

lemma exchange_left (hpc : p ≠ c) : ((m.exchange p c).node x).left =
    if x = c then (if (m.node p).left = some c then some p else (m.node p).left)
    else if x = p then (m.node c).left
    else (m.node x).left := by
  have hcp := hpc.symm
  simp only [exchange]
  split_ifs <;> simp_all

lemma exchange_right (hpc : p ≠ c) : ((m.exchange p c).node x).right =
    if x = c then (if (m.node p).left = some c then (m.node p).right else some p)
    else if x = p then (m.node c).right
    else (m.node x).right := by
  have hcp := hpc.symm
  simp only [exchange]
  split_ifs <;> simp_all

lemma exchange_heap (hpc : p ≠ c) : ((m.exchange p c).node x).heap =
    if x = c then (m.node p).heap else if x = p then (m.node c).heap else (m.node x).heap := by
  have hcp := hpc.symm
  simp only [exchange]
  split_ifs <;> simp_all

lemma exchange_parent (hpc : p ≠ c) : ((m.exchange p c).node x).parent =
    if (m.node c).right = some x then some p
    else if (m.node c).left = some x then some p
    else if m.sibling p c = some x then some c
    else if x = c then (m.node p).parent
    else if x = p then some c
    else (m.node x).parent := by
  have hcp := hpc.symm
  simp only [exchange, sibling]
  split_ifs <;> simp_all

end Exchange

def link (pos : ℕ → N) (n i : ℕ) : Option N := if i < n then some (pos i) else none

def up (pos : ℕ → N) (i : ℕ) : Option N := if i = 0 then none else some (pos (parent i))

/-- The nodes at the positions below `n` are linked to each other. -/
structure Links (m : HeapRaw N H) (h : H) (n : ℕ) (pos : ℕ → N) : Prop where
  size : m.size h = n
  root : m.min h = link pos n 0
  lefts : ∀ i < n, (m.node (pos i)).left = link pos n (2 * i + 1)
  rights : ∀ i < n, (m.node (pos i)).right = link pos n (2 * i + 2)
  parents : ∀ i < n, (m.node (pos i)).parent = up pos i
  inj : ∀ i < n, ∀ j < n, pos i = pos j → i = j

structure Shape (m : HeapRaw N H) (h : H) (n : ℕ) (pos : ℕ → N) : Prop extends Links m h n pos where
  mem : ∀ x, (m.node x).heap = some h ↔ ∃ i < n, pos i = x

omit [DecidableEq N] [DecidableEq H] in
lemma Links.link_eq (hs : Links m h n pos) (hj : j < n) : link pos n i = some (pos j) ↔ i = j := by
  rw [link]
  constructor
  · intro he
    split_ifs at he with hi
    exact hs.inj i hi j hj (Option.some.inj he)
  · rintro rfl
    rw [if_pos hj]

omit [DecidableEq N] [DecidableEq H] in
lemma Links.up_eq (hs : Links m h n pos) (hi : i < n) (hj : j < n) :
    up pos i = some (pos j) ↔ 0 < i ∧ parent i = j := by
  rw [up]
  constructor
  · intro he
    split_ifs at he with hzero
    have hlt := parent_lt (Nat.pos_of_ne_zero hzero)
    exact ⟨Nat.pos_of_ne_zero hzero, hs.inj _ (by omega) j hj (Option.some.inj he)⟩
  · rintro ⟨hpos, rfl⟩
    rw [if_neg (by omega)]

omit [DecidableEq N] in
lemma link_swap {k : ℕ} (hi : k ≠ i) (hp : k ≠ parent i) :
    link (pos ∘ Equiv.swap i (parent i)) n k = link pos n k := by
  rw [link, link, Function.comp_apply, Equiv.swap_apply_of_ne_of_ne hi hp]

omit [DecidableEq N] in
lemma up_swap {k : ℕ} (h : 0 < k → parent k ≠ i ∧ parent k ≠ parent i) :
    up (pos ∘ Equiv.swap i (parent i)) k = up pos k := by
  rw [up, up]
  split_ifs with hk
  · rfl
  · obtain ⟨hi, hp⟩ := h (Nat.pos_of_ne_zero hk)
    rw [Function.comp_apply, Equiv.swap_apply_of_ne_of_ne hi hp]

section Swap

variable (hs : Shape m h n pos) (hi : 0 < i) (hin : i < n)

include hs hi hin

omit [DecidableEq N] [DecidableEq H] in
lemma Shape.parent_ne : pos (parent i) ≠ pos i := fun he => by
  have hlt := parent_lt hi
  have := hs.inj _ (by omega) i hin he
  omega

omit [DecidableEq H] in
lemma Shape.sibling_eq (hj : j < n) : m.sibling (pos (parent i)) (pos i) = some (pos j) ↔
    parent j = parent i ∧ 0 < j ∧ j ≠ i := by
  have hlt := parent_lt hi
  have hchild := (parent_eq_iff (i := parent i) hi).mp rfl
  rw [sibling, hs.lefts _ (by omega), hs.rights _ (by omega)]
  split_ifs with hleft
  · rw [hs.link_eq hin] at hleft
    rw [hs.link_eq hj]
    constructor
    · rintro rfl
      exact ⟨(parent_eq_iff (by omega)).mpr (by omega), by omega, by omega⟩
    · rintro ⟨hp, hpos, hne⟩
      rw [parent_eq_iff hpos] at hp
      omega
  · rw [hs.link_eq hin] at hleft
    rw [hs.link_eq hj]
    constructor
    · rintro rfl
      exact ⟨(parent_eq_iff (by omega)).mpr (by omega), by omega, by omega⟩
    · rintro ⟨hp, hpos, hne⟩
      rw [parent_eq_iff hpos] at hp
      omega

omit [DecidableEq H] in
lemma Shape.exchange_top : ((m.exchange (pos (parent i)) (pos i)).node (pos i)).parent = up pos (parent i) := by
  have hlt := parent_lt hi
  rw [exchange_parent (hs.parent_ne hi hin), hs.rights i hin, hs.lefts i hin, if_neg, if_neg, if_neg, if_pos rfl,
    hs.parents _ (by omega)]
  · rw [hs.sibling_eq hi hin hin]
    omega
  · rw [hs.link_eq hin]
    omega
  · rw [hs.link_eq hin]
    omega

omit [DecidableEq N] [DecidableEq H] in
lemma Shape.swap_cases (hj : j < n) : ((pos ∘ Equiv.swap i (parent i)) j = pos (parent i) ∧ j = i) ∨
    ((pos ∘ Equiv.swap i (parent i)) j = pos i ∧ j = parent i) ∨
    ((pos ∘ Equiv.swap i (parent i)) j = pos j ∧ j ≠ i ∧ j ≠ parent i ∧ pos j ≠ pos i ∧ pos j ≠ pos (parent i)) := by
  have hlt := parent_lt hi
  by_cases hji : j = i
  · rw [hji]
    exact .inl ⟨by simp, rfl⟩
  by_cases hjp : j = parent i
  · rw [hjp]
    exact .inr (.inl ⟨by simp, rfl⟩)
  · exact .inr (.inr ⟨by simp [Equiv.swap_apply_of_ne_of_ne hji hjp], hji, hjp, fun he => hji (hs.inj j hj i hin he),
      fun he => hjp (hs.inj j hj _ (by omega) he)⟩)

lemma Shape.swap_lefts (hj : j < n) :
    ((m.swapNode h (pos (parent i)) (pos i)).node ((pos ∘ Equiv.swap i (parent i)) j)).left =
      link (pos ∘ Equiv.swap i (parent i)) n (2 * j + 1) := by
  have hlt := parent_lt hi
  have hp : parent i < n := by omega
  have hne := hs.parent_ne hi hin
  have hchild := (parent_eq_iff (i := parent i) hi).mp rfl
  rw [swapNode]
  rw [replace_left, hs.exchange_top hi hin, exchange_left hne]
  obtain ⟨he, hji⟩ | ⟨he, hji⟩ | ⟨he, hji, hjp, hjc, hjp'⟩ := hs.swap_cases hi hin hj
  · rw [he, if_neg hne, if_pos rfl, hs.lefts i hin, if_neg, hji, link_swap (by omega) (by omega)]
    rw [hs.up_eq hp hp]
    rintro ⟨⟨hpos, hself⟩, -⟩
    have := parent_lt hpos
    omega
  · rw [he, if_pos rfl, if_neg]
    · rw [hs.lefts _ hp, hji]
      split_ifs with hleft
      · rw [hs.link_eq hin] at hleft
        rw [hleft, link, if_pos hin]
        simp
      · rw [hs.link_eq hin] at hleft
        rw [link_swap (by omega) (by omega)]
    · rw [hs.up_eq hp hin]
      rintro ⟨⟨hpos, hself⟩, -⟩
      have := parent_lt hpos
      omega
  · rw [he, if_neg hjc, if_neg hjp', hs.lefts j hj]
    simp only [hs.up_eq hp hj, hs.link_eq hp]
    split_ifs with htop
    · rw [htop.2, link, if_pos hp]
      simp
    · rw [link_swap]
      · rintro rfl
        exact hjp ((parent_eq_iff hi).mpr (.inl rfl)).symm
      · intro hjp''
        exact htop ⟨⟨by omega, (parent_eq_iff (by omega)).mpr (.inl hjp''.symm)⟩, hjp''⟩

lemma Shape.swap_rights (hj : j < n) :
    ((m.swapNode h (pos (parent i)) (pos i)).node ((pos ∘ Equiv.swap i (parent i)) j)).right =
      link (pos ∘ Equiv.swap i (parent i)) n (2 * j + 2) := by
  have hlt := parent_lt hi
  have hp : parent i < n := by omega
  have hne := hs.parent_ne hi hin
  have hchild := (parent_eq_iff (i := parent i) hi).mp rfl
  rw [swapNode]
  rw [replace_right, hs.exchange_top hi hin, exchange_right hne, exchange_left hne]
  obtain ⟨he, hji⟩ | ⟨he, hji⟩ | ⟨he, hji, hjp, hjc, hjp'⟩ := hs.swap_cases hi hin hj
  · rw [he, if_neg, if_neg hne, if_pos rfl, hs.rights i hin, hji, link_swap (by omega) (by omega)]
    rw [hs.up_eq hp hp]
    rintro ⟨⟨hpos, hself⟩, -⟩
    have := parent_lt hpos
    omega
  · rw [he, if_neg, if_pos rfl]
    · rw [hs.lefts _ hp, hs.rights _ hp, hji]
      split_ifs with hleft
      · rw [hs.link_eq hin] at hleft
        rw [link_swap (by omega) (by omega)]
      · rw [hs.link_eq hin] at hleft
        have hright : 2 * parent i + 2 = i := by omega
        rw [hright, link, if_pos hin]
        simp
    · rw [hs.up_eq hp hin]
      rintro ⟨⟨hpos, hself⟩, -⟩
      have := parent_lt hpos
      omega
  · rw [he, if_neg hjc, if_neg hjp', if_neg hjc, if_neg hjp', hs.lefts j hj, hs.rights j hj]
    simp only [hs.up_eq hp hj, hs.link_eq hp, ne_eq]
    split_ifs with htop
    · have hright : 2 * j + 2 = parent i := by
        have := (parent_eq_iff htop.1.1).mp htop.1.2
        omega
      rw [hright, link, if_pos hp]
      simp
    · rw [link_swap]
      · rintro rfl
        exact hjp ((parent_eq_iff hi).mpr (.inr rfl)).symm
      · intro hjp''
        exact htop ⟨⟨by omega, (parent_eq_iff (by omega)).mpr (.inr hjp''.symm)⟩, by omega⟩

lemma Shape.swap_parents (hj : j < n) :
    ((m.swapNode h (pos (parent i)) (pos i)).node ((pos ∘ Equiv.swap i (parent i)) j)).parent =
      up (pos ∘ Equiv.swap i (parent i)) j := by
  have hlt := parent_lt hi
  have hp : parent i < n := by omega
  have hne := hs.parent_ne hi hin
  rw [swapNode, replace_parent]
  obtain ⟨he, hji⟩ | ⟨he, hji⟩ | ⟨he, hji, hjp, hjc, hjp'⟩ := hs.swap_cases hi hin hj
  · have hsibling : ¬(parent (parent i) = parent i ∧ 0 < parent i ∧ parent i ≠ i) := by
      rintro ⟨hself, hpos, -⟩
      have := parent_lt hpos
      omega
    rw [he, exchange_parent hne, hs.rights i hin, hs.lefts i hin, hji]
    simp only [hs.link_eq hp, hs.sibling_eq hi hin hp]
    rw [if_neg (by omega), if_neg (by omega), if_neg hsibling, if_neg hne, if_pos trivial, up, if_neg (by omega)]
    simp
  · rw [he, hs.exchange_top hi hin, hji, up_swap]
    intro hpos
    have := parent_lt hpos
    omega
  · rw [he, exchange_parent hne, hs.rights i hin, hs.lefts i hin, if_neg hjc, if_neg hjp']
    simp only [hs.link_eq hj, hs.sibling_eq hi hin hj]
    -- the children of the node, its sibling, and the others
    split_ifs with hright hleft hsibling
    · rw [up, if_neg (by omega), (parent_eq_iff (by omega)).mpr (.inr hright.symm)]
      simp
    · rw [up, if_neg (by omega), (parent_eq_iff (by omega)).mpr (.inl hleft.symm)]
      simp
    · rw [up, if_neg (by omega), hsibling.1]
      simp
    · rw [hs.parents j hj, up_swap]
      intro hpos
      refine ⟨?_, fun hsame => hsibling ⟨hsame, hpos, hji⟩⟩
      rw [Ne, parent_eq_iff hpos]
      omega

lemma Shape.swap_heap : ((m.swapNode h (pos (parent i)) (pos i)).node x).heap = (m.node x).heap := by
  have hlt := parent_lt hi
  have hheap (j : ℕ) (hj : j < n) : (m.node (pos j)).heap = some h := (hs.mem _).mpr ⟨j, hj, rfl⟩
  rw [swapNode, replace_heap, exchange_heap (hs.parent_ne hi hin), hheap i hin, hheap _ (by omega)]
  split_ifs with hx hx
  · rw [hx, hheap i hin]
  · rw [hx, hheap _ (by omega)]
  · rfl

lemma Shape.swap_min (g : H) : (m.swapNode h (pos (parent i)) (pos i)).min g =
    if g = h then link (pos ∘ Equiv.swap i (parent i)) n 0 else m.min g := by
  have hlt := parent_lt hi
  rw [swapNode, replace_min, hs.exchange_top hi hin, exchange_min]
  by_cases hp : parent i = 0
  · have hroot : link (pos ∘ Equiv.swap i (parent i)) n 0 = some (pos i) := by
      rw [link, if_pos (by omega), ← hp]
      simp
    rw [up, if_pos hp, if_pos rfl, Function.update_apply, hroot]
  · rw [up, if_neg hp, if_neg (Option.some_ne_none _), link_swap (by omega) (by omega), ← hs.root]
    split_ifs with hg
    · rw [hg]
    · rfl

theorem Shape.swap : Shape (m.swapNode h (pos (parent i)) (pos i)) h n (pos ∘ Equiv.swap i (parent i)) where
  size := by rw [swapNode, replace_size, exchange_size, hs.size]
  root := by rw [hs.swap_min hi hin, if_pos rfl]
  lefts _ hj := hs.swap_lefts hi hin hj
  rights _ hj := hs.swap_rights hi hin hj
  parents _ hj := hs.swap_parents hi hin hj
  mem x := by
    have hlt := parent_lt hi
    rw [hs.swap_heap hi hin, hs.mem]
    have hswap (j : ℕ) (hj : j < n) : Equiv.swap i (parent i) j < n := by
      rw [Equiv.swap_apply_def]
      split_ifs <;> omega
    constructor
    · rintro ⟨j, hj, rfl⟩
      exact ⟨Equiv.swap i (parent i) j, hswap j hj, by simp⟩
    · rintro ⟨j, hj, rfl⟩
      exact ⟨Equiv.swap i (parent i) j, hswap j hj, rfl⟩
  inj j hj k hk he := by
    have hlt := parent_lt hi
    have hswap (j : ℕ) (hj : j < n) : Equiv.swap i (parent i) j < n := by
      rw [Equiv.swap_apply_def]
      split_ifs <;> omega
    exact (Equiv.swap i (parent i)).injective (hs.inj _ (hswap j hj) _ (hswap k hk) he)

end Swap

end Simple.Containers.HeapRaw
