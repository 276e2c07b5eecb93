import Simple.Lib.Heap

/-! The timer queue of the scheduler: a binary heap of nodes by their time points, in which each node
knows its position. -/

namespace Simple.Containers

open Simple.Lib

/-- `heap` is read below `size`. A node with the index `none` has the largest `size_t`. -/
structure TimerQueue where
  heap : ℕ → ℕ := fun _ => 0
  size : ℕ := 0
  index : ℕ → Option ℕ := fun _ => none
  point : ℕ → ℤ := fun _ => 0

namespace TimerQueue

def pointAt (q : TimerQueue) (i : ℕ) : ℤ := q.point (q.heap i)

def swapHeap (q : TimerQueue) (index1 index2 : ℕ) : TimerQueue :=
  { q with
    heap := q.heap ∘ Equiv.swap index1 index2
    index := Function.update (Function.update q.index (q.heap index2) (some index1))
      (q.heap index1) (some index2) }

/-- The loops of `up_heap`, `down_heap` and `get_ready_timers` have a bound on their rounds, which
they do not reach. -/
def upLoop : ℕ → TimerQueue → ℕ → TimerQueue
  | 0, q, _ => q
  | fuel + 1, q, index =>
    if 0 < index then
      if q.pointAt index ≥ q.pointAt (Heap.parent index) then q
      else upLoop fuel (q.swapHeap index (Heap.parent index)) (Heap.parent index)
    else q

def upHeap (q : TimerQueue) (index : ℕ) : TimerQueue := upLoop index q index

def minChild (q : TimerQueue) (child : ℕ) : ℕ :=
  if child + 1 = q.size ∨ q.pointAt child < q.pointAt (child + 1) then child else child + 1

def downLoop : ℕ → TimerQueue → ℕ → TimerQueue
  | 0, q, _ => q
  | fuel + 1, q, index =>
    if index * 2 + 1 < q.size then
      let child := q.minChild (index * 2 + 1)
      if q.pointAt index < q.pointAt child then q
      else downLoop fuel (q.swapHeap index child) child
    else q

def downHeap (q : TimerQueue) (index : ℕ) : TimerQueue := downLoop q.size q index

def popBack (q : TimerQueue) (n : ℕ) : TimerQueue :=
  { q with index := Function.update q.index n none, size := q.size - 1 }

def remove (q : TimerQueue) (n : ℕ) : TimerQueue × Bool :=
  match q.index n with
  | none => (q, false)
  | some index =>
    if index < q.size then
      if index = q.size - 1 then (q.popBack n, true)
      else
        let q := (q.swapHeap index (q.size - 1)).popBack n
        if 0 < index ∧ q.pointAt index < q.pointAt (Heap.parent index) then (q.upHeap index, true)
        else (q.downHeap index, true)
    else (q, false)

/-- `push_back`, with a point that is not negative. -/
def pushBack (q : TimerQueue) (n : ℕ) : TimerQueue :=
  { heap := Function.update q.heap q.size n
    size := q.size + 1
    index := Function.update q.index n (some q.size)
    point := Function.update q.point n (max (q.point n) 0) }

def enqueue (q : TimerQueue) (n : ℕ) : TimerQueue :=
  if (q.index n).any (· < q.size) then q else (q.pushBack n).upHeap q.size

def readyLoop (now : ℤ) : ℕ → TimerQueue → TimerQueue × List ℕ
  | 0, q => (q, [])
  | fuel + 1, q =>
    if 0 < q.size ∧ now ≥ q.pointAt 0 then
      let rest := readyLoop now fuel (q.remove (q.heap 0)).1
      (rest.1, q.heap 0 :: rest.2)
    else (q, [])

def getReadyTimers (q : TimerQueue) (now : ℤ) : TimerQueue × List ℕ := readyLoop now q.size q

def Queued (q : TimerQueue) (n : ℕ) : Prop := (q.index n).isSome = true

structure Placed (q : TimerQueue) : Prop where
  placed : ∀ i < q.size, q.index (q.heap i) = some i
  found : ∀ n i, q.index n = some i → i < q.size ∧ q.heap i = n

structure Valid (q : TimerQueue) : Prop extends Placed q where
  ordered : Heap.Ordered q.pointAt q.size

structure Same (q r : TimerQueue) : Prop where
  size : r.size = q.size
  point : r.point = q.point
  queued : ∀ n, r.Queued n ↔ q.Queued n

variable {q r : TimerQueue} {i j n : ℕ}

lemma Same.refl (q : TimerQueue) : Same q q := ⟨rfl, rfl, fun _ => Iff.rfl⟩

lemma Same.trans {p : TimerQueue} (h : Same p q) (h' : Same q r) : Same p r :=
  ⟨h'.size.trans h.size, h'.point.trans h.point, fun n => (h'.queued n).trans (h.queued n)⟩

lemma Placed.inj (h : Placed q) (hi : i < q.size) (hj : j < q.size) (he : q.heap i = q.heap j) :
    i = j := by
  have hij : some i = some j := by rw [← h.placed i hi, ← h.placed j hj, he]
  exact Option.some.inj hij

lemma Placed.queued_iff (h : Placed q) : q.Queued n ↔ ∃ i < q.size, q.heap i = n := by
  rw [Queued, Option.isSome_iff_exists]
  constructor
  · rintro ⟨i, hi⟩
    exact ⟨i, h.found n i hi⟩
  · rintro ⟨i, hi, rfl⟩
    exact ⟨i, h.placed i hi⟩

@[simp] lemma pointAt_swapHeap : (q.swapHeap i j).pointAt = q.pointAt ∘ Equiv.swap i j := rfl

lemma index_swapHeap (h : Placed q) (hi : i < q.size) (hj : j < q.size) :
    (q.swapHeap i j).index n = (q.index n).map (Equiv.swap i j) := by
  simp only [swapHeap]
  by_cases hni : n = q.heap i
  · subst hni
    simp [h.placed i hi]
  by_cases hnj : n = q.heap j
  · subst hnj
    simp [hni, h.placed j hj]
  rw [Function.update_of_ne hni, Function.update_of_ne hnj]
  cases hn : q.index n with
  | none => rfl
  | some k =>
    obtain ⟨-, rfl⟩ := h.found n k hn
    have hki : k ≠ i := fun e => hni (by rw [e])
    have hkj : k ≠ j := fun e => hnj (by rw [e])
    simp [Equiv.swap_apply_of_ne_of_ne hki hkj]

lemma swap_lt {m : ℕ} (hi : i < m) (hj : j < m) {k : ℕ} (hk : k < m) : Equiv.swap i j k < m := by
  rw [Equiv.swap_apply_def]
  split_ifs <;> assumption

lemma Placed.swapHeap (h : Placed q) (hi : i < q.size) (hj : j < q.size) :
    Placed (q.swapHeap i j) := by
  refine ⟨?_, ?_⟩
  · intro k hk
    rw [index_swapHeap h hi hj]
    simp [TimerQueue.swapHeap, h.placed _ (swap_lt hi hj hk)]
  · intro m k hk
    rw [index_swapHeap h hi hj] at hk
    obtain ⟨l, hl, rfl⟩ := Option.map_eq_some_iff.mp hk
    obtain ⟨hlt, he⟩ := h.found m l hl
    exact ⟨swap_lt hi hj hlt, by simp [TimerQueue.swapHeap, he]⟩

lemma same_swapHeap (h : Placed q) (hi : i < q.size) (hj : j < q.size) :
    Same q (q.swapHeap i j) := by
  refine ⟨rfl, rfl, ?_⟩
  intro m
  rw [Queued, Queued, index_swapHeap h hi hj, Option.isSome_map]

lemma upLoop_spec {fuel : ℕ} (h : Placed q) (hi : i < q.size) (hf : i ≤ fuel)
    (ho : Heap.Hole q.pointAt q.size i) (hb : Heap.Below q.pointAt q.size i) :
    Valid (upLoop fuel q i) ∧ Same q (upLoop fuel q i) := by
  induction fuel generalizing q i with
  | zero =>
    obtain rfl : i = 0 := by omega
    exact ⟨⟨h, ho.ordered (fun h0 => absurd h0 (lt_irrefl 0)) hb⟩, Same.refl q⟩
  | succ fuel ih =>
    rw [upLoop]
    split_ifs with hpos hle
    · exact ⟨⟨h, ho.ordered (fun _ => hle) hb⟩, Same.refl q⟩
    · have hp := Heap.parent_lt hpos
      obtain ⟨ho', hb'⟩ := ho.up hpos hi (not_le.mp hle)
      have hsame := same_swapHeap h hi (hp.trans hi)
      obtain ⟨hv, hs⟩ := ih (h.swapHeap hi (hp.trans hi)) (hp.trans hi) (by omega) ho' hb'
      exact ⟨hv, hsame.trans hs⟩
    · exact ⟨⟨h, ho.ordered (fun h0 => absurd h0 hpos) hb⟩, Same.refl q⟩

lemma minChild_spec (hc : i * 2 + 1 < q.size) :
    0 < q.minChild (i * 2 + 1) ∧ q.minChild (i * 2 + 1) < q.size ∧
      Heap.parent (q.minChild (i * 2 + 1)) = i ∧
      ∀ k, 0 < k → k < q.size → Heap.parent k = i →
        q.pointAt (q.minChild (i * 2 + 1)) ≤ q.pointAt k := by
  rw [minChild]
  split_ifs with hm
  · refine ⟨by omega, hc, (Heap.parent_eq_iff (by omega)).mpr (by omega), ?_⟩
    intro k hk hks hp
    rcases (Heap.parent_eq_iff hk).mp hp with rfl | rfl
    · rw [mul_comm]
    · rcases hm with hm | hm
      · omega
      · rw [mul_comm] at hm ⊢
        exact hm.le
  · rw [not_or, not_lt] at hm
    refine ⟨by omega, by omega, (Heap.parent_eq_iff (by omega)).mpr (by omega), ?_⟩
    intro k hk hks hp
    rcases (Heap.parent_eq_iff hk).mp hp with rfl | rfl
    · rw [mul_comm 2]
      exact hm.2
    · rw [mul_comm]

lemma downLoop_spec {fuel : ℕ} (h : Placed q) (hi : i < q.size) (hf : q.size ≤ fuel + i)
    (ho : Heap.Hole q.pointAt q.size i) (ha : Heap.Above q.pointAt i) :
    Valid (downLoop fuel q i) ∧ Same q (downLoop fuel q i) := by
  induction fuel generalizing q i with
  | zero => omega
  | succ fuel ih =>
    simp only [downLoop]
    split_ifs with hc hlt
    · obtain ⟨-, -, -, hmin⟩ := minChild_spec hc
      exact ⟨⟨h, ho.ordered ha fun k hk hks hp => hlt.le.trans (hmin k hk hks hp)⟩, Same.refl q⟩
    · obtain ⟨hpos, hms, hp, hmin⟩ := minChild_spec hc
      have him := Heap.parent_lt hpos
      rw [hp] at him
      obtain ⟨ho', ha'⟩ := ho.down ha hpos hms hp hmin (not_lt.mp hlt)
      have hsame := same_swapHeap h hi hms
      obtain ⟨hv, hs⟩ := ih (h.swapHeap hi hms) hms
        (show q.size ≤ fuel + q.minChild (i * 2 + 1) by omega) ho' ha'
      exact ⟨hv, hsame.trans hs⟩
    · refine ⟨⟨h, ho.ordered ha ?_⟩, Same.refl q⟩
      intro k hk hks hp
      rcases (Heap.parent_eq_iff hk).mp hp with rfl | rfl <;> omega

lemma Placed.popBack (h : Placed q) (hs : 0 < q.size) (hn : q.heap (q.size - 1) = n) :
    Placed (q.popBack n) := by
  refine ⟨?_, ?_⟩
  · intro k hk
    simp only [TimerQueue.popBack] at hk ⊢
    have hne : q.heap k ≠ n := fun e => by
      have := h.inj (by omega) (by omega) (e.trans hn.symm)
      omega
    rw [Function.update_of_ne hne]
    exact h.placed k (by omega)
  · intro m k hk
    simp only [TimerQueue.popBack] at hk ⊢
    have hne : m ≠ n := fun e => by simp [e] at hk
    rw [Function.update_of_ne hne] at hk
    obtain ⟨hlt, rfl⟩ := h.found m k hk
    refine ⟨?_, rfl⟩
    have hk' : k ≠ q.size - 1 := fun e => hne (e ▸ hn)
    omega

lemma queued_popBack {m : ℕ} : (q.popBack n).Queued m ↔ q.Queued m ∧ m ≠ n := by
  by_cases hm : m = n <;> simp [Queued, popBack, hm]

structure Removed (q r : TimerQueue) (n : ℕ) : Prop extends Valid r where
  size : r.size + 1 = q.size
  point : r.point = q.point
  queued : ∀ m, r.Queued m ↔ q.Queued m ∧ m ≠ n

lemma Removed.of_same {p : TimerQueue} (hs : 0 < q.size) (hp : p.size = q.size - 1)
    (hpoint : p.point = q.point) (hq : ∀ m, p.Queued m ↔ q.Queued m ∧ m ≠ n)
    (h : Valid r ∧ Same p r) : Removed q r n where
  toValid := h.1
  size := by
    rw [h.2.size, hp]
    omega
  point := h.2.point.trans hpoint
  queued := fun m => (h.2.queued m).trans (hq m)

lemma Valid.remove (h : Valid q) (hn : q.Queued n) :
    (q.remove n).2 = true ∧ Removed q (q.remove n).1 n := by
  obtain ⟨i, hi⟩ := Option.isSome_iff_exists.mp hn
  obtain ⟨hlt, hheap⟩ := h.found n i hi
  have hpos : 0 < q.size := by omega
  simp only [TimerQueue.remove, hi, hlt, if_true]
  by_cases hlast : i = q.size - 1
  · rw [if_pos hlast]
    have hp := h.toPlaced.popBack hpos (hlast ▸ hheap)
    refine ⟨rfl, Removed.of_same (p := q.popBack n) hpos rfl rfl (fun m => queued_popBack)
      ⟨⟨hp, ?_⟩, Same.refl _⟩⟩
    intro k hk hks
    exact h.ordered k hk (lt_of_lt_of_le hks (Nat.sub_le _ _))
  · rw [if_neg hlast]
    have hend : q.size - 1 < q.size := by omega
    have hswap := h.toPlaced.swapHeap hlt hend
    have hsame := same_swapHeap h.toPlaced hlt hend
    have hp : Placed ((q.swapHeap i (q.size - 1)).popBack n) := by
      refine hswap.popBack hpos ?_
      simp [TimerQueue.swapHeap, hheap]
    have hil : i < q.size - 1 := by omega
    have hq : ∀ m, ((q.swapHeap i (q.size - 1)).popBack n).Queued m ↔ q.Queued m ∧ m ≠ n :=
      fun m => queued_popBack.trans (and_congr_left' (hsame.queued m))
    have ho : Heap.Hole ((q.swapHeap i (q.size - 1)).popBack n).pointAt (q.size - 1) i := by
      refine h.ordered.hole (Nat.sub_le _ _) hlt ?_ hil
      intro k hk hki
      have hkl : k ≠ q.size - 1 := by omega
      simp [pointAt, TimerQueue.popBack, TimerQueue.swapHeap, Equiv.swap_apply_of_ne_of_ne hki hkl]
    split_ifs with hup
    · have hspec := upLoop_spec hp hil le_rfl ho (ho.below_of_lt hup.1 hup.2)
      exact ⟨rfl, Removed.of_same (p := (q.swapHeap i (q.size - 1)).popBack n) hpos rfl rfl hq hspec⟩
    · refine ⟨rfl, Removed.of_same (p := (q.swapHeap i (q.size - 1)).popBack n) hpos rfl rfl hq
        (downLoop_spec hp hil ?_ ho ?_)⟩
      · exact Nat.le_add_right _ _
      · intro h0
        exact not_lt.mp fun e => hup ⟨h0, e⟩

lemma remove_of_not_queued (hn : ¬q.Queued n) : q.remove n = (q, false) := by
  have hi : q.index n = none := by simpa [Queued] using hn
  simp [TimerQueue.remove, hi]

lemma Placed.any_index (h : Placed q) : (q.index n).any (· < q.size) = true ↔ q.Queued n := by
  rw [Queued]
  cases hi : q.index n with
  | none => simp
  | some i => simp [(h.found n i hi).1]

lemma Valid.setPoint (h : Valid q) (hn : ¬q.Queued n) (p : ℤ) :
    Valid { q with point := Function.update q.point n p } := by
  refine ⟨⟨h.placed, h.found⟩, ?_⟩
  have hkey : ∀ k < q.size, pointAt { q with point := Function.update q.point n p } k = q.pointAt k := by
    intro k hk
    have hkn : q.heap k ≠ n := fun e => hn (h.queued_iff.mpr ⟨k, hk, e⟩)
    simp [pointAt, hkn]
  intro k hk hks
  rw [hkey k hks, hkey _ ((Heap.parent_lt hk).trans hks)]
  exact h.ordered k hk hks

lemma Placed.pushBack (h : Placed q) (hn : ¬q.Queued n) : Placed (q.pushBack n) := by
  refine ⟨?_, ?_⟩
  · intro k hk
    simp only [TimerQueue.pushBack] at hk ⊢
    rcases Nat.lt_succ_iff_lt_or_eq.mp hk with hk | rfl
    · have hkn : q.heap k ≠ n := fun e => hn (h.queued_iff.mpr ⟨k, hk, e⟩)
      rw [Function.update_of_ne hk.ne, Function.update_of_ne hkn]
      exact h.placed k hk
    · simp
  · intro m k hk
    simp only [TimerQueue.pushBack] at hk ⊢
    by_cases hm : m = n
    · subst hm
      obtain rfl : q.size = k := by simpa using hk
      simp
    · rw [Function.update_of_ne hm] at hk
      obtain ⟨hlt, he⟩ := h.found m k hk
      exact ⟨by omega, by rw [Function.update_of_ne hlt.ne, he]⟩

structure Enqueued (q r : TimerQueue) (n : ℕ) : Prop extends Valid r where
  size : r.size = q.size + 1
  point : r.point = Function.update q.point n (max (q.point n) 0)
  queued : ∀ m, r.Queued m ↔ q.Queued m ∨ m = n

lemma Valid.enqueue (h : Valid q) (hn : ¬q.Queued n) : Enqueued q (q.enqueue n) n := by
  rw [TimerQueue.enqueue, if_neg (fun e => hn (h.any_index.mp e))]
  have hkey : ∀ k < q.size, (q.pushBack n).pointAt k = q.pointAt k := by
    intro k hk
    have hkn : q.heap k ≠ n := fun e => hn (h.queued_iff.mpr ⟨k, hk, e⟩)
    simp [pointAt, TimerQueue.pushBack, hk.ne, hkn]
  obtain ⟨ho, hb⟩ := h.ordered.push hkey
  obtain ⟨hv, hs⟩ := upLoop_spec (h.toPlaced.pushBack hn) (Nat.lt_succ_self q.size) le_rfl ho hb
  refine ⟨hv, hs.size, hs.point, ?_⟩
  intro m
  refine (hs.queued m).trans ?_
  by_cases hm : m = n <;> simp [Queued, TimerQueue.pushBack, hm]

structure Ready (q r : TimerQueue) (now : ℤ) (ns : List ℕ) : Prop extends Valid r where
  point : r.point = q.point
  nodup : ns.Nodup
  mem : ∀ n, n ∈ ns ↔ q.Queued n ∧ q.point n ≤ now
  queued : ∀ n, r.Queued n ↔ q.Queued n ∧ now < q.point n

lemma Valid.readyLoop {now : ℤ} {fuel : ℕ} (h : Valid q) (hf : q.size ≤ fuel) :
    Ready q (readyLoop now fuel q).1 now (readyLoop now fuel q).2 := by
  induction fuel generalizing q with
  | zero =>
    have hnone : ∀ n, ¬q.Queued n := by
      intro n hn
      obtain ⟨i, hi, -⟩ := h.queued_iff.mp hn
      omega
    exact ⟨h, rfl, List.nodup_nil, by simp [hnone, TimerQueue.readyLoop],
      by simp [hnone, TimerQueue.readyLoop]⟩
  | succ fuel ih =>
    simp only [TimerQueue.readyLoop]
    split_ifs with hc
    · obtain ⟨hpos, hle⟩ := hc
      have hroot : q.Queued (q.heap 0) := h.queued_iff.mpr ⟨0, hpos, rfl⟩
      obtain ⟨-, hrem⟩ := h.remove hroot
      have hsize := hrem.size
      have hrest := ih hrem.toValid (by omega)
      refine ⟨hrest.toValid, hrest.point.trans hrem.point, ?_, ?_, ?_⟩
      · refine List.nodup_cons.mpr ⟨?_, hrest.nodup⟩
        intro e
        exact (((hrem.queued _).mp ((hrest.mem _).mp e).1).2) rfl
      · intro n
        rw [List.mem_cons, hrest.mem, hrem.queued, hrem.point]
        by_cases hn : n = q.heap 0
        · subst hn
          simpa [hroot, pointAt] using hle
        · simp [hn]
      · intro n
        rw [hrest.queued, hrem.queued, hrem.point]
        by_cases hn : n = q.heap 0
        · subst hn
          simpa [hroot, pointAt] using hle
        · simp [hn]
    · have hlate : ∀ n, q.Queued n → now < q.point n := by
        intro n hn
        obtain ⟨i, hi, rfl⟩ := h.queued_iff.mp hn
        have hroot : now < q.pointAt 0 := by
          by_contra hle
          exact hc ⟨by omega, not_lt.mp hle⟩
        exact hroot.trans_le (h.ordered.root_le i hi)
      refine ⟨h, rfl, List.nodup_nil, ?_, ?_⟩
      · intro n
        simp only [List.not_mem_nil, false_iff, not_and, not_le]
        exact hlate n
      · intro n
        exact ⟨fun hn => ⟨hn, hlate n hn⟩, fun hn => hn.1⟩

lemma Valid.getReadyTimers (h : Valid q) (now : ℤ) :
    Ready q (q.getReadyTimers now).1 now (q.getReadyTimers now).2 := h.readyLoop le_rfl

lemma valid_empty (point : ℕ → ℤ) : Valid { point := point } where
  placed := by simp
  found := by simp
  ordered := by
    intro i _ hi
    exact absurd hi (Nat.not_lt_zero i)

end TimerQueue

end Simple.Containers
