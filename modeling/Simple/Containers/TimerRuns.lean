import Simple.Containers.TimerQueue
import Simple.Lib.Machine

/-! The timer queue in any sequence of its calls. Here a read past the end of `heap_` is no value, and
neither is a loop that has not ended when its bound is used up. -/

namespace Simple.Containers.TimerQueue

open Simple.Lib

namespace Checked

def read (q : TimerQueue) (i : ℕ) : Option ℤ := if i < q.size then some (q.pointAt i) else none

def node (q : TimerQueue) (i : ℕ) : Option ℕ := if i < q.size then some (q.heap i) else none

def swapHeap (q : TimerQueue) (index1 index2 : ℕ) : Option TimerQueue :=
  if index1 < q.size ∧ index2 < q.size then some (q.swapHeap index1 index2) else none

def upLoop : ℕ → TimerQueue → ℕ → Option TimerQueue
  | 0, q, index => if 0 < index then none else some q
  | fuel + 1, q, index =>
    if 0 < index then do
      let point ← read q index
      let above ← read q (Heap.parent index)
      if point ≥ above then some q
      else
        let q ← swapHeap q index (Heap.parent index)
        upLoop fuel q (Heap.parent index)
    else some q

def upHeap (q : TimerQueue) (index : ℕ) : Option TimerQueue := upLoop index q index

def minChild (q : TimerQueue) (child : ℕ) : Option ℕ :=
  if child + 1 = q.size then some child
  else do
    let left ← read q child
    let right ← read q (child + 1)
    if left < right then some child else some (child + 1)

def downLoop : ℕ → TimerQueue → ℕ → Option TimerQueue
  | 0, q, index => if index * 2 + 1 < q.size then none else some q
  | fuel + 1, q, index =>
    if index * 2 + 1 < q.size then do
      let child ← minChild q (index * 2 + 1)
      let point ← read q index
      let below ← read q child
      if point < below then some q
      else
        let q ← swapHeap q index child
        downLoop fuel q child
    else some q

def downHeap (q : TimerQueue) (index : ℕ) : Option TimerQueue := downLoop q.size q index

def goesUp (q : TimerQueue) (index : ℕ) : Option Bool :=
  if 0 < index then do
    let point ← read q index
    let above ← read q (Heap.parent index)
    some (decide (point < above))
  else some false

def remove (q : TimerQueue) (n : ℕ) : Option (TimerQueue × Bool) :=
  match q.index n with
  | none => some (q, false)
  | some index =>
    if index < q.size then
      if index = q.size - 1 then some (q.popBack n, true)
      else do
        let q ← swapHeap q index (q.size - 1)
        let q := q.popBack n
        let up ← goesUp q index
        let q ← if up then upHeap q index else downHeap q index
        some (q, true)
    else some (q, false)

def enqueue (q : TimerQueue) (n : ℕ) : Option TimerQueue :=
  if (q.index n).any (· < q.size) then some q else upHeap (q.pushBack n) q.size

def readyLoop (now : ℤ) : ℕ → TimerQueue → Option (TimerQueue × List ℕ)
  | 0, q => if 0 < q.size then none else some (q, [])
  | fuel + 1, q =>
    if 0 < q.size then do
      let point ← read q 0
      if now ≥ point then
        let n ← node q 0
        let q ← remove q n
        let rest ← readyLoop now fuel q.1
        some (rest.1, n :: rest.2)
      else some (q, [])
    else some (q, [])

def getReadyTimers (q : TimerQueue) (now : ℤ) : Option (TimerQueue × List ℕ) :=
  readyLoop now q.size q

end Checked

/-- `none` is the longest duration. `point` and `now` are `int64_t`; neither is below 0, so that the
difference is one as well. -/
def waitDuration (q : TimerQueue) (now : ℤ) : Option ℤ :=
  if q.size = 0 then none else some (q.pointAt 0 - now)

variable {q r : TimerQueue} {i n : ℕ}

lemma checked_upLoop {fuel : ℕ} (hi : i < q.size) (hf : i ≤ fuel) :
    Checked.upLoop fuel q i = some (upLoop fuel q i) := by
  induction fuel generalizing q i with
  | zero =>
    obtain rfl : i = 0 := by omega
    rfl
  | succ fuel ih =>
    rw [Checked.upLoop, upLoop]
    by_cases hpos : 0 < i
    · have hp := Heap.parent_lt hpos
      rw [if_pos hpos, if_pos hpos]
      simp only [Checked.read, Checked.swapHeap, hi, hp.trans hi, and_self, if_true,
        Option.bind_eq_bind, Option.bind_some]
      split_ifs with hle
      · rfl
      · exact ih (hp.trans hi) (by omega)
    · rw [if_neg hpos, if_neg hpos]

lemma checked_minChild (hc : i + 1 ≤ q.size) : Checked.minChild q i = some (q.minChild i) := by
  rw [Checked.minChild, minChild]
  by_cases hlast : i + 1 = q.size
  · rw [if_pos hlast, if_pos (.inl hlast)]
  · have hright : i + 1 < q.size := by omega
    simp only [Checked.read, hlast, if_false, hright, Nat.lt_of_succ_le hc, if_true, false_or,
      Option.bind_eq_bind, Option.bind_some]
    split_ifs <;> rfl

lemma checked_downLoop {fuel : ℕ} (hi : i < q.size) (hf : q.size ≤ fuel + i) :
    Checked.downLoop fuel q i = some (downLoop fuel q i) := by
  induction fuel generalizing q i with
  | zero => omega
  | succ fuel ih =>
    rw [Checked.downLoop, downLoop]
    by_cases hc : i * 2 + 1 < q.size
    · obtain ⟨-, hms, hp, -⟩ := minChild_spec hc
      have hlt : i < q.minChild (i * 2 + 1) := by
        rw [minChild]
        split_ifs <;> omega
      rw [if_pos hc, if_pos hc, checked_minChild hc]
      simp only [Checked.read, Checked.swapHeap, hi, hms, and_self, if_true, Option.bind_eq_bind,
        Option.bind_some]
      split_ifs with hle
      · rfl
      · exact ih hms (show q.size ≤ fuel + q.minChild (i * 2 + 1) by omega)
    · rw [if_neg hc, if_neg hc]

lemma checked_goesUp (hi : i < q.size) :
    Checked.goesUp q i = some (decide (0 < i ∧ q.pointAt i < q.pointAt (Heap.parent i))) := by
  rw [Checked.goesUp]
  by_cases hpos : 0 < i
  · simp only [Checked.read, hpos, hi, (Heap.parent_lt hpos).trans hi, if_true, true_and,
      Option.bind_eq_bind, Option.bind_some]
  · simp [hpos]

lemma checked_remove (q : TimerQueue) (n : ℕ) : Checked.remove q n = some (q.remove n) := by
  rw [Checked.remove, TimerQueue.remove]
  cases hn : q.index n with
  | none => rfl
  | some i =>
    simp only
    by_cases hlt : i < q.size
    · by_cases hlast : i = q.size - 1
      · rw [if_pos hlt, if_pos hlt, if_pos hlast, if_pos hlast]
      · have hend : q.size - 1 < q.size := by omega
        have hi : i < ((q.swapHeap i (q.size - 1)).popBack n).size :=
          show i < q.size - 1 by omega
        rw [if_pos hlt, if_pos hlt, if_neg hlast, if_neg hlast, Checked.swapHeap,
          if_pos ⟨hlt, hend⟩, Option.bind_eq_bind, Option.bind_some]
        simp only [checked_goesUp hi, Option.bind_eq_bind, Option.bind_some, decide_eq_true_eq]
        by_cases hup : 0 < i ∧ ((q.swapHeap i (q.size - 1)).popBack n).pointAt i <
            ((q.swapHeap i (q.size - 1)).popBack n).pointAt (Heap.parent i)
        · rw [if_pos hup, if_pos hup, Checked.upHeap, checked_upLoop hi le_rfl]
          rfl
        · rw [if_neg hup, if_neg hup, Checked.downHeap, checked_downLoop hi (Nat.le_add_right _ _)]
          rfl
    · rw [if_neg hlt, if_neg hlt]

lemma checked_enqueue (q : TimerQueue) (n : ℕ) : Checked.enqueue q n = some (q.enqueue n) := by
  rw [Checked.enqueue, TimerQueue.enqueue]
  split_ifs with hqueued
  · rfl
  · have hi : q.size < (q.pushBack n).size := Nat.lt_succ_self q.size
    exact checked_upLoop hi le_rfl

lemma checked_readyLoop_of {I : TimerQueue → Prop} {now : ℤ} {fuel : ℕ}
    (hI : ∀ q, I q → 0 < q.size → I (q.remove (q.heap 0)).1 ∧ (q.remove (q.heap 0)).1.size < q.size)
    (h : I q) (hf : q.size ≤ fuel) :
    Checked.readyLoop now fuel q = some (readyLoop now fuel q) := by
  induction fuel generalizing q with
  | zero =>
    have hempty : ¬0 < q.size := by omega
    rw [Checked.readyLoop, if_neg hempty]
    rfl
  | succ fuel ih =>
    rw [Checked.readyLoop, readyLoop]
    by_cases hpos : 0 < q.size
    · by_cases hnow : now ≥ q.pointAt 0
      · obtain ⟨hnext, hsize⟩ := hI q h hpos
        have hrest := ih hnext (by omega)
        simp only [Checked.read, Checked.node, hpos, hnow, and_self, if_true, checked_remove,
          Option.bind_eq_bind, Option.bind_some, hrest]
      · simp only [Checked.read, hpos, hnow, and_false, if_true, if_false, Option.bind_eq_bind,
          Option.bind_some]
    · simp only [hpos, false_and, if_false]

lemma checked_readyLoop {now : ℤ} {fuel : ℕ} (h : Valid q) (hf : q.size ≤ fuel) :
    Checked.readyLoop now fuel q = some (readyLoop now fuel q) := by
  refine checked_readyLoop_of (I := Valid) ?_ h hf
  intro q h hpos
  obtain ⟨-, hrem⟩ := h.remove (h.queued_iff.mpr ⟨0, hpos, rfl⟩)
  exact ⟨hrem.toValid, Nat.lt_of_succ_le hrem.size.le⟩

def nodes (q : TimerQueue) : List ℕ := (List.range q.size).map q.heap

lemma mem_nodes : n ∈ q.nodes ↔ ∃ i < q.size, q.heap i = n := by
  simp [nodes]

lemma Placed.mem_nodes (h : Placed q) : n ∈ q.nodes ↔ q.Queued n :=
  TimerQueue.mem_nodes.trans h.queued_iff.symm

lemma Placed.nodup (h : Placed q) : q.nodes.Nodup := by
  refine List.Nodup.map_on ?_ List.nodup_range
  intro i hi j hj he
  exact h.inj (List.mem_range.mp hi) (List.mem_range.mp hj) he

lemma readyLoop_sorted {now : ℤ} {fuel : ℕ} (h : Valid q) (hf : q.size ≤ fuel) :
    (readyLoop now fuel q).2.Pairwise fun m n => q.point m ≤ q.point n := by
  induction fuel generalizing q with
  | zero => exact List.Pairwise.nil
  | succ fuel ih =>
    rw [readyLoop]
    split_ifs with hc
    · have hroot : q.Queued (q.heap 0) := h.queued_iff.mpr ⟨0, hc.1, rfl⟩
      obtain ⟨-, hrem⟩ := h.remove hroot
      have hsize := hrem.size
      have hrest := ih hrem.toValid (by omega)
      rw [hrem.point] at hrest
      refine List.pairwise_cons.mpr ⟨?_, hrest⟩
      intro n hn
      have hready : Ready _ _ now _ := hrem.toValid.readyLoop (show _ ≤ fuel by omega)
      obtain ⟨i, hi, rfl⟩ := h.queued_iff.mp ((hrem.queued n).mp ((hready.mem n).mp hn).1).1
      exact h.ordered.root_le i hi
    · exact List.Pairwise.nil

lemma nodes_perm {ns : List ℕ} (h : Placed r) (hns : ns.Nodup)
    (hmem : ∀ m, r.Queued m ↔ m ∈ ns) : r.nodes.Perm ns := by
  refine (List.perm_ext_iff_of_nodup h.nodup hns).mpr ?_
  intro m
  rw [h.mem_nodes]
  exact hmem m

/-- The point of a node changes only while it is not queued. -/
inductive Call
  | setPoint (n : ℕ) (point : ℤ)
  | enqueue (n : ℕ)
  | remove (n : ℕ)
  | getReadyTimers (now : ℤ)

def call (q : TimerQueue) : Call → Option TimerQueue
  | .setPoint n point =>
    if (q.index n).isSome then none else some { q with point := Function.update q.point n point }
  | .enqueue n => Checked.enqueue q n
  | .remove n => (Checked.remove q n).map Prod.fst
  | .getReadyTimers now => (Checked.getReadyTimers q now).map Prod.fst

def machine (point : ℕ → ℤ) : Machine TimerQueue Call where
  initial := { point := point }
  step := call

lemma enqueue_of_queued (h : Placed q) (hn : q.Queued n) : q.enqueue n = q := by
  rw [TimerQueue.enqueue, if_pos (h.any_index.mpr hn)]

lemma call_valid {point : ℕ → ℤ} (a : Call) (h : Valid q) (hs : (machine point).step q a = some r) :
    Valid r := by
  cases a with
  | setPoint n p =>
    simp only [machine, call] at hs
    split_ifs at hs with hn
    obtain rfl := Option.some.inj hs
    exact h.setPoint hn p
  | enqueue n =>
    simp only [machine, call, checked_enqueue] at hs
    obtain rfl := Option.some.inj hs
    by_cases hn : q.Queued n
    · rw [enqueue_of_queued h.toPlaced hn]
      exact h
    · exact (h.enqueue hn).toValid
  | remove n =>
    simp only [machine, call, checked_remove, Option.map_some] at hs
    obtain rfl := Option.some.inj hs
    by_cases hn : q.Queued n
    · exact (h.remove hn).2.toValid
    · rw [remove_of_not_queued hn]
      exact h
  | getReadyTimers now =>
    simp only [machine, call, Checked.getReadyTimers, checked_readyLoop h le_rfl,
      Option.map_some] at hs
    obtain rfl := Option.some.inj hs
    exact (h.getReadyTimers now).toValid

/-- A heap whose nodes know their positions, and what each call does to it next. -/
structure Meets (q : TimerQueue) : Prop where
  heap : ∀ i, 0 < i → i < q.size → q.pointAt ((i - 1) / 2) ≤ q.pointAt i
  index : ∀ i < q.size, q.index (q.heap i) = some i
  free : ∀ n, n ∉ q.nodes → q.index n = none
  enqueue : ∀ n, ∃ r, Checked.enqueue q n = some r ∧ (n ∈ q.nodes → r = q) ∧
    (n ∉ q.nodes → r.nodes.Perm (n :: q.nodes) ∧
      r.point = Function.update q.point n (max (q.point n) 0))
  remove : ∀ n, ∃ r, Checked.remove q n = some (r, decide (n ∈ q.nodes)) ∧
    r.nodes.Perm (q.nodes.erase n) ∧ r.point = q.point
  ready : ∀ now, ∃ r ns, Checked.getReadyTimers q now = some (r, ns) ∧
    (ns.Pairwise fun m n => q.point m ≤ q.point n) ∧
    ns.Perm (q.nodes.filter fun n => q.point n ≤ now) ∧
    r.nodes.Perm (q.nodes.filter fun n => now < q.point n) ∧ r.point = q.point
  wait : ∀ now, (q.waitDuration now = none ↔ q.nodes = []) ∧
    ∀ d, q.waitDuration now = some d → IsLeast {p | ∃ n ∈ q.nodes, q.point n = p} (now + d)

lemma Valid.meets_enqueue (h : Valid q) (n : ℕ) : ∃ r, Checked.enqueue q n = some r ∧
    (n ∈ q.nodes → r = q) ∧ (n ∉ q.nodes → r.nodes.Perm (n :: q.nodes) ∧
      r.point = Function.update q.point n (max (q.point n) 0)) := by
  refine ⟨_, checked_enqueue q n, ?_, ?_⟩
  · intro hn
    exact enqueue_of_queued h.toPlaced (h.mem_nodes.mp hn)
  · intro hn
    have henq := h.enqueue fun hq => hn (h.mem_nodes.mpr hq)
    refine ⟨nodes_perm henq.toPlaced (List.nodup_cons.mpr ⟨hn, h.nodup⟩) ?_, henq.point⟩
    intro m
    rw [henq.queued, List.mem_cons, h.mem_nodes, or_comm]

lemma Valid.meets_remove (h : Valid q) (n : ℕ) :
    ∃ r, Checked.remove q n = some (r, decide (n ∈ q.nodes)) ∧ r.nodes.Perm (q.nodes.erase n) ∧
      r.point = q.point := by
  by_cases hn : q.Queued n
  · obtain ⟨htrue, hrem⟩ := h.remove hn
    refine ⟨(q.remove n).1, ?_, ?_, hrem.point⟩
    · rw [checked_remove, decide_eq_true (h.mem_nodes.mpr hn), ← htrue]
    · refine nodes_perm hrem.toPlaced (h.nodup.erase n) ?_
      intro m
      rw [hrem.queued, h.nodup.mem_erase_iff, h.mem_nodes, and_comm]
  · have hmem : n ∉ q.nodes := fun hq => hn (h.mem_nodes.mp hq)
    refine ⟨q, ?_, ?_, rfl⟩
    · rw [checked_remove, remove_of_not_queued hn, decide_eq_false hmem]
    · rw [List.erase_of_not_mem hmem]

lemma Valid.meets_ready (h : Valid q) (now : ℤ) :
    ∃ r ns, Checked.getReadyTimers q now = some (r, ns) ∧
      (ns.Pairwise fun m n => q.point m ≤ q.point n) ∧
      ns.Perm (q.nodes.filter fun n => q.point n ≤ now) ∧
      r.nodes.Perm (q.nodes.filter fun n => now < q.point n) ∧ r.point = q.point := by
  have hready := h.getReadyTimers now
  refine ⟨_, _, checked_readyLoop h le_rfl, readyLoop_sorted h le_rfl, ?_, ?_, hready.point⟩
  · refine (List.perm_ext_iff_of_nodup hready.nodup (h.nodup.filter _)).mpr ?_
    intro n
    rw [List.mem_filter, h.mem_nodes, decide_eq_true_iff]
    exact hready.mem n
  · refine nodes_perm hready.toPlaced (h.nodup.filter _) ?_
    intro n
    rw [List.mem_filter, h.mem_nodes, decide_eq_true_iff]
    exact hready.queued n

lemma Valid.meets_wait (h : Valid q) (now : ℤ) : (q.waitDuration now = none ↔ q.nodes = []) ∧
    ∀ d, q.waitDuration now = some d → IsLeast {p | ∃ n ∈ q.nodes, q.point n = p} (now + d) := by
  rw [waitDuration]
  by_cases hsize : q.size = 0
  · simp [hsize, nodes]
  · refine ⟨by simp [hsize, nodes], ?_⟩
    intro d hd
    rw [if_neg hsize, Option.some.injEq] at hd
    have hleast : now + d = q.pointAt 0 := by omega
    rw [hleast]
    refine ⟨⟨q.heap 0, TimerQueue.mem_nodes.mpr ⟨0, by omega, rfl⟩, rfl⟩, ?_⟩
    rintro p ⟨n, hn, rfl⟩
    obtain ⟨i, hi, rfl⟩ := TimerQueue.mem_nodes.mp hn
    exact h.ordered.root_le i hi

lemma Valid.meets (h : Valid q) : Meets q where
  heap := h.ordered
  index := h.placed
  free := by
    intro n hn
    have hqueued : ¬q.Queued n := fun hq => hn (h.mem_nodes.mpr hq)
    simpa [Queued] using hqueued
  enqueue := h.meets_enqueue
  remove := h.meets_remove
  ready := h.meets_ready
  wait := h.meets_wait

theorem calls_meet (point : ℕ → ℤ) (calls : List Call) :
    (machine point).Always Meets (machine point).initial calls :=
  Machine.always_of_along (fun _ h => Valid.meets h) (fun _ a _ h _ hs => call_valid a h hs)
    (valid_empty point) (Machine.along_true _ _)

end Simple.Containers.TimerQueue
