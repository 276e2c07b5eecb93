import Simple.Containers.TimerRuns

/-! Nodes that `get_all_timers` hands back. They keep their positions, and a position is all that a
node is looked up by. -/

namespace Simple.Containers.TimerQueue

open Simple.Lib

def getAllTimers (q : TimerQueue) : TimerQueue × List ℕ := ({ q with size := 0 }, q.nodes)

namespace HandBack

variable {q r s : TimerQueue} {i j n : ℕ}

structure Agrees (q r : TimerQueue) : Prop where
  heap : r.heap = q.heap
  size : r.size = q.size
  point : r.point = q.point
  index : ∀ n ∈ q.nodes, r.index n = q.index n

namespace Agrees

lemma nodes (h : Agrees q r) : r.nodes = q.nodes := by
  rw [TimerQueue.nodes, TimerQueue.nodes, h.heap, h.size]

lemma pointAt (h : Agrees q r) : r.pointAt = q.pointAt := by
  funext i
  rw [TimerQueue.pointAt, TimerQueue.pointAt, h.heap, h.point]

lemma swapHeap (h : Agrees q r) (hi : i < q.size) (hj : j < q.size) :
    Agrees (q.swapHeap i j) (r.swapHeap i j) where
  heap := congrArg (· ∘ Equiv.swap i j) h.heap
  size := h.size
  point := h.point
  index := by
    intro n hn
    obtain ⟨k, hk, rfl⟩ := mem_nodes.mp hn
    have hmem : (q.swapHeap i j).heap k ∈ q.nodes := mem_nodes.mpr ⟨_, swap_lt hi hj hk, rfl⟩
    simp only [TimerQueue.swapHeap, h.heap, Function.update_apply] at hmem ⊢
    split_ifs
    · rfl
    · rfl
    · exact h.index _ hmem

lemma upLoop {fuel : ℕ} (h : Agrees q r) (hi : i < q.size) :
    Agrees (upLoop fuel q i) (upLoop fuel r i) := by
  induction fuel generalizing q r i with
  | zero => exact h
  | succ fuel ih =>
    rw [TimerQueue.upLoop, TimerQueue.upLoop, h.pointAt]
    split_ifs with hpos hle
    · exact h
    · have hp := (Heap.parent_lt hpos).trans hi
      exact ih (h.swapHeap hi hp) hp
    · exact h

lemma minChild (h : Agrees q r) (i : ℕ) : r.minChild i = q.minChild i := by
  rw [TimerQueue.minChild, TimerQueue.minChild, h.size, h.pointAt]

lemma downLoop {fuel : ℕ} (h : Agrees q r) (hi : i < q.size) :
    Agrees (downLoop fuel q i) (downLoop fuel r i) := by
  induction fuel generalizing q r i with
  | zero => exact h
  | succ fuel ih =>
    simp only [TimerQueue.downLoop, h.size, h.minChild, h.pointAt]
    split_ifs with hc hlt
    · exact h
    · have hm := (minChild_spec hc).2.1
      exact ih (h.swapHeap hi hm) hm
    · exact h

lemma popBack (h : Agrees q r) (n : ℕ) : Agrees (q.popBack n) (r.popBack n) where
  heap := h.heap
  size := congrArg (· - 1) h.size
  point := h.point
  index := by
    intro m hm
    obtain ⟨k, hk, rfl⟩ := mem_nodes.mp hm
    have hmem : q.heap k ∈ q.nodes := mem_nodes.mpr ⟨k, lt_of_lt_of_le hk (Nat.sub_le _ _), rfl⟩
    simp only [TimerQueue.popBack, Function.update_apply]
    split_ifs
    · rfl
    · exact h.index _ hmem

lemma remove (h : Agrees q r) (hn : n ∈ q.nodes) :
    Agrees (q.remove n).1 (r.remove n).1 ∧ (r.remove n).2 = (q.remove n).2 := by
  rw [TimerQueue.remove, TimerQueue.remove, h.index n hn]
  cases q.index n with
  | none => exact ⟨h, rfl⟩
  | some i =>
    simp only [h.size]
    by_cases hi : i < q.size
    · by_cases hlast : i = q.size - 1
      · simp only [if_pos hi, if_pos hlast]
        exact ⟨h.popBack n, trivial⟩
      · have hend : q.size - 1 < q.size := by omega
        have hlt : i < q.size - 1 := by omega
        have hpop := (h.swapHeap hi hend).popBack n
        simp only [if_pos hi, if_neg hlast, hpop.pointAt]
        split_ifs
        · exact ⟨hpop.upLoop hlt, rfl⟩
        · rw [TimerQueue.downHeap, TimerQueue.downHeap, hpop.size]
          exact ⟨hpop.downLoop hlt, rfl⟩
    · simp only [if_neg hi]
      exact ⟨h, trivial⟩

lemma pushBack (h : Agrees q r) (n : ℕ) : Agrees (q.pushBack n) (r.pushBack n) where
  heap := by rw [TimerQueue.pushBack, TimerQueue.pushBack, h.heap, h.size]
  size := congrArg (· + 1) h.size
  point := by rw [TimerQueue.pushBack, TimerQueue.pushBack, h.point]
  index := by
    intro m hm
    by_cases hmn : m = n
    · subst hmn
      simp only [TimerQueue.pushBack, h.size, Function.update_self]
    · obtain ⟨k, hk, rfl⟩ := mem_nodes.mp hm
      have hks : k ≠ q.size := by
        rintro rfl
        exact hmn (Function.update_self ..)
      have hheap : (q.pushBack n).heap k = q.heap k := Function.update_of_ne hks ..
      have hlt : k < q.size := lt_of_le_of_ne (Nat.lt_succ_iff.mp hk) hks
      rw [hheap] at hmn ⊢
      simp only [TimerQueue.pushBack, Function.update_of_ne hmn]
      exact h.index _ (mem_nodes.mpr ⟨k, hlt, rfl⟩)

lemma enqueue (h : Agrees q r) (hq : ¬(q.index n).any (· < q.size) = true)
    (hr : ¬(r.index n).any (· < r.size) = true) : Agrees (q.enqueue n) (r.enqueue n) := by
  rw [TimerQueue.enqueue, TimerQueue.enqueue, if_neg hq, if_neg hr, TimerQueue.upHeap, TimerQueue.upHeap, h.size]
  exact (h.pushBack n).upLoop (Nat.lt_succ_self q.size)

lemma readyLoop {now : ℤ} {fuel : ℕ} (h : Agrees q r) :
    Agrees (readyLoop now fuel q).1 (readyLoop now fuel r).1 ∧
      (readyLoop now fuel r).2 = (readyLoop now fuel q).2 := by
  induction fuel generalizing q r with
  | zero => exact ⟨h, rfl⟩
  | succ fuel ih =>
    rw [TimerQueue.readyLoop, TimerQueue.readyLoop, h.size, h.pointAt, h.heap]
    split_ifs with hc
    · obtain ⟨hrest, heq⟩ := ih (h.remove (mem_nodes.mpr ⟨0, hc.1, rfl⟩)).1
      exact ⟨hrest, congrArg (q.heap 0 :: ·) heq⟩
    · exact ⟨h, rfl⟩

end Agrees

/-- A valid queue, but for what nodes that are not queued have as their positions. -/
def Stale (q : TimerQueue) : Prop := ∃ r, Valid r ∧ Agrees q r

lemma Stale.remove (h : Stale q) (hn : n ∈ q.nodes) : (q.remove n).2 = true ∧
    Stale (q.remove n).1 ∧ (q.remove n).1.size < q.size ∧ (q.remove n).1.nodes.Perm (q.nodes.erase n) := by
  obtain ⟨r, hr, ha⟩ := h
  have hqueued : r.Queued n := hr.mem_nodes.mp (ha.nodes ▸ hn)
  obtain ⟨htrue, hrem⟩ := hr.remove hqueued
  obtain ⟨har, heq⟩ := ha.remove hn
  obtain ⟨s, hs, hperm, -⟩ := hr.meets_remove n
  obtain rfl : (r.remove n).1 = s := congrArg Prod.fst (Option.some.inj ((checked_remove r n).symm.trans hs))
  refine ⟨heq.symm.trans htrue, ⟨_, hrem.toValid, har⟩, ?_, ?_⟩
  · have hsize := hrem.size
    rw [har.size, ha.size] at hsize
    omega
  · rwa [har.nodes, ha.nodes] at hperm

inductive Call
  | setPoint (n : ℕ) (point : ℤ)
  | enqueue (n : ℕ)
  | remove (n : ℕ)
  | getReadyTimers (now : ℤ)
  | getAllTimers

def call (q : TimerQueue) : Call → Option TimerQueue
  | .setPoint n point =>
    if n ∈ q.nodes then none else some { q with point := Function.update q.point n point }
  | .enqueue n => Checked.enqueue q n
  | .remove n => (Checked.remove q n).map Prod.fst
  | .getReadyTimers now => (Checked.getReadyTimers q now).map Prod.fst
  | .getAllTimers => some q.getAllTimers.1

def machine (point : ℕ → ℤ) : Machine TimerQueue Call where
  initial := { point := point }
  step := call

def Right (q : TimerQueue) : Call → Prop
  | .setPoint _ _ => True
  | .enqueue n => ∃ r, Checked.enqueue q n = some r ∧ (n ∈ q.nodes → r = q) ∧
      (n ∉ q.nodes → r.nodes.Perm (n :: q.nodes))
  | .remove n => ∃ r, Checked.remove q n = some (r, decide (n ∈ q.nodes)) ∧
      r.nodes.Perm (q.nodes.erase n) ∧ (n ∉ q.nodes → r = q)
  | .getReadyTimers now => ∃ r ns, Checked.getReadyTimers q now = some (r, ns) ∧
      (ns.Pairwise fun m n => q.point m ≤ q.point n) ∧
      ns.Perm (q.nodes.filter fun n => q.point n ≤ now) ∧
      r.nodes.Perm (q.nodes.filter fun n => now < q.point n)
  | .getAllTimers => ∃ r, q.getAllTimers = (r, q.nodes) ∧ r.nodes = []

def Apart (q : TimerQueue) (n : ℕ) : Prop := n ∉ q.nodes → ∀ i, q.index n = some i → q.size ≤ i

def Careful (q : TimerQueue) : Call → Prop
  | .enqueue n => Apart q n
  | .remove n => Apart q n
  | _ => True

lemma Stale.checked_getReadyTimers (h : Stale q) (now : ℤ) :
    Checked.getReadyTimers q now = some (q.getReadyTimers now) := by
  refine checked_readyLoop_of (I := Stale) ?_ h le_rfl
  intro q h hpos
  obtain ⟨-, hstale, hsize, -⟩ := h.remove (mem_nodes.mpr ⟨0, hpos, rfl⟩)
  exact ⟨hstale, hsize⟩

lemma remove_of_apart (h : Apart q n) (hn : n ∉ q.nodes) : q.remove n = (q, false) := by
  rw [TimerQueue.remove]
  cases hi : q.index n with
  | none => rfl
  | some i => exact if_neg (Nat.not_lt.mpr (h hn i hi))

lemma any_of_apart (h : Apart q n) (hn : n ∉ q.nodes) : ¬(q.index n).any (· < q.size) = true := by
  cases hi : q.index n with
  | none => simp
  | some i => simpa using h hn i hi

lemma Stale.any_of_mem (h : Stale q) (hn : n ∈ q.nodes) : (q.index n).any (· < q.size) = true := by
  obtain ⟨r, hr, ha⟩ := h
  rw [← ha.index n hn, ← ha.size]
  exact hr.any_index.mpr (hr.mem_nodes.mp (ha.nodes ▸ hn))

lemma Stale.enqueue (h : Stale q) (hq : Apart q n) (hn : n ∉ q.nodes) :
    Stale (q.enqueue n) ∧ (q.enqueue n).nodes.Perm (n :: q.nodes) := by
  obtain ⟨r, hr, ha⟩ := h
  have hnot : ¬r.Queued n := fun hqueued => hn (ha.nodes ▸ hr.mem_nodes.mpr hqueued)
  have hae := ha.enqueue (any_of_apart hq hn) fun hany => hnot (hr.any_index.mp hany)
  obtain ⟨s, hs, -, hperm⟩ := hr.meets_enqueue n
  obtain rfl : r.enqueue n = s := Option.some.inj ((checked_enqueue r n).symm.trans hs)
  refine ⟨⟨_, (hr.enqueue hnot).toValid, hae⟩, ?_⟩
  have hnodes := (hperm fun hmem => hnot (hr.mem_nodes.mp hmem)).1
  rwa [hae.nodes, ha.nodes] at hnodes

lemma Stale.right (h : Stale q) {a : Call} (hc : Careful q a) : Right q a := by
  cases a with
  | setPoint n point => trivial
  | enqueue n =>
    refine ⟨_, checked_enqueue q n, ?_, fun hn => (h.enqueue hc hn).2⟩
    intro hn
    rw [TimerQueue.enqueue, if_pos (h.any_of_mem hn)]
  | remove n =>
    by_cases hn : n ∈ q.nodes
    · obtain ⟨htrue, -, -, hperm⟩ := h.remove hn
      refine ⟨(q.remove n).1, ?_, hperm, fun hn' => absurd hn hn'⟩
      rw [checked_remove, decide_eq_true hn, ← htrue]
    · refine ⟨q, ?_, ?_, fun _ => rfl⟩
      · rw [checked_remove, remove_of_apart hc hn, decide_eq_false hn]
      · rw [List.erase_of_not_mem hn]
  | getReadyTimers now =>
    refine ⟨(q.getReadyTimers now).1, (q.getReadyTimers now).2, h.checked_getReadyTimers now, ?_⟩
    obtain ⟨r, hr, ha⟩ := h
    obtain ⟨s, ns, hs, hsorted, hns, hnodes, -⟩ := hr.meets_ready now
    have heq : r.getReadyTimers now = (s, ns) :=
      Option.some.inj ((checked_readyLoop hr le_rfl).symm.trans hs)
    have hready : Agrees (q.getReadyTimers now).1 (r.getReadyTimers now).1 ∧
        (r.getReadyTimers now).2 = (q.getReadyTimers now).2 := by
      rw [TimerQueue.getReadyTimers, TimerQueue.getReadyTimers, ha.size]
      exact ha.readyLoop
    rw [heq] at hready
    rw [← hready.2, ← hready.1.nodes]
    rw [ha.nodes, ha.point] at hns hnodes
    rw [ha.point] at hsorted
    exact ⟨hsorted, hns, hnodes⟩
  | getAllTimers => exact ⟨_, rfl, rfl⟩

lemma careful_of_right {a : Call} (hr : Right q a) : Careful q a := by
  cases a with
  | setPoint n point => trivial
  | enqueue n =>
    intro hn i hi
    obtain ⟨r, hrun, -, hperm⟩ := hr
    by_contra hlt
    have hany : (q.index n).any (· < q.size) = true := by
      rw [hi]
      exact decide_eq_true (Nat.not_le.mp hlt)
    rw [checked_enqueue, TimerQueue.enqueue, if_pos hany] at hrun
    obtain rfl := Option.some.inj hrun
    have hlength := (hperm hn).length_eq
    simp at hlength
  | remove n =>
    intro hn i hi
    obtain ⟨r, hrun, -⟩ := hr
    by_contra hlt
    rw [checked_remove, decide_eq_false hn] at hrun
    have hfalse : (q.remove n).2 = false := congrArg Prod.snd (Option.some.inj hrun)
    rw [TimerQueue.remove, hi] at hfalse
    simp only [if_pos (Nat.not_le.mp hlt)] at hfalse
    split_ifs at hfalse
  | getReadyTimers now => trivial
  | getAllTimers => trivial

lemma Stale.setPoint (h : Stale q) (hn : n ∉ q.nodes) (p : ℤ) :
    Stale { q with point := Function.update q.point n p } := by
  obtain ⟨r, hr, ha⟩ := h
  have hnot : ¬r.Queued n := fun hqueued => hn (ha.nodes ▸ hr.mem_nodes.mpr hqueued)
  exact ⟨_, hr.setPoint hnot p, ha.heap, ha.size, by rw [ha.point], ha.index⟩

lemma Stale.getAllTimers (h : Stale q) : Stale q.getAllTimers.1 := by
  obtain ⟨r, -, ha⟩ := h
  refine ⟨{ r with size := 0, index := fun _ => none }, ⟨⟨?_, ?_⟩, ?_⟩, ha.heap, rfl, ha.point, ?_⟩
  · exact fun i hi => absurd hi (Nat.not_lt_zero i)
  · exact fun n i hi => by cases hi
  · exact fun i _ hi => absurd hi (Nat.not_lt_zero i)
  · exact fun n hn => absurd hn List.not_mem_nil

lemma stale_call {a : Call} (h : Stale q) (hc : Careful q a) (hs : call q a = some r) : Stale r := by
  cases a with
  | setPoint n p =>
    obtain ⟨hn, hs⟩ := Option.ite_none_left_eq_some.mp hs
    obtain rfl := Option.some.inj hs
    exact h.setPoint hn p
  | enqueue n =>
    obtain rfl := Option.some.inj ((checked_enqueue q n).symm.trans hs)
    by_cases hn : n ∈ q.nodes
    · rwa [TimerQueue.enqueue, if_pos (h.any_of_mem hn)]
    · exact (h.enqueue hc hn).1
  | remove n =>
    simp only [call, checked_remove, Option.map_some] at hs
    obtain rfl := Option.some.inj hs
    by_cases hn : n ∈ q.nodes
    · exact (h.remove hn).2.1
    · rwa [remove_of_apart hc hn]
  | getReadyTimers now =>
    simp only [call, h.checked_getReadyTimers, Option.map_some] at hs
    obtain rfl := Option.some.inj hs
    obtain ⟨r, hr, ha⟩ := h
    refine ⟨_, (hr.getReadyTimers now).toValid, ?_⟩
    rw [TimerQueue.getReadyTimers, TimerQueue.getReadyTimers, ha.size]
    exact ha.readyLoop.1
  | getAllTimers =>
    obtain rfl := Option.some.inj hs
    exact h.getAllTimers

lemma stale_initial (point : ℕ → ℤ) : Stale (machine point).initial :=
  ⟨_, valid_empty point, rfl, rfl, rfl, fun _ _ => rfl⟩

theorem handBack_right_iff (point : ℕ → ℤ) (calls : List Call) :
    (machine point).Along Right (machine point).initial calls ↔
      (machine point).Along Careful (machine point).initial calls :=
  (Machine.along_congr_of_kept (fun _ _ _ => stale_call)
    (fun _ _ h => ⟨h.right, careful_of_right⟩) (stale_initial point)).symm

def handedBack : List Call := [.enqueue 0, .getAllTimers, .enqueue 1]

/-- The node that was handed back is removed, and the other node is gone. -/
theorem handedBack_remove : ∃ q, (machine fun _ => 0).run (machine fun _ => 0).initial handedBack = some q ∧
    q.nodes = [1] ∧ (q.remove 0).2 = true ∧ (q.remove 0).1.nodes = [] ∧ ¬Right q (.remove 0) := by
  refine ⟨_, rfl, rfl, rfl, rfl, ?_⟩
  rintro ⟨r, hr, -⟩
  cases congrArg Prod.snd (Option.some.inj hr)

end HandBack

end Simple.Containers.TimerQueue
