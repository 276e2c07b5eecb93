import Simple.Coro.Scheduler

/-! Where the suspended coroutines are: each one that is not yet scheduled stands in the list, heap,
set or map of what it waits for, and nowhere else. -/

namespace Simple.Lib.DList.Holds

variable {d : DList ℕ} {xs : List ℕ} {k : ℕ}

lemma hasAwaiter_iff (h : d.Holds xs) : Coro.Scheduler.hasAwaiter d k = true ↔ k ∈ xs := by
  constructor
  · intro ha
    by_contra hk
    obtain ⟨hnext, hprev⟩ := h.off k hk
    have hhead : d.header ≠ some k := fun e => hk (List.mem_of_head? (h.header ▸ e))
    simp [Coro.Scheduler.hasAwaiter, hnext, hprev, hhead] at ha
  · intro hk
    obtain ⟨l, r, rfl⟩ := List.append_of_mem hk
    obtain ⟨-, hprev⟩ := h.linked l k r rfl
    cases l using List.reverseRecOn with
    | nil => simp [Coro.Scheduler.hasAwaiter, h.header]
    | append_singleton l j => simp [Coro.Scheduler.hasAwaiter, hprev]

lemma eq_empty (h : d.Holds []) : d = {} := by
  obtain ⟨next, prev, header, tail⟩ := d
  have hoff : ∀ x, next x = none ∧ prev x = none := fun x => h.off x List.not_mem_nil
  have hheader : header = none := h.header
  have htail : tail = none := h.tail
  have hnext : next = fun _ => none := funext fun x => (hoff x).1
  have hprev : prev = fun _ => none := funext fun x => (hoff x).2
  rw [hnext, hprev, hheader, htail]

end Simple.Lib.DList.Holds

namespace Simple.Coro.Scheduler

open Simple.Lib Simple.Containers Simple.Gobang

variable {token : ℕ → Option ℕ} {pid : ℕ} {s t : Scheduler} {out out' : List ℕ} {j k : ℕ} {w : Wait}

/-- The suspensions that wait for `w`, but for those in `out`. -/
def waitingFor (s : Scheduler) (out : List ℕ) (w : Wait) : List ℕ :=
  (List.range s.size).filter fun k => s.awaited k = w ∧ k ∉ out

lemma mem_waitingFor : k ∈ s.waitingFor out w ↔ k < s.size ∧ s.awaited k = w ∧ k ∉ out := by
  simp [waitingFor]

lemma nodup_waitingFor : (s.waitingFor out w).Nodup := List.nodup_range.filter _

/-- The suspensions outside of `out` are where they wait. -/
structure Placed (s : Scheduler) (out : List ℕ) : Prop where
  conditionVariable : ∀ v, (s.conditionVariable v).Holds (s.waitingFor out (.conditionVariable v))
  timers : s.timers.Valid
  timer : ∀ k, s.timers.Queued k ↔ k < s.size ∧ k ∉ out ∧ ∃ p, s.awaited k = .timer p
  point : ∀ k < s.size, ∀ p, s.awaited k = .timer p → s.timers.point k = max p 0
  frames : ∀ f, (s.frameCoroutine f).Nodup
  frame : ∀ f k, k ∈ s.frameCoroutine f ↔ k ∈ s.waitingFor out (.frame f)
  session : ∀ x k, s.waitMap x = some k ↔ k ∈ s.waitingFor out (.session x)
  rpc : ∀ x k, s.rpcMap x = some k ↔
    ∃ r, k ∈ s.waitingFor out (.rpc r) ∧ s.rpcSession[r]? = some x

section Keep

variable (h : Placed s out)
include h

lemma Placed.keep_conditionVariable {v : ℕ} (hsame : t.conditionVariable v = s.conditionVariable v)
    (hkeep : t.waitingFor out' (.conditionVariable v) = s.waitingFor out (.conditionVariable v)) :
    (t.conditionVariable v).Holds (t.waitingFor out' (.conditionVariable v)) := by
  rw [hsame, hkeep]
  exact h.conditionVariable v

lemma Placed.keep_frame {f : ℕ} (hsame : t.frameCoroutine f = s.frameCoroutine f)
    (hkeep : t.waitingFor out' (.frame f) = s.waitingFor out (.frame f)) (k : ℕ) :
    k ∈ t.frameCoroutine f ↔ k ∈ t.waitingFor out' (.frame f) := by
  rw [hsame, hkeep]
  exact h.frame f k

lemma Placed.keep_session {x : ℕ} (hsame : t.waitMap x = s.waitMap x)
    (hkeep : t.waitingFor out' (.session x) = s.waitingFor out (.session x)) (k : ℕ) :
    t.waitMap x = some k ↔ k ∈ t.waitingFor out' (.session x) := by
  rw [hsame, hkeep]
  exact h.session x k

lemma Placed.keep_rpc (hsame : t.rpcMap = s.rpcMap) (hsession : t.rpcSession = s.rpcSession)
    (hkeep : ∀ r, t.waitingFor out' (.rpc r) = s.waitingFor out (.rpc r)) (x : UInt64) (k : ℕ) :
    t.rpcMap x = some k ↔ ∃ r, k ∈ t.waitingFor out' (.rpc r) ∧ t.rpcSession[r]? = some x := by
  rw [hsame, hsession]
  simp only [hkeep]
  exact h.rpc x k

end Keep

lemma waitingFor_congr (h : ∀ k, k ∈ out' ↔ k ∈ out) : s.waitingFor out' w = s.waitingFor out w := by
  simp only [waitingFor, h]

lemma Placed.congr (hp : Placed s out) (h : ∀ k, k ∈ out' ↔ k ∈ out) : Placed s out' where
  conditionVariable := fun _ => hp.keep_conditionVariable rfl (waitingFor_congr h)
  timers := hp.timers
  timer := by
    intro k
    rw [h]
    exact hp.timer k
  point := hp.point
  frames := hp.frames
  frame := fun _ => hp.keep_frame rfl (waitingFor_congr h)
  session := fun _ => hp.keep_session rfl (waitingFor_congr h)
  rpc := hp.keep_rpc rfl rfl fun _ => waitingFor_congr h

def leave (s : Scheduler) (k : ℕ) : Scheduler :=
  { s with
    conditionVariable := fun v => (s.conditionVariable v).unlink k
    timers := (s.timers.remove k).1
    frameCoroutine := fun f => (s.frameCoroutine f).erase k
    waitMap := fun x => if s.waitMap x = some k then none else s.waitMap x
    rpcMap := fun x => if s.rpcMap x = some k then none else s.rpcMap x }

lemma waitingFor_leave : (s.leave k).waitingFor (k :: out) w = (s.waitingFor out w).erase k := by
  rw [nodup_waitingFor.erase_eq_filter]
  simp only [waitingFor, leave, List.filter_filter]
  refine List.filter_congr ?_
  intro j _
  by_cases hj : j = k <;> simp [hj]

lemma mem_waitingFor_leave :
    j ∈ (s.leave k).waitingFor (k :: out) w ↔ j ∈ s.waitingFor out w ∧ j ≠ k := by
  rw [waitingFor_leave, nodup_waitingFor.mem_erase_iff, and_comm]

lemma Placed.leave (h : Placed s out) : Placed (s.leave k) (k :: out) where
  conditionVariable := by
    intro v
    rw [waitingFor_leave]
    exact (h.conditionVariable v).unlink
  timers := by
    by_cases hk : s.timers.Queued k
    · exact (h.timers.remove hk).2.toValid
    · simpa [Scheduler.leave, TimerQueue.remove_of_not_queued hk] using h.timers
  timer := by
    intro j
    have hqueued : (s.timers.remove k).1.Queued j ↔ s.timers.Queued j ∧ j ≠ k := by
      by_cases hk : s.timers.Queued k
      · exact (h.timers.remove hk).2.queued j
      · rw [TimerQueue.remove_of_not_queued hk]
        exact ⟨fun hj => ⟨hj, fun e => hk (e ▸ hj)⟩, fun hj => hj.1⟩
    refine hqueued.trans ?_
    rw [h.timer, List.mem_cons, not_or]
    exact ⟨fun e => ⟨e.1.1, ⟨e.2, e.1.2.1⟩, e.1.2.2⟩, fun e => ⟨⟨e.1, e.2.1.2, e.2.2⟩, e.2.1.1⟩⟩
  point := by
    intro j hj p hp
    have hpoint : (s.timers.remove k).1.point = s.timers.point := by
      by_cases hk : s.timers.Queued k
      · exact (h.timers.remove hk).2.point
      · rw [TimerQueue.remove_of_not_queued hk]
    exact (congrFun hpoint j).trans (h.point j hj p hp)
  frames := fun f => (h.frames f).erase k
  frame := by
    intro f j
    rw [mem_waitingFor_leave, ← h.frame]
    exact ((h.frames f).mem_erase_iff).trans and_comm
  session := by
    intro x j
    rw [mem_waitingFor_leave, ← h.session]
    simp only [Scheduler.leave]
    by_cases hx : s.waitMap x = some k
    · simp only [hx, if_true, reduceCtorEq, Option.some.injEq, false_iff, not_and, not_not]
      exact fun e => e.symm
    · simp only [hx, if_false]
      exact ⟨fun e => ⟨e, fun hj => hx (hj ▸ e)⟩, fun e => e.1⟩
  rpc := by
    intro x j
    simp only [mem_waitingFor_leave]
    have hrpc := h.rpc x j
    simp only [Scheduler.leave]
    by_cases hx : s.rpcMap x = some k
    · simp only [hx, if_true, reduceCtorEq, false_iff, not_exists]
      rintro r ⟨⟨hj, hjk⟩, hr⟩
      have hj' := hrpc.mpr ⟨r, hj, hr⟩
      exact hjk (Option.some.inj (hj'.symm.trans hx))
    · simp only [hx, if_false]
      rw [hrpc]
      constructor
      · rintro ⟨r, hj, hr⟩
        refine ⟨r, ⟨hj, ?_⟩, hr⟩
        rintro rfl
        exact hx (hrpc.mpr ⟨r, hj, hr⟩)
      · rintro ⟨r, ⟨hj, -⟩, hr⟩
        exact ⟨r, hj, hr⟩

section Elsewhere

variable (h : Placed s out)
include h

lemma Placed.unlink_of_ne {v : ℕ} (hw : s.awaited k ≠ .conditionVariable v) :
    (s.conditionVariable v).unlink k = s.conditionVariable v :=
  (h.conditionVariable v).unlink_of_not_mem fun hk => hw (mem_waitingFor.mp hk).2.1

lemma Placed.remove_of_ne (hw : ∀ p, s.awaited k ≠ .timer p) : s.timers.remove k = (s.timers, false) := by
  refine TimerQueue.remove_of_not_queued ?_
  intro hk
  obtain ⟨-, -, p, hp⟩ := (h.timer k).mp hk
  exact hw p hp

lemma Placed.erase_of_ne {f : ℕ} (hw : s.awaited k ≠ .frame f) :
    (s.frameCoroutine f).erase k = s.frameCoroutine f := by
  refine List.erase_of_not_mem ?_
  intro hk
  exact hw (mem_waitingFor.mp ((h.frame f k).mp hk)).2.1

lemma Placed.waitMap_ne {x : ℕ} (hw : s.awaited k ≠ .session x) : s.waitMap x ≠ some k :=
  fun hk => hw (mem_waitingFor.mp ((h.session x k).mp hk)).2.1

lemma Placed.rpcMap_ne {x : UInt64} (hw : ∀ r, s.awaited k = .rpc r → s.rpcSession[r]? ≠ some x) :
    s.rpcMap x ≠ some k := by
  intro hk
  obtain ⟨r, hr, hx⟩ := (h.rpc x k).mp hk
  exact hw r (mem_waitingFor.mp hr).2.1 hx

lemma Placed.leave_conditionVariable {v : ℕ} (hw : s.awaited k = .conditionVariable v) :
    s.leave k = s.removeAwaiter v k := by
  have hcv : (fun u => (s.conditionVariable u).unlink k) =
      Function.update s.conditionVariable v ((s.conditionVariable v).unlink k) := by
    funext u
    by_cases hu : u = v
    · subst hu
      simp
    · rw [Function.update_of_ne hu]
      exact h.unlink_of_ne (by simpa [hw] using Ne.symm hu)
  simp [Scheduler.leave, removeAwaiter, hcv, h.remove_of_ne (k := k) (by simp [hw]),
    h.erase_of_ne (k := k) (by simp [hw]), h.waitMap_ne (k := k) (by simp [hw]),
    h.rpcMap_ne (k := k) (by simp [hw])]

lemma Placed.leave_timer {p : ℤ} (hw : s.awaited k = .timer p) :
    s.leave k = { s with timers := (s.timers.remove k).1 } := by
  simp [Scheduler.leave, h.unlink_of_ne (k := k) (by simp [hw]),
    h.erase_of_ne (k := k) (by simp [hw]), h.waitMap_ne (k := k) (by simp [hw]),
    h.rpcMap_ne (k := k) (by simp [hw])]

lemma Placed.leave_frame {f : ℕ} (hw : s.awaited k = .frame f) :
    s.leave k = s.removeFrameCoroutine f k := by
  have hframe : (fun g => (s.frameCoroutine g).erase k) =
      Function.update s.frameCoroutine f ((s.frameCoroutine f).erase k) := by
    funext g
    by_cases hg : g = f
    · subst hg
      simp
    · rw [Function.update_of_ne hg]
      exact h.erase_of_ne (by simpa [hw] using Ne.symm hg)
  simp [Scheduler.leave, removeFrameCoroutine, hframe, h.unlink_of_ne (k := k) (by simp [hw]),
    h.remove_of_ne (k := k) (by simp [hw]), h.waitMap_ne (k := k) (by simp [hw]),
    h.rpcMap_ne (k := k) (by simp [hw])]

lemma Placed.leave_session {x : ℕ} (hx : s.waitMap x = some k) :
    s.leave k = { s with waitMap := Function.update s.waitMap x none } := by
  have hw := (mem_waitingFor.mp ((h.session x k).mp hx)).2.1
  have hmap : (fun y => if s.waitMap y = some k then none else s.waitMap y) =
      Function.update s.waitMap x none := by
    funext y
    by_cases hy : y = x
    · subst hy
      simp [hx]
    · rw [Function.update_of_ne hy, if_neg (h.waitMap_ne (by simpa [hw] using Ne.symm hy))]
  simp [Scheduler.leave, hmap, h.unlink_of_ne (k := k) (by simp [hw]),
    h.remove_of_ne (k := k) (by simp [hw]), h.erase_of_ne (k := k) (by simp [hw]),
    h.rpcMap_ne (k := k) (by simp [hw])]

lemma Placed.leave_rpc {x : UInt64} (hx : s.rpcMap x = some k) :
    s.leave k = { s with rpcMap := Function.update s.rpcMap x none } := by
  obtain ⟨r, hr, hrx⟩ := (h.rpc x k).mp hx
  have hw := (mem_waitingFor.mp hr).2.1
  have hmap : (fun y => if s.rpcMap y = some k then none else s.rpcMap y) =
      Function.update s.rpcMap x none := by
    funext y
    by_cases hy : y = x
    · subst hy
      simp [hx]
    · rw [Function.update_of_ne hy, if_neg (h.rpcMap_ne ?_)]
      intro r' hr' hy'
      obtain rfl : r = r' := by simpa [hw] using hr'
      exact hy (Option.some.inj (hy'.symm.trans hrx))
  simp [Scheduler.leave, hmap, h.unlink_of_ne (k := k) (by simp [hw]),
    h.remove_of_ne (k := k) (by simp [hw]), h.erase_of_ne (k := k) (by simp [hw]),
    h.waitMap_ne (k := k) (by simp [hw])]

end Elsewhere

variable {xs : List ℕ}

lemma waitingFor_append_of_ne {w' : Wait} (hxs : ∀ k ∈ xs, s.awaited k = w) (hw : w' ≠ w) :
    s.waitingFor (xs ++ out) w' = s.waitingFor out w' := by
  refine List.filter_congr ?_
  intro k _
  by_cases hk : s.awaited k = w'
  · have hnot : k ∉ xs := fun e => hw (hk.symm.trans (hxs k e))
    simp [hk, hnot]
  · simp [hk]

lemma waitingFor_append_self (hxs : ∀ k, k ∈ xs ↔ k ∈ s.waitingFor out w) :
    s.waitingFor (xs ++ out) w = [] := by
  refine List.filter_eq_nil_iff.mpr ?_
  intro k hk
  have hlt := List.mem_range.mp hk
  rw [decide_eq_true_eq]
  rintro ⟨hw, hn⟩
  rw [List.mem_append, not_or] at hn
  exact hn.1 ((hxs k).mpr (mem_waitingFor.mpr ⟨hlt, hw, hn.2⟩))

lemma Placed.timer_append (h : Placed s out) (hxs : ∀ k ∈ xs, s.awaited k = w)
    (hw : ∀ p, w ≠ .timer p) :
    s.timers.Queued k ↔ k < s.size ∧ k ∉ xs ++ out ∧ ∃ p, s.awaited k = .timer p := by
  rw [h.timer, List.mem_append, not_or]
  constructor
  · rintro ⟨hk, hn, p, hp⟩
    exact ⟨hk, ⟨fun e => hw p ((hxs k e).symm.trans hp), hn⟩, p, hp⟩
  · rintro ⟨hk, ⟨-, hn⟩, hp⟩
    exact ⟨hk, hn, hp⟩

lemma Placed.clearConditionVariable {v : ℕ} (h : Placed s out)
    (hxs : ∀ k, k ∈ xs ↔ k ∈ s.waitingFor out (.conditionVariable v)) :
    Placed { s with conditionVariable := Function.update s.conditionVariable v {} } (xs ++ out) := by
  have hw : ∀ k ∈ xs, s.awaited k = .conditionVariable v :=
    fun k hk => (mem_waitingFor.mp ((hxs k).mp hk)).2.1
  refine { h with
    conditionVariable := ?_
    timer := fun k => h.timer_append hw (by simp)
    frame := fun _ => h.keep_frame rfl (waitingFor_append_of_ne hw (by simp))
    session := fun _ => h.keep_session rfl (waitingFor_append_of_ne hw (by simp))
    rpc := h.keep_rpc rfl rfl fun _ => waitingFor_append_of_ne hw (by simp) }
  intro u
  by_cases hu : u = v
  · subst hu
    change (Function.update s.conditionVariable u {} u).Holds (s.waitingFor (xs ++ out) _)
    rw [waitingFor_append_self hxs, Function.update_self]
    exact DList.Holds.empty
  · exact h.keep_conditionVariable (Function.update_of_ne hu _ _)
      (waitingFor_append_of_ne hw (by simpa using hu))

lemma Placed.clearFrame {f : ℕ} (h : Placed s out)
    (hxs : ∀ k, k ∈ xs ↔ k ∈ s.waitingFor out (.frame f)) :
    Placed { s with frameCoroutine := Function.update s.frameCoroutine f [] } (xs ++ out) := by
  have hw : ∀ k ∈ xs, s.awaited k = .frame f :=
    fun k hk => (mem_waitingFor.mp ((hxs k).mp hk)).2.1
  refine { h with
    conditionVariable := fun _ => h.keep_conditionVariable rfl (waitingFor_append_of_ne hw (by simp))
    timer := fun k => h.timer_append hw (by simp)
    frames := ?_
    frame := ?_
    session := fun _ => h.keep_session rfl (waitingFor_append_of_ne hw (by simp))
    rpc := h.keep_rpc rfl rfl fun _ => waitingFor_append_of_ne hw (by simp) }
  · intro g
    by_cases hg : g = f
    · simp [hg]
    · simpa [hg] using h.frames g
  · intro g
    by_cases hg : g = f
    · subst hg
      intro k
      change k ∈ Function.update s.frameCoroutine g [] g ↔ k ∈ s.waitingFor (xs ++ out) _
      rw [waitingFor_append_self hxs, Function.update_self]
    · exact h.keep_frame (Function.update_of_ne hg _ _) (waitingFor_append_of_ne hw (by simpa using hg))

lemma Placed.readyTimers (h : Placed s out) (now : ℤ) :
    Placed { s with timers := (s.timers.getReadyTimers now).1 }
      ((s.timers.getReadyTimers now).2 ++ out) := by
  have hready := h.timers.getReadyTimers now
  have hw : ∀ k ∈ (s.timers.getReadyTimers now).2, ∃ p, s.awaited k = .timer p :=
    fun k hk => ((h.timer k).mp ((hready.mem k).mp hk).1).2.2
  have hkeep : ∀ w, (∀ p, w ≠ .timer p) →
      s.waitingFor ((s.timers.getReadyTimers now).2 ++ out) w = s.waitingFor out w := by
    intro w hne
    refine List.filter_congr ?_
    intro k _
    by_cases hk : s.awaited k = w
    · have hnot : k ∉ (s.timers.getReadyTimers now).2 := by
        intro e
        obtain ⟨p, hp⟩ := hw k e
        exact hne p (hk.symm.trans hp)
      simp [hk, hnot]
    · simp [hk]
  refine { h with
    conditionVariable := fun _ => h.keep_conditionVariable rfl (hkeep _ (by simp))
    timers := hready.toValid
    timer := ?_
    point := fun k hk p hp => (congrFun hready.point k).trans (h.point k hk p hp)
    frame := fun _ => h.keep_frame rfl (hkeep _ (by simp))
    session := fun _ => h.keep_session rfl (hkeep _ (by simp))
    rpc := h.keep_rpc rfl rfl fun _ => hkeep _ (by simp) }
  intro k
  refine (hready.queued k).trans ?_
  rw [List.mem_append, not_or, hready.mem, h.timer]
  constructor
  · rintro ⟨⟨hk, hn, hp⟩, hlate⟩
    exact ⟨hk, ⟨fun e => absurd e.2 (not_le.mpr hlate), hn⟩, hp⟩
  · rintro ⟨hk, ⟨hlate, hn⟩, hp⟩
    exact ⟨⟨hk, hn, hp⟩, not_le.mp fun e => hlate ⟨⟨hk, hn, hp⟩, e⟩⟩

section Enter

variable (hout : ∀ k ∈ out, k < s.size) (hsize : t.size = s.size + 1)
  (hawaited : t.awaited = Function.update s.awaited s.size w)
include hout hsize hawaited

lemma waitingFor_enter {w' : Wait} : t.waitingFor out w' =
    if w' = w then s.waitingFor out w' ++ [s.size] else s.waitingFor out w' := by
  have hold : (List.range s.size).filter (fun k => t.awaited k = w' ∧ k ∉ out) =
      s.waitingFor out w' := by
    refine List.filter_congr ?_
    intro k hk
    rw [hawaited, Function.update_of_ne (List.mem_range.mp hk).ne]
  have hnew : t.awaited s.size = w := by rw [hawaited, Function.update_self]
  have hnot : s.size ∉ out := fun e => absurd (hout _ e) (lt_irrefl _)
  rw [waitingFor, hsize, List.range_succ, List.filter_append, hold]
  by_cases hw : w' = w
  · simp [hw, hnew, hnot]
  · simp [hw, hnew, Ne.symm hw]

lemma mem_waitingFor_enter {w' : Wait} : k ∈ t.waitingFor out w' ↔
    k ∈ s.waitingFor out w' ∨ w' = w ∧ k = s.size := by
  rw [waitingFor_enter hout hsize hawaited]
  by_cases hw : w' = w <;> simp [hw]

omit hout in
lemma Placed.point_enter (h : Placed s out) (hw : ∀ p, w ≠ .timer p) (htimers : t.timers = s.timers) :
    ∀ k < t.size, ∀ p, t.awaited k = .timer p → t.timers.point k = max p 0 := by
  intro k hk p hp
  have hne : k ≠ s.size := by
    rintro rfl
    exact hw p (by simpa [hawaited] using hp)
  rw [hawaited, Function.update_of_ne hne] at hp
  rw [htimers]
  exact h.point k (by omega) p hp

lemma Placed.timer_enter (h : Placed s out) :
    (k < t.size ∧ k ∉ out ∧ ∃ p, t.awaited k = .timer p) ↔
      s.timers.Queued k ∨ (∃ p, w = .timer p) ∧ k = s.size := by
  have hnot : s.size ∉ out := fun e => absurd (hout _ e) (lt_irrefl _)
  rw [h.timer, hsize, hawaited]
  by_cases hk : k = s.size
  · subst hk
    simp [hnot]
  · rw [Function.update_of_ne hk]
    simp only [hk, and_false, or_false]
    exact and_congr_left' (by omega)

lemma Placed.enter (h : Placed s out) (hw : ∀ p, w ≠ .timer p)
    (hrpc : t.rpcSession = s.rpcSession) (htimers : t.timers = s.timers)
    (hcv : ∀ v, (t.conditionVariable v).Holds (t.waitingFor out (.conditionVariable v)))
    (hframes : ∀ f, (t.frameCoroutine f).Nodup)
    (hframe : ∀ f k, k ∈ t.frameCoroutine f ↔ k ∈ s.frameCoroutine f ∨ .frame f = w ∧ k = s.size)
    (hsession : ∀ x k, t.waitMap x = some k ↔ s.waitMap x = some k ∨ .session x = w ∧ k = s.size)
    (hmap : ∀ x k, t.rpcMap x = some k ↔ s.rpcMap x = some k ∨
      ∃ r, .rpc r = w ∧ s.rpcSession[r]? = some x ∧ k = s.size) : Placed t out where
  conditionVariable := hcv
  timers := htimers ▸ h.timers
  timer := by
    intro k
    rw [h.timer_enter hout hsize hawaited, htimers]
    simp [hw]
  point := h.point_enter hsize hawaited hw htimers
  frames := hframes
  frame := by
    intro f k
    rw [hframe, h.frame, mem_waitingFor_enter hout hsize hawaited]
  session := by
    intro x k
    rw [hsession, h.session, mem_waitingFor_enter hout hsize hawaited]
  rpc := by
    intro x k
    rw [hmap, h.rpc, hrpc]
    simp only [mem_waitingFor_enter hout hsize hawaited]
    constructor
    · rintro (⟨r, hk, hr⟩ | ⟨r, hr, hx, hk⟩)
      · exact ⟨r, .inl hk, hr⟩
      · exact ⟨r, .inr ⟨hr, hk⟩, hx⟩
    · rintro ⟨r, hk | ⟨hr, hk⟩, hx⟩
      · exact .inl ⟨r, hk, hx⟩
      · exact .inr ⟨r, hr, hx, hk⟩

end Enter

lemma emplace_eq_some {K : Type} [DecidableEq K] {map : K → Option ℕ} {key x : K} {n : ℕ}
    (hfree : map key = none) : emplace map key n x = some k ↔ map x = some k ∨ x = key ∧ k = n := by
  rw [emplace, hfree, Option.isSome_none]
  by_cases hx : x = key
  · subst hx
    simp [hfree, eq_comm]
  · simp [hx]

/-- What `await_suspend` inserts is new to the maps of sessions and of remote calls. -/
def Unused (s : Scheduler) : Wait → Prop
  | .session x => s.waitMap x = none
  | .rpc r => ∃ x, s.rpcSession[r]? = some x ∧ s.rpcMap x = none
  | _ => True

lemma Placed.suspend_timer {c : ℕ} {p : ℤ} (h : Placed s out) (hout : ∀ k ∈ out, k < s.size) :
    Placed (s.suspend token c (.timer p)) out := by
  have hqueued : ¬s.timers.Queued s.size := fun e => absurd ((h.timer _).mp e).1 (lt_irrefl _)
  have henq := (h.timers.setPoint hqueued p).enqueue hqueued
  have hkeep : ∀ w', (∀ q, w' ≠ .timer q) →
      (s.suspend token c (.timer p)).waitingFor out w' = s.waitingFor out w' := by
    intro w' hne
    rw [waitingFor_enter hout rfl rfl, if_neg (hne p)]
  refine ⟨fun v => ?_, henq.toValid, ?_, ?_, h.frames, fun f => ?_, fun x => ?_, ?_⟩
  · exact h.keep_conditionVariable rfl (hkeep _ (by simp))
  · intro k
    rw [h.timer_enter hout rfl rfl]
    refine (henq.queued k).trans (or_congr_right ?_)
    simp
  · intro k hk q hq
    have hpoint := congrFun henq.point k
    by_cases hks : k = s.size
    · subst hks
      obtain rfl : p = q := by simpa [Scheduler.suspend] using hq
      exact hpoint.trans (by simp)
    · have hlt : k < s.size := by
        have : k < s.size + 1 := hk
        omega
      have hold : s.awaited k = .timer q := by simpa [Scheduler.suspend, hks] using hq
      refine hpoint.trans ?_
      simpa [hks] using h.point k hlt q hold
  · exact h.keep_frame rfl (hkeep _ (by simp))
  · exact h.keep_session rfl (hkeep _ (by simp))
  · exact h.keep_rpc rfl rfl fun _ => hkeep _ (by simp)

lemma Placed.suspend {c : ℕ} (h : Placed s out) (hout : ∀ k ∈ out, k < s.size) (hw : s.Unused w) :
    Placed (s.suspend token c w) out := by
  have hnot : ∀ w', s.size ∉ s.waitingFor out w' :=
    fun w' e => absurd (mem_waitingFor.mp e).1 (lt_irrefl _)
  cases w with
  | conditionVariable v =>
    refine h.enter (w := .conditionVariable v) hout rfl rfl (by simp) rfl rfl ?_ h.frames
      (by simp [Scheduler.suspend]) (by simp [Scheduler.suspend]) (by simp [Scheduler.suspend])
    intro u
    rw [waitingFor_enter hout rfl rfl]
    by_cases hu : u = v
    · subst hu
      simpa [Scheduler.suspend] using (h.conditionVariable u).pushBack (hnot _)
    · simpa [Scheduler.suspend, hu] using h.conditionVariable u
  | timer p => exact h.suspend_timer hout
  | frame f =>
    refine h.enter (w := .frame f) hout rfl rfl (by simp) rfl rfl ?_ ?_ ?_
      (by simp [Scheduler.suspend]) (by simp [Scheduler.suspend])
    · intro u
      rw [waitingFor_enter hout rfl rfl]
      simpa [Scheduler.suspend] using h.conditionVariable u
    · intro g
      by_cases hg : g = f
      · subst hg
        simpa [Scheduler.suspend] using (h.frames g).insert
      · simpa [Scheduler.suspend, hg] using h.frames g
    · intro g k
      by_cases hg : g = f
      · subst hg
        simp [Scheduler.suspend, or_comm]
      · simp [Scheduler.suspend, hg]
  | session x =>
    refine h.enter (w := .session x) hout rfl rfl (by simp) rfl rfl ?_ h.frames
      (by simp [Scheduler.suspend]) ?_ (by simp [Scheduler.suspend])
    · intro u
      rw [waitingFor_enter hout rfl rfl]
      simpa [Scheduler.suspend] using h.conditionVariable u
    · intro y k
      have hfree : s.waitMap x = none := hw
      simpa [Scheduler.suspend] using emplace_eq_some hfree
  | rpc r =>
    obtain ⟨x, hr, hfree⟩ := hw
    have hsuspend : s.suspend token c (.rpc r) = { s with
        size := s.size + 1
        coroutine := Function.update s.coroutine s.size c
        awaited := Function.update s.awaited s.size (.rpc r)
        tokens := s.tokens.emplace (token c) s.size
        rpcMap := emplace s.rpcMap x s.size } := by
      simp [Scheduler.suspend, hr]
    rw [hsuspend]
    refine h.enter (w := .rpc r) hout rfl rfl (by simp) rfl rfl ?_ h.frames (by simp) (by simp) ?_
    · intro u
      rw [waitingFor_enter hout rfl rfl]
      simpa using h.conditionVariable u
    · intro y k
      rw [emplace_eq_some hfree]
      simp [hr, eq_comm]

end Simple.Coro.Scheduler
