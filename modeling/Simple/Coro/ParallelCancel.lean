import Simple.Coro.ParallelJoin

/-! A cancellation of the awaiting coroutine reaches the children of `when_ready` through the callback
that `await_suspend` registers after it has started them. -/

namespace Simple.Coro.WhenReady

open Simple.Lib

variable {type : WaitType} {size : ℕ} {tuple token : Bool} {s t : WhenReady} {i : ℕ}

/-- A coroutine suspended on its children with a cancelled token has passed the cancellation on. -/
def Forwarded (s : WhenReady) : Prop :=
  s.await = .suspended → s.tokenCancelled = true →
    s.counter.cancelled = true ∧ ∀ i woken, s.child i = .suspended true woken → woken = true

/-- The token has not been cancelled while the children were started, unless they all completed or
one of them had the others cancelled. -/
def Clear (s : WhenReady) (a : Action) : Prop :=
  a = .tryAwait → s.tokenCancelled = true → s.counter.cancelled = true ∨ s.AllFinished

lemma Core.forwarded_iff (h : Core s) :
    s.Forwarded ↔ (s.await = .suspended → s.tokenCancelled = true → s.counter.cancelled = true) := by
  constructor
  · intro hf ha hc
    exact (hf ha hc).1
  · intro hf ha hc
    exact ⟨hf ha hc, h.woken (hf ha hc)⟩

lemma Core.count_le_iff (h : Core s) (hq : s.Quiet) (ha : s.await = .starting s.size) :
    s.counter.count ≤ 1 ↔ s.AllFinished := by
  have hh := h.handle_of_await (by simp [ha]) (by simp [ha])
  have hcount := h.count_of_quiet hq hh
  have hlen := h.order_length_le
  refine Iff.trans ?_ h.all_finished_iff.symm
  constructor
  · intro hle
    omega
  · intro hle
    omega

lemma forwarded_step (a : Action) (h : Watched s) (hf : s.Forwarded)
    (hs : (machine type size tuple token).step s a = some t) : t.Forwarded ↔ s.Clear a := by
  have ht : Inv t := step_inv a h.toInv hs
  rw [ht.forwarded_iff]
  rw [h.forwarded_iff] at hf
  cases step_stepped hs with
  | empty | early | begin | start => simp [Clear, goOn, start]
  | suspend | resume => simpa [Clear] using hf
  | sleep ha hq hc =>
    have hnot : ¬s.AllFinished := by
      rw [← h.count_le_iff hq ha]
      omega
    simp [Clear, hnot]
  | pass ha hq hc =>
    have hall : s.AllFinished := (h.count_le_iff hq ha).mp hc
    simp [Clear, goOn, hall]
  | complete hi =>
    rw [complete_eq, requestCancellation_eq]
    split_ifs
    · simp [Clear]
    · simp [Clear]
    · simpa [Clear, finish] using hf
  | decrement hn =>
    simp only [decrement]
    split_ifs
    · simp [Clear, goOn]
    · simpa [Clear] using hf
    · simpa [Clear] using hf
  | cancel hk =>
    rw [cancelToken_eq, requestCancellation_eq]
    split_ifs with hc hr
    · simpa [Clear] using hf
    · simp [Clear]
    · simp [Clear]
    · have ha : s.await ≠ .suspended := fun ha => hr (h.watching ha hk (by simpa using hc))
      simp [Clear, ha]

/-- A cancellation is passed on all along a run exactly when none comes while the children are
started. -/
theorem forwarded_iff_clear (type : WaitType) (size : ℕ) (tuple token : Bool) (as : List Action) :
    (machine type size tuple token).Always Forwarded (machine type size tuple token).initial as ↔
      (machine type size tuple token).Along Clear (machine type size tuple token).initial as :=
  Machine.always_iff_along (I := Watched) (fun s a t h hs => step_watched a h hs)
    (fun s a t h hf hs => forwarded_step a h hf hs) watched_initial (by simp [Forwarded, machine])

theorem canceled_while_starting :
    ∃ s, (machine .all 1 false true).run (machine .all 1 false true).initial
        [.await, .start, .cancel, .suspend 0 true, .tryAwait] = some s ∧
      s.await = .suspended ∧ s.tokenCancelled = true ∧ s.counter.cancelled = false ∧
      s.child 0 = .suspended true false ∧ ¬s.Forwarded := by
  refine ⟨_, rfl, by decide, by decide, by decide, by decide, ?_⟩
  intro hf
  exact absurd (hf (by decide) (by decide)).1 (by decide)

end Simple.Coro.WhenReady
