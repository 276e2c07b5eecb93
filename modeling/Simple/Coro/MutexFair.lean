import Simple.Coro.MutexOwner

/-! Exclusion and order of a coroutine mutex whose owner alone calls `unlock`: one call of `lock` at a
time holds it, and the calls that are not cancelled get it in the order in which they were made. -/

namespace Simple.Coro.Mutex

open Simple.Lib

variable {token : ℕ → Option ℕ} {m n : Mutex} {j k c t : ℕ}

def waiters (token : ℕ → Option ℕ) (m : Mutex) : List ℕ :=
  (List.range m.size).filter fun k =>
    (m.status k).any LockStatus.suspended && !m.isCanceled token k &&
      decide (m.status k ≠ some .handed)

structure Fair (token : ℕ → Option ℕ) (m : Mutex) : Prop where
  exclusive : ∀ j k, m.status j = some .holding → m.status k = some .holding → j = k
  recorded : ∀ k, m.status k = some .holding → k ∈ m.obtained
  ordered : m.obtained.Pairwise (· < ·)
  unskipped : ∀ k ∈ m.obtained, ∀ j < k, j ∈ m.obtained ∨ m.isCanceled token j = true
  represented : m.list.Holds (m.waiters token)

structure Queue (m : Mutex) : Prop where
  taken : ∀ k, k ∈ m.obtained ↔ m.status k = some .holding ∨ m.status k = some .released
  ordered : m.obtained.Pairwise (· < ·)
  handed : ∀ k, m.status k = some .handed → ∀ j ∈ m.obtained, j < k
  behind : ∀ k, m.status k = some .waiting → ∀ j, j ∈ m.obtained ∨ m.status j = some .handed → j < k

lemma queue_initial : Queue (machine token).initial where
  taken := by simp [machine]
  ordered := List.Pairwise.nil
  handed := by simp [machine]
  behind := by simp [machine]

lemma Inv.waiters_eq (h : Inv token m) : m.waiters token = m.waiting := by
  refine List.filter_congr ?_
  intro k _
  cases hk : m.status k with
  | none => simp
  | some v =>
    cases v with
    | waiting => simp [LockStatus.suspended, isCanceled, h.tokens.live k hk]
    | aborted => simp [h.canceled k (.inl hk)]
    | handed | holding | released | canceled => simp [LockStatus.suspended]

lemma lt_of_head_waiting (hj : m.waiting.head? = some j) (hk : k ∈ m.waiting) (hjk : k ≠ j) :
    j < k := by
  have hsorted : m.waiting.Pairwise (· < ·) := List.pairwise_lt_range.filter _
  cases hw : m.waiting with
  | nil => simp [hw] at hj
  | cons i w =>
    rw [hw] at hj hk hsorted
    obtain rfl : i = j := by simpa using hj
    rcases List.mem_cons.mp hk with rfl | hk
    · exact absurd rfl hjk
    · exact List.rel_of_pairwise_cons hsorted hk

lemma Queue.lt_size (hi : Inv token m) (h : Queue m) (hk : k ∈ m.obtained) : k < m.size := by
  rcases (h.taken k).mp hk with e | e <;> exact hi.lt_size e

lemma Queue.mono (h : Queue m) (hobtained : n.obtained = m.obtained)
    (htaken : ∀ k, n.status k = some .holding ∨ n.status k = some .released ↔
      m.status k = some .holding ∨ m.status k = some .released)
    (hhanded : ∀ k, n.status k = some .handed → m.status k = some .handed)
    (hwaiting : ∀ k, n.status k = some .waiting → m.status k = some .waiting) : Queue n where
  taken := by
    intro k
    rw [hobtained, htaken, h.taken]
  ordered := hobtained ▸ h.ordered
  handed := by
    rw [hobtained]
    exact fun k hk => h.handed k (hhanded k hk)
  behind := by
    rw [hobtained]
    exact fun k hk j hj => h.behind k (hwaiting k hk) j (hj.imp_right (hhanded j))

lemma Queue.wait (hi : Inv token m) (h : Queue m) (hobtained : n.obtained = m.obtained)
    (hstatus : n.status = Function.update m.status m.size (some .waiting)) : Queue n := by
  have hnew : m.status m.size = none := (hi.born m.size).mpr le_rfl
  have hhanded : ∀ k, n.status k = some .handed → m.status k = some .handed := by
    intro k hk
    by_cases hks : k = m.size
    · simp [hstatus, hks] at hk
    · simpa [hstatus, hks] using hk
  refine ⟨?_, hobtained ▸ h.ordered, ?_, ?_⟩
  · intro k
    rw [hobtained, h.taken]
    by_cases hks : k = m.size
    · simp [hstatus, hks, hnew]
    · simp [hstatus, hks]
  · rw [hobtained]
    exact fun k hk => h.handed k (hhanded k hk)
  · rw [hobtained]
    intro k hk j hj
    by_cases hks : k = m.size
    · subst hks
      rcases hj with hj | hj
      · exact h.lt_size hi hj
      · exact hi.lt_size (hhanded j hj)
    · exact h.behind k (by simpa [hstatus, hks] using hk) j (hj.imp_right (hhanded j))

lemma Queue.obtain (h : Queue m) (hk : ∀ j ∈ m.obtained, j < k)
    (hhanded : ∀ j, m.status j = some .handed → j = k)
    (hwaiting : ∀ j, m.status j = some .waiting → k ≤ j)
    (hstatus : n.status = Function.update m.status k (some .holding))
    (hobtained : n.obtained = m.obtained ++ [k]) : Queue n := by
  have hnone : ∀ j, n.status j ≠ some .handed := by
    intro j hj
    by_cases hjk : j = k
    · simp [hstatus, hjk] at hj
    · exact hjk (hhanded j (by simpa [hstatus, hjk] using hj))
  refine ⟨?_, ?_, fun j hj => absurd hj (hnone j), ?_⟩
  · intro j
    rw [hobtained, List.mem_append, h.taken]
    by_cases hjk : j = k
    · simp [hstatus, hjk]
    · simp [hstatus, hjk]
  · rw [hobtained]
    refine List.pairwise_append.mpr ⟨h.ordered, List.pairwise_singleton _ k, ?_⟩
    intro j hj i hi
    rw [List.mem_singleton.mp hi]
    exact hk j hj
  · intro i hi j hj
    have hik : i ≠ k := by
      rintro rfl
      simp [hstatus] at hi
    have hiw : m.status i = some .waiting := by simpa [hstatus, hik] using hi
    rcases hj with hj | hj
    · rw [hobtained, List.mem_append] at hj
      rcases hj with hj | hj
      · exact h.behind i hiw j (.inl hj)
      · rw [List.mem_singleton.mp hj]
        exact lt_of_le_of_ne (hwaiting i hiw) (Ne.symm hik)
    · exact absurd hj (hnone j)

lemma Queue.unlock (hi : Inv token m) (h : Queue m) (hnone : ∀ k, ¬m.owning k) :
    Queue m.unlock := by
  cases hl : m.locked with
  | false =>
    rw [unlock_unlocked hl]
    exact h
  | true =>
    cases hh : m.list.header with
    | none =>
      rw [unlock_free hl hh]
      exact { h with }
    | some k =>
      rw [unlock_handed hl hh]
      have hk := hi.waiting_of_header hh
      have hhead : m.waiting.head? = some k := hi.list.header.symm.trans hh
      have honly : ∀ j, Function.update m.status k (some .handed) j = some .handed → j = k := by
        intro j hj
        by_contra hjk
        exact hnone j (.inr (by simpa [hjk] using hj))
      refine ⟨?_, h.ordered, ?_, ?_⟩
      · intro j
        by_cases hjk : j = k
        · simp [h.taken, setStatus, hjk, hk]
        · simp [h.taken, setStatus, hjk]
      · intro j hj i hio
        obtain rfl := honly j hj
        exact h.behind j hk i (.inl hio)
      · intro j hj i hio
        have hjk : j ≠ k := by
          rintro rfl
          simp [setStatus] at hj
        have hjw : m.status j = some .waiting := by simpa [setStatus, hjk] using hj
        rcases hio with hio | hio
        · exact h.behind j hjw i (.inl hio)
        · obtain rfl := honly i hio
          exact lt_of_head_waiting hhead ((mem_waiting hi.born).mpr hjw) hjk

lemma Queue.request (hi : Inv token m) (h : Queue m) : Queue (m.requestCancellation t) := by
  rw [requestCancellation_eq]
  refine h.mono rfl ?_ ?_ ?_
  · intro k
    by_cases hk : k ∈ (m.tokens.requestCancellation t).2
    · simp [hk, hi.tokens.waiting_of_mem_request hk]
    · simp [hk]
  · intro k
    by_cases hk : k ∈ (m.tokens.requestCancellation t).2 <;> simp [hk]
  · intro k
    by_cases hk : k ∈ (m.tokens.requestCancellation t).2 <;> simp [hk]

lemma Queue.cancel (h : Queue m) (hk : k ∉ m.obtained) (hobtained : n.obtained = m.obtained)
    (hstatus : n.status = Function.update m.status k (some .canceled)) : Queue n := by
  have htaken := (h.taken k).not.mp hk
  refine h.mono hobtained ?_ ?_ ?_
  · intro j
    by_cases hj : j = k
    · subst hj
      simpa [hstatus] using htaken
    · simp [hstatus, hj]
  · intro j
    by_cases hj : j = k <;> simp [hstatus, hj]
  · intro j
    by_cases hj : j = k <;> simp [hstatus, hj]

lemma Queue.release (h : Queue m) (hk : m.status k = some .holding) :
    Queue (m.setStatus k .released) := by
  refine h.mono rfl ?_ ?_ ?_
  · intro j
    by_cases hj : j = k <;> simp [setStatus, hj, hk]
  · intro j
    by_cases hj : j = k <;> simp [setStatus, hj]
  · intro j
    by_cases hj : j = k <;> simp [setStatus, hj]

lemma queue_step (a : Action) (hi : Inv token m) (ho : Single m) (h : Queue m) (ha : Disciplined m a)
    (hs : (machine token).step m a = some n) : Queue n := by
  have hlt : ∀ k ∈ m.obtained, k < m.size := fun k hk => h.lt_size hi hk
  cases step_stepped hs with
  | canceled hc => exact h.cancel (fun e => (hlt m.size e).false) rfl rfl
  | free hc hl =>
    have hno : m.locked ≠ true := by simp [hl]
    refine h.obtain hlt ?_ ?_ rfl rfl
    · exact fun j hj => absurd (ho.locked j (.inr hj)) hno
    · exact fun j hj => absurd (hi.locked j hj) hno
  | wait hc hl => exact h.wait hi rfl rfl
  | unlock => exact absurd rfl ha
  | @release k hk =>
    refine (h.release hk).unlock (hi.release hk) ?_
    exact ho.not_owning_release hk
  | cancel => exact h.request hi
  | @abort k ks hw hc =>
    refine h.cancel (k := k) ?_ rfl rfl
    rw [h.taken]
    rcases hi.woken hw with e | e <;> simp [e]
  | @obtain k ks hw hc =>
    have hk := hi.handed_of_woken hw hc
    refine h.obtain (k := k) (h.handed k hk) ?_ ?_ rfl rfl
    · exact fun j hj => ho.one j k (.inr hj) (.inr hk)
    · exact fun j hj => (h.behind j hj k (.inr hk)).le

lemma Queue.fair (hi : Inv token m) (ho : Single m) (h : Queue m) : Fair token m := by
  refine ⟨?_, ?_, h.ordered, ?_, hi.waiters_eq ▸ hi.list⟩
  · intro j k hj hk
    exact ho.one j k (.inl hj) (.inl hk)
  · intro k hk
    exact (h.taken k).mpr (.inl hk)
  · intro k hk j hjk
    cases hj : m.status j with
    | none => exact absurd ((hi.born j).mp hj) (not_le.mpr (hjk.trans (h.lt_size hi hk)))
    | some v =>
      cases v with
      | waiting => exact absurd (h.behind j hj k (.inl hk)) (not_lt.mpr hjk.le)
      | handed => exact absurd (h.handed j hj k hk) (not_lt.mpr hjk.le)
      | aborted => exact .inr (hi.canceled j (.inl hj))
      | holding => exact .inl ((h.taken j).mpr (.inl hj))
      | released => exact .inl ((h.taken j).mpr (.inr hj))
      | canceled => exact .inr (hi.canceled j (.inr hj))

theorem mutex_fair (token : ℕ → Option ℕ) (as : List Action)
    (hd : (machine token).Along Disciplined (machine token).initial as) :
    (machine token).Always (Fair token) (machine token).initial as := by
  refine Machine.always_of_along (I := fun m => Inv token m ∧ Single m ∧ Queue m)
    (fun m h => h.2.2.fair h.1 h.2.1) ?_ ⟨inv_initial, single_initial, queue_initial⟩ hd
  rintro m a n ⟨hi, ho, h⟩ ha hs
  exact ⟨step_inv a hi hs, single_step a hi ho ha hs, queue_step a hi ho h ha hs⟩

/-- Calls 1 and 2 wait for call 0; call 1 is cancelled while it waits, and call 2 gets the mutex. -/
theorem mutex_fair_canceled :
    (machine some).Always (Fair some) (machine some).initial
      [.lock 0, .lock 1, .lock 2, .cancel 1, .unlock (some 0), .resume, .resume] ∧
    ((machine some).run (machine some).initial
      [.lock 0, .lock 1, .lock 2, .cancel 1, .unlock (some 0), .resume, .resume]).map
        (fun m => (m.obtained, m.status 1)) = some ([0, 2], some .canceled) := by
  refine ⟨mutex_fair some _ ?_, by decide⟩
  simp [Machine.Along, Disciplined]

end Simple.Coro.Mutex
