import Simple.Coro.SchedulerSteps

/-! Each suspension is resumed at most once, and exactly once when it was woken up. -/

namespace Simple.Coro.Scheduler

open Simple.Lib

variable {token : ℕ → Option ℕ} {pid : ℕ} {s t : Scheduler} {woken : ℕ → Prop} {k : ℕ}
  {onThread : Bool} {v : ℕ}

def recordWoken (token : ℕ → Option ℕ) (s : Scheduler) (woken : ℕ → Prop) (a : Action) : ℕ → Prop :=
  fun k => woken k ∨ k < s.size ∧ Event token s woken k a

def history (token : ℕ → Option ℕ) (pid : ℕ) : Machine (Scheduler × (ℕ → Prop)) Action :=
  (machine token pid).withHistory (fun _ => False) (recordWoken token)

structure Recorded (token : ℕ → Option ℕ) (pid : ℕ) (p : Scheduler × (ℕ → Prop)) : Prop where
  inv : Inv token pid p.1
  scheduled : ∀ k ∈ p.1.scheduled, p.2 k
  noted : ∀ k, p.2 k → p.1.Noted k

lemma recorded_initial : Recorded token pid (history token pid).initial where
  inv := inv_initial
  scheduled := by simp [history, Machine.withHistory, machine, Scheduler.scheduled]
  noted := by simp [history, Machine.withHistory]

lemma Recorded.woken_iff (h : Recorded token pid (s, woken)) (hk : ∀ x, s.awaited k ≠ .session x) :
    woken k ↔ k ∈ s.scheduled := by
  constructor
  · intro hw
    rcases h.noted k hw with hn | ⟨-, x, hx, -⟩
    · exact hn
    · exact absurd hx (hk x)
  · exact h.scheduled k

lemma Recorded.event_iff (h : Recorded token pid (s, woken)) (a : Action) :
    Event token s woken k a ↔ Event token s (· ∈ s.scheduled) k a := by
  cases a with
  | notifyOne onThread v =>
    have hiff : ∀ j, s.awaited j = .conditionVariable v → (woken j ↔ j ∈ s.scheduled) :=
      fun j hj => h.woken_iff (by simp [hj])
    rw [event_notifyOne, event_notifyOne]
    refine and_congr_right fun hk => and_congr (not_congr (hiff k hk)) ?_
    exact forall_congr' fun j => forall_congr' fun _ => forall_congr' fun hj => hiff j hj
  | _ => rfl

lemma step_recorded {p q : Scheduler × (ℕ → Prop)} (a : Action) (h : Recorded token pid p)
    (hs : (history token pid).step p a = some q) : Recorded token pid q := by
  obtain ⟨s, woken⟩ := p
  obtain ⟨t, woken'⟩ := q
  obtain ⟨ht, hw⟩ := Machine.step_withHistory.mp hs
  have hw' : woken' = recordWoken token s woken a := hw
  subst hw'
  obtain ⟨hinv, hgrown⟩ := step_inv a h.inv ht
  refine ⟨hinv, ?_, ?_⟩
  · intro k hk
    rcases hgrown.scheduled k hk with hk | ⟨hlt, he⟩
    · exact .inl (h.scheduled k hk)
    · exact .inr ⟨hlt, (h.event_iff a).mpr he⟩
  · rintro k (hk | ⟨hlt, he⟩)
    · exact hgrown.noted k (h.noted k hk)
    · exact hgrown.arrived k ⟨hlt, (h.event_iff a).mp he⟩

def Action.isTurn : Action → Bool
  | .callPosted | .wakeUpTimer | .wakeUpNext => true
  | _ => false

def load (s : Scheduler) : ℕ := s.posted.length + s.ready.length + s.wakeUp.length

lemma turn (token : ℕ → Option ℕ) (pid : ℕ) (hs : ¬s.Idle) :
    ∃ a t, a.isTurn = true ∧ (machine token pid).step s a = some t ∧ t.load < s.load := by
  cases hp : s.posted with
  | cons f posted =>
    refine ⟨.callPosted, call { s with posted := posted } f, rfl, by simp [machine, step, hp], ?_⟩
    cases f with
    | resume k => simp [load, call, resume, hp]
    | wakeUpSession x =>
      cases hm : s.waitMap x <;> simp [load, call, resume, hp, hm]
  | nil =>
    cases hr : s.ready with
    | cons k ready =>
      exact ⟨.wakeUpTimer, resume { s with ready := ready } k, rfl, by simp [machine, step, hr],
        by simp [load, resume, hr]⟩
    | nil =>
      cases hw : s.wakeUp with
      | cons k wakeUp =>
        exact ⟨.wakeUpNext, resume { s with wakeUp := wakeUp } k, rfl, by simp [machine, step, hw],
          by simp [load, resume, hw]⟩
      | nil => exact absurd ⟨hp, hr, hw⟩ hs

lemma Idle.resumed_of_noted (hs : s.Idle) (hk : s.Noted k) : k ∈ s.resumed := by
  obtain ⟨hp, hr, hw⟩ := hs
  rcases hk with hk | ⟨-, x, -, hx⟩
  · simpa [scheduled, hp, hr, hw] using hk
  · simp [hp] at hx

/-- The scheduler can always run until nothing is left to do, and has then resumed all that were
woken up. -/
lemma Inv.drain (h : Inv token pid s) : ∃ as t, (∀ a ∈ as, a.isTurn = true) ∧
    (machine token pid).run s as = some t ∧ t.Idle ∧ Inv token pid t ∧
      ∀ k, s.Noted k → k ∈ t.resumed := by
  induction hn : s.load using Nat.strong_induction_on generalizing s with
  | _ n ih =>
    by_cases hs : s.Idle
    · exact ⟨[], s, by simp, rfl, hs, h, fun k => hs.resumed_of_noted⟩
    · obtain ⟨a, t, ha, ht, hlt⟩ := turn token pid hs
      obtain ⟨hinv, hgrown⟩ := step_inv a h ht
      obtain ⟨as, u, has, hrun, hidle, hinv', hres⟩ := ih t.load (hn ▸ hlt) hinv rfl
      refine ⟨a :: as, u, ?_, Machine.run_cons_eq_some.mpr ⟨t, ht, hrun⟩, hidle, hinv', ?_⟩
      · rintro b (_ | ⟨_, hb⟩)
        · exact ha
        · exact has b hb
      · exact fun k hk => hres k (hgrown.noted k hk)

lemma Core.count_resumed (h : Core pid s) (hk : k ∈ s.resumed) : s.resumed.count k = 1 := by
  have hnodup : s.resumed.Nodup := by
    have := h.nodup
    simp only [scheduled, List.nodup_append] at this
    exact this.2.1.2.1.2.1
  exact List.count_eq_one_of_mem hnodup hk

def handles (s : Scheduler) (onThread : Bool) : List ℕ :=
  if onThread then s.wakeUp else s.posted.filterMap Posted.handle

/-- `notify_one` gives the scheduler the waiter that has been suspended longest, `notify_all` gives it
all the waiters there are, in the order in which they were suspended. -/
structure Single (token : ℕ → Option ℕ) (pid : ℕ) (p : Scheduler × (ℕ → Prop)) : Prop where
  once : ∀ k, p.1.resumed.count k ≤ 1
  caused : ∀ k ∈ p.1.resumed, p.2 k
  idle : p.1.Idle → ∀ k, p.2 k → p.1.resumed.count k = 1
  turns : ∃ as t, (∀ a ∈ as, a.isTurn = true) ∧ (machine token pid).run p.1 as = some t ∧ t.Idle ∧
    ∀ k, p.2 k → t.resumed.count k = 1
  one : ∀ onThread v, ∃ xs,
    (p.1.notifyOne onThread v).handles onThread = p.1.handles onThread ++ xs ∧
    (p.1.notifyOne onThread v).scheduled.Perm (xs ++ p.1.scheduled) ∧ xs.length ≤ 1 ∧
    ∀ k, k ∈ xs ↔ k < p.1.size ∧ p.1.awaited k = .conditionVariable v ∧ ¬p.2 k ∧
      ∀ j < k, p.1.awaited j = .conditionVariable v → p.2 j
  all : ∀ onThread v, ∃ t xs, p.1.notifyAll onThread v = some t ∧
    t.handles onThread = p.1.handles onThread ++ xs ∧ t.scheduled.Perm (xs ++ p.1.scheduled) ∧
    xs.Pairwise (· < ·) ∧
    ∀ k, k ∈ xs ↔ k < p.1.size ∧ p.1.awaited k = .conditionVariable v ∧ ¬p.2 k

lemma handles_foldl (s : Scheduler) (xs : List ℕ) :
    (xs.foldl (wakeUpCoroutine onThread) s).handles onThread = s.handles onThread ++ xs := by
  rw [foldl_wakeUpCoroutine]
  cases onThread with
  | true => rfl
  | false => simp [handles, Posted.handle, Function.comp_def]

lemma Recorded.one (h : Recorded token pid (s, woken)) (onThread : Bool) (v : ℕ) : ∃ xs,
    (s.notifyOne onThread v).handles onThread = s.handles onThread ++ xs ∧
    (s.notifyOne onThread v).scheduled.Perm (xs ++ s.scheduled) ∧ xs.length ≤ 1 ∧
    ∀ k, k ∈ xs ↔ k < s.size ∧ s.awaited k = .conditionVariable v ∧ ¬woken k ∧
      ∀ j < k, s.awaited j = .conditionVariable v → woken j := by
  have hevent : ∀ k, (k < s.size ∧ Event token s woken k (.notifyOne onThread v)) ↔
      (s.waitingFor s.scheduled (.conditionVariable v)).head? = some k := by
    intro k
    rw [h.event_iff, head_waitingFor_iff]
    rfl
  simp only [event_notifyOne] at hevent
  simp only [hevent]
  rw [notifyOne, (h.inv.placed.conditionVariable v).header]
  cases hhead : (s.waitingFor s.scheduled (.conditionVariable v)).head? with
  | none => exact ⟨[], by simp, List.Perm.refl _, by simp, by simp⟩
  | some k =>
    refine ⟨[k], ?_, scheduled_wakeUpCoroutine, le_rfl, by simp [eq_comm]⟩
    exact handles_foldl (s.removeAwaiter v k) [k]

lemma Recorded.all (h : Recorded token pid (s, woken)) (onThread : Bool) (v : ℕ) :
    ∃ t xs, s.notifyAll onThread v = some t ∧
      t.handles onThread = s.handles onThread ++ xs ∧ t.scheduled.Perm (xs ++ s.scheduled) ∧
      xs.Pairwise (· < ·) ∧
      ∀ k, k ∈ xs ↔ k < s.size ∧ s.awaited k = .conditionVariable v ∧ ¬woken k := by
  refine ⟨_, s.waitingFor s.scheduled (.conditionVariable v), h.inv.placed.notifyAll_eq,
    handles_foldl _ _, scheduled_foldl, List.pairwise_lt_range.filter _, ?_⟩
  intro k
  rw [mem_waitingFor]
  refine and_congr_right fun _ => and_congr_right fun hk => not_congr ?_
  exact (h.woken_iff (by simp [hk])).symm

lemma Recorded.single {p : Scheduler × (ℕ → Prop)} (h : Recorded token pid p) :
    Single token pid p where
  once := by
    intro k
    by_cases hk : k ∈ p.1.resumed
    · exact (h.inv.count_resumed hk).le
    · simp [List.count_eq_zero_of_not_mem hk]
  caused := fun k hk => h.scheduled k (mem_scheduled_of_resumed hk)
  idle := fun hs k hk => h.inv.count_resumed (hs.resumed_of_noted (h.noted k hk))
  turns := by
    obtain ⟨as, t, has, hrun, hidle, hinv, hres⟩ := h.inv.drain
    exact ⟨as, t, has, hrun, hidle, fun k hk => hinv.count_resumed (hres k (h.noted k hk))⟩
  one := h.one
  all := h.all

/-- In every run the handle of each suspension is resumed at most once, and once in the end when
something has woken it up. -/
theorem wakeups_single (token : ℕ → Option ℕ) (pid : ℕ) (as : List Action) :
    (history token pid).Always (Single token pid) (history token pid).initial as :=
  Machine.always_of_along (I := Recorded token pid) (fun _ h => h.single)
    (fun _ a _ h _ hs => step_recorded a h hs) recorded_initial (Machine.along_true _ _)

end Simple.Coro.Scheduler
