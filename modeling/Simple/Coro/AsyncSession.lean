import Simple.Coro.Wakeup

/-! A result that is set before the session is awaited reaches the coroutine only through a wake-up
that is still posted. -/

namespace Simple.Coro.Scheduler

open Simple.Lib

variable {token : ℕ → Option ℕ} {pid : ℕ} {s t u : Scheduler} {k x v : ℕ} {onThread : Bool}

/-- Nothing is left to do, and a coroutine is suspended on a session that has its result. -/
def Lost (s : Scheduler) : Prop :=
  s.Idle ∧ ∃ k < s.size, k ∉ s.resumed ∧ ∃ x, s.awaited k = .session x ∧ s.result x = true

/-- A session with a result is awaited only while a wake-up for it is posted, or by a coroutine with
a cancelled token, which does not suspend. -/
def Prompt (token : ℕ → Option ℕ) (s : Scheduler) (a : Action) : Prop :=
  ∀ c x now, a = .await c (.session x) now → s.result x = true →
    s.tokens.isCancellationRequested (token c) = true ∨ .wakeUpSession x ∈ s.posted

structure Frame (s t : Scheduler) : Prop where
  size : t.size = s.size
  awaited : t.awaited = s.awaited
  result : t.result = s.result

lemma Frame.refl (s : Scheduler) : Frame s s := ⟨rfl, rfl, rfl⟩

lemma Frame.trans (h : Frame s t) (h' : Frame t u) : Frame s u :=
  ⟨h'.size.trans h.size, h'.awaited.trans h.awaited, h'.result.trans h.result⟩

lemma frame_wakeUpCoroutine : Frame s (wakeUpCoroutine onThread s k) := by
  cases onThread <;> exact ⟨rfl, rfl, rfl⟩

lemma Frame.wakeUpCoroutine (h : Frame s t) : Frame s (wakeUpCoroutine onThread t k) :=
  h.trans frame_wakeUpCoroutine

lemma frame_wakeUpSession : Frame s (s.wakeUpSession onThread x) := by
  rw [wakeUpSession]
  split_ifs
  · split
    · exact Frame.refl s
    · exact Frame.wakeUpCoroutine ⟨rfl, rfl, rfl⟩
  · exact ⟨rfl, rfl, rfl⟩

lemma frame_wakeUpRpc {x : UInt64} : Frame s (s.wakeUpRpc onThread x) := by
  rw [wakeUpRpc]
  split
  · exact Frame.refl s
  · exact Frame.wakeUpCoroutine ⟨rfl, rfl, rfl⟩

lemma frame_ite {p : Prop} [Decidable p] (h : Frame s t) :
    Frame s (if p then wakeUpCoroutine onThread t k else s) := by
  split_ifs
  · exact h.wakeUpCoroutine
  · exact Frame.refl s

lemma frame_callback : Frame s (s.callback onThread k) := by
  rw [callback]
  cases s.awaited k with
  | conditionVariable v => exact frame_ite ⟨rfl, rfl, rfl⟩
  | timer p => exact frame_ite ⟨rfl, rfl, rfl⟩
  | frame f => exact frame_ite ⟨rfl, rfl, rfl⟩
  | session x => exact frame_wakeUpSession
  | rpc r =>
    dsimp only
    split
    · exact Frame.refl s
    · exact frame_wakeUpRpc

lemma frame_foldl {f : Scheduler → ℕ → Scheduler} (hf : ∀ s k, Frame s (f s k)) (xs : List ℕ) :
    Frame s (xs.foldl f s) := by
  induction xs generalizing s with
  | nil => exact Frame.refl s
  | cons k xs ih => exact (hf s k).trans ih

lemma frame_notifyLoop {fuel : ℕ} {awaiter : Option ℕ}
    (h : notifyLoop onThread v fuel awaiter s = some t) : Frame s t := by
  induction fuel generalizing s awaiter with
  | zero =>
    cases awaiter with
    | none =>
      obtain rfl := Option.some.inj h
      exact Frame.refl s
    | some k => simp [notifyLoop] at h
  | succ fuel ih =>
    cases awaiter with
    | none =>
      obtain rfl := Option.some.inj h
      exact Frame.refl s
    | some k =>
      rw [notifyLoop] at h
      have hloop := ih h
      refine Frame.trans ?_ hloop
      exact Frame.wakeUpCoroutine ⟨rfl, rfl, rfl⟩

lemma frame_notifyOne : Frame s (s.notifyOne onThread v) := by
  rw [notifyOne]
  split
  · exact Frame.refl s
  · exact Frame.wakeUpCoroutine ⟨rfl, rfl, rfl⟩

lemma frame_call {f : Posted} : Frame s (call s f) := by
  cases f with
  | resume k => exact ⟨rfl, rfl, rfl⟩
  | wakeUpSession x =>
    rw [call]
    split <;> exact ⟨rfl, rfl, rfl⟩

lemma step_frame {a : Action} (hs : (machine token pid).step s a = some t) :
    Frame s t ∨ (∃ onThread x, a = .setResult onThread x ∧
      Frame { s with result := Function.update s.result x true } t) ∨
    ∃ c w now, a = .await c w now ∧ s.isReady token c w now = false ∧ t = s.suspend token c w := by
  cases step_stepped hs with
  | createSession | createRpc _ | readyTimers _ | wakeUpTimer _ | wakeUpNext _ =>
    exact .inl ⟨rfl, rfl, rfl⟩
  | goesOn => exact .inl (Frame.refl s)
  | suspends _ hr => exact .inr (.inr ⟨_, _, _, rfl, hr, rfl⟩)
  | cancel =>
    refine .inl (Frame.trans ?_ (frame_foldl (fun _ _ => frame_callback) _))
    exact ⟨rfl, rfl, rfl⟩
  | notifyOne => exact .inl frame_notifyOne
  | notifyAll ht =>
    obtain ⟨u, hu, rfl⟩ := Option.map_eq_some_iff.mp ht
    exact .inl ((frame_notifyLoop hu).trans ⟨rfl, rfl, rfl⟩)
  | advanceFrame _ =>
    rw [advanceFrame_eq]
    refine .inl (Frame.trans ?_ (frame_foldl (fun _ _ => frame_wakeUpCoroutine) _))
    exact ⟨rfl, rfl, rfl⟩
  | setResult => exact .inr (.inl ⟨_, _, rfl, frame_wakeUpSession⟩)
  | response => exact .inl frame_wakeUpRpc
  | callPosted _ =>
    refine .inl (Frame.trans ?_ frame_call)
    exact ⟨rfl, rfl, rfl⟩

/-- A coroutine on a session that has its result is scheduled, or will be. -/
def Minded (s : Scheduler) : Prop :=
  ∀ k < s.size, ∀ x, s.awaited k = .session x → s.result x = true → s.Noted k

lemma Minded.not_lost (h : s.Minded) : ¬s.Lost := by
  rintro ⟨hidle, k, hk, hr, x, hx, hres⟩
  exact hr (hidle.resumed_of_noted (h k hk x hx hres))

lemma isReady_session {c : ℕ} {now : ℤ} :
    s.isReady token c (.session x) now = s.tokens.isCancellationRequested (token c) := by
  simp [isReady]

lemma step_minded {a : Action} (h : Inv token pid s) (hm : s.Minded) (hp : Prompt token s a)
    (hs : (machine token pid).step s a = some t) : t.Minded := by
  obtain ⟨-, hgrown⟩ := step_inv a h hs
  intro k hk x hx hres
  rcases step_frame hs with hf | ⟨onThread, y, rfl, hf⟩ | ⟨c, w, now, rfl, hr, rfl⟩
  · rw [hf.size] at hk
    rw [hf.awaited] at hx
    rw [hf.result] at hres
    exact hgrown.noted k (hm k hk x hx hres)
  · rw [hf.size] at hk
    rw [hf.awaited] at hx
    rw [hf.result] at hres
    by_cases hxy : x = y
    · subst hxy
      exact hgrown.arrived k ⟨hk, hx⟩
    · refine hgrown.noted k (hm k hk x hx ?_)
      simpa [hxy] using hres
  · have hsus : Suspended token s (s.suspend token c w) c w := suspended_suspend
    rw [hsus.result] at hres
    by_cases hkn : k = s.size
    · subst hkn
      obtain rfl : w = .session x := by simpa [hsus.awaited] using hx
      rw [isReady_session] at hr
      rcases hp c x now rfl hres with hc | hposted
      · simp [hr] at hc
      · exact .inr ⟨hk, x, hx, hsus.posted ▸ hposted⟩
    · rw [hsus.size] at hk
      rw [hsus.awaited, Function.update_of_ne hkn] at hx
      exact hgrown.noted k (hm k (by omega) x hx hres)

/-- No event will ever reach the suspension `k`, unless the session gets another result. -/
structure Stuck (s : Scheduler) (k x : ℕ) : Prop where
  suspended : k < s.size
  waiting : k ∉ s.scheduled
  awaited : s.awaited k = .session x
  result : s.result x = true
  posted : .wakeUpSession x ∉ s.posted

lemma posted_of_turn {a : Action} (ha : a.isTurn = true)
    (hs : (machine token pid).step s a = some t) : ∀ f ∈ t.posted, f ∈ s.posted := by
  simp only [machine] at hs
  cases a with
  | callPosted =>
    cases hp : s.posted with
    | nil => simp [step, hp] at hs
    | cons f posted =>
      simp only [step, hp, Option.some.injEq] at hs
      subst hs
      intro g hg
      refine List.mem_cons_of_mem f ?_
      cases f with
      | resume k => exact hg
      | wakeUpSession x =>
        rw [call] at hg
        split at hg <;> exact hg
  | wakeUpTimer =>
    cases hr : s.ready with
    | nil => simp [step, hr] at hs
    | cons k ready =>
      simp only [step, hr, Option.some.injEq] at hs
      subst hs
      exact fun f hf => hf
  | wakeUpNext =>
    cases hr : s.wakeUp with
    | nil => simp [step, hr] at hs
    | cons k wakeUp =>
      simp only [step, hr, Option.some.injEq] at hs
      subst hs
      exact fun f hf => hf
  | _ => simp [Action.isTurn] at ha

lemma Stuck.turn {a : Action} (hk : Stuck s k x) (h : Inv token pid s) (ha : a.isTurn = true)
    (hs : (machine token pid).step s a = some t) : Stuck t k x := by
  obtain ⟨-, hgrown⟩ := step_inv a h hs
  have hf : Frame s t := by
    rcases step_frame hs with hf | ⟨_, _, rfl, -⟩ | ⟨_, _, _, rfl, -⟩
    · exact hf
    · simp [Action.isTurn] at ha
    · simp [Action.isTurn] at ha
  refine ⟨hf.size ▸ hk.suspended, ?_, hf.awaited ▸ hk.awaited, hf.result ▸ hk.result,
    fun hmem => hk.posted (posted_of_turn ha hs _ hmem)⟩
  intro hmem
  rcases hgrown.scheduled k hmem with hmem | ⟨-, he⟩
  · exact hk.waiting hmem
  · cases a with
    | callPosted =>
      obtain ⟨y, hy, hhead⟩ := he
      obtain rfl : x = y := by simpa [hk.awaited] using hy
      exact hk.posted (List.mem_of_head? hhead)
    | wakeUpTimer | wakeUpNext => exact he
    | _ => simp [Action.isTurn] at ha

lemma Stuck.lost (hk : Stuck s k x) (h : Inv token pid s) :
    ∃ as t, (∀ a ∈ as, a.isTurn = true) ∧ (machine token pid).run s as = some t ∧ t.Lost := by
  obtain ⟨as, t, has, hrun, hidle, -⟩ := h.drain
  refine ⟨as, t, has, hrun, hidle, ?_⟩
  have hstuck : Inv token pid t ∧ Stuck t k x :=
    Machine.run_invariant_of_mem (I := fun s => Inv token pid s ∧ Stuck s k x)
      (fun a ha s t hst hs => ⟨(step_inv a hst.1 hs).1, hst.2.turn hst.1 (has a ha) hs⟩) ⟨h, hk⟩ hrun
  refine ⟨k, hstuck.2.suspended, ?_, x, hstuck.2.awaited, hstuck.2.result⟩
  exact fun e => hstuck.2.waiting (mem_scheduled_of_resumed e)

lemma Inv.stuck_of_not_prompt {a : Action} (h : Inv token pid s) (hp : ¬Prompt token s a)
    (hs : (machine token pid).step s a = some t) : ∃ k x, Stuck t k x := by
  simp only [Prompt, not_forall, not_or] at hp
  obtain ⟨c, x, now, rfl, hres, hc, hposted⟩ := hp
  have hsus : Suspended token s (s.suspend token c (.session x)) c (.session x) := suspended_suspend
  have ht : t = s.suspend token c (.session x) := by
    simp only [machine, step, isReady_session] at hs
    split_ifs at hs
    exact (Option.some.inj hs).symm
  subst ht
  refine ⟨s.size, x, ?_, ?_, ?_, ?_, ?_⟩
  · rw [hsus.size]
    exact Nat.lt_succ_self _
  · rw [hsus.scheduled]
    exact fun e => absurd (h.bound _ e) (lt_irrefl _)
  · rw [hsus.awaited, Function.update_self]
  · rw [hsus.result]
    exact hres
  · rw [hsus.posted]
    exact hposted

/-- No wake-up is lost in a run that awaits its sessions promptly, and after any other `co_await` of
a session the turns of the scheduler alone lead to a lost one. -/
theorem wakeups_kept_iff_prompt (token : ℕ → Option ℕ) (pid : ℕ) :
    (∀ as, (machine token pid).Along (Prompt token) (machine token pid).initial as →
      (machine token pid).Always (fun s => ¬s.Lost) (machine token pid).initial as) ∧
    ∀ s, (machine token pid).Reachable s → ∀ a t, (machine token pid).step s a = some t →
      ¬Prompt token s a → ∃ as u, (∀ a ∈ as, a.isTurn = true) ∧
        (machine token pid).run t as = some u ∧ u.Lost := by
  constructor
  · intro as
    refine Machine.always_of_along (I := fun s => Inv token pid s ∧ s.Minded)
      (fun s h => h.2.not_lost) ?_ ⟨inv_initial, by simp [Minded, machine]⟩
    rintro s a t ⟨hinv, hm⟩ hp hs
    exact ⟨(step_inv a hinv hs).1, step_minded hinv hm hp hs⟩
  · intro s hs a t ht hp
    have hinv : Inv token pid s :=
      Machine.reachable_invariant inv_initial (fun s a t h hs => (step_inv a h hs).1) hs
    obtain ⟨k, x, hstuck⟩ := hinv.stuck_of_not_prompt hp ht
    exact hstuck.lost (step_inv a hinv ht).1

/-- The result comes from another thread while the coroutine waits for something else. -/
theorem set_before_awaited :
    ∃ s, (machine (fun _ => none) 0).run (machine (fun _ => none) 0).initial
        [.createSession, .await 0 (.conditionVariable 0) 0, .setResult false 1, .callPosted,
          .notifyOne true 0, .wakeUpNext, .await 0 (.session 1) 0] = some s ∧ s.Lost := by
  refine ⟨_, rfl, ⟨rfl, rfl, rfl⟩, 1, by decide, by decide, 1, by decide, by decide⟩

end Simple.Coro.Scheduler
