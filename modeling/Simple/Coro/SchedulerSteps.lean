import Simple.Coro.SchedulerInv

/-! What each action of the scheduler does to the suspended coroutines, and the events by which they
are woken up. -/

namespace Simple.Coro.Scheduler

open Simple.Lib Simple.Containers Simple.Gobang

variable {token : ℕ → Option ℕ} {pid : ℕ} {s t u : Scheduler} {xs : List ℕ} {j k c v : ℕ} {w : Wait}
  {onThread : Bool}

/-- The suspension `k` is one that the action wakes up, where `woken` are those woken up before. -/
def Event (token : ℕ → Option ℕ) (s : Scheduler) (woken : ℕ → Prop) (k : ℕ) : Action → Prop
  | .notifyOne _ v => s.awaited k = .conditionVariable v ∧ ¬woken k ∧
      ∀ j < k, s.awaited j = .conditionVariable v → woken j
  | .notifyAll _ v => s.awaited k = .conditionVariable v
  | .advanceFrame _ => s.awaited k = .frame (s.frame + 1)
  | .setResult _ x => s.awaited k = .session x
  | .response _ x => ∃ r, s.awaited k = .rpc r ∧ s.rpcSession[r]? = some x
  | .readyTimers now => ∃ p, s.awaited k = .timer p ∧ max p 0 ≤ now
  | .cancel _ t => s.tokenOf token k = some t
  | .callPosted => ∃ x, s.awaited k = .session x ∧ s.posted.head? = some (.wakeUpSession x)
  | _ => False

lemma event_notifyOne {woken : ℕ → Prop} {onThread : Bool} {v : ℕ} :
    Event token s woken k (.notifyOne onThread v) ↔ s.awaited k = .conditionVariable v ∧ ¬woken k ∧
      ∀ j < k, s.awaited j = .conditionVariable v → woken j :=
  Iff.rfl

lemma event_callPosted {woken : ℕ → Prop} : Event token s woken k .callPosted ↔
    ∃ x, s.awaited k = .session x ∧ s.posted.head? = some (.wakeUpSession x) :=
  Iff.rfl

/-- `new` are the suspensions that an event has reached. -/
structure Grown (s t : Scheduler) (new : ℕ → Prop) : Prop where
  scheduled : ∀ k ∈ t.scheduled, k ∈ s.scheduled ∨ new k
  noted : ∀ k, s.Noted k → t.Noted k
  arrived : ∀ k, new k → t.Noted k

lemma Woken.grown {new : ℕ → Prop} (h : Woken s t xs) (hx : ∀ k ∈ xs, new k)
    (hn : ∀ k, new k → t.Noted k) : Grown s t new where
  scheduled := by
    intro k hk
    rcases h.mem_scheduled.mp hk with hk | hk
    · exact .inr (hx k hk)
    · exact .inl hk
  noted := fun k => h.noted
  arrived := hn

structure Suspended (token : ℕ → Option ℕ) (s t : Scheduler) (c : ℕ) (w : Wait) : Prop where
  size : t.size = s.size + 1
  coroutine : t.coroutine = Function.update s.coroutine s.size c
  awaited : t.awaited = Function.update s.awaited s.size w
  tokens : t.tokens = s.tokens.emplace (token c) s.size
  rpc : t.rpc = s.rpc
  rpcSession : t.rpcSession = s.rpcSession
  resumed : t.resumed = s.resumed
  posted : t.posted = s.posted
  result : t.result = s.result
  scheduled : t.scheduled = s.scheduled

lemma suspended_suspend : Suspended token s (s.suspend token c w) c w := by
  cases w with
  | conditionVariable v | timer p | frame f | session x =>
    exact ⟨rfl, rfl, rfl, rfl, rfl, rfl, rfl, rfl, rfl, rfl⟩
  | rpc r =>
    rw [suspend]
    cases hx : s.rpcSession[r]? with
    | none | some x => exact ⟨rfl, rfl, rfl, rfl, rfl, rfl, rfl, rfl, rfl, rfl⟩

namespace Suspended

variable (hs : Suspended token s t c w)
include hs

lemma lt_of_ne (hk : k < t.size) (hne : k ≠ s.size) : k < s.size := by
  have := hs.size
  omega

lemma awaited_of_ne (hk : k ≠ s.size) : t.awaited k = s.awaited k := by
  rw [hs.awaited, Function.update_of_ne hk]

lemma awaited_new : t.awaited s.size = w := by
  rw [hs.awaited, Function.update_self]

lemma tokenOf_of_ne (hk : k ≠ s.size) : t.tokenOf token k = s.tokenOf token k := by
  rw [tokenOf, tokenOf, hs.coroutine, Function.update_of_ne hk]

lemma tokenOf_new : t.tokenOf token s.size = token c := by
  rw [tokenOf, hs.coroutine, Function.update_self]

lemma isCanceled_of_ne (hk : k ≠ s.size) : t.isCanceled token k = s.isCanceled token k := by
  rw [isCanceled, isCanceled, hs.tokenOf_of_ne hk, hs.tokens, Tokens.isCancellationRequested_emplace]

lemma isCanceled_new : t.isCanceled token s.size = s.tokens.isCancellationRequested (token c) := by
  rw [isCanceled, hs.tokenOf_new, hs.tokens, Tokens.isCancellationRequested_emplace]

lemma noted (hk : s.Noted k) : t.Noted k := by
  rcases hk with hn | ⟨hk, x, hx, hp⟩
  · exact .inl (hs.scheduled ▸ hn)
  · have hk' : k < t.size := by
      have := hs.size
      omega
    exact .inr ⟨hk', x, (hs.awaited_of_ne hk.ne).trans hx, hs.posted ▸ hp⟩

end Suspended

lemma Core.unused (h : Core pid s) (hc : s.CanAwait w) : s.Unused w := by
  cases w with
  | conditionVariable v | timer p | frame f => trivial
  | session x =>
    obtain ⟨-, -, hfree⟩ := hc
    rw [Unused, Option.eq_none_iff_forall_ne_some]
    intro k hk
    obtain ⟨hlt, hx, hn⟩ := mem_waitingFor.mp ((h.placed.session x k).mp hk)
    exact hn (mem_scheduled_of_resumed (hfree k hlt hx))
  | rpc r =>
    obtain ⟨hr, hfree⟩ := hc
    refine ⟨_, List.getElem?_eq_getElem hr, ?_⟩
    rw [Option.eq_none_iff_forall_ne_some]
    intro k hk
    obtain ⟨r', hk', hx⟩ := (h.placed.rpc _ k).mp hk
    obtain ⟨hlt, hw, hn⟩ := mem_waitingFor.mp hk'
    rw [← List.getElem?_eq_getElem hr] at hx
    have hrr : r' = r := by
      refine (List.getElem?_inj ?_ h.sessions).mp hx
      exact h.awaiter k hlt r' hw
    exact hn (mem_scheduled_of_resumed (hfree k hlt (hrr ▸ hw)))

lemma CanAwait.free (hc : s.CanAwait w) (hw : w.isShared = true) : s.Free w := by
  cases w with
  | conditionVariable v | timer p | frame f => simp [Wait.isShared] at hw
  | session x => exact hc.2.2
  | rpc r => exact hc.2

lemma Core.suspended (h : Core pid s) (hc : s.CanAwait w) (hs : Suspended token s t c w)
    (hplaced : t.Placed s.scheduled) : Core pid t where
  nodup := hs.scheduled ▸ h.nodup
  bound := by
    intro k hk
    have := h.bound k (hs.scheduled ▸ hk)
    have := hs.size
    omega
  placed := hs.scheduled ▸ hplaced
  alone := by
    have hfree : w.isShared = true → ∀ k < s.size, s.awaited k = w → k ∈ s.resumed :=
      fun hw => hc.free hw
    intro i j hi hj he hshared hir hjr
    rw [hs.resumed] at hir hjr
    by_cases hin : i = s.size <;> by_cases hjn : j = s.size
    · rw [hin, hjn]
    · rw [hin, hs.awaited_new, hs.awaited_of_ne hjn] at he
      rw [hin, hs.awaited_new] at hshared
      exact absurd (hfree hshared j (hs.lt_of_ne hj hjn) he.symm) hjr
    · rw [hs.awaited_of_ne hin, hjn, hs.awaited_new] at he
      rw [hs.awaited_of_ne hin, he] at hshared
      exact absurd (hfree hshared i (hs.lt_of_ne hi hin) he) hir
    · rw [hs.awaited_of_ne hin, hs.awaited_of_ne hjn] at he
      rw [hs.awaited_of_ne hin] at hshared
      exact h.alone i j (hs.lt_of_ne hi hin) (hs.lt_of_ne hj hjn) he hshared hir hjr
  sessions := hs.rpcSession ▸ h.sessions
  issued := by
    rw [hs.rpcSession, hs.rpc]
    exact h.issued
  awaiter := by
    intro k hk r hr
    rw [hs.rpcSession]
    by_cases hkn : k = s.size
    · rw [hkn, hs.awaited_new] at hr
      subst hr
      exact hc.1
    · exact h.awaiter k (hs.lt_of_ne hk hkn) r ((hs.awaited_of_ne hkn).symm.trans hr)

lemma Inv.tokens_suspended (h : Inv token pid s) (hs : Suspended token s t c w)
    (hlive : s.tokens.isCancellationRequested (token c) = false) :
    t.tokens.Exact (t.tokenOf token)
      fun k => k < t.size ∧ k ∉ t.resumed ∧ t.isCanceled token k = false := by
  have hnot : s.size ∉ s.resumed :=
    fun e => absurd (h.bound _ (mem_scheduled_of_resumed e)) (lt_irrefl _)
  have hbefore : s.tokens.Exact (t.tokenOf token)
      fun k => k < s.size ∧ k ∉ s.resumed ∧ s.isCanceled token k = false :=
    h.tokens.congr (fun k => Iff.rfl) fun k hk => hs.tokenOf_of_ne hk.1.ne
  have hexact := hbefore.emplace (k := s.size) (fun e => absurd e.1 (lt_irrefl _))
    (by rw [hs.tokenOf_new]; exact hlive)
  rw [hs.tokenOf_new, ← hs.tokens] at hexact
  refine hexact.congr ?_ (fun _ _ => rfl)
  intro k
  rw [hs.resumed]
  by_cases hk : k = s.size
  · subst hk
    simp [hnot, hs.isCanceled_new, hlive, hs.size]
  · have hiff : k < t.size ↔ k < s.size := by
      have := hs.size
      omega
    rw [hs.isCanceled_of_ne hk, hiff]
    simp [hk]

lemma Inv.suspend (h : Inv token pid s) (hc : s.CanAwait w)
    (hlive : s.tokens.isCancellationRequested (token c) = false) :
    Inv token pid (s.suspend token c w) ∧ Grown s (s.suspend token c w) fun _ => False := by
  have hplaced : (s.suspend token c w).Placed s.scheduled :=
    h.placed.suspend h.bound (h.unused hc)
  have hs : Suspended token s (s.suspend token c w) c w := suspended_suspend
  generalize s.suspend token c w = t at hplaced hs
  refine ⟨⟨h.toCore.suspended hc hs hplaced, h.tokens_suspended hs hlive, ?_⟩, ⟨?_, ?_, ?_⟩⟩
  · intro k hk hkc
    by_cases hkn : k = s.size
    · rw [hkn, hs.isCanceled_new, hlive] at hkc
      exact absurd hkc (by simp)
    · have hold : s.isCanceled token k = true := (hs.isCanceled_of_ne hkn).symm.trans hkc
      exact hs.noted (h.canceled k (hs.lt_of_ne hk hkn) hold)
  · intro k hk
    exact .inl (hs.scheduled ▸ hk)
  · intro k
    exact hs.noted
  · intro k hk
    exact hk.elim

lemma Inv.resume_moved (h : Inv token pid s) (hm : Moved s t xs) (hx : Fresh s xs)
    (htokens : t.tokens = s.tokens.reset k) (hresumed : t.resumed = s.resumed ++ [k])
    (hnoted : ∀ j, s.Noted j → t.Noted j) : Inv token pid t := by
  have hcanceled : t.isCanceled token = s.isCanceled token := by
    funext j
    rw [isCanceled, isCanceled, htokens, hm.tokenOf_eq, Tokens.isCancellationRequested_reset]
  refine { h.toCore.moved hm hx with tokens := ?_, canceled := ?_ }
  · rw [htokens, hm.tokenOf_eq]
    refine h.tokens.reset.congr ?_ (fun _ _ => rfl)
    intro j
    rw [hm.size, hcanceled, hresumed]
    simp only [List.mem_append, List.mem_singleton, not_or]
    tauto
  · rw [hcanceled, hm.size]
    exact fun j hj hc => hnoted j (h.canceled j hj hc)

lemma Inv.resume_queued (h : Inv token pid s)
    (hsame : ∀ out, s.Placed out → u.Placed out) (hsize : u.size = s.size)
    (hawaited : u.awaited = s.awaited) (hcoroutine : u.coroutine = s.coroutine)
    (hrpc : u.rpc = s.rpc) (hsession : u.rpcSession = s.rpcSession) (htokens : u.tokens = s.tokens)
    (hresumed : u.resumed = s.resumed) (hperm : (u.resume k).scheduled.Perm s.scheduled)
    (hposted : ∀ x, .wakeUpSession x ∈ s.posted → .wakeUpSession x ∈ u.posted) :
    Inv token pid (u.resume k) ∧ Grown s (u.resume k) fun _ => False := by
  have hm : Moved s (u.resume k) [] := by
    refine ⟨hsize, hawaited, hcoroutine, hrpc, hsession, ?_, hperm, ?_⟩
    · intro j hj
      simp [Scheduler.resume, hresumed, hj]
    · exact { hsame _ h.placed with }
  have hnoted : ∀ j, s.Noted j → (u.resume k).Noted j := by
    rintro j (hj | ⟨hlt, x, hx, hp⟩)
    · exact .inl (hperm.mem_iff.mpr hj)
    · exact .inr ⟨hsize ▸ hlt, x, hawaited ▸ hx, hposted x hp⟩
  refine ⟨h.resume_moved (k := k) hm Fresh.nil (by rw [Scheduler.resume, htokens]) ?_ hnoted,
    ⟨?_, hnoted, fun _ => False.elim⟩⟩
  · rw [Scheduler.resume, hresumed]
  · intro j hj
    exact .inl (hperm.mem_iff.mp hj)

lemma Inv.wakeUpTimer {ready : List ℕ} (h : Inv token pid s) (hr : s.ready = k :: ready) :
    Inv token pid (Scheduler.resume { s with ready := ready } k) ∧
      Grown s (Scheduler.resume { s with ready := ready } k) fun _ => False := by
  refine h.resume_queued (fun out hp => { hp with }) rfl rfl rfl rfl rfl rfl rfl ?_ (fun _ => id)
  simp only [Scheduler.resume, scheduled, hr, List.cons_append]
  refine List.Perm.trans ?_ (List.perm_append_singleton k _)
  simp [List.append_assoc]

lemma Inv.wakeUpNext {wakeUp : List ℕ} (h : Inv token pid s) (hr : s.wakeUp = k :: wakeUp) :
    Inv token pid (Scheduler.resume { s with wakeUp := wakeUp } k) ∧
      Grown s (Scheduler.resume { s with wakeUp := wakeUp } k) fun _ => False := by
  refine h.resume_queued (fun out hp => { hp with }) rfl rfl rfl rfl rfl rfl rfl ?_ (fun _ => id)
  simp only [Scheduler.resume, scheduled, hr, List.cons_append]
  refine List.Perm.append_left _ (List.Perm.trans ?_ (List.perm_append_singleton k _))
  simp [List.append_assoc]

lemma Inv.callResume {posted : List Posted} (h : Inv token pid s)
    (hr : s.posted = .resume k :: posted) :
    Inv token pid (Scheduler.resume { s with posted := posted } k) ∧
      Grown s (Scheduler.resume { s with posted := posted } k) fun _ => False := by
  refine h.resume_queued (fun out hp => { hp with }) rfl rfl rfl rfl rfl rfl rfl ?_ ?_
  · simp only [Scheduler.resume, scheduled, hr, Posted.handle, List.filterMap_cons, List.cons_append]
    refine List.Perm.append_left _ (List.Perm.append_left _ ?_)
    refine List.Perm.trans ?_ (List.perm_append_singleton k _)
    simp [List.append_assoc]
  · intro x hx
    simpa [hr] using hx

lemma scheduled_wakeUpSession {x : ℕ} {posted : List Posted}
    (hp : s.posted = .wakeUpSession x :: posted) :
    scheduled { s with posted := posted } = s.scheduled := by
  simp only [scheduled, hp]
  rw [List.filterMap_cons_none rfl]

lemma Noted.called {x : ℕ} {posted : List Posted} (hp : s.posted = .wakeUpSession x :: posted)
    (hsize : t.size = s.size) (hawaited : t.awaited = s.awaited) (hposted : t.posted = posted)
    (hsched : ∀ j ∈ s.scheduled, j ∈ t.scheduled)
    (hdone : ∀ j < s.size, s.awaited j = .session x → j ∈ t.scheduled) (hk : s.Noted k) : t.Noted k := by
  rcases hk with hk | ⟨hlt, y, hy, hmem⟩
  · exact .inl (hsched k hk)
  · by_cases hyx : y = x
    · exact .inl (hdone k hlt (hyx ▸ hy))
    · refine .inr ⟨hsize ▸ hlt, y, hawaited ▸ hy, ?_⟩
      simpa [hposted, hp, hyx] using hmem

lemma Inv.callWakeUpSession_nobody {x : ℕ} {posted : List Posted} (h : Inv token pid s)
    (hp : s.posted = .wakeUpSession x :: posted) (hm : s.waitMap x = none) :
    Inv token pid { s with posted := posted } ∧
      Grown s { s with posted := posted } fun k => k < s.size ∧ s.awaited k = .session x := by
  have hsched := scheduled_wakeUpSession hp
  have hplaced : Placed { s with posted := posted } s.scheduled := { h.placed with }
  have hdone : ∀ j < s.size, s.awaited j = .session x → j ∈ scheduled { s with posted := posted } := by
    intro j hj hx
    rw [hsched]
    exact h.scheduled_of_session hj hx hm
  have hnoted : ∀ j, s.Noted j → Noted { s with posted := posted } j :=
    fun j => Noted.called hp rfl rfl rfl (fun i hi => hsched ▸ hi) hdone
  refine ⟨?_, ⟨?_, hnoted, fun j hj => .inl (hdone j hj.1 hj.2)⟩⟩
  · exact { h with
      nodup := hsched ▸ h.nodup
      bound := by
        rw [hsched]
        exact h.bound
      placed := hsched ▸ hplaced
      canceled := fun j hj hc => hnoted j (h.canceled j hj hc) }
  · intro j hj
    exact .inl (hsched ▸ hj)

lemma Inv.callWakeUpSession {x : ℕ} {posted : List Posted} (h : Inv token pid s)
    (hp : s.posted = .wakeUpSession x :: posted) :
    Inv token pid (call { s with posted := posted } (.wakeUpSession x)) ∧
      Grown s (call { s with posted := posted } (.wakeUpSession x))
        fun k => k < s.size ∧ s.awaited k = .session x := by
  cases hm : s.waitMap x with
  | none =>
    simp only [call, hm]
    exact h.callWakeUpSession_nobody hp hm
  | some k =>
    have hplaced : Placed { s with posted := posted } s.scheduled := { h.placed with }
    obtain ⟨hk, hkx, hn⟩ := mem_waitingFor.mp ((h.placed.session x k).mp hm)
    have hleave := hplaced.leave_session (x := x) (k := k) hm
    simp only [call, hm]
    rw [← hleave]
    have hperm : (Scheduler.resume (leave { s with posted := posted } k) k).scheduled.Perm
        ([k] ++ s.scheduled) := by
      have hend : (Scheduler.resume (leave { s with posted := posted } k) k).scheduled =
          scheduled { s with posted := posted } ++ [k] := by
        simp [Scheduler.resume, leave, scheduled, List.append_assoc]
      rw [hend, scheduled_wakeUpSession hp]
      exact List.perm_append_singleton k _
    have hmoved : Moved s (Scheduler.resume (leave { s with posted := posted } k) k) [k] := by
      refine ⟨rfl, rfl, rfl, rfl, rfl, ?_, hperm, ?_⟩
      · intro j hj
        simp [Scheduler.resume, leave, hj]
      · exact { hplaced.leave (k := k) with }
    generalize hr : Scheduler.resume (leave { s with posted := posted } k) k = t at hmoved
    have hdone : ∀ j < s.size, s.awaited j = .session x → j ∈ t.scheduled := by
      intro j hj hx
      rw [hmoved.mem_scheduled]
      by_cases hjn : j ∈ s.scheduled
      · exact .inr hjn
      · have hjk := (h.waitMap_of_waiting hj hx hjn).symm.trans hm
        exact .inl (List.mem_singleton.mpr (Option.some.inj hjk))
    have hnoted : ∀ j, s.Noted j → t.Noted j := fun j => Noted.called hp hmoved.size hmoved.awaited
      (by rw [← hr]; rfl) (fun i hi => hmoved.mem_scheduled.mpr (.inr hi)) hdone
    refine ⟨h.resume_moved (k := k) hmoved (Fresh.singleton hk hn) ?_ ?_ hnoted, ⟨?_, hnoted, ?_⟩⟩
    · rw [← hr]
      rfl
    · rw [← hr]
      rfl
    · intro j hj
      rcases hmoved.mem_scheduled.mp hj with hj | hj
      · obtain rfl := List.mem_singleton.mp hj
        exact .inr ⟨hk, hkx⟩
      · exact .inl hj
    · rintro j ⟨hj, hx⟩
      exact .inl (hdone j hj hx)

lemma Inv.cancel (h : Inv token pid s) (onThread : Bool) (a : ℕ) :
    Inv token pid (s.requestCancellation onThread a) ∧
      Grown s (s.requestCancellation onThread a) fun k => k < s.size ∧ s.tokenOf token k = some a := by
  have hcore : Core pid { s with tokens := (s.tokens.requestCancellation a).1 } :=
    { h.toCore with placed := { h.placed with } }
  have hks : ∀ k ∈ (s.tokens.requestCancellation a).2, k < s.size ∧ k ∉ s.resumed := by
    intro k hk
    have hwait := h.tokens.waiting_of_mem_request hk
    exact ⟨hwait.1, hwait.2.1⟩
  obtain ⟨xs, hw, hx, hmem, hreached⟩ := hcore.callbacks hks
  change Woken _ (s.requestCancellation onThread a) xs at hw
  change ∀ k ∈ _, (s.requestCancellation onThread a).Noted k at hreached
  generalize s.requestCancellation onThread a = t at hw hreached
  have hnoted : ∀ k, s.Noted k → t.Noted k := fun k hk => hw.noted hk
  have htoken : t.tokenOf token = s.tokenOf token := hw.tokenOf_eq
  have hcanceled : ∀ k, t.isCanceled token k = true ↔
      s.isCanceled token k = true ∨ s.tokenOf token k = some a := by
    intro k
    rw [isCanceled, hw.tokens, htoken]
    exact Tokens.isCancellationRequested_request _ _ _
  have harrived : ∀ k < s.size, s.tokenOf token k = some a → t.Noted k := by
    intro k hk ha
    by_cases hr : k ∈ s.resumed
    · exact hnoted k (.inl (mem_scheduled_of_resumed hr))
    · cases hc : s.isCanceled token k with
      | true => exact hnoted k (h.canceled k hk hc)
      | false => exact hreached k ((h.tokens.mem_request ⟨hk, hr, hc⟩).mpr ha)
  have hlive : ∀ k, t.isCanceled token k = false ↔
      s.isCanceled token k = false ∧ s.tokenOf token k ≠ some a := by
    intro k
    rw [← Bool.not_eq_true, hcanceled, not_or, Bool.not_eq_true]
  have hsize : t.size = s.size := hw.size
  have hresumed : t.resumed = s.resumed := hw.same
  refine ⟨{ hcore.moved hw.toMoved hx with tokens := ?_, canceled := ?_ }, ⟨?_, hnoted, ?_⟩⟩
  · rw [htoken, hw.tokens]
    refine h.tokens.request.congr ?_ (fun _ _ => rfl)
    intro k
    rw [hsize, hresumed, hlive]
    constructor
    · rintro ⟨hk, hr, hc, ha⟩
      exact ⟨⟨hk, hr, hc⟩, fun e => ha ((h.tokens.mem_request ⟨hk, hr, hc⟩).mp e)⟩
    · rintro ⟨⟨hk, hr, hc⟩, hn⟩
      exact ⟨hk, hr, hc, fun e => hn ((h.tokens.mem_request ⟨hk, hr, hc⟩).mpr e)⟩
  · intro k hk hc
    rw [hsize] at hk
    rcases (hcanceled k).mp hc with hc | ha
    · exact hnoted k (h.canceled k hk hc)
    · exact harrived k hk ha
  · intro k hk
    rcases hw.mem_scheduled.mp hk with hk | hk
    · have hwait := h.tokens.waiting_of_mem_request (hmem k hk)
      exact .inr ⟨hwait.1, (h.tokens.mem_request hwait).mp (hmem k hk)⟩
    · exact .inl hk
  · rintro k ⟨hk, ha⟩
    exact harrived k hk ha

lemma Inv.grown_wake {new : ℕ → Prop} (h : Inv token pid s) (hw : Woken s t xs) (hx : Fresh s xs)
    (hnew : ∀ k ∈ xs, new k) (hn : ∀ k, new k → t.Noted k) :
    Inv token pid t ∧ Grown s t new := ⟨h.woken hw hx, hw.grown hnew hn⟩

lemma head_waitingFor_iff {out : List ℕ} :
    (s.waitingFor out w).head? = some k ↔
      k < s.size ∧ s.awaited k = w ∧ k ∉ out ∧ ∀ j < k, s.awaited j = w → j ∈ out := by
  rw [waitingFor, List.head?_filter, List.find?_range_eq_some]
  simp only [decide_eq_true_eq, List.mem_range, Bool.not_eq_true', decide_eq_false_iff_not, not_and,
    not_not]
  tauto

lemma Inv.notifyOne (h : Inv token pid s) (onThread : Bool) (v : ℕ) :
    Inv token pid (s.notifyOne onThread v) ∧ Grown s (s.notifyOne onThread v) fun k =>
      k < s.size ∧ s.awaited k = .conditionVariable v ∧ k ∉ s.scheduled ∧
        ∀ j < k, s.awaited j = .conditionVariable v → j ∈ s.scheduled := by
  rw [Scheduler.notifyOne, (h.placed.conditionVariable v).header]
  cases hhead : (s.waitingFor s.scheduled (.conditionVariable v)).head? with
  | none =>
    refine h.grown_wake (Woken.refl h.placed) Fresh.nil (by simp) ?_
    intro k hk
    have := head_waitingFor_iff.mpr hk
    simp [hhead] at this
  | some k =>
    obtain ⟨hk, hkv, hn, hmin⟩ := head_waitingFor_iff.mp hhead
    have hwake : Woken s (wakeUpCoroutine onThread (s.removeAwaiter v k) k) [k] :=
      h.placed.leave_conditionVariable hkv ▸ woken_leave h.placed
    refine h.grown_wake hwake (Fresh.singleton hk hn) ?_ ?_
    · intro j hj
      obtain rfl := List.mem_singleton.mp hj
      exact ⟨hk, hkv, hn, hmin⟩
    · intro j hj
      have hjk : some k = some j := hhead.symm.trans (head_waitingFor_iff.mpr hj)
      exact .inl (hwake.mem_scheduled.mpr (.inl (List.mem_singleton.mpr (Option.some.inj hjk).symm)))

lemma foldl_wakeUpCoroutine : xs.foldl (wakeUpCoroutine onThread) s = { s with
    wakeUp := if onThread then s.wakeUp ++ xs else s.wakeUp
    posted := if onThread then s.posted else s.posted ++ xs.map .resume } := by
  induction xs generalizing s with
  | nil => cases onThread <;> simp
  | cons k xs ih =>
    rw [List.foldl_cons, ih]
    cases onThread <;> simp [wakeUpCoroutine]

lemma scheduled_foldl : (xs.foldl (wakeUpCoroutine onThread) s).scheduled.Perm (xs ++ s.scheduled) := by
  induction xs generalizing s with
  | nil => exact List.Perm.refl _
  | cons k xs ih =>
    refine ih.trans ((List.Perm.append_left xs scheduled_wakeUpCoroutine).trans ?_)
    exact List.perm_middle

lemma woken_foldl {cv : ℕ → DList ℕ} {frames : ℕ → List ℕ} {f : ℕ}
    (hp : Placed { s with conditionVariable := cv, frameCoroutine := frames, frame := f }
      (xs ++ s.scheduled)) :
    Woken s (xs.foldl (wakeUpCoroutine onThread)
      { s with conditionVariable := cv, frameCoroutine := frames, frame := f }) xs := by
  have hperm : (xs.foldl (wakeUpCoroutine onThread)
      { s with conditionVariable := cv, frameCoroutine := frames, frame := f }).scheduled.Perm
      (xs ++ s.scheduled) := scheduled_foldl
  rw [foldl_wakeUpCoroutine] at hperm ⊢
  refine ⟨⟨rfl, rfl, rfl, rfl, rfl, fun _ => id, hperm, { hp with }⟩, rfl, rfl, ?_⟩
  intro g hg
  cases onThread <;> simp [hg]

/-- The nodes in `xs` no longer point anywhere. -/
def forget (d : DList ℕ) (xs : List ℕ) : DList ℕ :=
  { d with
    next := fun x => if x ∈ xs then none else d.next x
    prev := fun x => if x ∈ xs then none else d.prev x }

lemma forget_cons {d : DList ℕ} :
    forget { d with next := Function.update d.next k none, prev := Function.update d.prev k none } xs =
      forget d (k :: xs) := by
  have hupdate : ∀ f : ℕ → Option ℕ, (fun x => if x ∈ xs then none else Function.update f k none x) =
      fun x => if x ∈ k :: xs then none else f x := by
    intro f
    funext x
    by_cases hx : x = k <;> simp [hx]
  simp only [forget, hupdate]

lemma conditionVariable_wakeUpCoroutine :
    (wakeUpCoroutine onThread s k).conditionVariable = s.conditionVariable := by
  cases onThread <;> rfl

lemma wakeUpCoroutine_conditionVariable {cv : ℕ → DList ℕ} :
    { wakeUpCoroutine onThread s k with conditionVariable := cv } =
      wakeUpCoroutine onThread { s with conditionVariable := cv } k := by
  cases onThread <;> rfl

lemma notifyLoop_eq {fuel : ℕ} (hf : xs.length ≤ fuel) (hd : xs.Nodup)
    (hn : ∀ l x r, xs = l ++ x :: r → (s.conditionVariable v).next x = r.head?) :
    notifyLoop onThread v fuel xs.head? s = some (xs.foldl (wakeUpCoroutine onThread) { s with
      conditionVariable :=
        Function.update s.conditionVariable v (forget (s.conditionVariable v) xs) }) := by
  induction xs generalizing s fuel with
  | nil => simp [notifyLoop, forget]
  | cons k xs ih =>
    obtain ⟨fuel, rfl⟩ : ∃ n, fuel = n + 1 := by
      refine ⟨fuel - 1, ?_⟩
      rw [List.length_cons] at hf
      omega
    have hnext := hn [] k xs rfl
    have hk : k ∉ xs := (List.nodup_cons.mp hd).1
    simp only [List.head?_cons, notifyLoop, List.foldl_cons]
    rw [hnext, ih (Nat.le_of_succ_le_succ hf) (List.nodup_cons.mp hd).2]
    · rw [wakeUpCoroutine_conditionVariable, conditionVariable_wakeUpCoroutine]
      simp only [Function.update_self, Function.update_idem, forget_cons]
    · intro l x r hx
      have hxk : x ≠ k := fun e => hk (by simp [hx, e])
      rw [conditionVariable_wakeUpCoroutine]
      simp only [Function.update_self, Function.update_of_ne hxk]
      exact hn (k :: l) x r (by rw [hx, List.cons_append])

lemma Placed.notifyAll_eq {out : List ℕ} (h : s.Placed out) :
    s.notifyAll onThread v =
      some ((s.waitingFor out (.conditionVariable v)).foldl (wakeUpCoroutine onThread) { s with
        conditionVariable := Function.update s.conditionVariable v {} }) := by
  have hcv := h.conditionVariable v
  have hlen : (s.waitingFor out (.conditionVariable v)).length ≤ s.size := by
    simpa [waitingFor] using List.length_filter_le _ (List.range s.size)
  have hempty : { forget (s.conditionVariable v) (s.waitingFor out (.conditionVariable v)) with
      header := none, tail := none } = ({} : DList ℕ) := by
    refine DList.Holds.eq_empty ⟨List.nodup_nil, rfl, rfl, Linked.nil, ?_⟩
    intro x _
    by_cases hx : x ∈ s.waitingFor out (.conditionVariable v)
    · simp [forget, hx]
    · simpa [forget, hx] using hcv.off x hx
  rw [Scheduler.notifyAll, hcv.header,
    notifyLoop_eq hlen hcv.nodup fun l x r hx => (hcv.linked l x r hx).1, Option.map_some]
  rw [foldl_wakeUpCoroutine, foldl_wakeUpCoroutine]
  simp only [Function.update_self, Function.update_idem, hempty]

lemma Inv.notifyAll (h : Inv token pid s) (ht : s.notifyAll onThread v = some t) :
    Inv token pid t ∧ Grown s t fun k => k < s.size ∧ s.awaited k = .conditionVariable v := by
  rw [h.placed.notifyAll_eq, Option.some.injEq] at ht
  subst ht
  have hw : Woken s ((s.waitingFor s.scheduled (.conditionVariable v)).foldl
      (wakeUpCoroutine onThread) { s with
        conditionVariable := Function.update s.conditionVariable v {} })
      (s.waitingFor s.scheduled (.conditionVariable v)) :=
    woken_foldl (h.placed.clearConditionVariable fun k => Iff.rfl)
  refine h.grown_wake hw ⟨nodup_waitingFor, ?_⟩ ?_ ?_
  · intro k hk
    obtain ⟨hlt, -, hn⟩ := mem_waitingFor.mp hk
    exact ⟨hlt, hn⟩
  · intro k hk
    obtain ⟨hlt, hv, -⟩ := mem_waitingFor.mp hk
    exact ⟨hlt, hv⟩
  · rintro k ⟨hlt, hv⟩
    exact hw.noted_of fun hn => mem_waitingFor.mpr ⟨hlt, hv, hn⟩

lemma advanceFrame_eq {order : List ℕ} :
    s.advanceFrame order = order.foldl (wakeUpCoroutine true) { s with
      frame := s.frame + 1
      frameCoroutine := Function.update s.frameCoroutine (s.frame + 1) [] } := by
  rw [advanceFrame, foldl_wakeUpCoroutine, foldl_wakeUpCoroutine]

lemma Inv.advanceFrame {order : List ℕ} (h : Inv token pid s)
    (ho : order.Perm (s.frameCoroutine (s.frame + 1))) :
    Inv token pid (s.advanceFrame order) ∧ Grown s (s.advanceFrame order) fun k =>
      k < s.size ∧ s.awaited k = .frame (s.frame + 1) := by
  have hmem : ∀ k, k ∈ order ↔ k ∈ s.waitingFor s.scheduled (.frame (s.frame + 1)) :=
    fun k => ho.mem_iff.trans (h.placed.frame _ k)
  rw [advanceFrame_eq]
  have hw : Woken s (order.foldl (wakeUpCoroutine true) { s with
      frame := s.frame + 1
      frameCoroutine := Function.update s.frameCoroutine (s.frame + 1) [] }) order :=
    woken_foldl { h.placed.clearFrame hmem with }
  refine h.grown_wake hw ⟨ho.nodup_iff.mpr (h.placed.frames _), ?_⟩ ?_ ?_
  · intro k hk
    obtain ⟨hlt, -, hn⟩ := mem_waitingFor.mp ((hmem k).mp hk)
    exact ⟨hlt, hn⟩
  · intro k hk
    obtain ⟨hlt, hf, -⟩ := mem_waitingFor.mp ((hmem k).mp hk)
    exact ⟨hlt, hf⟩
  · rintro k ⟨hlt, hf⟩
    exact hw.noted_of fun hn => (hmem k).mpr (mem_waitingFor.mpr ⟨hlt, hf, hn⟩)

lemma Inv.wakeUpSession {x : ℕ} (h : Inv token pid s) (onThread : Bool) :
    Inv token pid (s.wakeUpSession onThread x) ∧ Grown s (s.wakeUpSession onThread x) fun k =>
      k < s.size ∧ s.awaited k = .session x := by
  obtain ⟨xs, hw, hx, hxs, hn⟩ := h.toCore.wakeUpSession
  exact h.grown_wake hw hx hxs fun k hk => hn k hk.1 hk.2

lemma Inv.setResult {x : ℕ} (h : Inv token pid s) (onThread : Bool) :
    Inv token pid (s.setResult onThread x) ∧ Grown s (s.setResult onThread x) fun k =>
      k < s.size ∧ s.awaited k = .session x := by
  have hresult : Inv token pid { s with result := Function.update s.result x true } :=
    { h with placed := { h.placed with } }
  obtain ⟨hinv, hgrown⟩ := hresult.wakeUpSession (x := x) onThread
  exact ⟨hinv, ⟨hgrown.scheduled, hgrown.noted, hgrown.arrived⟩⟩

lemma Inv.response {x : UInt64} (h : Inv token pid s) (onThread : Bool) :
    Inv token pid (s.wakeUpRpc onThread x) ∧ Grown s (s.wakeUpRpc onThread x) fun k =>
      k < s.size ∧ ∃ r, s.awaited k = .rpc r ∧ s.rpcSession[r]? = some x := by
  obtain ⟨xs, hw, hx, hxs, hn⟩ := h.toCore.wakeUpRpc
  refine h.grown_wake hw hx hxs ?_
  rintro k ⟨hk, r, hr, hrx⟩
  exact hn k hk r hr hrx

lemma Inv.readyTimers (h : Inv token pid s) (now : ℤ) (hr : s.ready = []) :
    Inv token pid { s with
      timers := (s.timers.getReadyTimers now).1, ready := (s.timers.getReadyTimers now).2 } ∧
    Grown s { s with
      timers := (s.timers.getReadyTimers now).1, ready := (s.timers.getReadyTimers now).2 }
      fun k => k < s.size ∧ ∃ p, s.awaited k = .timer p ∧ max p 0 ≤ now := by
  have hready := h.placed.timers.getReadyTimers now
  have hplaced := h.placed.readyTimers now
  have hmem : ∀ k, k ∈ (s.timers.getReadyTimers now).2 ↔
      k < s.size ∧ k ∉ s.scheduled ∧ ∃ p, s.awaited k = .timer p ∧ max p 0 ≤ now := by
    intro k
    rw [hready.mem, h.placed.timer]
    constructor
    · rintro ⟨⟨hk, hn, p, hp⟩, hle⟩
      exact ⟨hk, hn, p, hp, h.placed.point k hk p hp ▸ hle⟩
    · rintro ⟨hk, hn, p, hp, hle⟩
      exact ⟨⟨hk, hn, p, hp⟩, (h.placed.point k hk p hp).symm ▸ hle⟩
  have hw : Woken s { s with
      timers := (s.timers.getReadyTimers now).1, ready := (s.timers.getReadyTimers now).2 }
      (s.timers.getReadyTimers now).2 := by
    refine ⟨⟨rfl, rfl, rfl, rfl, rfl, fun _ => id, ?_, { hplaced with }⟩, rfl, rfl, fun _ => id⟩
    simp [scheduled, hr]
  refine h.grown_wake hw ⟨hready.nodup, ?_⟩ ?_ ?_
  · intro k hk
    exact ⟨((hmem k).mp hk).1, ((hmem k).mp hk).2.1⟩
  · intro k hk
    exact ⟨((hmem k).mp hk).1, ((hmem k).mp hk).2.2⟩
  · rintro k ⟨hk, hp⟩
    exact hw.noted_of fun hn => (hmem k).mpr ⟨hk, hn, hp⟩

lemma Inv.createRpc {now : ℕ} (h : Inv token pid s) (hf : (s.rpc.createSession pid now).1.Fits) :
    Inv token pid { s with
      rpc := (s.rpc.createSession pid now).1
      rpcSession := s.rpcSession ++ [(s.rpc.createSession pid now).2] } := by
  have hfits : (s.rpc.tick now).Fits := hf
  have hkeep : ∀ r < s.rpcSession.length,
      (s.rpcSession ++ [(s.rpc.createSession pid now).2])[r]? = s.rpcSession[r]? :=
    fun r hr => List.getElem?_append_left hr
  refine { h with placed := { h.placed with rpc := ?_ }, sessions := ?_, issued := ?_, awaiter := ?_ }
  · intro x k
    refine (h.placed.rpc x k).trans (exists_congr fun r => and_congr_right fun hk => ?_)
    obtain ⟨hlt, hw, -⟩ := mem_waitingFor.mp hk
    simp only [hkeep r (h.awaiter k hlt r hw)]
  · refine List.nodup_append.mpr ⟨h.sessions, List.nodup_singleton _, ?_⟩
    rintro x hx y hy rfl
    obtain rfl := List.mem_singleton.mp hy
    exact RpcSystem.createSession_ne hfits (h.issued _ hx) rfl
  · intro x hx
    rcases List.mem_append.mp hx with hx | hx
    · exact (h.issued x hx).tick
    · obtain rfl := List.mem_singleton.mp hx
      exact RpcSystem.issued_createSession pid hfits
  · intro k hk r hr
    have := h.awaiter k hk r hr
    simp only [List.length_append]
    omega

lemma Grown.congr {new new' : ℕ → Prop} (h : Grown s t new) (hn : ∀ k, new' k ↔ new k) :
    Grown s t new' where
  scheduled := fun k hk => (h.scheduled k hk).imp_right (hn k).mpr
  noted := h.noted
  arrived := fun k hk => h.arrived k ((hn k).mp hk)

lemma Grown.quiet {new : ℕ → Prop} (h : Grown s t fun _ => False) (hn : ∀ k, ¬new k) : Grown s t new :=
  h.congr fun k => iff_of_false (hn k) id

lemma grown_quiet {new : ℕ → Prop} (hs : t.scheduled = s.scheduled)
    (hn : ∀ k, s.Noted k → t.Noted k) (hnew : ∀ k, ¬new k) : Grown s t new :=
  ⟨fun _ hk => .inl (hs ▸ hk), hn, fun k hk => absurd hk (hnew k)⟩

lemma Inv.callPosted {f : Posted} {posted : List Posted} (h : Inv token pid s)
    (hp : s.posted = f :: posted) :
    Inv token pid (call { s with posted := posted } f) ∧
      Grown s (call { s with posted := posted } f) fun k =>
        k < s.size ∧ Event token s (· ∈ s.scheduled) k .callPosted := by
  cases f with
  | resume k =>
    refine (h.callResume hp).imp_right fun hg => hg.congr ?_
    intro j
    simp [event_callPosted, hp]
  | wakeUpSession x =>
    refine (h.callWakeUpSession hp).imp_right fun hg => hg.congr ?_
    intro j
    simp only [event_callPosted, hp, List.head?_cons, Option.some.injEq, Posted.wakeUpSession.injEq]
    constructor
    · rintro ⟨hj, y, hy, rfl⟩
      exact ⟨hj, hy⟩
    · rintro ⟨hj, hx⟩
      exact ⟨hj, x, hx, rfl⟩

inductive Stepped (token : ℕ → Option ℕ) (pid : ℕ) (s : Scheduler) : Action → Scheduler → Prop
  | createSession : Stepped token pid s .createSession { s with session := s.session + 1 }
  | createRpc {now : ℕ} : (s.rpc.createSession pid now).1.Fits → Stepped token pid s (.createRpc now)
      { s with
        rpc := (s.rpc.createSession pid now).1
        rpcSession := s.rpcSession ++ [(s.rpc.createSession pid now).2] }
  | goesOn {c : ℕ} {w : Wait} {now : ℤ} : Stepped token pid s (.await c w now) s
  | suspends {c : ℕ} {w : Wait} {now : ℤ} : s.CanAwait w → s.isReady token c w now = false →
      Stepped token pid s (.await c w now) (s.suspend token c w)
  | cancel {onThread : Bool} {a : ℕ} :
      Stepped token pid s (.cancel onThread a) (s.requestCancellation onThread a)
  | notifyOne {onThread : Bool} {v : ℕ} :
      Stepped token pid s (.notifyOne onThread v) (s.notifyOne onThread v)
  | notifyAll {onThread : Bool} {v : ℕ} {t : Scheduler} : s.notifyAll onThread v = some t →
      Stepped token pid s (.notifyAll onThread v) t
  | advanceFrame {order : List ℕ} : order.Perm (s.frameCoroutine (s.frame + 1)) →
      Stepped token pid s (.advanceFrame order) (s.advanceFrame order)
  | setResult {onThread : Bool} {x : ℕ} :
      Stepped token pid s (.setResult onThread x) (s.setResult onThread x)
  | response {onThread : Bool} {x : UInt64} :
      Stepped token pid s (.response onThread x) (s.wakeUpRpc onThread x)
  | readyTimers {now : ℤ} : s.ready = [] → Stepped token pid s (.readyTimers now)
      { s with timers := (s.timers.getReadyTimers now).1, ready := (s.timers.getReadyTimers now).2 }
  | callPosted {f : Posted} {posted : List Posted} : s.posted = f :: posted →
      Stepped token pid s .callPosted (call { s with posted := posted } f)
  | wakeUpTimer {k : ℕ} {ready : List ℕ} : s.ready = k :: ready →
      Stepped token pid s .wakeUpTimer (resume { s with ready := ready } k)
  | wakeUpNext {k : ℕ} {wakeUp : List ℕ} : s.wakeUp = k :: wakeUp →
      Stepped token pid s .wakeUpNext (resume { s with wakeUp := wakeUp } k)

lemma step_stepped {a : Action} (hs : (machine token pid).step s a = some t) :
    Stepped token pid s a t := by
  simp only [machine] at hs
  cases a with
  | createSession =>
    obtain rfl := Option.some.inj hs
    exact .createSession
  | createRpc now =>
    simp only [step] at hs
    split_ifs at hs with hf
    obtain rfl := Option.some.inj hs
    exact .createRpc hf
  | await c w now =>
    simp only [step] at hs
    split_ifs at hs with hc hr
    · obtain rfl := Option.some.inj hs
      exact .goesOn
    · obtain rfl := Option.some.inj hs
      exact .suspends hc.2 (by simpa using hr)
  | cancel onThread a =>
    obtain rfl := Option.some.inj hs
    exact .cancel
  | notifyOne onThread v =>
    obtain rfl := Option.some.inj hs
    exact .notifyOne
  | notifyAll onThread v => exact .notifyAll hs
  | advanceFrame order =>
    simp only [step] at hs
    split_ifs at hs with ho
    obtain rfl := Option.some.inj hs
    exact .advanceFrame ho
  | setResult onThread x =>
    simp only [step] at hs
    split_ifs at hs
    obtain rfl := Option.some.inj hs
    exact .setResult
  | response onThread x =>
    obtain rfl := Option.some.inj hs
    exact .response
  | readyTimers now =>
    simp only [step] at hs
    split_ifs at hs with hr
    obtain rfl := Option.some.inj hs
    exact .readyTimers hr
  | callPosted =>
    cases hp : s.posted with
    | nil => simp [step, hp] at hs
    | cons f posted =>
      simp only [step, hp, Option.some.injEq] at hs
      exact hs ▸ .callPosted hp
  | wakeUpTimer =>
    cases hr : s.ready with
    | nil => simp [step, hr] at hs
    | cons k ready =>
      simp only [step, hr, Option.some.injEq] at hs
      exact hs ▸ .wakeUpTimer hr
  | wakeUpNext =>
    cases hr : s.wakeUp with
    | nil => simp [step, hr] at hs
    | cons k wakeUp =>
      simp only [step, hr, Option.some.injEq] at hs
      exact hs ▸ .wakeUpNext hr

lemma step_inv (a : Action) (h : Inv token pid s) (hs : (machine token pid).step s a = some t) :
    Inv token pid t ∧ Grown s t fun k => k < s.size ∧ Event token s (· ∈ s.scheduled) k a := by
  cases step_stepped hs with
  | createSession =>
    exact ⟨{ h with placed := { h.placed with } }, grown_quiet rfl (fun k => id) fun _ hk => hk.2⟩
  | createRpc hf => exact ⟨h.createRpc hf, grown_quiet rfl (fun k => id) fun _ hk => hk.2⟩
  | goesOn => exact ⟨h, grown_quiet rfl (fun k => id) fun _ hk => hk.2⟩
  | suspends hc hr =>
    have hlive := (Bool.or_eq_false_iff.mp hr).1
    exact (h.suspend hc hlive).imp_right fun hg => hg.quiet fun _ hk => hk.2
  | cancel => exact h.cancel _ _
  | notifyOne => exact h.notifyOne _ _
  | notifyAll ht => exact h.notifyAll ht
  | advanceFrame ho => exact h.advanceFrame ho
  | setResult => exact h.setResult _
  | response => exact h.response _
  | readyTimers hr => exact h.readyTimers _ hr
  | callPosted hp => exact h.callPosted hp
  | wakeUpTimer hr => exact (h.wakeUpTimer hr).imp_right fun hg => hg.quiet fun _ hk => hk.2
  | wakeUpNext hr => exact (h.wakeUpNext hr).imp_right fun hg => hg.quiet fun _ hk => hk.2

end Simple.Coro.Scheduler
