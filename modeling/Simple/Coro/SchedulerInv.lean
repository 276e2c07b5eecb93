import Simple.Coro.SchedulerPlaces

/-! Every step of the scheduler leaves each suspended coroutine in one place: where it waits, or once
among those that are scheduled. -/

namespace Simple.Coro

def Wait.isShared : Wait → Bool
  | .session _ | .rpc _ => true
  | _ => false

namespace Scheduler

open Simple.Lib Simple.Containers Simple.Gobang

variable {token : ℕ → Option ℕ} {pid : ℕ} {s t u : Scheduler} {xs ys : List ℕ} {j k : ℕ} {w : Wait}
  {onThread : Bool}

def tokenOf (token : ℕ → Option ℕ) (s : Scheduler) (k : ℕ) : Option ℕ := token (s.coroutine k)

def isCanceled (token : ℕ → Option ℕ) (s : Scheduler) (k : ℕ) : Bool :=
  s.tokens.isCancellationRequested (s.tokenOf token k)

def Noted (s : Scheduler) (k : ℕ) : Prop :=
  k ∈ s.scheduled ∨ k < s.size ∧ ∃ x, s.awaited k = .session x ∧ .wakeUpSession x ∈ s.posted

structure Core (pid : ℕ) (s : Scheduler) : Prop where
  nodup : s.scheduled.Nodup
  bound : ∀ k ∈ s.scheduled, k < s.size
  placed : s.Placed s.scheduled
  alone : ∀ j k, j < s.size → k < s.size → s.awaited j = s.awaited k →
    (s.awaited j).isShared = true → j ∉ s.resumed → k ∉ s.resumed → j = k
  sessions : s.rpcSession.Nodup
  issued : ∀ x ∈ s.rpcSession, RpcSystem.Issued pid s.rpc x
  awaiter : ∀ k < s.size, ∀ r, s.awaited k = .rpc r → r < s.rpcSession.length

structure Inv (token : ℕ → Option ℕ) (pid : ℕ) (s : Scheduler) : Prop extends Core pid s where
  tokens : s.tokens.Exact (s.tokenOf token)
    fun k => k < s.size ∧ k ∉ s.resumed ∧ s.isCanceled token k = false
  canceled : ∀ k < s.size, s.isCanceled token k = true → s.Noted k

lemma inv_initial : Inv token pid (machine token pid).initial where
  nodup := List.nodup_nil
  bound := by simp [machine, scheduled]
  placed :=
    { conditionVariable := fun _ => DList.Holds.empty
      timers := TimerQueue.valid_empty _
      timer := by simp [machine, TimerQueue.Queued]
      point := by simp [machine]
      frames := fun _ => List.nodup_nil
      frame := by simp [machine, waitingFor]
      session := by simp [machine, waitingFor]
      rpc := by simp [machine] }
  alone := by simp [machine]
  sessions := List.nodup_nil
  issued := by simp [machine]
  awaiter := by simp [machine]
  tokens := (Tokens.Exact.empty fun _ => none).congr (by simp [machine]) (by simp)
  canceled := by simp [machine]

lemma mem_scheduled_of_resumed (hk : k ∈ s.resumed) : k ∈ s.scheduled := by
  simp [scheduled, hk]

/-- `xs` have been taken from their places and scheduled. -/
structure Moved (s t : Scheduler) (xs : List ℕ) : Prop where
  size : t.size = s.size
  awaited : t.awaited = s.awaited
  coroutine : t.coroutine = s.coroutine
  rpc : t.rpc = s.rpc
  rpcSession : t.rpcSession = s.rpcSession
  resumed : ∀ k ∈ s.resumed, k ∈ t.resumed
  scheduled : t.scheduled.Perm (xs ++ s.scheduled)
  placed : t.Placed (xs ++ s.scheduled)

structure Woken (s t : Scheduler) (xs : List ℕ) : Prop extends Moved s t xs where
  tokens : t.tokens = s.tokens
  same : t.resumed = s.resumed
  posted : ∀ f ∈ s.posted, f ∈ t.posted

lemma Woken.refl (h : s.Placed s.scheduled) : Woken s s [] :=
  ⟨⟨rfl, rfl, rfl, rfl, rfl, fun _ => id, List.Perm.refl _, h⟩, rfl, rfl, fun _ => id⟩

lemma Woken.trans (h : Woken s t xs) (h' : Woken t u ys) : Woken s u (ys ++ xs) where
  size := h'.size.trans h.size
  awaited := h'.awaited.trans h.awaited
  coroutine := h'.coroutine.trans h.coroutine
  rpc := h'.rpc.trans h.rpc
  rpcSession := h'.rpcSession.trans h.rpcSession
  resumed := fun k hk => h'.resumed k (h.resumed k hk)
  tokens := h'.tokens.trans h.tokens
  same := h'.same.trans h.same
  posted := fun f hf => h'.posted f (h.posted f hf)
  scheduled := by
    rw [List.append_assoc]
    exact h'.scheduled.trans (h.scheduled.append_left ys)
  placed := by
    rw [List.append_assoc]
    exact h'.placed.congr fun k => (h.scheduled.append_left ys).symm.mem_iff

lemma Moved.mem_scheduled (h : Moved s t xs) : k ∈ t.scheduled ↔ k ∈ xs ∨ k ∈ s.scheduled := by
  rw [h.scheduled.mem_iff, List.mem_append]

lemma Woken.noted (h : Woken s t xs) (hk : s.Noted k) : t.Noted k := by
  rcases hk with hk | ⟨hlt, x, hx, hp⟩
  · exact .inl (h.mem_scheduled.mpr (.inr hk))
  · exact .inr ⟨h.size ▸ hlt, x, h.awaited ▸ hx, h.posted _ hp⟩

lemma Moved.noted_of (h : Moved s t xs) (hk : k ∉ s.scheduled → k ∈ xs) : t.Noted k := by
  by_cases hn : k ∈ s.scheduled
  · exact .inl (h.mem_scheduled.mpr (.inr hn))
  · exact .inl (h.mem_scheduled.mpr (.inl (hk hn)))

def Fresh (s : Scheduler) (xs : List ℕ) : Prop :=
  xs.Nodup ∧ ∀ k ∈ xs, k < s.size ∧ k ∉ s.scheduled

lemma Core.moved (h : Core pid s) (hw : Moved s t xs) (hx : Fresh s xs) : Core pid t where
  nodup := by
    refine hw.scheduled.nodup_iff.mpr (List.nodup_append.mpr ⟨hx.1, h.nodup, ?_⟩)
    rintro j hj k hk rfl
    exact (hx.2 j hj).2 hk
  bound := by
    intro k hk
    rw [hw.size]
    rcases hw.mem_scheduled.mp hk with hk | hk
    · exact (hx.2 k hk).1
    · exact h.bound k hk
  placed := hw.placed.congr fun k => hw.scheduled.mem_iff
  alone := by
    rw [hw.size, hw.awaited]
    intro j k hj hk he hs hjr hkr
    exact h.alone j k hj hk he hs (fun e => hjr (hw.resumed j e)) fun e => hkr (hw.resumed k e)
  sessions := hw.rpcSession ▸ h.sessions
  issued := by
    rw [hw.rpcSession, hw.rpc]
    exact h.issued
  awaiter := by
    rw [hw.size, hw.awaited, hw.rpcSession]
    exact h.awaiter

lemma Moved.tokenOf_eq (hw : Moved s t xs) : t.tokenOf token = s.tokenOf token := by
  funext k
  rw [tokenOf, tokenOf, hw.coroutine]

lemma Inv.woken (h : Inv token pid s) (hw : Woken s t xs) (hx : Fresh s xs) : Inv token pid t := by
  have hcanceled : t.isCanceled token = s.isCanceled token := by
    funext k
    rw [isCanceled, isCanceled, hw.tokens, hw.tokenOf_eq]
  refine { h.toCore.moved hw.toMoved hx with tokens := ?_, canceled := ?_ }
  · rw [hw.tokenOf_eq, hcanceled, hw.tokens, hw.size, hw.same]
    exact h.tokens
  · rw [hcanceled, hw.size]
    exact fun k hk hc => hw.noted (h.canceled k hk hc)

lemma Fresh.nil : Fresh s [] := ⟨List.nodup_nil, by simp⟩

lemma Fresh.singleton (hk : k < s.size) (hn : k ∉ s.scheduled) : Fresh s [k] := by
  refine ⟨List.nodup_singleton k, ?_⟩
  intro j hj
  obtain rfl := List.mem_singleton.mp hj
  exact ⟨hk, hn⟩

lemma scheduled_wakeUpCoroutine :
    (wakeUpCoroutine onThread s k).scheduled.Perm (k :: s.scheduled) := by
  cases onThread with
  | true =>
    simp only [wakeUpCoroutine, scheduled, if_true, List.append_assoc, List.singleton_append]
    refine List.Perm.trans ?_ List.perm_middle
    exact List.Perm.append_left _ List.perm_middle
  | false =>
    simp only [wakeUpCoroutine, scheduled, Bool.false_eq_true, if_false, List.filterMap_append,
      List.append_assoc]
    refine List.Perm.trans ?_ List.perm_middle
    refine List.Perm.append_left _ (List.Perm.trans ?_ List.perm_middle)
    exact List.Perm.append_left _ List.perm_middle

lemma Placed.of_wakeUpCoroutine {out : List ℕ} (h : s.Placed out) :
    (wakeUpCoroutine onThread s k).Placed out := by
  rw [wakeUpCoroutine]
  split_ifs <;> exact { h with }

lemma woken_leave (h : s.Placed s.scheduled) : Woken s (wakeUpCoroutine onThread (s.leave k) k) [k] := by
  have hplaced : (wakeUpCoroutine onThread (s.leave k) k).Placed (k :: s.scheduled) :=
    h.leave.of_wakeUpCoroutine
  have hperm : (wakeUpCoroutine onThread (s.leave k) k).scheduled.Perm (k :: s.scheduled) :=
    scheduled_wakeUpCoroutine
  cases onThread with
  | true => exact ⟨⟨rfl, rfl, rfl, rfl, rfl, fun _ => id, hperm, hplaced⟩, rfl, rfl, fun _ => id⟩
  | false =>
    refine ⟨⟨rfl, rfl, rfl, rfl, rfl, fun _ => id, hperm, hplaced⟩, rfl, rfl, ?_⟩
    intro f hf
    simp [wakeUpCoroutine, leave, hf]

/-- What a callback of the suspension `k` may do. -/
def Aborted (s t : Scheduler) (k : ℕ) : Prop :=
  ∃ xs, Woken s t xs ∧ Fresh s xs ∧ (∀ j ∈ xs, j = k) ∧ t.Noted k

lemma Core.aborted_wake (h : Core pid s) (hk : k < s.size) (hn : k ∉ s.scheduled)
    (hl : s.leave k = u) : Aborted s (wakeUpCoroutine onThread u k) k := by
  subst hl
  have hw : Woken s (wakeUpCoroutine onThread (s.leave k) k) [k] := woken_leave h.placed
  refine ⟨[k], hw, Fresh.singleton hk hn, fun j hj => List.mem_singleton.mp hj, ?_⟩
  exact .inl (hw.mem_scheduled.mpr (.inl (List.mem_singleton_self k)))

lemma Core.aborted_refl (h : Core pid s) (hn : s.Noted k) : Aborted s s k :=
  ⟨[], Woken.refl h.placed, Fresh.nil, by simp, hn⟩

lemma Core.aborted_ite (h : Core pid s) (hk : k < s.size) {p : Prop} [Decidable p]
    (hp : p ↔ k ∉ s.scheduled) (hl : s.leave k = u) :
    Aborted s (if p then wakeUpCoroutine onThread u k else s) k := by
  split_ifs with hn
  · exact h.aborted_wake hk (hp.mp hn) hl
  · exact h.aborted_refl (.inl (by_contra fun e => hn (hp.mpr e)))

lemma Core.waitMap_of_waiting {x : ℕ} (h : Core pid s) (hk : k < s.size)
    (hx : s.awaited k = .session x) (hn : k ∉ s.scheduled) : s.waitMap x = some k :=
  (h.placed.session x k).mpr (mem_waitingFor.mpr ⟨hk, hx, hn⟩)

lemma Core.scheduled_of_session {x : ℕ} (h : Core pid s) (hk : k < s.size)
    (hx : s.awaited k = .session x) (hm : s.waitMap x = none) : k ∈ s.scheduled := by
  by_contra hn
  have hsome := h.waitMap_of_waiting hk hx hn
  simp [hm] at hsome

lemma Core.wakeUpSession {x : ℕ} (h : Core pid s) :
    ∃ xs, Woken s (s.wakeUpSession onThread x) xs ∧ Fresh s xs ∧
      (∀ k ∈ xs, k < s.size ∧ s.awaited k = .session x) ∧
      ∀ k < s.size, s.awaited k = .session x → (s.wakeUpSession onThread x).Noted k := by
  cases onThread with
  | true =>
    simp only [Scheduler.wakeUpSession, if_true]
    cases hm : s.waitMap x with
    | none =>
      refine ⟨[], Woken.refl h.placed, Fresh.nil, by simp, ?_⟩
      intro k hk hx
      exact .inl (h.scheduled_of_session hk hx hm)
    | some j =>
      obtain ⟨hj, hjx, hjn⟩ := mem_waitingFor.mp ((h.placed.session x j).mp hm)
      have hw : Woken s (wakeUpCoroutine true
          { s with waitMap := Function.update s.waitMap x none } j) [j] :=
        h.placed.leave_session hm ▸ woken_leave h.placed
      refine ⟨[j], hw, Fresh.singleton hj hjn, ?_, ?_⟩
      · intro k hk
        obtain rfl := List.mem_singleton.mp hk
        exact ⟨hj, hjx⟩
      · intro k hk hx
        refine hw.noted_of fun hn => ?_
        have hkj := (h.waitMap_of_waiting hk hx hn).symm.trans hm
        exact List.mem_singleton.mpr (Option.some.inj hkj)
  | false =>
    have hsched : (s.wakeUpSession false x).scheduled = s.scheduled := by
      simp [Scheduler.wakeUpSession, scheduled, Posted.handle]
    refine ⟨[], ⟨⟨rfl, rfl, rfl, rfl, rfl, fun _ => id, ?_, ?_⟩, rfl, rfl, ?_⟩, Fresh.nil, by simp, ?_⟩
    · rw [hsched, List.nil_append]
    · rw [Scheduler.wakeUpSession]
      exact { h.placed with }
    · intro f hf
      simp [Scheduler.wakeUpSession, hf]
    · intro k hk hx
      exact .inr ⟨hk, x, hx, by simp [Scheduler.wakeUpSession]⟩

lemma Core.rpcMap_of_waiting {r : ℕ} {x : UInt64} (h : Core pid s) (hk : k < s.size)
    (hw : s.awaited k = .rpc r) (hx : s.rpcSession[r]? = some x) (hn : k ∉ s.scheduled) :
    s.rpcMap x = some k := (h.placed.rpc x k).mpr ⟨r, mem_waitingFor.mpr ⟨hk, hw, hn⟩, hx⟩

lemma Core.wakeUpRpc {x : UInt64} (h : Core pid s) :
    ∃ xs, Woken s (s.wakeUpRpc onThread x) xs ∧ Fresh s xs ∧
      (∀ k ∈ xs, k < s.size ∧ ∃ r, s.awaited k = .rpc r ∧ s.rpcSession[r]? = some x) ∧
      ∀ k < s.size, ∀ r, s.awaited k = .rpc r → s.rpcSession[r]? = some x →
        (s.wakeUpRpc onThread x).Noted k := by
  rw [Scheduler.wakeUpRpc]
  cases hm : s.rpcMap x with
  | none =>
    refine ⟨[], Woken.refl h.placed, Fresh.nil, by simp, ?_⟩
    intro k hk r hr hx
    refine .inl (by_contra fun hn => ?_)
    have hsome := h.rpcMap_of_waiting hk hr hx hn
    simp [hm] at hsome
  | some j =>
    obtain ⟨r, hjr, hx⟩ := (h.placed.rpc x j).mp hm
    obtain ⟨hj, hjw, hjn⟩ := mem_waitingFor.mp hjr
    have hw : Woken s (wakeUpCoroutine onThread
        { s with rpcMap := Function.update s.rpcMap x none } j) [j] :=
      h.placed.leave_rpc hm ▸ woken_leave h.placed
    refine ⟨[j], hw, Fresh.singleton hj hjn, ?_, ?_⟩
    · intro k hk
      obtain rfl := List.mem_singleton.mp hk
      exact ⟨hj, r, hjw, hx⟩
    · intro k hk r' hr' hx'
      refine hw.noted_of fun hn => ?_
      have hkj := (h.rpcMap_of_waiting hk hr' hx' hn).symm.trans hm
      exact List.mem_singleton.mpr (Option.some.inj hkj)

lemma Core.eq_of_fresh (h : Core pid s) (hk : k < s.size) (hr : k ∉ s.resumed)
    (hs : (s.awaited k).isShared = true) (hx : Fresh s xs) (hj : j ∈ xs)
    (hw : s.awaited j = s.awaited k) : j = k := by
  obtain ⟨hlt, hn⟩ := hx.2 j hj
  exact h.alone j k hlt hk hw (hw ▸ hs) (fun e => hn (mem_scheduled_of_resumed e)) hr

lemma Core.callback (h : Core pid s) (hk : k < s.size) (hr : k ∉ s.resumed) :
    Aborted s (s.callback onThread k) k := by
  rw [Scheduler.callback]
  cases hw : s.awaited k with
  | conditionVariable v =>
    refine h.aborted_ite hk ?_ (h.placed.leave_conditionVariable hw)
    rw [(h.placed.conditionVariable v).hasAwaiter_iff, mem_waitingFor]
    simp [hk, hw]
  | timer p =>
    refine h.aborted_ite hk ?_ (h.placed.leave_timer hw)
    by_cases hq : s.timers.Queued k
    · have hn := ((h.placed.timer k).mp hq).2.1
      simp [(h.placed.timers.remove hq).1, hn]
    · have hn : k ∈ s.scheduled := by
        by_contra hn
        exact hq ((h.placed.timer k).mpr ⟨hk, hn, p, hw⟩)
      simp [TimerQueue.remove_of_not_queued hq, hn]
  | frame f =>
    refine h.aborted_ite hk ?_ (h.placed.leave_frame hw)
    rw [h.placed.frame, mem_waitingFor]
    simp [hk, hw]
  | session x =>
    obtain ⟨xs, hwoken, hx, hxs, hn⟩ := h.wakeUpSession
    refine ⟨xs, hwoken, hx, ?_, hn k hk hw⟩
    intro j hj
    exact h.eq_of_fresh hk hr (by simp [hw, Wait.isShared]) hx hj ((hxs j hj).2.trans hw.symm)
  | rpc r =>
    obtain ⟨x, hrx⟩ : ∃ x, s.rpcSession[r]? = some x :=
      ⟨_, List.getElem?_eq_getElem (h.awaiter k hk r hw)⟩
    simp only [hrx]
    obtain ⟨xs, hwoken, hx, hxs, hn⟩ := h.wakeUpRpc
    refine ⟨xs, hwoken, hx, ?_, hn k hk r hw hrx⟩
    intro j hj
    obtain ⟨hlt, r', hr', hx'⟩ := hxs j hj
    have hrr : r' = r := (List.getElem?_inj (List.getElem?_eq_some_iff.mp hx').1 h.sessions).mp
      (hx'.trans hrx.symm)
    exact h.eq_of_fresh hk hr (by simp [hw, Wait.isShared]) hx hj (by rw [hr', hw, hrr])

lemma Core.callbacks {ks : List ℕ} (h : Core pid s) (hks : ∀ k ∈ ks, k < s.size ∧ k ∉ s.resumed) :
    ∃ xs, Woken s (ks.foldl (Scheduler.callback onThread) s) xs ∧ Fresh s xs ∧ (∀ j ∈ xs, j ∈ ks) ∧
      ∀ k ∈ ks, (ks.foldl (Scheduler.callback onThread) s).Noted k := by
  induction ks generalizing s with
  | nil => exact ⟨[], Woken.refl h.placed, Fresh.nil, by simp, by simp⟩
  | cons k ks ih =>
    obtain ⟨hk, hr⟩ := hks k List.mem_cons_self
    have habort : Aborted s (s.callback onThread k) k := h.callback hk hr
    obtain ⟨xs, hw, hx, hxk, hn⟩ := habort
    obtain ⟨ys, hw', hy, hyk, hn'⟩ := ih (h.moved hw.toMoved hx) (by
      intro j hj
      rw [hw.size, hw.same]
      exact hks j (List.mem_cons_of_mem k hj))
    refine ⟨ys ++ xs, hw.trans hw', ⟨?_, ?_⟩, ?_, ?_⟩
    · refine List.nodup_append.mpr ⟨hy.1, hx.1, ?_⟩
      rintro i hi j hj rfl
      exact (hy.2 i hi).2 (hw.mem_scheduled.mpr (.inl hj))
    · intro j hj
      rcases List.mem_append.mp hj with hj | hj
      · obtain ⟨hlt, hn⟩ := hy.2 j hj
        exact ⟨hw.size ▸ hlt, fun e => hn (hw.mem_scheduled.mpr (.inr e))⟩
      · exact hx.2 j hj
    · intro j hj
      rcases List.mem_append.mp hj with hj | hj
      · exact List.mem_cons_of_mem k (hyk j hj)
      · exact List.mem_cons.mpr (.inl (hxk j hj))
    · intro j hj
      rcases List.mem_cons.mp hj with rfl | hj
      · exact hw'.noted hn
      · exact hn' j hj

end Scheduler

end Simple.Coro
