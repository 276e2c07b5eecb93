import Simple.Coro.Parallel

/-! `when_ready` joins its children: the awaiting coroutine goes on once, when the last child has
completed, and the token of the children is cancelled at the completion that its wait type names. -/

namespace Simple.Coro.WhenReady

open Simple.Lib

variable {type : WaitType} {size : ℕ} {tuple token : Bool} {s t : WhenReady} {i j : ℕ}

inductive Stepped (s : WhenReady) : Action → WhenReady → Prop
  | empty (ha : s.await = .ready) (hs : s.size = 0) : Stepped s .await (s.goOn .continued)
  | early (ha : s.await = .ready) (hc : s.tokenCancelled = true) :
      Stepped s .await (s.goOn .canceled)
  | begin (ha : s.await = .ready) (hc : s.tokenCancelled = false) :
      Stepped s .await { s with await := .starting 0 }
  | start {i : ℕ} (ha : s.await = .starting i) (hi : i < s.size) (hq : s.Quiet) :
      Stepped s .start (s.start i)
  | sleep (ha : s.await = .starting s.size) (hq : s.Quiet) (hc : 1 < s.counter.count) :
      Stepped s .tryAwait { s with
        counter := { s.counter with handle := true, count := s.counter.count - 1 }
        await := .suspended
        registered := s.token && !s.tokenCancelled }
  | pass (ha : s.await = .starting s.size) (hq : s.Quiet) (hc : s.counter.count ≤ 1) :
      Stepped s .tryAwait (goOn { s with
        counter := { s.counter with handle := true, count := s.counter.count - 1 } } .continued)
  | suspend {i : ℕ} {cancellable : Bool} (hi : s.child i = .running)
      (hc : cancellable = true → s.counter.cancelled = false) :
      Stepped s (.suspend i cancellable)
        { s with child := Function.update s.child i (.suspended cancellable false) }
  | resume {i : ℕ} {cancellable woken : Bool} (hi : s.child i = .suspended cancellable woken) :
      Stepped s (.resume i) { s with child := Function.update s.child i .running }
  | complete {i : ℕ} {failed : Bool} (hi : s.child i = .running ∨ s.child i = .throwing) :
      Stepped s (.complete i failed) (s.complete i failed)
  | decrement {i : ℕ} {notifying : List ℕ} (hn : s.notifying = i :: notifying) :
      Stepped s .decrement (s.decrement notifying)
  | cancel (ht : s.token = true) : Stepped s .cancel s.cancelToken

lemma step_stepped {a : Action} (hs : (machine type size tuple token).step s a = some t) :
    Stepped s a t := by
  simp only [machine] at hs
  cases a with
  | await =>
    rw [step] at hs
    split_ifs at hs with ha
    obtain rfl := Option.some.inj hs
    by_cases h0 : s.tuple = true ∧ s.size = 0
    · rw [awaitSuspend, if_pos h0]
      exact .empty ha h0.2
    · rw [awaitSuspend, if_neg h0]
      by_cases hc : s.tokenCancelled = true
      · rw [if_pos hc]
        exact .early ha hc
      · rw [if_neg hc]
        exact .begin ha (by simpa using hc)
  | start =>
    cases ha : s.await with
    | starting i =>
      simp only [step, ha] at hs
      split_ifs at hs with hi
      obtain rfl := Option.some.inj hs
      exact .start ha hi.1 hi.2
    | ready | suspended | continued | canceled => simp [step, ha] at hs
  | tryAwait =>
    rw [step] at hs
    split_ifs at hs with ha
    obtain rfl := Option.some.inj hs
    by_cases hc : 1 < s.counter.count
    · simpa [tryAwait, hc] using Stepped.sleep ha.1 ha.2 hc
    · simpa [tryAwait, hc] using Stepped.pass ha.1 ha.2 (not_lt.mp hc)
  | suspend i cancellable =>
    rw [step] at hs
    split_ifs at hs with hi
    obtain rfl := Option.some.inj hs
    exact .suspend hi.1 hi.2
  | resume i =>
    cases hi : s.child i with
    | suspended cancellable woken =>
      simp only [step, hi, Option.some.injEq] at hs
      subst hs
      exact .resume hi
    | unstarted | running | throwing | finished => simp [step, hi] at hs
  | complete i failed =>
    cases hi : s.child i with
    | running =>
      simp only [step, hi, Option.some.injEq] at hs
      subst hs
      exact .complete (.inl hi)
    | throwing =>
      cases failed with
      | true =>
        simp only [step, hi, if_true, Option.some.injEq] at hs
        subst hs
        exact .complete (.inr hi)
      | false => simp [step, hi] at hs
    | unstarted | suspended | finished => simp [step, hi] at hs
  | decrement =>
    cases hn : s.notifying with
    | nil => simp [step, hn] at hs
    | cons i notifying =>
      simp only [step, hn, Option.some.injEq] at hs
      subst hs
      exact .decrement hn
  | cancel =>
    rw [step] at hs
    split_ifs at hs with ht
    obtain rfl := Option.some.inj hs
    exact .cancel ht

section Wake

variable {c : Child}

@[simp] lemma isFinished_wake : c.wake.isFinished = c.isFinished := by
  rcases c with _ | _ | _ | ⟨_ | _, _⟩ | _ <;> rfl

@[simp] lemma getIndex_wake : c.wake.getIndex = c.getIndex := by
  rcases c with _ | _ | _ | ⟨_ | _, _⟩ | _ <;> rfl

@[simp] lemma wake_eq_unstarted : c.wake = .unstarted ↔ c = .unstarted := by
  rcases c with _ | _ | _ | ⟨_ | _, _⟩ | _ <;> simp [Child.wake]

@[simp] lemma wake_eq_finished {index : ℕ} {failed : Bool} :
    c.wake = .finished index failed ↔ c = .finished index failed := by
  rcases c with _ | _ | _ | ⟨_ | _, _⟩ | _ <;> simp [Child.wake]

lemma woken_of_wake {woken : Bool} (h : c.wake = .suspended true woken) : woken = true := by
  rcases c with _ | _ | _ | ⟨_ | _, _⟩ | _ <;> simp_all [Child.wake]

end Wake

/-- A child has completed in a way at which `notify` requests the cancellation. -/
def Fired (s : WhenReady) : Prop :=
  ∃ i index failed, s.child i = .finished index failed ∧ s.counter.type.fires failed = true

def StartedTo (s : WhenReady) : Await → Prop
  | .ready => ∀ i, s.child i = .unstarted
  | .canceled => ∀ i, s.child i = .unstarted
  | .starting n => n ≤ s.size ∧ ∀ i, n ≤ i → s.child i = .unstarted
  | .suspended => 0 < s.counter.count ∧ s.counter.handle = true
  | .continued => s.counter.count = 0 ∧ s.counter.handle = true ∨ s.size = 0

structure Core (s : WhenReady) : Prop where
  finished : ∀ i, (s.child i).isFinished = true ↔ i ∈ s.order
  nodup : s.order.Nodup
  index : s.counter.index = s.order.length
  place : ∀ k i, s.order[k]? = some i → (s.child i).getIndex = k
  bound : ∀ i, s.size ≤ i → s.child i = .unstarted
  count : s.counter.count + s.order.length =
    s.size + (if s.counter.handle then 0 else 1) + s.notifying.length
  pending : s.notifying.length ≤ s.order.length
  await : s.StartedTo s.await
  handle : s.counter.handle = true → s.await = .suspended ∨ s.await = .continued
  resumed : s.resumed = if s.await = .continued ∨ s.await = .canceled then 1 else 0
  null : s.null = false
  woken : s.counter.cancelled = true → ∀ i woken, s.child i = .suspended true woken → woken = true

structure Inv (s : WhenReady) : Prop extends Core s where
  cancelled : s.counter.cancelled = true ↔ s.requested = true ∨ s.Fired

lemma inv_initial : Inv (machine type size tuple token).initial where
  finished := by simp [machine, Child.isFinished]
  nodup := List.nodup_nil
  index := rfl
  place := by simp [machine]
  bound := fun _ _ => rfl
  count := by simp [machine]
  pending := le_rfl
  await := fun _ => rfl
  handle := by simp [machine]
  resumed := by simp [machine]
  null := rfl
  cancelled := by simp [machine, Fired]
  woken := by simp [machine]

lemma Core.order_lt (h : Core s) (hi : i ∈ s.order) : i < s.size := by
  by_contra hlt
  have hf := (h.finished i).mpr hi
  simp [h.bound i (not_lt.mp hlt), Child.isFinished] at hf

lemma Core.order_subset (h : Core s) : s.order ⊆ List.range s.size :=
  fun _ hi => List.mem_range.mpr (h.order_lt hi)

lemma Core.order_length_le (h : Core s) : s.order.length ≤ s.size := by
  simpa using (List.subperm_of_subset h.nodup h.order_subset).length_le

lemma Core.order_perm (h : Core s) (hlen : s.order.length = s.size) :
    s.order.Perm (List.range s.size) :=
  (List.subperm_of_subset h.nodup h.order_subset).perm_of_length_le (by simp [hlen])

lemma Core.all_finished_iff (h : Core s) :
    (∀ i < s.size, (s.child i).isFinished = true) ↔ s.order.length = s.size := by
  constructor
  · intro hall
    refine le_antisymm h.order_length_le ?_
    have hsub : List.range s.size ⊆ s.order :=
      fun i hi => (h.finished i).mp (hall i (List.mem_range.mp hi))
    simpa using (List.subperm_of_subset List.nodup_range hsub).length_le
  · intro hlen i hi
    exact (h.finished i).mpr ((h.order_perm hlen).mem_iff.mpr (List.mem_range.mpr hi))

lemma Core.startedTo_of_child (h : Core s) (hi : s.child i ≠ .unstarted)
    (hother : ∀ j, j ≠ i → s.child j = .unstarted → t.child j = .unstarted)
    (hsize : t.size = s.size) (hcount : t.counter.count = s.counter.count)
    (hhandle : t.counter.handle = s.counter.handle) : t.StartedTo s.await := by
  have ha := h.await
  cases hs : s.await with
  | ready =>
    rw [hs] at ha
    exact absurd (ha i) hi
  | canceled =>
    rw [hs] at ha
    exact absurd (ha i) hi
  | starting n =>
    rw [hs] at ha
    refine ⟨hsize ▸ ha.1, ?_⟩
    intro j hj
    exact hother j (fun e => hi (e ▸ ha.2 j hj)) (ha.2 j hj)
  | suspended =>
    rw [hs] at ha
    rw [StartedTo, hcount, hhandle]
    exact ha
  | continued =>
    rw [hs] at ha
    rw [StartedTo, hcount, hhandle, hsize]
    exact ha

lemma Inv.moveChild {c : Child} {a : Await} (h : Inv s) (hi : (s.child i).isFinished = false)
    (hlt : i < s.size) (hc : c.isFinished = false)
    (hw : s.counter.cancelled = true → ∀ woken, c = .suspended true woken → woken = true)
    (hawait : StartedTo { s with child := Function.update s.child i c, await := a } a)
    (hhandle : s.counter.handle = true → a = .suspended ∨ a = .continued)
    (hresumed : s.resumed = if a = .continued ∨ a = .canceled then 1 else 0) :
    Inv { s with child := Function.update s.child i c, await := a } := by
  have hnot : i ∉ s.order := fun e => by simp [(h.finished i).mpr e] at hi
  refine { h with
    finished := ?_, place := ?_, bound := ?_
    await := hawait, handle := hhandle, resumed := hresumed
    woken := ?_
    cancelled := h.cancelled.trans (or_congr_right ?_) }
  · intro j
    by_cases hj : j = i
    · simp [hj, hc, hnot]
    · simpa [hj] using h.finished j
  · intro k j hj
    have hji : j ≠ i := fun e => hnot (e ▸ List.mem_of_getElem? hj)
    simpa [hji] using h.place k j hj
  · intro j hj
    have hji : j ≠ i := fun e => absurd hlt (not_lt.mpr (e ▸ hj))
    simpa [hji] using h.bound j hj
  · intro hcan j woken hj
    by_cases hji : j = i
    · exact hw hcan woken (by simpa [hji] using hj)
    · exact h.woken hcan j woken (by simpa [hji] using hj)
  · constructor
    · rintro ⟨j, index, failed, hj, hf⟩
      have hji : j ≠ i := by
        rintro rfl
        simp [hj, Child.isFinished] at hi
      exact ⟨j, index, failed, by simpa [hji] using hj, hf⟩
    · rintro ⟨j, index, failed, hj, hf⟩
      have hji : j ≠ i := by
        rintro rfl
        have hcj : c = .finished index failed := by simpa using hj
        simp [hcj, Child.isFinished] at hc
      exact ⟨j, index, failed, by simpa [hji] using hj, hf⟩

lemma Inv.setChild {c : Child} (h : Inv s) (hi : (s.child i).isFinished = false)
    (hu : s.child i ≠ .unstarted) (hc : c.isFinished = false)
    (hw : s.counter.cancelled = true → ∀ woken, c = .suspended true woken → woken = true) :
    Inv { s with child := Function.update s.child i c } := by
  have hlt : i < s.size := by
    by_contra hlt
    exact hu (h.bound i (not_lt.mp hlt))
  refine h.moveChild hi hlt hc hw (h.startedTo_of_child hu (fun j hj hju => ?_) rfl rfl rfl)
    h.handle h.resumed
  simpa [hj] using hju

lemma Core.cancelAll (h : Core s) (requested registered : Bool) :
    Core { s.requestCancellation with requested := requested, registered := registered } := by
  by_cases hc : s.counter.cancelled = true
  · rw [WhenReady.requestCancellation, if_pos hc]
    exact { h with }
  · rw [WhenReady.requestCancellation, if_neg hc]
    refine { h with
      finished := by simpa using h.finished
      place := by simpa using h.place
      bound := by simpa using h.bound
      await := ?_
      woken := fun _ i woken hi => woken_of_wake hi }
    have ha := h.await
    cases hs : s.await <;> simpa [hs, StartedTo] using ha

lemma cancelled_requestCancellation : s.requestCancellation.counter.cancelled = true := by
  rw [requestCancellation]
  split_ifs with hc
  · exact hc
  · rfl

lemma fired_requestCancellation (hf : s.Fired) : s.requestCancellation.Fired := by
  rw [requestCancellation]
  split_ifs
  · exact hf
  · obtain ⟨i, index, failed, hi, hfires⟩ := hf
    exact ⟨i, index, failed, by simpa using hi, hfires⟩

def finish (s : WhenReady) (i : ℕ) (failed : Bool) : WhenReady :=
  { s with
    child := Function.update s.child i (.finished s.counter.index failed)
    counter := { s.counter with index := s.counter.index + 1 }
    order := s.order ++ [i]
    notifying := i :: s.notifying }

lemma complete_eq {failed : Bool} :
    s.complete i failed =
      if s.counter.type.fires failed then (s.finish i failed).requestCancellation
      else s.finish i failed := by
  by_cases hf : s.counter.type.fires failed = true <;> by_cases hc : s.counter.cancelled = true <;>
    simp [complete, finish, requestCancellation, hf, hc]

lemma Core.finish {failed : Bool} (h : Core s) (hi : (s.child i).isFinished = false)
    (hu : s.child i ≠ .unstarted) : Core (s.finish i failed) := by
  have hnot : i ∉ s.order := fun e => by simp [(h.finished i).mpr e] at hi
  refine { h with
    finished := ?_
    nodup := List.nodup_append.mpr ⟨h.nodup, List.nodup_singleton i, ?_⟩
    index := by simp [WhenReady.finish, h.index]
    place := ?_, bound := ?_, count := ?_, pending := ?_
    await := h.startedTo_of_child hu (fun j hj hju => ?_) rfl rfl rfl
    woken := ?_ }
  · intro j
    by_cases hj : j = i
    · simp [WhenReady.finish, hj, Child.isFinished]
    · simpa [WhenReady.finish, hj] using h.finished j
  · rintro j hj k hk rfl
    exact hnot (List.mem_singleton.mp hk ▸ hj)
  · intro k j hj
    simp only [WhenReady.finish] at hj ⊢
    rcases lt_or_ge k s.order.length with hk | hk
    · rw [List.getElem?_append_left hk] at hj
      have hji : j ≠ i := fun e => hnot (e ▸ List.mem_of_getElem? hj)
      simpa [hji] using h.place k j hj
    · rw [List.getElem?_append_right hk] at hj
      obtain ⟨hk0, rfl⟩ : k - s.order.length = 0 ∧ i = j := by
        simpa [List.getElem?_singleton] using hj
      simp only [Function.update_self, Child.getIndex, h.index]
      omega
  · intro j hj
    have hji : j ≠ i := fun e => hu (e ▸ h.bound j hj)
    simpa [WhenReady.finish, hji] using h.bound j hj
  · have hcount := h.count
    cases hh : s.counter.handle <;> simp [WhenReady.finish, hh] at hcount ⊢ <;> omega
  · have hpending := h.pending
    simp only [WhenReady.finish, List.length_append, List.length_cons, List.length_nil]
    omega
  · simpa [WhenReady.finish, hj] using hju
  · intro hc j woken hj
    have hji : j ≠ i := by
      rintro rfl
      simp [WhenReady.finish] at hj
    exact h.woken hc j woken (by simpa [WhenReady.finish, hji] using hj)

lemma Inv.complete {failed : Bool} (h : Inv s) (hi : (s.child i).isFinished = false)
    (hu : s.child i ≠ .unstarted) : Inv (s.complete i failed) := by
  have hfin : Core (s.finish i failed) := h.finish hi hu
  rw [complete_eq]
  split_ifs with hf
  · have hfired : (s.finish i failed).Fired := ⟨i, s.counter.index, failed, by simp [finish], hf⟩
    have hcore : Core (s.finish i failed).requestCancellation :=
      hfin.cancelAll (s.finish i failed).requestCancellation.requested
        (s.finish i failed).requestCancellation.registered
    exact { hcore with
      cancelled := ⟨fun _ => .inr (fired_requestCancellation hfired),
        fun _ => cancelled_requestCancellation⟩ }
  · refine { hfin with cancelled := h.cancelled.trans (or_congr_right ?_) }
    constructor
    · rintro ⟨j, index, f, hj, hfires⟩
      have hji : j ≠ i := by
        rintro rfl
        simp [hj, Child.isFinished] at hi
      exact ⟨j, index, f, by simpa [finish, hji] using hj, hfires⟩
    · rintro ⟨j, index, f, hj, hfires⟩
      have hji : j ≠ i := by
        rintro rfl
        obtain ⟨-, rfl⟩ : s.counter.index = index ∧ failed = f := by simpa [finish] using hj
        exact hf hfires
      exact ⟨j, index, f, by simpa [finish, hji] using hj, hfires⟩

lemma decrement_last {notifying : List ℕ} (h1 : s.counter.count = 1) (hh : s.counter.handle = true) :
    s.decrement notifying = { s with
      notifying := notifying
      counter := { s.counter with count := 0 }
      await := .continued
      registered := false
      resumed := s.resumed + 1 } := by
  simp [decrement, goOn, h1, hh]

lemma decrement_more {notifying : List ℕ} (h1 : s.counter.count ≠ 1) :
    s.decrement notifying = { s with
      notifying := notifying
      counter := { s.counter with count := s.counter.count - 1 } } := by
  simp [decrement, h1]

lemma Inv.decrement {notifying : List ℕ} (h : Inv s) (hn : s.notifying = i :: notifying) :
    Inv (s.decrement notifying) := by
  have hcount := h.count
  have hpending := h.pending
  have hlen := h.order_length_le
  rw [hn, List.length_cons] at hcount hpending
  have hne : s.size ≠ 0 := by omega
  have hawait := h.await
  by_cases h1 : s.counter.count = 1
  · have hh : s.counter.handle = true := by
      by_contra hh
      rw [if_neg hh] at hcount
      omega
    have hsuspended : s.await = .suspended := by
      rcases h.handle hh with e | e
      · exact e
      · rw [e] at hawait
        rcases hawait with ⟨h0, -⟩ | h0 <;> omega
    rw [decrement_last h1 hh]
    refine { h with
      count := ?_
      pending := by simpa using Nat.le_of_succ_le hpending
      await := .inl ⟨rfl, hh⟩
      handle := fun _ => .inr rfl
      resumed := by simp [h.resumed, hsuspended] }
    rw [if_pos hh] at hcount
    simp only [hh, if_true]
    omega
  · rw [decrement_more h1]
    refine { h with
      count := ?_
      pending := by simpa using Nat.le_of_succ_le hpending
      await := ?_ }
    · simp only
      split_ifs at hcount ⊢ <;> omega
    · cases hs : s.await with
      | ready | canceled | starting =>
        rw [hs] at hawait
        exact hawait
      | suspended =>
        rw [hs] at hawait
        refine ⟨?_, hawait.2⟩
        have hpos := hawait.1
        simp only
        omega
      | continued =>
        rw [hs] at hawait
        rcases hawait with ⟨h0, -⟩ | h0
        · split_ifs at hcount <;> omega
        · exact absurd h0 hne

lemma cancelToken_eq :
    s.cancelToken =
      if s.tokenCancelled then s
      else if s.registered then
        { s.requestCancellation with tokenCancelled := true, registered := false, requested := true }
      else { s with tokenCancelled := true } := by
  by_cases h1 : s.tokenCancelled = true
  · simp [cancelToken, h1]
  · by_cases h2 : s.registered = true <;> by_cases h3 : s.counter.cancelled = true <;>
      simp [cancelToken, requestCancellation, h1, h2, h3]

lemma Inv.cancelToken (h : Inv s) : Inv s.cancelToken := by
  rw [cancelToken_eq]
  split_ifs
  · exact h
  · exact { h.cancelAll true false with
      cancelled := ⟨fun _ => .inl rfl, fun _ => cancelled_requestCancellation⟩ }
  · exact { h with }

lemma Core.count_of_quiet (h : Core s) (hq : s.Quiet) (hh : s.counter.handle = false) :
    s.counter.count + s.order.length = s.size + 1 := by
  simpa [hq.1, hh] using h.count

lemma Core.handle_of_await (h : Core s) (h1 : s.await ≠ .suspended) (h2 : s.await ≠ .continued) :
    s.counter.handle = false := by
  by_contra hh
  rcases h.handle (by simpa using hh) with e | e
  · exact h1 e
  · exact h2 e

lemma Inv.start (h : Inv s) (ha : s.await = .starting i) (hi : i < s.size) : Inv (s.start i) := by
  have hh := h.handle_of_await (by simp [ha]) (by simp [ha])
  have hawait := h.await
  rw [ha] at hawait
  refine h.moveChild (by simp [hawait.2 i le_rfl, Child.isFinished]) hi ?_ ?_ ⟨hi, ?_⟩ (by simp [hh])
    (by simp [h.resumed, ha])
  · split_ifs <;> rfl
  · intro _ woken
    split_ifs
    all_goals simp
  · intro j hj
    have hji : j ≠ i := by omega
    simpa [hji] using hawait.2 j (by omega)

lemma step_inv (a : Action) (h : Inv s) (hs : (machine type size tuple token).step s a = some t) :
    Inv t := by
  have hawait := h.await
  cases step_stepped hs with
  | empty ha h0 =>
    have hh := h.handle_of_await (by simp [ha]) (by simp [ha])
    exact { h with
      await := .inr h0
      handle := by simp [goOn, hh]
      resumed := by simp [goOn, h.resumed, ha] }
  | early ha hc =>
    have hh := h.handle_of_await (by simp [ha]) (by simp [ha])
    rw [ha] at hawait
    exact { h with
      await := hawait
      handle := by simp [goOn, hh]
      resumed := by simp [goOn, h.resumed, ha] }
  | begin ha hc =>
    have hh := h.handle_of_await (by simp [ha]) (by simp [ha])
    rw [ha] at hawait
    exact { h with
      await := ⟨Nat.zero_le _, fun i _ => hawait i⟩
      handle := by simp [hh]
      resumed := by simp [h.resumed, ha] }
  | @start i ha hi hq => exact h.start ha hi
  | sleep ha hq hc =>
    have hh := h.handle_of_await (by simp [ha]) (by simp [ha])
    have hcount := h.count_of_quiet hq hh
    exact { h with
      count := by
        simp only [if_true, hq.1, List.length_nil]
        omega
      await := ⟨Nat.sub_pos_of_lt hc, rfl⟩
      handle := fun _ => .inl rfl
      resumed := by simp [h.resumed, ha] }
  | pass ha hq hc =>
    have hh := h.handle_of_await (by simp [ha]) (by simp [ha])
    have hcount := h.count_of_quiet hq hh
    have hlen := h.order_length_le
    exact { h with
      count := by
        simp only [goOn, if_true, hq.1, List.length_nil]
        omega
      await := .inl ⟨Nat.sub_eq_zero_of_le hc, rfl⟩
      handle := fun _ => .inr rfl
      resumed := by simp [goOn, h.resumed, ha] }
  | @suspend i cancellable hi hc =>
    refine h.setChild (by simp [hi, Child.isFinished]) (by simp [hi]) rfl ?_
    intro hcan woken e
    obtain ⟨rfl, -⟩ : cancellable = true ∧ false = woken := by simpa using e
    exact absurd hcan (by simp [hc rfl])
  | resume hi => exact h.setChild (by simp [hi, Child.isFinished]) (by simp [hi]) rfl (by simp)
  | complete hi =>
    rcases hi with hi | hi <;> exact h.complete (by simp [hi, Child.isFinished]) (by simp [hi])
  | decrement hn => exact h.decrement hn
  | cancel ht => exact h.cancelToken

def AllFinished (s : WhenReady) : Prop := ∀ i < s.size, (s.child i).isFinished = true

structure Joined (s : WhenReady) : Prop where
  once : s.resumed ≤ 1
  null : s.null = false
  joined : s.resumed = 1 → s.AllFinished ∨ s.await = .canceled
  canceled : s.await = .canceled → s.tokenCancelled = true ∧ ∀ i, s.child i = .unstarted
  missed : s.AllFinished → s.notifying = [] → s.await ≠ .ready →
    s.resumed = 1 ∨ s.await = .starting s.size ∧ ∃ t, s.step .tryAwait = some t ∧ t.resumed = 1
  order : s.AllFinished → s.order.Perm (List.range s.size) ∧
    ∀ k i, s.order[k]? = some i → (s.child i).getIndex = k
  cancelled : s.counter.cancelled = true ↔ s.requested = true ∨ s.Fired

lemma Core.finished_of_continued (h : Core s) (ha : s.await = .continued) : s.AllFinished := by
  have hawait := h.await
  have hcount := h.count
  have hlen := h.order_length_le
  rw [ha] at hawait
  refine h.all_finished_iff.mpr ?_
  rcases hawait with ⟨h0, hh⟩ | h0
  · rw [h0, if_pos hh] at hcount
    omega
  · omega

lemma AllFinished.quiet (hall : s.AllFinished) (hn : s.notifying = []) : s.Quiet := by
  refine ⟨hn, ?_⟩
  intro i hi
  have hf := hall i hi
  constructor <;> intro e <;> simp [e, Child.isFinished] at hf

/-- When all children have completed and been counted, the coroutine has gone on, or `try_await` is
what it does next and lets it go on. -/
lemma Core.goes_on (h : Core s) (hall : s.AllFinished) (hq : s.notifying = [])
    (hr : s.await ≠ .ready) :
    s.resumed = 1 ∨ s.await = .starting s.size ∧ ∃ t, s.step .tryAwait = some t ∧ t.resumed = 1 := by
  have hawait := h.await
  have hcount := h.count
  have hresumed := h.resumed
  have hlen := h.all_finished_iff.mp hall
  rw [hlen, hq, List.length_nil] at hcount
  cases ha : s.await with
  | ready => exact absurd ha hr
  | continued | canceled => exact .inl (by simpa [ha] using hresumed)
  | suspended =>
    rw [ha] at hawait
    obtain ⟨hpos, hh⟩ := hawait
    rw [if_pos hh] at hcount
    omega
  | starting n =>
    rw [ha] at hawait
    obtain ⟨hle, hun⟩ := hawait
    have hn : n = s.size := by
      by_contra hne
      have hf := hall n (by omega)
      simp [hun n le_rfl, Child.isFinished] at hf
    have hh := h.handle_of_await (by simp [ha]) (by simp [ha])
    have h1 : s.counter.count = 1 := by
      simp only [hh, Bool.false_eq_true, if_false] at hcount
      omega
    have h0 : s.resumed = 0 := by simpa [ha] using hresumed
    refine .inr ⟨by rw [hn], s.tryAwait, ?_, ?_⟩
    · rw [step, if_pos ⟨by rw [ha, hn], hall.quiet hq⟩]
    · simp [tryAwait, h1, goOn, h0]

/-- The awaiting coroutine throws early only on a cancelled token, and while it is suspended its
callback is registered until the token is cancelled. -/
structure Watched (s : WhenReady) : Prop extends Inv s where
  early : s.await = .canceled → s.tokenCancelled = true
  watching : s.await = .suspended → s.token = true → s.tokenCancelled = false → s.registered = true

lemma requestCancellation_eq :
    s.requestCancellation = { s with
      counter := { s.counter with cancelled := true }
      child := if s.counter.cancelled then s.child else fun i => (s.child i).wake } := by
  by_cases hc : s.counter.cancelled = true
  · obtain ⟨size, tuple, ⟨count, type, cancelled, handle, index⟩⟩ := s
    obtain rfl : cancelled = true := hc
    simp [requestCancellation]
  · simp [requestCancellation, hc]

lemma step_frame (a : Action) (hs : (machine type size tuple token).step s a = some t) :
    t.size = s.size ∧ t.token = s.token ∧ (s.token = false → t.tokenCancelled = s.tokenCancelled) := by
  cases step_stepped hs with
  | empty | early | begin | start | sleep | pass | suspend | resume => exact ⟨rfl, rfl, fun _ => rfl⟩
  | complete hi =>
    rw [complete_eq, requestCancellation_eq]
    split_ifs <;> exact ⟨rfl, rfl, fun _ => rfl⟩
  | decrement hn =>
    simp only [decrement]
    split_ifs <;> exact ⟨rfl, rfl, fun _ => rfl⟩
  | cancel hk =>
    rw [cancelToken_eq, requestCancellation_eq]
    split_ifs <;> exact ⟨rfl, rfl, fun hnone => absurd hk (by simp [hnone])⟩

lemma Watched.of_eq (h : Watched s) (ht : Inv t) (ha : t.await = s.await) (hk : t.token = s.token)
    (hc : t.tokenCancelled = s.tokenCancelled) (hr : t.registered = s.registered) : Watched t := by
  refine { ht with early := ?_, watching := ?_ }
  · rw [ha, hc]
    exact h.early
  · rw [ha, hk, hc, hr]
    exact h.watching

lemma step_watched (a : Action) (h : Watched s)
    (hs : (machine type size tuple token).step s a = some t) : Watched t := by
  have ht : Inv t := step_inv a h.toInv hs
  cases step_stepped hs with
  | empty ha h0 => exact { ht with early := by simp [goOn], watching := by simp [goOn] }
  | early ha hc => exact { ht with early := fun _ => hc, watching := by simp [goOn] }
  | begin ha hc => exact { ht with early := by simp, watching := by simp }
  | @start i ha hi hq => exact { ht with early := by simp [start], watching := by simp [start] }
  | sleep ha hq hc =>
    refine { ht with early := by simp, watching := ?_ }
    intro _ hk hc
    simp only at hk hc ⊢
    simp [hk, hc]
  | pass ha hq hc => exact { ht with early := by simp [goOn], watching := by simp [goOn] }
  | suspend hi hc => exact h.of_eq ht rfl rfl rfl rfl
  | resume hi => exact h.of_eq ht rfl rfl rfl rfl
  | @complete i failed hi =>
    refine h.of_eq ht ?_ ?_ ?_ ?_ <;> rw [complete_eq, requestCancellation_eq] <;> split_ifs <;> rfl
  | decrement hn =>
    by_cases h1 : s.counter.count = 1
    · cases hh : s.counter.handle with
      | true =>
        rw [decrement_last h1 hh] at ht ⊢
        exact { ht with early := by simp, watching := by simp }
      | false =>
        simp only [decrement, h1, hh] at ht ⊢
        exact h.of_eq ht rfl rfl rfl rfl
    · rw [decrement_more h1] at ht ⊢
      exact h.of_eq ht rfl rfl rfl rfl
  | cancel hk =>
    rw [cancelToken_eq] at ht ⊢
    split_ifs at ht ⊢ with hc hr
    · exact h
    · exact { ht with early := fun _ => rfl, watching := by simp }
    · exact { ht with early := fun _ => rfl, watching := by simp }

lemma watched_initial : Watched (machine type size tuple token).initial :=
  { inv_initial with
    early := by simp [machine]
    watching := by simp [machine] }

lemma Watched.joined (h : Watched s) : Joined s where
  once := by
    rw [h.resumed]
    split_ifs <;> simp
  null := h.null
  joined := by
    intro h1
    by_cases ha : s.await = .canceled
    · exact .inr ha
    · refine .inl (h.finished_of_continued ?_)
      by_contra hc
      simp [h.resumed, ha, hc] at h1
  canceled := by
    intro ha
    have hawait := h.await
    rw [ha] at hawait
    exact ⟨h.early ha, hawait⟩
  missed := h.goes_on
  order := fun hall => ⟨h.order_perm (h.all_finished_iff.mp hall), h.place⟩
  cancelled := h.cancelled

/-- `co_await` is not evaluated with a token that is cancelled already. -/
def Live (s : WhenReady) (a : Action) : Prop := a = .await → s.tokenCancelled = false

lemma step_await_ne_canceled (a : Action) (h : s.await ≠ .canceled) (hl : s.Live a)
    (hs : (machine type size tuple token).step s a = some t) : t.await ≠ .canceled := by
  cases step_stepped hs with
  | early ha hc => exact absurd (hl rfl) (by simp [hc])
  | empty | begin | start | sleep | pass => simp [goOn, start]
  | suspend | resume => exact h
  | complete hi =>
    rw [complete_eq, requestCancellation_eq]
    split_ifs <;> exact h
  | decrement hn =>
    simp only [decrement]
    split_ifs <;> simp [goOn, h]
  | cancel hk =>
    rw [cancelToken_eq, requestCancellation_eq]
    split_ifs <;> exact h

/-- The coroutine goes on once, after all its children unless its token is cancelled when it is
about to wait, in which case it starts none of them. -/
theorem when_ready_joins (type : WaitType) (size : ℕ) (tuple token : Bool) (as : List Action) :
    (machine type size tuple token).Always Joined (machine type size tuple token).initial as ∧
    ((machine type size tuple token).Along Live (machine type size tuple token).initial as →
      (machine type size tuple token).Always (fun s => s.await ≠ .canceled)
        (machine type size tuple token).initial as) := by
  constructor
  · exact Machine.always_of_along (fun s h => Watched.joined h)
      (fun s a t h _ hs => step_watched a h hs) watched_initial (Machine.along_true _ _)
  · exact Machine.always_of_along (fun s h => h)
      (fun s a t h hl hs => step_await_ne_canceled a h hl hs) (by simp [machine])

theorem canceled_before_start :
    ∃ s, (machine .all 1 false true).run (machine .all 1 false true).initial [.cancel, .await] =
      some s ∧ s.resumed = 1 ∧ s.child 0 = .unstarted ∧ ¬s.AllFinished := by
  refine ⟨_, rfl, by decide, by decide, ?_⟩
  intro hall
  exact absurd (hall 0 (by decide)) (by decide)

end Simple.Coro.WhenReady
