import Simple.Coro.Mutex

/-! Who owns a coroutine mutex. Its list holds exactly the calls that wait, in their order. A locked
mutex has an owner, or is about to have one, exactly as long as nobody cancels the token of a
coroutine between the `unlock` that hands it the mutex and its resumption. -/

namespace Simple.Coro.Mutex

open Simple.Lib

variable {token : ℕ → Option ℕ} {m n : Mutex} {j k c t : ℕ}

lemma mem_waiting (hb : ∀ k, m.status k = none ↔ m.size ≤ k) :
    k ∈ m.waiting ↔ m.status k = some .waiting := by
  simp only [waiting, List.mem_filter, List.mem_range, decide_eq_true_eq, and_iff_right_iff_imp]
  intro hk
  by_contra hlt
  simp [(hb k).mpr (not_lt.mp hlt)] at hk

lemma nodup_waiting : m.waiting.Nodup := List.nodup_range.filter _

lemma waiting_diff (ks : List ℕ) (hsize : n.size = m.size)
    (hin : ∀ k ∈ ks, n.status k ≠ some .waiting) (hout : ∀ k ∉ ks, n.status k = m.status k) :
    n.waiting = m.waiting.diff ks := by
  rw [nodup_waiting.sdiff_eq_filter, waiting, waiting, List.filter_filter, hsize]
  refine List.filter_congr ?_
  intro k _
  by_cases hk : k ∈ ks
  · simp [hk, hin k hk]
  · simp [hk, hout k hk]

lemma waiting_congr (hsize : m.size ≤ n.size) (hb : ∀ k, m.size ≤ k → m.status k ≠ some .waiting)
    (h : ∀ k, n.status k = some .waiting ↔ m.status k = some .waiting) : n.waiting = m.waiting := by
  obtain ⟨d, hd⟩ := Nat.exists_eq_add_of_le hsize
  have hnew : ((List.range d).map (m.size + ·)).filter (fun k => n.status k = some .waiting) = [] := by
    rw [List.filter_eq_nil_iff]
    intro k hk
    obtain ⟨i, -, rfl⟩ := List.mem_map.mp hk
    simpa [h] using hb (m.size + i) (Nat.le_add_right _ _)
  rw [waiting, waiting, hd, List.range_add, List.filter_append, hnew, List.append_nil]
  exact List.filter_congr fun k _ => decide_eq_decide.mpr (h k)

lemma waiting_succ (hsize : n.size = m.size + 1) (hlast : n.status m.size = some .waiting)
    (hold : ∀ k < m.size, n.status k = m.status k) : n.waiting = m.waiting ++ [m.size] := by
  rw [waiting, waiting, hsize, List.range_succ, List.filter_append]
  congr 1
  · refine List.filter_congr ?_
    intro k hk
    rw [hold k (List.mem_range.mp hk)]
  · simp [hlast]

lemma foldl_abort (ks : List ℕ) :
    ks.foldl abort m = { m with
      list := ks.foldl DList.unlink m.list
      status := fun k => if k ∈ ks then some .aborted else m.status k
      wakeUp := m.wakeUp ++ ks } := by
  induction ks generalizing m with
  | nil => simp
  | cons k ks ih =>
    rw [List.foldl_cons, ih]
    simp only [abort, setStatus, List.foldl_cons, List.append_assoc, List.singleton_append]
    congr 1
    funext j
    by_cases hj : j = k <;> by_cases hjs : j ∈ ks <;> simp [hj, hjs]

structure Inv (token : ℕ → Option ℕ) (m : Mutex) : Prop where
  born : ∀ k, m.status k = none ↔ m.size ≤ k
  list : m.list.Holds m.waiting
  tokens : m.tokens.Exact (m.tokenOf token) (fun k => m.status k = some .waiting)
  nodup : m.wakeUp.Nodup
  scheduled : ∀ k, k ∈ m.wakeUp ↔ m.status k = some .handed ∨ m.status k = some .aborted
  locked : ∀ k, m.status k = some .waiting → m.locked = true
  canceled : ∀ k, m.status k = some .aborted ∨ m.status k = some .canceled →
    m.isCanceled token k = true

lemma inv_initial : Inv token (machine token).initial where
  born := by simp [machine]
  list := by simpa [machine, waiting] using DList.Holds.empty
  tokens := (Tokens.Exact.empty token).congr (by simp [machine]) (by simp)
  nodup := by simp [machine]
  scheduled := by simp [machine]
  locked := by simp [machine]
  canceled := by simp [machine]

lemma awaitResume_canceled (hc : m.isCanceled token k = true) :
    m.awaitResume token k = { m.setStatus k .canceled with tokens := m.tokens.reset k } := by
  rw [awaitResume]
  exact if_pos hc

lemma awaitResume_holding (hc : m.isCanceled token k = false) :
    m.awaitResume token k = { m.setStatus k .holding with
      tokens := m.tokens.reset k
      obtained := m.obtained ++ [k] } := by
  rw [awaitResume]
  exact if_neg (Bool.not_eq_true _ ▸ hc)

def enter (m : Mutex) (c : ℕ) : Mutex :=
  { m with size := m.size + 1, coroutine := Function.update m.coroutine m.size c }

lemma coroutine_enter (c : ℕ) : ∀ j, j ≠ m.size → (m.enter c).coroutine j = m.coroutine j :=
  fun _ hj => Function.update_of_ne hj _ _

lemma tokenOf_enter : (m.enter c).tokenOf token m.size = token c := by
  simp [tokenOf, enter]

lemma lock_canceled (hc : m.tokens.isCancellationRequested (token c) = true) :
    m.lock token c = { (m.enter c).setStatus m.size .canceled with
      tokens := m.tokens.reset m.size } := by
  have he : (m.enter c).isCanceled token m.size = true := by rwa [isCanceled, tokenOf_enter]
  rw [lock]
  exact (if_pos hc).trans (awaitResume_canceled he)

lemma lock_free (hc : m.tokens.isCancellationRequested (token c) = false)
    (hl : m.locked = false) :
    m.lock token c = { (m.enter c).setStatus m.size .holding with
      locked := true
      tokens := m.tokens.reset m.size
      obtained := m.obtained ++ [m.size] } := by
  have he : { m.enter c with locked := true }.isCanceled token m.size = false := by
    rw [isCanceled, tokenOf]
    simpa [enter] using hc
  rw [lock]
  exact (if_neg (Bool.not_eq_true _ ▸ hc)).trans ((if_pos hl).trans (awaitResume_holding he))

lemma lock_wait (hc : m.tokens.isCancellationRequested (token c) = false)
    (hl : m.locked = true) :
    m.lock token c = { (m.enter c).setStatus m.size .waiting with
      list := m.list.pushBack m.size
      tokens := m.tokens.emplace (token c) m.size } := by
  rw [lock]
  exact (if_neg (Bool.not_eq_true _ ▸ hc)).trans (if_neg (by simp [hl]))

lemma unlock_unlocked (hl : m.locked = false) : m.unlock = m := if_pos hl

lemma unlock_free (hl : m.locked = true) (hh : m.list.header = none) :
    m.unlock = { m with locked := false } := by
  rw [unlock, if_neg (by simp [hl]), hh]

lemma unlock_handed (hl : m.locked = true) (hh : m.list.header = some k) :
    m.unlock = { m.setStatus k .handed with
      list := m.list.unlink k
      tokens := m.tokens.reset k
      wakeUp := m.wakeUp ++ [k] } := by
  rw [unlock, if_neg (by simp [hl]), hh]

lemma requestCancellation_eq :
    m.requestCancellation t = { m with
      tokens := (m.tokens.requestCancellation t).1
      list := (m.tokens.requestCancellation t).2.foldl DList.unlink m.list
      status := fun k =>
        if k ∈ (m.tokens.requestCancellation t).2 then some .aborted else m.status k
      wakeUp := m.wakeUp ++ (m.tokens.requestCancellation t).2 } := by
  rw [requestCancellation, foldl_abort]

inductive Stepped (token : ℕ → Option ℕ) (m : Mutex) : Action → Mutex → Prop
  | canceled {c : ℕ} (hc : m.tokens.isCancellationRequested (token c) = true) :
      Stepped token m (.lock c) { (m.enter c).setStatus m.size .canceled with
        tokens := m.tokens.reset m.size }
  | free {c : ℕ} (hc : m.tokens.isCancellationRequested (token c) = false)
      (hl : m.locked = false) :
      Stepped token m (.lock c) { (m.enter c).setStatus m.size .holding with
        locked := true
        tokens := m.tokens.reset m.size
        obtained := m.obtained ++ [m.size] }
  | wait {c : ℕ} (hc : m.tokens.isCancellationRequested (token c) = false)
      (hl : m.locked = true) :
      Stepped token m (.lock c) { (m.enter c).setStatus m.size .waiting with
        list := m.list.pushBack m.size
        tokens := m.tokens.emplace (token c) m.size }
  | unlock : Stepped token m (.unlock none) m.unlock
  | release {k : ℕ} (hk : m.status k = some .holding) :
      Stepped token m (.unlock (some k)) (m.setStatus k .released).unlock
  | cancel {t : ℕ} : Stepped token m (.cancel t) (m.requestCancellation t)
  | abort {k : ℕ} {ks : List ℕ} (hw : m.wakeUp = k :: ks) (hc : m.isCanceled token k = true) :
      Stepped token m .resume { m.setStatus k .canceled with
        wakeUp := ks
        tokens := m.tokens.reset k }
  | obtain {k : ℕ} {ks : List ℕ} (hw : m.wakeUp = k :: ks) (hc : m.isCanceled token k = false) :
      Stepped token m .resume { m.setStatus k .holding with
        wakeUp := ks
        tokens := m.tokens.reset k
        obtained := m.obtained ++ [k] }

lemma step_stepped {a : Action} (hs : (machine token).step m a = some n) : Stepped token m a n := by
  simp only [machine] at hs
  cases a with
  | lock c =>
    rw [step] at hs
    split_ifs at hs
    obtain rfl := Option.some.inj hs
    cases hc : m.tokens.isCancellationRequested (token c) with
    | true =>
      rw [lock_canceled hc]
      exact .canceled hc
    | false =>
      cases hl : m.locked with
      | true =>
        rw [lock_wait hc hl]
        exact .wait hc hl
      | false =>
        rw [lock_free hc hl]
        exact .free hc hl
  | unlock k =>
    cases k with
    | none =>
      obtain rfl := Option.some.inj hs
      exact .unlock
    | some k =>
      rw [step] at hs
      split_ifs at hs with hk
      obtain rfl := Option.some.inj hs
      exact .release hk
  | cancel t =>
    obtain rfl := Option.some.inj hs
    exact .cancel
  | resume =>
    cases hw : m.wakeUp with
    | nil => simp [step, hw] at hs
    | cons k ks =>
      simp only [step, hw, Option.some.injEq] at hs
      subst hs
      cases hc : m.isCanceled token k with
      | true =>
        rw [awaitResume_canceled (by simpa [isCanceled, tokenOf] using hc)]
        exact .abort hw hc
      | false =>
        rw [awaitResume_holding (by simpa [isCanceled, tokenOf] using hc)]
        exact .obtain hw hc

lemma Inv.not_waiting (h : Inv token m) (hk : m.size ≤ k) : m.status k ≠ some .waiting := by
  simp [(h.born k).mpr hk]

lemma Inv.settle {v : LockStatus} (h : Inv token m) (hk : m.status k ≠ some .waiting)
    (hv : v.suspended = false) (hstatus : n.status = Function.update m.status k (some v))
    (hsize : n.size = m.size ∧ k < m.size ∨ n.size = m.size + 1 ∧ k = m.size)
    (hcoroutine : ∀ j, j ≠ k → n.coroutine j = m.coroutine j) (hlist : n.list = m.list)
    (htokens : n.tokens = m.tokens.reset k ∨ n.tokens = m.tokens)
    (hwake : n.wakeUp = m.wakeUp.erase k) (hlocked : m.locked = true → n.locked = true)
    (hcanceled : v = .canceled → n.isCanceled token k = true) : Inv token n := by
  have hother : ∀ j, j ≠ k → n.status j = m.status j := by
    intro j hj
    rw [hstatus, Function.update_of_ne hj]
  have hself : n.status k = some v := by rw [hstatus, Function.update_self]
  have hwaiting : ∀ j, n.status j = some .waiting ↔ m.status j = some .waiting := by
    intro j
    by_cases hj : j = k
    · subst hj
      rw [hself]
      exact ⟨fun e => by simp [Option.some.inj e, LockStatus.suspended] at hv, fun e => absurd e hk⟩
    · rw [hother j hj]
  have hrequested : ∀ o, n.tokens.isCancellationRequested o = m.tokens.isCancellationRequested o := by
    rcases htokens with e | e <;> simp [e]
  refine ⟨?_, ?_, ?_, hwake ▸ h.nodup.erase k, ?_, ?_, ?_⟩
  · intro j
    by_cases hj : j = k
    · subst hj
      rw [hself]
      simp only [reduceCtorEq, false_iff, not_le]
      omega
    · rw [hother j hj, h.born j]
      omega
  · rw [hlist, waiting_congr (by omega) (fun j hj => h.not_waiting hj) hwaiting]
    exact h.list
  · have hexact : n.tokens.Exact (m.tokenOf token) (fun j => m.status j = some .waiting) := by
      rcases htokens with e | e
      · rw [e]
        exact h.tokens.reset.congr (fun j => ⟨fun hj => ⟨hj, fun e => hk (e ▸ hj)⟩, fun hj => hj.1⟩)
          (fun _ _ => rfl)
      · rw [e]
        exact h.tokens
    refine hexact.congr hwaiting ?_
    intro j hj
    rw [tokenOf, tokenOf, hcoroutine j (fun e => hk (e ▸ hj))]
  · intro j
    rw [hwake, h.nodup.mem_erase_iff]
    by_cases hj : j = k
    · subst hj
      rw [hself]
      cases v <;> simp_all [LockStatus.suspended]
    · rw [hother j hj]
      simp [hj, h.scheduled j]
  · intro j hj
    exact hlocked (h.locked j ((hwaiting j).mp hj))
  · intro j hj
    by_cases hjk : j = k
    · subst hjk
      rw [hself] at hj
      refine hcanceled ?_
      rcases hj with e | e
      · simp [Option.some.inj e, LockStatus.suspended] at hv
      · exact Option.some.inj e
    · rw [hother j hjk] at hj
      rw [isCanceled, hrequested, tokenOf, hcoroutine j hjk]
      exact h.canceled j hj

lemma Inv.lt_size (h : Inv token m) {v : LockStatus} (hk : m.status k = some v) : k < m.size := by
  by_contra hlt
  simp [(h.born k).mpr (not_lt.mp hlt)] at hk

lemma Inv.not_mem_wakeUp (h : Inv token m) {v : LockStatus} (hk : m.status k = some v)
    (h1 : v ≠ .handed) (h2 : v ≠ .aborted) : k ∉ m.wakeUp := by
  rw [h.scheduled, hk]
  simp [h1, h2]

lemma Inv.fresh (h : Inv token m) : m.size ∉ m.wakeUp := by
  rw [h.scheduled, (h.born m.size).mpr le_rfl]
  simp

lemma Inv.wait (h : Inv token m) (hc : m.tokens.isCancellationRequested (token c) = false)
    (hl : m.locked = true) :
    Inv token { (m.enter c).setStatus m.size .waiting with
      list := m.list.pushBack m.size
      tokens := m.tokens.emplace (token c) m.size } := by
  have hother : ∀ j, j ≠ m.size → Function.update m.status m.size (some .waiting) j = m.status j :=
    fun j hj => Function.update_of_ne hj _ _
  have hnew : m.status m.size = none := (h.born m.size).mpr le_rfl
  have hcoroutine : ∀ j, j ≠ m.size → (m.enter c).tokenOf token j = m.tokenOf token j := by
    intro j hj
    simp [tokenOf, enter, Function.update_of_ne hj]
  have htoken : (m.enter c).tokenOf token m.size = token c := tokenOf_enter
  refine ⟨?_, ?_, ?_, h.nodup, ?_, ?_, ?_⟩
  · intro j
    by_cases hj : j = m.size
    · simp [hj, setStatus, enter]
    · simp only [setStatus, enter, hother j hj, h.born j]
      omega
  · rw [waiting_succ (m := m) rfl (by simp [setStatus, enter])
      (fun j hj => hother j hj.ne)]
    exact h.list.pushBack fun e => h.not_waiting le_rfl ((mem_waiting h.born).mp e)
  · have hexact : m.tokens.Exact ((m.enter c).tokenOf token) (fun j => m.status j = some .waiting) :=
      h.tokens.congr (fun _ => Iff.rfl) fun j hj => hcoroutine j (fun e => h.not_waiting e.ge hj)
    refine (htoken ▸ hexact.emplace (k := m.size) (by simp [hnew]) (by rwa [htoken])).congr ?_ ?_
    · intro j
      by_cases hj : j = m.size
      · simp [hj, setStatus, enter]
      · simp [hj, setStatus, enter]
    · intro j _
      rfl
  · intro j
    by_cases hj : j = m.size
    · simp [hj, setStatus, enter, h.fresh]
    · simpa [setStatus, enter, hj] using h.scheduled j
  · intro _ _
    exact hl
  · intro j hj
    have hjs : j ≠ m.size := by
      rintro rfl
      simp [setStatus, enter] at hj
    have hold := h.canceled j (by simpa [setStatus, enter, hjs] using hj)
    simpa [isCanceled, tokenOf, setStatus, enter, hjs] using hold

lemma Inv.release (h : Inv token m) (hk : m.status k = some .holding) :
    Inv token (m.setStatus k .released) := by
  have hwake := h.not_mem_wakeUp hk (by decide) (by decide)
  exact h.settle (by simp [hk]) rfl rfl (.inl ⟨rfl, h.lt_size hk⟩) (fun _ _ => rfl) rfl (.inr rfl)
    (List.erase_of_not_mem hwake).symm id (by simp)

lemma Inv.schedule {ks : List ℕ} {v : LockStatus} (h : Inv token m) (hks : ks.Nodup)
    (hwait : ∀ k ∈ ks, m.status k = some .waiting) (hv : v = .handed ∨ v = .aborted)
    (hin : ∀ k ∈ ks, n.status k = some v) (hout : ∀ k ∉ ks, n.status k = m.status k)
    (hsize : n.size = m.size) (hcoroutine : n.coroutine = m.coroutine)
    (hlist : n.list = ks.foldl DList.unlink m.list) (hwake : n.wakeUp = m.wakeUp ++ ks)
    (htokens : n.tokens.Exact (m.tokenOf token) (fun k => m.status k = some .waiting ∧ k ∉ ks))
    (hlocked : n.locked = m.locked)
    (hkept : ∀ k, m.isCanceled token k = true → n.isCanceled token k = true)
    (hcanceled : v = .aborted → ∀ k ∈ ks, n.isCanceled token k = true) : Inv token n := by
  have hne : some v ≠ some LockStatus.waiting := by rcases hv with rfl | rfl <;> simp
  have hwaiting : ∀ k, n.status k = some .waiting ↔ m.status k = some .waiting ∧ k ∉ ks := by
    intro k
    by_cases hk : k ∈ ks
    · simp [hin k hk, hk, Option.some_inj.not.mp hne]
    · simp [hout k hk, hk]
  refine ⟨?_, ?_, ?_, ?_, ?_, ?_, ?_⟩
  · intro k
    rw [hsize]
    by_cases hk : k ∈ ks
    · simp [hin k hk, h.lt_size (hwait k hk)]
    · rw [hout k hk, h.born]
  · rw [hlist, waiting_diff ks hsize (fun k hk => by simpa [hin k hk] using hne) hout]
    exact h.list.foldl_unlink ks
  · refine htokens.congr hwaiting ?_
    intro k _
    rw [tokenOf, tokenOf, hcoroutine]
  · rw [hwake]
    refine List.nodup_append.mpr ⟨h.nodup, hks, ?_⟩
    rintro j hj k hk rfl
    exact h.not_mem_wakeUp (hwait j hk) (by decide) (by decide) hj
  · intro k
    rw [hwake, List.mem_append, h.scheduled]
    by_cases hk : k ∈ ks
    · rcases hv with rfl | rfl <;> simp [hin k hk, hk]
    · simp [hout k hk, hk]
  · intro k hk
    rw [hlocked]
    exact h.locked k ((hwaiting k).mp hk).1
  · intro k hk
    by_cases hks : k ∈ ks
    · rw [hin k hks] at hk
      rcases hv with rfl | rfl
      · simp at hk
      · exact hcanceled rfl k hks
    · rw [hout k hks] at hk
      exact hkept k (h.canceled k hk)

lemma Inv.waiting_of_header (h : Inv token m) (hh : m.list.header = some k) :
    m.status k = some .waiting :=
  (mem_waiting h.born).mp (List.mem_of_head? (h.list.header ▸ hh))

lemma Inv.unlock (h : Inv token m) : Inv token m.unlock := by
  cases hl : m.locked with
  | false =>
    rw [unlock_unlocked hl]
    exact h
  | true =>
    cases hh : m.list.header with
    | none =>
      rw [unlock_free hl hh]
      refine { h with locked := ?_ }
      intro k hk
      have hempty : m.waiting = [] := List.head?_eq_none_iff.mp (h.list.header ▸ hh)
      have hmem := (mem_waiting h.born).mpr hk
      simp [hempty] at hmem
    | some k =>
      rw [unlock_handed hl hh]
      have hk := h.waiting_of_header hh
      refine h.schedule (List.nodup_singleton k) (by simpa using hk) (.inl rfl) ?_ ?_ rfl rfl rfl rfl
        ?_ rfl (fun _ hc => hc) (by simp)
      · simp [setStatus]
      · intro j hj
        simp [setStatus, List.mem_singleton.not.mp hj]
      · exact h.tokens.reset.congr (by simp) (fun _ _ => rfl)

lemma Inv.request (h : Inv token m) : Inv token (m.requestCancellation t) := by
  rw [requestCancellation_eq]
  refine h.schedule h.tokens.nodup_request (fun k hk => h.tokens.waiting_of_mem_request hk)
    (.inr rfl) ?_ ?_ rfl rfl rfl rfl h.tokens.request rfl ?_ ?_
  · intro k hk
    simp [hk]
  · intro k hk
    simp [hk]
  · intro k hk
    exact (Tokens.isCancellationRequested_request _ _ _).mpr (.inl hk)
  · intro _ k hk
    refine (Tokens.isCancellationRequested_request _ _ _).mpr (.inr ?_)
    exact (h.tokens.mem_request (h.tokens.waiting_of_mem_request hk)).mp hk

lemma Inv.woken (h : Inv token m) {ks : List ℕ} (hw : m.wakeUp = k :: ks) :
    m.status k = some .handed ∨ m.status k = some .aborted :=
  (h.scheduled k).mp (by simp [hw])

lemma step_inv (a : Action) (h : Inv token m) (hs : (machine token).step m a = some n) :
    Inv token n := by
  have hfresh := h.not_waiting (le_refl m.size)
  have hwake := (List.erase_of_not_mem h.fresh).symm
  cases step_stepped hs with
  | @canceled c hc =>
    exact h.settle hfresh rfl rfl (.inr ⟨rfl, rfl⟩) (coroutine_enter c) rfl (.inl rfl) hwake id
      (fun _ => by simpa [isCanceled, tokenOf, setStatus, enter] using hc)
  | @free c hc hl =>
    exact h.settle hfresh rfl rfl (.inr ⟨rfl, rfl⟩) (coroutine_enter c) rfl (.inl rfl) hwake
      (fun _ => rfl) (by simp)
  | wait hc hl => exact h.wait hc hl
  | unlock => exact h.unlock
  | release hk => exact (h.release hk).unlock
  | cancel => exact h.request
  | @abort k ks hw hc =>
    have hk := h.woken hw
    refine h.settle (k := k) ?_ rfl rfl (.inl ⟨rfl, ?_⟩) (fun _ _ => rfl) rfl (.inl rfl) ?_ id
      (fun _ => hc)
    · rcases hk with e | e <;> simp [e]
    · rcases hk with e | e <;> exact h.lt_size e
    · simp [hw]
  | @obtain k ks hw hc =>
    have hk := h.woken hw
    refine h.settle (k := k) ?_ rfl rfl (.inl ⟨rfl, ?_⟩) (fun _ _ => rfl) rfl (.inl rfl) ?_ id
      (by simp)
    · rcases hk with e | e <;> simp [e]
    · rcases hk with e | e <;> exact h.lt_size e
    · simp [hw]

/-- A locked mutex is held, or was handed to a coroutine that is scheduled and not cancelled. -/
def Owned (token : ℕ → Option ℕ) (m : Mutex) : Prop :=
  m.locked = true → (∃ k, m.status k = some .holding) ∨
    ∃ k, m.status k = some .handed ∧ k ∈ m.wakeUp ∧ m.isCanceled token k = false

/-- No token is cancelled while a coroutine with it has been handed the mutex and not resumed. -/
def Spared (token : ℕ → Option ℕ) (m : Mutex) (a : Action) : Prop :=
  ∀ t k, a = .cancel t → m.status k = some .handed → m.tokenOf token k ≠ some t

/-- `unlock` is only called by a coroutine that holds the mutex. -/
def Disciplined (_ : Mutex) (a : Action) : Prop := a ≠ .unlock none

lemma Inv.owned_unlock (h : Inv token m) : Owned token m.unlock := by
  intro hl'
  cases hl : m.locked with
  | false => simp [unlock_unlocked hl, hl] at hl'
  | true =>
    cases hh : m.list.header with
    | none => simp [unlock_free hl hh] at hl'
    | some k =>
      rw [unlock_handed hl hh]
      refine .inr ⟨k, by simp [setStatus], by simp, ?_⟩
      exact h.tokens.live k (h.waiting_of_header hh)

lemma Owned.enter {v : LockStatus} (h : Inv token m) (ho : Owned token m)
    (hstatus : n.status = Function.update m.status m.size (some v))
    (hcoroutine : ∀ j, j ≠ m.size → n.coroutine j = m.coroutine j)
    (htokens : ∀ o, n.tokens.isCancellationRequested o = m.tokens.isCancellationRequested o)
    (hwake : n.wakeUp = m.wakeUp) (hlocked : n.locked = m.locked) : Owned token n := by
  have hold : ∀ k u, m.status k = some u → k ≠ m.size := fun k u hk e => (h.lt_size hk).ne e
  intro hl
  rw [hlocked] at hl
  obtain ⟨k, hk⟩ | ⟨k, hk, hw, hc⟩ := ho hl
  · exact .inl ⟨k, by rw [hstatus, Function.update_of_ne (hold k _ hk), hk]⟩
  · refine .inr ⟨k, by rw [hstatus, Function.update_of_ne (hold k _ hk), hk], hwake ▸ hw, ?_⟩
    rw [isCanceled, htokens, tokenOf, hcoroutine k (hold k _ hk)]
    exact hc

lemma owned_step (a : Action) (h : Inv token m) (ho : Owned token m) (ha : Spared token m a)
    (hs : (machine token).step m a = some n) : Owned token n := by
  cases step_stepped hs with
  | canceled hc => exact ho.enter h rfl (coroutine_enter _) (fun _ => rfl) rfl rfl
  | free hc hl => exact fun _ => .inl ⟨m.size, by simp [setStatus]⟩
  | wait hc hl => exact ho.enter h rfl (coroutine_enter _) (by simp) rfl rfl
  | unlock => exact h.owned_unlock
  | release hk => exact (h.release hk).owned_unlock
  | @cancel t =>
    rw [requestCancellation_eq]
    intro hl
    have hkept : ∀ k v, v ≠ LockStatus.waiting → m.status k = some v →
        k ∉ (m.tokens.requestCancellation t).2 := by
      intro k v hv hk e
      exact hv (Option.some.inj (hk.symm.trans (h.tokens.waiting_of_mem_request e)))
    obtain ⟨k, hk⟩ | ⟨k, hk, hw, hc⟩ := ho hl
    · exact .inl ⟨k, by simpa [hkept k _ (by decide) hk] using hk⟩
    · refine .inr ⟨k, by simpa [hkept k _ (by decide) hk] using hk, by simp [hw], ?_⟩
      rw [← Bool.not_eq_true, isCanceled, Tokens.isCancellationRequested_request]
      rintro (e | e)
      · exact absurd (hc.symm.trans e) (by decide)
      · exact ha t k rfl hk e
  | @abort k ks hw hc =>
    intro hl
    obtain ⟨j, hj⟩ | ⟨j, hj, hjw, hjc⟩ := ho hl
    · have hjk : j ≠ k := by
        rintro rfl
        rcases h.woken hw with e | e <;> simp [hj] at e
      exact .inl ⟨j, by simpa [setStatus, hjk] using hj⟩
    · have hjk : j ≠ k := fun e => absurd (hc.symm.trans (e ▸ hjc)) (by decide)
      refine .inr ⟨j, by simpa [setStatus, hjk] using hj, ?_, hjc⟩
      simpa [hw, hjk] using hjw
  | @obtain k ks hw hc => exact fun _ => .inl ⟨k, by simp [setStatus]⟩

def owning (m : Mutex) (k : ℕ) : Prop := m.status k = some .holding ∨ m.status k = some .handed

structure Single (m : Mutex) : Prop where
  one : ∀ j k, m.owning j → m.owning k → j = k
  locked : ∀ k, m.owning k → m.locked = true

lemma single_initial : Single (machine token).initial where
  one := by simp [machine, owning]
  locked := by simp [machine, owning]

lemma Single.mono (h : Single m) (hown : ∀ k, n.owning k → m.owning k)
    (hlocked : n.locked = m.locked) : Single n where
  one := fun j k hj hk => h.one j k (hown j hj) (hown k hk)
  locked := fun k hk => hlocked.trans (h.locked k (hown k hk))

lemma owning_of_update {v : LockStatus} (hk : k = j → v ≠ .holding ∧ v ≠ .handed ∨ m.owning j)
    (hstatus : n.status = Function.update m.status k (some v)) (h : n.owning j) : m.owning j := by
  by_cases hj : j = k
  · subst hj
    rcases hk rfl with ⟨h1, h2⟩ | hm
    · simp [owning, hstatus, h1, h2] at h
    · exact hm
  · simpa [owning, hstatus, hj] using h

lemma owning_request (hk : (m.requestCancellation t).owning k) : m.owning k := by
  rw [requestCancellation_eq] at hk
  by_cases hks : k ∈ (m.tokens.requestCancellation t).2
  · simp [owning, hks] at hk
  · simpa [owning, hks] using hk

lemma Single.unlock (hnone : ∀ k, ¬m.owning k) : Single m.unlock := by
  cases hl : m.locked with
  | false =>
    rw [unlock_unlocked hl]
    exact ⟨fun j k hj => absurd hj (hnone j), fun k hk => absurd hk (hnone k)⟩
  | true =>
    cases hh : m.list.header with
    | none =>
      rw [unlock_free hl hh]
      exact ⟨fun j k hj => absurd hj (hnone j), fun k hk => absurd hk (hnone k)⟩
    | some k =>
      rw [unlock_handed hl hh]
      have honly : ∀ j, j ≠ k → ¬owning (m.setStatus k .handed) j := by
        intro j hj e
        exact hnone j (by simpa [owning, setStatus, hj] using e)
      refine ⟨?_, fun _ _ => hl⟩
      intro i j hi hj
      obtain rfl : i = k := by_contra fun e => honly i e hi
      exact (by_contra fun e => honly j e hj : j = i).symm

lemma Single.not_owning_release (ho : Single m) (hk : m.status k = some .holding) :
    ∀ j, ¬(m.setStatus k .released).owning j := by
  intro j hj
  have hjm : m.owning j := owning_of_update (fun _ => .inl ⟨by decide, by decide⟩) rfl hj
  obtain rfl := ho.one j k hjm (.inl hk)
  simp [owning, setStatus] at hj

lemma Inv.handed_of_woken (h : Inv token m) {ks : List ℕ} (hw : m.wakeUp = k :: ks)
    (hc : m.isCanceled token k = false) : m.status k = some .handed := by
  rcases h.woken hw with e | e
  · exact e
  · exact absurd (hc.symm.trans (h.canceled k (.inl e))) (by decide)

lemma single_step (a : Action) (h : Inv token m) (ho : Single m) (ha : Disciplined m a)
    (hs : (machine token).step m a = some n) : Single n := by
  cases step_stepped hs with
  | canceled hc =>
    exact ho.mono (fun j => owning_of_update (fun _ => .inl ⟨by decide, by decide⟩) rfl) rfl
  | free hc hl =>
    have hnone : ∀ k, ¬m.owning k := fun k hk => absurd (hl.symm.trans (ho.locked k hk)) (by decide)
    have honly : ∀ j, owning (m.setStatus m.size .holding) j → j = m.size := by
      intro j hj
      by_contra hne
      exact hnone j (by simpa [owning, setStatus, hne] using hj)
    exact ⟨fun i j hi hj => (honly i hi).trans (honly j hj).symm, fun _ _ => rfl⟩
  | wait hc hl =>
    exact ho.mono (fun j => owning_of_update (fun _ => .inl ⟨by decide, by decide⟩) rfl) rfl
  | unlock => exact absurd rfl ha
  | release hk => exact Single.unlock (ho.not_owning_release hk)
  | cancel =>
    refine ho.mono (fun _ => owning_request) ?_
    rw [requestCancellation_eq]
  | abort hw hc =>
    exact ho.mono (fun j => owning_of_update (fun _ => .inl ⟨by decide, by decide⟩) rfl) rfl
  | @obtain k ks hw hc =>
    have hk : m.owning k := .inr (h.handed_of_woken hw hc)
    exact ho.mono (fun j => owning_of_update (fun e => .inr (e ▸ hk)) rfl) rfl

lemma spared_of_owned (a : Action) (ho : Single m)
    (hs : (machine token).step m a = some n) (hn : Owned token n) : Spared token m a := by
  rintro t k rfl hk htoken
  obtain rfl : m.requestCancellation t = n := Option.some.inj hs
  have hl : (m.requestCancellation t).locked = true := by
    rw [requestCancellation_eq]
    exact ho.locked k (.inr hk)
  obtain ⟨j, hj⟩ | ⟨j, hj, -, hc⟩ := hn hl
  · obtain rfl := ho.one j k (owning_request (.inl hj)) (.inr hk)
    rw [requestCancellation_eq] at hj
    by_cases hjs : j ∈ (m.tokens.requestCancellation t).2
    · simp [hjs] at hj
    · simp [hjs, hk] at hj
  · obtain rfl := ho.one j k (owning_request (.inr hj)) (.inr hk)
    rw [← Bool.not_eq_true, requestCancellation_eq, isCanceled,
      Tokens.isCancellationRequested_request] at hc
    exact hc (.inr htoken)

/-- The second part is for runs that call `unlock` as they should; the first is for all. -/
theorem owned_iff_spared (token : ℕ → Option ℕ) (as : List Action) :
    ((machine token).Along (Spared token) (machine token).initial as →
      (machine token).Always (Owned token) (machine token).initial as) ∧
    ((machine token).Along Disciplined (machine token).initial as →
      ((machine token).Always (Owned token) (machine token).initial as ↔
        (machine token).Along (Spared token) (machine token).initial as)) := by
  have hkeep : (machine token).Along (Spared token) (machine token).initial as →
      (machine token).Always (Owned token) (machine token).initial as := by
    refine Machine.always_of_along (I := fun m => Inv token m ∧ Owned token m) (fun m h => h.2) ?_ ?_
    · rintro m a n ⟨h, ho⟩ ha hs
      exact ⟨step_inv a h hs, owned_step a h ho ha hs⟩
    · exact ⟨inv_initial, by simp [Owned, machine]⟩
  refine ⟨hkeep, ?_⟩
  intro hd
  refine ⟨?_, hkeep⟩
  refine Machine.Along.of_always (I := fun m => Inv token m ∧ Single m) ?_ ?_
    ⟨inv_initial, single_initial⟩ hd
  · rintro m a n ⟨h, ho⟩ ha hs
    exact ⟨step_inv a h hs, single_step a h ho ha hs⟩
  · rintro m a n ⟨-, ho⟩ - hs hn
    exact spared_of_owned a ho hs hn

/-- Coroutine 1 waits for coroutine 0, is handed the mutex, and its token is cancelled before the
scheduler resumes it: its `lock` throws, and the mutex stays locked. -/
theorem handed_then_canceled :
    ¬(machine some).Always (Owned some) (machine some).initial
      [.lock 0, .lock 1, .unlock (some 0), .cancel 1, .resume] := by
  intro h
  have hrun : ((machine some).run (machine some).initial
      [.lock 0, .lock 1, .unlock (some 0), .cancel 1, .resume]).map
        (fun m => (m.locked, m.size, m.status 0, m.status 1)) =
      some (true, 2, some .released, some .canceled) := by decide
  obtain ⟨m, hm, he⟩ := Option.map_eq_some_iff.mp hrun
  simp only [Prod.mk.injEq] at he
  obtain ⟨hl, hsize, h0, h1⟩ := he
  have hinv : Inv some m := Machine.run_invariant (fun m a n => step_inv a) inv_initial hm
  have hnone : ∀ k, ¬m.owning k := by
    intro k hk
    have hlt : k < 2 := by
      rcases hk with e | e <;> exact hsize ▸ hinv.lt_size e
    interval_cases k <;> simp [owning, h0, h1] at hk
  obtain ⟨k, hk⟩ | ⟨k, hk, -⟩ := h.last hm hl
  · exact hnone k (.inl hk)
  · exact hnone k (.inr hk)

end Simple.Coro.Mutex
