import Simple.Lib.Workers

/-! The thread pool: functions are posted from any thread, and the threads of the pool call them. -/

namespace Simple.Coro

open Simple.Lib

abbrev ThreadPool (T : Type) := Workers T

namespace ThreadPool

variable {T : Type}

section Code

-- `concurrency` is what `std::thread::hardware_concurrency` returns; it may be 0.
variable (concurrency : ℕ)

def threadNum (num : ℕ) : ℕ :=
  if num = 0 then if 1 < concurrency then concurrency - 1 else concurrency else num

def start (pool : ThreadPool T) (num : ℕ) : Option (ThreadPool T) :=
  if pool.threads ≠ [] then some pool else pool.spawn (threadNum concurrency num)

def post (pool : ThreadPool T) (func : T) (notified : Option ℕ) : Option (ThreadPool T) :=
  Workers.post pool func notified

/-- Thread `i` gets on in `run`. -/
def run (pool : ThreadPool T) (i : ℕ) : Option (ThreadPool T) := pool.turn i

/-- `stop` asks the threads one by one, and does not wait for any of them. -/
def stop (pool : ThreadPool T) : Option (ThreadPool T) :=
  (List.range pool.threads.length).foldlM Workers.requestStop pool

def join (pool : ThreadPool T) : Option (ThreadPool T) := Workers.join pool

inductive Action (T : Type)
  | start (num : ℕ)
  | post (func : T) (notified : Option ℕ)
  | run (i : ℕ)
  | spurious (i : ℕ)
  | requestStop (i : ℕ)
  | join
deriving DecidableEq

def step (pool : ThreadPool T) : Action T → Option (ThreadPool T)
  | .start num => pool.start concurrency num
  | .post func notified => pool.post func notified
  | .run i => pool.run i
  | .spurious i => pool.wake i
  | .requestStop i => pool.requestStop i
  | .join => pool.join

def machine (T : Type) : Machine (ThreadPool T) (Action T) where
  initial := {}
  step := step concurrency

end Code

variable {concurrency : ℕ} {pool pool' : ThreadPool T}

lemma step_workers {a : Action T} (h : pool.step concurrency a = some pool') :
    pool = pool' ∨ ∃ b : Workers.Action T, Workers.step pool b = some pool' ∧
      (b = .join → a = .join) := by
  cases a with
  | start num =>
    simp only [step, start] at h
    split_ifs at h with hnone
    · exact Or.inl (Option.some.inj h)
    · exact Or.inr ⟨.spawn _, h, nofun⟩
  | post func notified => exact Or.inr ⟨.post func notified, h, nofun⟩
  | run i => exact Or.inr ⟨.turn i, h, nofun⟩
  | spurious i => exact Or.inr ⟨.wake i, h, nofun⟩
  | requestStop i => exact Or.inr ⟨.requestStop i, h, nofun⟩
  | join => exact Or.inr ⟨.join, h, fun _ => rfl⟩

lemma run_workers {as : List (Action T)} (h : (machine concurrency T).run pool as = some pool') :
    ∃ bs : List (Workers.Action T), (Workers.machine T).run pool bs = some pool' ∧
      (.join ∈ bs → .join ∈ as) := by
  induction as generalizing pool with
  | nil => exact ⟨[], h, nofun⟩
  | cons a as ih =>
    obtain ⟨next, hnext, hrest⟩ := Machine.run_cons_eq_some.mp h
    obtain ⟨bs, hbs, hjoin⟩ := ih hrest
    obtain rfl | ⟨b, hb, hjoin'⟩ := step_workers hnext
    · exact ⟨bs, hbs, fun hmem => List.mem_cons_of_mem a (hjoin hmem)⟩
    · refine ⟨b :: bs, Machine.run_cons_eq_some.mpr ⟨next, hb, hbs⟩, ?_⟩
      intro hmem
      obtain hb' | hmem := List.mem_cons.mp hmem
      · rw [hjoin' hb'.symm]
        exact List.mem_cons_self
      · exact List.mem_cons_of_mem a (hjoin hmem)

lemma reachable_inv (h : (machine concurrency T).Reachable pool) : pool.Inv := by
  obtain ⟨as, has⟩ := h
  obtain ⟨bs, hbs, -⟩ := run_workers has
  exact Workers.reachable_inv ⟨bs, hbs⟩

lemma run_runs {is : List ℕ} (h : (machine concurrency T).run pool (is.map .run) = some pool') :
    (Workers.machine T).run pool (is.map .turn) = some pool' := by
  induction is generalizing pool with
  | nil => exact h
  | cons i is ih =>
    obtain ⟨next, hnext, hrest⟩ := Machine.run_cons_eq_some.mp h
    exact Machine.run_cons_eq_some.mpr ⟨next, hnext, ih hrest⟩

lemma requestStop_flags {i : ℕ} (hi : i < pool.threads.length) :
    ∃ pool' : ThreadPool T, pool.requestStop i = some pool' ∧
      pool'.threads.map Thread.stopping = (pool.threads.map Thread.stopping).set i true := by
  have hwake : Thread.stopping ∘ Thread.wake = (Thread.stopping : Thread T → Bool) := by
    funext th
    obtain ⟨place, stopping⟩ := th
    cases place <;> rfl
  rw [Workers.requestStop, List.getElem?_eq_getElem hi]
  split
  · refine ⟨_, rfl, ?_⟩
    rw [List.map_map, hwake, List.map_set]
  · exact ⟨_, rfl, by rw [List.map_set]⟩
  · contradiction

theorem stop_flags : ∃ pool' : ThreadPool T, pool.stop = some pool' ∧
    ∀ th ∈ pool'.threads, th.stopping = true := by
  have hpart : ∀ k ≤ pool.threads.length, ∃ pool' : ThreadPool T,
      (List.range k).foldlM Workers.requestStop pool = some pool' ∧
      pool'.threads.length = pool.threads.length ∧
      ∀ i < k, (pool'.threads.map Thread.stopping)[i]? = some true := by
    intro k
    induction k with
    | zero => exact fun _ => ⟨pool, rfl, rfl, nofun⟩
    | succ k ih =>
      intro hk
      obtain ⟨part, hfold, hlength, hflags⟩ := ih (by omega)
      obtain ⟨next, hnext, hset⟩ := requestStop_flags (hlength ▸ hk : k < part.threads.length)
      refine ⟨next, ?_, ?_, ?_⟩
      · rw [List.range_succ, List.foldlM_append, hfold]
        simpa using hnext
      · have hlength' := congrArg List.length hset
        simp only [List.length_map, List.length_set] at hlength'
        exact hlength'.trans hlength
      · intro i hi
        rw [hset, List.getElem?_set]
        split_ifs with hki hlt
        · rfl
        · simp only [List.length_map] at hlt
          omega
        · exact hflags i (by omega)
  obtain ⟨pool', hfold, hlength, hflags⟩ := hpart _ le_rfl
  refine ⟨pool', hfold, ?_⟩
  intro th hth
  obtain ⟨i, hi, rfl⟩ := List.getElem_of_mem hth
  have hflag := hflags i (hlength ▸ hi)
  rw [List.getElem?_map, List.getElem?_eq_getElem hi] at hflag
  exact Option.some.inj hflag

/-- Functions are called in the order in which they were posted, each by one thread, one at a time
in each thread. No wake-up is lost: a thread sleeps only when as many others are on their way to the
queue as it has functions. Left alone, the threads call all of them. -/
theorem calls_in_order (h : (machine concurrency T).Reachable pool) :
    pool.posted = pool.taken.map Prod.snd ++ pool.queue ∧
    (∀ i, Workers.ofThread i pool.taken = Workers.ofThread i pool.finished ++ pool.work i) ∧
    (pool.threads.any Thread.isAsleep = true →
      pool.queue.length ≤ pool.threads.countP Thread.isLocking) ∧
    (pool.threads ≠ [] → (∀ th ∈ pool.threads, th.stopping = false) →
      ∀ (is : List ℕ) pool', (machine concurrency T).run pool (is.map .run) = some pool' →
        is.length ≤ 4 * pool.queue.length + 3 * pool.threads.length ∧
        ((∀ i, pool'.run i = none) →
          pool'.queue = [] ∧ (pool'.finished.map Prod.snd).Perm pool.posted)) := by
  have hinv := reachable_inv h
  refine ⟨hinv.order, hinv.busy, hinv.awake, ?_⟩
  intro hsome hflags is pool' hrun
  obtain ⟨hinv', hkept, hlen⟩ := Workers.run_turns hinv (run_runs hrun)
  refine ⟨by have := pool.rank_le; omega, ?_⟩
  intro hstill
  have hflags' : ∀ th ∈ pool'.threads, th.stopping = false := by
    intro th hth
    have hmem := List.mem_map_of_mem (f := Thread.stopping) hth
    rw [hkept.flags] at hmem
    obtain ⟨th', hth', hflag⟩ := List.mem_map.mp hmem
    rw [← hflag]
    exact hflags th' hth'
  have hsome' : pool'.threads ≠ [] := by
    intro hnone
    have hflags := hkept.flags
    rw [hnone] at hflags
    exact hsome (List.map_eq_nil_iff.mp hflags.symm)
  rw [← hkept.posted]
  exact Workers.Still.all_finished hstill hinv' hsome' hflags'

theorem calls_in_order_two : ∃ pool : ThreadPool ℕ, (machine 1 ℕ).Reachable pool ∧
    pool.queue = [6, 7] ∧
    ∀ (is : List ℕ) pool', (machine 1 ℕ).run pool (is.map .run) = some pool' → is.length ≤ 14 := by
  have hreachable : (machine 1 ℕ).Reachable _ := ⟨[.post 5 none, .start 2, .run 0, .run 1, .run 1,
    .run 0, .post 6 (some 0), .post 7 none], rfl⟩
  refine ⟨_, hreachable, rfl, ?_⟩
  intro is pool' hrun
  exact ((calls_in_order hreachable).2.2.2 (by decide) (by decide) is pool' hrun).1

/-- After `stop` a thread calls at most one more function, whatever is posted. All of them end, so
that `join` returns; then no call has been cut short, and the functions that were not called are
still in the queue. -/
theorem stop_ends (h : (machine concurrency T).Reachable pool)
    (hstop : ∀ th ∈ pool.threads, th.stopping = true) :
    (∀ as pool', Action.join ∉ as → (machine concurrency T).run pool as = some pool' →
      ∀ i < pool.threads.length, (Workers.ofThread i pool'.taken).length ≤
        (Workers.ofThread i pool.taken).length + 1) ∧
    (∀ (is : List ℕ) pool', (machine concurrency T).run pool (is.map .run) = some pool' →
      is.length ≤ 4 * pool.queue.length + 3 * pool.threads.length ∧
      ((∀ i, pool'.run i = none) → ∃ joined : ThreadPool T, pool'.join = some joined ∧
        joined.threads = [] ∧ (joined.finished.map Prod.snd).Perm (joined.taken.map Prod.snd) ∧
        pool.posted = joined.taken.map Prod.snd ++ joined.queue)) := by
  have hinv := reachable_inv h
  constructor
  · intro as pool' hjoin hrun i hi
    obtain ⟨bs, hbs, hbs'⟩ := run_workers hrun
    have hth := List.getElem?_eq_getElem hi
    exact Workers.one_more hinv hth (hstop _ (List.getElem_mem hi)) (fun hmem => hjoin (hbs' hmem))
      hbs
  · intro is pool' hrun
    obtain ⟨hinv', hkept, hlen⟩ := Workers.run_turns hinv (run_runs hrun)
    refine ⟨by have := pool.rank_le; omega, ?_⟩
    intro hstill
    have hstop' : ∀ th ∈ pool'.threads, th.stopping = true := by
      intro th hth
      have hmem := List.mem_map_of_mem (f := Thread.stopping) hth
      rw [hkept.flags] at hmem
      obtain ⟨th', hth', hflag⟩ := List.mem_map.mp hmem
      rw [← hflag]
      exact hstop th' hth'
    have hended := Workers.Still.all_ended hstill hinv' hstop'
    have hcalled := Workers.perm_of_idle hinv' (Workers.work_of_ended hended)
    refine ⟨{ pool' with threads := [] }, if_pos hended, rfl, hcalled, ?_⟩
    · rw [← hkept.posted]
      exact hinv'.order

/-- Two threads sleep and one task is posted; both threads are asked to stop. -/
theorem stop_ends_two : ∃ pool : ThreadPool ℕ, (machine 1 ℕ).Reachable pool ∧
    pool.queue = [5, 6, 7] ∧
    ∀ as pool', Action.join ∉ as → (machine 1 ℕ).run pool as = some pool' →
      (Workers.ofThread 0 pool'.taken).length ≤ 1 := by
  have hreachable : (machine 1 ℕ).Reachable _ := ⟨[.start 2, .run 0, .run 1, .run 0,
    .post 5 (some 0), .post 6 none, .post 7 none, .requestStop 0, .requestStop 1], rfl⟩
  refine ⟨_, hreachable, rfl, ?_⟩
  intro as pool' hjoin hrun
  exact (stop_ends hreachable (by decide)).1 as pool' hjoin hrun 0 (by decide)

end ThreadPool

end Simple.Coro
