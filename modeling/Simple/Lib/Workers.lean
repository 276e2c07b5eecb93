import Simple.Lib.Machine
import Simple.Lib.Modify

/-! Threads that serve a queue: a mutex and a condition variable on which the threads sleep while the
queue is empty, and for each thread a flag that asks it to end. -/

namespace Simple.Lib

/-- Where a thread is. At `locking` it has passed the head of its loop or has been woken, and has
still to get the mutex. -/
inductive Place (T : Type)
  | head
  | locking
  | asleep
  | running (task : T)
  | ended
deriving DecidableEq

structure Thread (T : Type) where
  place : Place T := .head
  stopping : Bool := false
deriving DecidableEq

/-- `posted`, `taken` and `finished` tell what has happened; the numbers are those of the threads. -/
structure Workers (T : Type) where
  queue : List T := []
  threads : List (Thread T) := []
  posted : List T := []
  taken : List (ℕ × T) := []
  finished : List (ℕ × T) := []

variable {T : Type}

namespace Thread

def isAsleep (th : Thread T) : Bool :=
  match th.place with
  | .asleep => true
  | _ => false

def isLocking (th : Thread T) : Bool :=
  match th.place with
  | .locking => true
  | _ => false

def isEnded (th : Thread T) : Bool :=
  match th.place with
  | .ended => true
  | _ => false

def wake (th : Thread T) : Thread T :=
  match th.place with
  | .asleep => { th with place := .locking }
  | _ => th

def work (th : Thread T) : List T :=
  match th.place with
  | .running t => [t]
  | _ => []

lemma wake_isAsleep (th : Thread T) : th.wake.isAsleep = false := by
  obtain ⟨place, stopping⟩ := th
  cases place <;> rfl

lemma wake_work (th : Thread T) : th.wake.work = th.work := by
  obtain ⟨place, stopping⟩ := th
  cases place <;> rfl

lemma ended_of_wake {th : Thread T} (h : th.wake.isEnded = true) :
    th.isEnded = true ∧ th.wake = th := by
  obtain ⟨place, stopping⟩ := th
  cases place <;> first | exact ⟨h, rfl⟩ | cases h

end Thread

namespace Workers

/-- `notify_one` wakes a thread that sleeps if there is one. -/
def notifyOne (s : Workers T) : Option ℕ → Option (Workers T)
  | none => if s.threads.any Thread.isAsleep then none else some s
  | some i =>
    match s.threads[i]? with
    | some ⟨.asleep, stopping⟩ => some { s with threads := s.threads.set i ⟨.locking, stopping⟩ }
    | _ => none

def post (s : Workers T) (t : T) (i : Option ℕ) : Option (Workers T) :=
  notifyOne { s with queue := s.queue ++ [t], posted := s.posted ++ [t] } i

/-- What thread `i` does next: a pass of its loop is the test of the flag, the wait with the mutex,
which gives up the mutex when it sleeps, and the work. A wait that is stopped still takes a task. -/
def turn (s : Workers T) (i : ℕ) : Option (Workers T) :=
  match s.threads[i]? with
  | some ⟨.head, stopping⟩ =>
    some { s with threads := s.threads.set i ⟨if stopping then .ended else .locking, stopping⟩ }
  | some ⟨.locking, stopping⟩ =>
    match s.queue with
    | t :: queue => some { s with
        queue := queue
        threads := s.threads.set i ⟨.running t, stopping⟩
        taken := s.taken ++ [(i, t)] }
    | [] =>
      some { s with threads := s.threads.set i ⟨if stopping then .head else .asleep, stopping⟩ }
  | some ⟨.running t, stopping⟩ => some { s with
      threads := s.threads.set i ⟨.head, stopping⟩
      finished := s.finished ++ [(i, t)] }
  | _ => none

def wake (s : Workers T) (i : ℕ) : Option (Workers T) :=
  match s.threads[i]? with
  | some ⟨.asleep, stopping⟩ => some { s with threads := s.threads.set i ⟨.locking, stopping⟩ }
  | _ => none

def requestStop (s : Workers T) (i : ℕ) : Option (Workers T) :=
  match s.threads[i]? with
  | some ⟨.asleep, _⟩ =>
    some { s with threads := (s.threads.set i ⟨.asleep, true⟩).map Thread.wake }
  | some ⟨place, _⟩ => some { s with threads := s.threads.set i ⟨place, true⟩ }
  | none => none

def spawn (s : Workers T) (n : ℕ) : Option (Workers T) :=
  if s.threads = [] then some { s with threads := List.replicate n {} } else none

def join (s : Workers T) : Option (Workers T) :=
  if s.threads.all Thread.isEnded then some { s with threads := [] } else none

inductive Action (T : Type)
  | post (t : T) (notified : Option ℕ)
  | turn (i : ℕ)
  | wake (i : ℕ)
  | requestStop (i : ℕ)
  | spawn (n : ℕ)
  | join
deriving DecidableEq

def step (s : Workers T) : Action T → Option (Workers T)
  | .post t i => s.post t i
  | .turn i => s.turn i
  | .wake i => s.wake i
  | .requestStop i => s.requestStop i
  | .spawn n => s.spawn n
  | .join => s.join

def machine (T : Type) : Machine (Workers T) (Action T) where
  initial := {}
  step := step

/-- What thread `i` is at work on. -/
def work (s : Workers T) (i : ℕ) : List T := (s.threads[i]?.map Thread.work).getD []

def ofThread (i : ℕ) (l : List (ℕ × T)) : List T :=
  (l.filter fun e => decide (e.1 = i)).map Prod.snd

structure Inv (s : Workers T) : Prop where
  order : s.posted = s.taken.map Prod.snd ++ s.queue
  busy : ∀ i, ofThread i s.taken = ofThread i s.finished ++ s.work i
  awake : s.threads.any Thread.isAsleep = true → s.queue.length ≤ s.threads.countP Thread.isLocking
  calm : ∀ th ∈ s.threads, th.isAsleep = true → th.stopping = false
  ended : ∀ th ∈ s.threads, th.isEnded = true → th.stopping = true

variable {s s' t : Workers T} {i : ℕ} {th th' : Thread T} {a : Action T}

lemma ofThread_append (l l' : List (ℕ × T)) :
    ofThread i (l ++ l') = ofThread i l ++ ofThread i l' := by
  rw [ofThread, List.filter_append, List.map_append]
  rfl

lemma work_of (hi : s.threads[i]? = some th) : s.work i = th.work := by rw [work, hi]; rfl

lemma work_set (hi : s.threads[i]? = some th) (h : s'.threads = s.threads.set i th') (j : ℕ) :
    s'.work j = if i = j then th'.work else s.work j := by
  have hlt := (List.getElem?_eq_some_iff.mp hi).1
  rw [work, h, List.getElem?_set]
  split_ifs
  · rfl
  · rfl

lemma busy_set (h : s.Inv) (hi : s.threads[i]? = some th) (took ended : List T)
    (hset : s'.threads = s.threads.set i th') (htaken : s'.taken = s.taken ++ took.map (i, ·))
    (hfinished : s'.finished = s.finished ++ ended.map (i, ·))
    (hwork : th.work ++ took = ended ++ th'.work) (j : ℕ) :
    ofThread j s'.taken = ofThread j s'.finished ++ s'.work j := by
  have hone : ∀ l : List T, ofThread j (l.map (i, ·)) = if i = j then l else [] := by
    intro l
    split_ifs with hij <;> simp [ofThread, List.filter_map, Function.comp_def, hij]
  rw [htaken, hfinished, ofThread_append, ofThread_append, h.busy, hone, hone, work_set hi hset]
  split_ifs with hij
  · subst hij
    rw [work_of hi, List.append_assoc, hwork, List.append_assoc]
  · simp

lemma awake_set (h : s.Inv) (hi : s.threads[i]? = some th) (hset : s'.threads = s.threads.set i th')
    (hcount : s'.queue = [] ∨ (th'.isAsleep = true → th.isAsleep = true) ∧
      s'.queue.length + th.isLocking.toNat ≤ s.queue.length + th'.isLocking.toNat)
    (hany : s'.threads.any Thread.isAsleep = true) :
    s'.queue.length ≤ s'.threads.countP Thread.isLocking := by
  obtain hempty | ⟨hasleep, hlen⟩ := hcount
  · simp [hempty]
  obtain ⟨l₁, l₂, hl, hl', -⟩ := split_getElem? hi
  have hawake := h.awake
  rw [hset, hl'] at hany ⊢
  rw [hl] at hawake
  simp only [List.any_append, List.any_cons, Bool.or_eq_true, List.countP_append,
    List.countP_cons] at hany hawake ⊢
  have hle := hawake (hany.imp_right fun h => h.imp_left hasleep)
  cases hth : th.isLocking <;> cases hth' : th'.isLocking <;>
    simp only [hth, hth', Bool.toNat_true, Bool.toNat_false, if_true, if_false,
      Bool.false_eq_true] at hlen hle ⊢ <;> omega

lemma Inv.set (h : s.Inv) (hi : s.threads[i]? = some th) (took ended : List T)
    (hset : s'.threads = s.threads.set i th') (htaken : s'.taken = s.taken ++ took.map (i, ·))
    (hfinished : s'.finished = s.finished ++ ended.map (i, ·))
    (hwork : th.work ++ took = ended ++ th'.work)
    (horder : s'.posted = s'.taken.map Prod.snd ++ s'.queue)
    (hcount : s'.queue = [] ∨ (th'.isAsleep = true → th.isAsleep = true) ∧
      s'.queue.length + th.isLocking.toNat ≤ s.queue.length + th'.isLocking.toNat)
    (hcalm : th'.isAsleep = true → th'.stopping = false)
    (hended : th'.isEnded = true → th'.stopping = true) : s'.Inv := by
  refine ⟨horder, busy_set h hi took ended hset htaken hfinished hwork, awake_set h hi hset hcount, ?_, ?_⟩
  · intro x hx
    rw [hset] at hx
    obtain hx | rfl := List.mem_or_eq_of_mem_set hx
    · exact h.calm x hx
    · exact hcalm
  · intro x hx
    rw [hset] at hx
    obtain hx | rfl := List.mem_or_eq_of_mem_set hx
    · exact h.ended x hx
    · exact hended

/-- What a turn does to the thread and to the queue, with the tasks it takes and those it ends. -/
inductive Turn : Thread T → List T → Thread T → List T → List T → List T → Prop
  | pass (queue : List T) : Turn ⟨.head, false⟩ queue ⟨.locking, false⟩ queue [] []
  | leave (queue : List T) : Turn ⟨.head, true⟩ queue ⟨.ended, true⟩ queue [] []
  | take (task : T) (queue : List T) (stopping : Bool) :
    Turn ⟨.locking, stopping⟩ (task :: queue) ⟨.running task, stopping⟩ queue [task] []
  | sleep : Turn ⟨.locking, false⟩ [] ⟨.asleep, false⟩ [] [] []
  | giveUp : Turn ⟨.locking, true⟩ [] ⟨.head, true⟩ [] [] []
  | finish (task : T) (queue : List T) (stopping : Bool) :
    Turn ⟨.running task, stopping⟩ queue ⟨.head, stopping⟩ queue [] [task]

lemma turn_cases (ht : s.turn i = some t) : ∃ th th' queue queue' took ended,
    s.threads[i]? = some th ∧ s.queue = queue ∧ Turn th queue th' queue' took ended ∧
    t = { s with
      queue := queue'
      threads := s.threads.set i th'
      taken := s.taken ++ took.map (i, ·)
      finished := s.finished ++ ended.map (i, ·) } := by
  rw [turn] at ht
  split at ht
  · next stopping hi =>
    obtain rfl := Option.some.inj ht
    cases stopping with
    | false => exact ⟨_, _, _, _, _, _, hi, rfl, .pass s.queue, by simp⟩
    | true => exact ⟨_, _, _, _, _, _, hi, rfl, .leave s.queue, by simp⟩
  · next stopping hi =>
    split at ht
    · next task queue hqueue =>
      obtain rfl := Option.some.inj ht
      exact ⟨_, _, _, _, _, _, hi, hqueue, .take task queue stopping, by simp⟩
    · next hqueue =>
      obtain rfl := Option.some.inj ht
      cases stopping with
      | false => exact ⟨_, _, _, _, _, _, hi, hqueue, .sleep, by simp [hqueue]⟩
      | true => exact ⟨_, _, _, _, _, _, hi, hqueue, .giveUp, by simp [hqueue]⟩
  · next task stopping hi =>
    obtain rfl := Option.some.inj ht
    exact ⟨_, _, _, _, _, _, hi, rfl, .finish task s.queue stopping, by simp⟩
  · cases ht

lemma Inv.turn (h : s.Inv) (ht : s.turn i = some t) : t.Inv := by
  obtain ⟨th, th', queue, queue', took, ended, hi, hqueue, hturn, rfl⟩ := turn_cases ht
  have horder : s.posted = (s.taken ++ took.map (i, ·)).map Prod.snd ++ queue' := by
    rw [h.order, hqueue]
    cases hturn <;> simp
  have hwork : th.work ++ took = ended ++ th'.work := by cases hturn <;> rfl
  apply h.set hi took ended rfl rfl rfl hwork horder
  · rw [hqueue]
    cases hturn with
    | pass => exact Or.inr ⟨nofun, Nat.le_succ _⟩
    | leave => exact Or.inr ⟨nofun, le_rfl⟩
    | take => exact Or.inr ⟨nofun, le_rfl⟩
    | sleep => exact Or.inl rfl
    | giveUp => exact Or.inl rfl
    | finish => exact Or.inr ⟨nofun, le_rfl⟩
  · intro hasleep
    cases hturn <;> first | rfl | cases hasleep
  · intro hended
    cases hturn <;> first | rfl | cases hended

lemma Inv.wake (h : s.Inv) (ht : s.wake i = some t) : t.Inv := by
  rw [Workers.wake] at ht
  split at ht
  · next stopping hi =>
    obtain rfl := Option.some.inj ht
    exact h.set hi [] [] rfl (by simp) (by simp) rfl h.order (Or.inr ⟨nofun, Nat.le_succ _⟩) nofun nofun
  · cases ht

lemma Inv.post {task : T} {notified : Option ℕ} (h : s.Inv) (ht : s.post task notified = some t) :
    t.Inv := by
  have horder : s.posted ++ [task] = s.taken.map Prod.snd ++ (s.queue ++ [task]) := by
    rw [h.order, List.append_assoc]
  rw [Workers.post, notifyOne.eq_def] at ht
  split at ht
  · split_ifs at ht with hany
    obtain rfl := Option.some.inj ht
    exact ⟨horder, h.busy, fun hany' => absurd hany' hany, h.calm, h.ended⟩
  · next i =>
    split at ht
    · next stopping hi =>
      obtain rfl := Option.some.inj ht
      apply h.set hi [] [] rfl (by simp) (by simp) rfl horder
      · refine Or.inr ⟨nofun, ?_⟩
        simp [Thread.isLocking]
      · exact nofun
      · exact nofun
    · cases ht

lemma Inv.requestStop (h : s.Inv) (ht : s.requestStop i = some t) : t.Inv := by
  rw [Workers.requestStop] at ht
  split at ht
  · next stopping hi =>
    obtain rfl := Option.some.inj ht
    have hawake : ∀ th : Thread T, th ∈ (s.threads.set i ⟨.asleep, true⟩).map Thread.wake →
        th.isAsleep = false := by
      intro th hth
      obtain ⟨th', -, rfl⟩ := List.mem_map.mp hth
      exact th'.wake_isAsleep
    refine ⟨h.order, ?_, ?_, ?_, ?_⟩
    · intro j
      rw [h.busy, work, work, List.getElem?_map, List.getElem?_set]
      split_ifs with hij hlt
      · subst hij
        rw [hi]
        rfl
      · subst hij
        rw [List.getElem?_eq_none_iff.mpr (not_lt.mp hlt)]
        rfl
      · cases s.threads[j]? with
        | none => rfl
        | some th => simp [Thread.wake_work]
    · intro hany
      obtain ⟨th, hth, hasleep⟩ := List.any_eq_true.mp hany
      rw [hawake th hth] at hasleep
      cases hasleep
    · intro th hth hasleep
      rw [hawake th hth] at hasleep
      cases hasleep
    · intro th hth hended
      obtain ⟨th', hth', rfl⟩ := List.mem_map.mp hth
      obtain ⟨hended', hsame⟩ := Thread.ended_of_wake hended
      rw [hsame]
      obtain hmem | rfl := List.mem_or_eq_of_mem_set hth'
      · exact h.ended th' hmem hended'
      · rfl
  · next place stopping hplace hi =>
    obtain rfl := Option.some.inj ht
    have hasleep : Thread.isAsleep ⟨place, true⟩ = false := by
      cases place with
      | asleep => exact absurd rfl hplace
      | _ => rfl
    refine h.set hi [] [] rfl (by simp) (by simp) ?_ h.order (Or.inr ⟨?_, le_rfl⟩) ?_ fun _ => rfl
    · rw [List.append_nil]
      rfl
    · exact fun hasleep' => hasleep'
    · intro hasleep'
      rw [hasleep] at hasleep'
      cases hasleep'
  · cases ht

lemma Inv.fresh {threads : List (Thread T)} (h : s.Inv) (hidle : ∀ j, s.work j = [])
    (hnew : ∀ th ∈ threads, th = {}) : { s with threads := threads }.Inv := by
  have hwork : ∀ j, work { s with threads := threads } j = [] := by
    intro j
    rw [work]
    cases hj : threads[j]? with
    | none => rfl
    | some th =>
      rw [hnew th (List.mem_of_getElem? hj)]
      rfl
  refine ⟨h.order, ?_, ?_, ?_, ?_⟩
  · intro j
    rw [hwork, h.busy, hidle]
  · intro hany
    obtain ⟨th, hth, hasleep⟩ := List.any_eq_true.mp hany
    rw [hnew th hth] at hasleep
    cases hasleep
  · intro th hth hasleep
    rw [hnew th hth] at hasleep
    cases hasleep
  · intro th hth hended
    rw [hnew th hth] at hended
    cases hended

lemma Inv.spawn {n : ℕ} (h : s.Inv) (ht : s.spawn n = some t) : t.Inv := by
  rw [Workers.spawn] at ht
  split_ifs at ht with hnone
  obtain rfl := Option.some.inj ht
  apply h.fresh
  · intro j
    rw [work, hnone]
    rfl
  · intro th hth
    exact List.eq_of_mem_replicate hth

lemma work_of_ended (h : s.threads.all Thread.isEnded = true) (j : ℕ) : s.work j = [] := by
  rw [work]
  cases hj : s.threads[j]? with
  | none => rfl
  | some th =>
    have hended := List.all_eq_true.mp h th (List.mem_of_getElem? hj)
    obtain ⟨place, stopping⟩ := th
    cases place <;> first | rfl | cases hended

lemma Inv.join (h : s.Inv) (ht : s.join = some t) : t.Inv := by
  rw [Workers.join] at ht
  split_ifs at ht with hended
  obtain rfl := Option.some.inj ht
  exact h.fresh (work_of_ended hended) nofun

lemma step_inv (h : s.Inv) (ht : s.step a = some t) : t.Inv := by
  cases a with
  | post task notified => exact h.post ht
  | turn i => exact h.turn ht
  | wake i => exact h.wake ht
  | requestStop i => exact h.requestStop ht
  | spawn n => exact h.spawn ht
  | join => exact h.join ht

lemma reachable_inv (h : (machine T).Reachable s) : s.Inv := by
  apply Machine.reachable_invariant (M := machine T) _ (fun s a t hs ht => step_inv hs ht) h
  exact ⟨rfl, fun _ => rfl, nofun, nofun, nofun⟩

lemma step_history (hturn : ∀ i, a ≠ .turn i) (ht : s.step a = some t) :
    t.taken = s.taken ∧ t.finished = s.finished ∧
      ((∀ task notified, a ≠ .post task notified) → t.posted = s.posted) := by
  cases a with
  | post task notified =>
    simp only [step, post, notifyOne.eq_def] at ht
    split at ht
    · split_ifs at ht
      obtain rfl := Option.some.inj ht
      exact ⟨rfl, rfl, fun hpost => absurd rfl (hpost task none)⟩
    · split at ht
      · obtain rfl := Option.some.inj ht
        exact ⟨rfl, rfl, fun hpost => absurd rfl (hpost task _)⟩
      · cases ht
  | turn i => exact absurd rfl (hturn i)
  | wake i =>
    simp only [step, wake] at ht
    split at ht
    · obtain rfl := Option.some.inj ht
      exact ⟨rfl, rfl, fun _ => rfl⟩
    · cases ht
  | requestStop i =>
    simp only [step, requestStop] at ht
    split at ht
    · obtain rfl := Option.some.inj ht
      exact ⟨rfl, rfl, fun _ => rfl⟩
    · obtain rfl := Option.some.inj ht
      exact ⟨rfl, rfl, fun _ => rfl⟩
    · cases ht
  | spawn n =>
    simp only [step, spawn] at ht
    split_ifs at ht
    obtain rfl := Option.some.inj ht
    exact ⟨rfl, rfl, fun _ => rfl⟩
  | join =>
    simp only [step, join] at ht
    split_ifs at ht
    obtain rfl := Option.some.inj ht
    exact ⟨rfl, rfl, fun _ => rfl⟩

lemma post_posted {task : T} {notified : Option ℕ} (ht : s.post task notified = some t) :
    t.posted = s.posted ++ [task] := by
  rw [post, notifyOne.eq_def] at ht
  split at ht
  · split_ifs at ht
    obtain rfl := Option.some.inj ht
    rfl
  · split at ht
    · obtain rfl := Option.some.inj ht
      rfl
    · cases ht

lemma work_eq (h : s.Inv) (h' : t.Inv) (htaken : t.taken = s.taken)
    (hfinished : t.finished = s.finished) (i : ℕ) : t.work i = s.work i := by
  have hbusy := h'.busy i
  rw [htaken, hfinished, h.busy] at hbusy
  exact (List.append_cancel_left hbusy).symm

def rankOf (th : Thread T) : ℕ :=
  match th.place, th.stopping with
  | .head, stopping => if stopping then 1 else 2
  | .locking, stopping => if stopping then 2 else 1
  | .running _, stopping => if stopping then 2 else 3
  | _, _ => 0

def rank (s : Workers T) : ℕ := 4 * s.queue.length + (s.threads.map rankOf).sum

lemma rankOf_le (th : Thread T) : rankOf th ≤ 3 := by
  rw [rankOf]
  split
  · split_ifs <;> omega
  · split_ifs <;> omega
  · split_ifs <;> omega
  · omega

lemma rank_le : s.rank ≤ 4 * s.queue.length + 3 * s.threads.length := by
  have hsum : (s.threads.map rankOf).sum ≤ s.threads.length * 3 := by
    have hle := List.sum_le_card_nsmul (s.threads.map rankOf) 3 ?_
    · simpa using hle
    · intro n hn
      obtain ⟨th, -, rfl⟩ := List.mem_map.mp hn
      exact rankOf_le th
  rw [rank]
  omega

lemma rank_set (hi : s.threads[i]? = some th) (hset : s'.threads = s.threads.set i th')
    (hlt : 4 * s'.queue.length + rankOf th' < 4 * s.queue.length + rankOf th) :
    s'.rank < s.rank := by
  obtain ⟨l₁, l₂, hl, hl', -⟩ := split_getElem? hi
  rw [rank, rank, hset, hl' th', hl]
  simp only [List.map_append, List.map_cons, List.sum_append, List.sum_cons]
  omega

lemma turn_rank (ht : s.turn i = some t) : t.rank < s.rank := by
  obtain ⟨th, th', queue, queue', took, ended, hi, hqueue, hturn, rfl⟩ := turn_cases ht
  apply rank_set hi rfl
  rw [hqueue]
  cases hturn with
  | pass => simp [rankOf]
  | leave => simp [rankOf]
  | take task queue stopping =>
    simp only [rankOf, List.length_cons]
    split_ifs <;> omega
  | sleep => simp [rankOf]
  | giveUp => simp [rankOf]
  | finish task queue stopping =>
    simp only [rankOf]
    split_ifs <;> omega

structure Kept (s t : Workers T) : Prop where
  posted : t.posted = s.posted
  flags : t.threads.map Thread.stopping = s.threads.map Thread.stopping

lemma turn_kept (ht : s.turn i = some t) : Kept s t := by
  obtain ⟨th, th', queue, queue', took, ended, hi, -, hturn, rfl⟩ := turn_cases ht
  refine ⟨rfl, map_set hi ?_⟩
  cases hturn <;> rfl

lemma run_turns {is : List ℕ} (h : s.Inv) (ht : (machine T).run s (is.map .turn) = some t) :
    t.Inv ∧ Kept s t ∧ is.length + t.rank ≤ s.rank := by
  induction is generalizing s with
  | nil =>
    obtain rfl : s = t := by simpa using ht
    exact ⟨h, ⟨rfl, rfl⟩, by simp⟩
  | cons i is ih =>
    rw [List.map_cons] at ht
    obtain ⟨r, hr, ht⟩ := Machine.run_cons_eq_some.mp ht
    obtain ⟨hinv, hkept, hlen⟩ := ih (h.turn hr) ht
    have hkept' := turn_kept hr
    have hrank := turn_rank hr
    refine ⟨hinv, ⟨hkept.posted.trans hkept'.posted, hkept.flags.trans hkept'.flags⟩, ?_⟩
    rw [List.length_cons]
    omega

def Still (s : Workers T) : Prop := ∀ i, s.turn i = none

lemma Still.place (h : s.Still) (hth : th ∈ s.threads) : th.isAsleep = true ∨ th.isEnded = true := by
  obtain ⟨i, hi⟩ := List.mem_iff_getElem?.mp hth
  have hnone := h i
  obtain ⟨place, stopping⟩ := th
  simp only [turn, hi] at hnone
  cases place with
  | head => cases hnone
  | locking =>
    cases hqueue : s.queue <;> simp [hqueue] at hnone
  | asleep => exact Or.inl rfl
  | running task => cases hnone
  | ended => exact Or.inr rfl

lemma filter_eq_ofThread (l : List (ℕ × T)) :
    (l.filter fun e => decide (e.1 = i)) = (ofThread i l).map (i, ·) := by
  have hsame : ∀ e ∈ l.filter fun e => decide (e.1 = i), ((i, ·) ∘ Prod.snd) e = e := by
    intro e he
    obtain ⟨-, hi⟩ := List.mem_filter.mp he
    exact Prod.ext (of_decide_eq_true hi).symm rfl
  rw [ofThread, List.map_map, List.map_congr_left hsame, List.map_id']

lemma perm_of_idle (h : s.Inv) (hidle : ∀ i, s.work i = []) :
    (s.finished.map Prod.snd).Perm (s.taken.map Prod.snd) := by
  classical
  apply List.Perm.map
  rw [List.perm_iff_count]
  intro e
  have hbusy := h.busy e.1
  rw [hidle, List.append_nil] at hbusy
  have hcount : ∀ l : List (ℕ × T), l.count e = ((ofThread e.1 l).map (e.1, ·)).count e := by
    intro l
    rw [← filter_eq_ofThread, List.count_filter (by simp)]
  rw [hcount, hcount s.taken, hbusy]

lemma Still.all_finished (hstill : s.Still) (h : s.Inv) (hsome : s.threads ≠ [])
    (hflags : ∀ th ∈ s.threads, th.stopping = false) :
    s.queue = [] ∧ (s.finished.map Prod.snd).Perm s.posted := by
  have hasleep : ∀ th ∈ s.threads, th.isAsleep = true := by
    intro th hth
    obtain hasleep | hended := hstill.place hth
    · exact hasleep
    · have hflag := h.ended th hth hended
      rw [hflags th hth] at hflag
      cases hflag
  have hempty : s.queue = [] := by
    have hcount : s.threads.countP Thread.isLocking = 0 := by
      rw [List.countP_eq_zero]
      intro th hth hlocking
      have hplace := hasleep th hth
      obtain ⟨place, stopping⟩ := th
      cases place <;> simp [Thread.isAsleep, Thread.isLocking] at hplace hlocking
    obtain ⟨th, hth⟩ := List.exists_mem_of_ne_nil _ hsome
    have hle := h.awake (List.any_eq_true.mpr ⟨th, hth, hasleep th hth⟩)
    exact List.length_eq_zero_iff.mp (by omega)
  have hidle : ∀ i, s.work i = [] := by
    intro i
    rw [work]
    cases hi : s.threads[i]? with
    | none => rfl
    | some th =>
      have hplace := hasleep th (List.mem_of_getElem? hi)
      obtain ⟨place, stopping⟩ := th
      cases place <;> first | rfl | cases hplace
  refine ⟨hempty, ?_⟩
  rw [h.order, hempty, List.append_nil]
  exact perm_of_idle h hidle

lemma Still.all_ended (hstill : s.Still) (h : s.Inv) (hflags : ∀ th ∈ s.threads, th.stopping = true) :
    s.threads.all Thread.isEnded = true := by
  rw [List.all_eq_true]
  intro th hth
  obtain hasleep | hended := hstill.place hth
  · have hflag := h.calm th hth hasleep
    rw [hflags th hth] at hflag
    cases hflag
  · exact hended

/-- Thread `i` is asked to end and takes at most `n` tasks from now on. -/
def Leaves (i n : ℕ) (s : Workers T) : Prop :=
  ∃ th, s.threads[i]? = some th ∧ th.stopping = true ∧
    (ofThread i s.taken).length + th.isLocking.toNat ≤ n

lemma Leaves.set {k n : ℕ} (hleaves : s.Leaves i n) (hk : s.threads[k]? = some th)
    (hset : s'.threads = s.threads.set k th') (took : List T)
    (htaken : s'.taken = s.taken ++ took.map (k, ·)) (hstopping : th.stopping = true →
      th'.stopping = true ∧ took.length + th'.isLocking.toNat ≤ th.isLocking.toNat) :
    s'.Leaves i n := by
  obtain ⟨x, hx, hxs, hle⟩ := hleaves
  have hlt := (List.getElem?_eq_some_iff.mp hk).1
  by_cases hki : k = i
  · subst hki
    obtain rfl := Option.some.inj (hx.symm.trans hk)
    obtain ⟨hstop', hcount⟩ := hstopping hxs
    refine ⟨th', by rw [hset, List.getElem?_set_self hlt], hstop', ?_⟩
    have hlen : (ofThread k (took.map (k, ·))).length = took.length := by
      simp [ofThread, List.filter_map, Function.comp_def]
    rw [htaken, ofThread_append, List.length_append, hlen]
    omega
  · refine ⟨x, by rw [hset, List.getElem?_set_ne hki, hx], hxs, ?_⟩
    have hnil : ofThread i (took.map (k, ·)) = [] := by
      simp [ofThread, List.filter_map, Function.comp_def, hki]
    rw [htaken, ofThread_append, hnil, List.append_nil]
    exact hle

lemma Inv.awake_of_stopping (h : s.Inv) (hi : s.threads[i]? = some ⟨.asleep, true⟩) : False := by
  cases h.calm _ (List.mem_of_getElem? hi) rfl

lemma Leaves.notified {k n : ℕ} {stopping : Bool} (hleaves : s.Leaves i n) (h : s.Inv)
    (hk : s.threads[k]? = some ⟨.asleep, stopping⟩)
    (hset : s'.threads = s.threads.set k ⟨.locking, stopping⟩) (htaken : s'.taken = s.taken) :
    s'.Leaves i n := by
  apply hleaves.set hk hset []
  · simpa using htaken
  · rintro rfl
    exact (h.awake_of_stopping hk).elim

lemma Leaves.step {n : ℕ} (hleaves : s.Leaves i n) (h : s.Inv) (ha : a ≠ .join)
    (ht : s.step a = some t) : t.Leaves i n := by
  cases a with
  | post task notified =>
    simp only [Workers.step, post] at ht
    cases notified with
    | none =>
      rw [notifyOne] at ht
      split_ifs at ht
      obtain rfl := Option.some.inj ht
      exact hleaves
    | some k =>
      rw [notifyOne] at ht
      split at ht
      · next stopping hk =>
        obtain rfl := Option.some.inj ht
        exact hleaves.notified h hk rfl rfl
      · cases ht
  | turn k =>
    obtain ⟨th, th', queue, queue', took, ended, hk, -, hturn, rfl⟩ := turn_cases ht
    apply hleaves.set hk rfl took rfl
    intro hstopping
    cases hturn with
    | pass => cases hstopping
    | leave => exact ⟨rfl, le_rfl⟩
    | take => exact ⟨hstopping, le_rfl⟩
    | sleep => cases hstopping
    | giveUp => exact ⟨rfl, Nat.zero_le _⟩
    | finish => exact ⟨hstopping, le_rfl⟩
  | wake k =>
    simp only [Workers.step, Workers.wake] at ht
    split at ht
    · next stopping hk =>
      obtain rfl := Option.some.inj ht
      exact hleaves.notified h hk rfl rfl
    · cases ht
  | requestStop k =>
    simp only [Workers.step, Workers.requestStop] at ht
    split at ht
    · next stopping hk =>
      obtain rfl := Option.some.inj ht
      obtain ⟨th, hth, hstopping, hle⟩ := hleaves
      have hki : k ≠ i := by
        rintro rfl
        obtain rfl := Option.some.inj (hth.symm.trans hk)
        obtain rfl : stopping = true := hstopping
        exact h.awake_of_stopping hk
      have hsame : th.wake = th := by
        obtain ⟨place, flag⟩ := th
        obtain rfl : flag = true := hstopping
        cases place with
        | asleep => exact (h.awake_of_stopping hth).elim
        | _ => rfl
      refine ⟨th, ?_, hstopping, hle⟩
      rw [List.getElem?_map, List.getElem?_set_ne hki, hth, Option.map_some, hsame]
    · next place stopping _ hk =>
      obtain rfl := Option.some.inj ht
      apply hleaves.set hk rfl []
      · simp
      · intro _
        exact ⟨rfl, by rw [List.length_nil, Nat.zero_add]; rfl⟩
    · cases ht
  | spawn m =>
    simp only [Workers.step, Workers.spawn] at ht
    split_ifs at ht with hnone
    obtain ⟨th, hth, -⟩ := hleaves
    rw [hnone] at hth
    cases hth
  | join => exact absurd rfl ha

lemma one_more {as : List (Action T)} (h : s.Inv) (hi : s.threads[i]? = some th)
    (hstopping : th.stopping = true) (has : Action.join ∉ as)
    (ht : (machine T).run s as = some t) :
    (ofThread i t.taken).length ≤ (ofThread i s.taken).length + 1 := by
  have hleaves : s.Leaves i ((ofThread i s.taken).length + 1) := by
    refine ⟨th, hi, hstopping, ?_⟩
    have hle := Bool.toNat_le th.isLocking
    omega
  have hkept : t.Inv ∧ t.Leaves i ((ofThread i s.taken).length + 1) := by
    apply Machine.run_invariant_of_mem (M := machine T) (I := fun u : Workers T =>
      u.Inv ∧ u.Leaves i ((ofThread i s.taken).length + 1)) _ ⟨h, hleaves⟩ ht
    rintro a ha u v ⟨hu, hul⟩ hv
    exact ⟨step_inv hu hv, hul.step hu (fun hjoin => has (hjoin ▸ ha)) hv⟩
  obtain ⟨-, _, -, -, hle⟩ := hkept
  omega

structure Single (s : Workers T) : Prop where
  length : s.threads.length ≤ 1
  taken : ∀ e ∈ s.taken, e.1 = 0
  finished : ∀ e ∈ s.finished, e.1 = 0

lemma Single.of_set {k : ℕ} (hs : s.Single) (hk : s.threads[k]? = some th)
    (hset : s'.threads = s.threads.set k th') (took ended : List T)
    (htaken : s'.taken = s.taken ++ took.map (k, ·))
    (hfinished : s'.finished = s.finished ++ ended.map (k, ·)) : s'.Single := by
  have hlt := (List.getElem?_eq_some_iff.mp hk).1
  obtain rfl : k = 0 := by have := hs.length; omega
  refine ⟨?_, ?_, ?_⟩
  · rw [hset, List.length_set]
    exact hs.length
  · intro e he
    rw [htaken] at he
    obtain he | he := List.mem_append.mp he
    · exact hs.taken e he
    · obtain ⟨_, -, rfl⟩ := List.mem_map.mp he
      rfl
  · intro e he
    rw [hfinished] at he
    obtain he | he := List.mem_append.mp he
    · exact hs.finished e he
    · obtain ⟨_, -, rfl⟩ := List.mem_map.mp he
      rfl

lemma Single.step (hs : s.Single) (hspawn : ∀ n, a = .spawn n → n ≤ 1)
    (ht : s.step a = some t) : t.Single := by
  have hsame : ∀ {k : ℕ} {th th' : Thread T} {u : Workers T}, s.threads[k]? = some th →
      u.threads = s.threads.set k th' → u.taken = s.taken → u.finished = s.finished → u.Single :=
    fun hk hset htaken hfinished => hs.of_set hk hset [] [] (by simpa using htaken)
      (by simpa using hfinished)
  cases a with
  | post task notified =>
    simp only [Workers.step, post] at ht
    cases notified with
    | none =>
      rw [notifyOne] at ht
      split_ifs at ht
      obtain rfl := Option.some.inj ht
      exact ⟨hs.length, hs.taken, hs.finished⟩
    | some k =>
      rw [notifyOne] at ht
      split at ht
      · next stopping hk =>
        obtain rfl := Option.some.inj ht
        exact hsame hk rfl rfl rfl
      · cases ht
  | turn k =>
    obtain ⟨th, th', queue, queue', took, ended, hk, -, -, rfl⟩ := turn_cases ht
    exact hs.of_set hk rfl took ended rfl rfl
  | wake k =>
    simp only [Workers.step, Workers.wake] at ht
    split at ht
    · next stopping hk =>
      obtain rfl := Option.some.inj ht
      exact hsame hk rfl rfl rfl
    · cases ht
  | requestStop k =>
    simp only [Workers.step, Workers.requestStop] at ht
    split at ht
    · next stopping hk =>
      obtain rfl := Option.some.inj ht
      exact ⟨by simpa using hs.length, hs.taken, hs.finished⟩
    · next place stopping _ hk =>
      obtain rfl := Option.some.inj ht
      exact hsame hk rfl rfl rfl
    · cases ht
  | spawn n =>
    simp only [Workers.step, Workers.spawn] at ht
    split_ifs at ht
    obtain rfl := Option.some.inj ht
    exact ⟨by simpa using hspawn n rfl, hs.taken, hs.finished⟩
  | join =>
    simp only [Workers.step, Workers.join] at ht
    split_ifs at ht
    obtain rfl := Option.some.inj ht
    exact ⟨Nat.zero_le _, hs.taken, hs.finished⟩

lemma Single.serial (hs : s.Single) (h : s.Inv) :
    s.posted = s.finished.map Prod.snd ++ s.work 0 ++ s.queue := by
  have hall : ∀ l : List (ℕ × T), (∀ e ∈ l, e.1 = 0) → l.map Prod.snd = ofThread 0 l := by
    intro l hl
    rw [ofThread, List.filter_eq_self.mpr fun e he => decide_eq_true (hl e he)]
  rw [h.order, hall _ hs.taken, hall _ hs.finished, h.busy]

lemma Single.awake (hs : s.Single) (h : s.Inv) (hasleep : s.threads.any Thread.isAsleep = true) :
    s.queue = [] := by
  have hle := h.awake hasleep
  have hone := hs.length
  have hnone : s.threads.countP Thread.isLocking = 0 := by
    cases hthreads : s.threads with
    | nil => rfl
    | cons th rest =>
      rw [hthreads, List.length_cons] at hone
      obtain rfl : rest = [] := List.length_eq_zero_iff.mp (by omega)
      rw [hthreads] at hasleep
      obtain ⟨place, stopping⟩ := th
      cases place <;> simp [Thread.isAsleep, Thread.isLocking] at hasleep ⊢
  exact List.length_eq_zero_iff.mp (by omega)

end Workers

end Simple.Lib
