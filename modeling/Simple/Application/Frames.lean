import Simple.Application.Services
import Simple.Lib.Machine

/-! The frames of an application: the loop that updates the services, and the coroutines that wait for
a frame. -/

namespace Simple.Application

open Simple.Lib

def Service.needUpdate (s : Service) : Service × Bool :=
  if s.interval = 0 then (s, false)
  else if s.current + 1 < s.interval then ({ s with current := s.current + 1 }, false)
  else ({ s with current := 0 }, true)

/-- Where the loop of `update_frame` is: it waits for the tasks that it has started, each with its
result when it has ended, or for the next frame, or a service has failed. -/
inductive Phase
  | updating (tasks : List (ℕ × Option Bool))
  | sleeping
  | stopped (failName : String)

inductive Note
  | starts (round service : ℕ)
  | ends (round service : ℕ) (ok : Bool)
deriving DecidableEq

/-- A coroutine in `co_await skip_frame(skip)`; it has come there in the round `since`. -/
structure Suspension where
  frame : UInt64
  since : ℕ
  skip : UInt64
deriving DecidableEq

def Suspension.lastRound (x : Suspension) : ℕ := x.since + x.skip.toNat

/-- The services are those of `service_sort_`, in this order; a suspension stands for its handle. The
last five fields record the run. -/
structure Frames where
  services : List Service
  frameInterval : ℤ
  currentTime : ℤ
  phase : Phase := .sleeping
  frame : UInt64 := 0
  frameCoroutine : UInt64 → List ℕ := fun _ => []
  suspended : List Suspension := []
  round : ℕ := 0
  notes : List Note := []
  wokenAt : List ℤ := []
  woken : List (ℕ × ℕ) := []
  cancelled : List ℕ := []

namespace Frames

def due (services : List Service) : List ℕ :=
  (services.zipIdx.filter fun x => x.1.needUpdate.2).map Prod.snd

/-- From the head of the loop to `when_ready`. -/
def startUpdates (s : Frames) : Frames :=
  { s with
    services := s.services.map fun x => x.needUpdate.1
    phase := .updating ((due s.services).map fun i => (i, none))
    notes := s.notes ++ (due s.services).map (.starts s.round) }

def setResult (tasks : List (ℕ × Option Bool)) (i : ℕ) (ok : Bool) : List (ℕ × Option Bool) :=
  tasks.map fun x => if x.1 = i then (i, some ok) else x

def checkResults (s : Frames) (tasks : List (ℕ × Option Bool)) : Frames :=
  match tasks.find? fun x => x.2 = some false with
  | some x => { s with phase := .stopped ((s.services[x.1]?.map Service.name).getD "") }
  | none => { s with phase := .sleeping, currentTime := s.currentTime + s.frameInterval }

/-- `order` is that of the set, which is not known. -/
def wakeUpFrame (s : Frames) (order : List ℕ) : Frames :=
  { s with
    frameCoroutine := Function.update s.frameCoroutine s.frame []
    woken := s.woken ++ order.map fun k => (k, s.round) }

def skipFrame (s : Frames) (skip : UInt64) : Frames :=
  let skip := if skip = 0 then 1 else skip
  if s.frame = s.frame + skip then s
  else
    { s with
      suspended := s.suspended ++ [⟨s.frame + skip, s.round, skip⟩]
      frameCoroutine := Function.update s.frameCoroutine (s.frame + skip)
        ((s.frameCoroutine (s.frame + skip)).insert s.suspended.length) }

def cancel (s : Frames) (k : ℕ) (x : Suspension) : Frames :=
  if k ∈ s.frameCoroutine x.frame then
    { s with
      frameCoroutine := Function.update s.frameCoroutine x.frame ((s.frameCoroutine x.frame).erase k)
      cancelled := s.cancelled ++ [k] }
  else s

inductive Action
  | ends (service : ℕ) (ok : Bool)
  | goesOn
  | wakes (now : ℤ) (order : List ℕ)
  | skipFrame (skip : UInt64)
  | cancel (k : ℕ)
deriving DecidableEq

/-- The timer does not wake the loop before its time. -/
def step (s : Frames) : Action → Option Frames
  | .ends i ok =>
    match s.phase with
    | .updating tasks =>
      if (i, none) ∈ tasks then
        some { s with
          phase := .updating (setResult tasks i ok)
          notes := s.notes ++ [.ends s.round i ok] }
      else none
    | _ => none
  | .goesOn =>
    match s.phase with
    | .updating tasks => if ∀ x ∈ tasks, x.2.isSome then some (s.checkResults tasks) else none
    | _ => none
  | .wakes now order =>
    match s.phase with
    | .sleeping =>
      if s.currentTime ≤ now ∧ order.Perm (s.frameCoroutine (s.frame + 1)) then
        some (wakeUpFrame
          { s with frame := s.frame + 1, round := s.round + 1, wokenAt := s.wokenAt ++ [now] }
            order).startUpdates
      else none
    | _ => none
  | .skipFrame skip => some (s.skipFrame skip)
  | .cancel k => s.suspended[k]?.map (s.cancel k)

def machine (services : List Service) (start frameInterval : ℤ) : Machine Frames Action where
  initial := startUpdates { services := services, currentTime := start, frameInterval := frameInterval }
  step := step

end Frames

namespace Service

/-- The service after `need_update` has been asked so many times. -/
def after (s : Service) (n : ℕ) : Service :=
  { s with current := if s.interval = 0 then 0 else UInt64.ofNat (n % s.interval.toNat) }

def isDue (s : Service) (n : ℕ) : Bool := s.interval ≠ 0 ∧ s.interval.toNat ∣ n

lemma after_zero {s : Service} (h : s.current = 0) : s.after 0 = s := by
  cases s
  simp only at h
  simp [after, h]

lemma needUpdate_after (s : Service) (n : ℕ) :
    (s.after n).needUpdate = (s.after (n + 1), s.isDue (n + 1)) := by
  by_cases hzero : s.interval = 0
  · simp [needUpdate, after, isDue, hzero]
  have hpos : 0 < s.interval.toNat := by
    rw [Nat.pos_iff_ne_zero]
    intro h
    exact hzero (UInt64.toNat_inj.mp h)
  have hlt := Nat.mod_lt n hpos
  have hbound : s.interval.toNat < UInt64.size := s.interval.toNat_lt
  have hnext : (n + 1) % s.interval.toNat = (n % s.interval.toNat + 1) % s.interval.toNat := by
    rw [Nat.mod_add_mod]
  have hcurrent : ((UInt64.ofNat (n % s.interval.toNat)) + 1).toNat = n % s.interval.toNat + 1 := by
    rw [UInt64.toNat_add, UInt64.toNat_ofNat_of_lt' (by omega)]
    exact Nat.mod_eq_of_lt (by rw [UInt64.size] at hbound; simp; omega)
  by_cases hmore : n % s.interval.toNat + 1 < s.interval.toNat
  · have hnot : ¬s.interval.toNat ∣ n + 1 := by
      rw [Nat.dvd_iff_mod_eq_zero, hnext, Nat.mod_eq_of_lt hmore]
      omega
    have hless : (UInt64.ofNat (n % s.interval.toNat)) + 1 < s.interval := by
      rw [UInt64.lt_iff_toNat_lt, hcurrent]
      exact hmore
    have heq : (UInt64.ofNat (n % s.interval.toNat)) + 1 = UInt64.ofNat ((n + 1) % s.interval.toNat) := by
      rw [← UInt64.toNat_inj, hcurrent, hnext, Nat.mod_eq_of_lt hmore,
        UInt64.toNat_ofNat_of_lt' (by omega)]
    rw [heq] at hless
    simp [needUpdate, after, isDue, hzero, hless, hnot, heq]
  · have hall : n % s.interval.toNat + 1 = s.interval.toNat := by omega
    have hdvd : s.interval.toNat ∣ n + 1 := by
      rw [Nat.dvd_iff_mod_eq_zero, hnext, hall, Nat.mod_self]
    have hless : ¬(UInt64.ofNat (n % s.interval.toNat)) + 1 < s.interval := by
      rw [UInt64.lt_iff_toNat_lt, hcurrent]
      exact hmore
    simp [needUpdate, after, isDue, hzero, hless, hdvd, hnext, hall]

end Service

namespace Frames

variable {services : List Service} {start frameInterval : ℤ} {s t : Frames}

/-- The services whose interval divides the number of the round, counted from one. -/
def dueAt (services : List Service) (n : ℕ) : List ℕ :=
  (services.zipIdx.filter fun x => x.1.isDue n).map Prod.snd

def starts (services : List Service) (round : ℕ) : List Note :=
  (dueAt services (round + 1)).map (.starts round)

def endings (round : ℕ) (ended : List (ℕ × Bool)) : List Note :=
  ended.map fun x => .ends round x.1 x.2

/-- What is seen of rounds without failures: in each one the services that are due are updated in
their order, and all updates end before the next round, in any order. -/
inductive Rounds (services : List Service) : ℕ → List Note → Prop
  | zero : Rounds services 0 []
  | succ {n : ℕ} {notes : List Note} {order : List ℕ} (h : Rounds services n notes)
      (horder : order.Perm (dueAt services (n + 1))) :
      Rounds services (n + 1) (notes ++ starts services n ++ endings n (order.map fun i => (i, true)))

lemma due_after (n : ℕ) : due (services.map fun x => x.after n) = dueAt services (n + 1) := by
  rw [due, List.zipIdx_map, List.filter_map, List.map_map, dueAt]
  congr 1
  refine List.filter_congr fun x _ => ?_
  simp [Service.needUpdate_after]

lemma sorted_dueAt (n : ℕ) : (dueAt services n).Pairwise (· < ·) := by
  have hsorted : (services.zipIdx.map Prod.snd).Pairwise (· < ·) := by
    rw [List.zipIdx_map_snd]
    exact List.pairwise_lt_range'
  exact hsorted.sublist (List.filter_sublist.map Prod.snd)

lemma lt_of_mem_dueAt {n i : ℕ} (hi : i ∈ dueAt services n) : i < services.length := by
  obtain ⟨x, hx, rfl⟩ := List.mem_map.mp hi
  simpa using List.snd_lt_of_mem_zipIdx (List.mem_filter.mp hx).1

structure Current (services : List Service) (round : ℕ) (notes : List Note)
    (ended : List (ℕ × Bool)) : Prop where
  notes : ∃ before, Rounds services round before ∧
    notes = before ++ starts services round ++ endings round ended
  nodup : (ended.map Prod.fst).Nodup
  subset : ended.map Prod.fst ⊆ dueAt services (round + 1)

def FirstFailed (services : List Service) (ended : List (ℕ × Bool)) (failName : String) : Prop :=
  ∃ i x, (i, false) ∈ ended ∧ (∀ j < i, (j, false) ∉ ended) ∧ services[i]? = some x ∧
    x.name = failName

structure Inv (services : List Service) (start frameInterval : ℤ) (s : Frames) : Prop where
  asked : s.services = services.map fun x => x.after (s.round + 1)
  interval : s.frameInterval = frameInterval
  updating : ∀ tasks, s.phase = .updating tasks → s.currentTime = start + s.round * frameInterval ∧
    ∃ ended, Current services s.round s.notes ended ∧
      tasks.map Prod.fst = dueAt services (s.round + 1) ∧
      ∀ i ok, (i, some ok) ∈ tasks ↔ (i, ok) ∈ ended
  sleeping : s.phase = .sleeping → s.currentTime = start + (s.round + 1) * frameInterval ∧
    Rounds services (s.round + 1) s.notes
  stopped : ∀ failName, s.phase = .stopped failName → ∃ ended,
    Current services s.round s.notes ended ∧
      (ended.map Prod.fst).Perm (dueAt services (s.round + 1)) ∧ FirstFailed services ended failName
  woken : s.wokenAt.length = s.round ∧
    ∀ (r : ℕ) now, s.wokenAt[r]? = some now → start + (r + 1) * frameInterval ≤ now

lemma Inv.startUpdates (hservices : s.services = services.map fun x => x.after s.round)
    (hinterval : s.frameInterval = frameInterval) (hrounds : Rounds services s.round s.notes)
    (htime : s.currentTime = start + s.round * frameInterval)
    (hwoken : s.wokenAt.length = s.round ∧
      ∀ (r : ℕ) now, s.wokenAt[r]? = some now → start + (r + 1) * frameInterval ≤ now) :
    Inv services start frameInterval s.startUpdates where
  asked := by
    rw [Frames.startUpdates, hservices, List.map_map]
    refine List.map_congr_left fun x _ => ?_
    simp [Service.needUpdate_after]
  interval := hinterval
  updating tasks htasks := by
    have hdue : due s.services = dueAt services (s.round + 1) := by rw [hservices, due_after]
    obtain rfl := Phase.updating.inj htasks
    refine ⟨htime, [], ⟨⟨s.notes, hrounds, ?_⟩, List.nodup_nil, by simp⟩, ?_, ?_⟩
    · simp [Frames.startUpdates, starts, endings, hdue]
    · simp [Frames.startUpdates, hdue, Function.comp_def]
    · simp
  sleeping h := by cases h
  stopped failName h := by cases h
  woken := hwoken

section Tasks

variable {tasks : List (ℕ × Option Bool)} {ended : List (ℕ × Bool)} {i : ℕ} {ok : Bool}

lemma map_fst_setResult : (setResult tasks i ok).map Prod.fst = tasks.map Prod.fst := by
  rw [setResult, List.map_map]
  refine List.map_congr_left fun x _ => ?_
  simp only [Function.comp_apply]
  split_ifs with h
  · exact h.symm
  · rfl

lemma result_unique (hnodup : (tasks.map Prod.fst).Nodup) {r r' : Option Bool} (h : (i, r) ∈ tasks)
    (h' : (i, r') ∈ tasks) : r = r' :=
  (Prod.mk.inj (List.inj_on_of_nodup_map hnodup h h' rfl)).2

lemma mem_setResult (hnodup : (tasks.map Prod.fst).Nodup) (hi : (i, none) ∈ tasks)
    (hended : ∀ j ok', (j, some ok') ∈ tasks ↔ (j, ok') ∈ ended) (j : ℕ) (ok' : Bool) :
    (j, some ok') ∈ setResult tasks i ok ↔ (j, ok') ∈ ended ++ [(i, ok)] := by
  rw [setResult, List.mem_map, List.mem_append, ← hended, List.mem_singleton]
  constructor
  · rintro ⟨x, hx, heq⟩
    split_ifs at heq with hxi
    · obtain ⟨rfl, hok⟩ := Prod.mk.inj heq
      exact .inr (Prod.ext rfl (Option.some.inj hok).symm)
    · exact .inl (heq ▸ hx)
  · rintro (hj | hj)
    · refine ⟨_, hj, if_neg ?_⟩
      rintro rfl
      cases result_unique hnodup hi hj
    · obtain ⟨rfl, rfl⟩ := Prod.mk.inj hj
      exact ⟨_, hi, if_pos rfl⟩

lemma Current.ends {round : ℕ} {notes : List Note} (h : Current services round notes ended)
    (hfst : tasks.map Prod.fst = dueAt services (round + 1))
    (hended : ∀ j ok', (j, some ok') ∈ tasks ↔ (j, ok') ∈ ended) (hi : (i, none) ∈ tasks) :
    Current services round (notes ++ [.ends round i ok]) (ended ++ [(i, ok)]) := by
  have hnodup : (tasks.map Prod.fst).Nodup := hfst ▸ (sorted_dueAt _).imp fun h => h.ne
  obtain ⟨before, hbefore, hnotes⟩ := h.notes
  refine ⟨⟨before, hbefore, ?_⟩, ?_, ?_⟩
  · rw [hnotes, endings, endings, List.map_append, List.append_assoc, List.append_assoc,
      List.append_assoc]
    rfl
  · rw [List.map_append]
    refine h.nodup.append (List.nodup_singleton i) (List.disjoint_singleton.mpr fun hmem => ?_)
    obtain ⟨⟨j, b⟩, hj, rfl⟩ := List.mem_map.mp hmem
    cases result_unique hnodup hi ((hended j b).mpr hj)
  · rw [List.map_append]
    refine List.append_subset.mpr ⟨h.subset, ?_⟩
    intro j hj
    obtain rfl : j = i := List.mem_singleton.mp hj
    rw [← hfst]
    exact List.mem_map.mpr ⟨_, hi, rfl⟩

lemma Current.all_ended {round : ℕ} {notes : List Note} (h : Current services round notes ended)
    (hfst : tasks.map Prod.fst = dueAt services (round + 1))
    (hended : ∀ j ok', (j, some ok') ∈ tasks ↔ (j, ok') ∈ ended) (hall : ∀ x ∈ tasks, x.2.isSome) :
    (ended.map Prod.fst).Perm (dueAt services (round + 1)) := by
  refine (List.perm_ext_iff_of_nodup h.nodup ((sorted_dueAt _).imp fun h => h.ne)).mpr fun i => ?_
  refine ⟨fun hi => h.subset hi, fun hi => ?_⟩
  rw [← hfst] at hi
  obtain ⟨⟨i, r⟩, hx, rfl⟩ := List.mem_map.mp hi
  obtain ⟨b, rfl⟩ := Option.isSome_iff_exists.mp (hall _ hx)
  exact List.mem_map.mpr ⟨(i, b), (hended i b).mp hx, rfl⟩

lemma Current.succeeded {round : ℕ} {notes : List Note} (h : Current services round notes ended)
    (hperm : (ended.map Prod.fst).Perm (dueAt services (round + 1)))
    (hgood : ∀ i, (i, false) ∉ ended) : Rounds services (round + 1) notes := by
  obtain ⟨before, hbefore, rfl⟩ := h.notes
  have hended : ended = (ended.map Prod.fst).map fun i => (i, true) := by
    rw [List.map_map]
    refine (List.map_id' ended).symm.trans (List.map_congr_left fun x hx => ?_)
    obtain ⟨i, b⟩ := x
    cases b with
    | true => rfl
    | false => exact absurd hx (hgood i)
  rw [hended]
  exact .succ hbefore hperm

lemma first_failed {x : ℕ × Option Bool} {n : ℕ}
    (hfst : tasks.map Prod.fst = dueAt services n)
    (hended : ∀ j ok', (j, some ok') ∈ tasks ↔ (j, ok') ∈ ended)
    (hfind : (tasks.find? fun x => x.2 = some false) = some x) :
    (x.1, false) ∈ ended ∧ (∀ j < x.1, (j, false) ∉ ended) ∧ x.1 < services.length := by
  obtain ⟨hx, before, rest, rfl, hbefore⟩ := List.find?_eq_some_iff_append.mp hfind
  have hfalse : x.2 = some false := of_decide_eq_true hx
  have hmem : (x.1, some false) ∈ before ++ x :: rest := by
    rw [← hfalse]
    exact List.mem_append_right _ List.mem_cons_self
  refine ⟨(hended _ _).mp hmem, fun j hj hfailed => ?_, ?_⟩
  · have hsorted : (dueAt services n).Pairwise (· < ·) := sorted_dueAt n
    rw [← hfst, List.map_append, List.map_cons, List.pairwise_append] at hsorted
    rcases List.mem_append.mp ((hended j false).mpr hfailed) with hj' | hj'
    · simpa using hbefore _ hj'
    · rcases List.mem_cons.mp hj' with rfl | hj'
      · exact Nat.lt_irrefl _ hj
      · have hlater := (List.pairwise_cons.mp hsorted.2.1).1 j (List.mem_map.mpr ⟨_, hj', rfl⟩)
        exact Nat.lt_asymm hj hlater
  · refine lt_of_mem_dueAt (n := n) ?_
    rw [← hfst]
    exact List.mem_map.mpr ⟨_, hmem, rfl⟩

end Tasks

lemma Inv.ends {tasks : List (ℕ × Option Bool)} {i : ℕ} (h : Inv services start frameInterval s)
    (hphase : s.phase = .updating tasks) (hi : (i, none) ∈ tasks) (ok : Bool) :
    Inv services start frameInterval { s with
      phase := .updating (setResult tasks i ok)
      notes := s.notes ++ [.ends s.round i ok] } := by
  obtain ⟨htime, ended, hcurrent, hfst, hended⟩ := h.updating tasks hphase
  refine ⟨h.asked, h.interval, ?_, (fun hp => by cases hp), (fun _ hp => by cases hp), h.woken⟩
  intro tasks' htasks'
  obtain rfl := Phase.updating.inj htasks'
  have hnodup : (tasks.map Prod.fst).Nodup := hfst ▸ (sorted_dueAt _).imp fun h => h.ne
  exact ⟨htime, _, hcurrent.ends hfst hended hi, map_fst_setResult.trans hfst,
    mem_setResult hnodup hi hended⟩

lemma Inv.goesOn {tasks : List (ℕ × Option Bool)} (h : Inv services start frameInterval s)
    (hphase : s.phase = .updating tasks) (hall : ∀ x ∈ tasks, x.2.isSome) :
    Inv services start frameInterval (s.checkResults tasks) := by
  obtain ⟨htime, ended, hcurrent, hfst, hended⟩ := h.updating tasks hphase
  have hperm := hcurrent.all_ended hfst hended hall
  unfold checkResults
  cases hfind : tasks.find? fun x => x.2 = some false with
  | some x =>
    obtain ⟨hfailed, hfirst, hlt⟩ := first_failed hfst hended hfind
    refine ⟨h.asked, h.interval, (fun _ hp => by cases hp), (fun hp => by cases hp), ?_, h.woken⟩
    intro failName hname
    obtain rfl := Phase.stopped.inj hname
    refine ⟨ended, hcurrent, hperm, x.1, services[x.1], hfailed, hfirst,
      List.getElem?_eq_getElem hlt, ?_⟩
    rw [h.asked, List.getElem?_map, List.getElem?_eq_getElem hlt]
    rfl
  | none =>
    refine ⟨h.asked, h.interval, (fun _ hp => by cases hp), ?_, (fun _ hp => by cases hp), h.woken⟩
    intro _
    refine ⟨?_, hcurrent.succeeded hperm fun i hi => ?_⟩
    · change s.currentTime + s.frameInterval = start + (s.round + 1) * frameInterval
      rw [htime, h.interval]
      ring
    · exact List.find?_eq_none.mp hfind _ ((hended i false).mpr hi) (by simp)

lemma Inv.wakes (h : Inv services start frameInterval s) (hphase : s.phase = .sleeping) {now : ℤ}
    (hnow : s.currentTime ≤ now) (order : List ℕ) :
    Inv services start frameInterval (wakeUpFrame
      { s with frame := s.frame + 1, round := s.round + 1, wokenAt := s.wokenAt ++ [now] }
        order).startUpdates := by
  obtain ⟨htime, hrounds⟩ := h.sleeping hphase
  refine Inv.startUpdates h.asked h.interval hrounds ?_ ⟨?_, fun r now' hr => ?_⟩
  · rw [wakeUpFrame, htime]
    push_cast
    ring
  · simp [wakeUpFrame, h.woken.1]
  · change (s.wokenAt ++ [now])[r]? = some now' at hr
    rcases getElem?_concat_eq_some.mp hr with hr | ⟨rfl, rfl⟩
    · exact h.woken.2 r now' hr
    · rw [h.woken.1, ← htime]
      exact hnow

lemma Inv.step (h : Inv services start frameInterval s) {a : Action} (ht : s.step a = some t) :
    Inv services start frameInterval t := by
  cases a with
  | ends i ok =>
    rw [Frames.step] at ht
    split at ht
    · rename_i tasks hphase
      split_ifs at ht with hi
      obtain rfl := Option.some.inj ht
      exact h.ends hphase hi ok
    · cases ht
  | goesOn =>
    rw [Frames.step] at ht
    split at ht
    · rename_i tasks hphase
      split_ifs at ht with hall
      obtain rfl := Option.some.inj ht
      exact h.goesOn hphase hall
    · cases ht
  | wakes now order =>
    rw [Frames.step] at ht
    split at ht
    · rename_i hphase
      split_ifs at ht with hnow
      obtain rfl := Option.some.inj ht
      exact h.wakes hphase hnow.1 order
    · cases ht
  | skipFrame skip =>
    obtain rfl := Option.some.inj ht
    unfold Frames.skipFrame
    simp only
    split_ifs <;> exact ⟨h.asked, h.interval, h.updating, h.sleeping, h.stopped, h.woken⟩
  | cancel k =>
    obtain ⟨x, -, rfl⟩ := Option.map_eq_some_iff.mp ht
    unfold Frames.cancel
    split_ifs
    · exact ⟨h.asked, h.interval, h.updating, h.sleeping, h.stopped, h.woken⟩
    · exact h

lemma reachable_inv (hfresh : ∀ x ∈ services, x.current = 0)
    (h : (machine services start frameInterval).Reachable s) : Inv services start frameInterval s := by
  refine Machine.reachable_invariant (I := Inv services start frameInterval) ?_ ?_ h
  · refine Inv.startUpdates ?_ rfl .zero (by simp) ⟨rfl, by simp⟩
    refine (List.map_id' services).symm.trans (List.map_congr_left fun x hx => ?_)
    exact (Service.after_zero (hfresh x hx)).symm
  · exact fun s a t hs ht => hs.step ht

def Waiting (s : Frames) (k : ℕ) : Prop := k ∉ s.woken.map Prod.fst ∧ k ∉ s.cancelled

structure Waits (s : Frames) : Prop where
  frame : s.frame = UInt64.ofNat s.round
  suspended : ∀ (k : ℕ) x, s.suspended[k]? = some x →
    x.since ≤ s.round ∧ x.frame = UInt64.ofNat x.lastRound ∧ 0 < x.skip.toNat
  waiting : ∀ f k, k ∈ s.frameCoroutine f ↔
    ∃ x, s.suspended[k]? = some x ∧ x.frame = f ∧ s.Waiting k
  nodup : ∀ f, (s.frameCoroutine f).Nodup
  ahead : ∀ (k : ℕ) x, s.suspended[k]? = some x → s.Waiting k → s.round < x.lastRound
  woken : ∀ k r, (k, r) ∈ s.woken → ∃ x, s.suspended[k]? = some x ∧ r = x.lastRound
  cancelled : ∀ k ∈ s.cancelled, k < s.suspended.length
  once : (s.woken.map Prod.fst ++ s.cancelled).Nodup

lemma Waits.startUpdates (h : Waits s) : Waits s.startUpdates :=
  ⟨h.frame, h.suspended, h.waiting, h.nodup, h.ahead, h.woken, h.cancelled, h.once⟩

section Waits

variable {k : ℕ} {x : Suspension}

lemma Waits.lt_of_mem (h : Waits s) (hk : k ∈ s.woken.map Prod.fst ++ s.cancelled) :
    k < s.suspended.length := by
  rcases List.mem_append.mp hk with hk | hk
  · obtain ⟨⟨k, r⟩, hr, rfl⟩ := List.mem_map.mp hk
    obtain ⟨x, hx, -⟩ := h.woken k r hr
    exact (List.getElem?_eq_some_iff.mp hx).1
  · exact h.cancelled k hk

/-- A counter of 64 bits cannot tell rounds apart that are a whole turn apart, but no coroutine waits
as long as that. -/
lemma Waits.frame_eq_iff (h : Waits s) (hx : s.suspended[k]? = some x) (hwaits : s.Waiting k) :
    x.frame = s.frame + 1 ↔ x.lastRound = s.round + 1 := by
  obtain ⟨hsince, hframe, -⟩ := h.suspended k x hx
  have hahead := h.ahead k x hx hwaits
  have hskip := x.skip.toNat_lt
  have hround' : x.lastRound = x.since + x.skip.toNat := rfl
  have hnext : s.frame + 1 = UInt64.ofNat (s.round + 1) := by
    rw [h.frame, UInt64.ofNat_add]
    rfl
  rw [hframe, hnext, ← UInt64.toNat_inj, UInt64.toNat_ofNat', UInt64.toNat_ofNat']
  constructor
  · intro heq
    omega
  · intro heq
    rw [heq]

lemma Waits.skipFrame (h : Waits s) (skip : UInt64) : Waits (s.skipFrame skip) := by
  unfold Frames.skipFrame
  simp only
  generalize hskip : (if skip = 0 then (1 : UInt64) else skip) = n
  have hpos : 0 < n.toNat := by
    rw [← hskip]
    split_ifs with hzero
    · decide
    · exact Nat.pos_of_ne_zero fun h0 => hzero (UInt64.toNat_inj.mp h0)
  split_ifs with hsame
  · exact h
  have hnew : s.Waiting s.suspended.length := by
    constructor
    · exact fun hk => Nat.lt_irrefl _ (h.lt_of_mem (List.mem_append_left _ hk))
    · exact fun hk => Nat.lt_irrefl _ (h.cancelled _ hk)
  refine ⟨h.frame, ?_, ?_, ?_, ?_, ?_, ?_, h.once⟩
  · intro j y hy
    rcases getElem?_concat_eq_some.mp hy with hy | ⟨-, rfl⟩
    · exact h.suspended j y hy
    · refine ⟨le_rfl, ?_, hpos⟩
      rw [Suspension.lastRound, UInt64.ofNat_add, h.frame, UInt64.ofNat_toNat]
  · intro f j
    have hmem : j ∈ Function.update s.frameCoroutine (s.frame + n)
        ((s.frameCoroutine (s.frame + n)).insert s.suspended.length) f ↔
        j ∈ s.frameCoroutine f ∨ f = s.frame + n ∧ j = s.suspended.length := by
      rw [Function.update_apply]
      split_ifs with hf
      · subst hf
        rw [List.mem_insert_iff]
        tauto
      · tauto
    refine hmem.trans ?_
    rw [h.waiting]
    constructor
    · rintro (⟨y, hy, hf, hwaits⟩ | ⟨rfl, rfl⟩)
      · exact ⟨y, getElem?_concat_eq_some.mpr (.inl hy), hf, hwaits⟩
      · exact ⟨_, List.getElem?_concat_length, rfl, hnew⟩
    · rintro ⟨y, hy, hf, hwaits⟩
      rcases getElem?_concat_eq_some.mp hy with hy | ⟨rfl, rfl⟩
      · exact .inl ⟨y, hy, hf, hwaits⟩
      · exact .inr ⟨hf.symm, rfl⟩
  · intro f
    change (Function.update s.frameCoroutine (s.frame + n)
      ((s.frameCoroutine (s.frame + n)).insert s.suspended.length) f).Nodup
    rw [Function.update_apply]
    split_ifs
    · exact (h.nodup _).insert
    · exact h.nodup f
  · intro j y hy hwaits
    rcases getElem?_concat_eq_some.mp hy with hy | ⟨-, rfl⟩
    · exact h.ahead j y hy hwaits
    · change s.round < s.round + n.toNat
      omega
  · intro j r hr
    obtain ⟨y, hy, hround⟩ := h.woken j r hr
    exact ⟨y, getElem?_concat_eq_some.mpr (.inl hy), hround⟩
  · intro j hj
    have := h.cancelled j hj
    simp only [List.length_append, List.length_singleton]
    omega

lemma Waits.cancel (h : Waits s) (hx : s.suspended[k]? = some x) : Waits (s.cancel k x) := by
  unfold Frames.cancel
  split_ifs with hmem
  · obtain ⟨y, hy, -, hwaits⟩ := (h.waiting _ _).mp hmem
    obtain rfl := Option.some.inj (hx.symm.trans hy)
    have hiff : ∀ j, (j ∉ s.woken.map Prod.fst ∧ j ∉ s.cancelled ++ [k]) ↔ s.Waiting j ∧ j ≠ k := by
      intro j
      rw [Waiting, List.mem_append, List.mem_singleton]
      tauto
    refine ⟨h.frame, h.suspended, ?_, ?_, ?_, h.woken, ?_, ?_⟩
    · intro f j
      change j ∈ Function.update s.frameCoroutine x.frame ((s.frameCoroutine x.frame).erase k) f ↔
        ∃ y, s.suspended[j]? = some y ∧ y.frame = f ∧
          (j ∉ s.woken.map Prod.fst ∧ j ∉ s.cancelled ++ [k])
      simp only [hiff]
      rw [Function.update_apply]
      split_ifs with hf
      · subst hf
        rw [(h.nodup _).mem_erase_iff, h.waiting]
        constructor
        · rintro ⟨hne, y, hy, hf, hw⟩
          exact ⟨y, hy, hf, hw, hne⟩
        · rintro ⟨y, hy, hf, hw, hne⟩
          exact ⟨hne, y, hy, hf, hw⟩
      · rw [h.waiting]
        constructor
        · rintro ⟨z, hz, hzf, hw⟩
          refine ⟨z, hz, hzf, hw, ?_⟩
          rintro rfl
          obtain rfl := Option.some.inj (hx.symm.trans hz)
          exact hf hzf.symm
        · rintro ⟨y, hy, hyf, hw, -⟩
          exact ⟨y, hy, hyf, hw⟩
    · intro f
      change (Function.update s.frameCoroutine x.frame ((s.frameCoroutine x.frame).erase k) f).Nodup
      rw [Function.update_apply]
      split_ifs
      · exact (h.nodup _).erase k
      · exact h.nodup f
    · intro j y hy hw
      exact h.ahead j y hy ((hiff j).mp hw).1
    · intro j hj
      rcases List.mem_append.mp hj with hj | hj
      · exact h.cancelled j hj
      · rw [List.mem_singleton.mp hj]
        exact (List.getElem?_eq_some_iff.mp hx).1
    · change (s.woken.map Prod.fst ++ (s.cancelled ++ [k])).Nodup
      rw [← List.append_assoc]
      refine h.once.append (List.nodup_singleton k) (List.disjoint_singleton.mpr fun hk => ?_)
      rcases List.mem_append.mp hk with hk | hk
      · exact hwaits.1 hk
      · exact hwaits.2 hk
  · exact h

lemma Waits.wakes (h : Waits s) (now : ℤ) {order : List ℕ}
    (horder : order.Perm (s.frameCoroutine (s.frame + 1))) :
    Waits (wakeUpFrame
      { s with frame := s.frame + 1, round := s.round + 1, wokenAt := s.wokenAt ++ [now] } order) := by
  have hmem : ∀ k, k ∈ order ↔ ∃ x, s.suspended[k]? = some x ∧ x.frame = s.frame + 1 ∧ s.Waiting k :=
    fun k => horder.mem_iff.trans (h.waiting _ k)
  have hfst : (order.map fun k => (k, s.round + 1)).map Prod.fst = order := by
    rw [List.map_map]
    exact List.map_id' order
  have hiff : ∀ k, (k ∉ (s.woken ++ order.map fun k => (k, s.round + 1)).map Prod.fst ∧
      k ∉ s.cancelled) ↔ s.Waiting k ∧ k ∉ order := by
    intro k
    rw [Waiting, List.map_append, hfst, List.mem_append]
    tauto
  refine ⟨?_, ?_, ?_, ?_, ?_, ?_, h.cancelled, ?_⟩
  · change s.frame + 1 = UInt64.ofNat (s.round + 1)
    rw [h.frame, UInt64.ofNat_add]
    rfl
  · intro k x hx
    obtain ⟨hsince, hrest⟩ := h.suspended k x hx
    exact ⟨Nat.le_succ_of_le hsince, hrest⟩
  · intro f k
    change k ∈ Function.update s.frameCoroutine (s.frame + 1) [] f ↔ ∃ x, s.suspended[k]? = some x ∧
      x.frame = f ∧ (k ∉ (s.woken ++ order.map fun k => (k, s.round + 1)).map Prod.fst ∧
        k ∉ s.cancelled)
    simp only [hiff, hmem]
    rw [Function.update_apply]
    split_ifs with hf
    · subst hf
      constructor
      · intro hk
        cases hk
      · rintro ⟨x, hx, hframe, hw, hnot⟩
        exact absurd ⟨x, hx, hframe, hw⟩ hnot
    · rw [h.waiting]
      constructor
      · rintro ⟨x, hx, hxf, hw⟩
        refine ⟨x, hx, hxf, hw, ?_⟩
        rintro ⟨y, hy, hyf, -⟩
        obtain rfl := Option.some.inj (hx.symm.trans hy)
        exact hf (hxf.symm.trans hyf)
      · rintro ⟨x, hx, hxf, hw, -⟩
        exact ⟨x, hx, hxf, hw⟩
  · intro f
    change (Function.update s.frameCoroutine (s.frame + 1) [] f).Nodup
    rw [Function.update_apply]
    split_ifs
    · exact List.nodup_nil
    · exact h.nodup f
  · intro k x hx hw
    obtain ⟨hwaits, hnot⟩ := (hiff k).mp hw
    have hahead := h.ahead k x hx hwaits
    have hne : x.lastRound ≠ s.round + 1 := fun heq =>
      hnot ((hmem k).mpr ⟨x, hx, (h.frame_eq_iff hx hwaits).mpr heq, hwaits⟩)
    change s.round + 1 < x.lastRound
    omega
  · intro k r hr
    rcases List.mem_append.mp hr with hr | hr
    · exact h.woken k r hr
    · obtain ⟨j, hj, heq⟩ := List.mem_map.mp hr
      obtain ⟨rfl, rfl⟩ := Prod.mk.inj heq
      obtain ⟨x, hx, hframe, hwaits⟩ := (hmem j).mp hj
      exact ⟨x, hx, ((h.frame_eq_iff hx hwaits).mp hframe).symm⟩
  · change ((s.woken ++ order.map fun k => (k, s.round + 1)).map Prod.fst ++ s.cancelled).Nodup
    rw [List.map_append, hfst, List.append_assoc]
    have hdisjoint : order.Disjoint (s.woken.map Prod.fst ++ s.cancelled) := by
      intro k hk hgone
      obtain ⟨x, -, -, hwaits⟩ := (hmem k).mp hk
      rcases List.mem_append.mp hgone with hgone | hgone
      · exact hwaits.1 hgone
      · exact hwaits.2 hgone
    refine (List.perm_append_comm_assoc _ _ _).nodup_iff.mpr ?_
    exact (horder.nodup_iff.mpr (h.nodup _)).append h.once hdisjoint

end Waits

lemma Waits.step (h : Waits s) {a : Action} (ht : s.step a = some t) : Waits t := by
  cases a with
  | ends i ok =>
    rw [Frames.step] at ht
    split at ht
    · split_ifs at ht
      obtain rfl := Option.some.inj ht
      exact ⟨h.frame, h.suspended, h.waiting, h.nodup, h.ahead, h.woken, h.cancelled, h.once⟩
    · cases ht
  | goesOn =>
    rw [Frames.step] at ht
    split at ht
    · rename_i tasks _
      split_ifs at ht
      obtain rfl := Option.some.inj ht
      unfold checkResults
      cases tasks.find? fun x => x.2 = some false <;>
        exact ⟨h.frame, h.suspended, h.waiting, h.nodup, h.ahead, h.woken, h.cancelled, h.once⟩
    · cases ht
  | wakes now order =>
    rw [Frames.step] at ht
    split at ht
    · split_ifs at ht with hnow
      obtain rfl := Option.some.inj ht
      exact (h.wakes now hnow.2).startUpdates
    · cases ht
  | skipFrame skip =>
    obtain rfl := Option.some.inj ht
    exact h.skipFrame skip
  | cancel k =>
    obtain ⟨x, hx, rfl⟩ := Option.map_eq_some_iff.mp ht
    exact h.cancel hx

lemma reachable_waits (h : (machine services start frameInterval).Reachable s) : Waits s := by
  refine Machine.reachable_invariant (I := Waits) (Waits.startUpdates ?_) (fun s a t hs ht => hs.step ht) h
  refine ⟨rfl, by simp, fun f k => ?_, fun _ => List.nodup_nil, by simp, by simp, by simp, by simp⟩
  simp

lemma Rounds.current {n : ℕ} {notes : List Note} (h : Rounds services (n + 1) notes) :
    ∃ ended, Current services n notes ended := by
  cases h with
  | succ h horder =>
    have hfst : ∀ order : List ℕ, (order.map fun i => (i, true)).map Prod.fst = order := by
      intro order
      rw [List.map_map]
      exact List.map_id' order
    refine ⟨_, ⟨⟨_, h, rfl⟩, ?_, ?_⟩⟩
    · rw [hfst]
      exact horder.nodup_iff.mpr ((sorted_dueAt _).imp fun h => h.ne)
    · rw [hfst]
      exact horder.subset

/-- Round after round the services whose turn it is are updated, in their order, and the next round
begins when all of these updates have ended, and not before its time. Nothing but a failed update
stops the loop; it names the first service whose update has failed. A constructor could set `current_`
to another value than 0; an `update()` that throws before there is a task, and one that changes an
`interval_`, are not meant. -/
theorem updates_on_time (hfresh : ∀ x ∈ services, x.current = 0)
    (h : (machine services start frameInterval).Reachable s) :
    (∃ ended, Current services s.round s.notes ended ∧
      (s.phase = .sleeping → Rounds services (s.round + 1) s.notes) ∧
      ∀ failName, s.phase = .stopped failName →
        (ended.map Prod.fst).Perm (dueAt services (s.round + 1)) ∧
          FirstFailed services ended failName) ∧
    s.wokenAt.length = s.round ∧
    ∀ (r : ℕ) now, s.wokenAt[r]? = some now → start + (r + 1) * frameInterval ≤ now := by
  have hi := reachable_inv hfresh h
  refine ⟨?_, hi.woken⟩
  cases hphase : s.phase with
  | updating tasks =>
    obtain ⟨-, ended, hcurrent, -⟩ := hi.updating tasks hphase
    exact ⟨ended, hcurrent, (fun hp => by cases hp), fun _ hp => by cases hp⟩
  | sleeping =>
    obtain ⟨-, hrounds⟩ := hi.sleeping hphase
    obtain ⟨ended, hcurrent⟩ := hrounds.current
    exact ⟨ended, hcurrent, fun _ => hrounds, fun _ hp => by cases hp⟩
  | stopped failName =>
    obtain ⟨ended, hcurrent, hend⟩ := hi.stopped failName hphase
    refine ⟨ended, hcurrent, (fun hp => by cases hp), fun name hp => ?_⟩
    obtain rfl := Phase.stopped.inj hp
    exact hend

def twoServices : List Service := [{ name := "gate", interval := 1 }, { name := "db", interval := 2 }]

/-- Two coroutines wait; the first is woken up, the second is cancelled, and in the second round both
updates fail. -/
def twoRounds : List Action :=
  [.skipFrame 0, .skipFrame 2, .ends 0 true, .goesOn, .wakes 12 [0], .cancel 1, .ends 1 false,
    .ends 0 false, .goesOn]

theorem updates_on_time_two : ∃ s, (machine twoServices 0 10).run
      (machine twoServices 0 10).initial twoRounds = some s ∧
    s.phase = .stopped "gate" ∧ ∃ ended, Current twoServices 1 s.notes ended ∧
      (ended.map Prod.fst).Perm [0, 1] := by
  obtain ⟨s, hrun, hphase, hround⟩ : ∃ s, (machine twoServices 0 10).run
      (machine twoServices 0 10).initial twoRounds = some s ∧ s.phase = .stopped "gate" ∧
        s.round = 1 := ⟨_, rfl, rfl, rfl⟩
  obtain ⟨⟨ended, hcurrent, -, hstopped⟩, -⟩ := updates_on_time (by decide) ⟨_, hrun⟩
  obtain ⟨hperm, -⟩ := hstopped _ hphase
  rw [hround] at hcurrent hperm
  exact ⟨s, hrun, hphase, ended, hcurrent, hperm⟩

/-- A coroutine that skips frames is woken up once, in the frame that it waits for, if it has not been
cancelled before. -/
theorem skip_frame_exact (h : (machine services start frameInterval).Reachable s) {k : ℕ}
    {x : Suspension} (hx : s.suspended[k]? = some x) :
    (∀ r, (k, r) ∈ s.woken → r = x.lastRound) ∧
    (s.woken.map Prod.fst).count k + s.cancelled.count k ≤ 1 ∧
    (x.lastRound ≤ s.round → (k, x.lastRound) ∈ s.woken ∨ k ∈ s.cancelled) := by
  have hw := reachable_waits h
  have hround : ∀ r, (k, r) ∈ s.woken → r = x.lastRound := by
    intro r hr
    obtain ⟨y, hy, hround⟩ := hw.woken k r hr
    obtain rfl := Option.some.inj (hx.symm.trans hy)
    exact hround
  refine ⟨hround, ?_, fun hlast => ?_⟩
  · rw [← List.count_append]
    exact List.nodup_iff_count_le_one.mp hw.once k
  · by_contra hnot
    obtain ⟨hwoken, hcancelled⟩ := not_or.mp hnot
    refine Nat.not_lt.mpr hlast (hw.ahead k x hx ⟨fun hk => ?_, hcancelled⟩)
    obtain ⟨⟨j, r⟩, hr, rfl⟩ := List.mem_map.mp hk
    exact hwoken (hround r hr ▸ hr)

theorem skip_frame_exact_two : ∃ s, (machine twoServices 0 10).run
      (machine twoServices 0 10).initial twoRounds = some s ∧
    (s.woken.map Prod.fst).count 0 + s.cancelled.count 0 ≤ 1 ∧
    ((0, 1) ∈ s.woken ∨ 0 ∈ s.cancelled) ∧ s.cancelled = [1] := by
  obtain ⟨s, hrun, hx, hround, hcancelled⟩ : ∃ s, (machine twoServices 0 10).run
      (machine twoServices 0 10).initial twoRounds = some s ∧
        s.suspended[0]? = some ⟨1, 0, 1⟩ ∧ s.round = 1 ∧ s.cancelled = [1] :=
    ⟨_, rfl, rfl, rfl, rfl⟩
  obtain ⟨-, honce, hlast⟩ := skip_frame_exact ⟨_, hrun⟩ hx
  exact ⟨s, hrun, honce, hlast (by rw [hround]; exact le_rfl), hcancelled⟩

end Frames

end Simple.Application
