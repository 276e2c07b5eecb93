import Simple.Lib.Compaction
import Simple.Lib.Machine

/-! `shm_channel_select`: coroutines wait for channels, which a thread of its own looks at. -/

namespace Simple.Shm.ChannelSelect

open Simple.Lib Simple.Lib.Compaction

/-- `session` is the number of the call of `wait`, and `result` tells whether the weak pointer to its
result is still here, which a move takes away. -/
structure SelectData (C : Type) where
  channel : C
  session : ℕ
  isReadOrWrite : Bool
  size : ℕ
  result : Bool := true

/-- Where the thread is in `run`. The index of a `for` loop is that of the next element. -/
inductive Position
  | top
  | wait
  | blocked
  | scan (i writeIndex size : ℕ)
  | waitFor (ms : ℕ)
  | asleep (ms : ℕ)
  | yield
  | rest (j : ℕ)

/-- How many bytes can be read from and written to each channel. -/
abbrev Levels (C : Type) := C → ℕ × ℕ

structure State (C : Type) where
  queue : List (SelectData C) := []
  temp : List (SelectData C) := []
  select : List (SelectData C) := []
  cntLoop : ℕ := 0
  position : Position := .top
  /-- What `wait` was called with, in the order of the lock. -/
  waited : List (SelectData C) := []
  /-- Those whose coroutine was cancelled, and their result with it. -/
  gone : List ℕ := []
  completed : List (SelectData C × Levels C) := []
  woken : List ℕ := []

variable {C : Type}

def isReady (levels : Levels C) (d : SelectData C) : Bool :=
  if d.isReadOrWrite then decide (d.size ≤ (levels d.channel).1) else decide (d.size ≤ (levels d.channel).2)

def SelectData.movedFrom (d : SelectData C) : SelectData C := { d with result := false }

namespace State

def setResult (s : State C) (levels : Levels C) (d : SelectData C) : State C :=
  if d.result then
    { s with
      completed := s.completed ++ [(d, levels)]
      woken := if d.session ∈ s.gone then s.woken else s.woken ++ [d.session] }
  else s

/-- `temp = std::move(queue_)`, under the lock. -/
def takeQueue (s : State C) : State C := { s with temp := s.queue, queue := [], position := .rest 0 }

def endScan (s : State C) (writeIndex size : ℕ) : State C :=
  let cnt := (s.cntLoop + 1) % 2 ^ 64
  { s with
    select := if writeIndex = size then s.select else s.select.take writeIndex
    cntLoop := cnt
    position := if cnt % 0x40 = 0 then .waitFor 1 else if cnt % 0x10 = 0 then .waitFor 0 else .yield }

def scan (s : State C) (levels : Levels C) (i writeIndex size : ℕ) (d : SelectData C) : State C :=
  if isReady levels d then
    { s.setResult levels d with position := .scan (i + 1) (if writeIndex = size then i else writeIndex) size }
  else if writeIndex < size then
    { s with
      select := (s.select.set writeIndex d).set i d.movedFrom
      position := .scan (i + 1) (writeIndex + 1) size }
  else { s with position := .scan (i + 1) writeIndex size }

def rest (s : State C) (levels : Levels C) (j : ℕ) (d : SelectData C) : State C :=
  if isReady levels d then { s.setResult levels d with position := .rest (j + 1) }
  else { s with select := s.select ++ [d], temp := s.temp.set j d.movedFrom, position := .rest (j + 1) }

def run (s : State C) (levels : Levels C) : Option (State C) :=
  match s.position with
  | .top =>
    some { s with position := if s.select.isEmpty then .wait else .scan 0 s.select.length s.select.length }
  | .wait => some (if s.queue.isEmpty then { s with position := .blocked } else s.takeQueue)
  | .blocked => none
  | .scan i writeIndex size =>
    if i < size then s.select[i]?.map (s.scan levels i writeIndex size) else some (s.endScan writeIndex size)
  | .waitFor ms => some (if s.queue.isEmpty then { s with position := .asleep ms } else s.takeQueue)
  | .asleep _ => some s.takeQueue
  | .yield => some s.takeQueue
  | .rest j =>
    if j < s.temp.length then s.temp[j]?.map (s.rest levels j) else some { s with temp := [], position := .top }

def notifyOne (s : State C) : State C :=
  { s with
    position := match s.position with
      | .blocked => .wait
      | .asleep ms => .waitFor ms
      | p => p }

def wait (s : State C) (channel : C) (isReadOrWrite : Bool) (size : ℕ) : State C :=
  let d : SelectData C := ⟨channel, s.waited.length, isReadOrWrite, size, true⟩
  { s with queue := s.queue ++ [d], waited := s.waited ++ [d] }.notifyOne

end State

/-- `run` finds the channels as they are at that time, and `wake` is a wake-up of `cv_` without a call. -/
inductive Action (C : Type)
  | wait (channel : C) (isReadOrWrite : Bool) (size : ℕ)
  | cancel (session : ℕ)
  | run (levels : Levels C)
  | wake

def step (s : State C) : Action C → Option (State C)
  | .wait channel isReadOrWrite size => some (s.wait channel isReadOrWrite size)
  | .cancel session => if session < s.waited.length then some { s with gone := session :: s.gone } else none
  | .run levels => s.run levels
  | .wake => some s.notifyOne

def machine (C : Type) : Machine (State C) (Action C) where
  initial := {}
  step := step

variable {s t : State C} {levels : Levels C} {d : SelectData C} {xs ys us left : List (SelectData C)}

namespace State

def done (s : State C) : List ℕ := s.completed.map fun c => c.1.session

def holders (s : State C) (xs : List (SelectData C)) : List (SelectData C) :=
  xs.filter fun d => d.result && decide (d.session ∉ s.done)

def waitersIn (s : State C) (xs : List (SelectData C)) : List ℕ := (s.holders xs).map SelectData.session

def selectLeft (s : State C) : List (SelectData C) :=
  match s.position with
  | .scan i writeIndex _ => kept s.select writeIndex i
  | _ => s.select

def tempLeft (s : State C) : List (SelectData C) :=
  match s.position with
  | .rest j => s.temp.drop j
  | _ => s.temp

def pending (s : State C) : List (SelectData C) := s.selectLeft ++ s.tempLeft ++ s.queue

def leftOver (s : State C) : List (SelectData C) :=
  match s.position with
  | .scan i writeIndex _ => gap s.select writeIndex i
  | .rest j => s.temp.take j
  | _ => []

end State

structure Right (s : State C) : Prop where
  once : ∀ d ∈ s.waited, s.done.count d.session + (s.waitersIn s.queue).count d.session +
    (s.waitersIn s.temp).count d.session + (s.waitersIn s.select).count d.session = 1
  ready : ∀ c ∈ s.completed, c.1 ∈ s.waited ∧ isReady c.2 c.1 = true
  order : (s.holders s.select).Sublist s.waited
  blocked : ∀ levels, s.run levels = none → s.select = [] ∧ s.queue = []
  woken : s.woken.Sublist s.done

/-- The part of the invariant that does not look at the position. -/
structure Accounts (s : State C) (us left : List (SelectData C)) : Prop where
  sessions : s.waited.map SelectData.session = List.range s.waited.length
  results : ∀ d ∈ s.waited, d.result = true
  pending_eq : us = s.waited.filter fun d => decide (d.session ∉ s.done)
  left_dead : ∀ d ∈ left, d.result = false ∨ d.session ∈ s.done
  ready : ∀ c ∈ s.completed, c.1 ∈ s.waited ∧ isReady c.2 c.1 = true
  nodup : s.done.Nodup
  woken : s.woken.Sublist s.done

def State.Fits (s : State C) : Prop :=
  match s.position with
  | .scan i writeIndex size =>
    s.temp = [] ∧ size = s.select.length ∧ i ≤ size ∧ (writeIndex = size ∨ writeIndex < i)
  | .rest j => j ≤ s.temp.length
  | .wait => s.temp = [] ∧ s.select = []
  | .blocked => s.temp = [] ∧ s.select = [] ∧ s.queue = []
  | _ => s.temp = []

structure Inv (s : State C) : Prop where
  accounts : Accounts s s.pending s.leftOver
  fits : s.Fits

lemma Accounts.congr (h : Accounts s us left) (hwaited : t.waited = s.waited)
    (hcompleted : t.completed = s.completed) (hwoken : t.woken = s.woken)
    (hleft : ∀ d ∈ ys, d ∈ left ∨ d.result = false) : Accounts t us ys where
  sessions := by rw [hwaited]; exact h.sessions
  results := by rw [hwaited]; exact h.results
  pending_eq := by rw [hwaited, State.done, hcompleted]; exact h.pending_eq
  left_dead d hd := by
    rw [State.done, hcompleted]
    obtain hd | hd := hleft d hd
    · exact h.left_dead d hd
    · exact .inl hd
  ready := by rw [hcompleted, hwaited]; exact h.ready
  nodup := by rw [State.done, hcompleted]; exact h.nodup
  woken := by rw [State.done, hcompleted, hwoken]; exact h.woken

lemma Accounts.nodup_sessions (h : Accounts s us left) : (us.map SelectData.session).Nodup := by
  have hsub : (us.map SelectData.session).Sublist (s.waited.map SelectData.session) := by
    rw [h.pending_eq]
    exact List.filter_sublist.map _
  rw [h.sessions] at hsub
  exact List.nodup_range.sublist hsub

lemma Accounts.mem (h : Accounts s us left) (hd : d ∈ us) :
    d ∈ s.waited ∧ d.result = true ∧ d.session ∉ s.done := by
  rw [h.pending_eq, List.mem_filter, decide_eq_true_eq] at hd
  exact ⟨hd.1, h.results d hd.1, hd.2⟩

lemma Accounts.complete (h : Accounts s (xs ++ d :: ys) left) (hready : isReady levels d = true) :
    Accounts (s.setResult levels d) (xs ++ ys) (left ++ [d]) := by
  obtain ⟨hwaited, hresult, hdone⟩ := h.mem (d := d) (by simp)
  have hcompleted : (s.setResult levels d).completed = s.completed ++ [(d, levels)] := by
    rw [State.setResult, if_pos hresult]
  have hdone' : (s.setResult levels d).done = s.done ++ [d.session] := by
    rw [State.done, hcompleted, List.map_append, List.map_singleton, State.done]
  have hsame : (s.setResult levels d).waited = s.waited := by rw [State.setResult, if_pos hresult]
  have hwoken : (s.setResult levels d).woken = if d.session ∈ s.gone then s.woken else s.woken ++ [d.session] := by
    rw [State.setResult, if_pos hresult]
  refine ⟨by rw [hsame]; exact h.sessions, by rw [hsame]; exact h.results, ?_, ?_, ?_, ?_, ?_⟩
  · have hfilter : s.waited.filter (fun e => decide (e.session ∉ s.done ++ [d.session])) =
        (xs ++ d :: ys).filter fun e => decide (e.session ≠ d.session) := by
      rw [h.pending_eq, List.filter_filter]
      refine List.filter_congr fun e _ => ?_
      simp only [List.mem_append, List.mem_singleton, ne_eq, decide_not, Bool.decide_or, Bool.not_or]
      rw [Bool.and_comm]
    have hne (e : SelectData C) (he : e ∈ xs ++ ys) : e.session ≠ d.session := by
      have hnodup := h.nodup_sessions
      rw [List.map_append, List.map_cons, List.nodup_middle, List.nodup_cons, ← List.map_append] at hnodup
      intro hsession
      exact hnodup.1 (hsession ▸ List.mem_map_of_mem he)
    rw [hsame, hdone', hfilter, List.filter_append, List.filter_cons_of_neg (by simp), ← List.filter_append,
      List.filter_eq_self.mpr fun e he => decide_eq_true (hne e he)]
  · intro e he
    rw [hdone', List.mem_append, List.mem_singleton]
    obtain he | he := List.mem_append.mp he
    · obtain hdead | hdead := h.left_dead e he
      · exact .inl hdead
      · exact .inr (.inl hdead)
    · rw [List.mem_singleton.mp he]
      exact .inr (.inr rfl)
  · intro c hc
    rw [hcompleted, List.mem_append, List.mem_singleton] at hc
    rw [hsame]
    obtain hc | rfl := hc
    · exact h.ready c hc
    · exact ⟨hwaited, hready⟩
  · rw [hdone', List.nodup_append]
    refine ⟨h.nodup, List.nodup_singleton _, ?_⟩
    rintro x hx y hy rfl
    rw [List.mem_singleton.mp hy] at hx
    exact hdone hx
  · rw [hdone', hwoken]
    split_ifs
    · exact h.woken.trans (List.sublist_append_left _ _)
    · exact h.woken.append (List.Sublist.refl _)

lemma Accounts.done_lt (h : Accounts s us left) {x : ℕ} (hx : x ∈ s.done) : x < s.waited.length := by
  obtain ⟨c, hc, rfl⟩ := List.mem_map.mp hx
  have hmem : c.1.session ∈ s.waited.map SelectData.session := List.mem_map_of_mem (h.ready c hc).1
  rwa [h.sessions, List.mem_range] at hmem

lemma Accounts.wait (h : Accounts s us left) (channel : C) (isReadOrWrite : Bool) (size : ℕ) :
    Accounts (s.wait channel isReadOrWrite size) (us ++ [⟨channel, s.waited.length, isReadOrWrite, size, true⟩])
      left := by
  refine ⟨?_, ?_, ?_, h.left_dead, ?_, h.nodup, h.woken⟩
  · simp only [State.wait, State.notifyOne]
    rw [List.map_append, h.sessions, List.length_append, List.length_singleton, List.range_succ, List.map_singleton]
  · intro d hd
    obtain hd | hd := List.mem_append.mp hd
    · exact h.results d hd
    · rw [List.mem_singleton.mp hd]
  · have hnew : s.waited.length ∉ s.done := fun hmem => absurd (h.done_lt hmem) (Nat.lt_irrefl _)
    change _ = (s.waited ++ [_]).filter fun d : SelectData C => decide (d.session ∉ s.done)
    rw [List.filter_append, ← h.pending_eq, List.filter_cons_of_pos (by simpa using hnew), List.filter_nil]
  · intro c hc
    obtain ⟨hmem, hready⟩ := h.ready c hc
    exact ⟨List.mem_append_left _ hmem, hready⟩

lemma Accounts.count (h : Accounts s us left) (hd : d ∈ s.waited) :
    s.done.count d.session + (us.map SelectData.session).count d.session = 1 := by
  by_cases hdone : d.session ∈ s.done
  · have hzero : (us.map SelectData.session).count d.session = 0 := by
      rw [List.count_eq_zero]
      intro hmem
      obtain ⟨e, he, hsession⟩ := List.mem_map.mp hmem
      exact (h.mem he).2.2 (hsession ▸ hdone)
    rw [List.count_eq_one_of_mem h.nodup hdone, hzero]
  · have hmem : d ∈ us := by
      rw [h.pending_eq, List.mem_filter, decide_eq_true_eq]
      exact ⟨hd, hdone⟩
    rw [List.count_eq_zero_of_not_mem hdone, List.count_eq_one_of_mem h.nodup_sessions (List.mem_map_of_mem hmem)]

lemma Accounts.holders_eq (h : Accounts s us left) (xs ys zs : List (SelectData C)) (hxs : ∀ d ∈ xs, d ∈ us)
    (hys : ∀ d ∈ ys, d ∈ left) (hzs : ∀ d ∈ zs, d ∈ us) : s.holders (xs ++ ys ++ zs) = xs ++ zs := by
  have hlive (as : List (SelectData C)) (has : ∀ d ∈ as, d ∈ us) : s.holders as = as := by
    refine List.filter_eq_self.mpr fun d hd => ?_
    obtain ⟨-, hresult, hdone⟩ := h.mem (has d hd)
    rw [hresult, decide_eq_true hdone, Bool.and_self]
  have hdead : s.holders ys = [] := by
    refine List.filter_eq_nil_iff.mpr fun d hd => ?_
    obtain hresult | hdone := h.left_dead d (hys d hd)
    · simp [hresult]
    · simp [hdone]
  have happend : s.holders (xs ++ ys ++ zs) = s.holders xs ++ s.holders ys ++ s.holders zs := by
    simp only [State.holders, List.filter_append]
  rw [happend, hlive xs hxs, hdead, hlive zs hzs, List.append_nil]

lemma Inv.select_eq (h : Inv s) : s.holders s.select = s.selectLeft := by
  have hall (hleft : s.selectLeft = s.select) : s.holders s.select = s.selectLeft := by
    have heq := h.accounts.holders_eq s.select [] [] (fun d hd => ?_) (by simp) (by simp)
    · simpa [hleft] using heq
    · rw [State.pending, hleft]
      simp [hd]
  cases hp : s.position with
  | scan i w size =>
    have hleft : s.selectLeft = kept s.select w i := by rw [State.selectLeft, hp]
    have hover : s.leftOver = gap s.select w i := by rw [State.leftOver, hp]
    conv_lhs => rw [split_gap s.select w i]
    rw [hleft, kept]
    refine h.accounts.holders_eq _ _ _ ?_ ?_ ?_
    · intro d hd
      simp [State.pending, hleft, kept, hd]
    · rw [hover]
      exact fun d hd => hd
    · intro d hd
      simp [State.pending, hleft, kept, hd]
  | _ => exact hall (by rw [State.selectLeft, hp])

lemma Inv.idle (h : Inv s) (hscan : ∀ i w size, s.position ≠ .scan i w size) (hrest : ∀ j, s.position ≠ .rest j) :
    s.selectLeft = s.select ∧ s.tempLeft = [] ∧ s.leftOver = [] ∧ s.temp = [] := by
  have hfits := h.fits
  rw [State.Fits] at hfits
  rw [State.selectLeft, State.tempLeft, State.leftOver]
  cases hp : s.position with
  | scan i w size => exact absurd hp (hscan i w size)
  | rest j => exact absurd hp (hrest j)
  | wait =>
    rw [hp] at hfits
    exact ⟨rfl, hfits.1, rfl, hfits.1⟩
  | blocked =>
    rw [hp] at hfits
    exact ⟨rfl, hfits.1, rfl, hfits.1⟩
  | _ =>
    rw [hp] at hfits
    exact ⟨rfl, hfits, rfl, hfits⟩

lemma Inv.temp_eq (h : Inv s) : s.holders s.temp = s.tempLeft := by
  cases hp : s.position with
  | rest j =>
    have hleft : s.tempLeft = s.temp.drop j := by rw [State.tempLeft, hp]
    have hover : s.leftOver = s.temp.take j := by rw [State.leftOver, hp]
    have heq := h.accounts.holders_eq [] (s.temp.take j) (s.temp.drop j) (by simp) ?_ ?_
    · simpa [hleft] using heq
    · rw [hover]
      exact fun d hd => hd
    · intro d hd
      simp [State.pending, hleft, hd]
  | scan i w size =>
    have hfits := h.fits
    rw [State.Fits, hp] at hfits
    rw [State.tempLeft, hp, hfits.1]
    rfl
  | _ =>
    obtain ⟨-, htemp, -, hnil⟩ := h.idle (by simp [hp]) (by simp [hp])
    rw [htemp, hnil]
    rfl

lemma Inv.queue_eq (h : Inv s) : s.holders s.queue = s.queue := by
  have heq := h.accounts.holders_eq s.queue [] [] (fun d hd => ?_) (by simp) (by simp)
  · simpa using heq
  · simp [State.pending, hd]

lemma Inv.right (h : Inv s) : Right s := by
  refine ⟨?_, h.accounts.ready, ?_, ?_, h.accounts.woken⟩
  · intro d hd
    have hcount := h.accounts.count hd
    rw [State.pending, List.map_append, List.map_append, List.count_append, List.count_append] at hcount
    rw [State.waitersIn, State.waitersIn, State.waitersIn, h.queue_eq, h.temp_eq, h.select_eq]
    omega
  · rw [h.select_eq]
    have hsub : s.selectLeft.Sublist s.pending := by
      rw [State.pending, List.append_assoc]
      exact List.sublist_append_left _ _
    rw [h.accounts.pending_eq] at hsub
    exact hsub.trans List.filter_sublist
  · intro levels hnone
    have hfits := h.fits
    rw [State.run] at hnone
    cases hp : s.position with
    | blocked =>
      rw [State.Fits, hp] at hfits
      exact ⟨hfits.2.1, hfits.2.2⟩
    | scan i w size =>
      rw [State.Fits, hp] at hfits
      obtain ⟨-, hsize, -, -⟩ := hfits
      rw [hp] at hnone
      dsimp only at hnone
      split_ifs at hnone with hi
      rw [List.getElem?_eq_getElem (by omega)] at hnone
      cases hnone
    | rest j =>
      rw [hp] at hnone
      dsimp only at hnone
      split_ifs at hnone with hj
      rw [List.getElem?_eq_getElem hj] at hnone
      cases hnone
    | _ =>
      rw [hp] at hnone
      cases hnone

lemma notifyOne_left : s.notifyOne.selectLeft = s.selectLeft ∧ s.notifyOne.tempLeft = s.tempLeft ∧
    s.notifyOne.leftOver = s.leftOver := by
  simp only [State.notifyOne, State.selectLeft, State.tempLeft, State.leftOver]
  cases s.position <;> exact ⟨rfl, rfl, rfl⟩

lemma Accounts.same (h : Accounts s us left) (hwaited : t.waited = s.waited) (hcompleted : t.completed = s.completed)
    (hwoken : t.woken = s.woken) : Accounts t us left :=
  h.congr hwaited hcompleted hwoken fun _ hd => .inl hd

lemma Inv.notifyOne (h : Inv s) : Inv s.notifyOne := by
  obtain ⟨hselect, htemp, hover⟩ := notifyOne_left (s := s)
  refine ⟨?_, ?_⟩
  · rw [State.pending, hselect, htemp, hover]
    exact h.accounts.same rfl rfl rfl
  · have hfits := h.fits
    simp only [State.Fits, State.notifyOne] at hfits ⊢
    cases hp : s.position with
    | blocked =>
      rw [hp] at hfits
      exact ⟨hfits.1, hfits.2.1⟩
    | _ =>
      rw [hp] at hfits
      exact hfits

lemma Inv.wait {channel : C} {isReadOrWrite : Bool} {size : ℕ} (h : Inv s) :
    Inv (s.wait channel isReadOrWrite size) := by
  obtain ⟨hselect, htemp, hover⟩ := notifyOne_left (s := s)
  have haccounts := h.accounts.wait channel isReadOrWrite size
  refine ⟨?_, ?_⟩
  · have hpending : (s.wait channel isReadOrWrite size).pending =
        s.pending ++ [⟨channel, s.waited.length, isReadOrWrite, size, true⟩] := by
      rw [State.pending, State.pending, ← hselect, ← htemp]
      exact (List.append_assoc _ _ _).symm
    have hleft : (s.wait channel isReadOrWrite size).leftOver = s.leftOver := hover
    rw [hpending, hleft]
    exact haccounts
  · have hfits := h.fits
    simp only [State.Fits, State.wait, State.notifyOne] at hfits ⊢
    cases hp : s.position with
    | blocked =>
      rw [hp] at hfits
      exact ⟨hfits.1, hfits.2.1⟩
    | _ =>
      rw [hp] at hfits
      exact hfits

lemma Inv.takeQueue (h : Inv s) (hselect : s.selectLeft = s.select) (htemp : s.tempLeft = []) (hover : s.leftOver = []) :
    Inv s.takeQueue := by
  have haccounts := h.accounts
  rw [State.pending, hselect, htemp, hover, List.append_nil] at haccounts
  refine ⟨?_, Nat.zero_le _⟩
  have hpending : s.takeQueue.pending = s.select ++ s.queue := by
    simp [State.pending, State.selectLeft, State.tempLeft, State.takeQueue]
  have hleft : s.takeQueue.leftOver = [] := by simp [State.leftOver, State.takeQueue]
  rw [hpending, hleft]
  exact haccounts.same rfl rfl rfl

lemma setResult_places (s : State C) (levels : Levels C) (d : SelectData C) :
    (s.setResult levels d).queue = s.queue ∧ (s.setResult levels d).temp = s.temp ∧
      (s.setResult levels d).select = s.select := by
  rw [State.setResult]
  split_ifs <;> exact ⟨rfl, rfl, rfl⟩

lemma Inv.scan {i w size : ℕ} (h : Inv s) (hp : s.position = .scan i w size) (hi : i < size)
    (hd : s.select[i]? = some d) : Inv (s.scan levels i w size d) := by
  have hfits := h.fits
  have haccounts := h.accounts
  rw [State.Fits, hp] at hfits
  obtain ⟨htemp, hsize, -, hw⟩ := hfits
  obtain ⟨hlt, hget⟩ := List.getElem?_eq_some_iff.mp hd
  rw [State.pending, State.selectLeft, State.tempLeft, State.leftOver, hp] at haccounts
  dsimp only at haccounts
  rw [htemp, List.append_nil] at haccounts
  rw [State.scan]
  by_cases hready : isReady levels d = true
  · -- the waiter is completed, and its place is free
    obtain ⟨hqueue, htemp', hselect⟩ := setResult_places s levels d
    have hindex : (if w = size then i else w) = min w i := by
      split_ifs <;> omega
    rw [if_pos hready, hindex]
    rw [kept_eq_cons hlt, hget, List.append_assoc, List.cons_append] at haccounts
    have hcomplete := haccounts.complete hready
    rw [← hget, ← gap_leave hlt, ← List.append_assoc, ← kept_leave] at hcomplete
    refine ⟨?_, ?_⟩
    · simp only [State.pending, State.selectLeft, State.tempLeft, State.leftOver, hqueue, htemp', hselect, htemp,
        List.append_nil]
      rw [hget] at hcomplete
      exact hcomplete.same rfl rfl rfl
    · simp only [State.Fits, htemp', hselect, htemp]
      exact ⟨trivial, hsize, by omega, .inr (by omega)⟩
  rw [if_neg hready]
  by_cases hwrite : w < size
  · -- it is moved to the first free place
    have hwi : w < i := by omega
    have hkept : kept ((s.select.set w d).set i d.movedFrom) (w + 1) (i + 1) = kept s.select w i := by
      rw [← hget]
      exact kept_move hwi hlt
    have hgap : gap ((s.select.set w d).set i d.movedFrom) (w + 1) (i + 1) =
        (gap s.select w i).tail ++ [d.movedFrom] := by
      rw [← hget]
      exact gap_move hwi hlt
    rw [if_pos hwrite]
    refine ⟨?_, ?_⟩
    · simp only [State.pending, State.selectLeft, State.tempLeft, State.leftOver, htemp, List.append_nil, hkept, hgap]
      refine haccounts.congr rfl rfl rfl fun e he => ?_
      obtain he | he := List.mem_append.mp he
      · exact .inl (List.mem_of_mem_tail he)
      · rw [List.mem_singleton.mp he]
        exact .inr rfl
    · simp only [State.Fits, htemp, List.length_set]
      exact ⟨trivial, hsize, by omega, .inr (by omega)⟩
  · have hwi : w = size := by omega
    rw [if_neg hwrite]
    refine ⟨?_, ?_⟩
    · simp only [State.pending, State.selectLeft, State.tempLeft, State.leftOver, htemp, List.append_nil]
      rw [kept_of_le (by omega)] at haccounts ⊢
      rw [gap_of_le (by omega)] at haccounts ⊢
      exact haccounts.same rfl rfl rfl
    · simp only [State.Fits, htemp]
      exact ⟨trivial, hsize, by omega, .inl hwi⟩

lemma Inv.endScan {i w size : ℕ} (h : Inv s) (hp : s.position = .scan i w size) (hi : size ≤ i) :
    Inv (s.endScan w size) := by
  have hfits := h.fits
  have haccounts := h.accounts
  rw [State.Fits, hp] at hfits
  obtain ⟨htemp, hsize, hle, hw⟩ := hfits
  rw [State.pending, State.selectLeft, State.tempLeft, hp] at haccounts
  dsimp only at haccounts
  rw [htemp, List.append_nil, kept_end (by omega)] at haccounts
  have hselect : (if w = size then s.select else s.select.take w) = s.select.take (min w i) := by
    split_ifs with hall
    · rw [List.take_of_length_le (by omega)]
    · rw [Nat.min_eq_left (by omega)]
  have hleft : (s.endScan w size).selectLeft = s.select.take (min w i) ∧ (s.endScan w size).tempLeft = [] ∧
      (s.endScan w size).leftOver = [] ∧ (s.endScan w size).Fits := by
    simp only [State.selectLeft, State.tempLeft, State.leftOver, State.Fits, State.endScan, hselect, htemp]
    split_ifs <;> exact ⟨rfl, rfl, rfl, trivial⟩
  obtain ⟨hselect', htemp', hover, hfits⟩ := hleft
  refine ⟨?_, hfits⟩
  rw [State.pending, hselect', htemp', hover, List.append_nil]
  exact haccounts.congr rfl rfl rfl (by simp)

lemma Inv.rest {j : ℕ} (h : Inv s) (hp : s.position = .rest j) (hd : s.temp[j]? = some d) :
    Inv (s.rest levels j d) := by
  have haccounts := h.accounts
  obtain ⟨hlt, hget⟩ := List.getElem?_eq_some_iff.mp hd
  rw [State.pending, State.selectLeft, State.tempLeft, State.leftOver, hp] at haccounts
  dsimp only at haccounts
  rw [List.drop_eq_getElem_cons hlt, hget] at haccounts
  have htake (xs : List (SelectData C)) (hxs : j < xs.length) : xs.take (j + 1) = xs.take j ++ [xs[j]] :=
    List.take_succ_eq_append_getElem hxs
  rw [State.rest]
  by_cases hready : isReady levels d = true
  · obtain ⟨hqueue, htemp, hselect⟩ := setResult_places s levels d
    rw [List.append_assoc, List.cons_append] at haccounts
    have hcomplete := haccounts.complete hready
    rw [if_pos hready]
    refine ⟨?_, ?_⟩
    · simp only [State.pending, State.selectLeft, State.tempLeft, State.leftOver, hqueue, htemp, hselect,
        htake s.temp hlt, hget]
      rw [List.append_assoc]
      exact hcomplete.same rfl rfl rfl
    · simp only [State.Fits, htemp]
      omega
  · rw [if_neg hready]
    have hdrop : (s.temp.set j d.movedFrom).drop (j + 1) = s.temp.drop (j + 1) := List.drop_set_of_lt (by omega)
    have hover : (s.temp.set j d.movedFrom).take (j + 1) = s.temp.take j ++ [d.movedFrom] := by
      rw [htake _ (by rwa [List.length_set]), List.getElem_set_self, List.take_set_of_le le_rfl]
    refine ⟨?_, ?_⟩
    · simp only [State.pending, State.selectLeft, State.tempLeft, State.leftOver, hdrop, hover]
      rw [List.append_assoc s.select, List.singleton_append]
      refine haccounts.congr rfl rfl rfl fun e he => ?_
      obtain he | he := List.mem_append.mp he
      · exact .inl he
      · rw [List.mem_singleton.mp he]
        exact .inr rfl
    · simp only [State.Fits, List.length_set]
      omega

lemma Inv.goTo {p : Position} (h : Inv s) (hselect : s.selectLeft = s.select) (htemp : s.tempLeft = [])
    (hselect' : { s with position := p }.selectLeft = s.select) (htemp' : { s with position := p }.tempLeft = [])
    (hover' : { s with position := p }.leftOver = []) (hfits' : { s with position := p }.Fits) :
    Inv { s with position := p } := by
  have haccounts := h.accounts
  rw [State.pending, hselect, htemp] at haccounts
  refine ⟨?_, hfits'⟩
  rw [State.pending, hselect', htemp', hover']
  exact haccounts.congr rfl rfl rfl (by simp)

lemma Inv.look {p : Position} (h : Inv s) (hselect : s.selectLeft = s.select) (htemp : s.tempLeft = [])
    (hover : s.leftOver = []) (hselect' : { s with position := p }.selectLeft = s.select)
    (htemp' : { s with position := p }.tempLeft = []) (hover' : { s with position := p }.leftOver = [])
    (hfits' : s.queue = [] → { s with position := p }.Fits) :
    Inv (if s.queue.isEmpty then { s with position := p } else s.takeQueue) := by
  split_ifs with hempty
  · exact h.goTo hselect htemp hselect' htemp' hover' (hfits' (List.isEmpty_iff.mp hempty))
  · exact h.takeQueue hselect htemp hover

lemma Inv.run (h : Inv s) (hrun : s.run levels = some t) : Inv t := by
  have hfits := h.fits
  rw [State.run] at hrun
  cases hp : s.position with
  | top =>
    rw [hp] at hrun
    obtain rfl := Option.some.inj hrun
    obtain ⟨hselect, htemp, -, hnil⟩ := h.idle (by simp [hp]) (by simp [hp])
    split_ifs with hempty
    · exact h.goTo hselect htemp rfl hnil rfl ⟨hnil, List.isEmpty_iff.mp hempty⟩
    · exact h.goTo hselect htemp kept_zero hnil gap_zero ⟨hnil, rfl, Nat.zero_le _, .inl rfl⟩
  | blocked =>
    rw [hp] at hrun
    cases hrun
  | scan i w size =>
    rw [hp] at hrun
    dsimp only at hrun
    split_ifs at hrun with hi
    · obtain ⟨d, hd, rfl⟩ := Option.map_eq_some_iff.mp hrun
      exact h.scan hp hi hd
    · obtain rfl := Option.some.inj hrun
      exact h.endScan hp (by omega)
  | rest j =>
    rw [hp] at hrun
    dsimp only at hrun
    split_ifs at hrun with hj
    · obtain ⟨d, hd, rfl⟩ := Option.map_eq_some_iff.mp hrun
      exact h.rest hp hd
    · obtain rfl := Option.some.inj hrun
      have haccounts := h.accounts
      rw [State.pending, State.selectLeft, State.tempLeft, hp] at haccounts
      dsimp only at haccounts
      rw [List.drop_eq_nil_of_le (by omega)] at haccounts
      exact ⟨haccounts.congr rfl rfl rfl (by simp [State.leftOver]), rfl⟩
  | wait =>
    rw [hp] at hrun
    obtain rfl := Option.some.inj hrun
    rw [State.Fits, hp] at hfits
    obtain ⟨hselect, htemp, hover, hnil⟩ := h.idle (by simp [hp]) (by simp [hp])
    exact h.look hselect htemp hover rfl hnil rfl fun hempty => ⟨hnil, hfits.2, hempty⟩
  | waitFor ms =>
    rw [hp] at hrun
    obtain rfl := Option.some.inj hrun
    obtain ⟨hselect, htemp, hover, hnil⟩ := h.idle (by simp [hp]) (by simp [hp])
    exact h.look hselect htemp hover rfl hnil rfl fun _ => hnil
  | asleep ms =>
    rw [hp] at hrun
    obtain rfl := Option.some.inj hrun
    obtain ⟨hselect, htemp, hover, -⟩ := h.idle (by simp [hp]) (by simp [hp])
    exact h.takeQueue hselect htemp hover
  | yield =>
    rw [hp] at hrun
    obtain rfl := Option.some.inj hrun
    obtain ⟨hselect, htemp, hover, -⟩ := h.idle (by simp [hp]) (by simp [hp])
    exact h.takeQueue hselect htemp hover

lemma Inv.step {a : Action C} (h : Inv s) (hstep : (machine C).step s a = some t) : Inv t := by
  cases a with
  | wait channel isReadOrWrite size =>
    obtain rfl := Option.some.inj hstep
    exact h.wait
  | cancel session =>
    change (if session < s.waited.length then some _ else none) = some t at hstep
    split_ifs at hstep
    obtain rfl := Option.some.inj hstep
    exact ⟨h.accounts.same rfl rfl rfl, h.fits⟩
  | run levels => exact h.run hstep
  | wake =>
    obtain rfl := Option.some.inj hstep
    exact h.notifyOne

lemma initial_inv : Inv (machine C).initial where
  accounts := ⟨rfl, by simp [machine], by simp [machine, State.pending, State.selectLeft, State.tempLeft],
    by simp [machine, State.leftOver], by simp [machine], List.nodup_nil, List.Sublist.slnil⟩
  fits := rfl

/-- No waiter is lost, or completed before its channel is ready, in any run. -/
theorem waiters_kept (as : List (Action C)) : (machine C).Always Right (machine C).initial as :=
  Machine.always_of_along (fun _ h => h.right) (fun _ _ _ h _ hstep => h.step hstep) initial_inv
    (Machine.along_true _ as)

example : ((machine ℕ).run (machine ℕ).initial ([.wait 0 true 4, .wait 1 true 4, .run fun _ => (0, 0)] ++
    List.replicate 3 (.run fun c => (8 * c, 0)))).map (fun s => (s.done, s.waitersIn s.select)) = some ([1], [0]) := by
  decide

end Simple.Shm.ChannelSelect
