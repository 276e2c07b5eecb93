import Simple.Coro.Network
import Simple.Lib.Reader

/-! Coroutines that read from an open socket. Where they get to depends on the stream alone, not on
how it is delivered nor on when they run. -/

namespace Simple.Coro.Network

open Simple.Lib Simple.Lib.Reader

structure Program (S O : Type) where
  call : S → Option Call
  resume : S → Outcome → S × Option O
  exact : ∀ {s c}, call s = some c → c.Exact

structure Process (S O : Type) where
  socket : Socket := {}
  state : S
  results : List O := []

inductive Event
  | handRead (fresh : ℕ → UInt8) (data : List UInt8)
  | proceed

def Event.data : Event → List UInt8
  | .handRead _ data => data
  | .proceed => []

namespace Program

variable {S O : Type} (P : Program S O)

def answer (p : Process S O) (socket : Socket) : Option Outcome → Process S O
  | none => { p with socket := socket }
  | some o =>
    { socket := socket
      state := (P.resume p.state o).1
      results := p.results ++ (P.resume p.state o).2.toList }

def proceed (p : Process S O) : Process S O :=
  match p.socket.handle, P.call p.state with
  | none, some c => P.answer p (p.socket.call c).1 (p.socket.call c).2
  | _, _ => p

def step (p : Process S O) : Event → Process S O
  | .handRead fresh data =>
    P.answer p (p.socket.handRead fresh data).1 (p.socket.handRead fresh data).2
  | .proceed => P.proceed p

def run (start : S) (schedule : List Event) : Process S O :=
  schedule.foldl P.step { state := start }

def settle (p : Process S O) : Process S O := P.proceed^[p.socket.pending.length + 1] p

def Settled (p : Process S O) : Prop := p.socket.handle ≠ none ∨ P.call p.state = none

def consumer : Consumer S UInt8 O where
  cut := fun s xs => (P.call s).bind (·.cut xs)
  take := fun s xs => P.resume s (.bytes xs)
  cut_pos := by
    intro s xs n h
    obtain ⟨c, hc, hn⟩ := Option.bind_eq_some_iff.mp h
    exact (Call.cut_bounds (P.exact hc) hn).1
  cut_le := by
    intro s xs n h
    obtain ⟨c, hc, hn⟩ := Option.bind_eq_some_iff.mp h
    exact (Call.cut_bounds (P.exact hc) hn).2
  cut_append := by
    intro s xs n h ys
    obtain ⟨c, hc, hn⟩ := Option.bind_eq_some_iff.mp h
    exact Option.bind_eq_some_iff.mpr ⟨c, hc, Call.cut_append (P.exact hc) hn ys⟩

def cursor (p : Process S O) : Cursor S UInt8 O := ⟨p.state, p.socket.pending, p.results⟩

variable {P} {p q : Process S O} {start : S} {xs : List UInt8} {c : Call}

structure Inv (P : Program S O) (start : S) (stream : List UInt8) (p : Process S O) : Prop where
  good : p.socket.Good
  waits : ∀ w, p.socket.handle = some w → P.call p.state = some w.call
  steps : P.consumer.Steps ⟨start, stream, []⟩ (cursor p)

lemma inv_answer {stream : List UInt8} {r : Socket × Option Outcome}
    (hc : P.call p.state = some c) (hset : Socket.Settled c xs r)
    (hs : P.consumer.Steps ⟨start, stream, []⟩ ⟨p.state, xs, p.results⟩) :
    Inv P start stream (P.answer p r.1 r.2) ∧
      (Settled P (P.answer p r.1 r.2) ∨
        (cursor (P.answer p r.1 r.2)).pending.length < xs.length) := by
  cases hset with
  | waits hgood hw hcall hpending =>
    refine ⟨⟨hgood, ?_, ?_⟩, .inl (.inl ?_)⟩
    · intro w' hw'
      obtain rfl := Option.some.inj (hw.symm.trans hw')
      exact hc.trans (congrArg some hcall.symm)
    · rw [← hpending] at hs
      exact hs
    · exact fun hn => absurd (hw.symm.trans hn) (by simp)
  | answered hn hgood hnone hbuf =>
    next t n =>
    have hstep : P.consumer.step ⟨p.state, xs, p.results⟩ =
        some (cursor (P.answer p t (some (.bytes (xs.take n))))) := by
      have hcut : P.consumer.cut p.state xs = some n := Option.bind_eq_some_iff.mpr ⟨c, hc, hn⟩
      have hpending : t.pending = xs.drop n := by simp [Socket.pending, Socket.moved, hnone, hbuf]
      simp only [Consumer.step, hcut, Option.map_some, cursor, answer, hpending]
      rfl
    refine ⟨⟨hgood, ?_, hs.tail hstep⟩, .inr (Consumer.step_pending hstep)⟩
    intro w hw
    exact absurd (hnone.symm.trans hw) (by simp)

lemma inv_proceed {stream : List UInt8} (h : Inv P start stream p) :
    Inv P start stream (P.proceed p) ∧ (Settled P p → P.proceed p = p) ∧
      (Settled P (P.proceed p) ∨
        (P.proceed p).socket.pending.length < p.socket.pending.length) := by
  rw [proceed]
  cases hw : p.socket.handle with
  | some w => exact ⟨h, fun _ => rfl, .inl (.inl (by simp [hw]))⟩
  | none =>
    cases hc : P.call p.state with
    | none => exact ⟨h, fun _ => rfl, .inl (.inr hc)⟩
    | some c =>
      have hpending : p.socket.pending = p.socket.buf.contents := by
        simp [Socket.pending, Socket.moved, hw]
      have hcursor := h.steps
      rw [cursor, hpending] at hcursor
      obtain ⟨hinv, hlt⟩ := inv_answer hc (h.good.call (P.exact hc)) hcursor
      refine ⟨hinv, ?_, ?_⟩
      · rintro (hn | hn)
        · exact absurd hw hn
        · exact absurd (hc.symm.trans hn) (by simp)
      · rw [hpending]
        exact hlt

lemma inv_handRead {stream : List UInt8} (h : Inv P start stream p) (fresh : ℕ → UInt8)
    (data : List UInt8) : Inv P start (stream ++ data) (P.step p (.handRead fresh data)) := by
  have hpush := h.steps.push data
  rw [step]
  cases hw : p.socket.handle with
  | none =>
    rw [h.good.handRead_idle hw]
    refine ⟨h.good.append hw, ?_, ?_⟩
    · intro w hw'
      exact absurd (hw.symm.trans hw') (by simp)
    · change P.consumer.Steps _ ⟨p.state, (p.socket.append fresh data).pending, p.results⟩
      rwa [Socket.pending_append]
  | some w => exact (inv_answer (h.waits w hw) (h.good.handRead hw) hpush).1

lemma inv_run (P : Program S O) (start : S) (schedule : List Event) :
    Inv P start (schedule.flatMap Event.data) (P.run start schedule) := by
  induction schedule using List.reverseRecOn with
  | nil =>
    refine ⟨Socket.good_initial, ?_, .refl⟩
    rintro w ⟨⟩
  | append_singleton schedule e ih =>
    have hrun : P.run start (schedule ++ [e]) = P.step (P.run start schedule) e :=
      List.foldl_append
    rw [hrun, List.flatMap_append]
    cases e with
    | handRead fresh data =>
      rw [List.flatMap_singleton]
      exact inv_handRead ih fresh data
    | proceed =>
      rw [List.flatMap_singleton, Event.data, List.append_nil]
      exact (inv_proceed ih).1

lemma inv_iterate {stream : List UInt8} (n : ℕ) (h : Inv P start stream p) :
    Inv P start stream (P.proceed^[n] p) ∧
      (p.socket.pending.length < n → Settled P (P.proceed^[n] p)) := by
  induction n generalizing p with
  | zero => exact ⟨h, fun hn => absurd hn (Nat.not_lt_zero _)⟩
  | succ n ih =>
    obtain ⟨hinv, -, hnext⟩ := inv_proceed h
    obtain ⟨hinv', hset⟩ := ih hinv
    refine ⟨hinv', fun hn => ?_⟩
    rw [Function.iterate_succ_apply]
    rcases hnext with hs | hlt
    · have hfix : P.proceed^[n] (P.proceed p) = P.proceed p :=
        Function.iterate_fixed ((inv_proceed hinv).2.1 hs) n
      rwa [hfix]
    · exact hset (by omega)

lemma quiet_of_settled {stream : List UInt8} (h : Inv P start stream p) (hs : Settled P p) :
    P.consumer.step (cursor p) = none := by
  rcases hs with hw | hc
  · obtain ⟨w, hw⟩ := Option.ne_none_iff_exists'.mp hw
    have hcut : P.consumer.cut p.state p.socket.pending = none := by
      have hclear := (h.good.clear w hw).2.1
      simp only [consumer, h.waits w hw, Option.bind_some, Socket.pending, Socket.moved, hw]
      exact hclear
    simp only [Consumer.step, cursor, hcut, Option.map_none]
  · have hcut : P.consumer.cut p.state p.socket.pending = none := by simp [consumer, hc]
    simp only [Consumer.step, cursor, hcut, Option.map_none]

/-- The coroutine ends up where a consumer of the whole stream does. -/
theorem settle_cursor {schedule : List Event} {d : Cursor S UInt8 O}
    (h : P.consumer.Steps ⟨start, schedule.flatMap Event.data, []⟩ d)
    (hq : P.consumer.step d = none) : cursor (P.settle (P.run start schedule)) = d := by
  obtain ⟨hinv, hset⟩ := inv_iterate ((P.run start schedule).socket.pending.length + 1)
    (inv_run P start schedule)
  exact hinv.steps.unique h (quiet_of_settled hinv (hset (Nat.lt_succ_self _))) hq

variable {O' : Type}

def map (P : Program S O) (g : O → O') : Program S O' where
  call := P.call
  resume := fun s o => ((P.resume s o).1, (P.resume s o).2.map g)
  exact := P.exact

def mapProcess (g : O → O') (p : Process S O) : Process S O' :=
  { socket := p.socket, state := p.state, results := p.results.map g }

variable {g : O → O'}

lemma answer_map (socket : Socket) (o : Option Outcome) :
    (P.map g).answer (mapProcess g p) socket o = mapProcess g (P.answer p socket o) := by
  cases o with
  | none => rfl
  | some o =>
    have hresults : p.results.map g ++ ((P.resume p.state o).2.map g).toList =
        (p.results ++ (P.resume p.state o).2.toList).map g := by
      cases (P.resume p.state o).2 <;> simp
    simp only [answer, mapProcess, map, hresults]

lemma proceed_map : (P.map g).proceed (mapProcess g p) = mapProcess g (P.proceed p) := by
  have hsocket : (mapProcess g p).socket = p.socket := rfl
  have hcall : (P.map g).call (mapProcess g p).state = P.call p.state := rfl
  rw [proceed, proceed, hsocket, hcall]
  cases p.socket.handle with
  | some w => rfl
  | none =>
    cases P.call p.state with
    | none => rfl
    | some c => exact answer_map _ _

lemma run_map (start : S) (schedule : List Event) :
    (P.map g).run start schedule = mapProcess g (P.run start schedule) := by
  induction schedule using List.reverseRecOn with
  | nil => rfl
  | append_singleton schedule e ih =>
    have hrun : (P.map g).run start (schedule ++ [e]) =
        (P.map g).step ((P.map g).run start schedule) e := List.foldl_append
    have hrun' : P.run start (schedule ++ [e]) = P.step (P.run start schedule) e :=
      List.foldl_append
    rw [hrun, hrun', ih]
    cases e with
    | handRead fresh data => exact answer_map _ _
    | proceed => exact proceed_map

lemma settle_map (start : S) (schedule : List Event) :
    (P.map g).settle ((P.map g).run start schedule) =
      mapProcess g (P.settle (P.run start schedule)) := by
  have hsemi : Function.Semiconj (mapProcess g) P.proceed (P.map g).proceed :=
    fun p => proceed_map.symm
  rw [run_map]
  exact ((hsemi.iterate_right _).eq _).symm

lemma settle_map_cursor {s : S} {ys : List O} {schedule : List Event}
    (h : cursor (P.settle (P.run start schedule)) = ⟨s, xs, ys⟩) :
    cursor ((P.map g).settle ((P.map g).run start schedule)) = ⟨s, xs, ys.map g⟩ := by
  obtain ⟨rfl, rfl, rfl⟩ := Cursor.mk.inj h
  rw [settle_map]
  rfl

end Program

end Simple.Coro.Network
