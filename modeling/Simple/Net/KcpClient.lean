import Simple.Net.KcpServer
import Simple.Net.Report

/-! `kcp_client_impl` from `start` to the end. `co_connect` runs beside `co_timeout`; the side that ends
first cancels the other, whose operation ends with an error. -/

namespace Simple.Net.KcpClient

open Simple.Lib Simple.Net.Kcp

inductive Stage
  | resolving
  | connecting
  | sending
  | receiving
  | over
  deriving DecidableEq

inductive State
  | normal
  | connected
  | closeWait
  | closed
  deriving DecidableEq

/-- `data` is the array of `co_connect`, which nobody has written to at first; `timer` is the wait of
`co_timeout`, and `farewell` the coroutine that `disconnect` starts. -/
structure Client where
  data : List UInt8
  stage : Stage := .resolving
  state : State := .normal
  timer : Bool := true
  cancelled : Bool := false
  writeDeque : ℕ := 0
  farewell : Bool := false
  reports : List Report := []

namespace Client

/-- The timer is cancelled too, which ends `co_timeout` and so cancels `co_connect`. -/
def stop (s : Client) : Client :=
  if s.state = .closed then s
  else
    { s with
      state := .closed
      timer := false
      cancelled := s.cancelled || s.timer
      reports := s.reports ++ [.handStop] }

def disconnect (s : Client) : Client :=
  if s.state ≠ .connected then s else { s with state := .closeWait, farewell := true }

def finish (s : Client) : Client := { s with stage := .over, timer := false }

/-- The first datagram; `flushed` tells whether what was to be written before could be sent. -/
def handAck (s : Client) (bytes : List UInt8) (flushed : Bool) : Client :=
  let (data, len) := received s.data bytes
  let s := { s with data := data }
  if data.take headSize ≠ magic ++ [opConnectAck] then finish s.disconnect
  else if len < headSize + 4 then finish s.stop
  else
    let s := { s with state := .connected, reports := s.reports ++ [Report.handStart] }
    if s.writeDeque ≠ 0 ∧ flushed = false then finish s.disconnect
    else finish { s with writeDeque := 0 }

end Client

/-- An operation ends, well or with an error; `lost` is any reason for which the coroutines of a
connection disconnect. -/
inductive Action
  | resolve (ok : Bool)
  | connect (ok : Bool)
  | send (ok : Bool)
  | receive (bytes : List UInt8) (flushed : Bool)
  | receiveError
  | deadline
  | close
  | write (sent : Bool)
  | lost
  | farewell

def goOn (s : Client) (here next : Stage) (ok : Bool) : Option Client :=
  if s.stage ≠ here then none
  else if ok = false then some s.stop.finish
  else if s.cancelled then none
  else some { s with stage := next }

def operate (s : Client) : Action → Option Client
  | .resolve ok =>
    -- a resolver can not be cancelled, but the next operation of a cancelled coroutine throws
    if s.stage = .resolving ∧ ok = true ∧ s.cancelled = true then some s.finish
    else goOn s .resolving .connecting ok
  | .connect ok => goOn s .connecting .sending ok
  | .send ok => goOn s .sending .receiving ok
  | .receive bytes flushed =>
    if s.stage = .receiving ∧ s.cancelled = false then some (s.handAck bytes flushed) else none
  | .receiveError => if s.stage = .receiving then some s.stop.finish else none
  | .deadline =>
    if s.timer then some (Client.stop { s with timer := false, cancelled := true }) else none
  | .close => some s.stop
  | .write sent =>
    if s.state ≠ .connected then some { s with writeDeque := s.writeDeque + 1 }
    else if sent then some s
    else some s.disconnect
  | .lost => if s.state = .connected then some s.disconnect else none
  | .farewell => if s.farewell then some (Client.stop { s with farewell := false }) else none

def record (s : Client) (first : Option (List UInt8)) : Action → Option (List UInt8)
  | .receive bytes _ => if (operate s (.receive bytes true)).isSome then some bytes else first
  | _ => first

def machine (data : List UInt8) : Machine (Client × Option (List UInt8)) Action :=
  Machine.withHistory ⟨{ data := data }, operate⟩ none record

def WellFormed (bytes : List UInt8) : Prop :=
  headSize + 4 ≤ bytes.length ∧ bytes.take headSize = magic ++ [opConnectAck]

/-- The reports so far, of which there is one when `co_connect` has ended. -/
structure Reported (p : Client × Option (List UInt8)) : Prop where
  ordered : Report.Ordered p.1.reports
  ended : p.1.stage = .over → p.1.reports ≠ []
  start : Report.handStart ∈ p.1.reports → ∃ bytes, p.2 = some bytes ∧ WellFormed bytes

/-- The array begins with the head of an acknowledgement once a datagram has been received. -/
def Acknowledges (p : Client × Option (List UInt8)) : Action → Prop
  | .receive bytes _ => (received p.1.data bytes).1.take headSize = magic ++ [opConnectAck]
  | _ => True

variable {s t : Client} {first : Option (List UInt8)} {p q : Client × Option (List UInt8)} {a : Action}

inductive Phase : Client → Prop
  | underWay {s : Client} : s.stage ≠ .over → s.state = .normal → s.timer = true →
      s.cancelled = false → s.farewell = false → s.reports = [] → Phase s
  | stopped {s : Client} : s.stage ≠ .over → s.state = .closed → s.timer = false →
      s.cancelled = true → s.farewell = false → s.reports = [.handStop] → Phase s
  | unreported {s : Client} : s.stage = .over → s.state = .normal → s.timer = false →
      s.farewell = false → s.reports = [] → Phase s
  | connected {s : Client} : s.stage = .over → s.state = .connected → s.timer = false →
      s.farewell = false → s.reports = [.handStart] → Phase s
  | closeWait {s : Client} : s.stage = .over → s.state = .closeWait → s.timer = false →
      s.reports = [.handStart] → Phase s
  | closed {s : Client} : s.stage = .over → s.state = .closed → s.timer = false →
      (s.reports = [.handStop] ∨ s.reports = [.handStart, .handStop]) → Phase s

lemma Phase.reports (h : Phase s) : s.reports = [] ∨ s.reports = [.handStart] ∨
    s.reports = [.handStop] ∨ s.reports = [.handStart, .handStop] := by
  cases h with
  | underWay _ _ _ _ _ hr => exact .inl hr
  | stopped _ _ _ _ _ hr => exact .inr (.inr (.inl hr))
  | unreported _ _ _ _ hr => exact .inl hr
  | connected _ _ _ _ hr => exact .inr (.inl hr)
  | closeWait _ _ _ hr => exact .inr (.inl hr)
  | closed _ _ _ hr =>
    rcases hr with hr | hr
    · exact .inr (.inr (.inl hr))
    · exact .inr (.inr (.inr hr))

lemma Phase.of_connected (h : Phase s) (hs : s.state = .connected) : s.stage = .over ∧
    s.timer = false ∧ s.farewell = false ∧ s.reports = [.handStart] := by
  cases h with
  | connected hg _ ht hf hr => exact ⟨hg, ht, hf, hr⟩
  | underWay _ hn => simp [hs] at hn
  | stopped _ hn => simp [hs] at hn
  | unreported _ hn => simp [hs] at hn
  | closeWait _ hn => simp [hs] at hn
  | closed _ hn => simp [hs] at hn

lemma Phase.early (h : Phase s) (hg : s.stage ≠ .over) : s.farewell = false ∧
    (s.state = .normal ∧ s.timer = true ∧ s.cancelled = false ∧ s.reports = [] ∨
      s.state = .closed ∧ s.timer = false ∧ s.cancelled = true ∧ s.reports = [.handStop]) := by
  cases h with
  | underWay _ hs ht hc hf hr => exact ⟨hf, .inl ⟨hs, ht, hc, hr⟩⟩
  | stopped _ hs ht hc hf hr => exact ⟨hf, .inr ⟨hs, ht, hc, hr⟩⟩
  | unreported he => exact absurd he hg
  | connected he => exact absurd he hg
  | closeWait he => exact absurd he hg
  | closed he => exact absurd he hg

lemma Phase.of_timer (h : Phase s) (ht : s.timer = true) : s.stage ≠ .over := by
  rintro hg
  cases h with
  | underWay hn => exact hn hg
  | stopped _ _ hf => simp [ht] at hf
  | unreported _ _ hf => simp [ht] at hf
  | connected _ _ hf => simp [ht] at hf
  | closeWait _ _ hf => simp [ht] at hf
  | closed _ _ hf => simp [ht] at hf

structure Quiet (s t : Client) : Prop where
  phase : Phase t
  ended : (s.stage = .over → s.reports ≠ []) → t.stage = .over → t.reports ≠ []
  start : .handStart ∈ t.reports → Report.handStart ∈ s.reports

lemma Phase.stop (h : Phase s) : Quiet s s.stop := by
  by_cases hs : s.state = .closed
  · rw [Client.stop, if_pos hs]
    exact ⟨h, id, id⟩
  rw [Client.stop, if_neg hs]
  refine ⟨?_, fun _ _ => by simp, by simp⟩
  cases h with
  | underWay hg _ ht _ hf hr => exact .stopped hg rfl rfl (by simp [ht]) hf (by simp [hr])
  | stopped _ hc => exact absurd hc hs
  | unreported hg _ _ _ hr => exact .closed hg rfl rfl (.inl (by simp [hr]))
  | connected hg _ _ _ hr => exact .closed hg rfl rfl (.inr (by simp [hr]))
  | closeWait hg _ _ hr => exact .closed hg rfl rfl (.inr (by simp [hr]))
  | closed _ hc => exact absurd hc hs

lemma Phase.disconnect (h : Phase s) : Quiet s s.disconnect := by
  by_cases hs : s.state = .connected
  · obtain ⟨hg, ht, -, hr⟩ := h.of_connected hs
    rw [Client.disconnect, if_neg (not_not.mpr hs)]
    exact ⟨.closeWait hg rfl ht hr, id, id⟩
  · rw [Client.disconnect, if_pos hs]
    exact ⟨h, id, id⟩

lemma Phase.stop_finish (h : Phase s) (hg : s.stage ≠ .over) : Quiet s s.stop.finish := by
  obtain ⟨-, ⟨hs, -, -, hr⟩ | ⟨hs, -, -, hr⟩⟩ := h.early hg
  · rw [Client.stop, if_neg (by simp [hs])]
    exact ⟨.closed rfl rfl rfl (.inl (by simp [Client.finish, hr])),
      fun _ _ => by simp [Client.finish], by simp [Client.finish]⟩
  · rw [Client.stop, if_pos hs]
    exact ⟨.closed rfl hs rfl (.inl hr), fun _ _ => by simp [Client.finish, hr], id⟩

lemma Phase.goOn {here next : Stage} {ok : Bool} (h : Phase s) (hh : here ≠ .over) (hn : next ≠ .over)
    (ht : KcpClient.goOn s here next ok = some t) : Quiet s t := by
  rw [KcpClient.goOn] at ht
  split_ifs at ht with hs hok hc
  · obtain rfl := Option.some.inj ht
    exact h.stop_finish (by rw [not_not.mp hs]; exact hh)
  · obtain rfl := Option.some.inj ht
    obtain ⟨hf, ⟨hs, ht, hc', hr⟩ | ⟨-, -, hc', -⟩⟩ := h.early (by rw [not_not.mp hs]; exact hh)
    · exact ⟨.underWay hn hs ht hc' hf hr, fun _ he => absurd he hn, id⟩
    · exact absurd hc' hc

lemma Phase.deadline (h : Phase s) (htimer : s.timer = true) :
    Quiet s (Client.stop { s with timer := false, cancelled := true }) := by
  have hg := h.of_timer htimer
  obtain ⟨hf, ⟨hs, -, -, hr⟩ | ⟨-, hn, -⟩⟩ := h.early hg
  · rw [Client.stop, if_neg (by simp [hs])]
    exact ⟨.stopped hg rfl rfl rfl hf (by simp [hr]), fun _ he => absurd he hg, by simp⟩
  · simp [htimer] at hn

lemma Phase.pend (h : Phase s) (n : ℕ) : Phase { s with writeDeque := n } := by
  cases h with
  | underWay hg hs ht hc hf hr => exact .underWay hg hs ht hc hf hr
  | stopped hg hs ht hc hf hr => exact .stopped hg hs ht hc hf hr
  | unreported hg hs ht hf hr => exact .unreported hg hs ht hf hr
  | connected hg hs ht hf hr => exact .connected hg hs ht hf hr
  | closeWait hg hs ht hr => exact .closeWait hg hs ht hr
  | closed hg hs ht hr => exact .closed hg hs ht hr

lemma Phase.farewell (h : Phase s) (hf : s.farewell = true) : Phase { s with farewell := false } := by
  cases h with
  | underWay _ _ _ _ hn => simp [hf] at hn
  | stopped _ _ _ _ hn => simp [hf] at hn
  | unreported _ _ _ hn => simp [hf] at hn
  | connected _ _ _ hn => simp [hf] at hn
  | closeWait hg hs ht hr => exact .closeWait hg hs ht hr
  | closed hg hs ht hr => exact .closed hg hs ht hr

lemma quiet_step (h : Phase s) (ht : operate s a = some t)
    (ha : ∀ bytes flushed, a ≠ .receive bytes flushed) : Quiet s t := by
  cases a with
  | resolve ok =>
    rw [operate] at ht
    split_ifs at ht with hc
    · obtain rfl := Option.some.inj ht
      obtain ⟨-, ⟨-, -, hn, -⟩ | ⟨hs, -, -, hr⟩⟩ := h.early (by rw [hc.1]; simp)
      · simp [hc.2.2] at hn
      · exact ⟨.closed rfl hs rfl (.inl hr), fun _ _ => by simp [Client.finish, hr], id⟩
    · exact h.goOn (by simp) (by simp) ht
  | connect ok => exact h.goOn (by simp) (by simp) ht
  | send ok => exact h.goOn (by simp) (by simp) ht
  | receive bytes flushed => exact absurd rfl (ha bytes flushed)
  | receiveError =>
    rw [operate] at ht
    split_ifs at ht with hs
    obtain rfl := Option.some.inj ht
    exact h.stop_finish (by rw [hs]; simp)
  | deadline =>
    rw [operate] at ht
    split_ifs at ht with htimer
    obtain rfl := Option.some.inj ht
    exact h.deadline htimer
  | close =>
    obtain rfl := Option.some.inj ht
    exact h.stop
  | write sent =>
    rw [operate] at ht
    split_ifs at ht with hs hsent
    · obtain rfl := Option.some.inj ht
      exact ⟨h.pend _, id, id⟩
    · obtain rfl := Option.some.inj ht
      exact ⟨h, id, id⟩
    · obtain rfl := Option.some.inj ht
      exact h.disconnect
  | lost =>
    rw [operate] at ht
    split_ifs at ht with hs
    obtain rfl := Option.some.inj ht
    exact h.disconnect
  | farewell =>
    rw [operate] at ht
    split_ifs at ht with hf
    obtain rfl := Option.some.inj ht
    have hstop := (h.farewell hf).stop
    exact ⟨hstop.phase, hstop.ended, hstop.start⟩

/-- The first datagram has come: it must look like an acknowledgement for anything to be reported,
and be one for a start. -/
lemma handAck_spec (h : Phase s) (hg : s.stage = .receiving) (hc : s.cancelled = false)
    (bytes : List UInt8) (flushed : Bool) :
    Phase (s.handAck bytes flushed) ∧ (s.handAck bytes flushed).stage = .over ∧
      ((s.handAck bytes flushed).reports ≠ [] ↔
        (received s.data bytes).1.take headSize = magic ++ [opConnectAck]) ∧
      (Report.handStart ∈ (s.handAck bytes flushed).reports → WellFormed bytes) := by
  have hover : s.stage ≠ .over := by rw [hg]; simp
  obtain ⟨hf, ⟨hs, ht, -, hr⟩ | ⟨-, -, hn, -⟩⟩ := h.early hover
  · have hnc : s.state ≠ .connected := by rw [hs]; simp
    have hno : s.state ≠ .closed := by rw [hs]; simp
    rw [Client.handAck]
    have hwell : (received s.data bytes).1.take headSize = magic ++ [opConnectAck] →
        ¬(received s.data bytes).2 < headSize + 4 → WellFormed bytes := by
      intro hhead hlen
      obtain ⟨hle, htake⟩ := received_head (Nat.le_of_not_lt hlen)
      exact ⟨hle, htake.symm.trans hhead⟩
    generalize received s.data bytes = r at hwell ⊢
    obtain ⟨data, len⟩ := r
    simp only at hwell ⊢
    split_ifs with hhead hlen hflush
    · simp only [Client.disconnect, if_pos hnc]
      refine ⟨.unreported rfl hs rfl hf hr, rfl, ?_, ?_⟩
      · simp [Client.finish, hr, hhead]
      · simp [Client.finish, hr]
    · simp only [Client.stop, if_neg hno]
      refine ⟨.closed rfl rfl rfl (.inl (by simp [Client.finish, hr])), rfl, ?_, ?_⟩
      · simpa [Client.finish] using hhead
      · simp [Client.finish, hr]
    · simp only [Client.disconnect]
      refine ⟨.closeWait rfl rfl rfl (by simp [Client.finish, hr]), rfl, ?_,
        fun _ => hwell (not_not.mp hhead) hlen⟩
      simpa [Client.finish] using hhead
    · refine ⟨.connected rfl rfl rfl hf (by simp [Client.finish, hr]), rfl, ?_,
        fun _ => hwell (not_not.mp hhead) hlen⟩
      simpa [Client.finish] using hhead
  · simp [hc] at hn

structure Inv (p : Client × Option (List UInt8)) : Prop where
  phase : Phase p.1
  start : Report.handStart ∈ p.1.reports → ∃ bytes, p.2 = some bytes ∧ WellFormed bytes

lemma reported_iff (hi : Inv p) : Reported p ↔ (p.1.stage = .over → p.1.reports ≠ []) :=
  ⟨fun h => h.ended, fun h => ⟨Report.ordered_of hi.phase.reports, h, hi.start⟩⟩

lemma step_reported {data : List UInt8} (hi : Inv p) (ht : (machine data).step p a = some q) :
    Inv q ∧ (Reported p → (Reported q ↔ Acknowledges p a)) := by
  obtain ⟨hstep, hrecord⟩ := Machine.step_withHistory.mp ht
  obtain ⟨s, first⟩ := p
  obtain ⟨t, first'⟩ := q
  simp only at hstep hrecord
  by_cases ha : ∃ bytes flushed, a = .receive bytes flushed
  · obtain ⟨bytes, flushed, rfl⟩ := ha
    have hfirst : first' = some bytes := by
      rw [hrecord, record]
      rw [operate] at hstep ⊢
      split_ifs at hstep with hc
      rw [if_pos hc]
      rfl
    rw [operate] at hstep
    split_ifs at hstep with hc
    obtain rfl := Option.some.inj hstep
    obtain ⟨hphase, hover, hsome, hwell⟩ := handAck_spec hi.phase hc.1 hc.2 bytes flushed
    have hinv : Inv (s.handAck bytes flushed, first') :=
      ⟨hphase, fun hs => ⟨bytes, hfirst, hwell hs⟩⟩
    refine ⟨hinv, fun _ => ?_⟩
    rw [reported_iff hinv, Acknowledges, ← hsome]
    exact ⟨fun h => h hover, fun h _ => h⟩
  · have hno : ∀ bytes flushed, a ≠ .receive bytes flushed :=
      fun bytes flushed h => ha ⟨bytes, flushed, h⟩
    obtain ⟨hphase, hended, hstart⟩ := quiet_step hi.phase hstep hno
    have hfirst : first' = first := by
      rw [hrecord]
      cases a with
      | receive bytes flushed => exact absurd rfl (hno bytes flushed)
      | _ => rfl
    have hinv : Inv (t, first') := ⟨hphase, fun hs => hfirst ▸ hi.start (hstart hs)⟩
    refine ⟨hinv, fun hp => iff_of_true ?_ ?_⟩
    · exact (reported_iff hinv).mpr (hended ((reported_iff hi).mp hp))
    · cases a with
      | receive bytes flushed => exact absurd rfl (hno bytes flushed)
      | _ => trivial

lemma inv_initial (data : List UInt8) : Inv (machine data).initial :=
  ⟨.underWay (by simp [machine, Machine.withHistory]) rfl rfl rfl rfl rfl,
    by simp [machine, Machine.withHistory]⟩

/-- An attempt reports what becomes of it exactly when the first datagram, if one comes, leaves the
head of an acknowledgement in the array. -/
theorem reported_iff_acknowledges (data : List UInt8) (as : List Action) :
    (machine data).Always Reported (machine data).initial as ↔
      (machine data).Along Acknowledges (machine data).initial as := by
  refine Machine.always_iff_along (fun s a t hi ht => (step_reported hi ht).1)
    (fun s a t hi hp ht => (step_reported hi ht).2 hp) (inv_initial data) ?_
  exact (reported_iff (inv_initial data)).mpr (by simp [machine, Machine.withHistory])

/-- The first datagram is the server's refusal, and nothing is reported at all. -/
theorem refused_silent : ¬(machine (List.replicate udpMtu 0)).Always Reported
    (machine (List.replicate udpMtu 0)).initial
    [.resolve true, .connect true, .send true, .receive (makeCtrl opDisconnect 0) true] := by
  intro h
  exact (h.last rfl).ended rfl rfl

end Simple.Net.KcpClient
