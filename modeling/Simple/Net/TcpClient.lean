import Simple.Lib.Machine
import Simple.Net.Report

/-! `tcp_client_impl` and `ssl_client_impl` until they are connected, and the coroutine that waits for
that in `network`. `co_connect` runs beside `co_timeout`; the side that ends first cancels the other,
whose operation ends with an error. -/

namespace Simple.Net.TcpClient

open Simple.Lib

inductive Kind
  | tcp
  | ssl
  deriving DecidableEq

inductive Stage
  | posted
  | resolving
  | connecting
  | handshaking
  | over
  deriving DecidableEq

/-- `timer` is the wait of `co_timeout`, and `listed` whether `socket_system` finds the client.
`queue` holds the reports that the scheduler has not run; `entry` is that of `network`, at which the
coroutine is `suspended`. -/
structure Client where
  stage : Stage := .posted
  isOpen : Bool := false
  timer : Bool := false
  cancelled : Bool := false
  listed : Bool := false
  reports : List Report := []
  queue : List Report := []
  entry : Bool := true
  suspended : Bool := true
  deriving DecidableEq

namespace Client

def report (s : Client) (r : Report) : Client :=
  { s with reports := s.reports ++ [r], queue := s.queue ++ [r] }

/-- The timer is cancelled too, which ends `co_timeout` and so cancels `co_connect`. -/
def stop (s : Client) : Client :=
  if s.isOpen = false then s
  else
    { s.report .handStop with
      isOpen := false
      timer := false
      cancelled := s.cancelled || s.timer
      listed := false }

def finish (s : Client) : Client := { s with stage := .over, timer := false }

def fail (s : Client) : Client := s.stop.finish

def connected (s : Client) : Client := (s.report .handStart).finish

end Client

/-- An operation ends, well or with an error. `setup` is what `ssl_client_impl` does before it
starts anything; `systemClose` is run for `network::close`, which is `close`. -/
inductive Action
  | start (setup : Bool)
  | resolve (ok : Bool)
  | connect (ok : Bool)
  | handshake (ok : Bool)
  | deadline
  | systemClose
  | close
  | lost
  | deliver
  deriving DecidableEq

def handReport (s : Client) : Report → Client
  | .handStart => if s.entry then { s with suspended := false } else s
  | .handStop => if s.entry then { s with entry := false, suspended := false } else s

def operate (kind : Kind) (s : Client) : Action → Option Client
  | .start setup =>
    if s.stage ≠ .posted then none
    else if setup then some { s with stage := .resolving, timer := true, listed := true }
    else if kind = .ssl then some s.fail
    else none
  | .resolve ok =>
    if s.stage ≠ .resolving then none
    else if ok = false then some s.fail
    -- a resolver can not be cancelled, but the next operation of a cancelled coroutine throws
    else if s.cancelled then some s.finish
    else some { s with stage := .connecting, isOpen := true }
  | .connect ok =>
    if s.stage ≠ .connecting then none
    else if ok = false then some s.fail
    else if s.cancelled then none
    else if kind = .ssl then some { s with stage := .handshaking }
    else some s.connected
  | .handshake ok =>
    if s.stage ≠ .handshaking then none
    else if ok = false then some s.fail
    else if s.cancelled then none
    else some s.connected
  | .deadline =>
    if s.timer then some (Client.stop { s with timer := false, cancelled := true }) else none
  | .systemClose => if s.listed then some s.stop else some s
  | .close => if s.entry then some { s with entry := false, suspended := false } else some s
  | .lost => if .handStart ∈ s.reports then some s.stop else none
  | .deliver =>
    match s.queue with
    | [] => none
    | r :: queue => some (handReport { s with queue := queue } r)

def machine (kind : Kind) : Machine Client Action := ⟨{}, operate kind⟩

/-- No operation is pending, and nothing will ever wake up the coroutine. -/
def Stuck (s : Client) : Prop :=
  s.stage = .over ∧ s.timer = false ∧ s.reports = [] ∧ s.suspended = true

def Reported (s : Client) : Prop := Report.Ordered s.reports ∧ ¬Stuck s

/-- As long as the coroutine is suspended, the setup does not fail, and the name is resolved before
the deadline. -/
def ReachesOpen (s : Client) : Action → Prop
  | .start setup => s.suspended = true → setup = true
  | .resolve ok => s.suspended = true → ok = true ∧ s.cancelled = false
  | _ => True

variable {kind : Kind} {s t : Client} {a : Action}

inductive Phase : Client → Prop
  | posted {s : Client} : s.stage = .posted → s.isOpen = false → s.timer = false →
      s.cancelled = false → s.reports = [] → Phase s
  | resolving {s : Client} : s.stage = .resolving → s.isOpen = false → s.timer = !s.cancelled →
      s.reports = [] → Phase s
  | underWay {s : Client} : s.stage = .connecting ∨ s.stage = .handshaking → s.isOpen = true →
      s.timer = true → s.cancelled = false → s.reports = [] → Phase s
  | stopped {s : Client} : s.stage = .connecting ∨ s.stage = .handshaking → s.isOpen = false →
      s.timer = false → s.cancelled = true → s.reports = [.handStop] → Phase s
  | running {s : Client} : s.stage = .over → s.isOpen = true → s.timer = false →
      s.reports = [.handStart] → Phase s
  | ended {s : Client} : s.stage = .over → s.isOpen = false → s.timer = false →
      (s.reports = [] ∨ s.reports = [.handStop] ∨ s.reports = [.handStart, .handStop]) → Phase s

lemma Phase.reports (h : Phase s) : s.reports = [] ∨ s.reports = [.handStart] ∨
    s.reports = [.handStop] ∨ s.reports = [.handStart, .handStop] := by
  cases h with
  | posted _ _ _ _ hr => exact .inl hr
  | resolving _ _ _ hr => exact .inl hr
  | underWay _ _ _ _ hr => exact .inl hr
  | stopped _ _ _ _ hr => exact .inr (.inr (.inl hr))
  | running _ _ _ hr => exact .inr (.inl hr)
  | ended _ _ _ hr => exact hr.imp_right .inr

lemma reported_iff (h : Phase s) : Reported s ↔ ¬Stuck s :=
  and_iff_right (Report.ordered_of h.reports)

lemma Phase.early (h : Phase s) (hg : s.stage = .posted ∨ s.stage = .resolving) :
    s.isOpen = false ∧ s.reports = [] ∧ (s.stage = .posted → s.cancelled = false) ∧
      (s.stage = .resolving → s.timer = !s.cancelled) := by
  cases h with
  | posted hn ho _ hc hr => exact ⟨ho, hr, fun _ => hc, fun he => by simp [hn] at he⟩
  | resolving hn ho ht hr => exact ⟨ho, hr, fun he => by simp [hn] at he, fun _ => ht⟩
  | underWay hn => rcases hn with hn | hn <;> simp [hn] at hg
  | stopped hn => rcases hn with hn | hn <;> simp [hn] at hg
  | running hn => simp [hn] at hg
  | ended hn => simp [hn] at hg

lemma Phase.pending (h : Phase s) (hg : s.stage = .connecting ∨ s.stage = .handshaking) :
    s.isOpen = true ∧ s.timer = true ∧ s.cancelled = false ∧ s.reports = [] ∨
      s.isOpen = false ∧ s.timer = false ∧ s.cancelled = true ∧ s.reports = [.handStop] := by
  cases h with
  | posted hn => simp [hn] at hg
  | resolving hn => simp [hn] at hg
  | underWay _ ho ht hc hr => exact .inl ⟨ho, ht, hc, hr⟩
  | stopped _ ho ht hc hr => exact .inr ⟨ho, ht, hc, hr⟩
  | running hn => simp [hn] at hg
  | ended hn => simp [hn] at hg

structure Quiet (s t : Client) : Prop where
  phase : Phase t
  stuck : Stuck t → Stuck s

lemma Phase.stop (h : Phase s) : Quiet s s.stop := by
  rw [Client.stop]
  by_cases ho : s.isOpen = false
  · rw [if_pos ho]
    exact ⟨h, id⟩
  rw [if_neg ho]
  refine ⟨?_, fun hs => absurd hs.2.2.1 (by simp [Client.report])⟩
  cases h with
  | posted _ hn => exact absurd hn ho
  | resolving _ hn => exact absurd hn ho
  | underWay hg _ ht _ hr => exact .stopped hg rfl rfl (by simp [ht]) (by simp [Client.report, hr])
  | stopped _ hn => exact absurd hn ho
  | running hg _ _ hr => exact .ended hg rfl rfl (.inr (.inr (by simp [Client.report, hr])))
  | ended _ hn => exact absurd hn ho

lemma Phase.fail (h : Phase s) (hg : s.stage = .connecting ∨ s.stage = .handshaking) :
    Quiet s s.fail := by
  rw [Client.fail, Client.stop]
  rcases h.pending hg with ⟨ho, ht, hc, hr⟩ | ⟨ho, ht, hc, hr⟩
  · rw [if_neg (by simp [ho])]
    refine ⟨.ended rfl rfl rfl (.inr (.inl (by simp [Client.finish, Client.report, hr]))), fun hs => ?_⟩
    exact absurd hs.2.2.1 (by simp [Client.finish, Client.report])
  · rw [if_pos ho]
    refine ⟨.ended rfl ho rfl (.inr (.inl hr)), fun hs => absurd hs.2.2.1 (by simp [Client.finish, hr])⟩

/-- Before the socket is open, nothing is reported by a failure. -/
lemma finish_early (ho : s.isOpen = false) (hr : s.reports = []) :
    s.fail = s.finish ∧ Phase s.finish ∧ (¬Stuck s.finish ↔ s.suspended = false) := by
  refine ⟨by rw [Client.fail, Client.stop, if_pos ho], .ended rfl ho rfl (.inl hr), ?_⟩
  rw [← Bool.not_eq_true, not_iff_not]
  exact ⟨fun h => h.2.2.2, fun h => ⟨rfl, rfl, hr, h⟩⟩

lemma Phase.connected (h : Phase s) (hg : s.stage = .connecting ∨ s.stage = .handshaking)
    (hc : s.cancelled = false) : Quiet s s.connected := by
  rcases h.pending hg with ⟨ho, ht, -, hr⟩ | ⟨-, -, hn, -⟩
  · exact ⟨.running rfl ho rfl (by simp [Client.connected, Client.finish, Client.report, hr]),
      fun hs => absurd hs.2.2.1 (by simp [Client.connected, Client.finish, Client.report])⟩
  · simp [hc] at hn

lemma Phase.wakeUp (h : Phase s) {queue : List Report} {entry suspended : Bool}
    (hs : suspended = true → s.suspended = true) :
    Quiet s { s with queue := queue, entry := entry, suspended := suspended } := by
  refine ⟨?_, fun ht => ⟨ht.1, ht.2.1, ht.2.2.1, hs ht.2.2.2⟩⟩
  cases h with
  | posted hg ho ht hc hr => exact .posted hg ho ht hc hr
  | resolving hg ho ht hr => exact .resolving hg ho ht hr
  | underWay hg ho ht hc hr => exact .underWay hg ho ht hc hr
  | stopped hg ho ht hc hr => exact .stopped hg ho ht hc hr
  | running hg ho ht hr => exact .running hg ho ht hr
  | ended hg ho ht hr => exact .ended hg ho ht hr

lemma Phase.handReport (h : Phase s) (r : Report) (queue : List Report) :
    Quiet s (TcpClient.handReport { s with queue := queue } r) := by
  cases r with
  | handStart =>
    rw [TcpClient.handReport]
    split_ifs
    · exact h.wakeUp (by simp)
    · exact h.wakeUp id
  | handStop =>
    rw [TcpClient.handReport]
    split_ifs
    · exact h.wakeUp (by simp)
    · exact h.wakeUp id

/-- Before the socket is open, the deadline only cancels `co_connect`; later it stops the client. -/
lemma Phase.deadline (h : Phase s) (htimer : s.timer = true) :
    Quiet s (Client.stop { s with timer := false, cancelled := true }) := by
  cases h with
  | posted _ _ ht => simp [htimer] at ht
  | resolving hg ho _ hr =>
    rw [Client.stop, if_pos ho]
    exact ⟨.resolving hg ho rfl hr, fun hs => absurd hs.1 (by simp [hg])⟩
  | underWay hg ho _ _ hr =>
    rw [Client.stop, if_neg (by simp [ho])]
    refine ⟨.stopped hg rfl rfl rfl (by simp [Client.report, hr]), fun hs => ?_⟩
    exact absurd hs.2.2.1 (by simp [Client.report])
  | stopped _ _ ht => simp [htimer] at ht
  | running _ _ ht => simp [htimer] at ht
  | ended _ _ ht => simp [htimer] at ht

lemma step_start {setup : Bool} (h : Phase s) (ht : operate kind s (.start setup) = some t) :
    Phase t ∧ (¬Stuck t ↔ ReachesOpen s (.start setup)) := by
  rw [operate] at ht
  split_ifs at ht with hg hsetup hk
  · obtain rfl := Option.some.inj ht
    obtain ⟨ho, hr, hc, -⟩ := h.early (.inl (not_not.mp hg))
    refine ⟨.resolving rfl ho (by simp [hc (not_not.mp hg)]) hr, iff_of_true ?_ fun _ => hsetup⟩
    exact fun hs => absurd hs.1 (by simp)
  · obtain rfl := Option.some.inj ht
    obtain ⟨ho, hr, -, -⟩ := h.early (.inl (not_not.mp hg))
    obtain ⟨hfail, hphase, hstuck⟩ := finish_early ho hr
    rw [hfail]
    refine ⟨hphase, hstuck.trans ?_⟩
    simp [ReachesOpen, hsetup]

lemma step_resolve {ok : Bool} (h : Phase s) (ht : operate kind s (.resolve ok) = some t) :
    Phase t ∧ (¬Stuck t ↔ ReachesOpen s (.resolve ok)) := by
  rw [operate] at ht
  split_ifs at ht with hg hok hc
  · obtain rfl := Option.some.inj ht
    obtain ⟨ho, hr, -, -⟩ := h.early (.inr (not_not.mp hg))
    obtain ⟨hfail, hphase, hstuck⟩ := finish_early ho hr
    rw [hfail]
    refine ⟨hphase, hstuck.trans ?_⟩
    simp [ReachesOpen, hok]
  · obtain rfl := Option.some.inj ht
    obtain ⟨ho, hr, -, -⟩ := h.early (.inr (not_not.mp hg))
    obtain ⟨-, hphase, hstuck⟩ := finish_early ho hr
    refine ⟨hphase, hstuck.trans ?_⟩
    simp [ReachesOpen, hc]
  · obtain rfl := Option.some.inj ht
    obtain ⟨ho, hr, -, htimer⟩ := h.early (.inr (not_not.mp hg))
    have hc' : s.cancelled = false := by simpa using hc
    have htimer' : s.timer = true := by rw [htimer (not_not.mp hg), hc']; rfl
    refine ⟨.underWay (.inl rfl) rfl htimer' hc' hr, iff_of_true ?_ fun _ => ⟨by simpa using hok, hc'⟩⟩
    exact fun hs => absurd hs.1 (by simp)

lemma quiet_step (h : Phase s) (ht : operate kind s a = some t) (hstart : ∀ setup, a ≠ .start setup)
    (hresolve : ∀ ok, a ≠ .resolve ok) : Quiet s t := by
  cases a with
  | start setup => exact absurd rfl (hstart setup)
  | resolve ok => exact absurd rfl (hresolve ok)
  | connect ok =>
    rw [operate] at ht
    split_ifs at ht with hg hok hc hk
    · obtain rfl := Option.some.inj ht
      exact h.fail (.inl (not_not.mp hg))
    · obtain rfl := Option.some.inj ht
      rcases h.pending (.inl (not_not.mp hg)) with ⟨ho, htimer, hc', hr⟩ | ⟨-, -, hn, -⟩
      · exact ⟨.underWay (.inr rfl) ho htimer hc' hr, fun hs => absurd hs.1 (by simp)⟩
      · exact absurd hn hc
    · obtain rfl := Option.some.inj ht
      exact h.connected (.inl (not_not.mp hg)) (by simpa using hc)
  | handshake ok =>
    rw [operate] at ht
    split_ifs at ht with hg hok hc
    · obtain rfl := Option.some.inj ht
      exact h.fail (.inr (not_not.mp hg))
    · obtain rfl := Option.some.inj ht
      exact h.connected (.inr (not_not.mp hg)) (by simpa using hc)
  | deadline =>
    rw [operate] at ht
    split_ifs at ht with htimer
    obtain rfl := Option.some.inj ht
    exact h.deadline htimer
  | systemClose =>
    rw [operate] at ht
    split_ifs at ht
    · obtain rfl := Option.some.inj ht
      exact h.stop
    · obtain rfl := Option.some.inj ht
      exact ⟨h, id⟩
  | close =>
    rw [operate] at ht
    split_ifs at ht
    · obtain rfl := Option.some.inj ht
      exact h.wakeUp (by simp)
    · obtain rfl := Option.some.inj ht
      exact ⟨h, id⟩
  | lost =>
    rw [operate] at ht
    split_ifs at ht
    obtain rfl := Option.some.inj ht
    exact h.stop
  | deliver =>
    rw [operate] at ht
    cases hq : s.queue with
    | nil => simp [hq] at ht
    | cons r queue =>
      rw [hq] at ht
      obtain rfl := Option.some.inj ht
      exact h.handReport r queue

lemma step_reported (h : Phase s) (ht : operate kind s a = some t) :
    Phase t ∧ (Reported s → (Reported t ↔ ReachesOpen s a)) := by
  cases a with
  | start setup =>
    obtain ⟨hphase, hstuck⟩ := step_start h ht
    exact ⟨hphase, fun _ => (reported_iff hphase).trans hstuck⟩
  | resolve ok =>
    obtain ⟨hphase, hstuck⟩ := step_resolve h ht
    exact ⟨hphase, fun _ => (reported_iff hphase).trans hstuck⟩
  | _ =>
    obtain ⟨hphase, hstuck⟩ := quiet_step h ht (by simp) (by simp)
    refine ⟨hphase, fun hr => iff_of_true ((reported_iff hphase).mpr fun hs => ?_) trivial⟩
    exact (reported_iff h).mp hr (hstuck hs)

lemma phase_initial : Phase (machine kind).initial := .posted rfl rfl rfl rfl rfl

/-- The coroutine is told what becomes of its attempt exactly when the socket is opened as long as it
waits. -/
theorem reported_iff_reachesOpen (kind : Kind) (as : List Action) :
    (machine kind).Always Reported (machine kind).initial as ↔
      (machine kind).Along ReachesOpen (machine kind).initial as := by
  refine Machine.always_iff_along (fun s a t h ht => (step_reported h ht).1)
    (fun s a t h hr ht => (step_reported h ht).2 hr) phase_initial ?_
  exact (reported_iff phase_initial).mpr fun hs => absurd hs.1 (by simp [machine])

/-- The name can not be resolved, and the coroutine waits for ever. -/
theorem unresolved_stuck : ¬(machine .tcp).Always Reported (machine .tcp).initial
    [.start true, .resolve false] := by
  intro h
  exact (h.last rfl).2 ⟨rfl, rfl, rfl, rfl⟩

end Simple.Net.TcpClient
