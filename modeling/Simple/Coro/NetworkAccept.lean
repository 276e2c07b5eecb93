import Simple.Coro.Network

/-! `network`, as it hands out the sockets that a listener has accepted. -/

namespace Simple.Coro.NetworkAccept

open Simple.Lib
open Simple.Coro.Network (StopCode)

/-- What the token of a coroutine can do to it, and has done. -/
inductive Token
  | none
  | source
  | requested
  deriving DecidableEq

inductive Accepted
  | socket (id : ℕ)
  | zero
  | invalidAction
  | canceled
  | stopped (ec : StopCode)
  deriving DecidableEq

/-- `network_data` of a listener, whether it is still in `sockets_`, and whether the coroutine that
waits at it is on its way to be resumed. -/
structure Listener where
  listed : Bool := true
  ec : Option StopCode := none
  accepted : List ℕ := []
  handle : Option Token := none
  wakingUp : Bool := false

structure Effect where
  listener : Listener
  outcome : Option Accepted := none
  closed : List ℕ := []

namespace Listener

/-- The rest of `accept` once it does not wait any more. -/
def take (s : Listener) : Effect :=
  match s.accepted with
  | [] => { listener := s, outcome := some .zero }
  | id :: accepted => { listener := { s with accepted := accepted }, outcome := some (.socket id) }

/-- `handle.resume()`: `network_awaiter::await_resume`, then the rest of `accept`. -/
def resume (s : Listener) : Effect :=
  match s.ec with
  | some (.other code) =>
    { listener := { s with handle := none }, outcome := some (.stopped (.other code)) }
  | _ => take { s with handle := none }

def accept (s : Listener) (token : Token) : Effect :=
  if s.listed = false then { listener := s, outcome := some .invalidAction }
  else if s.accepted ≠ [] then s.take
  else if token = .requested then { listener := s, outcome := some .canceled }
  else if s.handle ≠ none then { listener := s, outcome := some .invalidAction }
  else { listener := { s with handle := some token } }

def handAccept (s : Listener) (id : ℕ) : Effect :=
  if s.listed = false then { listener := s, closed := [id] }
  else
    let s := { s with accepted := s.accepted ++ [id] }
    if s.handle = none then { listener := s } else s.resume

def handStop (s : Listener) (ec : StopCode) : Effect :=
  if s.listed = false then { listener := s }
  else
    let s := { s with listed := false, ec := some ec }
    if s.handle = none then { listener := s } else s.resume

end Listener

def initiativeDisconnect : StopCode := .other 0

inductive Action
  | accept (token : Token)
  | handAccept (id : ℕ)
  | handStop (ec : StopCode)
  | close
  | cancel
  | wakeUp
  deriving DecidableEq

/-- What a step does; a token is used while a coroutine waits with it, and the coroutine that it
takes away from the listener is resumed later on. -/
def effect (s : Listener) : Action → Option Effect
  | .accept token => some (s.accept token)
  | .handAccept id => some (s.handAccept id)
  | .handStop ec => some (s.handStop ec)
  | .close => some (s.handStop initiativeDisconnect)
  | .cancel =>
    if s.handle = some .source ∧ s.wakingUp = false then
      some { listener := { s with listed := false, wakingUp := true } }
    else none
  | .wakeUp =>
    if s.wakingUp then
      some { listener := { s with handle := none, wakingUp := false }, outcome := some .canceled }
    else none

structure Ledger where
  arrived : List ℕ := []
  returned : List ℕ := []
  closed : List ℕ := []

def Action.arrives : Action → List ℕ
  | .handAccept id => [id]
  | _ => []

def Accepted.returns : Option Accepted → List ℕ
  | some (.socket id) => [id]
  | _ => []

def Ledger.record (s : Listener) (h : Ledger) (a : Action) : Ledger :=
  match effect s a with
  | none => h
  | some e =>
    { arrived := h.arrived ++ a.arrives
      returned := h.returned ++ Accepted.returns e.outcome
      closed := h.closed ++ e.closed }

def machine : Machine (Listener × Ledger) Action :=
  Machine.withHistory ⟨{}, fun s a => (effect s a).map (·.listener)⟩ {} Ledger.record

/-- Sockets are returned in the order in which they arrived, and once the listener is gone
from `sockets_` the others are closed. -/
def Accounted (p : Listener × Ledger) : Prop :=
  p.2.returned <+: p.2.arrived ∧
    (p.1.listed = false → p.2.arrived = p.2.returned ++ p.2.closed)

def StopsEmpty (p : Listener × Ledger) (a : Action) : Prop :=
  (∃ ec, a = .handStop ec) ∨ a = .close → p.1.listed = true → p.1.accepted = []

variable {s t : Listener} {h : Ledger} {a : Action} {e : Effect} {id : ℕ} {p q : Listener × Ledger}

structure Inv (p : Listener × Ledger) : Prop where
  split : p.2.arrived = p.2.returned ++ (p.1.accepted ++ p.2.closed)
  listed : p.1.listed = true → p.1.ec = none ∧ p.2.closed = []
  waits : p.1.handle ≠ none → p.1.accepted = []

lemma accounted_iff (hi : Inv p) : Accounted p ↔ (p.1.listed = false → p.1.accepted = []) := by
  have hprefix : p.2.returned <+: p.2.arrived := by
    rw [hi.split]
    exact List.prefix_append _ _
  have hnil : p.2.arrived = p.2.returned ++ p.2.closed ↔ p.1.accepted = [] := by
    rw [hi.split, List.append_cancel_left_eq, List.append_left_eq_self]
  rw [Accounted, hnil]
  exact and_iff_right hprefix

def Ledger.add (h : Ledger) (arrives : List ℕ) (e : Effect) : Ledger where
  arrived := h.arrived ++ arrives
  returned := h.returned ++ Accepted.returns e.outcome
  closed := h.closed ++ e.closed

lemma step_cases (ht : machine.step p a = some q) :
    ∃ e, effect p.1 a = some e ∧ q = (e.listener, p.2.add a.arrives e) := by
  obtain ⟨hstep, hrecord⟩ := Machine.step_withHistory.mp ht
  obtain ⟨e, he, hlistener⟩ := Option.map_eq_some_iff.mp hstep
  refine ⟨e, he, Prod.ext hlistener.symm ?_⟩
  rw [hrecord, Ledger.record, he]
  rfl

structure Keeps (p : Listener × Ledger) (arrives : List ℕ) (e : Effect) : Prop where
  inv : Inv (e.listener, p.2.add arrives e)
  gone : (p.1.listed = false → p.1.accepted = []) → e.listener.listed = false →
    e.listener.accepted = []

lemma Inv.same (hi : Inv p) {o : Option Accepted} (ho : Accepted.returns o = []) :
    Keeps p [] { listener := p.1, outcome := o } := by
  refine ⟨⟨?_, ?_, hi.waits⟩, fun hg => hg⟩
  · simpa [Ledger.add, ho] using hi.split
  · simpa [Ledger.add] using hi.listed

lemma Inv.take (hi : Inv p) (hn : p.1.handle = none) : Keeps p [] p.1.take := by
  obtain ⟨s, h⟩ := p
  rw [Listener.take]
  cases hq : s.accepted with
  | nil => exact hi.same rfl
  | cons id accepted =>
    have hsplit := hi.split
    simp only [hq] at hsplit
    refine ⟨⟨?_, ?_, fun hne => absurd hn hne⟩, fun hg hl => ?_⟩
    · simpa [Ledger.add, Accepted.returns] using hsplit
    · simpa [Ledger.add] using hi.listed
    · have hnil := hg hl
      simp only [hq] at hnil
      cases hnil

lemma Inv.accept (hi : Inv p) (token : Token) : Keeps p [] (p.1.accept token) := by
  rw [Listener.accept]
  split_ifs with hl hq hr hh
  · exact hi.same rfl
  · exact hi.take (not_not.mp fun hh => hq (hi.waits hh))
  · exact hi.same rfl
  · exact hi.same rfl
  · have hnil : p.1.accepted = [] := not_not.mp hq
    refine ⟨⟨?_, ?_, fun _ => hnil⟩, fun _ _ => hnil⟩
    · simpa [Ledger.add, Accepted.returns] using hi.split
    · simpa [Ledger.add] using hi.listed

lemma Inv.handAccept (hi : Inv p) (id : ℕ) : Keeps p [id] (p.1.handAccept id) := by
  obtain ⟨s, h⟩ := p
  rw [Listener.handAccept]
  have hsplit : h.arrived = h.returned ++ (s.accepted ++ h.closed) := hi.split
  by_cases hl : s.listed = false
  · rw [if_pos hl]
    refine ⟨⟨?_, fun ht => absurd (hl.symm.trans ht) (by simp), hi.waits⟩, fun hg => hg⟩
    simp [Ledger.add, Accepted.returns, hsplit]
  · obtain ⟨hec, hclosed⟩ := hi.listed (Bool.eq_true_of_not_eq_false hl)
    simp only at hec hclosed
    rw [if_neg hl]
    by_cases hh : s.handle = none
    · simp only [if_pos hh]
      refine ⟨⟨?_, fun _ => ⟨hec, ?_⟩, fun hne => absurd hh hne⟩, fun _ ht => absurd ht hl⟩
      · simp [Ledger.add, Accepted.returns, hsplit, hclosed]
      · simp [Ledger.add, hclosed]
    · have hnil : s.accepted = [] := hi.waits hh
      simp only [if_neg hh, Listener.resume, hec, Listener.take, hnil, List.nil_append]
      refine ⟨⟨?_, fun _ => ⟨rfl, ?_⟩, fun hne => absurd rfl hne⟩, fun _ _ => rfl⟩
      · simp [Ledger.add, Accepted.returns, hsplit, hclosed, hnil]
      · simp [Ledger.add, hclosed]

lemma Inv.handStop (hi : Inv p) (ec : StopCode) :
    Inv ((p.1.handStop ec).listener, p.2.add [] (p.1.handStop ec)) ∧
      (p.1.handStop ec).listener.listed = false ∧
      (p.1.handStop ec).listener.accepted = p.1.accepted := by
  obtain ⟨s, h⟩ := p
  rw [Listener.handStop]
  have hsplit := hi.split
  by_cases hl : s.listed = false
  · rw [if_pos hl]
    exact ⟨(hi.same rfl).inv, hl, rfl⟩
  · rw [if_neg hl]
    by_cases hh : s.handle = none
    · simp only [if_pos hh]
      refine ⟨⟨?_, fun ht => absurd ht (by simp), hi.waits⟩, trivial, trivial⟩
      simpa [Ledger.add, Accepted.returns] using hsplit
    · have hnil : s.accepted = [] := hi.waits hh
      simp only [if_neg hh]
      cases ec with
      | eof =>
        simp only [Listener.resume, Listener.take, hnil]
        refine ⟨⟨?_, fun ht => absurd ht (by simp), fun hne => absurd rfl hne⟩, trivial, trivial⟩
        simpa [Ledger.add, Accepted.returns, hnil] using hsplit
      | other code =>
        refine ⟨⟨?_, fun ht => absurd ht (by simp [Listener.resume]), fun hne => absurd rfl hne⟩,
          rfl, rfl⟩
        simpa [Ledger.add, Accepted.returns, Listener.resume] using hsplit

lemma inv_initial : Inv machine.initial := ⟨rfl, fun _ => ⟨rfl, rfl⟩, fun _ => rfl⟩

lemma step_accounted (hi : Inv p) (ht : machine.step p a = some q) :
    Inv q ∧ (Accounted p → (Accounted q ↔ StopsEmpty p a)) := by
  obtain ⟨e, he, rfl⟩ := step_cases ht
  have hkeeps : ∀ {arrives : List ℕ}, Keeps p arrives e → ¬((∃ ec, a = .handStop ec) ∨ a = .close) →
      Inv (e.listener, p.2.add arrives e) ∧
        (Accounted p → (Accounted (e.listener, p.2.add arrives e) ↔ StopsEmpty p a)) := by
    intro arrives hk hno
    refine ⟨hk.inv, fun hp => iff_of_true ?_ fun h => absurd h hno⟩
    exact (accounted_iff hk.inv).mpr (hk.gone ((accounted_iff hi).mp hp))
  have hstop : ∀ ec, e = p.1.handStop ec → ((∃ ec, a = .handStop ec) ∨ a = .close) →
      Inv (e.listener, p.2.add [] e) ∧
        (Accounted p → (Accounted (e.listener, p.2.add [] e) ↔ StopsEmpty p a)) := by
    rintro ec rfl hyes
    obtain ⟨hinv, hlisted, hqueue⟩ := hi.handStop ec
    refine ⟨hinv, fun hp => ?_⟩
    rw [accounted_iff hinv, StopsEmpty]
    simp only [hlisted, hqueue, hyes, true_implies]
    constructor
    · exact fun hnil _ => hnil
    · intro hnil
      cases hl : p.1.listed with
      | true => exact hnil hl
      | false => exact (accounted_iff hi).mp hp hl
  cases a with
  | accept token =>
    obtain rfl := Option.some.inj he
    exact hkeeps (hi.accept token) (by simp)
  | handAccept id =>
    obtain rfl := Option.some.inj he
    exact hkeeps (hi.handAccept id) (by simp)
  | handStop ec =>
    obtain rfl := Option.some.inj he
    exact hstop ec rfl (.inl ⟨ec, rfl⟩)
  | close =>
    obtain rfl := Option.some.inj he
    exact hstop initiativeDisconnect rfl (.inr rfl)
  | cancel =>
    rw [effect] at he
    split_ifs at he with hc
    obtain rfl := Option.some.inj he
    have hnil : p.1.accepted = [] := hi.waits (by rw [hc.1]; simp)
    refine hkeeps ⟨⟨?_, fun ht => absurd ht (by simp), hi.waits⟩, fun _ _ => hnil⟩ (by simp)
    simpa [Ledger.add, Accepted.returns, Action.arrives] using hi.split
  | wakeUp =>
    rw [effect] at he
    split_ifs at he with hc
    obtain rfl := Option.some.inj he
    refine hkeeps ⟨⟨?_, ?_, fun hne => absurd rfl hne⟩, fun hg => hg⟩ (by simp)
    · simpa [Ledger.add, Accepted.returns, Action.arrives] using hi.split
    · simpa [Ledger.add] using hi.listed

/-- No socket is lost in a run exactly when no stop finds one in the queue. -/
theorem accounted_iff_stopsEmpty (as : List Action) :
    machine.Always Accounted machine.initial as ↔ machine.Along StopsEmpty machine.initial as := by
  refine Machine.always_iff_along (fun s a t hi ht => (step_accounted hi ht).1)
    (fun s a t hi hp ht => (step_accounted hi ht).2 hp) inv_initial ?_
  exact (accounted_iff inv_initial).mpr fun _ => rfl

/-- Two connections come in, one is accepted, and the listener is closed. -/
theorem queued_orphaned : ¬machine.Always Accounted machine.initial
    [.handAccept 7, .handAccept 8, .accept .none, .close] := by
  intro h
  have hlast := h.last (t := ⟨⟨false, some initiativeDisconnect, [8], none, false⟩, [7, 8], [7], []⟩) rfl
  exact absurd (hlast.2 rfl) (by decide)

end Simple.Coro.NetworkAccept
