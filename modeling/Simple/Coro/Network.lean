import Simple.Containers.MemoryBuffer
import Simple.Lib.Machine
import Simple.Lib.Search

/-! `network`, as one coroutine sees it that reads from one socket. -/

namespace Simple.Coro.Network

open Simple.Lib Simple.Lib.Search Simple.Containers

/-- The reads that a coroutine can ask for; the buffer given to `read_until` is empty. -/
inductive Call
  | read (size : ℕ)
  | readSize (size : ℕ)
  | readUntil (sep : List UInt8)

def Call.endEmpty : Call → Bool
  | .readUntil sep => sep.isEmpty
  | _ => false

inductive StopCode
  | eof
  | other (code : ℕ)
  deriving DecidableEq

inductive Outcome
  | bytes (xs : List UInt8)
  | eof
  | invalidAction
  | stopped (ec : StopCode)
  deriving DecidableEq

/-- A coroutine that waits in a read, with what `read_until` has moved to the caller so far. -/
structure Waiting where
  call : Call
  moved : List UInt8 := []

/-- `network_data`, and whether it is still in `sockets_`. -/
structure Socket where
  listed : Bool := true
  ec : Option StopCode := none
  buf : MemoryBuffer := {}
  handle : Option Waiting := none

def Waiting.turn (resumed : Bool) (w : Waiting) (buf : MemoryBuffer) :
    MemoryBuffer × (Waiting ⊕ List UInt8) :=
  match w.call with
  | .read size =>
    if buf.readable = 0 ∧ resumed = false then (buf, .inl w)
    else
      let len := min buf.readable size
      (buf.readBytes len, .inr (buf.contents.take len))
  | .readSize size =>
    if buf.readable < size then (buf, .inl w)
    else (buf.readBytes size, .inr (buf.contents.take size))
  | .readUntil sep =>
    match find sep buf.contents with
    | some pos =>
      let len := pos + sep.length
      (buf.readBytes len, .inr (w.moved ++ buf.contents.take len))
    | none =>
      if sep.length ≤ buf.readable then
        let len := buf.readable - sep.length + 1
        (buf.readBytes len, .inl { w with moved := w.moved ++ buf.contents.take len })
      else (buf, .inl w)

namespace Socket

def turn (s : Socket) (resumed : Bool) (w : Waiting) : Socket × Option Outcome :=
  match w.turn resumed s.buf with
  | (buf, .inl w) => ({ s with buf := buf, handle := some w }, none)
  | (buf, .inr xs) => ({ s with buf := buf, handle := none }, some (.bytes xs))

/-- `handle.resume()`: `network_awaiter::await_resume`, then the rest of the read. -/
def resume (s : Socket) (w : Waiting) : Socket × Option Outcome :=
  match s.ec with
  | none => s.turn true w
  | some .eof => ({ s with handle := none }, some .eof)
  -- the handle stays where it is, in an entry that nothing refers to any more
  | some ec => ({ s with handle := none }, some (.stopped ec))

def call (s : Socket) (c : Call) : Socket × Option Outcome :=
  if c.endEmpty then (s, some .invalidAction)
  else if s.listed then s.turn false { call := c }
  else (s, some .invalidAction)

def append (s : Socket) (fresh : ℕ → UInt8) (data : List UInt8) : Socket :=
  let buf := if s.buf.capacity / 4 ≤ s.buf.prependable then s.buf.shrink else s.buf
  { s with buf := buf.append fresh data }

def handRead (s : Socket) (fresh : ℕ → UInt8) (data : List UInt8) : Socket × Option Outcome :=
  if s.listed then
    match s.handle with
    | none => (s.append fresh data, none)
    | some w => (s.append fresh data).resume w
  else (s, none)

def handStop (s : Socket) (ec : StopCode) : Socket × Option Outcome :=
  if s.listed then
    let s := { s with listed := false, ec := some ec }
    match s.handle with
    | none => (s, none)
    | some w => s.resume w
  else (s, none)

def moved (s : Socket) : List UInt8 := s.handle.elim [] (·.moved)

def pending (s : Socket) : List UInt8 := s.moved ++ s.buf.contents

end Socket

inductive Action
  | handRead (fresh : ℕ → UInt8) (data : List UInt8)
  | handStop (ec : StopCode)
  | call (c : Call)

def operate (s : Socket) : Action → Option (Socket × Option Outcome)
  | .handRead fresh data => some (s.handRead fresh data)
  | .handStop ec => some (s.handStop ec)
  | .call c => if s.handle.isNone then some (s.call c) else none

def machine : Machine Socket Action where
  initial := {}
  step := fun s a => (operate s a).map (·.1)

def Action.answers (s : Socket) : Action → Option Call
  | .call c => some c
  | _ => s.handle.map (·.call)

def Action.data : Action → List UInt8
  | .handRead _ data => data
  | _ => []

structure Answer where
  call : Call
  outcome : Outcome
  left : List UInt8

/-- What was delivered while the socket was open, how much of it the coroutine has been
handed, and how its calls were answered. -/
structure Trace where
  delivered : List UInt8 := []
  handed : ℕ := 0
  answers : List Answer := []

def Outcome.handed (moved : List UInt8) : Outcome → ℕ
  | .bytes xs => xs.length
  | _ => moved.length

def Trace.next (h : Trace) (delivered moved : List UInt8) (c : Call) : Option Outcome → Trace
  | none => { h with delivered := delivered }
  | some o =>
    { delivered := delivered
      handed := h.handed + o.handed moved
      answers := h.answers ++ [⟨c, o, delivered.drop h.handed⟩] }

def Trace.record (s : Socket) (h : Trace) (a : Action) : Trace :=
  let delivered := if s.listed then h.delivered ++ a.data else h.delivered
  match operate s a, a.answers s with
  | some (_, o), some c => h.next delivered s.moved c o
  | _, _ => { h with delivered := delivered }

def history : Machine (Socket × Trace) Action := machine.withHistory {} Trace.record

namespace Call

def Exact : Call → Prop
  | .read _ => False
  | .readSize size => 0 < size
  | .readUntil sep => sep ≠ []

def cut : Call → List UInt8 → Option ℕ
  | .read _, _ => none
  | .readSize size, xs => if size ≤ xs.length then some size else none
  | .readUntil sep, xs => (find sep xs).map (· + sep.length)

variable {c : Call} {xs : List UInt8} {n : ℕ}

lemma cut_bounds (hc : c.Exact) (h : c.cut xs = some n) : 0 < n ∧ n ≤ xs.length := by
  cases c with
  | read size => cases hc
  | readSize size =>
    rw [cut] at h
    split_ifs at h with hle
    obtain rfl := Option.some.inj h
    exact ⟨hc, hle⟩
  | readUntil sep =>
    obtain ⟨m, hm, rfl⟩ := Option.map_eq_some_iff.mp h
    have hpos := List.length_pos_iff.mpr hc
    exact ⟨by omega, add_le_of_find hc hm⟩

lemma cut_append (hc : c.Exact) (h : c.cut xs = some n) (ys : List UInt8) :
    c.cut (xs ++ ys) = some n := by
  cases c with
  | read size => cases hc
  | readSize size =>
    rw [cut] at h ⊢
    split_ifs at h with hle
    rw [if_pos (by rw [List.length_append]; omega), h]
  | readUntil sep =>
    obtain ⟨m, hm, rfl⟩ := Option.map_eq_some_iff.mp h
    simp only [cut, find_append hc hm ys, Option.map_some]

end Call

def Waiting.Clear (w : Waiting) (contents : List UInt8) : Prop :=
  w.call.Exact ∧ w.call.cut (w.moved ++ contents) = none ∧
    (w.moved = [] ∨ ∃ sep, w.call = .readUntil sep ∧ sep.length ≤ contents.length + 1)

inductive Turned (c : Call) (xs : List UInt8) : MemoryBuffer × (Waiting ⊕ List UInt8) → Prop
  | done {buf : MemoryBuffer} {n : ℕ} : c.cut xs = some n → buf.contents = xs.drop n →
      Turned c xs (buf, .inr (xs.take n))
  | waits {buf : MemoryBuffer} {w : Waiting} : w.call = c → w.moved ++ buf.contents = xs →
      w.Clear buf.contents → Turned c xs (buf, .inl w)

lemma find_moved {sep moved old : List UInt8} (new : List UInt8) (hs : sep ≠ [])
    (h : moved = [] ∨ find sep (moved ++ old) = none ∧ sep.length ≤ old.length + 1) :
    find sep (moved ++ (old ++ new)) = (find sep (old ++ new)).map (moved.length + ·) := by
  rcases h with rfl | ⟨hnone, hlen⟩
  · simp
  · rw [← List.append_assoc, find_drop hs hnone (k := moved.length)]
    · rw [List.append_assoc, List.drop_left]
    · rw [List.length_append]
      omega

lemma Waiting.turn_spec {w : Waiting} {buf : MemoryBuffer} {old new : List UInt8} (resumed : Bool)
    (hc : w.call.Exact) (hold : w.moved = [] ∨ w.Clear old) (hbuf : buf.contents = old ++ new) :
    Turned w.call (w.moved ++ buf.contents) (w.turn resumed buf) := by
  obtain ⟨c, moved⟩ := w
  cases c with
  | read size => cases hc
  | readSize size =>
    obtain rfl : moved = [] := by
      rcases hold with h | ⟨-, -, h | ⟨sep, hsep, -⟩⟩
      · exact h
      · exact h
      · cases hsep
    by_cases hlt : buf.readable < size
    · simp only [turn, if_pos hlt]
      refine .waits rfl rfl ⟨hc, ?_, .inl rfl⟩
      simpa [Call.cut] using hlt
    · simp only [turn, if_neg hlt]
      refine .done (n := size) ?_ (buf.readBytes_contents size)
      simpa [Call.cut] using hlt
  | readUntil sep =>
    have hstart : moved = [] ∨ find sep (moved ++ old) = none ∧ sep.length ≤ old.length + 1 := by
      rcases hold with h | ⟨-, hnone, h | ⟨sep', hsep, hlen⟩⟩
      · exact .inl h
      · exact .inl h
      · cases hsep
        exact .inr ⟨by simpa [Call.cut] using hnone, hlen⟩
    have hfind := find_moved new hc hstart
    rw [← hbuf] at hfind
    have hread : buf.contents.length = buf.readable := MemoryBuffer.contents_length
    cases h : find sep buf.contents with
    | some pos =>
      simp only [turn, h]
      have htake : moved ++ buf.contents.take (pos + sep.length) =
          (moved ++ buf.contents).take (moved.length + pos + sep.length) := by
        rw [Nat.add_assoc, List.take_length_add_append]
      rw [htake]
      refine .done ?_ ?_
      · simp [Call.cut, hfind, h]
      · rw [MemoryBuffer.readBytes_contents, Nat.add_assoc, List.drop_length_add_append]
    | none =>
      have hcut : (Call.readUntil sep).cut (moved ++ buf.contents) = none := by
        simp [Call.cut, hfind, h]
      by_cases hle : sep.length ≤ buf.readable
      · simp only [turn, h, if_pos hle]
        have hmoved : moved ++ buf.contents.take (buf.readable - sep.length + 1) ++
            (buf.readBytes (buf.readable - sep.length + 1)).contents = moved ++ buf.contents := by
          rw [MemoryBuffer.readBytes_contents, List.append_assoc, List.take_append_drop]
        refine .waits rfl hmoved ⟨hc, ?_, .inr ⟨sep, rfl, ?_⟩⟩
        · rw [hmoved]
          exact hcut
        · rw [MemoryBuffer.readBytes_contents, List.length_drop]
          omega
      · simp only [turn, h, if_neg hle]
        refine .waits rfl rfl ⟨hc, hcut, hstart.imp_right fun hs => ⟨sep, rfl, ?_⟩⟩
        have hlen := congrArg List.length hbuf
        rw [List.length_append] at hlen
        omega

namespace Socket

variable {s t : Socket} {w : Waiting} {c : Call} {xs data : List UInt8} {fresh : ℕ → UInt8}

structure Good (s : Socket) : Prop where
  listed : s.listed = true
  ec : s.ec = none
  clear : ∀ w, s.handle = some w → w.Clear s.buf.contents

lemma good_initial : Good {} := ⟨rfl, rfl, by simp⟩

inductive Settled (c : Call) (xs : List UInt8) : Socket × Option Outcome → Prop
  | answered {s : Socket} {n : ℕ} : c.cut xs = some n → s.Good → s.handle = none →
      s.buf.contents = xs.drop n → Settled c xs (s, some (.bytes (xs.take n)))
  | waits {s : Socket} {w : Waiting} : s.Good → s.handle = some w → w.call = c →
      s.pending = xs → Settled c xs (s, none)

lemma turn_settled {resumed : Bool} (hl : s.listed = true) (he : s.ec = none)
    (h : Turned c xs (w.turn resumed s.buf)) : Settled c xs (s.turn resumed w) := by
  rw [turn]
  generalize w.turn resumed s.buf = r at h
  cases h with
  | done hn hbuf => exact .answered hn ⟨hl, he, by simp⟩ rfl hbuf
  | waits hw hbuf hclear =>
    refine .waits ⟨hl, he, ?_⟩ rfl hw hbuf
    rintro v ⟨⟩
    exact hclear

lemma append_contents : (s.append fresh data).buf.contents = s.buf.contents ++ data := by
  rw [append, MemoryBuffer.append_contents]
  split
  · rw [MemoryBuffer.shrink_contents]
  · rfl

lemma pending_append : (s.append fresh data).pending = s.pending ++ data := by
  rw [pending, append_contents, ← List.append_assoc]
  rfl

lemma Good.call (h : s.Good) (hc : c.Exact) : Settled c s.buf.contents (s.call c) := by
  have hturn : Turned c s.buf.contents (Waiting.turn false { call := c } s.buf) :=
    Waiting.turn_spec (w := { call := c }) false hc (.inl rfl) (List.append_nil _).symm
  have hend : c.endEmpty = false := by
    cases c with
    | read size => rfl
    | readSize size => rfl
    | readUntil sep => simpa [Call.endEmpty, Call.Exact] using hc
  have hcall : s.call c = s.turn false { call := c } := by
    rw [Socket.call, hend, h.listed, if_neg (by simp), if_pos rfl]
  rw [hcall]
  exact turn_settled h.listed h.ec hturn

lemma Good.append (h : s.Good) (hh : s.handle = none) : (s.append fresh data).Good :=
  ⟨h.listed, h.ec, fun w hw => absurd (hh.symm.trans hw) (by simp)⟩

lemma Good.handRead_idle (h : s.Good) (hh : s.handle = none) :
    s.handRead fresh data = (s.append fresh data, none) := by
  rw [handRead, if_pos h.listed, hh]

lemma Good.handRead (h : s.Good) (hw : s.handle = some w) :
    Settled w.call (s.pending ++ data) (s.handRead fresh data) := by
  have hclear := h.clear w hw
  have hresume : s.handRead fresh data = (s.append fresh data).turn true w := by
    rw [Socket.handRead, if_pos h.listed, hw]
    simp only [resume, Socket.append, h.ec]
  have hpending : s.pending ++ data = w.moved ++ (s.append fresh data).buf.contents := by
    rw [append_contents, pending, moved, hw, List.append_assoc]
    rfl
  rw [hresume, hpending]
  exact turn_settled h.listed h.ec (w.turn_spec true hclear.1 (.inr hclear) append_contents)

end Socket

end Simple.Coro.Network
