import Simple.Lib.Bytes
import Simple.Lib.Machine
import Simple.Lib.Table

/-! `kcp_server_impl` and its sessions, as the datagrams find them. All datagrams are received into
one array, which keeps what a shorter one leaves behind. -/

namespace Simple.Net.Kcp

open Simple.Lib Simple.Lib.Bytes

def opConnect : UInt8 := 1

def opConnectAck : UInt8 := 2

def opDisconnect : UInt8 := 3

def opHeartbeat : UInt8 := 4

def opHeartbeatAck : UInt8 := 5

def opData : UInt8 := 6

def magic : List UInt8 := [0x62, 0xf9, 0x8e]

def headSize : ℕ := 4

def udpMtu : ℕ := 470

def makeCtrl (code : UInt8) (conv : ℕ) : List UInt8 := magic ++ [code] ++ toBe 4 conv

/-- `data` after `async_receive_from`, and how many bytes it has got. -/
def received (data bytes : List UInt8) : List UInt8 × ℕ :=
  let len := min bytes.length udpMtu
  (bytes.take len ++ data.drop len, len)

/-- The functions of `ikcp.h` that are called; `recvAll` is `ikcp_recv` until there is no more. -/
structure Ikcp (K : Type) where
  create : ℕ → K
  conv : K → ℕ
  getconv : List UInt8 → ℕ
  input : K → List UInt8 → K × ℤ
  recvAll : K → K × List (List UInt8)

inductive Stopped
  | eof
  | checkFailed
  | protocolError
  deriving DecidableEq

inductive Output
  | writeTo (remote : ℕ) (bytes : List UInt8)
  | handAccept (id : ℕ)
  | handRead (id : ℕ) (bytes : List UInt8)
  | handStop (id : ℕ) (ec : Stopped)
  deriving DecidableEq

structure Session (K : Type) where
  remote : ℕ
  kcp : K
  forceUpdate : Bool := false
  lastRead : ℕ
  lastWrite : ℕ

namespace Session

variable {K : Type} (ikcp : Ikcp K)

def stop (s : Session K) (id : ℕ) (ec : Stopped) : Option (Session K) × List Output :=
  (none, [.writeTo s.remote (makeCtrl opDisconnect id), .handStop id ec])

/-- `data` is what is behind the head in the array, of which `len` bytes were received. -/
def handReadData (s : Session K) (id : ℕ) (data : List UInt8) (len : ℕ) :
    Option (Session K) × List Output :=
  if ikcp.getconv data ≠ ikcp.conv s.kcp then s.stop id .checkFailed
  else
    let (kcp, result) := ikcp.input s.kcp (data.take len)
    if result < 0 then s.stop id .protocolError
    else
      let (kcp, messages) := ikcp.recvAll kcp
      (some { s with kcp := kcp, forceUpdate := true }, messages.map (.handRead id))

def read (s : Session K) (id : ℕ) (data : List UInt8) (len now : ℕ) :
    Option (Session K) × List Output :=
  let code := data.getD 3 0
  if code = opDisconnect then s.stop id .eof
  else if code = opHeartbeat then
    (some { s with lastWrite := now, lastRead := now },
      [.writeTo s.remote (makeCtrl opHeartbeatAck id)])
  else if code = opHeartbeatAck then (some { s with lastRead := now }, [])
  else if code = opData then
    let (s, outputs) := handReadData ikcp s id (data.drop headSize) (len - headSize)
    (s.map fun s => { s with lastRead := now }, outputs)
  else (some s, [])

end Session

/-- A datagram, the socket id that is new at the time, and the time. -/
structure Datagram where
  bytes : List UInt8
  remote : ℕ
  newId : ℕ
  now : ℕ

abbrev Sessions (K : Type) := Table ℕ (Session K)

structure Server (K : Type) where
  data : List UInt8
  sessions : Sessions K

section Server

variable {K : Type} (ikcp : Ikcp K)

def handAccept (sessions : Sessions K) (d : Datagram) : Sessions K × List Output :=
  if d.newId = 0 then (sessions, [.writeTo d.remote (makeCtrl opDisconnect 0)])
  else
    (sessions.set d.newId
        { remote := d.remote, kcp := ikcp.create d.newId, lastRead := d.now, lastWrite := d.now },
      [.handAccept d.newId, .writeTo d.remote (makeCtrl opConnectAck d.newId)])

/-- The session that a datagram is for; only one without data must be long enough to say so. -/
def convOf (data : List UInt8) (len : ℕ) : Option ℕ :=
  if data.getD 3 0 = opData then some (ikcp.getconv (data.drop headSize))
  else if len < headSize + 4 then none
  else some (ofBe ((data.drop headSize).take 4))

def readSession (sessions : Sessions K) (data : List UInt8) (len now : ℕ) :
    Sessions K × List Output :=
  match convOf ikcp data len with
  | none => (sessions, [])
  | some conv =>
    match sessions.get conv with
    | none => (sessions, [])
    | some s =>
      match s.read ikcp conv data len now with
      | (none, outputs) => (sessions.remove conv, outputs)
      | (some s, outputs) => (sessions.set conv s, outputs)

def turn (sessions : Sessions K) (data : List UInt8) (len : ℕ) (d : Datagram) :
    Sessions K × List Output :=
  if len < headSize then (sessions, [])
  else if data.take 3 ≠ magic then (sessions, [])
  else if data.getD 3 0 = opConnect then handAccept ikcp sessions d
  else readSession ikcp sessions data len d.now

def effect (data : List UInt8) (sessions : Sessions K) (d : Datagram) : Sessions K × List Output :=
  turn ikcp sessions (received data d.bytes).1 (received data d.bytes).2 d

/-- A datagram comes in, or the sessions change in some other way. -/
inductive Action (K : Type)
  | datagram (d : Datagram)
  | other (f : Sessions K → Sessions K)

def operate (p : Server K) : Action K → Server K × List Output
  | .datagram d =>
    (⟨(received p.data d.bytes).1, (effect ikcp p.data p.sessions d).1⟩,
      (effect ikcp p.data p.sessions d).2)
  | .other f => (⟨p.data, f p.sessions⟩, [])

def machine (initial : Server K) : Machine (Server K) (Action K) where
  initial := initial
  step := fun p a => some (operate ikcp p a).1

end Server

variable {data bytes x y : List UInt8} {len : ℕ}

lemma received_length (h : data.length = udpMtu) : (received data bytes).1.length = udpMtu := by
  simp only [received, List.length_append, List.length_take, List.length_drop]
  omega

lemma received_take : (received data bytes).1.take (received data bytes).2 =
    bytes.take (received data bytes).2 := by
  have hlen : (bytes.take (min bytes.length udpMtu)).length = min bytes.length udpMtu := by
    rw [List.length_take]
    omega
  simp only [received, List.take_left' hlen]

lemma take_eq {n : ℕ} (h : x.take len = y.take len) (hle : n ≤ len) : x.take n = y.take n := by
  have hx := congrArg (List.take n) h
  rwa [List.take_take, List.take_take, Nat.min_eq_left hle] at hx

lemma take_drop_eq {m n : ℕ} (h : x.take len = y.take len) (hle : m + n ≤ len) :
    (x.drop m).take n = (y.drop m).take n := by
  rw [List.take_drop, List.take_drop, take_eq h hle]

lemma getD_eq {i : ℕ} (h : x.take len = y.take len) (hlt : i < len) : x.getD i 0 = y.getD i 0 := by
  have hi := congrArg (fun l : List UInt8 => l.getD i 0) h
  simpa [List.getD_eq_getElem?_getD, List.getElem?_take_of_lt hlt] using hi

lemma received_head (h : headSize + 4 ≤ (received data bytes).2) :
    headSize + 4 ≤ bytes.length ∧ (received data bytes).1.take headSize = bytes.take headSize := by
  have hle : headSize + 4 ≤ min bytes.length udpMtu := h
  refine ⟨by omega, ?_⟩
  exact take_eq received_take ((Nat.le_add_right _ _).trans h)

end Simple.Net.Kcp
