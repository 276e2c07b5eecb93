import Simple.Gobang.GateServices

/-! A service that is connected to its gate, and its copy of the services it subscribes to. What
either end writes waits until the other end reads it. The loop that reads makes a broadcast's
changes at once; an ack only wakes the call that waits for it. -/

namespace Simple.Gobang

open Simple.Lib

inductive Reply
  | waiting (session : UInt64)
  | received (ec : Ec) (services : List ServiceInfo)
deriving DecidableEq

/-- A call of `subscribe`; `socket` is what `socket_` was at its start. -/
structure SubscribeCall where
  tp : UInt16
  socket : UInt32
  reply : Reply
deriving DecidableEq

def SubscribeCall.acked (call : SubscribeCall) : List ServiceInfo :=
  match call.reply with
  | .received .success services => services
  | _ => []

/-- `returned` are the types of the calls that have returned on a success. -/
structure GateConnector where
  pid : ℕ
  rpc : RpcSystem := {}
  socket : UInt32 := 0
  subscribes : Table UInt16 (List (UInt16 × Bool)) := ∅
  calls : List SubscribeCall := []
  returned : List UInt16 := []

namespace GateConnector

def stLogin : UInt16 := 3

def setOnline (id : UInt16) (online : Bool) : List (UInt16 × Bool) → List (UInt16 × Bool)
  | [] => [(id, online)]
  | s :: l => if s.1 = id then (s.1, online) :: l else s :: setOnline id online l

def updateSubscribe (subscribes : Table UInt16 (List (UInt16 × Bool))) (service : ServiceInfo) :
    Table UInt16 (List (UInt16 × Bool)) :=
  let tp := service.tp.toUInt16
  subscribes.set tp
    (setOnline service.id.toUInt16 service.online ((subscribes.get tp).getD []))

def findSubscribe (c : GateConnector) (tp : UInt16) : Option (List (UInt16 × Bool)) :=
  c.subscribes.get tp

/-- The loop of `subscribe` from its beginning to `call_gate`, with the request that it writes -/
def subscribe (c : GateConnector) (now : ℕ) (tp : UInt16) (socket : UInt32) :
    GateConnector × List (UInt64 × UInt16) :=
  if socket ≠ c.socket then (c, [])
  else
    let call := c.rpc.createSession c.pid now
    ({ c with rpc := call.1, calls := c.calls ++ [⟨tp, socket, .waiting call.2⟩] },
      [(call.2, stLogin)])

def wakeUpSession (c : GateConnector) (session : UInt64) (ec : Ec) (services : List ServiceInfo) :
    GateConnector :=
  { c with calls := c.calls.map fun call =>
      if call.reply = .waiting session then { call with reply := .received ec services }
      else call }

/-- One turn of the loop of `run` -/
def recv (c : GateConnector) : LocalMessage → GateConnector
  | .subscribeAck session ec services =>
    if session = 0 then c else c.wakeUpSession session ec services
  | .subscribeBrd services => { c with subscribes := services.foldl updateSubscribe c.subscribes }
  | .registerAck _ _ _ => c

def resume (c : GateConnector) (now : ℕ) (k : ℕ) (call : SubscribeCall) (ec : Ec)
    (services : List ServiceInfo) : GateConnector × List (UInt64 × UInt16) :=
  let c := { c with calls := c.calls.eraseIdx k }
  if ec ≠ .success then c.subscribe now call.tp call.socket
  else ({ c with
    subscribes := services.foldl updateSubscribe c.subscribes
    returned := c.returned ++ [call.tp] }, [])

/-- A call goes on after five seconds, and its ack, if it comes, is nobody's. -/
def timeout (c : GateConnector) (now : ℕ) (k : ℕ) (call : SubscribeCall) :
    GateConnector × List (UInt64 × UInt16) :=
  { c with calls := c.calls.eraseIdx k }.subscribe now call.tp call.socket

end GateConnector

/-- `conn` is the connection at the gate. -/
structure Subscription where
  gate : Gate
  connector : GateConnector
  conn : Option ℕ := none
  requests : List (UInt64 × UInt16) := []
  inbox : List LocalMessage := []

namespace Subscription

open GateConnector

def Open (s : Subscription) : Prop :=
  s.connector.socket ≠ 0 ∧
    (s.conn.bind fun c => s.gate.conns[c]?.map LocalSocket.socket) = some s.connector.socket

instance (s : Subscription) : Decidable s.Open := inferInstanceAs (Decidable (_ ∧ _))

def setGate (s : Subscription) (g : Gate) : Subscription :=
  { s with
    gate := g
    inbox := s.inbox ++ if s.Open then
      ((g.sent.drop s.gate.sent.length).filter fun m => m.1 = s.connector.socket).map Prod.snd
    else [] }

def setConnector (s : Subscription) (call : GateConnector × List (UInt64 × UInt16)) :
    Subscription :=
  { s with
    connector := call.1
    requests := s.requests ++ if call.1.socket = 0 then [] else call.2 }

inductive Action
  | gate (now : ℕ) (a : Gate.Action)
  | connect (socket : UInt32)
  | deliver
  | subscribe (now : ℕ) (tp : UInt16)
  | read
  | resume (now : ℕ) (k : ℕ)
  | timeout (now : ℕ) (k : ℕ)
  | lose

/-- What the gate does; the requests of this connection are delivered from `requests`. -/
def stepGate (s : Subscription) (now : ℕ) : Gate.Action → Option Subscription
  | .subscribe conn session tp =>
    if s.conn = some conn then none
    else (s.gate.step (now, .subscribe conn session tp)).map s.setGate
  | a => (s.gate.step (now, a)).map s.setGate

def step (s : Subscription) : Action → Option Subscription
  | .gate now a => s.stepGate now a
  | .connect socket =>
    if s.conn ≠ none then none
    else (s.gate.step (0, .accept socket)).map fun g => { s with
      gate := g
      connector := { s.connector with socket := socket }
      conn := some s.gate.conns.length }
  | .deliver =>
    match s.conn, s.requests with
    | some conn, (session, tp) :: rest =>
      if s.gate.conns[conn]?.map LocalSocket.socket = some 0 then none
      else some ({ s with requests := rest }.setGate (s.gate.serviceSubscribe conn session tp))
    | _, _ => none
  | .subscribe now tp => some (s.setConnector (s.connector.subscribe now tp s.connector.socket))
  | .read =>
    match s.inbox with
    | [] => none
    | msg :: rest => some { s with connector := s.connector.recv msg, inbox := rest }
  | .resume now k =>
    match s.connector.calls[k]? with
    | none => none
    | some call =>
      match call.reply with
      | .waiting _ => none
      | .received ec services =>
        some (s.setConnector (s.connector.resume now k call ec services))
  | .timeout now k =>
    match s.connector.calls[k]? with
    | none => none
    | some call => some (s.setConnector (s.connector.timeout now k call))
  | .lose =>
    if s.connector.socket = 0 then none
    else some { s with connector := { s.connector with socket := 0 }, inbox := [] }

/-- The service runs as the process `pid'`; `left` is what an earlier connection has told it. -/
def machine (id : UInt16) (pid : ℕ) (addresses : List GateAddress) (pid' : ℕ)
    (left : List ServiceInfo) : Machine Subscription Action where
  initial :=
    { gate := (Gate.machine id pid addresses).initial
      connector := { pid := pid', subscribes := left.foldl GateConnector.updateSubscribe ∅ } }
  step := step

def Settled (s : Subscription) : Prop :=
  s.Open ∧ s.inbox = [] ∧ ∀ call ∈ s.connector.calls, ∀ ec services, call.reply ≠ .received ec services

def Agrees (s : Subscription) (tp : UInt16) : Prop :=
  ∀ i ∈ (s.gate.serviceTypes.get tp).getD [], ∀ o, s.gate.objects[i]? = some o →
    ∀ online, (o.id, online) ∈ (s.connector.findSubscribe tp).getD [] ↔ online = o.online

def Covers (s : Subscription) (tp : UInt16) : Prop :=
  s.Agrees tp ∧ ∃ conn, s.conn = some conn ∧ conn ∈ (s.gate.subscribeInfos.get tp).getD []

def broadcast (s : Subscription) : List ServiceInfo :=
  match s.inbox.head? with
  | some (.subscribeBrd services) => services
  | _ => []

/-- No broadcast is read while an ack that says otherwise waits, and the gate lists no login service
twice. -/
def Steady (s : Subscription) : Action → Prop
  | .gate now a => s.gate.EntersOnce stLogin (now, a)
  | .read => ∀ info ∈ s.broadcast, ∀ call ∈ s.connector.calls, ∀ o ∈ call.acked,
      o.tp.toUInt16 = info.tp.toUInt16 → o.id.toUInt16 = info.id.toUInt16 → o.online = info.online
  | _ => True

instance (s : Subscription) : DecidablePred s.Steady
  | .gate now a => inferInstanceAs (Decidable (s.gate.EntersOnce stLogin (now, a)))
  | .read => inferInstanceAs (Decidable (∀ info ∈ s.broadcast, ∀ call ∈ s.connector.calls,
      ∀ o ∈ call.acked, o.tp.toUInt16 = info.tp.toUInt16 → o.id.toUInt16 = info.id.toUInt16 →
        o.online = info.online))
  | .connect _ | .deliver | .subscribe _ _ | .resume _ _ | .timeout _ _ | .lose => .isTrue trivial

end Subscription

end Simple.Gobang
