import Simple.Gobang.Messages
import Simple.Lib.Machine
import Simple.Lib.Table

/-! The gate master: its three tables and what every event does to them. A pointer into a
table is the key it points at; no gate and no service is ever erased. -/

namespace Simple.Gobang

open Simple.Lib

structure ServiceData where
  id : UInt16
  tp : UInt16
  gate : UInt16
  online : Bool
deriving DecidableEq

structure GateData where
  id : UInt16
  socket : UInt32 := 0
  addresses : List GateAddress := []
  services : List UInt16 := []
deriving DecidableEq

structure SocketData where
  socket : UInt32
  data : Option UInt16 := none
  lastRecv : ℤ
deriving DecidableEq

structure GateMaster where
  gates : Table UInt16 GateData := ∅
  services : Table UInt16 ServiceData := ∅
  sockets : Table UInt32 SocketData := ∅
  sent : List (UInt32 × MasterMessage) := []

def ServiceData.info (s : ServiceData) : ServiceInfo := ⟨s.id.toUInt32, s.tp.toUInt32, s.online⟩

namespace GateMaster

def modifyGate (m : GateMaster) (g : UInt16) (f : GateData → GateData) : GateMaster :=
  { m with gates := m.gates.modify g f }

def send (m : GateMaster) (s : UInt32) (msg : MasterMessage) : GateMaster :=
  { m with sent := m.sent ++ [(s, msg)] }

def gateInfo (m : GateMaster) (gate : GateData) : GateInfo where
  id := gate.id.toUInt32
  services := gate.services.filterMap fun id => (m.services.get id).map ServiceData.info
  addresses := gate.addresses

def publish (m : GateMaster) (g : UInt16) : GateMaster :=
  match m.gates.get g with
  | none => m
  | some gate =>
    { m with
      sent := m.sent ++ m.gates.toList.filterMap fun (id, other) =>
        if other.socket = 0 ∨ id = g then none
        else some (other.socket, .registerBrd [m.gateInfo gate]) }

def gateDisconnect (m : GateMaster) (g : UInt16) : GateMaster :=
  match m.gates.get g with
  | none => m
  | some gate =>
    let m := m.modifyGate g fun gate => { gate with socket := 0 }
    let m := { m with
      services := gate.services.foldl
        (fun services id => services.modify id fun s => { s with online := false }) m.services }
    m.publish g

/-- The end of `socket_start`, after the connection has failed or was closed. -/
def socketStop (m : GateMaster) (s : UInt32) : GateMaster :=
  match m.sockets.get s with
  | none => m
  | some socket =>
    let m :=
      match socket.data with
      | none => m
      | some g =>
        if (m.gates.get g).map GateData.socket = some s then m.gateDisconnect g else m
    { m with sockets := m.sockets.remove s }

def checkServices (m : GateMaster) (services : List ServiceInfo) (g : UInt16) : Bool :=
  services.all fun s =>
    match m.services.get s.id.toUInt16 with
    | none => true
    | some data => data.gate == g

def addService (g : UInt16) (m : GateMaster) (s : ServiceInfo) : GateMaster :=
  let id := s.id.toUInt16
  match m.services.get id with
  | some data => { m with services := m.services.set id { data with online := s.online } }
  | none =>
    let m := { m with services := m.services.set id ⟨id, s.tp.toUInt16, g, s.online⟩ }
    m.modifyGate g fun gate => { gate with services := gate.services ++ [id] }

def addServices (m : GateMaster) (services : List ServiceInfo) (g : UInt16) : GateMaster :=
  services.foldl (addService g) m

def setData (m : GateMaster) (s : UInt32) (data : Option UInt16) : GateMaster :=
  { m with sockets := m.sockets.modify s fun socket => { socket with data := data } }

/-- `network.close` resumes the loop of the older connection, which finds its `data` null. -/
def kickOlder (m : GateMaster) (socket : SocketData) (g : UInt16) : GateMaster :=
  match m.gates.get g with
  | none => m
  | some gate =>
    if gate.socket ≠ socket.socket ∧ (m.sockets.get gate.socket).isSome then
      (m.setData gate.socket none).socketStop gate.socket
    else m

def emplaceGate (m : GateMaster) (g : UInt16) : GateMaster :=
  if (m.gates.get g).isSome then m else { m with gates := m.gates.set g { id := g } }

def others (m : GateMaster) (g : UInt16) : List GateInfo :=
  m.gates.toList.filterMap fun (id, other) => if id = g then none else some (m.gateInfo other)

def registered (m : GateMaster) (socket : SocketData) (session : UInt64) (info : GateInfo) :
    GateMaster :=
  let g := info.id.toUInt16
  let m := m.modifyGate g fun gate =>
    { gate with socket := socket.socket, addresses := info.addresses }
  let m := m.addServices info.services g
  let m := m.send socket.socket (.registerAck session .success (m.others g))
  m.publish g

def gateRegister (m : GateMaster) (socket : SocketData) (session : UInt64) (info : GateInfo) :
    GateMaster :=
  let id := info.id.toUInt16
  if !m.checkServices info.services id then
    m.send socket.socket (.registerAck session .system [])
  else
    match socket.data with
    | some g =>
      if g ≠ id then m.send socket.socket (.registerAck session .system [])
      else (m.kickOlder socket g).registered socket session info
    | none =>
      ((m.emplaceGate id).setData socket.socket (some id)).registered socket session info

def gateUpload (m : GateMaster) (socket : SocketData) (session : UInt64)
    (services : List ServiceInfo) : GateMaster :=
  match socket.data with
  | none => m.send socket.socket (.updateAck session .system)
  | some g =>
    if !m.checkServices services g then m.send socket.socket (.updateAck session .system)
    else
      let m := m.addServices services g
      let m := m.send socket.socket (.updateAck session .success)
      m.publish g

def forwardMessage (m : GateMaster) (socket : SocketData) : MasterRequest → GateMaster
  | .register session info => m.gateRegister socket session info
  | .update session services => m.gateUpload socket session services
  | .ping session => m.send socket.socket (.pingAck session)
  | .ignored => m

def touch (m : GateMaster) (s : UInt32) (now : ℤ) : GateMaster :=
  { m with sockets := m.sockets.modify s fun socket => { socket with lastRecv := now } }

inductive Action
  | accept (s : UInt32) (now : ℤ)
  | recv (s : UInt32) (now : ℤ) (req : MasterRequest)
  | stop (s : UInt32)

/-- A new connection has a number that is not 0 and that no open one has. -/
def step (m : GateMaster) : Action → Option GateMaster
  | .accept s now =>
    if s = 0 ∨ (m.sockets.get s).isSome then none
    else some { m with sockets := m.sockets.set s { socket := s, lastRecv := now } }
  | .recv s now req =>
    match (m.touch s now).sockets.get s with
    | none => none
    | some socket => some ((m.touch s now).forwardMessage socket req)
  | .stop s => if (m.sockets.get s).isSome then some (m.socketStop s) else none

def machine : Machine GateMaster Action where
  initial := {}
  step := step

end GateMaster

end Simple.Gobang
