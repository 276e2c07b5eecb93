import Simple.Lib.Machine
import Simple.Lib.Table

/-! The proxy between clients and services, and what the login service answers it. -/

namespace Simple.Gobang

open Simple.Lib

namespace Proxy

def idPingReq : UInt16 := 1
def idLoginReq : UInt16 := 2
def idLoginAck : UInt16 := 4098
def idMatchAck : UInt16 := 4099
def idEnterRoomReq : UInt16 := 4
def idMoveReq : UInt16 := 5
def idMoveAck : UInt16 := 4101
def idMoveBrd : UInt16 := 12293
def msgS2cAck : UInt16 := 0x1000

structure LoginAck where
  success : Bool
  userid : Int32
  room : Int32
deriving DecidableEq

structure MatchAck where
  success : Bool
  room : Int32

structure MoveAck where
  success : Bool
  isOver : Bool

structure MoveBrd where
  isOver : Bool

structure KickClientReq where
  socket : UInt32
  userid : Int32

/-- `ParseFromArray` of the records that the proxy looks into. -/
structure Parsers where
  pingReq : List UInt8 → Option Int64
  loginAck : List UInt8 → Option LoginAck
  matchAck : List UInt8 → Option MatchAck
  moveAck : List UInt8 → Option MoveAck
  moveBrd : List UInt8 → Option MoveBrd
  kickClientReq : List UInt8 → Option KickClientReq

structure ClientMessage where
  id : UInt16
  session : UInt64
  payload : List UInt8
deriving DecidableEq

structure SocketData where
  socket : UInt32
  userid : Int32 := 0
  logic : UInt16 := 0
  room : UInt16 := 0
  waitLogin : Bool := false
  lastRecv : Int
  cache : List ClientMessage := []

structure ClientPart where
  id : UInt16
  logic : UInt16
  socket : UInt32
  userid : Int32
deriving DecidableEq

/-- An `id_s_client_forward_brd`, as it is given to `gate_connector::write`. -/
structure Forwarded where
  sender : UInt16
  dest : UInt16
  session : UInt64
  client : ClientPart
  payload : List UInt8
deriving DecidableEq

inductive Output
  | write (msg : Forwarded)
  | offline (dest : UInt16) (socket : UInt32) (userid : Int32)
  | kickAck (dest : UInt16) (session : UInt64) (success : Bool)
  | pingAck (socket : UInt32) (session : UInt64) (t1 t2 : Int64)
  | noMatch (socket : UInt32) (id : UInt16) (session : UInt64)
  | toClient (socket : UInt32) (id : UInt16) (session : UInt64) (payload : List UInt8)
  | close (socket : UInt32)
deriving DecidableEq

end Proxy

structure Proxy where
  id : UInt16
  sockets : Table UInt32 Proxy.SocketData := ∅
  outputs : List Proxy.Output := []

namespace Proxy

section Client

variable (id : UInt16) (s : SocketData) (m : ClientMessage)

def sendToService (dest : UInt16) : Output :=
  .write ⟨id, dest, m.session, ⟨m.id, 0, s.socket, s.userid⟩, m.payload⟩

/-- `login` is what `rand_subscribe` draws. -/
def clientRegisterMsg (login : UInt16) : SocketData × List Output :=
  if 0 < s.userid ∨ s.waitLogin then (s, [.close s.socket])
  else
    let s := { s with waitLogin := true }
    (s, [sendToService id s { m with id := idLoginReq } login])

def clientRoomMsg : SocketData × List Output :=
  if s.room = 0 then (s, [.noMatch s.socket (m.id &&& 0xfff ||| msgS2cAck) m.session])
  else (s, [sendToService id s m s.room])

def clientOtherMsg (P : Parsers) (millis : Int64) : SocketData × List Output :=
  if m.id = idPingReq ∧ (s.waitLogin ∨ s.userid ≤ 0) then
    match P.pingReq m.payload with
    | none => (s, [])
    | some t1 => (s, [.pingAck s.socket m.session t1 millis])
  else if s.waitLogin then ({ s with cache := s.cache ++ [m] }, [])
  else if s.userid ≤ 0 then (s, [])
  else (s, [sendToService id s m s.logic])

def forwardClient (P : Parsers) (millis : Int64) (login : UInt16) : SocketData × List Output :=
  if m.id = idLoginReq then clientRegisterMsg id s m login
  else if m.id = idEnterRoomReq ∨ m.id = idMoveReq then clientRoomMsg id s m
  else clientOtherMsg id s m P millis

end Client

section Forward

variable (id : UInt16) (P : Parsers) (s : SocketData) (strv : List UInt8)

def clientLoginAck (logic : UInt16) : SocketData × List Output :=
  match P.loginAck strv with
  | none => (s, [.close s.socket])
  | some ack =>
    if !ack.success then (s, [])
    else
      let s := { s with
        logic := logic
        waitLogin := false
        room := ack.room.toUInt32.toUInt16
        userid := ack.userid }
      ({ s with cache := [] }, s.cache.map fun m => sendToService id s m s.logic)

def clientMatchAck : SocketData :=
  match P.matchAck strv with
  | none => s
  | some ack => if !ack.success then s else { s with room := ack.room.toUInt32.toUInt16 }

def clientMoveAck : SocketData :=
  match P.moveAck strv with
  | none => s
  | some ack => if !ack.success then s else if ack.isOver then { s with room := 0 } else s

def clientMoveBrd : SocketData :=
  match P.moveBrd strv with
  | none => s
  | some brd => if brd.isOver then { s with room := 0 } else s

def onForward (part : ClientPart) : SocketData × List Output :=
  if part.id = idLoginAck then clientLoginAck id P s strv part.logic
  else if part.id = idMatchAck then (clientMatchAck P s strv, [])
  else if part.id = idMoveAck then (clientMoveAck P s strv, [])
  else if part.id = idMoveBrd then (clientMoveBrd P s strv, [])
  else (s, [])

end Forward

variable (p : Proxy) (P : Parsers)

/-- `part` is `none` if the message is shorter than a `client_part`. -/
def clientForwardBrd (session : UInt64) (part : Option ClientPart) (strv : List UInt8) : Proxy :=
  match part with
  | none => p
  | some part =>
    match p.sockets.get part.socket with
    | none => p
    | some s =>
      if s.userid ≠ part.userid then p
      else
        let after := onForward p.id P s strv part
        { p with
          sockets := p.sockets.set part.socket after.1
          outputs := p.outputs ++ after.2 ++ [.toClient part.socket part.id session strv] }

def kickClient (sender : UInt16) (session : UInt64) (strv : List UInt8) : Proxy :=
  match P.kickClientReq strv with
  | none => { p with outputs := p.outputs ++ [.kickAck sender session false] }
  | some req =>
    let found := (p.sockets.get req.socket).any fun s => s.userid = req.userid
    { p with outputs := p.outputs ++ (if found then [.close req.socket] else []) ++
        [.kickAck sender session true] }

def accept (socket : UInt32) (now : Int) : Proxy :=
  { p with sockets := p.sockets.set socket { socket := socket, lastRecv := now } }

/-- A message with data that `socket_start` has read. -/
def receive (socket : UInt32) (s : SocketData) (m : ClientMessage) (now : Int) (millis : Int64)
    (login : UInt16) : Proxy :=
  let after := forwardClient p.id { s with lastRecv := now } m P millis login
  { p with sockets := p.sockets.set socket after.1, outputs := p.outputs ++ after.2 }

/-- `socket_start` behind its loop. -/
def finish (socket : UInt32) (s : SocketData) : Proxy :=
  { p with
    sockets := p.sockets.remove socket
    outputs := p.outputs ++ if s.logic = 0 then [] else [.offline s.logic s.socket s.userid] }

def autoCloseSession : Int := 180

def socketCheck (socket : UInt32) (s : SocketData) (now : Int) : Proxy :=
  if autoCloseSession < now - s.lastRecv then { p with outputs := p.outputs ++ [.close socket] }
  else p

/-- The login service writes with userid 0, a `login_ack` whose success names a user, and only for a
connection that asked. -/
structure World where
  proxy : Proxy
  used : List UInt32 := []
  asked : List UInt32 := []

inductive Action
  | accept (socket : UInt32) (now : Int)
  | receive (socket : UInt32) (m : ClientMessage) (now : Int) (millis : Int64) (login : UInt16)
  | control (socket : UInt32) (now : Int)
  | loginAck (socket : UInt32) (session : UInt64) (logic : UInt16) (strv : List UInt8)
  | forwardBrd (session : UInt64) (part : Option ClientPart) (strv : List UInt8)
      (other : ∀ c ∈ part, c.id ≠ idLoginAck)
  | kick (sender : UInt16) (session : UInt64) (strv : List UInt8)
  | check (socket : UInt32) (now : Int)
  | finish (socket : UInt32)

namespace World

variable (P : Parsers)

def step (w : World) : Action → Option World
  | .accept socket now =>
    if socket ∈ w.used then none
    else some { w with proxy := w.proxy.accept socket now, used := socket :: w.used }
  | .receive socket m now millis login =>
    (w.proxy.sockets.get socket).map fun s =>
      { w with
        proxy := w.proxy.receive P socket s m now millis login
        asked := if m.id = idLoginReq then socket :: w.asked else w.asked }
  | .control socket now =>
    (w.proxy.sockets.get socket).map fun s =>
      { w with proxy := { w.proxy with sockets := w.proxy.sockets.set socket { s with lastRecv := now } } }
  | .loginAck socket session logic strv =>
    if socket ∈ w.asked ∧ ∀ ack ∈ P.loginAck strv, ack.success → 0 < ack.userid then
      some { w with proxy :=
        w.proxy.clientForwardBrd P session (some ⟨idLoginAck, logic, socket, 0⟩) strv }
    else none
  | .forwardBrd session part strv _ =>
    some { w with proxy := w.proxy.clientForwardBrd P session part strv }
  | .kick sender session strv => some { w with proxy := w.proxy.kickClient P sender session strv }
  | .check socket now =>
    (w.proxy.sockets.get socket).map fun s => { w with proxy := w.proxy.socketCheck socket s now }
  | .finish socket =>
    (w.proxy.sockets.get socket).map fun s => { w with proxy := w.proxy.finish socket s }

def machine (id : UInt16) : Machine World Action where
  initial := { proxy := { id := id } }
  step := step P

end World

end Proxy

end Simple.Gobang
