import Simple.Gobang.Messages
import Simple.Gobang.Rpc
import Simple.Lib.Machine
import Simple.Lib.Table

/-! A gate: its services, the connections of its machine and the one to the gate master. A pointer
to a service is its number in `objects`, where none is ever removed; a pointer to a local
connection is its number in `conns`. -/

namespace Simple.Gobang

open Simple.Lib

/-- A `local_service` or a `remote_service`; `written` is what was passed to `write`. -/
structure Service where
  id : UInt16
  tp : UInt16
  gate : UInt16
  online : Bool := false
  isLocal : Bool
  socket : UInt32 := 0
  channelSize : UInt32 := 0
  written : List (List UInt8) := []
deriving DecidableEq

def Service.toProto (s : Service) : ServiceInfo := ⟨s.id.toUInt32, s.tp.toUInt32, s.online⟩

structure LocalSocket where
  socket : UInt32
  service : Option ℕ := none
  subscribe : List UInt16 := []
deriving DecidableEq

inductive Upload
  | waiting (session : UInt64)
  | done (ec : Ec)
deriving DecidableEq

structure Registration where
  conn : ℕ
  session : UInt64
  req : RegisterRequest
  upload : Upload
deriving DecidableEq

/-- Where `master_connector::run` is. The first message of a connection is for
`recv_one_message`; when it is not the awaited ack, nobody reads until the time-out. -/
inductive Phase
  | idle
  | registering (session : UInt64)
  | registered (ec : Ec) (gates : List GateInfo)
  | deaf
  | running
deriving DecidableEq

structure Gate where
  id : UInt16
  pid : ℕ
  addresses : List GateAddress
  rpc : RpcSystem := {}
  socket : Option ℕ := none
  phase : Phase := .idle
  objects : List Service := []
  services : Table UInt16 ℕ := ∅
  serviceTypes : Table UInt16 (List ℕ) := ∅
  sendQueues : Table UInt16 (List (List UInt8)) := ∅
  remoteGates : Table UInt16 (List String) := ∅
  shm : Table String UInt32 := ∅
  conns : List LocalSocket := []
  subscribeInfos : Table UInt16 (List ℕ) := ∅
  registrations : List Registration := []
  outbox : List MasterRequest := []
  sent : List (UInt32 × LocalMessage) := []

namespace Gate

def modifyObject (g : Gate) (i : ℕ) (f : Service → Service) : Gate :=
  { g with objects := g.objects.modify i f }

def send (g : Gate) (s : UInt32) (msg : LocalMessage) : Gate :=
  { g with sent := g.sent ++ [(s, msg)] }

def write (i : ℕ) (g : Gate) (msg : List UInt8) : Gate :=
  g.modifyObject i fun s => { s with written := s.written ++ [msg] }

def emplaceService (g : Gate) (i : ℕ) (s : Service) : Gate :=
  let g := { g with
    services := if (g.services.get s.id).isSome then g.services else g.services.set s.id i
    serviceTypes := g.serviceTypes.set s.tp ((g.serviceTypes.get s.tp).getD [] ++ [i]) }
  match g.sendQueues.get s.id with
  | none => g
  | some queue =>
    let g := queue.foldl (write i) g
    { g with sendQueues := g.sendQueues.remove s.id }

def forward (g : Gate) (dest : UInt16) (msg : List UInt8) : Gate :=
  match g.services.get dest with
  | none =>
    { g with sendQueues := g.sendQueues.set dest ((g.sendQueues.get dest).getD [] ++ [msg]) }
  | some i => write i g msg

/-- `rpc_call` to the gate master, up to where it suspends -/
def rpcCall (g : Gate) (now : ℕ) (req : UInt64 → MasterRequest) : Gate × UInt64 :=
  let call := g.rpc.createSession g.pid now
  ({ g with rpc := call.1, outbox := g.outbox ++ [req call.2] }, call.2)

def upload (g : Gate) (now : ℕ) (info : ServiceInfo) : Gate × Upload :=
  match g.socket with
  | none => (g, .done .system)
  | some _ =>
    let call := g.rpcCall now fun session => .update session [info]
    (call.1, .waiting call.2)

def publish (g : Gate) (s : Service) : Gate :=
  match g.subscribeInfos.get s.tp with
  | none => g
  | some conns =>
    { g with sent := g.sent ++ conns.filterMap fun c =>
        g.conns[c]?.map fun ptr => (ptr.socket, .subscribeBrd [s.toProto]) }

/-- `service_info::update`, with both handlers of its event -/
def update (g : Gate) (now : ℕ) (i : ℕ) : Gate :=
  match g.objects[i]? with
  | none => g
  | some s =>
    let g := if s.gate ≠ g.id then g else (g.upload now s.toProto).1
    g.publish s

def addLocalService (g : Gate) (req : RegisterRequest) : Gate :=
  let i := g.objects.length
  let s : Service :=
    { id := req.info.id.toUInt16, tp := req.info.tp.toUInt16, gate := g.id, isLocal := true,
      channelSize := req.channelSize }
  let g := { g with
    objects := g.objects ++ [s]
    shm := req.shm.foldl
      (fun shm (info : ServiceShm) =>
        if (shm.get info.name).isSome then shm else shm.set info.name info.size)
      g.shm }
  g.emplaceService i s

def bind (g : Gate) (now : ℕ) (conn : ℕ) (session : UInt64) (i : ℕ) : Gate :=
  match g.conns[conn]? with
  | none => g
  | some ptr =>
    let g := { g with conns := g.conns.set conn { ptr with service := some i } }
    let g := g.modifyObject i fun s => { s with socket := ptr.socket, online := true }
    let g := g.update now i
    g.send ptr.socket (.registerAck session .success g.id.toUInt32)

def answer (g : Gate) (conn : ℕ) (session : UInt64) (ec : Ec) : Gate :=
  match g.conns[conn]? with
  | none => g
  | some ptr => g.send ptr.socket (.registerAck session ec g.id.toUInt32)

/-- `service_register`, up to where its coroutine suspends -/
def serviceRegister (g : Gate) (now : ℕ) (conn : ℕ) (session : UInt64) (req : RegisterRequest) :
    Gate :=
  match g.conns[conn]? with
  | none => g
  | some ptr =>
    let id := req.info.id.toUInt16
    if ptr.socket = 0 then g
    else if id = 0 then g.answer conn session .system
    else
      match ptr.service with
      | some i =>
        if g.objects[i]?.map Service.id = some id then g.answer conn session .success
        else g.answer conn session .system
      | none =>
        match g.services.get id with
        | none =>
          let up := g.upload now { req.info with online := false }
          { up.1 with registrations := up.1.registrations ++ [⟨conn, session, req, up.2⟩] }
        | some i =>
          if g.objects[i]?.map Service.isLocal = some true then g.bind now conn session i
          else g.answer conn session .system

def resume (g : Gate) (now : ℕ) (r : ℕ) (reg : Registration) (ec : Ec) : Gate :=
  let g := { g with registrations := g.registrations.eraseIdx r }
  if ec ≠ .success then g.answer reg.conn reg.session ec
  else (g.addLocalService reg.req).bind now reg.conn reg.session g.objects.length

def expire (g : Gate) (r : ℕ) (reg : Registration) : Gate :=
  let g := { g with registrations := g.registrations.eraseIdx r }
  g.answer reg.conn reg.session .timeout

def serviceSubscribe (g : Gate) (conn : ℕ) (session : UInt64) (tp : UInt16) : Gate :=
  match g.conns[conn]? with
  | none => g
  | some ptr =>
    if (ptr.service.bind fun i => g.objects[i]?.map Service.socket) ≠ some ptr.socket then
      g.send ptr.socket (.subscribeAck session .system [])
    else
      let conns := (g.subscribeInfos.get tp).getD []
      let types := (g.serviceTypes.get tp).getD []
      let g := { g with
        subscribeInfos := g.subscribeInfos.set tp (if conn ∈ conns then conns else conns ++ [conn])
        conns := g.conns.set conn { ptr with
          subscribe := if tp ∈ ptr.subscribe then ptr.subscribe else ptr.subscribe ++ [tp] } }
      g.send ptr.socket (.subscribeAck session .success
        (types.filterMap fun i => g.objects[i]?.map Service.toProto))

def swapRemove (l : List ℕ) (c : ℕ) : List ℕ :=
  match l.getLast? with
  | none => []
  | some last => if c ∈ l then (l.set (l.idxOf c) last).dropLast else l

/-- The end of `socket_start`, after the connection has failed or was closed. -/
def socketStop (g : Gate) (now : ℕ) (conn : ℕ) (ptr : LocalSocket) : Gate :=
  let g :=
    match ptr.service with
    | none => g
    | some i =>
      if g.objects[i]?.map Service.socket = some ptr.socket then
        (g.modifyObject i fun s => { s with socket := 0, online := false }).update now i
      else g
  { g with
    subscribeInfos := ptr.subscribe.foldl
      (fun infos tp => infos.modify tp fun conns => swapRemove conns conn) g.subscribeInfos
    conns := g.conns.set conn { ptr with service := none, socket := 0 } }

def remoteService (h : UInt16) (g : Gate) (info : ServiceInfo) : Gate × ℕ :=
  match g.services.get info.id.toUInt16 with
  | some i => (g, i)
  | none =>
    let i := g.objects.length
    let s : Service :=
      { id := info.id.toUInt16, tp := info.tp.toUInt16, gate := h, isLocal := false }
    ({ g with objects := g.objects ++ [s] }.emplaceService i s, i)

def addRemoteService (h : UInt16) (now : ℕ) (g : Gate) (info : ServiceInfo) : Gate :=
  let found := remoteService h g info
  (found.1.modifyObject found.2 fun s => { s with online := info.online }).update now found.2

def addRemoteGate (now : ℕ) (g : Gate) (info : GateInfo) : Gate :=
  let id := info.id.toUInt16
  let g := { g with
    remoteGates := g.remoteGates.set id (info.addresses.map fun a => a.host ++ "," ++ a.port) }
  info.services.foldl (addRemoteService id now) g

def localServices (g : Gate) : List ServiceInfo :=
  (g.objects.filter Service.isLocal).map Service.toProto

def connect (g : Gate) (now : ℕ) (link : ℕ) : Gate :=
  let g := { g with socket := some link }
  let call := g.rpcCall now fun session =>
    .register session ⟨g.id.toUInt32, g.localServices, g.addresses⟩
  { call.1 with phase := .registering call.2 }

def lose (g : Gate) : Gate := { g with socket := none, phase := .idle }

def wakeUpSession (g : Gate) (session : UInt64) (ec : Ec) : Gate :=
  { g with registrations := g.registrations.map fun r =>
      if r.upload = .waiting session then { r with upload := .done ec } else r }

def recvOneMessage (g : Gate) (session : UInt64) : MasterMessage → Gate
  | .registerAck session' ec gates =>
    if session' = session then { g with phase := .registered ec gates }
    else { g with phase := .deaf }
  | .updateAck session' ec => { g.wakeUpSession session' ec with phase := .deaf }
  | _ => { g with phase := .deaf }

def forwardMessage (g : Gate) (now : ℕ) : MasterMessage → Gate
  | .registerBrd gates => gates.foldl (addRemoteGate now) g
  | .updateAck session ec => if session = 0 then g else g.wakeUpSession session ec
  | _ => g

def registerToMaster (g : Gate) (now : ℕ) (ec : Ec) (gates : List GateInfo) : Gate :=
  if ec ≠ .success then g.lose
  else { gates.foldl (addRemoteGate now) g with phase := .running }

inductive Action
  | accept (s : UInt32)
  | register (conn : ℕ) (session : UInt64) (req : RegisterRequest)
  | subscribe (conn : ℕ) (session : UInt64) (tp : UInt16)
  | stop (conn : ℕ)
  | resume (r : ℕ)
  | expire (r : ℕ)
  | forward (dest : UInt16) (msg : List UInt8)
  | connect (link : ℕ)
  | recv (msg : MasterMessage)
  | registered
  | ping
  | lose

/-- A new local connection has a number that is not 0 and that no open one has. -/
def step (g : Gate) : ℕ × Action → Option Gate
  | (_, .accept s) =>
    if s = 0 ∨ s ∈ g.conns.map LocalSocket.socket then none
    else some { g with conns := g.conns ++ [{ socket := s }] }
  | (now, .register conn session req) => some (g.serviceRegister now conn session req)
  | (_, .subscribe conn session tp) => some (g.serviceSubscribe conn session tp)
  | (now, .stop conn) =>
    match g.conns[conn]? with
    | none => none
    | some ptr => if ptr.socket = 0 then none else some (g.socketStop now conn ptr)
  | (now, .resume r) =>
    match g.registrations[r]? with
    | none => none
    | some reg =>
      match reg.upload with
      | .waiting _ => none
      | .done ec => some (g.resume now r reg ec)
  | (_, .expire r) =>
    match g.registrations[r]? with
    | none => none
    | some reg => some (g.expire r reg)
  | (_, .forward dest msg) => some (g.forward dest msg)
  | (now, .connect link) => if g.socket = none then some (g.connect now link) else none
  | (now, .recv msg) =>
    match g.phase with
    | .registering session => some (g.recvOneMessage session msg)
    | .running => some (g.forwardMessage now msg)
    | _ => none
  | (now, .registered) =>
    match g.phase with
    | .registered ec gates => some (g.registerToMaster now ec gates)
    | _ => none
  | (now, .ping) => if g.phase = .running then some (g.rpcCall now .ping).1 else none
  | (_, .lose) => if g.socket = none then none else some g.lose

def machine (id : UInt16) (pid : ℕ) (addresses : List GateAddress) : Machine Gate (ℕ × Action) where
  initial := { id := id, pid := pid, addresses := addresses }
  step := step

end Gate

end Simple.Gobang
