import Simple.Gobang.Agreement
import Simple.Gobang.GateTraffic
import Simple.Lib.RelayOrder

/-! The gates' connections with each other. A `remote_gate` writes what its services are given to
its socket, or keeps it in `send_queue_` while it has none; the `remote_listener` at the other end
hands it to its own gate. Pings are left out. -/

namespace Simple.Gobang

open Simple.Lib Simple.Lib.Bytes

/-- `sizeof(forward_part)` -/
def forwardPart : ℕ := 16

def forwardFrom (msg : List UInt8) : UInt16 := UInt16.ofNat (ofLe (msg.take 2))

def forwardTo (msg : List UInt8) : UInt16 := UInt16.ofNat (ofLe ((msg.drop 2).take 2))

/-- What the 24 bits of `net_header::len` count to -/
def netLenMax : ℕ := 2 ^ 24 - 1

/-- In `wires`, a node's `outgoing` is the `send_queue_` of its `remote_gate` and `current` its
`socket_`. On the lines of `garbled` a message has arrived that is longer than its header tells.
`entered` is what the services' channels have given to their gates, `delivered` what the gates have
written to `local_service`s, each with the gate and the id. -/
structure Mesh where
  sys : System
  wires : Wires UInt16 (List UInt8) := {}
  garbled : List ℕ := []
  entered : List (List UInt8) := []
  delivered : List (UInt16 × UInt16 × List UInt8) := []

namespace Mesh

/-- `remote_gate::send` -/
def send (k h : UInt16) (mesh : Mesh) (msg : List UInt8) : Mesh :=
  { mesh with wires := mesh.wires.post k h msg }

/-- `service_info::write` at gate `k` -/
def write (k : UInt16) (mesh : Mesh) (e : Key × List UInt8) : Mesh :=
  if e.1.isLocal then { mesh with delivered := mesh.delivered ++ [(k, e.1.id, e.2)] }
  else mesh.send k e.1.gate e.2

/-- A step of gate `k`, with everything that it has written. -/
def follow (mesh : Mesh) (k : UInt16) (sys : System) : Mesh :=
  (Traffic.handed (mesh.sys.gates k).traffic (sys.gates k).traffic).foldl (write k)
    { mesh with sys := sys }

/-- `gate::forward` -/
def forward (mesh : Mesh) (k : UInt16) (now : ℕ) (msg : List UInt8) : Option Mesh :=
  if msg.length < forwardPart then some mesh
  else (mesh.sys.stepGate k now (.forward (forwardTo msg) msg)).map (mesh.follow k)

inductive Action
  | system (a : System.Action)
  | arrive (k : UInt16) (now : ℕ) (i : ℕ) (msg : List UInt8)
  | connect (k h : UInt16)
  | lose (k h : UInt16)
  | cut (l n : ℕ)
  | read (l now : ℕ)
  | misread (l now : ℕ) (msg : List UInt8)

/-- `arrive` is a turn of `local_service::auto_read` of the service `i`. A connection that breaks still
delivers some of its first frames, and `lose` is when the gate that has opened it notices. `read` is
a turn of `remote_listener::socket_start`: a message whose header tells more than `msg_len_limit` ends
the connection. Behind a message that is longer than its header tells, `misread` takes whatever the
bytes are read as for the next one. -/
def step (mesh : Mesh) : Action → Option Mesh
  | .system a =>
    match mesh.sys.step a with
    | none => none
    | some sys =>
      match a with
      | .restart k _ _ => some { mesh with sys := sys, wires := mesh.wires.fail k }
      | .gate _ _ (.forward _ _) => none
      | .gate k _ _ => some (mesh.follow k sys)
      | .connect k _ => some (mesh.follow k sys)
      | .deliver k _ => some (mesh.follow k sys)
      | _ => some { mesh with sys := sys }
  | .arrive k now i msg =>
    if ((mesh.sys.gates k).objects[i]?.map Service.isLocal).getD false then
      if msg.length < forwardPart then some mesh
      else ({ mesh with entered := mesh.entered ++ [msg] }).forward k now msg
    else none
  | .connect k h =>
    if ((mesh.sys.gates k).remoteGates.get h).isSome ∧ mesh.wires.current k h = none then
      some { mesh with wires := mesh.wires.connect k h }
    else none
  | .lose k h => some { mesh with wires := mesh.wires.drop k h }
  | .cut l n => some { mesh with wires := mesh.wires.cut l n }
  | .read l now =>
    if l ∈ mesh.garbled then none
    else
      match mesh.wires.take l with
      | none => none
      | some (line, msg, wires) =>
        let len := msg.length % 2 ^ 24
        if msgLenLimit < len then some { mesh with wires := mesh.wires.cut l 0 }
        else
          ({ mesh with
            wires := wires
            garbled := if msg.length ≤ netLenMax then mesh.garbled else l :: mesh.garbled }).forward
              line.target now (msg.take len)
  | .misread l now msg =>
    if l ∈ mesh.garbled ∧ msg.length ≤ msgLenLimit then
      (mesh.wires.lines[l]?).bind fun line => mesh.forward line.target now msg
    else none

def machine (pids : UInt16 → ℕ) (addresses : UInt16 → List GateAddress) : Machine Mesh Action where
  initial := { sys := (System.machine pids addresses).initial }
  step := step

/-- No service gives its gate a message of more than `n` bytes. -/
def Sized (n : ℕ) : Action → Prop
  | .arrive _ _ _ msg => msg.length ≤ n
  | _ => True

instance (n : ℕ) : DecidablePred (Sized n)
  | .arrive _ _ _ msg => inferInstanceAs (Decidable (msg.length ≤ n))
  | .system _ | .connect _ _ | .lose _ _ | .cut _ _ | .read _ _ | .misread _ _ _ => .isTrue trivial

def relay (mesh : Mesh) : Relay UInt16 UInt16 (List UInt8) where
  owner := mesh.sys.master.owner
  known k := (mesh.sys.gates k).traffic.known
  parked k := (mesh.sys.gates k).traffic.parked
  wires := mesh.wires
  entered := mesh.entered
  delivered := mesh.delivered.map fun e => (e.1, e.2.2)

end Mesh

end Simple.Gobang
