import Simple.Gobang.Gate
import Simple.Gobang.GateMaster

/-! One gate master and the gates. A link is a connection that a gate has opened: what was written
to one end waits there until the other end reads it, which may be never. The two ends notice
separately that it is broken. A gate may start again from nothing at any time. -/

namespace Simple.Gobang

open Simple.Lib

structure MasterLink where
  gate : UInt16
  accepted : Bool := false
  toMaster : List MasterRequest := []
  toGate : List MasterMessage := []

/-- `route` is the link behind a connection of the master. -/
structure System where
  master : GateMaster := {}
  gates : UInt16 → Gate
  links : List MasterLink := []
  route : UInt32 → ℕ := fun _ => 0

namespace System

def push (route : UInt32 → ℕ) (links : List MasterLink) (e : UInt32 × MasterMessage) : List MasterLink :=
  links.modify (route e.1) fun link => { link with toGate := link.toGate ++ [e.2] }

def setMaster (sys : System) (m : GateMaster) : System :=
  { sys with
    master := { m with sent := [] }
    links := m.sent.foldl (push sys.route) sys.links }

def setGate (sys : System) (k : UInt16) (g : Gate) : System :=
  { sys with
    gates := Function.update sys.gates k { g with outbox := [] }
    links :=
      match g.socket with
      | none => sys.links
      | some l => sys.links.modify l fun link =>
          { link with toMaster := link.toMaster ++ g.outbox } }

/-- The clock `now` is one that `create_session` can rely on. -/
def stepGate (sys : System) (k : UInt16) (now : ℕ) (a : Gate.Action) : Option System :=
  match (sys.gates k).step (now, a) with
  | none => none
  | some g => if g.rpc.Fits then some (sys.setGate k g) else none

inductive Action
  | restart (k : UInt16) (pid : ℕ) (addresses : List GateAddress)
  | gate (k : UInt16) (now : ℕ) (a : Gate.Action)
  | connect (k : UInt16) (now : ℕ)
  | deliver (k : UInt16) (now : ℕ)
  | accept (l : ℕ) (s : UInt32) (now : ℤ)
  | receive (s : UInt32) (now : ℤ)
  | stop (s : UInt32)

def step (sys : System) : Action → Option System
  | .restart k pid addresses =>
    some { sys with
      gates := Function.update sys.gates k { id := k, pid := pid, addresses := addresses } }
  | .gate k now a =>
    match a with
    | .connect _ => none
    | .recv _ => none
    | a => sys.stepGate k now a
  | .connect k now =>
    stepGate { sys with links := sys.links ++ [{ gate := k }] } k now (.connect sys.links.length)
  | .deliver k now =>
    match (sys.gates k).socket with
    | none => none
    | some l =>
      match (sys.links[l]?.map MasterLink.toGate).getD [] with
      | [] => none
      | msg :: rest =>
        stepGate { sys with links := sys.links.modify l fun link => { link with toGate := rest } }
          k now (.recv msg)
  | .accept l s now =>
    if (sys.links[l]?.map MasterLink.accepted).getD true then none
    else
      (sys.master.step (.accept s now)).map fun m =>
        setMaster { sys with
          links := sys.links.modify l fun link => { link with accepted := true }
          route := Function.update sys.route s l } m
  | .receive s now =>
    match (sys.links[sys.route s]?.map MasterLink.toMaster).getD [] with
    | [] => none
    | req :: rest =>
      (sys.master.step (.recv s now req)).map fun m =>
        setMaster { sys with
          links := sys.links.modify (sys.route s) fun link => { link with toMaster := rest } } m
  | .stop s => (sys.master.step (.stop s)).map sys.setMaster

def machine (pids : UInt16 → ℕ) (addresses : UInt16 → List GateAddress) :
    Machine System Action where
  initial := { gates := fun k => { id := k, pid := pids k, addresses := addresses k } }
  step := step

end System

end Simple.Gobang
