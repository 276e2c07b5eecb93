import Simple.Gobang.Mesh
import Simple.Gobang.RpcSessions

/-! Services that call each other through their gates: what `gate_connector` writes to its channel,
and what it does with what it reads there. -/

namespace Simple.Gobang

open Simple.Lib Simple.Lib.Bytes

def msgMask : UInt16 := 0xf000

def msgS2sReq : UInt16 := 0x4000

def msgS2sAck : UInt16 := 0x5000

def IsReq (id : UInt16) : Prop := id &&& msgMask = msgS2sReq

def IsAck (id : UInt16) : Prop := id &&& msgMask = msgS2sAck

instance : DecidablePred IsReq := fun _ => inferInstanceAs (Decidable (_ = _))

instance : DecidablePred IsAck := fun _ => inferInstanceAs (Decidable (_ = _))

def forwardId (msg : List UInt8) : UInt16 := UInt16.ofNat (ofLe ((msg.drop 4).take 2))

def forwardSession (msg : List UInt8) : UInt64 := UInt64.ofNat (ofLe ((msg.drop 8).take 8))

def initForwardBuffer (source dest id : UInt16) (session : UInt64) (body : List UInt8) : List UInt8 :=
  toLe 2 source.toNat ++ (toLe 2 dest.toNat ++ (toLe 2 id.toNat ++ (toLe 2 0 ++
    (toLe 8 session.toNat ++ body))))

section ForwardPart

variable {source dest id : UInt16} {session : UInt64} {body : List UInt8}

lemma take_toLe (w n : ℕ) (rest : List UInt8) : (toLe w n ++ rest).take w = toLe w n := by
  rw [List.take_append_of_le_length (by simp), List.take_of_length_le (by simp)]

lemma drop_toLe (w v n : ℕ) (rest : List UInt8) : (toLe w n ++ rest).drop (w + v) = rest.drop v := by
  rw [List.drop_append, toLe_length, List.drop_eq_nil_of_le (by simp), Nat.add_sub_cancel_left,
    List.nil_append]

lemma ofNat_ofLe16 (x : UInt16) : UInt16.ofNat (ofLe (toLe 2 x.toNat)) = x := by
  have hlt : x.toNat < 256 ^ 2 := x.toNat_lt
  rw [ofLe_toLe, Nat.mod_eq_of_lt hlt, UInt16.ofNat_toNat]

@[simp] lemma forwardFrom_initForwardBuffer :
    forwardFrom (initForwardBuffer source dest id session body) = source := by
  rw [forwardFrom, initForwardBuffer, take_toLe, ofNat_ofLe16]

@[simp] lemma forwardTo_initForwardBuffer :
    forwardTo (initForwardBuffer source dest id session body) = dest := by
  rw [forwardTo, initForwardBuffer, drop_toLe 2 0, List.drop_zero, take_toLe, ofNat_ofLe16]

@[simp] lemma forwardId_initForwardBuffer :
    forwardId (initForwardBuffer source dest id session body) = id := by
  rw [forwardId, initForwardBuffer, drop_toLe 2 2, drop_toLe 2 0, List.drop_zero, take_toLe,
    ofNat_ofLe16]

@[simp] lemma forwardSession_initForwardBuffer :
    forwardSession (initForwardBuffer source dest id session body) = session := by
  have hlt : session.toNat < 256 ^ 8 := session.toNat_lt
  rw [forwardSession, initForwardBuffer, drop_toLe 2 6, drop_toLe 2 4, drop_toLe 2 2, drop_toLe 2 0,
    List.drop_zero, take_toLe, ofLe_toLe, Nat.mod_eq_of_lt hlt, UInt64.ofNat_toNat]

lemma le_length_initForwardBuffer :
    forwardPart ≤ (initForwardBuffer source dest id session body).length := by
  simp only [initForwardBuffer, List.length_append, toLe_length, forwardPart]
  omega

end ForwardPart

/-- A service's `gate_connector`. `outbox` is `send_queue_` behind what the channel to the gate holds,
`asked` has the request of each call, `requests` is what `forward_` was given, `replies` what the
service has replied to it, and `answers` the calls that a message has woken. -/
structure Peer where
  calls : RpcSystem.Calls := {}
  asked : List (List UInt8) := []
  outbox : List (List UInt8) := []
  written : List (List UInt8) := []
  got : List (List UInt8) := []
  requests : List (List UInt8) := []
  replies : List (List UInt8 × List UInt8) := []
  answers : List (ℕ × List UInt8) := []
  cancelled : List ℕ := []

namespace Peer

def write (msg : List UInt8) (p : Peer) : Peer :=
  { p with outbox := p.outbox ++ [msg], written := p.written ++ [msg] }

/-- `call`. When `requested`, the token of the caller is cancelled already, and nothing waits. -/
def call (s dest id : UInt16) (pid now : ℕ) (body : List UInt8) (requested : Bool) (p : Peer) : Peer :=
  let session := (p.calls.system.createSession pid now).2
  let msg := initForwardBuffer s dest id session body
  let created := p.calls.createSession pid now
  { p.write msg with
    calls := if requested then created else created.insertSession session p.calls.sessions.length
    asked := p.asked ++ [msg]
    cancelled := if requested then p.cancelled ++ [p.calls.sessions.length] else p.cancelled }

/-- The token of the call `k` is cancelled. -/
def cancel (k : ℕ) (p : Peer) : Option Peer :=
  p.calls.sessions[k]?.map fun session =>
    { p with calls := p.calls.wakeUpSession session, cancelled := p.cancelled ++ [k] }

/-- A message to `forward_` -/
def handOver (msg : List UInt8) (p : Peer) : Peer :=
  { p with got := p.got ++ [msg], requests := p.requests ++ [msg] }

/-- A turn of `channel_read` -/
def receive (msg : List UInt8) (p : Peer) : Peer :=
  if IsAck (forwardId msg) ∧ forwardSession msg ≠ 0 then
    match p.calls.waitMap.get (forwardSession msg) with
    | some k => { p with
        calls := p.calls.wakeUpSession (forwardSession msg)
        got := p.got ++ [msg]
        answers := p.answers ++ [(k, msg)] }
    | none => p.handOver msg
  else p.handOver msg

/-- An answer to what `forward_` was given as its `n`th message -/
def reply (s : UInt16) (n : ℕ) (id : UInt16) (body : List UInt8) (p : Peer) : Option Peer :=
  p.requests[n]?.map fun req =>
    let msg := initForwardBuffer s (forwardFrom req) id (forwardSession req) body
    { p.write msg with replies := p.replies ++ [(req, msg)] }

end Peer

structure Exchange where
  mesh : Mesh
  peers : UInt16 → Peer := fun _ => {}

namespace Exchange

/-- What the gates have written to the channel of `s` -/
def inbox (e : Exchange) (s : UInt16) : List (List UInt8) :=
  (e.mesh.delivered.filter fun d => d.2.1 = s).map fun d => d.2.2

def setPeer (s : UInt16) (e : Exchange) (p : Peer) : Exchange :=
  { e with peers := Function.update e.peers s p }

inductive Action
  | mesh (a : Mesh.Action)
  | arrive (k : UInt16) (now i : ℕ)
  | receive (s : UInt16)
  | call (s dest id : UInt16) (now : ℕ) (body : List UInt8) (requested : Bool)
  | cancel (s : UInt16) (k : ℕ)
  | note (s dest id : UInt16) (session : UInt64) (body : List UInt8)
  | reply (s : UInt16) (n : ℕ) (id : UInt16) (body : List UInt8)

/-- `services` are the processes that the services run in. Gates may start anew, services go on. -/
def step (services : UInt16 → ℕ) (e : Exchange) : Action → Option Exchange
  | .mesh (.arrive _ _ _ _) => none
  | .mesh a => (e.mesh.step a).map fun mesh => { e with mesh := mesh }
  | .arrive k now i =>
    match (e.mesh.sys.gates k).objects[i]? with
    | none => none
    | some o =>
      match (e.peers o.id).outbox with
      | [] => none
      | msg :: rest => (e.mesh.step (.arrive k now i msg)).map fun mesh =>
          ({ e with mesh := mesh }).setPeer o.id { e.peers o.id with outbox := rest }
  | .receive s =>
    (e.inbox s)[(e.peers s).got.length]?.map fun msg => e.setPeer s ((e.peers s).receive msg)
  | .call s dest id now body requested =>
    some (e.setPeer s ((e.peers s).call s dest id (services s) now body requested))
  | .cancel s k => ((e.peers s).cancel k).map (e.setPeer s)
  | .note s dest id session body =>
    some (e.setPeer s ((e.peers s).write (initForwardBuffer s dest id session body)))
  | .reply s n id body => ((e.peers s).reply s n id body).map (e.setPeer s)

def machine (pids : UInt16 → ℕ) (addresses : UInt16 → List GateAddress) (services : UInt16 → ℕ) :
    Machine Exchange Action where
  initial := { mesh := (Mesh.machine pids addresses).initial }
  step := step services

/-- The ids of requests are those of calls, those of acks are those of the replies to them; and the
clock of a service is below 2 ^ 32 and moves on before a second has used up its sessions. -/
def Proper (e : Exchange) : Action → Prop
  | .call s _ id now _ _ => IsReq id ∧ ((e.peers s).calls.system.tick now).Fits ∧ 1 ≤ now
  | .note _ _ id _ _ => ¬IsReq id ∧ ¬IsAck id
  | .reply s n id _ => ¬IsReq id ∧
    (IsAck id → ∀ req ∈ (e.peers s).requests[n]?, IsReq (forwardId req))
  | _ => True

instance (e : Exchange) : DecidablePred e.Proper
  | .call s _ id now _ _ => inferInstanceAs
      (Decidable (IsReq id ∧ ((e.peers s).calls.system.tick now).Fits ∧ 1 ≤ now))
  | .note _ _ id _ _ => inferInstanceAs (Decidable (¬IsReq id ∧ ¬IsAck id))
  | .reply s n id _ => inferInstanceAs (Decidable (¬IsReq id ∧
      (IsAck id → ∀ req ∈ (e.peers s).requests[n]?, IsReq (forwardId req))))
  | .mesh _ | .arrive _ _ _ | .receive _ | .cancel _ _ => .isTrue trivial

end Exchange

end Simple.Gobang
