import Mathlib.Tactic

/-! The protobuf records that gates and the gate master exchange. -/

namespace Simple.Gobang

inductive Ec
  | success
  | system
  | timeout
deriving DecidableEq

structure ServiceInfo where
  id : UInt32
  tp : UInt32
  online : Bool
deriving DecidableEq

structure GateAddress where
  host : String
  port : String
deriving DecidableEq

structure GateInfo where
  id : UInt32
  services : List ServiceInfo
  addresses : List GateAddress
deriving DecidableEq

inductive MasterMessage
  | registerAck (session : UInt64) (ec : Ec) (gates : List GateInfo)
  | registerBrd (gates : List GateInfo)
  | updateAck (session : UInt64) (ec : Ec)
  | pingAck (session : UInt64)
deriving DecidableEq

/-- A body that does not parse, or an id that `forward_message` does not know, is `ignored`. -/
inductive MasterRequest
  | register (session : UInt64) (info : GateInfo)
  | update (session : UInt64) (services : List ServiceInfo)
  | ping (session : UInt64)
  | ignored

structure ServiceShm where
  name : String
  size : UInt32
deriving DecidableEq

structure RegisterRequest where
  info : ServiceInfo
  channelSize : UInt32
  shm : List ServiceShm
deriving DecidableEq

inductive LocalMessage
  | registerAck (session : UInt64) (ec : Ec) (gate : UInt32)
  | subscribeAck (session : UInt64) (ec : Ec) (services : List ServiceInfo)
  | subscribeBrd (services : List ServiceInfo)
deriving DecidableEq

end Simple.Gobang
