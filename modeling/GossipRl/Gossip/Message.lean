import GossipRl.Support.NdArray

/-!
# Gossip messages (`gossip/message.py`)

`MessageHeader` has the fields of a membership message, `GossipMessage` adds those of a gradient
message; the source has one class for both. Numbers of gradients are taken in a field `K`, exactly.
-/

namespace GossipRl
open Support

inductive MessageType where
  | PING
  | PING_REQ
  | ACK
  | SUSPECT
  | ALIVE
  | DEAD
  | PUSH_GRADIENT
  | PULL_GRADIENT
  | PUSH_PULL_GRADIENT
  | AGGREGATE_REQUEST
  | AGGREGATE_RESPONSE
  | MODEL_SYNC
  | MODEL_REQUEST
  | MODEL_RESPONSE
deriving DecidableEq, Repr

structure MessageHeader where
  type : MessageType
  senderId : String
  sequence : Int
  targetId : Option String := none
  incarnation : Int := 0
deriving DecidableEq, Repr

structure GossipMessage (K : Type*) extends MessageHeader where
  gradientData : Option (NdArray K) := none
  indices : Option (List Int) := none
  modelVersion : Int := 0
  step : Int := 0

namespace MessageHeader

def createPing (senderId : String) (sequence : Int) (targetId : String) : MessageHeader where
  type := .PING
  senderId := senderId
  sequence := sequence
  targetId := targetId

def createAck (senderId : String) (sequence : Int) (targetId : String) : MessageHeader where
  type := .ACK
  senderId := senderId
  sequence := sequence
  targetId := targetId

end MessageHeader

namespace GossipMessage
variable {K : Type*}

def createPushGradient (senderId : String) (sequence : Int) (gradients : NdArray K)
    (modelVersion step : Int) (indices : Option (List Int)) : GossipMessage K where
  type := .PUSH_GRADIENT
  senderId := senderId
  sequence := sequence
  gradientData := gradients
  indices := indices
  modelVersion := modelVersion
  step := step

def createPushPullGradient (senderId : String) (sequence : Int) (gradients : NdArray K)
    (modelVersion step : Int) (indices : Option (List Int)) : GossipMessage K where
  type := .PUSH_PULL_GRADIENT
  senderId := senderId
  sequence := sequence
  gradientData := gradients
  indices := indices
  modelVersion := modelVersion
  step := step

end GossipMessage

end GossipRl
