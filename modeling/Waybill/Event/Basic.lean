import Waybill.Word
import Waybill.Identifier
/-!
# Events

What a chain of the protocol reports: the dispatch of a message, an update of its home's root and
of a replica of that root, the processing of a message, and the sending and receiving of tokens by
the bridge. Each report carries the domain of the chain, block, time, transaction and gas.
-/

namespace Waybill

/-- The number with the given high and low halves. -/
def packHalves (high low : UInt32) : UInt64 := (high.toUInt64 <<< 32) ||| low.toUInt64

/-- The high half of a number. -/
def highHalf (v : UInt64) : UInt32 := (v >>> 32).toUInt32

/-- The low half of a number. -/
def lowHalf (v : UInt64) : UInt32 := v.toUInt32

/-- A message was dispatched to another domain. -/
structure Dispatch where
  messageHash : Digest
  leafIndex : Word
  /-- The destination domain in the high half, the nonce in the low half. -/
  destinationAndNonce : UInt64
  committedRoot : Digest
  message : Bytes
deriving DecidableEq

/-- A root was replaced, at its home or in a replica of it. -/
structure RootUpdate where
  /-- The domain whose root it is. -/
  homeDomain : UInt32
  oldRoot : Digest
  newRoot : Digest
  signature : Bytes
deriving DecidableEq

/-- A message was processed at its destination. -/
structure Processing where
  messageHash : Digest
  success : Bool
  returnData : Bytes
deriving DecidableEq

/-- The bridge took tokens to be sent. -/
structure Send where
  token : Identifier
  /-- Who sent the tokens. -/
  sender : Identifier
  toDomain : UInt32
  toId : Identifier
  amount : Word
  fastLiquidity : Bool
deriving DecidableEq

/-- The bridge paid tokens out. -/
structure Receipt where
  /-- The origin domain in the high half, the nonce in the low half. -/
  originAndNonce : UInt64
  token : Identifier
  recipient : Identifier
  liquidityProvider : Identifier
  amount : Word
deriving DecidableEq

namespace Event

/-- The kinds of events. -/
inductive Kind where
  | dispatch
  | homeUpdate
  | replicaUpdate
  | process
  | bridgeSend
  | bridgeReceive
deriving DecidableEq, Repr

/-- All kinds in their usual order. -/
def Kind.all : List Kind := [dispatch, homeUpdate, replicaUpdate, process, bridgeSend, bridgeReceive]

/-- The name of a kind. -/
def Kind.name : Kind → String
  | dispatch => "dispatch"
  | homeUpdate => "home_update"
  | replicaUpdate => "replica_update"
  | process => "process"
  | bridgeSend => "bridge_send"
  | bridgeReceive => "bridge_receive"

/-- What an event reports. -/
inductive Data where
  | dispatch (data : Dispatch)
  | homeUpdate (data : RootUpdate)
  | replicaUpdate (data : RootUpdate)
  | process (data : Processing)
  | bridgeSend (data : Send)
  | bridgeReceive (data : Receipt)
deriving DecidableEq

/-- The kind of a report. -/
def Data.kind : Data → Kind
  | dispatch _ => .dispatch
  | homeUpdate _ => .homeUpdate
  | replicaUpdate _ => .replicaUpdate
  | process _ => .process
  | bridgeSend _ => .bridgeSend
  | bridgeReceive _ => .bridgeReceive

end Event

/-- A report of a chain. -/
structure Event where
  /-- The domain of the chain that made the report. -/
  domain : UInt32
  block : UInt64
  /-- Seconds since the epoch. -/
  timestamp : UInt64
  tx : Digest
  gasUsed : Word
  data : Event.Data
deriving DecidableEq

/-- The kind of an event. -/
def Event.kind (e : Event) : Event.Kind := e.data.kind

namespace Dispatch

/-- The domain a message is sent to. -/
def destination (d : Dispatch) : UInt32 := highHalf d.destinationAndNonce

/-- The number of a message on its way to its destination. -/
def nonce (d : Dispatch) : UInt32 := lowHalf d.destinationAndNonce

end Dispatch

namespace Receipt

/-- The domain the tokens come from. -/
def origin (r : Receipt) : UInt32 := highHalf r.originAndNonce

/-- The number of the message that brought them. -/
def nonce (r : Receipt) : UInt32 := lowHalf r.originAndNonce

end Receipt

end Waybill
