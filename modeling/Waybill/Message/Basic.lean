import Waybill.Event.Basic
import Waybill.Message.State
import Waybill.Message.ByState
import Waybill.Message.Payload
/-!
# Messages

A message is known by what its dispatch fixed. Beside that it has a state, and for each kind of
event that concerns it a mark whether one was seen, the time and the gas of it. The marks do not
depend on the state: an event that comes late is noted although the state is already further on.
-/

namespace Waybill

namespace Message

/-- What the dispatch of a message fixes. -/
structure Identity where
  origin : UInt32
  destination : UInt32
  nonce : UInt32
  root : Digest
  hash : Digest
  leafIndex : Word
  body : Bytes
  dispatchBlock : UInt64
deriving DecidableEq

/-- Which events were seen, whatever the state. -/
structure Seen where
  sent : Bool
  updated : Bool
  relayed : Bool
  received : Bool
  processed : Bool
deriving DecidableEq

/-- No event was seen. -/
def Seen.none : Seen := ⟨false, false, false, false, false⟩

end Message

/-- A message on its way. -/
structure Message where
  identity : Message.Identity
  /-- The account that sent it, from the envelope. -/
  internalSender : Identifier
  /-- The account it is for, from the envelope. -/
  internalRecipient : Identifier
  payload : Payload
  state : State
  /-- The times of the events, zero until one is seen. -/
  times : ByState UInt64
  /-- The gas of the events, zero until one is seen. -/
  gas : ByState Word
  seen : Message.Seen
  /-- Who sent the tokens of a transfer. -/
  sender : Option Identifier
  /-- The transaction of the dispatch, or of the sending of the tokens once that is seen. -/
  tx : Option Digest
deriving DecidableEq

namespace Message

/-- The hash of a message. -/
def hash (m : Message) : Digest := m.identity.hash

/-- The transfer a message carries, if it does. -/
def transfer? (m : Message) : Option Transfer := m.payload.transfer?

/-- Whether a message carries a transfer. -/
def isTransfer (m : Message) : Bool := m.transfer?.isSome

/-- Whether a message carries a transfer that may be paid out early. -/
def allowFast (m : Message) : Bool :=
  match m.transfer? with
  | some t => t.allowFast
  | none => false

/-- The sender, the recipient and the payload that a body shows. A body that is no envelope shows
nothing. -/
def unpack (net : Network) (origin : UInt32) (body : Bytes) : Identifier × Identifier × Payload :=
  match Envelope.decode body with
  | .ok e => (e.sender, e.recipient, Payload.classify net origin e.sender e.body)
  | .error _ => (Identifier.zero, Identifier.zero, .empty)

/-- A message that was just dispatched. -/
def new (net : Network) (identity : Identity) (dispatchedAt : UInt64) : Message :=
  let (sender, recipient, payload) := unpack net identity.origin identity.body
  { identity
    internalSender := sender
    internalRecipient := recipient
    payload
    state := .dispatched
    times := ⟨dispatchedAt, 0, 0, 0, 0⟩
    gas := ⟨0, 0, 0, 0, 0⟩
    seen := .none
    sender := none
    tx := none }

/-- When a message may be processed at its destination: after the window that is configured there,
counted from its relay. It is zero without a relay and without a window. -/
def confirmAt (net : Network) (m : Message) : UInt64 :=
  if m.times.relayed = 0 then 0
  else
    match net.optimisticSeconds m.identity.destination with
    | some window => if 0 < window.toNat then m.times.relayed + window else 0
    | none => 0

end Message

end Waybill
