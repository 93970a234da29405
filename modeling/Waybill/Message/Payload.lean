import Waybill.Packed.Envelope
import Waybill.Packed.Transfer
import Waybill.Packed.Governance
import Waybill.Network.Basic
/-!
# Payloads

Only the messages of a router carry a payload: a message from the bridge router of its origin is
a transfer, one from the governance router an action, provided that its body can be read as such.
-/

namespace Waybill

/-- What a message carries. -/
inductive Payload where
  | empty
  | transfer (value : Transfer)
  | governance (value : Governance)
deriving DecidableEq

namespace Payload

/-- The name of the kind of a payload. -/
def kindName : Payload → String
  | empty => "empty"
  | transfer _ => "transfer"
  | governance _ => "governance"

/-- The code under which the kind of a payload is stored. -/
def kindCode : Payload → Int32
  | empty => 0
  | transfer _ => 1
  | governance _ => 2

/-- The transfer that is carried, if it is one. -/
def transfer? : Payload → Option Transfer
  | transfer t => some t
  | _ => none

/-- The transfer that a body holds, or nothing. -/
def ofTransferBody (body : Bytes) : Payload :=
  match Transfer.decode body with
  | .ok t => transfer t
  | .error _ => empty

/-- The action that a body holds, or nothing. -/
def ofGovernanceBody (body : Bytes) : Payload :=
  match Governance.decode body with
  | .ok a => governance a
  | .error _ => empty

/-- The payload of a message by the account that sent it from a domain. A body sent by the bridge
router is read as a transfer only. -/
def classify (net : Network) (origin : UInt32) (sender : Identifier) (body : Bytes) : Payload :=
  if net.bridgeRouter origin = some sender then ofTransferBody body
  else if net.governanceRouter origin = some sender then ofGovernanceBody body
  else empty

end Payload

end Waybill
