import Waybill.Identifier
import Waybill.Word
/-!
# Records

A record is the flat form in which a message is stored and served. Hashes, roots, the leaf index,
the body and gas are hexadecimal texts, amounts are decimal texts, identifiers are in their shown
form, and times are seconds, zero until the event is seen.
-/

namespace Waybill

/-- The flat form of a message. -/
structure Record where
  origin : UInt32
  destination : UInt32
  nonce : UInt32
  root : String
  messageHash : String
  leafIndex : String
  body : String
  dispatchBlock : UInt64
  dispatchedAt : UInt64
  updatedAt : UInt64
  relayedAt : UInt64
  receivedAt : UInt64
  processedAt : UInt64
  sender : Option String
  tx : Option String
  state : Int32
  msgType : Int32
  internalSender : String
  internalRecipient : String
  recipient : Option String
  amount : Option String
  allowFast : Bool
  detailsHash : Option String
  tokenDomain : Option UInt32
  tokenId : Option String
  gasAtDispatch : String
  gasAtUpdate : String
  gasAtRelay : String
  gasAtReceive : String
  gasAtProcess : String
  sent : Bool
  updated : Bool
  relayed : Bool
  received : Bool
  processed : Bool
  confirmAt : UInt64
deriving DecidableEq

namespace Record

/-- Why the text of a field cannot be read. -/
inductive FieldFault where
  | digest (fault : Digest.Fault)
  | word (fault : Word.Fault)
  | bytes (fault : Hex.Fault)
  | identifier (fault : Identifier.Fault)
deriving DecidableEq, Repr

/-- Why a record is no message, or a row no record. -/
inductive Fault where
  /-- The text of a field cannot be read. -/
  | badField (name : String) (fault : FieldFault)
  /-- No state has this code. -/
  | unknownState (code : Int32)
  /-- The number in a column is not in the range of the field. -/
  | outOfRange (column : String) (value : Int64)
deriving DecidableEq, Repr

/-- The wording of a fault in a text. -/
def FieldFault.message : FieldFault → String
  | digest f => f.message
  | word f => f.message
  | bytes f => f.message
  | identifier f => f.message

/-- The wording of a fault. -/
def Fault.message : Fault → String
  | badField name f => s!"invalid message record: {name}: {f.message}"
  | unknownState c => s!"invalid message record: unknown state code {Text.signed c.toInt}"
  | outOfRange column v =>
    s!"invalid message record: {column} out of range: {Text.signed v.toInt}"

end Record

end Waybill
