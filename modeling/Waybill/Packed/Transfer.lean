import Waybill.Packed.Field
/-!
# Token transfers

A transfer is `token domain | token id | action | recipient | amount | details hash`, exactly 133
bytes. The action byte tells an ordinary transfer from one that may be paid out early.
-/

namespace Waybill

/-- A token transfer carried by a message. -/
structure Transfer where
  tokenDomain : UInt32
  tokenId : Identifier
  recipient : Identifier
  amount : Word
  /-- Whether liquidity providers may pay the recipient before the message is processed. -/
  allowFast : Bool
  detailsHash : Digest
deriving DecidableEq

namespace Transfer

/-- The number of bytes of a transfer. -/
def bodyLength : Nat := 133

/-- The action byte of a transfer. -/
def action (allowFast : Bool) : UInt8 := if allowFast then 4 else 3

/-- What an action byte says about early payment. -/
def allowFast? (action : UInt8) : Option Bool :=
  if action = 3 then some false else if action = 4 then some true else none

/-- Reads a transfer: the length is checked first, then the action byte. -/
def decode (raw : Bytes) : Except Packed.Fault Transfer :=
  if h : raw.length ≠ bodyLength then .error (.wrongLength .transfer bodyLength raw.length)
  else
    have h : raw.length = 133 := Decidable.not_not.mp h
    let action := raw[36]
    match allowFast? action with
    | none => .error (.unknownAction .transfer action)
    | some allowFast => .ok {
        tokenDomain := (raw.field 0 4).toUInt32
        tokenId := raw.identifierAt 4 (by omega)
        recipient := raw.identifierAt 37 (by omega)
        amount := Word.ofBytes (raw.field 69 32)
        allowFast
        detailsHash := raw.digestAt 101 (by omega) }

/-- The bytes of a transfer. -/
def encode (t : Transfer) : Bytes :=
  Bytes.ofUInt32 t.tokenDomain ++ (t.tokenId.bytes ++ (action t.allowFast ::
    (t.recipient.bytes ++ (t.amount.toBytes ++ t.detailsHash.bytes))))

end Transfer

end Waybill
