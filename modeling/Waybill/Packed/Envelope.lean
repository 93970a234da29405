import Waybill.Packed.Field
/-!
# Envelopes

A dispatched message is `origin | sender | nonce | destination | recipient | body`, a header of
76 bytes and whatever follows it.
-/

namespace Waybill

/-- The outer layer of a dispatched message. -/
structure Envelope where
  origin : UInt32
  sender : Identifier
  nonce : UInt32
  destination : UInt32
  recipient : Identifier
  body : Bytes
deriving DecidableEq

namespace Envelope

/-- The number of bytes before the body. -/
def headerLength : Nat := 76

/-- Reads an envelope from at least 76 bytes. -/
def decode (raw : Bytes) : Except Packed.Fault Envelope :=
  if h : raw.length < headerLength then .error (.tooShort .envelope headerLength raw.length)
  else
    have h : 76 ≤ raw.length := Nat.le_of_not_lt h
    .ok {
      origin := (raw.field 0 4).toUInt32
      sender := raw.identifierAt 4 (by omega)
      nonce := (raw.field 36 4).toUInt32
      destination := (raw.field 40 4).toUInt32
      recipient := raw.identifierAt 44 (by omega)
      body := raw.drop headerLength }

/-- The bytes of an envelope. -/
def encode (e : Envelope) : Bytes :=
  Bytes.ofUInt32 e.origin ++ (e.sender.bytes ++ (Bytes.ofUInt32 e.nonce ++
    (Bytes.ofUInt32 e.destination ++ (e.recipient.bytes ++ e.body))))

end Envelope

end Waybill
