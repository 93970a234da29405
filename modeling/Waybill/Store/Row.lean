import Waybill.Record.Basic
/-!
# Rows

The database keeps a record as a row whose whole numbers are signed 64-bit integers. Numbers from
`2 ^ 63` on become negative when they are stored, and a negative number is refused when the row is
read.
-/

namespace Waybill

/-- A record as the database keeps it. -/
structure Row where
  messageHash : String
  origin : Int64
  destination : Int64
  nonce : Int64
  root : String
  leafIndex : String
  body : String
  dispatchBlock : Int64
  dispatchedAt : Int64
  updatedAt : Int64
  relayedAt : Int64
  receivedAt : Int64
  processedAt : Int64
  sender : Option String
  tx : Option String
  state : Int32
  msgType : Int32
  internalSender : String
  internalRecipient : String
  recipient : Option String
  amount : Option String
  allowFast : Bool
  detailsHash : Option String
  tokenDomain : Option Int64
  tokenId : Option String
  gasAtDispatch : String
  gasAtUpdate : String
  gasAtRelay : String
  gasAtReceive : String
  gasAtProcess : String
  sent : Bool
  updated : Bool
  relayed : Bool
  received : Bool
  processed : Bool
  confirmAt : Int64
deriving DecidableEq

namespace Row

/-- A 32-bit number as a column. -/
def ofUInt32 (n : UInt32) : Int64 := Int64.ofNat n.toNat

/-- The row of a record. -/
def ofRecord (r : Record) : Row where
  messageHash := r.messageHash
  origin := ofUInt32 r.origin
  destination := ofUInt32 r.destination
  nonce := ofUInt32 r.nonce
  root := r.root
  leafIndex := r.leafIndex
  body := r.body
  dispatchBlock := r.dispatchBlock.toInt64
  dispatchedAt := r.dispatchedAt.toInt64
  updatedAt := r.updatedAt.toInt64
  relayedAt := r.relayedAt.toInt64
  receivedAt := r.receivedAt.toInt64
  processedAt := r.processedAt.toInt64
  sender := r.sender
  tx := r.tx
  state := r.state
  msgType := r.msgType
  internalSender := r.internalSender
  internalRecipient := r.internalRecipient
  recipient := r.recipient
  amount := r.amount
  allowFast := r.allowFast
  detailsHash := r.detailsHash
  tokenDomain := r.tokenDomain.map ofUInt32
  tokenId := r.tokenId
  gasAtDispatch := r.gasAtDispatch
  gasAtUpdate := r.gasAtUpdate
  gasAtRelay := r.gasAtRelay
  gasAtReceive := r.gasAtReceive
  gasAtProcess := r.gasAtProcess
  sent := r.sent
  updated := r.updated
  relayed := r.relayed
  received := r.received
  processed := r.processed
  confirmAt := r.confirmAt.toInt64

/-- The number in a column that has to be one of 32 bits. -/
def small (column : String) (v : Int64) : Except Record.Fault UInt32 :=
  if 0 ≤ v.toInt ∧ v.toInt < 2 ^ 32 then .ok (UInt32.ofNat v.toInt.toNat)
  else .error (.outOfRange column v)

/-- The number in a column that must not be negative. -/
def large (column : String) (v : Int64) : Except Record.Fault UInt64 :=
  if 0 ≤ v.toInt then .ok (UInt64.ofNat v.toInt.toNat) else .error (.outOfRange column v)

/-- The number in a column that may be absent and has to be one of 32 bits. -/
def smallOption (column : String) : Option Int64 → Except Record.Fault (Option UInt32)
  | none => .ok none
  | some v => (small column v).map some

/-- The record of a row. Columns are looked at in a fixed order, and the first number that is out
of range is reported. -/
def toRecord (row : Row) : Except Record.Fault Record := do
  let origin ← small "origin" row.origin
  let destination ← small "destination" row.destination
  let nonce ← small "nonce" row.nonce
  let dispatchBlock ← large "dispatch_block" row.dispatchBlock
  let dispatchedAt ← large "dispatched_at" row.dispatchedAt
  let updatedAt ← large "updated_at" row.updatedAt
  let relayedAt ← large "relayed_at" row.relayedAt
  let receivedAt ← large "received_at" row.receivedAt
  let processedAt ← large "processed_at" row.processedAt
  let tokenDomain ← smallOption "token_domain" row.tokenDomain
  let confirmAt ← large "confirm_at" row.confirmAt
  return {
    origin, destination, nonce
    root := row.root
    messageHash := row.messageHash
    leafIndex := row.leafIndex
    body := row.body
    dispatchBlock, dispatchedAt, updatedAt, relayedAt, receivedAt, processedAt
    sender := row.sender
    tx := row.tx
    state := row.state
    msgType := row.msgType
    internalSender := row.internalSender
    internalRecipient := row.internalRecipient
    recipient := row.recipient
    amount := row.amount
    allowFast := row.allowFast
    detailsHash := row.detailsHash
    tokenDomain
    tokenId := row.tokenId
    gasAtDispatch := row.gasAtDispatch
    gasAtUpdate := row.gasAtUpdate
    gasAtRelay := row.gasAtRelay
    gasAtReceive := row.gasAtReceive
    gasAtProcess := row.gasAtProcess
    sent := row.sent
    updated := row.updated
    relayed := row.relayed
    received := row.received
    processed := row.processed
    confirmAt }

end Row

end Waybill
