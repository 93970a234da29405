import Waybill.Record.Basic
import Waybill.Json.Reader
import Waybill.Json.Writer
import Waybill.Json.Fields
/-!
# Records as JSON

A record is written with every field, absent values as `null`. In an object absent values may be
left out.
-/

namespace Waybill.Record

/-- The field names of a record. -/
def shape : Json.Shape :=
  ⟨["origin", "destination", "nonce", "root", "messageHash", "leafIndex", "body", "dispatchBlock",
    "dispatchedAt", "updatedAt", "relayedAt", "receivedAt", "processedAt", "sender", "tx", "state",
    "msgType", "internalSender", "internalRecipient", "recipient", "amount", "allowFast",
    "detailsHash", "tokenDomain", "tokenId", "gasAtDispatch", "gasAtUpdate", "gasAtRelay",
    "gasAtReceive", "gasAtProcess", "sent", "updated", "relayed", "received", "processed",
    "confirmAt"], false, false⟩

/-- A record as JSON. -/
def toJson (r : Record) : Json := .record [
  ("origin", .ofNat r.origin.toNat),
  ("destination", .ofNat r.destination.toNat),
  ("nonce", .ofNat r.nonce.toNat),
  ("root", .ofString r.root),
  ("messageHash", .ofString r.messageHash),
  ("leafIndex", .ofString r.leafIndex),
  ("body", .ofString r.body),
  ("dispatchBlock", .ofNat r.dispatchBlock.toNat),
  ("dispatchedAt", .ofNat r.dispatchedAt.toNat),
  ("updatedAt", .ofNat r.updatedAt.toNat),
  ("relayedAt", .ofNat r.relayedAt.toNat),
  ("receivedAt", .ofNat r.receivedAt.toNat),
  ("processedAt", .ofNat r.processedAt.toNat),
  ("sender", .orNull .ofString r.sender),
  ("tx", .orNull .ofString r.tx),
  ("state", .ofInt r.state.toInt),
  ("msgType", .ofInt r.msgType.toInt),
  ("internalSender", .ofString r.internalSender),
  ("internalRecipient", .ofString r.internalRecipient),
  ("recipient", .orNull .ofString r.recipient),
  ("amount", .orNull .ofString r.amount),
  ("allowFast", .bool r.allowFast),
  ("detailsHash", .orNull .ofString r.detailsHash),
  ("tokenDomain", .orNull (fun d => .ofNat d.toNat) r.tokenDomain),
  ("tokenId", .orNull .ofString r.tokenId),
  ("gasAtDispatch", .ofString r.gasAtDispatch),
  ("gasAtUpdate", .ofString r.gasAtUpdate),
  ("gasAtRelay", .ofString r.gasAtRelay),
  ("gasAtReceive", .ofString r.gasAtReceive),
  ("gasAtProcess", .ofString r.gasAtProcess),
  ("sent", .bool r.sent),
  ("updated", .bool r.updated),
  ("relayed", .bool r.relayed),
  ("received", .bool r.received),
  ("processed", .bool r.processed),
  ("confirmAt", .ofNat r.confirmAt.toNat)]

/-- Reads a record. -/
def ofJson? (v : Json) : Option Record := do
  let fs ← v.fields? shape
  return {
    origin := ← fs.need "origin" Json.toUInt32?
    destination := ← fs.need "destination" Json.toUInt32?
    nonce := ← fs.need "nonce" Json.toUInt32?
    root := ← fs.need "root" Json.toString?
    messageHash := ← fs.need "messageHash" Json.toString?
    leafIndex := ← fs.need "leafIndex" Json.toString?
    body := ← fs.need "body" Json.toString?
    dispatchBlock := ← fs.need "dispatchBlock" Json.toUInt64?
    dispatchedAt := ← fs.need "dispatchedAt" Json.toUInt64?
    updatedAt := ← fs.need "updatedAt" Json.toUInt64?
    relayedAt := ← fs.need "relayedAt" Json.toUInt64?
    receivedAt := ← fs.need "receivedAt" Json.toUInt64?
    processedAt := ← fs.need "processedAt" Json.toUInt64?
    sender := ← fs.withDefault "sender" none (Json.toOption? Json.toString?)
    tx := ← fs.withDefault "tx" none (Json.toOption? Json.toString?)
    state := ← fs.need "state" Json.toInt32?
    msgType := ← fs.need "msgType" Json.toInt32?
    internalSender := ← fs.need "internalSender" Json.toString?
    internalRecipient := ← fs.need "internalRecipient" Json.toString?
    recipient := ← fs.withDefault "recipient" none (Json.toOption? Json.toString?)
    amount := ← fs.withDefault "amount" none (Json.toOption? Json.toString?)
    allowFast := ← fs.need "allowFast" Json.toBool?
    detailsHash := ← fs.withDefault "detailsHash" none (Json.toOption? Json.toString?)
    tokenDomain := ← fs.withDefault "tokenDomain" none (Json.toOption? Json.toUInt32?)
    tokenId := ← fs.withDefault "tokenId" none (Json.toOption? Json.toString?)
    gasAtDispatch := ← fs.need "gasAtDispatch" Json.toString?
    gasAtUpdate := ← fs.need "gasAtUpdate" Json.toString?
    gasAtRelay := ← fs.need "gasAtRelay" Json.toString?
    gasAtReceive := ← fs.need "gasAtReceive" Json.toString?
    gasAtProcess := ← fs.need "gasAtProcess" Json.toString?
    sent := ← fs.need "sent" Json.toBool?
    updated := ← fs.need "updated" Json.toBool?
    relayed := ← fs.need "relayed" Json.toBool?
    received := ← fs.need "received" Json.toBool?
    processed := ← fs.need "processed" Json.toBool?
    confirmAt := ← fs.need "confirmAt" Json.toUInt64? }

end Waybill.Record
