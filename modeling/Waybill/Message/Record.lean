import Waybill.Message.Basic
import Waybill.Record.Basic
/-!
# Messages as records

A message is stored as a record and taken up again from it. The payload is not taken from the
record but read again from the body, under the network of the moment. Fields are read in a fixed
order and the first that cannot be read is reported. What counts as the text of a digest, a word or
a byte string is up to the readers that are given; identifiers have their own reader.
-/

namespace Waybill

namespace Record

/-- The record of a message. -/
def ofMessage (net : Network) (m : Message) : Record where
  origin := m.identity.origin
  destination := m.identity.destination
  nonce := m.identity.nonce
  root := m.identity.root.text
  messageHash := m.identity.hash.text
  leafIndex := m.identity.leafIndex.hex
  body := m.identity.body.text
  dispatchBlock := m.identity.dispatchBlock
  dispatchedAt := m.times.dispatched
  updatedAt := m.times.updated
  relayedAt := m.times.relayed
  receivedAt := m.times.received
  processedAt := m.times.processed
  sender := m.sender.map (·.pretty)
  tx := m.tx.map (·.text)
  state := m.state.code
  msgType := m.payload.kindCode
  internalSender := m.internalSender.pretty
  internalRecipient := m.internalRecipient.pretty
  recipient := m.transfer?.map (·.recipient.pretty)
  amount := m.transfer?.map (·.amount.decimal)
  allowFast := m.allowFast
  detailsHash := m.transfer?.map (·.detailsHash.text)
  tokenDomain := m.transfer?.map (·.tokenDomain)
  tokenId := m.transfer?.map (·.tokenId.pretty)
  gasAtDispatch := m.gas.dispatched.hex
  gasAtUpdate := m.gas.updated.hex
  gasAtRelay := m.gas.relayed.hex
  gasAtReceive := m.gas.received.hex
  gasAtProcess := m.gas.processed.hex
  sent := m.seen.sent
  updated := m.seen.updated
  relayed := m.seen.relayed
  received := m.seen.received
  processed := m.seen.processed
  confirmAt := m.confirmAt net

/-- Readers for the texts of digests, words and byte strings. -/
structure Readers where
  digest : String → Except Digest.Fault Digest
  word : String → Except Word.Fault Word
  bytes : String → Except Hex.Fault Bytes

namespace Readers

/-- The readers in use. -/
def standard : Readers := ⟨Digest.read, Word.read, Bytes.read⟩

variable (rd : Readers)

/-- Reads a digest from a field. -/
def digestField (name text : String) : Except Fault Digest :=
  (rd.digest text).mapError fun f => .badField name (.digest f)

/-- Reads a word from a field. -/
def wordField (name text : String) : Except Fault Word :=
  (rd.word text).mapError fun f => .badField name (.word f)

/-- Reads a byte string from a field. -/
def bytesField (name text : String) : Except Fault Bytes :=
  (rd.bytes text).mapError fun f => .badField name (.bytes f)

end Readers

/-- Reads an identifier from a field. -/
def identifierField (name text : String) : Except Fault Identifier :=
  (Identifier.read text).mapError fun f => .badField name (.identifier f)

/-- Reads a field that may be absent. -/
def optionalField {α : Type} (read : String → String → Except Fault α) (name : String) :
    Option String → Except Fault (Option α)
  | none => .ok none
  | some text => (read name text).map some

/-- What the dispatch fixed, from its record. -/
def identityBy (rd : Readers) (r : Record) : Except Fault Message.Identity := do
  return {
    origin := r.origin
    destination := r.destination
    nonce := r.nonce
    root := ← rd.digestField "root" r.root
    hash := ← rd.digestField "messageHash" r.messageHash
    leafIndex := ← rd.wordField "leafIndex" r.leafIndex
    body := ← rd.bytesField "body" r.body
    dispatchBlock := r.dispatchBlock }

/-- What the dispatch fixed, from its record by the readers in use. -/
def identity (r : Record) : Except Fault Message.Identity := r.identityBy .standard

/-- The gas of the events, from their record. -/
def gasBy (rd : Readers) (r : Record) : Except Fault (ByState Word) := do
  return {
    dispatched := ← rd.wordField "gasAtDispatch" r.gasAtDispatch
    updated := ← rd.wordField "gasAtUpdate" r.gasAtUpdate
    relayed := ← rd.wordField "gasAtRelay" r.gasAtRelay
    received := ← rd.wordField "gasAtReceive" r.gasAtReceive
    processed := ← rd.wordField "gasAtProcess" r.gasAtProcess }

end Record

namespace Message

/-- Takes a message up from its record, under a network. -/
def ofRecordBy (rd : Record.Readers) (net : Network) (r : Record) :
    Except Record.Fault Message := do
  let identity ← r.identityBy rd
  let gas ← r.gasBy rd
  let sender ← Record.optionalField Record.identifierField "sender" r.sender
  let tx ← Record.optionalField rd.digestField "tx" r.tx
  match State.ofCode? r.state with
  | none => .error (.unknownState r.state)
  | some state =>
    return { Message.new net identity r.dispatchedAt with
      state
      times := ⟨r.dispatchedAt, r.updatedAt, r.relayedAt, r.receivedAt, r.processedAt⟩
      gas
      seen := ⟨r.sent, r.updated, r.relayed, r.received, r.processed⟩
      sender
      tx }

/-- Takes a message up from its record by the readers in use. -/
def ofRecord (net : Network) (r : Record) : Except Record.Fault Message :=
  ofRecordBy .standard net r

end Message

end Waybill
