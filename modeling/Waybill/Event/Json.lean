import Waybill.Event.Basic
import Waybill.Json.Reader
import Waybill.Json.Writer
import Waybill.Json.Fields
import Waybill.Json.Kept
/-!
# Events as JSON

An event is a structure whose last field holds the kind and the payload. The written form is
unique, so events can be compared by their texts. Reading also takes arrays in place of objects,
bytes as arrays of numbers, and words as numbers below `2 ^ 64`. A text is read with the places in
mind where a digest may be written as an array; a payload before its kind is read without.
-/

namespace Waybill

namespace Json

/-- A text read as a digest, or an array of 32 bytes. -/
def toDigest? : Json → Option Digest
  | text (some s) => (Digest.read s).toOption
  | v => (v.toBytesOf? 32).bind Digest.ofBytes?

/-- A text read as a byte string, or an array of bytes. -/
def toBytes? : Json → Option Bytes
  | text (some s) => (Bytes.read s).toOption
  | array items => readAll toUInt8? items
  | _ => none

/-- A text read as a word, or a number below `2 ^ 64`. -/
def toWord? : Json → Option Word
  | text (some s) => (Word.read s).toOption
  | v => (v.toNat? (2 ^ 64)).map (BitVec.ofNat 256)

/-- A text read as an identifier. -/
def toIdentifier? : Json → Option Identifier
  | text (some s) => (Identifier.read s).toOption
  | _ => none

end Json

namespace Dispatch

/-- The field names of a dispatch. -/
def shape : Json.Shape :=
  ⟨["message_hash", "leaf_index", "destination_and_nonce", "committed_root", "message"], false, false⟩

/-- A dispatch as JSON. -/
def toJson (d : Dispatch) : Json := .record [
  ("message_hash", .ofString d.messageHash.text),
  ("leaf_index", .ofString d.leafIndex.hex),
  ("destination_and_nonce", .ofNat d.destinationAndNonce.toNat),
  ("committed_root", .ofString d.committedRoot.text),
  ("message", .ofString d.message.text)]

/-- Reads a dispatch. -/
def ofJson? (v : Json) : Option Dispatch := do
  let fs ← v.fields? shape
  return {
    messageHash := ← fs.need "message_hash" Json.toDigest?
    leafIndex := ← fs.need "leaf_index" Json.toWord?
    destinationAndNonce := ← fs.need "destination_and_nonce" Json.toUInt64?
    committedRoot := ← fs.need "committed_root" Json.toDigest?
    message := ← fs.need "message" Json.toBytes? }

end Dispatch

namespace RootUpdate

/-- The field names of an update. -/
def shape : Json.Shape := ⟨["home_domain", "old_root", "new_root", "signature"], false, false⟩

/-- An update as JSON. -/
def toJson (u : RootUpdate) : Json := .record [
  ("home_domain", .ofNat u.homeDomain.toNat),
  ("old_root", .ofString u.oldRoot.text),
  ("new_root", .ofString u.newRoot.text),
  ("signature", .ofString u.signature.text)]

/-- Reads an update. -/
def ofJson? (v : Json) : Option RootUpdate := do
  let fs ← v.fields? shape
  return {
    homeDomain := ← fs.need "home_domain" Json.toUInt32?
    oldRoot := ← fs.need "old_root" Json.toDigest?
    newRoot := ← fs.need "new_root" Json.toDigest?
    signature := ← fs.need "signature" Json.toBytes? }

end RootUpdate

namespace Processing

/-- The field names of a processing. -/
def shape : Json.Shape := ⟨["message_hash", "success", "return_data"], false, false⟩

/-- A processing as JSON. -/
def toJson (p : Processing) : Json := .record [
  ("message_hash", .ofString p.messageHash.text),
  ("success", .bool p.success),
  ("return_data", .ofString p.returnData.text)]

/-- Reads a processing. -/
def ofJson? (v : Json) : Option Processing := do
  let fs ← v.fields? shape
  return {
    messageHash := ← fs.need "message_hash" Json.toDigest?
    success := ← fs.need "success" Json.toBool?
    returnData := ← fs.need "return_data" Json.toBytes? }

end Processing

namespace Send

/-- The field names of a sending. -/
def shape : Json.Shape :=
  ⟨["token", "from", "to_domain", "to_id", "amount", "fast_liquidity_enabled"], false, false⟩

/-- A sending as JSON. -/
def toJson (s : Send) : Json := .record [
  ("token", .ofString s.token.pretty),
  ("from", .ofString s.sender.pretty),
  ("to_domain", .ofNat s.toDomain.toNat),
  ("to_id", .ofString s.toId.pretty),
  ("amount", .ofString s.amount.hex),
  ("fast_liquidity_enabled", .bool s.fastLiquidity)]

/-- Reads a sending. -/
def ofJson? (v : Json) : Option Send := do
  let fs ← v.fields? shape
  return {
    token := ← fs.need "token" Json.toIdentifier?
    sender := ← fs.need "from" Json.toIdentifier?
    toDomain := ← fs.need "to_domain" Json.toUInt32?
    toId := ← fs.need "to_id" Json.toIdentifier?
    amount := ← fs.need "amount" Json.toWord?
    fastLiquidity := ← fs.need "fast_liquidity_enabled" Json.toBool? }

end Send

namespace Receipt

/-- The field names of a receipt. -/
def shape : Json.Shape :=
  ⟨["origin_and_nonce", "token", "recipient", "liquidity_provider", "amount"], false, false⟩

/-- A receipt as JSON. -/
def toJson (r : Receipt) : Json := .record [
  ("origin_and_nonce", .ofNat r.originAndNonce.toNat),
  ("token", .ofString r.token.pretty),
  ("recipient", .ofString r.recipient.pretty),
  ("liquidity_provider", .ofString r.liquidityProvider.pretty),
  ("amount", .ofString r.amount.hex)]

/-- Reads a receipt. -/
def ofJson? (v : Json) : Option Receipt := do
  let fs ← v.fields? shape
  return {
    originAndNonce := ← fs.need "origin_and_nonce" Json.toUInt64?
    token := ← fs.need "token" Json.toIdentifier?
    recipient := ← fs.need "recipient" Json.toIdentifier?
    liquidityProvider := ← fs.need "liquidity_provider" Json.toIdentifier?
    amount := ← fs.need "amount" Json.toWord? }

end Receipt

namespace Event

/-- The kind of a name. -/
def Kind.ofName? (s : String) : Option Kind := Kind.all.find? fun k => k.name == s

/-- The kind that a value names. -/
def Kind.ofJson? (v : Json) : Option Kind := v.toName?.bind ofName?

/-- What a payload of a kind is read for. -/
def Kind.expected : Kind → Json.Expected
  | .dispatch => .withDigests Dispatch.shape.names ["message_hash", "committed_root"]
  | .homeUpdate => .withDigests RootUpdate.shape.names ["old_root", "new_root"]
  | .replicaUpdate => .withDigests RootUpdate.shape.names ["old_root", "new_root"]
  | .process => .withDigests Processing.shape.names ["message_hash"]
  | .bridgeSend => .anything
  | .bridgeReceive => .anything

namespace Data

/-- The payload of a report as JSON. -/
def payload : Data → Json
  | dispatch d => d.toJson
  | homeUpdate u => u.toJson
  | replicaUpdate u => u.toJson
  | process p => p.toJson
  | bridgeSend s => s.toJson
  | bridgeReceive r => r.toJson

/-- A report as JSON. -/
def toJson (d : Data) : Json := .record [("kind", .ofString d.kind.name), ("payload", d.payload)]

/-- Reads the payload of a kind. -/
def ofPayload? (kind : Kind) (v : Json) : Option Data :=
  match kind with
  | .dispatch => (Dispatch.ofJson? v).map dispatch
  | .homeUpdate => (RootUpdate.ofJson? v).map homeUpdate
  | .replicaUpdate => (RootUpdate.ofJson? v).map replicaUpdate
  | .process => (Processing.ofJson? v).map process
  | .bridgeSend => (Send.ofJson? v).map bridgeSend
  | .bridgeReceive => (Receipt.ofJson? v).map bridgeReceive

/-- How many layers a payload may have that comes before its kind. -/
def keptDepth : Nat := 125

/-- What a report is read for. -/
def expected : Json.Expected :=
  .tagged "kind" "payload" fun kind =>
    match Kind.ofJson? kind with
    | some k => k.expected
    | none => .anything

/-- Reads a report: a kind and a payload in either order, other members skipped, or an array of
both, where the kind is a text. A payload that comes first is kept until its kind is known. -/
def ofJson? : Json → Option Data
  | .array [kind, payload] => do ofPayload? (← Kind.ofName? (← kind.toString?)) payload
  | .object members => do
    let ms ← Json.keys? members
    match ms.filter fun m => m.1 == "kind" || m.1 == "payload" with
    | [("kind", kind), ("payload", payload)] =>
      ofPayload? (← Kind.ofJson? kind) payload
    | [("payload", payload), ("kind", kind)] =>
      if payload.canKeep keptDepth then
        ofPayload? (← Kind.ofJson? kind) payload
      else none
    | _ => none
  | _ => none

end Data

/-- The field names of an event. -/
def shape : Json.Shape :=
  ⟨["domain", "block", "timestamp", "tx", "gas_used", "data"], false, false⟩

/-- An event as JSON. -/
def toJson (e : Event) : Json := .record [
  ("domain", .ofNat e.domain.toNat),
  ("block", .ofNat e.block.toNat),
  ("timestamp", .ofNat e.timestamp.toNat),
  ("tx", .ofString e.tx.text),
  ("gas_used", .ofString e.gasUsed.hex),
  ("data", e.data.toJson)]

/-- Reads an event. -/
def ofJson? (v : Json) : Option Event := do
  let fs ← v.fields? shape
  return {
    domain := ← fs.need "domain" Json.toUInt32?
    block := ← fs.need "block" Json.toUInt64?
    timestamp := ← fs.need "timestamp" Json.toUInt64?
    tx := ← fs.need "tx" Json.toDigest?
    gasUsed := ← fs.need "gas_used" Json.toWord?
    data := ← fs.need "data" Data.ofJson? }

/-- The text of an event. -/
def render (e : Event) : String := e.toJson.render

/-- What an event is read for. -/
def expected : Json.Expected :=
  .fields [("domain", .anything), ("block", .anything), ("timestamp", .anything),
    ("tx", .bytes 32), ("gas_used", .anything), ("data", Data.expected)]

/-- Reads the text of an event. -/
def parse? (s : String) : Option Event := (Json.parseAs expected s).bind ofJson?

end Event

end Waybill
