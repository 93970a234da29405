import Waybill.Event.Basic
import Waybill.Text.Decimal
/-!
# Slots of the pool

An event whose message is not known yet waits in the pool under the lookup that will be made for
it: its bucket is the kind of the lookup and its key spells the values that are looked for.
-/

namespace Waybill.Pending

/-- The kinds of lookups. -/
inductive Bucket where
  | send
  | update
  | relay
  | receive
  | process
deriving DecidableEq, Repr

/-- The name under which a bucket is stored. -/
def Bucket.name : Bucket → String
  | send => "send"
  | update => "update"
  | relay => "relay"
  | receive => "receive"
  | process => "process"

/-- A place in the pool. -/
structure Slot where
  bucket : Bucket
  key : String
deriving DecidableEq

/-- Texts with semicolons between them. -/
def joinKey (parts : List (List Char)) : String :=
  String.ofList ((parts.intersperse [';']).flatten)

namespace Slot

/-- Where the sending of a transfer waits. -/
def send (destination : UInt32) (recipient : Identifier) (amount : Word) (block : UInt64) : Slot :=
  ⟨.send, joinKey [Text.decimalChars destination.toNat, recipient.chars,
    Text.decimalChars amount.toNat, Text.decimalChars block.toNat]⟩

/-- The key of a root. -/
def rootKey (origin : UInt32) (root : Digest) : String :=
  joinKey [Text.decimalChars origin.toNat, root.chars]

/-- Where updates of a root wait. -/
def update (origin : UInt32) (root : Digest) : Slot := ⟨.update, rootKey origin root⟩

/-- Where relays of a root wait. -/
def relay (origin : UInt32) (root : Digest) : Slot := ⟨.relay, rootKey origin root⟩

/-- Where the receipt of a message waits. -/
def receive (origin nonce destination : UInt32) : Slot :=
  ⟨.receive, joinKey [Text.decimalChars origin.toNat, Text.decimalChars nonce.toNat,
    Text.decimalChars destination.toNat]⟩

/-- Where the processing of a message waits. -/
def process (hash : Digest) : Slot := ⟨.process, hash.text⟩

/-- Where an event waits. A dispatch never does. -/
def ofEvent? (e : Event) : Option Slot :=
  match e.data with
  | .dispatch _ => none
  | .homeUpdate u => some (update u.homeDomain u.oldRoot)
  | .replicaUpdate u => some (relay u.homeDomain u.oldRoot)
  | .process p => some (process p.messageHash)
  | .bridgeSend s => some (send s.toDomain s.toId s.amount e.block)
  | .bridgeReceive r => some (receive r.origin r.nonce e.domain)

end Slot

end Waybill.Pending
