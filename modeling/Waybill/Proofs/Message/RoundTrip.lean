import Waybill.Message.Record
import Waybill.Proofs.Text.Identifier
import Waybill.Proofs.Text.Digits
/-!
# Messages survive their records

A message is taken up again from its record as it was, except that the sender, the recipient and
the payload are those which the body shows under the network of the moment. A message that was
made under the same network comes back unchanged.

## Main definitions

* `Record.Readers.Faithful`: readers read back what is written.
* `Message.IsUnpacked`: a message shows what its body shows under a network.

## Main results

* `Message.ofRecordBy_ofMessage`: what is taken up from the record of any message, by any readers
  that read back what is written.
* `Message.IsUnpacked.ofRecord_ofMessage`: a message made under the same network comes back.
-/

namespace Waybill

namespace Record

/-- Readers read back what is written. -/
structure Readers.Faithful (rd : Readers) : Prop where
  digest : ∀ d : Digest, rd.digest d.text = .ok d
  word : ∀ w : Word, rd.word w.hex = .ok w
  bytes : ∀ bs : Bytes, rd.bytes bs.text = .ok bs

theorem Readers.faithful_standard : standard.Faithful where
  digest := Digest.read_text
  word := Word.read_hex
  bytes := Bytes.read_text

theorem identifierField_pretty (name : String) (p : Identifier) :
    identifierField name p.pretty = .ok p := by
  rw [identifierField, Identifier.read_pretty]
  rfl

theorem sender_ofMessage (net : Network) (m : Message) :
    optionalField identifierField "sender" (ofMessage net m).sender = .ok m.sender := by
  simp only [ofMessage]
  cases m.sender with
  | none => rfl
  | some p =>
    simp only [Option.map_some, optionalField, identifierField_pretty]
    rfl

namespace Readers.Faithful

variable {rd : Readers} (h : rd.Faithful) (net : Network) (m : Message)
include h

theorem digestField_text (name : String) (d : Digest) : rd.digestField name d.text = .ok d := by
  rw [digestField, h.digest]
  rfl

theorem wordField_hex (name : String) (w : Word) : rd.wordField name w.hex = .ok w := by
  rw [wordField, h.word]
  rfl

theorem bytesField_text (name : String) (bs : Bytes) : rd.bytesField name bs.text = .ok bs := by
  rw [bytesField, h.bytes]
  rfl

theorem identity_ofMessage : (ofMessage net m).identityBy rd = .ok m.identity := by
  simp only [identityBy, ofMessage, h.digestField_text, h.wordField_hex, h.bytesField_text]
  rfl

theorem gas_ofMessage : (ofMessage net m).gasBy rd = .ok m.gas := by
  simp only [gasBy, ofMessage, h.wordField_hex]
  rfl

theorem tx_ofMessage : optionalField rd.digestField "tx" (ofMessage net m).tx = .ok m.tx := by
  simp only [ofMessage]
  cases m.tx with
  | none => rfl
  | some d =>
    simp only [Option.map_some, optionalField, h.digestField_text]
    rfl

end Readers.Faithful

theorem identity_ofMessage (net : Network) (m : Message) :
    (ofMessage net m).identity = .ok m.identity :=
  Readers.faithful_standard.identity_ofMessage net m

end Record

namespace Message

/-- A message with what its body shows under a network. -/
def repacked (net : Network) (m : Message) : Message :=
  let (sender, recipient, payload) := unpack net m.identity.origin m.identity.body
  { m with internalSender := sender, internalRecipient := recipient, payload }

/-- A message shows what its body shows under a network. -/
def IsUnpacked (net : Network) (m : Message) : Prop :=
  (m.internalSender, m.internalRecipient, m.payload) =
    unpack net m.identity.origin m.identity.body

/-- A message is taken up from its record as it was, with what its body shows at that time. -/
theorem ofRecordBy_ofMessage {rd : Record.Readers} (h : rd.Faithful) (net later : Network)
    (m : Message) : ofRecordBy rd later (Record.ofMessage net m) = .ok (m.repacked later) := by
  rw [ofRecordBy, h.identity_ofMessage, h.gas_ofMessage, Record.sender_ofMessage, h.tx_ofMessage]
  have hstate : State.ofCode? (Record.ofMessage net m).state = some m.state :=
    State.ofCode?_code m.state
  simp only [hstate]
  rfl

theorem ofRecord_ofMessage (net later : Network) (m : Message) :
    ofRecord later (Record.ofMessage net m) = .ok (m.repacked later) :=
  ofRecordBy_ofMessage Record.Readers.faithful_standard net later m

theorem IsUnpacked.repacked_eq {net : Network} {m : Message} (h : m.IsUnpacked net) :
    m.repacked net = m := by
  rw [repacked, ← h]

/-- A message that was made under a network is taken up from its record unchanged. -/
theorem IsUnpacked.ofRecord_ofMessage {net : Network} {m : Message} (h : m.IsUnpacked net) :
    ofRecord net (Record.ofMessage net m) = .ok m := by
  rw [Message.ofRecord_ofMessage, h.repacked_eq]

end Message

end Waybill
