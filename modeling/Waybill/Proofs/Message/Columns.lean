import Waybill.Proofs.Message.Mark
import Waybill.Message.Record
import Waybill.Store.Memory
/-!
# Columns and what a message looks for

The values that a message looks for in the pool also stand in the columns of its record. So the
stores find the record for some values exactly if the message looks for them. A message that is no
transfer has no recipient and no amount, and nothing is found for the values of a sending.

## Main results

* `Record.isOfRoot_ofMessage_iff`, `Record.isOfSend_ofMessage_iff`,
  `Record.isOfNonce_ofMessage_iff`, `Record.messageHash_ofMessage_iff`: which values a record has.
-/

namespace Waybill.Record

open Waybill.Pending Message

variable {net : Network} {m : Message}

/-- A record is of the root under which its message was dispatched. -/
theorem isOfRoot_ofMessage_iff {origin : UInt32} {root : Digest} :
    (ofMessage net m).isOfRoot origin root.text = true ↔
      m.identity.origin = origin ∧ m.identity.root = root := by
  rw [isOfRoot, Bool.and_eq_true, beq_iff_eq, beq_iff_eq]
  exact and_congr_right fun _ =>
    ⟨fun h => Digest.text_injective h, fun h => congrArg Digest.text h⟩

/-- A record has a number as its message looks for the receipt of tokens. -/
theorem isOfNonce_ofMessage_iff {origin nonce destination : UInt32} :
    (ofMessage net m).isOfNonce origin nonce destination = true ↔
      m.lookup? .received = some (.receive origin nonce destination) := by
  rw [isOfNonce, Bool.and_eq_true, Bool.and_eq_true, beq_iff_eq, beq_iff_eq, beq_iff_eq, lookup?,
    Option.some.injEq, Lookup.receive.injEq, and_assoc]
  rfl

/-- A record is of a transfer as its message looks for the sending of tokens. -/
theorem isOfSend_ofMessage_iff {destination : UInt32} {recipient : Identifier} {amount : Word}
    {block : UInt64} :
    (ofMessage net m).isOfSend destination recipient.pretty amount.decimal block = true ↔
      m.lookup? .sent = some (.send destination recipient amount block) := by
  have hrecipient : (ofMessage net m).recipient = m.transfer?.map fun t => t.recipient.pretty := rfl
  have hamount : (ofMessage net m).amount = m.transfer?.map fun t => t.amount.decimal := rfl
  rw [lookup?, isOfSend, hrecipient, hamount]
  cases m.transfer? with
  | none => simp
  | some t =>
    have hp : t.recipient.pretty = recipient.pretty ↔ t.recipient = recipient :=
      ⟨fun h => Identifier.pretty_injective h, fun h => congrArg Identifier.pretty h⟩
    have ha : t.amount.decimal = amount.decimal ↔ t.amount = amount :=
      ⟨fun h => Word.decimal_injective h, fun h => congrArg Word.decimal h⟩
    simp only [Option.map_some, Bool.and_eq_true, beq_iff_eq, Option.some.injEq, hp, ha,
      Lookup.send.injEq]
    constructor
    · rintro ⟨⟨⟨hd, hb⟩, hr⟩, hw⟩
      exact ⟨hd, hr, hw, hb⟩
    · rintro ⟨hd, hr, hw, hb⟩
      exact ⟨⟨⟨hd, hb⟩, hr⟩, hw⟩

/-- A record is stored under the hash for which its message looks for a processing. -/
theorem messageHash_ofMessage_iff {hash : Digest} :
    (ofMessage net m).messageHash = hash.text ↔ m.lookup? .processed = some (.process hash) := by
  rw [lookup?, Option.some.injEq, Lookup.process.injEq]
  exact ⟨fun h => Digest.text_injective h, fun h => congrArg Digest.text h⟩

end Waybill.Record
