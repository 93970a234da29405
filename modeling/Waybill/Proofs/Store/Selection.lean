import Waybill.Proofs.Store.Row
import Waybill.Store.Engine
import Waybill.Store.Memory
/-!
# What a question selects

A question for records names values, and the records are selected that have them. Stores in memory
compare the fields of a record, the database compares signed columns. On the row of a record the
two comparisons agree, whether the row can be read back or not.

## Main definitions

* `Call.selects`: whether a question is for a record.
* `Call.filters`: whether a question is for a row.

## Main results

* `Call.filters_ofRecord`: a question is for the row of a record if it is for the record.
-/

namespace Waybill

namespace Call

/-- Whether a question to stores in memory is for a record. -/
def selects : Call → Record → Bool
  | byHash hash, r => r.messageHash == hash.text
  | byRoot origin root, r => r.isOfRoot origin root.text
  | bySend destination recipient amount block, r =>
    r.isOfSend destination recipient.pretty amount.decimal block
  | byNonce origin nonce destination, r => r.isOfNonce origin nonce destination
  | _, _ => false

/-- Whether the statement for a question is for a row. -/
def filters (c : Call) (row : Row) : Bool :=
  match c.statement with
  | .one filter | .all filter => filter.passes row
  | _ => false

theorem beq_ofUInt32 (a b : UInt32) : (Row.ofUInt32 a == Row.ofUInt32 b) = (a == b) := by
  rw [Bool.eq_iff_iff, beq_iff_eq, beq_iff_eq, Row.ofUInt32_inj]

theorem beq_toInt64 (a b : UInt64) : (a.toInt64 == b.toInt64) = (a == b) := by
  rw [Bool.eq_iff_iff, beq_iff_eq, beq_iff_eq, Row.toInt64_inj]

/-- A question is for the row of a record if it is for the record. -/
@[simp] theorem filters_ofRecord (c : Call) (r : Record) :
    c.filters (Row.ofRecord r) = c.selects r := by
  cases c with
  | byRoot origin root =>
    simp only [filters, statement, Row.Filter.passes, selects, Row.isOfRoot, Record.isOfRoot,
      Row.ofRecord, beq_ofUInt32]
  | bySend destination recipient amount block =>
    simp only [filters, statement, Row.Filter.passes, selects, Row.isOfSend, Record.isOfSend,
      Row.ofRecord, beq_ofUInt32, beq_toInt64]
    -- the block is compared last here and second there
    cases r.dispatchBlock == block <;> simp
  | byNonce origin nonce destination =>
    simp only [filters, statement, Row.Filter.passes, selects, Row.isOfNonce, Record.isOfNonce,
      Row.ofRecord, beq_ofUInt32]
  | _ => rfl

end Call

end Waybill
