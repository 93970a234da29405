import Waybill.Proofs.Ledger.Basic
import Waybill.Proofs.Message.Columns
/-!
# Records that are looked up

Over stores that stand for a ledger, the records that are looked up for an event are those of the
messages that the event is for.

## Main results

* `Ledger.Depicts.byRoot`, `Ledger.Depicts.bySend`, `Ledger.Depicts.byNonce`,
  `Ledger.Depicts.byHash`: the answers to the lookups of an event.
-/

namespace Waybill

open Waybill.Pending Message

namespace Journey

variable (net : Network) (j : Journey) {e : Event}

theorem answers_iff {k : Mark} : j.answers net k e = true ↔
    (j.base net).lookup? k = Lookup.ofEvent? e :=
  decide_eq_true_iff

theorem lookup?_message (k : Mark) : (j.message net).lookup? k = (j.base net).lookup? k :=
  lookup?_after _ _ k

/-- A record is of a root as its message looks for the updates of the root. -/
theorem isOfRoot_record {k : Mark} {u : RootUpdate}
    (he : e.data = .homeUpdate u ∧ k = .updated ∨ e.data = .replicaUpdate u ∧ k = .relayed) :
    (j.record net).isOfRoot u.homeDomain u.oldRoot.text = j.answers net k e := by
  rw [Bool.eq_iff_iff, record, Record.isOfRoot_ofMessage_iff, answers_iff, ← lookup?_message,
    Lookup.ofEvent?]
  rcases he with ⟨he, rfl⟩ | ⟨he, rfl⟩ <;> simp [he, lookup?]

/-- A record has a number as its message looks for the receipt of tokens. -/
theorem isOfNonce_record {r : Receipt} (he : e.data = .bridgeReceive r) :
    (j.record net).isOfNonce r.origin r.nonce e.domain = j.answers net .received e := by
  rw [Bool.eq_iff_iff, record, Record.isOfNonce_ofMessage_iff, answers_iff, ← lookup?_message,
    Lookup.ofEvent?, he]

/-- A record is of a transfer as its message looks for the sending of tokens. -/
theorem isOfSend_record {s : Send} (he : e.data = .bridgeSend s) :
    (j.record net).isOfSend s.toDomain s.toId.pretty s.amount.decimal e.block =
      j.answers net .sent e := by
  rw [Bool.eq_iff_iff, record, Record.isOfSend_ofMessage_iff, answers_iff, ← lookup?_message,
    Lookup.ofEvent?, he]

end Journey

namespace Ledger.Depicts

variable {net : Network} {L : Ledger} {m : Memory} {e : Event}

theorem values (h : L.Depicts net m) :
    m.records.values = L.journeys.values.map (Journey.record net) := by
  rw [h.records, SortedMap.values_map]

theorem find? (h : L.Depicts net m) (key : String) :
    m.records.find? key = (L.journeys.find? key).map (Journey.record net) := by
  rw [h.records, SortedMap.find?_map]

/-- A ledger determines the stores that stand for it. -/
theorem unique {m' : Memory} (h : L.Depicts net m) (h' : L.Depicts net m') : m = m' := by
  obtain ⟨records, pool⟩ := m
  obtain ⟨records', pool'⟩ := m'
  obtain rfl : records = records' := h.records.trans h'.records.symm
  obtain rfl : pool = pool' := h.pool.unique h'.pool
  rfl

/-- What is found among the records is the record of what is found among the journeys. -/
theorem find?_values (h : L.Depicts net m) {p : Record → Bool} {k : Mark}
    (hp : ∀ j, p (Journey.record net j) = j.answers net k e) :
    m.records.values.find? p = (L.addressee? net k e).map (Journey.record net) := by
  rw [h.values, List.find?_map, addressee?]
  congr 2
  funext j
  exact hp j

/-- The records of a root are those of the messages that an event of the root is for. -/
theorem byRoot (h : L.Depicts net m) {k : Mark} {u : RootUpdate}
    (he : e.data = .homeUpdate u ∧ k = .updated ∨ e.data = .replicaUpdate u ∧ k = .relayed) :
    m.answer (.byRoot u.homeDomain u.oldRoot) =
      (.ok ((L.journeys.values.filter fun j => j.answers net k e).map (Journey.record net)),
        m) := by
  rw [Memory.answer, h.values, List.filter_map]
  congr 5
  funext j
  exact j.isOfRoot_record net he

/-- The record that is found for the sending of tokens. -/
theorem bySend (h : L.Depicts net m) {s : Send} (he : e.data = .bridgeSend s) :
    m.answer (.bySend s.toDomain s.toId s.amount e.block) =
      (.ok ((L.addressee? net .sent e).map (Journey.record net)), m) := by
  rw [Memory.answer, h.find?_values fun j => j.isOfSend_record net he]

/-- The record that is found for the receipt of tokens. -/
theorem byNonce (h : L.Depicts net m) {r : Receipt} (he : e.data = .bridgeReceive r) :
    m.answer (.byNonce r.origin r.nonce e.domain) =
      (.ok ((L.addressee? net .received e).map (Journey.record net)), m) := by
  rw [Memory.answer, h.find?_values fun j => j.isOfNonce_record net he]

/-- The record that is found for a processing. -/
theorem byHash (h : L.Depicts net m) {p : Processing} (he : e.data = .process p) :
    m.answer (.byHash p.messageHash) =
      (.ok ((L.addressee? net .processed e).map (Journey.record net)), m) := by
  rw [Memory.answer, h.find?, addressee?_process net he]

end Ledger.Depicts

end Waybill
