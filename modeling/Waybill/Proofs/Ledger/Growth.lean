import Mathlib.Tactic.SplitIfs
import Waybill.Proofs.Tracker.Lookups
import Waybill.Proofs.Ledger.Moves
/-!
# Messages go on

Whatever an event does to a message, what its dispatch fixed stays, its state does not go back, and
no mark is lost. So what is stored of it goes on: a record of it stays stored, and what is read
back from a later record is the same message, further on.

## Main definitions

* `Message.GoesOn`, `Record.GoesOn`, `Memory.GoesOn`: messages, records, and all that is stored,
  earlier and later.

## Main results

* `Message.goesOn_after`: a message goes on as it hears more.
* `Ledger.Moves.goesOn`: all that is stored goes on as a ledger moves.
-/

namespace Waybill

open Waybill.Pending Message

/-! ### Messages -/

theorem State.code_le_code_iff {s t : State} : s.code ≤ t.code ↔ s.rank ≤ t.rank := by
  cases s <;> cases t <;> decide

namespace Message

/-- The marks of a message that has more of them bring it at least as far. -/
theorem Seen.rank_furthest_le {s t : Seen} (h : ∀ k, s.has k = true → t.has k = true) :
    s.furthest.rank ≤ t.furthest.rank := by
  have hupdated := h .updated
  have hrelayed := h .relayed
  have hreceived := h .received
  have hprocessed := h .processed
  simp only [has] at hupdated hrelayed hreceived hprocessed
  rw [furthest, furthest]
  split_ifs <;> simp_all [State.rank]

/-- A message and the same one later: what its dispatch fixed is the same, its state did not go
back, and all its marks are still there. -/
structure GoesOn (m m' : Message) : Prop where
  identity : m'.identity = m.identity
  internalSender : m'.internalSender = m.internalSender
  internalRecipient : m'.internalRecipient = m.internalRecipient
  payload : m'.payload = m.payload
  dispatchedAt : m'.times.dispatched = m.times.dispatched
  gasAtDispatch : m'.gas.dispatched = m.gas.dispatched
  state : m.state.code ≤ m'.state.code
  seen : ∀ k, m.seen.has k = true → m'.seen.has k = true

namespace GoesOn

variable {m m' m'' : Message}

theorem trans (h : m.GoesOn m') (h' : m'.GoesOn m'') : m.GoesOn m'' where
  identity := h'.identity.trans h.identity
  internalSender := h'.internalSender.trans h.internalSender
  internalRecipient := h'.internalRecipient.trans h.internalRecipient
  payload := h'.payload.trans h.payload
  dispatchedAt := h'.dispatchedAt.trans h.dispatchedAt
  gasAtDispatch := h'.gasAtDispatch.trans h.gasAtDispatch
  state := Int32.le_trans h.state h'.state
  seen k hk := h'.seen k (h.seen k hk)

end GoesOn

/-- A message goes on as it hears more. -/
theorem goesOn_after (b : Message) {h h' : History}
    (hmore : ∀ k, (h k).isSome = true → (h' k).isSome = true) :
    (b.after h).GoesOn (b.after h') := by
  have hseen : ∀ k, h.seen.has k = true → h'.seen.has k = true := by simpa using hmore
  exact ⟨rfl, rfl, rfl, rfl, rfl, rfl,
    State.code_le_code_iff.mpr (Seen.rank_furthest_le hseen), hseen⟩

end Message

/-! ### Records and what is stored -/

namespace Record

/-- A record is that of a message, and the message is read back from it. -/
structure Shows (net : Network) (r : Record) (m : Message) : Prop where
  eq : r = .ofMessage net m
  read : Message.ofRecord net r = .ok m

/-- A record and a later one of the same message. -/
def GoesOn (net : Network) (r r' : Record) : Prop :=
  ∃ m m', r.Shows net m ∧ r'.Shows net m' ∧ m.GoesOn m'

theorem GoesOn.trans {net : Network} {r r' r'' : Record} (h : r.GoesOn net r')
    (h' : r'.GoesOn net r'') : r.GoesOn net r'' := by
  obtain ⟨m, m', hm, hm', hgo⟩ := h
  obtain ⟨n', n'', hn', hn'', hgo'⟩ := h'
  obtain rfl : m' = n' := Except.ok.inj (hm'.read.symm.trans hn'.read)
  exact ⟨m, n'', hm, hn'', hgo.trans hgo'⟩

end Record

namespace Memory

variable {net : Network} {m m' m'' : Memory}

/-- All that is stored is still stored later, and has gone on. -/
def GoesOn (net : Network) (m m' : Memory) : Prop :=
  ∀ key r, m.records.find? key = some r →
    ∃ r', m'.records.find? key = some r' ∧ r.GoesOn net r'

theorem GoesOn.trans (h : m.GoesOn net m') (h' : m'.GoesOn net m'') : m.GoesOn net m'' := by
  intro key r hr
  obtain ⟨r', hr', hgo⟩ := h key r hr
  obtain ⟨r'', hr'', hgo'⟩ := h' key r' hr'
  exact ⟨r'', hr'', hgo.trans hgo'⟩

/-- What is stored goes on when a record is stored that goes on from the one in its place. -/
theorem GoesOn.insert (h : m.GoesOn net m) {r : Record}
    (hr : ∀ r₀, m.records.find? r.messageHash = some r₀ → r₀.GoesOn net r) :
    m.GoesOn net { m with records := m.records.insert r.messageHash r } := by
  intro key r₀ hr₀
  by_cases hkey : key = r.messageHash
  · subst hkey
    exact ⟨r, SortedMap.find?_insert_self _ _ _, hr r₀ hr₀⟩
  · obtain ⟨r', hr', hgo⟩ := h key r₀ hr₀
    exact ⟨r', (SortedMap.find?_insert_of_ne _ hkey _).trans hr', hgo⟩

end Memory

/-! ### Ledgers -/

namespace Journey

variable (net : Network)

theorem shows_record (j : Journey) : (j.record net).Shows net (j.message net) :=
  ⟨rfl, (j.isUnpacked_message net).ofRecord_ofMessage⟩

/-- A message goes on from an earlier point of its journey to a later one. -/
theorem Within.goesOn_record {net : Network} {i j : Journey} (h : i.Within net j) :
    (i.record net).GoesOn net (j.record net) := by
  refine ⟨_, _, i.shows_record net, j.shows_record net, ?_⟩
  rw [message, message, h.base]
  exact goesOn_after _ h.heard

end Journey

namespace Ledger

variable {net : Network} {L L' : Ledger} {e : Event} {m m' : Memory}

/-- All that is stored goes on as a ledger moves. -/
theorem Moves.goesOn (h : L.Moves net e L') (hm : L.Depicts net m) (hm' : L'.Depicts net m') :
    m.GoesOn net m' := by
  intro key r hr
  rw [hm.find?, Option.map_eq_some_iff] at hr
  obtain ⟨j, hj, rfl⟩ := hr
  obtain ⟨j', hj', hwithin⟩ := h.exists_within hj
  rw [hm'.find?, hj']
  exact ⟨_, rfl, hwithin.goesOn_record⟩

theorem Depicts.goesOn_record (h : L.Depicts net m) {key : String} {r : Record}
    (hr : m.records.find? key = some r) : r.GoesOn net r := by
  rw [h.find?, Option.map_eq_some_iff] at hr
  obtain ⟨j, -, rfl⟩ := hr
  exact (Journey.Within.refl net j).goesOn_record

theorem Depicts.goesOn_self (h : L.Depicts net m) : m.GoesOn net m :=
  fun _ r hr => ⟨r, hr, h.goesOn_record hr⟩

end Ledger

end Waybill
