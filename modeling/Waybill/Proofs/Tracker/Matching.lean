import Waybill.Proofs.Message.Columns
import Waybill.Proofs.Store.Selection
import Waybill.Proofs.Tracker.Runs
/-!
# Events and messages that match

Whether an event concerns a message is decided twice. If the event comes first, it waits under a
key that spells its values, and the message that comes later spells its own values in the same way.
If the message comes first, the work on the event begins with a question to the stores, and the
columns of the record are compared. Both ways the same events and messages are brought together.
The receipt of tokens alone is found by its number for a message that is no transfer as well; such
a message does not look for it.

## Main definitions

* `Message.slot?`: where in the pool an event of a mark waits for a message.
* `Task.keysAsked`: the keys that a task asks for while it finds nothing.

## Main results

* `Tracker.exists_question`: the work on an event begins with a question for its messages.
* `Tracker.keysAsked_catchUp`: the keys that a new message asks for.
* `Tracker.waits_for_iff_selects`: an event waits where a message looks for it exactly if the
  question of the event selects the record of the message.
-/

namespace Waybill

open Waybill.Pending Message

/-- What the dispatch of the transfer fixes. -/
def Sample.identity : Identity :=
  ⟨1, 2, 5, default, default, 0, List.replicate 112 0 ++ 3 :: List.replicate 96 0, 7⟩

/-- Where in the pool an event of a mark waits for a message. -/
def Message.slot? (m : Message) (k : Mark) : Option Slot := (m.lookup? k).map Lookup.slot

/-- The keys of the pool that a task asks for, as long as it finds nothing under them. -/
def Task.keysAsked {α : Type} : Task α → List (String × String)
  | .done _ | .fail _ => []
  | .tell _ t => t.keysAsked
  | .ask (.get bucket key) k => (bucket, key) :: (k none).keysAsked
  | .ask _ _ => []

namespace Tracker

variable {net : Network} {m : Message} {e : Event} {k : Mark}

/-- An event waits at the slot where a message looks for it if it answers what is looked for. -/
theorem ofEvent?_eq_slot?_iff : Slot.ofEvent? e = m.slot? k ↔ m.lookup? k = Lookup.ofEvent? e := by
  rw [Lookup.slot_ofEvent?, slot?]
  constructor
  · intro h
    exact (Option.map_injective (fun _ _ => Lookup.slot_injective) h).symm
  · intro h
    rw [h]

/-- The work on an event begins with a question, and the question is for the records of the
messages that look for the event. -/
theorem exists_question (net : Network) (he : e.mark? = some k) :
    ∃ c next, branches net e = .ask c next ∧
      ∀ m, c.selects (Record.ofMessage net m) = true ↔ m.lookup? k = Lookup.ofEvent? e := by
  rw [Event.mark?] at he
  rw [Lookup.ofEvent?]
  cases hdata : e.data with
  | dispatch d =>
    rw [hdata] at he
    cases he
  | homeUpdate u =>
    rw [hdata] at he
    obtain rfl := Option.some.inj he
    refine ⟨.byRoot u.homeDomain u.oldRoot, _, by rw [branches, hdata]; rfl, fun m => ?_⟩
    simp [Call.selects, Record.isOfRoot_ofMessage_iff, lookup?]
  | replicaUpdate u =>
    rw [hdata] at he
    obtain rfl := Option.some.inj he
    refine ⟨.byRoot u.homeDomain u.oldRoot, _, by rw [branches, hdata]; rfl, fun m => ?_⟩
    simp [Call.selects, Record.isOfRoot_ofMessage_iff, lookup?]
  | process p =>
    rw [hdata] at he
    obtain rfl := Option.some.inj he
    refine ⟨.byHash p.messageHash, _, by rw [branches, hdata]; rfl, fun m => ?_⟩
    rw [Call.selects, beq_iff_eq, Record.messageHash_ofMessage_iff]
  | bridgeSend s =>
    rw [hdata] at he
    obtain rfl := Option.some.inj he
    exact ⟨.bySend s.toDomain s.toId s.amount e.block, _, by rw [branches, hdata]; rfl,
      fun m => Record.isOfSend_ofMessage_iff⟩
  | bridgeReceive r =>
    rw [hdata] at he
    obtain rfl := Option.some.inj he
    exact ⟨.byNonce r.origin r.nonce e.domain, _, by rw [branches, hdata]; rfl,
      fun m => Record.isOfNonce_ofMessage_iff⟩

/-- A message that has seen nothing asks for one key for each mark that it takes. -/
theorem keysAsked_catchUp (hm : m.seen = .none) : (catchUp m).keysAsked =
    Mark.all.filterMap fun k => if m.admits k then (m.lookup? k).map Lookup.place else none := by
  obtain ⟨identity, sender, recipient, payload, state, times, gas, seen, tokenSender, tx⟩ := m
  subst hm
  cases payload <;> rfl

/-- What a message looks for is a mark of its own. -/
theorem mem_keysAsked_iff (hm : m.seen = .none) {l : Lookup} : l.place ∈ (catchUp m).keysAsked ↔
    m.admits l.mark = true ∧ m.lookup? l.mark = some l := by
  rw [keysAsked_catchUp hm, List.mem_filterMap]
  constructor
  · rintro ⟨k, -, hk⟩
    split at hk
    · next hadmits =>
      obtain ⟨l', hl', hplace⟩ := Option.map_eq_some_iff.mp hk
      obtain rfl := Lookup.place_injective hplace
      obtain rfl := mark_of_lookup? hl'
      exact ⟨hadmits, hl'⟩
    · cases hk
  · rintro ⟨hadmits, hl⟩
    exact ⟨l.mark, Mark.mem_all _, by rw [if_pos hadmits, hl, Option.map_some]⟩

/-- An event waits where a new message looks for it exactly if the question with which the work on
the event begins selects the record of the message, in memory and in the database alike. The
message asks the pool for the event then, unless it takes no such event; a message that is no
transfer is never selected by the values of a sending. -/
theorem waits_for_iff_selects (net : Network) (identity : Identity) (dispatchedAt : UInt64)
    (he : e.mark? = some k) :
    let m := Message.new net identity dispatchedAt
    let r := Record.ofMessage net m
    ∃ c next, branches net e = .ask c next ∧
      (Slot.ofEvent? e = m.slot? k ↔ c.selects r = true) ∧
      (Slot.ofEvent? e = m.slot? k ↔ c.filters (Row.ofRecord r) = true) ∧
      ((∃ slot, Slot.ofEvent? e = some slot ∧
          (slot.bucket.name, slot.key) ∈ (catchUp m).keysAsked) ↔
        m.admits k = true ∧ c.selects r = true) ∧
      (m.isTransfer = false → ∀ destination recipient amount block,
        (Call.bySend destination recipient amount block).selects r = false ∧
          (Call.bySend destination recipient amount block).filters (Row.ofRecord r) = false) := by
  intro m r
  obtain ⟨c, next, hask, hselects⟩ := exists_question net he
  have hmatch : Slot.ofEvent? e = m.slot? k ↔ c.selects r = true :=
    ofEvent?_eq_slot?_iff.trans (hselects m).symm
  refine ⟨c, next, hask, hmatch, by rwa [Call.filters_ofRecord], ?_, ?_⟩
  · rw [hselects m, Lookup.slot_ofEvent?]
    cases hl : Lookup.ofEvent? e with
    | none => cases (Event.ofEvent?_eq_none_iff e).mp hl ▸ he
    | some l =>
      obtain rfl := Option.some.inj ((Lookup.mark_of_ofEvent? hl).symm.trans he)
      rw [← mem_keysAsked_iff (m := m) rfl]
      simp [Lookup.place]
  · intro htransfer destination recipient amount block
    rw [Call.filters_ofRecord, and_self, ← Bool.not_eq_true]
    refine mt Record.isOfSend_ofMessage_iff.mp ?_
    have hnone : m.transfer? = none := by simpa [isTransfer] using htransfer
    rw [lookup?, hnone]
    rintro ⟨⟩

/-- The sending of the tokens of the transfer waits where the transfer looks for it exactly if the
question for it selects the record of the transfer. -/
theorem waits_for_iff_selects_send :
    Sample.send.mark? = some .sent ∧
      ∃ c next, branches Sample.network Sample.send = .ask c next ∧
        (Slot.ofEvent? Sample.send = (Message.new Sample.network Sample.identity 100).slot? .sent ↔
          c.selects (.ofMessage Sample.network (.new Sample.network Sample.identity 100)) =
            true) := by
  refine ⟨rfl, ?_⟩
  obtain ⟨c, next, hask, hmatch, -⟩ := waits_for_iff_selects Sample.network Sample.identity 100
    (show Sample.send.mark? = some .sent from rfl)
  exact ⟨c, next, hask, hmatch⟩

end Tracker

end Waybill
