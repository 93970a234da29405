import Waybill.Message.Transition
import Waybill.Proofs.Pending.Lookup
/-!
# Marks of a message and what it heard

Five kinds of events leave a mark on a message. Which event left each mark, its history, is all
that a message has beyond its dispatch: state, times, gas, flags, sender and transaction follow
from it. The transitions of a message are steps of its history, and a later event of a mark takes
the place of an earlier one.

## Main definitions

* `Message.Mark`: the kinds of events that leave a mark.
* `Message.lookup?`: what the pool is asked for to find an event of a mark.
* `Message.take`: the transition of a mark.
* `Message.History`, `Message.after`: events by their marks, and the message they make.

## Main results

* `Message.take_after`: a transition is a step of the history.
-/

namespace Waybill

namespace Message

/-- The kinds of events that leave a mark on a message. -/
inductive Mark where
  | sent
  | updated
  | relayed
  | received
  | processed
deriving DecidableEq

/-- The state that a mark brings a message to. The sending of tokens moves no message. -/
def Mark.state : Mark → State
  | sent => .dispatched
  | updated => .updated
  | relayed => .relayed
  | received => .received
  | processed => .processed

/-- Whether an event of a mark reaches all messages of a root. -/
def Mark.isOfRoot : Mark → Bool
  | updated | relayed => true
  | _ => false

/-- Whether a mark was left. -/
def Seen.has (s : Seen) : Mark → Bool
  | .sent => s.sent
  | .updated => s.updated
  | .relayed => s.relayed
  | .received => s.received
  | .processed => s.processed

/-- Leaves a mark. -/
def Seen.mark (s : Seen) : Mark → Seen
  | .sent => { s with sent := true }
  | .updated => { s with updated := true }
  | .relayed => { s with relayed := true }
  | .received => { s with received := true }
  | .processed => { s with processed := true }

/-- The furthest state that the marks bring a message to. -/
def Seen.furthest (s : Seen) : State :=
  if s.processed then .processed
  else if s.received then .received
  else if s.relayed then .relayed
  else if s.updated then .updated
  else .dispatched

theorem Seen.furthest_mark (s : Seen) (k : Mark) :
    (s.mark k).furthest = if s.furthest.precedes k.state then k.state else s.furthest := by
  obtain ⟨sent, updated, relayed, received, processed⟩ := s
  cases k <;> revert sent updated relayed received processed <;> decide

end Message

namespace Event

/-- The mark that an event leaves. A dispatch leaves none. -/
def mark? (e : Event) : Option Message.Mark :=
  match e.data with
  | .dispatch _ => none
  | .homeUpdate _ => some .updated
  | .replicaUpdate _ => some .relayed
  | .process _ => some .processed
  | .bridgeSend _ => some .sent
  | .bridgeReceive _ => some .received

/-- An event is one of a root, or it is not. -/
theorem isOfRoot_cases (e : Event) : (∀ k, e.mark? = some k → k.isOfRoot = false) ∨
    ∃ k, e.mark? = some k ∧ k.isOfRoot = true := by
  cases hk : e.mark? with
  | none => exact .inl nofun
  | some k =>
    cases hroot : k.isOfRoot with
    | true => exact .inr ⟨k, rfl, hroot⟩
    | false => exact .inl fun _ h => Option.some.inj h ▸ hroot

/-- Who sent the tokens, in the report of a sending. -/
def tokenSender? (e : Event) : Option Identifier :=
  match e.data with
  | .bridgeSend s => some s.sender
  | _ => none

theorem mark?_eq_none_iff (e : Event) : e.mark? = none ↔ ∃ d, e.data = .dispatch d := by
  rw [mark?]
  cases e.data <;> simp

theorem ofEvent?_eq_none_iff (e : Event) : Pending.Lookup.ofEvent? e = none ↔ e.mark? = none := by
  rw [mark?, Pending.Lookup.ofEvent?]
  cases e.data <;> simp

end Event

namespace Pending.Lookup

/-- The mark that the events of a lookup leave. -/
def mark : Lookup → Message.Mark
  | send _ _ _ _ => .sent
  | update _ _ => .updated
  | relay _ _ => .relayed
  | receive _ _ _ => .received
  | process _ => .processed

theorem mark_of_ofEvent? {e : Event} {l : Lookup} (h : ofEvent? e = some l) :
    e.mark? = some l.mark := by
  rw [ofEvent?] at h
  rw [Event.mark?]
  revert h
  cases e.data <;> rintro ⟨⟩ <;> rfl

theorem keepsAll_eq_isOfRoot (l : Lookup) : l.keepsAll = l.mark.isOfRoot := by
  cases l <;> rfl

theorem keepsAll_of_mark {e : Event} {k : Message.Mark} {l : Lookup} (hmark : e.mark? = some k)
    (hl : ofEvent? e = some l) : l.keepsAll = k.isOfRoot := by
  obtain rfl := Option.some.inj ((mark_of_ofEvent? hl).symm.trans hmark)
  exact keepsAll_eq_isOfRoot l

end Pending.Lookup

namespace Message

open Pending (Lookup)

/-! ### The events of a mark that concern a message -/

/-- What the pool is asked for to find an event of a mark. Only for a transfer there is a sending
to be found. -/
def lookup? (m : Message) : Mark → Option Lookup
  | .sent => m.transfer?.map fun t =>
    .send m.identity.destination t.recipient t.amount m.identity.dispatchBlock
  | .updated => some (.update m.identity.origin m.identity.root)
  | .relayed => some (.relay m.identity.origin m.identity.root)
  | .received => some (.receive m.identity.origin m.identity.nonce m.identity.destination)
  | .processed => some (.process m.identity.hash)

/-- Whether a message takes a mark: only a transfer has tokens that are sent and received. -/
def admits (m : Message) : Mark → Bool
  | .sent | .received => m.isTransfer
  | _ => true

/-- Whether an event that is found for a mark leaves it: of the replicas of a root only the one at
the destination concerns a message. -/
def heeds (m : Message) (k : Mark) (e : Event) : Bool :=
  k != .relayed || e.domain == m.identity.destination

theorem mark_of_lookup? {m : Message} {k : Mark} {l : Lookup} (h : m.lookup? k = some l) :
    l.mark = k := by
  cases k <;> simp only [lookup?, Option.map_eq_some_iff, Option.some.injEq] at h
  · obtain ⟨t, -, rfl⟩ := h
    rfl
  all_goals
    subst h
    rfl

theorem lookup?_eq_none {m : Message} {k : Mark} (h : m.lookup? k = none) : m.admits k = false := by
  cases k <;> simp only [lookup?, Option.map_eq_none_iff, reduceCtorEq] at h
  rw [admits, isTransfer, h]
  rfl

/-- A message that looks for a sending is a transfer. -/
theorem admits_sent_of_lookup? {m : Message} {l : Lookup} (h : m.lookup? .sent = some l) :
    m.admits .sent = true := by
  rw [lookup?, Option.map_eq_some_iff] at h
  obtain ⟨t, ht, -⟩ := h
  rw [admits, isTransfer, ht, Option.isSome_some]

theorem admits_of_isOfRoot {k : Mark} (h : k.isOfRoot = true) (m : Message) :
    m.admits k = true := by
  cases k <;> simp_all [Mark.isOfRoot, admits]

theorem heeds_of_not_isOfRoot {k : Mark} (h : k.isOfRoot = false) (m : Message) (e : Event) :
    m.heeds k e = true := by
  cases k <;> simp_all [Mark.isOfRoot, heeds]

/-! ### Transitions by their marks -/

/-- Leaves a mark with the time and the gas of its event. -/
def stamp (m : Message) (k : Mark) (e : Event) : Message :=
  let m := { m with seen := m.seen.mark k }
  match k with
  | .sent => { m with sender := e.tokenSender?, tx := some e.tx }
  | .updated => { m with
    times := { m.times with updated := e.timestamp }, gas := { m.gas with updated := e.gasUsed } }
  | .relayed => { m with
    times := { m.times with relayed := e.timestamp }, gas := { m.gas with relayed := e.gasUsed } }
  | .received => { m with
    times := { m.times with received := e.timestamp }, gas := { m.gas with received := e.gasUsed } }
  | .processed => { m with
    times := { m.times with processed := e.timestamp }
    gas := { m.gas with processed := e.gasUsed } }

/-- The transition of a mark, and whether the state moved. -/
def take : Mark → Message → Event → Message × Bool
  | .sent, m, e =>
    ({ m with sender := e.tokenSender?, tx := some e.tx, seen := { m.seen with sent := true } },
      false)
  | .updated, m, e => m.update e
  | .relayed, m, e => m.relay e
  | .received, m, e => m.receive e
  | .processed, m, e => m.process e

theorem attachSend?_eq {m : Message} (h : m.isTransfer = true) {e : Event} {s : Send}
    (he : e.data = .bridgeSend s) : m.attachSend? e s = some (m.take .sent e).1 := by
  rw [attachSend?, if_pos h, take, Event.tokenSender?, he]

/-! ### Histories -/

/-- Which event left each mark. -/
abbrev History := Mark → Option Event

namespace History

/-- No mark was left. -/
def none : History := fun _ => .none

/-- An event leaves a mark, in place of the one that left it before. -/
def note (h : History) (k : Mark) (e : Event) : History := fun j => if j = k then some e else h j

@[simp] theorem note_self (h : History) (k : Mark) (e : Event) : h.note k e k = some e :=
  if_pos rfl

theorem note_of_ne (h : History) {j k : Mark} (hjk : j ≠ k) (e : Event) : h.note k e j = h j :=
  if_neg hjk

@[simp] theorem note_note (h : History) (k : Mark) (d e : Event) :
    (h.note k d).note k e = h.note k e := by
  funext j
  by_cases hj : j = k <;> simp [note, hj]

/-- Fills those of the given marks that were not left. -/
def fill (h : History) (ks : List Mark) (pending : History) : History :=
  fun k => if k ∈ ks then (h k).or (pending k) else h k

@[simp] theorem fill_nil (h pending : History) : h.fill [] pending = h := by
  funext k
  simp [fill]

theorem fill_fill (h : History) (k : Mark) (ks : List Mark) (pending : History) :
    (h.fill [k] pending).fill ks pending = h.fill (k :: ks) pending := by
  funext j
  by_cases hj : j = k
  · subst hj
    cases hh : h j <;> by_cases hks : j ∈ ks <;> simp [fill, hh, hks]
  · simp [fill, hj]

/-- A mark that was left, or for which nothing is pending, is filled already. -/
theorem fill_of_skip {h pending : History} {k : Mark}
    (hskip : (h k).isSome = true ∨ pending k = .none) : h.fill [k] pending = h := by
  funext j
  by_cases hj : j = k
  · subst hj
    rcases hskip with hsome | hnone
    · obtain ⟨e, he⟩ := Option.isSome_iff_exists.mp hsome
      simp [fill, he]
    · simp [fill, hnone]
  · simp [fill, hj]

theorem fill_eq_note {h pending : History} {k : Mark} {e : Event} (hk : h k = .none)
    (he : pending k = some e) : h.fill [k] pending = h.note k e := by
  funext j
  by_cases hj : j = k
  · subst hj
    simp [fill, hk, he]
  · simp [fill, note, hj]

/-- The marks that were left. -/
def seen (h : History) : Seen :=
  ⟨(h .sent).isSome, (h .updated).isSome, (h .relayed).isSome, (h .received).isSome,
    (h .processed).isSome⟩

@[simp] theorem has_seen (h : History) (k : Mark) : h.seen.has k = (h k).isSome := by
  cases k <;> rfl

theorem seen_note (h : History) (k : Mark) (e : Event) : (h.note k e).seen = h.seen.mark k := by
  cases k <;> rfl

end History

/-- A message that was just dispatched, after the events of a history. -/
def after (b : Message) (h : History) : Message :=
  { b with
    state := h.seen.furthest
    times := ⟨b.times.dispatched, ((h .updated).map Event.timestamp).getD 0,
      ((h .relayed).map Event.timestamp).getD 0, ((h .received).map Event.timestamp).getD 0,
      ((h .processed).map Event.timestamp).getD 0⟩
    gas := ⟨b.gas.dispatched, ((h .updated).map Event.gasUsed).getD 0,
      ((h .relayed).map Event.gasUsed).getD 0, ((h .received).map Event.gasUsed).getD 0,
      ((h .processed).map Event.gasUsed).getD 0⟩
    seen := h.seen
    sender := (h .sent).bind Event.tokenSender?
    tx := ((h .sent).map Event.tx).or b.tx }

section After

variable (b : Message) (h : History)

@[simp] theorem seen_after : (b.after h).seen = h.seen := rfl

@[simp] theorem lookup?_after (k : Mark) : (b.after h).lookup? k = b.lookup? k := by
  cases k <;> rfl

@[simp] theorem admits_after (k : Mark) : (b.after h).admits k = b.admits k := by
  cases k <;> rfl

@[simp] theorem heeds_after (k : Mark) (e : Event) : (b.after h).heeds k e = b.heeds k e := rfl

end After

/-! ### Transitions as steps of the history -/

theorem advance_fst (m : Message) (target : State) :
    (m.advance target).1 =
      { m with state := if m.state.precedes target then target else m.state } := by
  rw [advance]
  split <;> rfl

/-- A transition stamps the message with its event and moves the state on. -/
theorem take_eq (m : Message) (k : Mark) (e : Event) :
    m.take k e = if m.heeds k e then (m.stamp k e).advance k.state else (m, false) := by
  cases k with
  | sent =>
    have hrest : ∀ m : Message, m.advance .dispatched = (m, false) := by
      intro m
      rw [advance, if_neg]
      simp [State.precedes, State.rank]
    exact (hrest _).symm
  | relayed =>
    rw [take, relay, heeds, bne_self_eq_false, Bool.false_or]
    by_cases hd : e.domain = m.identity.destination
    · rw [if_neg (not_not_intro hd), if_pos (beq_iff_eq.mpr hd)]
      rfl
    · rw [if_pos hd, if_neg (mt beq_iff_eq.mp hd)]
  | updated => rfl
  | received => rfl
  | processed => rfl

/-- An event that leaves a mark in a history stamps the message. -/
theorem stamp_after (b : Message) (h : History) {k : Mark} {e : Event} :
    (b.after h).stamp k e = { b.after (h.note k e) with state := h.seen.furthest } := by
  cases k <;> rfl

/-- A transition is a step of the history. -/
theorem take_after (b : Message) (h : History) (k : Mark) (e : Event) :
    ((b.after h).take k e).1 = if b.heeds k e then b.after (h.note k e) else b.after h := by
  rw [take_eq, heeds_after]
  split
  · rw [advance_fst, stamp_after, ← Seen.furthest_mark, ← History.seen_note h k e]
    rfl
  · rfl

end Message

end Waybill
