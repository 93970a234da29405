import Waybill.Proofs.Ledger.Account
import Waybill.Proofs.Ledger.Growth
import Waybill.Proofs.Tracker.Runs
/-!
# Stored records are well formed

Flags, state, times, gas and what is told of a transfer are set in different places, and calls that
are refused may break off the work at any point. Still every record that is ever stored makes sense
in itself: it is kept under its own hash, it is read back without loss, its state is the greatest
that its flags tell of, there is neither time nor gas of what was not flagged, and only a transfer
has tokens that were sent or received.

## Main definitions

* `Record.flags`, `Record.moments`, `Record.gasTexts`: what a record tells of each state.
* `Record.IsTransfer`: a record is that of a transfer.
* `Record.WellFormed`: a record that makes sense under a key.
* `Tracker.Attained`: what is stored after any calls, broken off or not.

## Main results

* `Ledger.Sound.wellFormed`: the record of a journey whose events concern it is well formed.
* `Tracker.wellFormed_of_attained`: so is every record that is ever stored.
-/

namespace Waybill

open Waybill.Pending Message

/-! ### Records that make sense -/

namespace Record

/-- For each state whether the event that brings it is flagged. A message was dispatched from its
beginning. -/
def flags (r : Record) : ByState Bool := ⟨true, r.updated, r.relayed, r.received, r.processed⟩

/-- The times of the events that bring the states. -/
def moments (r : Record) : ByState UInt64 :=
  ⟨r.dispatchedAt, r.updatedAt, r.relayedAt, r.receivedAt, r.processedAt⟩

/-- The gas of the events that bring the states. -/
def gasTexts (r : Record) : ByState String :=
  ⟨r.gasAtDispatch, r.gasAtUpdate, r.gasAtRelay, r.gasAtReceive, r.gasAtProcess⟩

/-- A record is that of a transfer, and tells all of it. -/
structure IsTransfer (r : Record) : Prop where
  msgType : r.msgType = 1
  recipient : r.recipient.isSome = true
  amount : r.amount.isSome = true
  detailsHash : r.detailsHash.isSome = true
  tokenDomain : r.tokenDomain.isSome = true
  tokenId : r.tokenId.isSome = true

/-- A record makes sense under the key where it is stored. -/
structure WellFormed (net : Network) (key : String) (r : Record) : Prop where
  keyed : key = r.messageHash
  lower : ∀ c ∈ key.toList, c.isUpper = false
  /-- Nothing is lost when the message is taken up and stored again. -/
  restored : (Message.ofRecord net r).map (ofMessage net) = .ok r
  /-- The state is the greatest of those that are flagged. -/
  state : ∃ s : State, r.state = s.code ∧ r.flags.get s = true ∧
    ∀ t, r.flags.get t = true → t.rank ≤ s.rank
  unflagged : ∀ s, r.flags.get s = false → r.moments.get s = 0 ∧ r.gasTexts.get s = "0x0"
  tx : r.tx.isSome = true
  sender : r.sender.isSome = r.sent
  transfer : r.sent = true ∨ r.received = true → r.IsTransfer

end Record

/-- No character of a written digest is an upper-case letter. -/
theorem Digest.isUpper_of_mem_text {d : Digest} {c : Char} (h : c ∈ d.text.toList) :
    c.isUpper = false := by
  rw [Digest.text, String.toList_ofList, Digest.chars, List.mem_cons, List.mem_cons] at h
  rcases h with rfl | rfl | h
  · rfl
  · rfl
  · obtain ⟨n, hn, rfl⟩ := Hex.mem_encode h
    exact Hex.digit_cases (P := fun c => c.isUpper = false) (by decide) hn

theorem Payload.transfer?_eq_some {p : Payload} {t : Transfer} :
    p.transfer? = some t ↔ p = .transfer t := by
  cases p <;> simp [transfer?]

/-- A report of a sending tells who sent the tokens. -/
theorem Event.isSome_tokenSender? {e : Event} (h : e.mark? = some .sent) :
    e.tokenSender?.isSome = true := by
  rw [mark?] at h
  rw [tokenSender?]
  cases hdata : e.data <;> simp_all

namespace Message.Seen

/-- For each state whether the mark that brings it was left. -/
def flags (s : Seen) : ByState Bool := ⟨true, s.updated, s.relayed, s.received, s.processed⟩

/-- The furthest state that marks bring a message to is one of theirs. -/
theorem get_flags_furthest (s : Seen) : s.flags.get s.furthest = true := by
  obtain ⟨sent, updated, relayed, received, processed⟩ := s
  revert sent updated relayed received processed
  decide

/-- No mark brings a message further. -/
theorem rank_le_furthest (s : Seen) {t : State} (h : s.flags.get t = true) :
    t.rank ≤ s.furthest.rank := by
  obtain ⟨sent, updated, relayed, received, processed⟩ := s
  revert sent updated relayed received processed
  cases t <;> decide

end Message.Seen

/-! ### The records of journeys -/

namespace Journey

variable {net : Network} {j : Journey}

theorem isTransfer_record (h : (j.base net).isTransfer = true) : (j.record net).IsTransfer := by
  obtain ⟨t, ht⟩ := Option.isSome_iff_exists.mp h
  have hpayload : (j.message net).payload = .transfer t := Payload.transfer?_eq_some.mp ht
  have htransfer : (j.message net).transfer? = some t := ht
  constructor <;> simp [record, Record.ofMessage, htransfer, hpayload, Payload.kindCode]

/-- There is neither time nor gas of an event that was not heard. -/
theorem unflagged_record (s : State) (h : (j.record net).flags.get s = false) :
    (j.record net).moments.get s = 0 ∧ (j.record net).gasTexts.get s = "0x0" := by
  have hzero : Word.hex 0#256 = "0x0" := by decide
  cases s with
  | dispatched => cases h
  | _ =>
    simp only [record, Record.ofMessage, Record.flags, message, after, History.seen, ByState.get,
      Option.isSome_eq_false_iff, Option.isNone_iff_eq_none] at h
    simp [record, Record.ofMessage, Record.moments, Record.gasTexts, message, after, ByState.get, h,
      hzero]

end Journey

namespace Ledger

variable {net : Network} {L : Ledger} {es : List Event}

/-- A record of a message that heard nothing but what concerns it is well formed. -/
theorem Sound.wellFormed (h : L.Sound net es) {key : String} {j : Journey}
    (hj : L.journeys.find? key = some j) : (j.record net).WellFormed net key where
  keyed := (L.keyed hj).symm
  lower c hc := by
    rw [← L.keyed hj] at hc
    exact Digest.isUpper_of_mem_text hc
  restored := by
    rw [Journey.record, (j.isUnpacked_message net).ofRecord_ofMessage]
    rfl
  state := ⟨j.heard.seen.furthest, rfl, j.heard.seen.get_flags_furthest, fun t ht =>
    j.heard.seen.rank_le_furthest ht⟩
  unflagged := Journey.unflagged_record
  tx := by
    have htx : (j.message net).tx = ((j.heard .sent).map Event.tx).or (some j.start.tx) := rfl
    rw [Journey.record, Record.ofMessage, Option.isSome_map, htx, Option.isSome_or,
      Option.isSome_some, Bool.or_true]
  sender := by
    have hsender : (j.message net).sender = (j.heard .sent).bind Event.tokenSender? := rfl
    have hflag : (j.message net).seen.sent = (j.heard .sent).isSome := rfl
    rw [Journey.record, Record.ofMessage, Option.isSome_map, hsender, hflag]
    cases hsent : j.heard .sent with
    | none => rfl
    | some e =>
      have hmark : e.mark? = some .sent := (h.heard hj hsent).2.mark?
      rw [Option.bind_some, Event.isSome_tokenSender? hmark, Option.isSome_some]
  transfer hflag := by
    have hadmits {k : Mark} (hk : (j.heard k).isSome = true) : (j.base net).admits k = true := by
      obtain ⟨e, he⟩ := Option.isSome_iff_exists.mp hk
      exact (h.heard hj he).2.admits
    have htransfer : (j.base net).isTransfer = true :=
      hflag.elim (fun hsent => hadmits hsent)
        (fun hreceived => hadmits hreceived)
    exact Journey.isTransfer_record htransfer

end Ledger

/-! ### All that is ever stored -/

namespace Tracker

/-- What is stored after any calls from empty stores, whichever of them were broken off. -/
inductive Attained (net : Network) : Memory → Prop
  | empty : Attained net Memory.empty
  | consumed {σ : Type} (v : Service σ) {s : σ} (h : Attained net (v.contents s))
      (batch : List Event) : Attained net (v.contents (consume v.backend v.fan net batch s).state)

variable {net : Network} {m : Memory}

/-- Whatever calls are broken off, what is stored stands for a ledger that holds nothing but what
there was an event for. -/
theorem Attained.ledger (h : Attained net m) :
    ∃ (L : Ledger) (es : List Event), L.Depicts net m ∧ L.Sound net es := by
  induction h with
  | empty => exact ⟨.empty, [], Ledger.depicts_empty net, Ledger.sound_empty net []⟩
  | consumed v _ batch ih =>
    obtain ⟨L, es, hm, hsound⟩ := ih
    have hsound : L.Sound net (es ++ batch) := hsound.mono fun e he => List.mem_append_left _ he
    obtain ⟨L', hm', hsound'⟩ := v.consume_keeps
      (fun he hmoves h => Ledger.Sound.moves h (List.mem_append_right es he) hmoves) hm hsound
    exact ⟨L', es ++ batch, hm', hsound'⟩

/-- Every record that is ever stored is well formed, whichever calls were broken off. -/
theorem wellFormed_of_attained (h : Attained net m) {key : String} {r : Record}
    (hr : m.records.find? key = some r) : r.WellFormed net key := by
  obtain ⟨L, es, hm, hsound⟩ := h.ledger
  rw [hm.find?, Option.map_eq_some_iff] at hr
  obtain ⟨j, hj, rfl⟩ := hr
  exact hsound.wellFormed hj

/-- A batch is broken off at its first call, and then consumed to its end. -/
theorem wellFormed_of_attained_sample :
    let v := Stores.faltering.oneByOne
    let batch := [Sample.send, Sample.dispatch, Sample.process]
    let broken := consume v.backend v.fan Sample.network batch (Memory.empty, some 0)
    let done := consume v.backend v.fan Sample.network batch broken.state
    (∃ f, broken.result = .error f) ∧
      ∃ r, (v.contents done.state).records.find? (default : Digest).text = some r ∧
        r.WellFormed Sample.network (default : Digest).text := by
  intro v batch broken done
  have hbroken : Attained Sample.network (v.contents broken.state) :=
    .consumed v (s := (Memory.empty, some 0)) .empty batch
  have hdone : Attained Sample.network (v.contents done.state) := .consumed v hbroken batch
  obtain ⟨L, es, hm, -⟩ := hbroken.ledger
  obtain ⟨-, hdepicts⟩ := v.consume_depicts hm (rfl : broken.state.2 = none) batch
  have hmem : Sample.dispatch ∈ batch := by simp [batch]
  obtain ⟨j, hj⟩ := (L.covered_steps Sample.network hmem).exists_journey rfl
  have hr : (v.contents done.state).records.find? (default : Digest).text =
      some (j.record Sample.network) := by
    rw [hdepicts.find?]
    exact congrArg _ hj
  exact ⟨⟨_, rfl⟩, _, hr, wellFormed_of_attained hdone hr⟩

end Tracker

end Waybill
