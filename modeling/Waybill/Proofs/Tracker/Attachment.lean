import Waybill.Proofs.Tracker.Sends
/-!
# The chain of an attached sending

The sending of the tokens of a transfer happens in the transaction that dispatches its message, so
it is reported from the chain where the message began. What is compared, though, are the values of
the transfer and the number of the block, and other chains have blocks of the same number. A record
tells of the sending that its message took, be it found waiting or handed to it, and that one is of
the chain of the message or of another chain.

## Main definitions

* `Tracker.attached?`: the sending that a message takes among events.
* `Record.IsSentBy`: a record tells of a sending.

## Main results

* `Ledger.heard_sent`: the sending that left its mark on a message is the one it takes.
* `Tracker.sent_on_own_chain_iff`: a record tells of a sending of its own chain exactly if the
  message took one.
-/

namespace Waybill

open Waybill.Pending Message

/-- A record tells of a sending: who sent the tokens and in which transaction. -/
def Record.IsSentBy (r : Record) (e : Event) : Prop :=
  ∃ d, e.data = .bridgeSend d ∧ r.sender = some d.sender.pretty ∧ r.tx = some e.tx.text

namespace Tracker

/-- The sending that the message of a hash takes among events: the last one that was handed to it,
or else the last one that was handed to none. -/
def attached? (net : Network) (es : List Event) (hash : Digest) : Option Event := do
  let (e, d) ← firstDispatch? hash es
  let l ← (created net e d).lookup? .sent
  Handing.kept (handings net l [] es) hash.text

end Tracker

/-! ### What a record tells of the sending -/

namespace Journey

variable {net : Network} {j : Journey} {e : Event}

theorem sender_record (net : Network) (j : Journey) : (j.record net).sender =
    ((j.heard .sent).bind Event.tokenSender?).map (·.pretty) :=
  rfl

theorem tx_record (net : Network) (j : Journey) : (j.record net).tx =
    some (((j.heard .sent).map Event.tx).getD j.start.tx).text := by
  change (((j.heard .sent).map Event.tx).or (some j.start.tx)).map (·.text) = _
  cases j.heard .sent <;> rfl

/-- The record of a message tells of the sending that the message heard. -/
theorem isSentBy_record (hconcerns : j.Concerns net .sent e) (he : j.heard .sent = some e) :
    (j.record net).IsSentBy e := by
  obtain ⟨-, -, d, hd, -⟩ := concerns_sent_iff.mp hconcerns
  refine ⟨d, hd, ?_, ?_⟩
  · rw [sender_record, he, Option.bind_some, Event.tokenSender?, hd]
    rfl
  · rw [tx_record, he]
    rfl

end Journey

namespace Ledger

open Tracker (attached? firstDispatch?)

variable {net : Network} {es : List Event} {hash : Digest} {j : Journey} {e : Event}

theorem firstDispatch?_of_find? (hj : (empty.steps net es).journeys.find? hash.text = some j) :
    firstDispatch? hash es = some (j.start, j.dispatch) := by
  rw [← find?_steps_empty net, hj, Option.map_some]

/-- The sending that left its mark on a message is the one that the message takes. -/
theorem heard_sent (hj : (empty.steps net es).journeys.find? hash.text = some j) :
    j.heard .sent = attached? net es hash := by
  rw [attached?, firstDispatch?_of_find? hj]
  change _ = ((j.base net).lookup? .sent).bind _
  cases hlookup : (j.base net).lookup? .sent with
  | none =>
    rw [(sound_steps_empty net es).heard_eq_none hj (lookup?_eq_none hlookup)]
    rfl
  | some l =>
    have hmark : l.mark = .sent := mark_of_lookup? hlookup
    have hadmits := admits_sent_of_lookup? hlookup
    rw [← hmark] at hlookup hadmits ⊢
    exact heard_of_single (l.keepsAll_eq_isOfRoot.trans (by rw [hmark]; rfl)) hadmits hlookup hj

/-- The record of a message that takes a sending is flagged and tells of it, and the sending has the
values of the message. -/
theorem told_of_attached (hj : (empty.steps net es).journeys.find? hash.text = some j)
    (he : attached? net es hash = some e) :
    e ∈ es ∧ (j.record net).sent = true ∧ (j.record net).IsSentBy e ∧
      ∀ d, e.data = .bridgeSend d → (j.record net).isOfSend d.toDomain d.toId.pretty
        d.amount.decimal e.block = true := by
  rw [← heard_sent hj] at he
  obtain ⟨hmem, hconcerns⟩ := (sound_steps_empty net es).heard hj he
  have hflag : (j.record net).sent = (j.heard .sent).isSome := rfl
  refine ⟨hmem, by rw [hflag, he, Option.isSome_some], Journey.isSentBy_record hconcerns he,
    fun d hd => ?_⟩
  rw [j.isOfSend_record net hd]
  exact decide_eq_true hconcerns.lookup

/-- The record of a message that takes no sending tells of none. -/
theorem untold_of_unattached (hj : (empty.steps net es).journeys.find? hash.text = some j)
    (hnone : attached? net es hash = none) :
    (j.record net).sent = false ∧ (j.record net).sender = none ∧
      (j.record net).tx = some j.start.tx.text := by
  rw [← heard_sent hj] at hnone
  have hflag : (j.record net).sent = (j.heard .sent).isSome := rfl
  rw [hflag, j.sender_record, j.tx_record, hnone]
  exact ⟨rfl, rfl, rfl⟩

end Ledger

/-! ### The chain of the sending -/

namespace Sample

/-- A sending of another chain, with the values and the block of the transfer. -/
def foreignSend : Event := { send with domain := 3, tx := companionHash }

end Sample

namespace Tracker

variable {σ : Type}

/-- After any events a record tells of the sending that its message took, and of none if it took
none. That sending is one with the values of the message. Where no other chain has a sending in the
same transaction, there is one of the chain of the message which the record tells of exactly if the
message took it. -/
theorem sent_on_own_chain_iff (v : Service σ) (net : Network) (batches : List (List Event)) {s : σ}
    (hempty : v.contents s = Memory.empty) (hsteady : v.Steady s) {hash : Digest} {r : Record}
    (hr : (v.contents (consumeAll v.backend v.fan net batches s).state).records.find? hash.text =
      some r) :
    let es := batches.flatten
    (attached? net es hash = none → r.sent = false ∧ r.sender = none ∧
      r.tx = (firstDispatch? hash es).map fun p => p.1.tx.text) ∧
    ∀ e, attached? net es hash = some e → e ∈ es ∧ r.sent = true ∧ r.IsSentBy e ∧
      (∀ d, e.data = .bridgeSend d →
        r.isOfSend d.toDomain d.toId.pretty d.amount.decimal e.block = true) ∧
      ((∀ a ∈ es, a.mark? = some .sent → a.tx = e.tx → a.domain = e.domain) →
        ((∃ a ∈ es, a.domain = r.origin ∧ r.IsSentBy a) ↔ e.domain = r.origin)) := by
  intro es
  obtain ⟨-, hdepicts, -⟩ :=
    v.consumeAll_depicts (hempty ▸ Ledger.depicts_empty net) hsteady batches
  rw [hdepicts.find?, Option.map_eq_some_iff] at hr
  obtain ⟨j, hj, rfl⟩ := hr
  refine ⟨fun hnone => ?_, fun e he => ?_⟩
  · rw [Ledger.firstDispatch?_of_find? hj]
    exact Ledger.untold_of_unattached hj hnone
  · obtain ⟨hmem, hflag, hsent, hvalues⟩ := Ledger.told_of_attached hj he
    refine ⟨hmem, hflag, hsent, hvalues, fun htx => ⟨?_, fun hdomain => ⟨e, hmem, hdomain, hsent⟩⟩⟩
    rintro ⟨a, ha, hdomain, d, hd, -, hatx⟩
    obtain ⟨-, -, -, hetx⟩ := hsent
    have hsame : a.tx = e.tx := Digest.text_injective (Option.some.inj (hatx.symm.trans hetx))
    have hmark : a.mark? = some .sent := by rw [Event.mark?, hd]
    rw [← htx a ha hmark hsame, hdomain]

/-- The sending of another chain waits first, and then that of the own chain in its place. -/
theorem sent_on_own_chain_iff_sample :
    let v := Stores.inMemory.oneByOne
    let es := [Sample.foreignSend, Sample.send, Sample.dispatch]
    let stored := (v.contents (consumeAll v.backend v.fan Sample.network [es]
      Memory.empty).state).records
    ∃ r, stored.find? (default : Digest).text = some r ∧ r.sent = true ∧
      ∃ a ∈ es, a.domain = r.origin ∧ r.IsSentBy a := by
  intro v es stored
  have hfirst : firstDispatch? default [es].flatten = some (Sample.dispatch, _) := rfl
  obtain ⟨j, -, hr, hstart, -⟩ :=
    exists_record v Sample.network [es] (s := Memory.empty) rfl trivial hfirst
  have hattached : attached? Sample.network [es].flatten default = some Sample.send := by
    decide +kernel
  have horigin : Sample.send.domain = j.start.domain := by
    rw [hstart]
    rfl
  obtain ⟨-, htold⟩ := sent_on_own_chain_iff v Sample.network [es] (s := Memory.empty) rfl
    trivial hr
  obtain ⟨-, hsent, -, -, hiff⟩ := htold _ hattached
  exact ⟨_, hr, hsent, (hiff (by decide)).mpr horigin⟩

/-- The sending of another chain is attached to a message, whether it waited for the message or came
after it. -/
theorem foreign_send_is_attached :
    let v := Stores.inMemory.oneByOne
    ∀ es ∈ [[Sample.foreignSend, Sample.dispatch], [Sample.dispatch, Sample.foreignSend]],
      ∃ r, (v.contents (consumeAll v.backend v.fan Sample.network [es]
          Memory.empty).state).records.find? (default : Digest).text = some r ∧
        r.sent = true ∧ r.IsSentBy Sample.foreignSend ∧
        ¬ ∃ a ∈ es, a.domain = r.origin ∧ r.IsSentBy a := by
  intro v es hes
  have hfirst : ∃ d, firstDispatch? default [es].flatten = some (Sample.dispatch, d) := by
    rcases List.mem_pair.mp hes with rfl | rfl <;> exact ⟨_, rfl⟩
  have hattached : attached? Sample.network [es].flatten default = some Sample.foreignSend := by
    rcases List.mem_pair.mp hes with rfl | rfl <;> decide +kernel
  have hforeign : ∀ a ∈ es, a.mark? = some .sent → a.domain ≠ Sample.dispatch.domain := by
    rcases List.mem_pair.mp hes with rfl | rfl <;> decide
  obtain ⟨d, hfirst⟩ := hfirst
  obtain ⟨j, hj, hr, hstart, -⟩ :=
    exists_record v Sample.network [es] (s := Memory.empty) rfl trivial hfirst
  obtain ⟨-, hflag, hsent, -⟩ := Ledger.told_of_attached hj hattached
  refine ⟨_, hr, hflag, hsent, ?_⟩
  rintro ⟨a, ha, hdomain, d, hd, -⟩
  have hmark : a.mark? = some .sent := by rw [Event.mark?, hd]
  exact hforeign a ha hmark (hdomain.trans (congrArg Event.domain hstart))

end Tracker

end Waybill
