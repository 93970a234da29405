import Waybill.Proofs.Ledger.Account
import Waybill.Proofs.Tracker.Runs
/-!
# Records and the history behind them

After any events, in any order and number and whether or not they fit together, the records tell
the history: a message is stored exactly if it was dispatched, as its first dispatch said, and its
flags tell which events there were for it, before its dispatch or after it. Of events that reach a
single message this is said for a message that has no rival for them.

## Main definitions

* `Tracker.firstDispatch?`: the first dispatch of a hash.
* `Tracker.Accounts`: a record tells what events there were for its message.

## Main results

* `Ledger.find?_steps_empty`: the messages of a ledger are those that were dispatched first.
* `Tracker.records_account`: the records after any batches of events.
-/

namespace Waybill

open Waybill.Pending Message

/-! ### The events that leave a mark -/

namespace Journey

variable {net : Network} {j : Journey} {a : Event}

theorem concerns_updated_iff : j.Concerns net .updated a ↔ ∃ u, a.data = .homeUpdate u ∧
    u.homeDomain = j.start.domain ∧ u.oldRoot = j.dispatch.committedRoot :=
  ⟨fun h => Lookup.ofEvent?_eq_update.mp h.lookup.symm,
    fun h => ⟨rfl, (Lookup.ofEvent?_eq_update.mpr h).symm, rfl⟩⟩

theorem concerns_relayed_iff : j.Concerns net .relayed a ↔ ∃ u, a.data = .replicaUpdate u ∧
    u.homeDomain = j.start.domain ∧ u.oldRoot = j.dispatch.committedRoot ∧
      a.domain = j.dispatch.destination := by
  have hheeds : (j.base net).heeds .relayed a = true ↔ a.domain = j.dispatch.destination := by
    rw [heeds, bne_self_eq_false, Bool.false_or, beq_iff_eq]
    rfl
  constructor
  · intro h
    obtain ⟨u, hu, hdomain, hroot⟩ := Lookup.ofEvent?_eq_relay.mp h.lookup.symm
    exact ⟨u, hu, hdomain, hroot, hheeds.mp h.heeds⟩
  · rintro ⟨u, hu, hdomain, hroot, hdestination⟩
    exact ⟨rfl, (Lookup.ofEvent?_eq_relay.mpr ⟨u, hu, hdomain, hroot⟩).symm,
      hheeds.mpr hdestination⟩

theorem concerns_processed_iff : j.Concerns net .processed a ↔ ∃ p, a.data = .process p ∧
    p.messageHash = j.dispatch.messageHash :=
  ⟨fun h => Lookup.ofEvent?_eq_process.mp h.lookup.symm,
    fun h => ⟨rfl, (Lookup.ofEvent?_eq_process.mpr h).symm, rfl⟩⟩

theorem concerns_received_iff : j.Concerns net .received a ↔ (j.base net).isTransfer = true ∧
    ∃ c, a.data = .bridgeReceive c ∧ c.origin = j.start.domain ∧ c.nonce = j.dispatch.nonce ∧
      a.domain = j.dispatch.destination :=
  ⟨fun h => ⟨h.admits, Lookup.ofEvent?_eq_receive.mp h.lookup.symm⟩,
    fun h => ⟨h.1, (Lookup.ofEvent?_eq_receive.mpr h.2).symm, rfl⟩⟩

theorem concerns_sent_iff : j.Concerns net .sent a ↔ ∃ t, (j.base net).transfer? = some t ∧
    ∃ s, a.data = .bridgeSend s ∧ s.toDomain = j.dispatch.destination ∧ s.toId = t.recipient ∧
      s.amount = t.amount ∧ a.block = j.start.block := by
  constructor
  · intro h
    obtain ⟨t, ht⟩ := Option.isSome_iff_exists.mp h.admits
    have hlookup := h.lookup
    rw [lookup?, ht, Option.map_some] at hlookup
    exact ⟨t, ht, Lookup.ofEvent?_eq_send.mp hlookup.symm⟩
  · rintro ⟨t, ht, hsend⟩
    refine ⟨?_, ?_, rfl⟩
    · rw [admits, isTransfer, ht, Option.isSome_some]
    · rw [lookup?, ht, Option.map_some]
      exact (Lookup.ofEvent?_eq_send.mpr hsend).symm

end Journey

namespace Tracker

/-- An event dispatches a message of this hash. -/
def dispatchOf? (hash : Digest) (e : Event) : Option (Event × Dispatch) :=
  match e.data with
  | .dispatch d => if d.messageHash = hash then some (e, d) else none
  | _ => none

/-- The first dispatch of a hash among events. -/
def firstDispatch? (hash : Digest) (es : List Event) : Option (Event × Dispatch) :=
  es.findSome? (dispatchOf? hash)

theorem dispatchOf?_eq_some {hash : Digest} {a e : Event} {d : Dispatch} :
    dispatchOf? hash a = some (e, d) ↔ a = e ∧ e.data = .dispatch d ∧ d.messageHash = hash := by
  constructor
  · intro h
    rw [dispatchOf?] at h
    split at h
    · next d' hd' =>
      split at h
      · next hhash =>
        obtain ⟨rfl, rfl⟩ := Prod.mk.inj (Option.some.inj h)
        exact ⟨rfl, hd', hhash⟩
      · cases h
    · cases h
  · rintro ⟨rfl, hd, hhash⟩
    rw [dispatchOf?, hd]
    exact if_pos hhash

/-- A record tells what events there were for its message, whose first dispatch is given. -/
structure Accounts (net : Network) (es : List Event) (e : Event) (d : Dispatch) (r : Record) :
    Prop where
  identity : r.identity = .ok (created net e d).identity
  dispatchedAt : r.dispatchedAt = e.timestamp
  gasAtDispatch : r.gasAtDispatch = e.gasUsed.hex
  updated : r.updated = true ↔ ∃ a ∈ es, ∃ u, a.data = .homeUpdate u ∧
    u.homeDomain = e.domain ∧ u.oldRoot = d.committedRoot
  relayed : r.relayed = true ↔ ∃ a ∈ es, ∃ u, a.data = .replicaUpdate u ∧
    u.homeDomain = e.domain ∧ u.oldRoot = d.committedRoot ∧ a.domain = d.destination
  processed : r.processed = true ↔ ∃ a ∈ es, ∃ p, a.data = .process p ∧
    p.messageHash = d.messageHash
  /-- If no other message that was dispatched has the same origin, nonce and destination. -/
  received : (∀ hash e' d', firstDispatch? hash es = some (e', d') → e'.domain = e.domain →
      d'.nonce = d.nonce → d'.destination = d.destination → hash = d.messageHash) →
    (r.received = true ↔ (created net e d).isTransfer = true ∧ ∃ a ∈ es, ∃ c,
      a.data = .bridgeReceive c ∧ c.origin = e.domain ∧ c.nonce = d.nonce ∧
        a.domain = d.destination)
  /-- If no other message that was dispatched is a transfer with the same values. -/
  sent : (∀ hash e' d' t t', firstDispatch? hash es = some (e', d') →
      (created net e d).transfer? = some t → (created net e' d').transfer? = some t' →
      d'.destination = d.destination → t'.recipient = t.recipient → t'.amount = t.amount →
      e'.block = e.block → hash = d.messageHash) →
    (r.sent = true ↔ ∃ t, (created net e d).transfer? = some t ∧ ∃ a ∈ es, ∃ s,
      a.data = .bridgeSend s ∧ s.toDomain = d.destination ∧ s.toId = t.recipient ∧
        s.amount = t.amount ∧ a.block = e.block)

end Tracker

namespace Ledger

variable {net : Network} {L : Ledger} {es : List Event}

/-- The messages that are known after an event are those that were known before, with their
dispatches, and the one that it dispatches. -/
theorem find?_step (net : Network) (L : Ledger) (e : Event) (hash : Digest) :
    ((L.step net e).journeys.find? hash.text).map (fun j => (j.start, j.dispatch)) =
      ((L.journeys.find? hash.text).map fun j => (j.start, j.dispatch)).or
        (Tracker.dispatchOf? hash e) := by
  cases (L.step_moves net e).fate hash.text with
  | same hfate =>
    cases hj : L.journeys.find? hash.text with
    | some j => rw [hfate, hj, Option.map_some, Option.some_or]
    | none =>
      rw [hfate, hj, Option.map_none, Option.none_or]
      cases hd : Tracker.dispatchOf? hash e with
      | none => rfl
      | some p =>
        obtain ⟨a, d⟩ := p
        obtain ⟨rfl, hdata, rfl⟩ := Tracker.dispatchOf?_eq_some.mp hd
        obtain ⟨j, hknown⟩ := (L.covered_step net e).exists_journey hdata
        rw [hfate, hj] at hknown
        cases hknown
  | went hj _ _ _ hfate =>
    rw [hfate, hj, Option.map_some, Option.map_some, Option.some_or, Journey.start_goOn,
      Journey.dispatch_goOn]
  | @began d he hkey hnone hfate =>
    have hd : Tracker.dispatchOf? hash e = some (e, d) :=
      Tracker.dispatchOf?_eq_some.mpr ⟨rfl, he, Digest.text_injective hkey⟩
    rw [hfate, hnone, hd, Option.map_some, Option.map_none, Option.none_or]
    rfl

theorem find?_steps (net : Network) (L : Ledger) (es : List Event) (hash : Digest) :
    ((L.steps net es).journeys.find? hash.text).map (fun j => (j.start, j.dispatch)) =
      ((L.journeys.find? hash.text).map fun j => (j.start, j.dispatch)).or
        (Tracker.firstDispatch? hash es) := by
  induction es generalizing L with
  | nil => simp [steps, Tracker.firstDispatch?]
  | cons e es ih =>
    have hrest := ih (L := L.step net e)
    rw [find?_step, Option.or_assoc] at hrest
    rw [steps, List.foldl_cons]
    refine hrest.trans (congrArg _ ?_)
    rw [Tracker.firstDispatch?, Tracker.firstDispatch?, List.findSome?_cons]
    cases Tracker.dispatchOf? hash e <;> rfl

/-- A message that is known stays known as it was dispatched. -/
theorem exists_steps (net : Network) {hash : Digest} {i : Journey}
    (hi : L.journeys.find? hash.text = some i) (es : List Event) :
    ∃ j, (L.steps net es).journeys.find? hash.text = some j ∧ j.base net = i.base net := by
  have hsteps := find?_steps net L es hash
  rw [hi, Option.map_some, Option.some_or, Option.map_eq_some_iff] at hsteps
  obtain ⟨j, hj, hsame⟩ := hsteps
  obtain ⟨hstart, hdispatch⟩ := Prod.mk.inj hsame
  exact ⟨j, hj, by rw [Journey.base, Journey.base, hstart, hdispatch]⟩

/-- After events a message is known by its first dispatch among them. -/
theorem find?_steps_empty (net : Network) (es : List Event) (hash : Digest) :
    ((empty.steps net es).journeys.find? hash.text).map (fun j => (j.start, j.dispatch)) =
      Tracker.firstDispatch? hash es := by
  rw [find?_steps]
  rfl

/-- A message whose dispatch is among events goes on from its first one. -/
theorem exists_journey (net : Network) {hash : Digest} {e : Event} {d : Dispatch}
    (h : Tracker.firstDispatch? hash es = some (e, d)) :
    ∃ j, (empty.steps net es).journeys.find? hash.text = some j ∧ j.start = e ∧
      j.dispatch = d := by
  rw [← find?_steps_empty net, Option.map_eq_some_iff] at h
  obtain ⟨j, hj, hfirst⟩ := h
  exact ⟨j, hj, (Prod.mk.inj hfirst).1, (Prod.mk.inj hfirst).2⟩

/-- A message is alone with its number if no other one was dispatched with it. -/
theorem isAlone_received {j : Journey}
    (h : ∀ hash e' d', Tracker.firstDispatch? hash es = some (e', d') →
      e'.domain = j.start.domain → d'.nonce = j.dispatch.nonce →
      d'.destination = j.dispatch.destination → hash = j.dispatch.messageHash)
    (hj : (empty.steps net es).journeys.find? j.key = some j) :
    (empty.steps net es).IsAlone net j .received := by
  intro key i hi hlookup
  obtain ⟨horigin, hnonce, hdestination⟩ := Lookup.receive.inj (Option.some.inj hlookup)
  obtain rfl := keyed _ hi
  have hfirst := find?_steps_empty net es i.dispatch.messageHash
  rw [← Journey.key, hi, Option.map_some] at hfirst
  have hhash := h _ _ _ hfirst.symm horigin hnonce hdestination
  rw [Journey.key, hhash, ← Journey.key, hj] at hi
  exact (Option.some.inj hi).symm

/-- A transfer is alone with its values if no other one was dispatched with them. -/
theorem isAlone_sent {j : Journey} {t : Transfer} (ht : (j.base net).transfer? = some t)
    (h : ∀ hash e' d' t t', Tracker.firstDispatch? hash es = some (e', d') →
      (j.base net).transfer? = some t → (Tracker.created net e' d').transfer? = some t' →
      d'.destination = j.dispatch.destination → t'.recipient = t.recipient →
      t'.amount = t.amount → e'.block = j.start.block → hash = j.dispatch.messageHash)
    (hj : (empty.steps net es).journeys.find? j.key = some j) :
    (empty.steps net es).IsAlone net j .sent := by
  intro key i hi hlookup
  rw [lookup?, lookup?, ht, Option.map_some, Option.map_eq_some_iff] at hlookup
  obtain ⟨t', ht', hsend⟩ := hlookup
  obtain ⟨hdestination, hrecipient, hamount, hblock⟩ := Lookup.send.inj hsend
  obtain rfl := keyed _ hi
  have hfirst := find?_steps_empty net es i.dispatch.messageHash
  rw [← Journey.key, hi, Option.map_some] at hfirst
  have hhash := h _ _ _ t t' hfirst.symm ht ht' hdestination hrecipient hamount hblock
  rw [Journey.key, hhash, ← Journey.key, hj] at hi
  exact (Option.some.inj hi).symm

/-- After events the record of a message tells which of them there were for it. -/
theorem accounts (net : Network) (es : List Event) {j : Journey}
    (hj : (empty.steps net es).journeys.find? j.key = some j) :
    Tracker.Accounts net es j.start j.dispatch (j.record net) := by
  have hsound := sound_steps_empty net es
  have hall : ∀ e ∈ es, (empty.steps net es).Covered net e := fun e he => empty.covered_steps net he
  have hiff {k : Mark} := hsound.isSome_heard_iff hall hj (k := k)
  refine ⟨Record.identity_ofMessage net _, rfl, rfl, ?_, ?_, ?_, fun halone => ?_, fun halone => ?_⟩
  · exact (hiff (k := .updated) nofun).trans
      (exists_congr fun a => and_congr_right fun _ => Journey.concerns_updated_iff)
  · exact (hiff (k := .relayed) nofun).trans
      (exists_congr fun a => and_congr_right fun _ => Journey.concerns_relayed_iff)
  · exact (hiff (k := .processed) fun _ _ => isAlone_processed hj).trans
      (exists_congr fun a => and_congr_right fun _ => Journey.concerns_processed_iff)
  · refine (hiff (k := .received) fun _ _ => isAlone_received halone hj).trans ?_
    simp only [Journey.concerns_received_iff]
    constructor
    · rintro ⟨a, ha, htransfer, hc⟩
      exact ⟨htransfer, a, ha, hc⟩
    · rintro ⟨htransfer, a, ha, hc⟩
      exact ⟨a, ha, htransfer, hc⟩
  · refine (hiff (k := .sent) fun _ hadmits => ?_).trans ?_
    · obtain ⟨t, ht⟩ := Option.isSome_iff_exists.mp hadmits
      exact isAlone_sent ht halone hj
    · simp only [Journey.concerns_sent_iff]
      constructor
      · rintro ⟨a, ha, t, ht, hs⟩
        exact ⟨t, ht, a, ha, hs⟩
      · rintro ⟨t, ht, a, ha, hs⟩
        exact ⟨a, ha, t, ht, hs⟩

end Ledger

namespace Tracker

variable {σ : Type}

/-- The record of a message whose dispatch is among batches is that of a journey which goes on from
its first one. -/
theorem exists_record (v : Service σ) (net : Network) (batches : List (List Event)) {s : σ}
    (hempty : v.contents s = Memory.empty) (hsteady : v.Steady s) {hash : Digest} {e : Event}
    {d : Dispatch} (h : firstDispatch? hash batches.flatten = some (e, d)) :
    ∃ j : Journey, (Ledger.empty.steps net batches.flatten).journeys.find? hash.text = some j ∧
      (v.contents (consumeAll v.backend v.fan net batches s).state).records.find? hash.text =
        some (j.record net) ∧ j.start = e ∧ j.dispatch = d := by
  obtain ⟨-, hdepicts, -⟩ :=
    v.consumeAll_depicts (hempty ▸ Ledger.depicts_empty net) hsteady batches
  obtain ⟨j, hj, hstart, hdispatch⟩ := Ledger.exists_journey net h
  exact ⟨j, hj, by rw [hdepicts.find?, hj, Option.map_some], hstart, hdispatch⟩

/-- From empty stores that refuse nothing, a message is stored after any batches exactly if they
dispatch it, and its record is that of its first dispatch and tells which of their events there
were for it. -/
theorem records_account (v : Service σ) (net : Network) (batches : List (List Event)) {s : σ}
    (hempty : v.contents s = Memory.empty) (hsteady : v.Steady s) (hash : Digest) :
    let stored := (v.contents (consumeAll v.backend v.fan net batches s).state).records.find?
      hash.text
    (stored.isSome = true ↔
      ∃ e ∈ batches.flatten, ∃ d, e.data = .dispatch d ∧ d.messageHash = hash) ∧
    ∀ r, stored = some r → ∃ e d, firstDispatch? hash batches.flatten = some (e, d) ∧
      Accounts net batches.flatten e d r := by
  intro stored
  obtain ⟨-, hdepicts, -⟩ :=
    v.consumeAll_depicts (hempty ▸ Ledger.depicts_empty net) hsteady batches
  have hstored : stored = (((Ledger.empty.steps net batches.flatten).journeys.find?
      hash.text).map (Journey.record net)) := hdepicts.find? hash.text
  have hsound := (Ledger.sound_empty net batches.flatten).steps fun d hd => hd
  have hall := fun e (he : e ∈ batches.flatten) => Ledger.empty.covered_steps net he
  constructor
  · rw [hstored, Option.isSome_map, hsound.isSome_find?_iff hall]
  · intro r hr
    rw [hstored, Option.map_eq_some_iff] at hr
    obtain ⟨j, hj, rfl⟩ := hr
    have hfirst := Ledger.find?_steps_empty net batches.flatten hash
    rw [hj, Option.map_some] at hfirst
    exact ⟨j.start, j.dispatch, hfirst.symm,
      Ledger.accounts net batches.flatten (Ledger.keyed _ hj ▸ hj)⟩

/-- Of the transfer two events come before its dispatch, and one after it. -/
theorem records_account_sample :
    let v := Stores.inMemory.oneByOne
    ∃ r, (v.contents (consumeAll v.backend v.fan Sample.network
        [[Sample.process, Sample.relay], [Sample.dispatch, Sample.update]]
        Memory.empty).state).records.find? (default : Digest).text = some r ∧
      r.processed = true ∧ r.relayed = true ∧ r.updated = true := by
  intro v
  obtain ⟨hstored, htold⟩ := records_account v Sample.network
    [[Sample.process, Sample.relay], [Sample.dispatch, Sample.update]] (s := Memory.empty) rfl
    trivial default
  obtain ⟨r, hr⟩ := Option.isSome_iff_exists.mp
    (hstored.mpr ⟨Sample.dispatch, by simp, _, rfl, rfl⟩)
  obtain ⟨e, d, hfirst, haccounts⟩ := htold r hr
  obtain ⟨rfl, rfl⟩ : Sample.dispatch = e ∧ _ = d := Prod.mk.inj (Option.some.inj hfirst)
  exact ⟨r, hr, haccounts.processed.mpr ⟨Sample.process, by simp, _, rfl, rfl⟩,
    haccounts.relayed.mpr ⟨Sample.relay, by simp, _, rfl, rfl, rfl, rfl⟩,
    haccounts.updated.mpr ⟨Sample.update, by simp, _, rfl, rfl, rfl⟩⟩

end Tracker

end Waybill
