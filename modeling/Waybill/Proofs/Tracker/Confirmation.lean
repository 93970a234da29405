import Waybill.Proofs.Tracker.ReadBack
import Waybill.Proofs.Tracker.Routes
import Waybill.Proofs.Tracker.Shape
/-!
# When messages may be processed

A record tells when its message may be processed, which depends on its relay and on the window of
its destination. The record is written anew whenever something is noted of its message, so this time
is always that of the relay the record tells of, however the tracker came to know of the relay. A
window of no seconds counts as none.

## Main definitions

* `Record.ConfirmsOnTime`: the time of confirmation is that of the relay and the window.

## Main results

* `Tracker.confirmAt_current`: it is so in every record that is ever stored.
-/

namespace Waybill

/-- The time of confirmation is the end of the window after the relay. There is none without a
relay, and none without a window of at least a second. -/
structure Record.ConfirmsOnTime (net : Network) (r : Record) : Prop where
  windowed : ∀ window, net.optimisticSeconds r.destination = some window → window ≠ 0 →
    r.relayedAt ≠ 0 → r.relayedAt.toNat + window.toNat < 2 ^ 64 →
    r.confirmAt.toNat = r.relayedAt.toNat + window.toNat
  unrelayed : r.relayedAt = 0 → r.confirmAt = 0
  unwindowed : (∀ window, net.optimisticSeconds r.destination = some window → window = 0) →
    r.confirmAt = 0

namespace Message

variable {net : Network} {m : Message} {window : UInt64}

theorem confirmAt_of_unrelayed (h : m.times.relayed = 0) : m.confirmAt net = 0 := if_pos h

theorem confirmAt_of_window (hrelayed : m.times.relayed ≠ 0)
    (hwindow : net.optimisticSeconds m.identity.destination = some window) (hpos : window ≠ 0) :
    m.confirmAt net = m.times.relayed + window := by
  have hseconds : 0 < window.toNat :=
    Nat.pos_of_ne_zero fun h => hpos (UInt64.toNat_inj.mp h)
  rw [confirmAt, if_neg hrelayed, hwindow]
  exact if_pos hseconds

theorem confirmAt_of_no_window
    (h : ∀ window, net.optimisticSeconds m.identity.destination = some window → window = 0) :
    m.confirmAt net = 0 := by
  rw [confirmAt]
  split
  · rfl
  · split
    · next hwindow =>
      rw [h _ hwindow]
      rfl
    · rfl

/-- Whatever a message knows, its record confirms on time. -/
theorem confirmsOnTime_record (net : Network) (m : Message) :
    (Record.ofMessage net m).ConfirmsOnTime net where
  windowed window hwindow hpos hrelayed hfits := by
    have hconfirm : (Record.ofMessage net m).confirmAt =
        (Record.ofMessage net m).relayedAt + window :=
      confirmAt_of_window hrelayed hwindow hpos
    rw [hconfirm, UInt64.toNat_add, Nat.mod_eq_of_lt hfits]
  unrelayed := confirmAt_of_unrelayed
  unwindowed := confirmAt_of_no_window

end Message

namespace Tracker

variable {net : Network}

/-- Whatever calls are broken off, each record that is stored is that of a message. -/
theorem Attained.exists_message {m : Memory} (h : Attained net m) {key : String} {r : Record}
    (hr : m.records.find? key = some r) : ∃ msg, r = Record.ofMessage net msg := by
  obtain ⟨L, es, hm, -⟩ := h.ledger
  rw [hm.find?, Option.map_eq_some_iff] at hr
  obtain ⟨j, -, rfl⟩ := hr
  exact ⟨j.message net, rfl⟩

/-- Every record that is ever stored confirms on time: in memory whichever calls were broken off,
and in the tables of any documented engine after any batches. -/
theorem confirmAt_current (net : Network) :
    (∀ {m}, Attained net m → ∀ {key r}, m.records.find? key = some r → r.ConfirmsOnTime net) ∧
    ∀ {σ : Type} {E : Engine σ} (D : E.Manual) {s : σ}, D.Has s .empty → ∀ {fan : FanOut σ},
      (∀ ts s, E.gateway.Interleaves ts s (fan ts s)) → ∀ batches : List (List Event),
        ∃ t rs, D.Has (consumeAll E.gateway fan net batches s).state t ∧ t.Keeps rs ∧
          ∀ r ∈ rs, r.ConfirmsOnTime net := by
  constructor
  · intro m h key r hr
    obtain ⟨msg, rfl⟩ := h.exists_message hr
    exact msg.confirmsOnTime_record net
  · intro σ E D s hs fan hfan batches
    obtain ⟨⟨t, rs, ht, h⟩, -, -⟩ :=
      consumeAll_tended D hs hfan batches (upkeep_unpacked net) fun _ _ => trivial
    refine ⟨t, rs, ht, h.keeps, fun r hr => ?_⟩
    obtain ⟨msg, -, rfl⟩ := h.records r hr
    exact msg.confirmsOnTime_record net

/-- What is stored after the dispatch of a message for which a relay waited. -/
def relayedSample (net : Network) : Memory :=
  let v := Stores.inMemory.oneByOne
  v.contents (consume v.backend v.fan net [Sample.relay, Sample.dispatch] Memory.empty).state

theorem attained_relayedSample (net : Network) : Attained net (relayedSample net) :=
  .consumed Stores.inMemory.oneByOne (s := Memory.empty) .empty [Sample.relay, Sample.dispatch]

theorem exists_relayedSample (net : Network) :
    ∃ r, (relayedSample net).records.find? (default : Digest).text = some r ∧
      r.destination = 2 ∧ r.relayedAt = 120 := by
  obtain ⟨-, hdepicts⟩ := Stores.inMemory.oneByOne.consume_depicts (s := Memory.empty)
    (Ledger.depicts_empty net) trivial [Sample.relay, Sample.dispatch]
  have hfirst : firstDispatch? default [Sample.relay, Sample.dispatch] =
    some (Sample.dispatch, _) := rfl
  obtain ⟨j, hj, hstart, hdispatch⟩ := Ledger.exists_journey net hfirst
  have hr : (relayedSample net).records.find? (default : Digest).text = some (j.record net) := by
    rw [relayedSample, hdepicts.find?, hj, Option.map_some]
  have hdestination : j.dispatch.destination = 2 := by
    rw [hdispatch]
    decide
  have hconcerns : j.hears net .relayed Sample.relay = true :=
    Journey.hears_iff.mpr (Journey.concerns_relayed_iff.mpr
      ⟨_, rfl, by rw [hstart]; rfl, by rw [hdispatch], by rw [hdestination]; rfl⟩)
  have hother : j.hears net .relayed Sample.dispatch = false := by
    rw [Bool.eq_false_iff, ne_eq, Journey.hears_iff, Journey.concerns_relayed_iff]
    rintro ⟨u, hu, -⟩
    cases hu
  have hheard : j.heard .relayed = some Sample.relay := by
    rw [Ledger.heard_of_root rfl hj, lastHeard, List.filter_cons_of_pos hconcerns,
      List.filter_cons_of_neg (by simp [hother])]
    rfl
  refine ⟨_, hr, hdestination, ?_⟩
  change ((j.heard .relayed).map Event.timestamp).getD 0 = 120
  rw [hheard]
  rfl

/-- A relay that waited for its message, and the end of the window of its destination. -/
theorem confirmAt_current_sample :
    ∃ r, (relayedSample Sample.network).records.find? (default : Digest).text = some r ∧
      r.relayedAt = 120 ∧ r.confirmAt.toNat = 120 + 60 := by
  obtain ⟨r, hr, hdestination, hrelayed⟩ := exists_relayedSample Sample.network
  have hwindow : Sample.network.optimisticSeconds r.destination = some 60 := by
    rw [hdestination]
    rfl
  have hontime := (confirmAt_current Sample.network).1 (attained_relayedSample _) hr
  have hconfirm := hontime.windowed 60 hwindow (by decide) (by rw [hrelayed]; decide)
    (by rw [hrelayed]; decide)
  refine ⟨r, hr, hrelayed, ?_⟩
  rw [hconfirm, hrelayed]
  rfl

/-- A window of no seconds is configured for the destination of a message that was relayed. -/
theorem window_of_no_seconds_is_none :
    let net : Network := ⟨(SortedMap.empty.insert 1 ⟨1, "home", none, none, none⟩).insert 2
      ⟨2, "away", none, none, some 0⟩⟩
    ∃ r, Attained net (relayedSample net) ∧
      (relayedSample net).records.find? (default : Digest).text = some r ∧
      net.optimisticSeconds r.destination = some 0 ∧ r.relayedAt = 120 ∧ r.confirmAt = 0 := by
  intro net
  obtain ⟨r, hr, hdestination, hrelayed⟩ := exists_relayedSample net
  have hattained := attained_relayedSample net
  have hwindow : net.optimisticSeconds r.destination = some 0 := by
    rw [hdestination]
    rfl
  obtain ⟨msg, rfl⟩ := hattained.exists_message hr
  have hontime := msg.confirmsOnTime_record net
  refine ⟨_, hattained, hr, hwindow, hrelayed, hontime.unwindowed fun window h => ?_⟩
  exact Option.some.inj (h.symm.trans hwindow)

end Tracker

end Waybill
