import Waybill.Proofs.Ledger.Account
/-!
# Consistent events

Events are consistent if no two of them compete: at most one has each key, and no two dispatched
messages look for the same receipt or sending of tokens. The messages of a ledger on which
consistent events are accounted for depend on nothing but which events these are.

## Main definitions

* `Event.Key`, `Event.key`: what an event is the only one for.
* `Consistent`: no two events compete.

## Main results

* `Consistent.journeys_eq`: the journeys are determined by the events.
-/

namespace Waybill

open Waybill.Pending Message

/-- What an event is to be the only one for. -/
inductive Event.Key where
  | dispatch (hash : Digest)
  | homeUpdate (home : UInt32) (root : Digest)
  | replicaUpdate (replica home : UInt32) (root : Digest)
  | process (hash : Digest)
  | bridgeSend (destination : UInt32) (recipient : Identifier) (amount : Word) (block : UInt64)
  | bridgeReceive (origin nonce destination : UInt32)
deriving DecidableEq

/-- The key of an event. -/
def Event.key (e : Event) : Event.Key :=
  match e.data with
  | .dispatch d => .dispatch d.messageHash
  | .homeUpdate u => .homeUpdate u.homeDomain u.oldRoot
  | .replicaUpdate u => .replicaUpdate e.domain u.homeDomain u.oldRoot
  | .process p => .process p.messageHash
  | .bridgeSend s => .bridgeSend s.toDomain s.toId s.amount e.block
  | .bridgeReceive r => .bridgeReceive r.origin r.nonce e.domain

/-- No two of the events compete: they have different keys, and no two of the dispatched messages
have the same origin, nonce and destination or are transfers with the same destination, recipient,
amount and block. -/
structure Consistent (net : Network) (es : List Event) : Prop where
  key : ∀ a ∈ es, ∀ b ∈ es, a.key = b.key → a = b
  receive : ∀ a ∈ es, ∀ b ∈ es, ∀ d d', a.data = .dispatch d → b.data = .dispatch d' →
    a.domain = b.domain → d.nonce = d'.nonce → d.destination = d'.destination → a = b
  send : ∀ a ∈ es, ∀ b ∈ es, ∀ d d' t t', a.data = .dispatch d → b.data = .dispatch d' →
    (Tracker.created net a d).transfer? = some t →
    (Tracker.created net b d').transfer? = some t' →
    d.destination = d'.destination → t.recipient = t'.recipient → t.amount = t'.amount →
    a.block = b.block → a = b

namespace Consistent

variable {net : Network} {es : List Event} {L L' : Ledger}

theorem mono {fs : List Event} (h : Consistent net fs) (hsub : ∀ e ∈ es, e ∈ fs) :
    Consistent net es where
  key a ha b hb := h.key a (hsub a ha) b (hsub b hb)
  receive a ha b hb := h.receive a (hsub a ha) b (hsub b hb)
  send a ha b hb := h.send a (hsub a ha) b (hsub b hb)

/-- Two events that leave the same mark on a message have the same key. -/
theorem key_eq_of_concerns {i j : Journey} {k : Mark} {a b : Event}
    (hbase : i.base net = j.base net) (ha : i.Concerns net k a) (hb : j.Concerns net k b) :
    a.key = b.key := by
  have hlookup : Lookup.ofEvent? a = Lookup.ofEvent? b := by
    rw [← ha.lookup, ← hb.lookup, hbase]
  have hdomain : k = .relayed → a.domain = b.domain := by
    rintro rfl
    have hda := ha.heeds
    have hdb := hb.heeds
    simp only [heeds, bne_self_eq_false, Bool.false_or, beq_iff_eq] at hda hdb
    rw [hda, hdb, hbase]
  have hmark := ha.mark?
  rw [Event.mark?] at hmark
  rw [Lookup.ofEvent?, Lookup.ofEvent?] at hlookup
  rw [Event.key, Event.key]
  cases hda : a.data <;> cases hdb : b.data <;> simp_all

/-- Of consistent events only one message looks for each. -/
theorem isAlone (h : Consistent net es) (hL : L.Sound net es) {key : String} {j : Journey}
    (hj : L.journeys.find? key = some j) {k : Mark} (hroot : k.isOfRoot = false)
    (hadmits : (j.base net).admits k = true) : L.IsAlone net j k := by
  intro key' i hi hlookup
  obtain ⟨hmemj, hdataj⟩ := hL.start hj
  obtain ⟨hmemi, hdatai⟩ := hL.start hi
  cases k with
  | updated => cases hroot
  | relayed => cases hroot
  | processed => exact Ledger.isAlone_processed hj hi hlookup
  | received =>
    obtain ⟨horigin, hnonce, hdestination⟩ :=
      Lookup.receive.inj (Option.some.inj hlookup)
    exact hL.eq_of_start hi hj
      (h.receive _ hmemi _ hmemj _ _ hdatai hdataj horigin hnonce hdestination)
  | sent =>
    obtain ⟨t, ht⟩ := Option.isSome_iff_exists.mp hadmits
    rw [lookup?, lookup?, ht, Option.map_some, Option.map_eq_some_iff] at hlookup
    obtain ⟨t', ht', hsend⟩ := hlookup
    obtain ⟨hdestination, hrecipient, hamount, hblock⟩ := Lookup.send.inj hsend
    exact hL.eq_of_start hi hj (h.send _ hmemi _ hmemj _ _ t' t hdatai hdataj ht' ht
      hdestination hrecipient hamount hblock)

/-- Over consistent events a message has heard the same on all ledgers. -/
theorem heard_eq (h : Consistent net es) (hL : L.Sound net es) (hL' : L'.Sound net es)
    (hall : ∀ e ∈ es, L.Covered net e) (hall' : ∀ e ∈ es, L'.Covered net e) {key key' : String}
    {i j : Journey} (hi : L'.journeys.find? key' = some i) (hj : L.journeys.find? key = some j)
    (hbase : i.base net = j.base net) : i.heard = j.heard := by
  funext k
  have hiffj := hL.isSome_heard_iff hall hj (k := k) fun hroot => h.isAlone hL hj hroot
  have hiffi := hL'.isSome_heard_iff hall' hi (k := k) fun hroot => h.isAlone hL' hi hroot
  have hsame : (i.heard k).isSome = true ↔ (j.heard k).isSome = true := by
    rw [hiffi, hiffj]
    constructor
    · rintro ⟨e, he, hconcerns⟩
      exact ⟨e, he, hconcerns.of_base hbase⟩
    · rintro ⟨e, he, hconcerns⟩
      exact ⟨e, he, hconcerns.of_base hbase.symm⟩
  cases ha : i.heard k with
  | none =>
    cases hb : j.heard k with
    | none => rfl
    | some b => simp [ha, hb] at hsame
  | some a =>
    cases hb : j.heard k with
    | none => simp [ha, hb] at hsame
    | some b =>
      obtain ⟨hmema, hconcernsa⟩ := hL'.heard hi ha
      obtain ⟨hmemb, hconcernsb⟩ := hL.heard hj hb
      rw [h.key a hmema b hmemb (key_eq_of_concerns hbase hconcernsa hconcernsb)]

theorem find?_eq (h : Consistent net es) (hL : L.Sound net es) (hL' : L'.Sound net es)
    (hall : ∀ e ∈ es, L.Covered net e) (hall' : ∀ e ∈ es, L'.Covered net e) {key : String}
    {j : Journey} (hj : L.journeys.find? key = some j) : L'.journeys.find? key = some j := by
  obtain ⟨hmem, hdata⟩ := hL.start hj
  obtain rfl := L.keyed hj
  obtain ⟨i, hi⟩ := Option.isSome_iff_exists.mp <|
    (hL'.isSome_find?_iff hall' j.dispatch.messageHash).mpr ⟨j.start, hmem, j.dispatch, hdata, rfl⟩
  obtain ⟨hmemi, hdatai⟩ := hL'.start hi
  have hhash : i.dispatch.messageHash = j.dispatch.messageHash := Digest.text_injective (L'.keyed hi)
  have hstart : i.start = j.start := by
    refine h.key _ hmemi _ hmem ?_
    rw [Event.key, Event.key, hdatai, hdata]
    exact congrArg Event.Key.dispatch hhash
  have hdispatch : i.dispatch = j.dispatch := by
    rw [hstart, hdata] at hdatai
    exact (Event.Data.dispatch.inj hdatai).symm
  have hheard := h.heard_eq hL hL' hall hall' hi hj (by rw [Journey.base, hstart, hdispatch]; rfl)
  have heq : i = j := by
    cases i
    cases j
    simp_all
  rw [← heq]
  exact heq ▸ hi

/-- The journeys of a ledger on which consistent events are accounted for depend on the events
only. -/
theorem journeys_eq (h : Consistent net es) (hL : L.Sound net es) (hL' : L'.Sound net es)
    (hall : ∀ e ∈ es, L.Covered net e) (hall' : ∀ e ∈ es, L'.Covered net e) :
    L.journeys = L'.journeys := by
  refine SortedMap.ext_find? fun key => Option.ext fun j => ?_
  exact ⟨h.find?_eq hL hL' hall hall', h.find?_eq hL' hL hall' hall⟩

end Consistent

end Waybill
