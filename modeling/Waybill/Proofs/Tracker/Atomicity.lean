import Waybill.Proofs.Tracker.Runs
/-!
# Batches that are cut short

Where a batch fails at an event, the events before it have all of their effect, and those after it
have none. The event itself has none either, unless it is one of a root. Then it may wait in the
list of the root, and once it does, any of the records of the root may be written as they would
have been had nothing failed. There is nothing else that it can leave behind.

## Main definitions

* `Tracker.CutAt`: a batch failed at an event.
* `Tracker.undisturbed`: a batch over stores that refuse nothing.
* `Tracker.CutShort`: what an event leaves behind at which a batch failed.

## Main results

* `Tracker.exists_cutAt`: a batch that fails, fails at one of its events.
* `Tracker.consume_cut_short`: what a batch leaves behind that failed.
-/

namespace Waybill

open Waybill.Pending Message

namespace Tracker

variable {σ : Type}

/-! ### Where a batch fails -/

/-- A batch failed at an event: the events before it were handled to their ends, the work on the
event failed, and nothing was done after it. -/
structure CutAt (b : Backend σ) (fan : FanOut σ) (net : Network) (es : List Event) (s : σ)
    (r : Rejection) (ds rest : List Event) : Prop where
  split : es = ds ++ r.event :: rest
  before : (consume b fan net ds s).result = .ok ()
  failed : (perform b fan net r.event (consume b fan net ds s).state).result = .error r.failure
  state : (consume b fan net es s).state =
    (perform b fan net r.event (consume b fan net ds s).state).state
  signals : (consume b fan net es s).signals = (consume b fan net ds s).signals ++
    (perform b fan net r.event (consume b fan net ds s).state).signals

section Cuts

variable {b : Backend σ} {fan : FanOut σ} {net : Network} {e : Event} {es : List Event} {s : σ}

/-- A batch that fails, fails at one of its events. -/
theorem exists_cutAt {r : Rejection} (h : (consume b fan net es s).result = .error r) :
    ∃ ds rest, CutAt b fan net es s r ds rest := by
  induction es generalizing s with
  | nil => cases h
  | cons e es ih =>
    cases hperform : (perform b fan net e s).result with
    | ok a =>
      have hcons := consume_cons_of_ok hperform
      rw [hcons] at h
      obtain ⟨ds, rest, hsplit, hbefore, hfailed, hstate, hsignals⟩ := ih h
      refine ⟨e :: ds, rest, by rw [hsplit, List.cons_append], ?_, ?_, ?_, ?_⟩
      · rw [hcons]
        exact hbefore
      · rw [hcons]
        exact hfailed
      · rw [hcons, hcons]
        exact hstate
      · rw [hcons, hcons]
        simp only [Outcome.after, hsignals, List.append_assoc]
    | error f =>
      have hcons := consume_cons_of_error hperform es
      rw [hcons] at h
      obtain rfl : ⟨e, f⟩ = r := Except.error.inj h
      exact ⟨[], es, rfl, rfl, hperform, by rw [hcons]; rfl, by rw [hcons]; rfl⟩

end Cuts

section Ledgers

variable {net : Network} {L : Ledger} {v : Service σ} {es ds rest : List Event} {s : σ}
  {r : Rejection}

/-- The events before a cut took their steps. -/
theorem CutAt.depicts (h : CutAt v.backend v.fan net es s r ds rest)
    (hs : L.Depicts net (v.contents s)) :
    (L.steps net ds).Depicts net (v.contents (consume v.backend v.fan net ds s).state) := by
  rcases v.consume_cases hs ds with ⟨-, hnext⟩ | ⟨-, _, _, _, _, -, ⟨f, hf⟩, -⟩
  · exact hnext
  · have hbefore := h.before
    rw [hf] at hbefore
    cases hbefore

end Ledgers

/-! ### What is left behind -/

/-- Handles a batch over stores that refuse nothing. -/
def undisturbed (net : Network) (es : List Event) (m : Memory) : Outcome Memory Rejection Unit :=
  consume Memory.backend (oneByOne Memory.backend) net es m

/-- What an event leaves behind at which a batch failed. -/
inductive CutShort (net : Network) (e : Event) (m : Memory) : Memory → Prop
  /-- Everything is as it was. -/
  | untouched : CutShort net e m m
  /-- The event is one of a root. It was appended to the list of the root, unless it was in it
  already. Every record is as it was, or it is of the root and as it would be had nothing failed. -/
  | spread {u : RootUpdate} {slot : Slot} {m' : Memory}
      (he : e.data = .homeUpdate u ∧ slot = .update u.homeDomain u.oldRoot ∨
        e.data = .replicaUpdate u ∧ slot = .relay u.homeDomain u.oldRoot)
      (hpool : m'.pool = slot.appendTo e.render m.pool)
      (hrecords : ∀ key, m'.records.find? key = m.records.find? key ∨
        (∃ r, m.records.find? key = some r ∧ r.isOfRoot u.homeDomain u.oldRoot.text = true) ∧
          m'.records.find? key = (undisturbed net [e] m).state.records.find? key) :
      CutShort net e m m'

section Ledgers

variable {net : Network} {L : Ledger} {m : Memory} {e : Event} {k : Mark}

/-- Over stores that refuse nothing, a batch takes the steps of the ledger. -/
theorem undisturbed_depicts (hm : L.Depicts net m) (es : List Event) :
    (undisturbed net es m).result = .ok () ∧
      (L.steps net es).Depicts net (undisturbed net es m).state :=
  Stores.inMemory.oneByOne.consume_depicts hm trivial es

/-- An event of a root is the update of a root or its relay. -/
theorem exists_rootUpdate (hmark : e.mark? = some k) (hroot : k.isOfRoot = true) :
    ∃ u l, (e.data = .homeUpdate u ∧ k = .updated ∧ l = Lookup.update u.homeDomain u.oldRoot ∨
      e.data = .replicaUpdate u ∧ k = .relayed ∧ l = Lookup.relay u.homeDomain u.oldRoot) ∧
        Lookup.ofEvent? e = some l ∧ l.keepsAll = true := by
  rw [Event.mark?] at hmark
  rw [Lookup.ofEvent?]
  revert hmark
  cases he : e.data with
  | homeUpdate u => exact fun hk => ⟨u, _, .inl ⟨rfl, (Option.some.inj hk).symm, rfl⟩, rfl, rfl⟩
  | replicaUpdate u => exact fun hk => ⟨u, _, .inr ⟨rfl, (Option.some.inj hk).symm, rfl⟩, rfl, rfl⟩
  | _ =>
    rintro ⟨⟩ <;> cases hroot

/-- Once the step of an event of a root is taken, all records of the root have gone on. -/
theorem find?_of_mem_goneOn (hmark : e.mark? = some k) (hroot : k.isOfRoot = true) {m' : Memory}
    (hm' : (L.step net e).Depicts net m') {r : Record} (hr : r ∈ L.goneOn net k e) :
    m'.records.find? r.messageHash = some r := by
  obtain ⟨j, hj, hans, rfl⟩ := Ledger.mem_goneOn.mp hr
  rw [hm'.find?, Ledger.step_of_mark net L hmark, if_pos hroot, Ledger.spread, Ledger.revise,
    SortedMap.find?_map, Journey.messageHash_record, Journey.key_goOn, Ledger.keep, hj,
    Option.map_some, Option.map_some, if_pos hans]

/-- Where the work on an event fails, it leaves nothing behind, or a part of what it does to the
messages of a root. -/
theorem Course.cutShort {faulty : Prop} {o : Outcome Memory Failure Unit}
    (h : Course faulty net L m e o) (hm : L.Depicts net m) {f : Failure}
    (hf : o.result = .error f) : CutShort net e m o.state := by
  cases h with
  | single _ _ => cases hf
  | refused _ _ => exact .untouched
  | @spread k o ys zss us hmark hroot hpool hunder _ _ _ =>
    obtain ⟨u, l, hu, hl, hall⟩ := exists_rootUpdate hmark hroot
    have hslot : e.data = .homeUpdate u ∧ l.slot = .update u.homeDomain u.oldRoot ∨
        e.data = .replicaUpdate u ∧ l.slot = .relay u.homeDomain u.oldRoot := by
      rcases hu with ⟨he, -, rfl⟩ | ⟨he, -, rfl⟩
      · exact .inl ⟨he, rfl⟩
      · exact .inr ⟨he, rfl⟩
    refine .spread hslot (hpool.unique (shownBy_appendTo hm.pool hl hall)) fun key => ?_
    by_cases hkey : ∃ r ∈ L.goneOn net k e, r.messageHash = key
    · obtain ⟨r, hr, rfl⟩ := hkey
      refine (hunder.find? hr).imp_right fun hnew => ⟨?_, ?_⟩
      · obtain ⟨j, hj, hans, rfl⟩ := Ledger.mem_goneOn.mp hr
        refine ⟨j.record net, ?_, ?_⟩
        · rw [hm.find?, Journey.messageHash_record, Journey.key_goOn, hj, Option.map_some]
        · rwa [Journey.isOfRoot_record net (e := e) (k := k)]
          exact hu.imp (fun h => ⟨h.1, h.2.1⟩) fun h => ⟨h.1, h.2.1⟩
      · rw [hnew, find?_of_mem_goneOn hmark hroot (undisturbed_depicts hm [e]).2 hr]
    · exact .inl (hunder.frame fun r hr hsame => hkey ⟨r, hr, hsame⟩)

end Ledgers

/-- Whatever was consumed before, and whichever calls are refused: where a batch fails at an event,
the events before it have all of their effect, and it leaves behind a part of its own at most, and
only if it is one of a root. -/
theorem consume_cut_short (v : Service σ) (net : Network) (batches : List (List Event)) {s : σ}
    (hempty : v.contents s = Memory.empty) (batch : List Event) {r : Rejection}
    (hr : (consume v.backend v.fan net batch
      (consumeEach v.backend v.fan net batches s)).result = .error r) :
    let s := consumeEach v.backend v.fan net batches s
    ∃ ds rest, CutAt v.backend v.fan net batch s r ds rest ∧
      (undisturbed net (ds ++ [r.event]) (v.contents s)).result = .ok () ∧
      v.contents (consume v.backend v.fan net ds s).state =
        (undisturbed net ds (v.contents s)).state ∧
      CutShort net r.event (undisturbed net ds (v.contents s)).state
        (v.contents (consume v.backend v.fan net batch s).state) := by
  intro s
  obtain ⟨L, hs⟩ := v.consumeEach_depicts (hempty ▸ Ledger.depicts_empty net) batches
  obtain ⟨ds, rest, hcut⟩ := exists_cutAt hr
  have hds := hcut.depicts hs
  have heq := hds.unique (undisturbed_depicts hs ds).2
  refine ⟨ds, rest, hcut, (undisturbed_depicts hs _).1, heq, ?_⟩
  rw [hcut.state, ← heq]
  exact (v.perform_course hds r.event).cutShort hds hcut.failed

set_option maxRecDepth 2000 in
/-- Where nothing can be put into the pool, a processing and, after a dispatch, an update are cut
short. -/
theorem consume_cut_short_sample :
    let v := Stores.inTurns 3
    let net := Sample.network
    let batch := [Sample.dispatch, Sample.update, Sample.relay]
    let s := consumeEach v.backend v.fan net [[Sample.process]]
      ⟨Memory.empty, ⟨false, false, true, false, []⟩, 0⟩
    ∃ r, (consume v.backend v.fan net batch s).result = .error r ∧
      ∃ ds rest, CutAt v.backend v.fan net batch s r ds rest ∧
        (undisturbed net (ds ++ [r.event]) (v.contents s)).result = .ok () ∧
        v.contents (consume v.backend v.fan net ds s).state =
          (undisturbed net ds (v.contents s)).state ∧
        CutShort net r.event (undisturbed net ds (v.contents s)).state
          (v.contents (consume v.backend v.fan net batch s).state) :=
  ⟨⟨Sample.update, .refused _⟩, rfl,
    consume_cut_short (Stores.inTurns 3) Sample.network [[Sample.process]] rfl _ rfl⟩

end Tracker

end Waybill
