import Waybill.Proofs.Ledger.Reached
import Waybill.Proofs.Ordered.Distinct
import Waybill.Proofs.Tracker.History
/-!
# Messages of a root that were dispatched early and late

The updates and relays of a root reach the messages of the root that are known one by one, as they
come. A message that is dispatched later takes them from the pool, where none of them stands twice
and each stands where it came first. So two messages of a root that go to the same destination have
the same marks, but if the last update is one that had come before, an early message has its time
and gas and a late one those of the last update that was new.

## Main definitions

* `Tracker.since`: the events after the first dispatch of a hash.
* `Tracker.lastHeard`: the last of some events for a message, as they came or as the pool has them.
* `Tracker.HeardAlike`: two messages have the same time and gas of some events.

## Main results

* `Ledger.held_steps_empty`: what waits for a root are its events without repetitions.
* `Ledger.heard_of_root`: which event left a mark that is for all messages of a root.
* `Tracker.stamps_agree_iff`: when two messages of a root agree.
-/

namespace Waybill

open Waybill.Pending Message

namespace Sample

/-- A second update of the root of the transfer. -/
def nextUpdate : Event := report 1 150 <| .homeUpdate ⟨1, default, default, []⟩

end Sample

/-! ### Which event is the last one -/

namespace Tracker

/-- The events that come after the first dispatch of a hash. -/
def since (hash : Digest) : List Event → List Event
  | [] => []
  | e :: es => if (dispatchOf? hash e).isSome then es else since hash es

/-- The last one of some events for a message of a hash: the last that came after its dispatch, or
else the last of those that the pool keeps. -/
def lastHeard (p : Event → Bool) (es : List Event) (hash : Digest) : Option Event :=
  ((since hash es).filter p).getLast?.or (es.filter p).eraseDups.getLast?

theorem since_suffix (hash : Digest) (es : List Event) : since hash es <:+ es := by
  induction es with
  | nil => exact List.suffix_refl _
  | cons e es ih =>
    rw [since]
    split
    · exact List.suffix_cons e es
    · exact ih.trans (List.suffix_cons e es)

variable {p : Event → Bool} {es : List Event} {hash hash' : Digest}

/-- A message for which there were events after its dispatch has heard the last one of all. -/
theorem lastHeard_eq (p : Event → Bool) (es : List Event) (hash : Digest) :
    lastHeard p es hash = if (since hash es).any p then (es.filter p).getLast?
      else (es.filter p).eraseDups.getLast? := by
  rw [lastHeard]
  split
  · next hany =>
    obtain ⟨front, hfront⟩ := since_suffix hash es
    obtain ⟨e, he, hp⟩ := List.any_eq_true.mp hany
    have hne : (since hash es).filter p ≠ [] :=
      List.ne_nil_of_mem (List.mem_filter.mpr ⟨he, hp⟩)
    obtain ⟨d, hd⟩ := Option.isSome_iff_exists.mp (List.getLast?_isSome.mpr hne)
    have hlast : (es.filter p).getLast? = some d := by
      rw [← hfront, List.filter_append, List.getLast?_append, hd, Option.some_or]
    rw [hd, hlast, Option.some_or]
  · next hnone =>
    have hnil : (since hash es).filter p = [] :=
      List.filter_eq_nil_iff.mpr fun e he hp => hnone (List.any_eq_true.mpr ⟨e, he, hp⟩)
    rw [hnil, List.getLast?_nil, Option.none_or]

theorem isSome_lastHeard (p : Event → Bool) (es : List Event) (hash : Digest) :
    (lastHeard p es hash).isSome = es.any p := by
  have hdistinct : (es.filter p).eraseDups = [] ↔ es.filter p = [] := by
    cases es.filter p with
    | nil => exact Iff.rfl
    | cons e fs => simp [List.eraseDups_cons]
  rw [Bool.eq_iff_iff, List.any_eq_true, lastHeard_eq]
  have hfilter : es.filter p ≠ [] ↔ ∃ e ∈ es, p e = true := by
    rw [ne_eq, List.filter_eq_nil_iff]
    simp
  split
  · rw [List.getLast?_isSome, hfilter]
  · rw [List.getLast?_isSome, ne_eq, hdistinct, ← ne_eq, hfilter]

/-- What a mark takes from its event. -/
def stamp (e : Event) : UInt64 × Word := (e.timestamp, e.gasUsed)

/-- Two messages have the same time and gas of some events: both have heard the last one as it
came, or neither has, or that event and the last one that was new have the same time and gas. -/
def HeardAlike (p : Event → Bool) (es : List Event) (hash hash' : Digest) : Prop :=
  (since hash es).any p = (since hash' es).any p ∨
    (es.filter p).getLast?.map stamp = (es.filter p).eraseDups.getLast?.map stamp

instance (p : Event → Bool) (es : List Event) (hash hash' : Digest) :
    Decidable (HeardAlike p es hash hash') :=
  inferInstanceAs (Decidable (_ ∨ _))

/-- Events none of which comes twice are heard alike by all messages. -/
theorem HeardAlike.of_nodup (h : (es.filter p).Nodup) (hash hash' : Digest) :
    HeardAlike p es hash hash' :=
  .inr (by rw [eraseDups_of_nodup h])

theorem heardAlike_iff : HeardAlike p es hash hash' ↔
    (lastHeard p es hash).map stamp = (lastHeard p es hash').map stamp := by
  rw [HeardAlike, lastHeard_eq, lastHeard_eq]
  cases (since hash es).any p <;> cases (since hash' es).any p <;> simp [eq_comm]

end Tracker

/-! ### The marks that are for all messages of a root -/

namespace Ledger

open Tracker (since dispatchOf? firstDispatch? lastHeard)

variable {net : Network} {L : Ledger} {j : Journey} {k : Mark} {es : List Event} {hash : Digest}

theorem held_step (net : Network) (L : Ledger) {l : Lookup} (hl : l.keepsAll = true) (e : Event) :
    (L.step net e).stock.held l =
      if Lookup.ofEvent? e = some l then l.arrange (L.stock.held l) e else L.stock.held l := by
  cases hmark : e.mark? with
  | none =>
    obtain ⟨d, hd⟩ := (Event.mark?_eq_none_iff e).mp hmark
    have hnone : Lookup.ofEvent? e = none := (Event.ofEvent?_eq_none_iff e).mpr hmark
    rw [hnone, if_neg (by simp), step_of_dispatch net L hd, begin]
    split <;> rfl
  | some k =>
    rw [step_of_mark net L hmark]
    split
    · rfl
    · next hroot =>
      have hne : Lookup.ofEvent? e ≠ some l := fun he =>
        hroot ((l.keepsAll_of_mark hmark he).symm.trans hl)
      rw [if_neg hne, deliver]
      split
      · exact Stock.held_keep_of_ne hne
      · split <;> rfl

/-- What waits for a root are its events, each where it came first. -/
theorem held_steps (net : Network) {l : Lookup} (hl : l.keepsAll = true) {ds : List Event}
    (h : L.stock.held l = (ds.filter fun e => Lookup.ofEvent? e = some l).eraseDups)
    (es : List Event) : (L.steps net es).stock.held l =
      ((ds ++ es).filter fun e => Lookup.ofEvent? e = some l).eraseDups := by
  induction es generalizing L ds with
  | nil => rwa [List.append_nil]
  | cons e es ih =>
    have hsplit : ds ++ e :: es = (ds ++ [e]) ++ es := by simp
    rw [hsplit]
    refine ih ?_
    rw [held_step net L hl, h, List.filter_append]
    by_cases he : Lookup.ofEvent? e = some l
    · rw [if_pos he, List.filter_cons_of_pos (by simpa using he), List.filter_nil,
        eraseDups_concat, Lookup.arrange, if_pos hl]
      simp only [List.mem_eraseDups]
    · rw [if_neg he, List.filter_cons_of_neg (by simpa using he), List.filter_nil,
        List.append_nil]

theorem held_steps_empty (net : Network) {l : Lookup} (hl : l.keepsAll = true)
    (es : List Event) : (empty.steps net es).stock.held l =
      (es.filter fun e => Lookup.ofEvent? e = some l).eraseDups := by
  have hnone : empty.stock.held l =
    (([] : List Event).filter fun e => Lookup.ofEvent? e = some l).eraseDups := rfl
  exact held_steps net hl hnone es

/-- What is pending for a mark of a root is the last of the events that are new. -/
theorem pending?_of_root (hroot : k.isOfRoot = true) (j : Journey) (es : List Event) :
    (j.base net).pending? (empty.steps net es).stock k =
      (es.filter (j.hears net k)).eraseDups.getLast? := by
  have hadmits := admits_of_isOfRoot hroot (j.base net)
  cases hl : (j.base net).lookup? k with
  | none => exact absurd (lookup?_eq_none hl) (by simp [hadmits])
  | some l =>
    have hkeeps : l.keepsAll = true := by
      rw [l.keepsAll_eq_isOfRoot, mark_of_lookup? hl, hroot]
    rw [pending?, if_pos hadmits, hl, Option.elim_some, held_steps_empty net hkeeps,
      ← eraseDups_filter, List.filter_filter]
    congr 3
    funext e
    rw [Journey.hears, hadmits, Bool.true_and, Bool.and_comm, Journey.answers, hl]
    simp only [eq_comm]

/-- An event of a root reaches all messages that it concerns. -/
theorem reaches_of_root (hroot : k.isOfRoot = true) (L : Ledger) (e : Event) (j : Journey) :
    L.reaches net k e j = j.hears net k e := by
  rw [reaches, hroot, Bool.true_or, Bool.and_true]

theorem direct_of_known (hroot : k.isOfRoot = true) {i : Journey}
    (hi : L.journeys.find? hash.text = some i) (hbase : i.base net = j.base net)
    (es : List Event) : direct net hash.text k L es = es.filter (j.hears net k) := by
  induction es generalizing L i with
  | nil => rfl
  | cons e es ih =>
    obtain ⟨i', (hi' : (L.step net e).journeys.find? hash.text = some i'), hbase'⟩ :=
      exists_steps net hi [e]
    have hhears : i.hears net k e = j.hears net k e := by
      rw [Journey.hears, Journey.hears, Journey.answers_congr net hbase, hbase]
    rw [direct, hi, Option.any_some, reaches_of_root hroot, hhears, ih hi' (hbase'.trans hbase)]
    split
    · next h => rw [List.filter_cons_of_pos h]
    · next h => rw [List.filter_cons_of_neg h]

/-- The events of a root that reach a message directly are those after its dispatch. -/
theorem direct_of_root (hroot : k.isOfRoot = true) (hnone : L.journeys.find? hash.text = none)
    (hj : (L.steps net es).journeys.find? hash.text = some j) :
    direct net hash.text k L es = (since hash es).filter (j.hears net k) := by
  induction es generalizing L with
  | nil => rfl
  | cons e es ih =>
    have hstep := find?_step net L e hash
    rw [hnone, Option.map_none, Option.none_or] at hstep
    rw [direct, hnone, Option.any_none, if_neg (by decide), since]
    cases hd : dispatchOf? hash e with
    | none =>
      rw [hd, Option.map_eq_none_iff] at hstep
      exact ih hstep hj
    | some p =>
      rw [hd, Option.map_eq_some_iff] at hstep
      obtain ⟨i, hi, -⟩ := hstep
      obtain ⟨j', hj', hbase⟩ := exists_steps net hi es
      obtain rfl := Option.some.inj (hj'.symm.trans hj)
      exact direct_of_known hroot hi hbase.symm es

/-- The mark of a root that a message has is of the last event that it heard after its dispatch, or
else of the last one that the pool keeps. -/
theorem heard_of_root (hroot : k.isOfRoot = true)
    (hj : (empty.steps net es).journeys.find? hash.text = some j) :
    j.heard k = lastHeard (j.hears net k) es hash := by
  rw [heard_steps_empty hj, direct_of_root hroot (L := empty) rfl hj, pending?_of_root hroot]
  rfl

end Ledger

/-! ### Records of a root -/

namespace Record

/-- Whether an event is an update of the root of a record at its home. -/
def isUpdatedBy (r : Record) (e : Event) : Bool :=
  match e.data with
  | .homeUpdate u => r.isOfRoot u.homeDomain u.oldRoot.text
  | _ => false

/-- Whether an event is an update of the root of a record in the replica at its destination. -/
def isRelayedBy (r : Record) (e : Event) : Bool :=
  match e.data with
  | .replicaUpdate u => r.isOfRoot u.homeDomain u.oldRoot.text && e.domain == r.destination
  | _ => false

variable {r r' : Record}

theorem isUpdatedBy_congr (horigin : r.origin = r'.origin) (hroot : r.root = r'.root) :
    r.isUpdatedBy = r'.isUpdatedBy := by
  funext e
  simp only [isUpdatedBy, isOfRoot, horigin, hroot]

theorem isRelayedBy_congr (horigin : r.origin = r'.origin) (hroot : r.root = r'.root)
    (hdestination : r.destination = r'.destination) : r.isRelayedBy = r'.isRelayedBy := by
  funext e
  simp only [isRelayedBy, isOfRoot, horigin, hroot, hdestination]

end Record

namespace Journey

variable (net : Network) (j : Journey)

theorem origin_record : (j.record net).origin = j.start.domain := rfl

theorem root_record : (j.record net).root = j.dispatch.committedRoot.text := rfl

theorem destination_record : (j.record net).destination = j.dispatch.destination := rfl

theorem hears_updated : j.hears net .updated = fun e =>
    decide (Lookup.ofEvent? e = some (.update j.start.domain j.dispatch.committedRoot)) := by
  funext e
  rw [Bool.eq_iff_iff, hears_iff, concerns_updated_iff, decide_eq_true_iff,
    Lookup.ofEvent?_eq_update]

theorem isUpdatedBy_record : (j.record net).isUpdatedBy = j.hears net .updated := by
  funext e
  rw [Record.isUpdatedBy, hears]
  cases hdata : e.data with
  | homeUpdate u =>
    dsimp only
    rw [j.isOfRoot_record net (.inl ⟨hdata, rfl⟩)]
    simp [admits, heeds]
  | _ => simp [answers, lookup?, Lookup.ofEvent?, hdata]

theorem isRelayedBy_record : (j.record net).isRelayedBy = j.hears net .relayed := by
  funext e
  rw [Record.isRelayedBy, hears]
  cases hdata : e.data with
  | replicaUpdate u =>
    dsimp only
    rw [j.isOfRoot_record net (.inr ⟨hdata, rfl⟩), heeds, bne_self_eq_false, Bool.false_or]
    rfl
  | _ => simp [answers, lookup?, Lookup.ofEvent?, hdata]

/-- The event of the mark of an update, by the record. -/
theorem heard_updated {es : List Event} {hash : Digest}
    (hj : (Ledger.empty.steps net es).journeys.find? hash.text = some j) :
    j.heard .updated = Tracker.lastHeard (j.record net).isUpdatedBy es hash := by
  rw [isUpdatedBy_record]
  exact Ledger.heard_of_root rfl hj

/-- The event of the mark of a relay, by the record. -/
theorem heard_relayed {es : List Event} {hash : Digest}
    (hj : (Ledger.empty.steps net es).journeys.find? hash.text = some j) :
    j.heard .relayed = Tracker.lastHeard (j.record net).isRelayedBy es hash := by
  rw [isRelayedBy_record]
  exact Ledger.heard_of_root rfl hj

end Journey

namespace Tracker

variable {σ : Type} {p : Event → Bool} {es : List Event} {hash hash' : Digest}

/-- Two messages have the same time and the same text of the gas of some events exactly if they
heard the events alike. -/
theorem time_and_gas_agree_iff :
    (((lastHeard p es hash).map Event.timestamp).getD 0 =
        ((lastHeard p es hash').map Event.timestamp).getD 0 ∧
      (((lastHeard p es hash).map Event.gasUsed).getD 0).hex =
        (((lastHeard p es hash').map Event.gasUsed).getD 0).hex) ↔
      HeardAlike p es hash hash' := by
  have hhex (a b : Word) : a.hex = b.hex ↔ a = b := by
    refine ⟨fun h => ?_, congrArg Word.hex⟩
    have hread := congrArg Word.read h
    rw [Word.read_hex, Word.read_hex] at hread
    exact Except.ok.inj hread
  have hsame : (lastHeard p es hash).isSome = (lastHeard p es hash').isSome := by
    rw [isSome_lastHeard, isSome_lastHeard]
  rw [heardAlike_iff, hhex]
  cases ha : lastHeard p es hash <;> cases hb : lastHeard p es hash' <;>
    simp_all [stamp]

/-- After any events, two messages of a root with the same destination have the same marks of the
root, and the same times and gas of its updates and of its relays exactly if they heard these
alike. -/
theorem stamps_agree_iff (v : Service σ) (net : Network) (batches : List (List Event)) {s : σ}
    (hempty : v.contents s = Memory.empty) (hsteady : v.Steady s) {hash hash' : Digest}
    {r r' : Record} :
    let es := batches.flatten
    let records := (v.contents (consumeAll v.backend v.fan net batches s).state).records
    records.find? hash.text = some r → records.find? hash'.text = some r' →
    r.origin = r'.origin → r.root = r'.root → r.destination = r'.destination →
    (r.updated = r'.updated ∧ r.relayed = r'.relayed) ∧
      (r.updatedAt = r'.updatedAt ∧ r.gasAtUpdate = r'.gasAtUpdate ↔
        HeardAlike r.isUpdatedBy es hash hash') ∧
      (r.relayedAt = r'.relayedAt ∧ r.gasAtRelay = r'.gasAtRelay ↔
        HeardAlike r.isRelayedBy es hash hash') := by
  intro es records hr hr' horigin hroot hdestination
  obtain ⟨-, hdepicts, -⟩ :=
    v.consumeAll_depicts (hempty ▸ Ledger.depicts_empty net) hsteady batches
  rw [hdepicts.find?, Option.map_eq_some_iff] at hr hr'
  obtain ⟨j, hj, rfl⟩ := hr
  obtain ⟨j', hj', rfl⟩ := hr'
  have hupdated := j.heard_updated net hj
  have hrelayed := j.heard_relayed net hj
  have hupdated' := j'.heard_updated net hj'
  have hrelayed' := j'.heard_relayed net hj'
  rw [← Record.isUpdatedBy_congr horigin hroot] at hupdated'
  rw [← Record.isRelayedBy_congr horigin hroot hdestination] at hrelayed'
  refine ⟨⟨?_, ?_⟩, ?_, ?_⟩
  · change (j.heard .updated).isSome = (j'.heard .updated).isSome
    rw [hupdated, hupdated', isSome_lastHeard, isSome_lastHeard]
  · change (j.heard .relayed).isSome = (j'.heard .relayed).isSome
    rw [hrelayed, hrelayed', isSome_lastHeard, isSome_lastHeard]
  · rw [← time_and_gas_agree_iff, ← hupdated, ← hupdated']
    rfl
  · rw [← time_and_gas_agree_iff, ← hrelayed, ← hrelayed']
    rfl

/-- Of two transfers of a root one is dispatched between two updates of the root, and one after
both. -/
theorem stamps_agree_iff_sample :
    let v := Stores.inMemory.oneByOne
    let batches := [[Sample.update, Sample.dispatch], [Sample.nextUpdate, Sample.relay],
      [Sample.companion]]
    let records := (v.contents (consumeAll v.backend v.fan Sample.network batches
      Memory.empty).state).records
    ∃ r r', records.find? (default : Digest).text = some r ∧
      records.find? Sample.companionHash.text = some r' ∧ r.updatedAt = r'.updatedAt ∧
      r.gasAtUpdate = r'.gasAtUpdate ∧ r.relayedAt = r'.relayedAt ∧
      r.gasAtRelay = r'.gasAtRelay := by
  intro v batches records
  have hfirst : firstDispatch? default batches.flatten = some (Sample.dispatch, _) := rfl
  have hfirst' : firstDispatch? Sample.companionHash batches.flatten =
    some (Sample.companion, _) := rfl
  obtain ⟨j, -, hr, hstart, hdispatch⟩ :=
    exists_record v Sample.network batches (s := Memory.empty) rfl trivial hfirst
  obtain ⟨j', -, hr', hstart', hdispatch'⟩ :=
    exists_record v Sample.network batches (s := Memory.empty) rfl trivial hfirst'
  have hnodup : batches.flatten.Nodup := by decide
  obtain ⟨-, hupdate, hrelay⟩ := stamps_agree_iff v Sample.network batches (s := Memory.empty) rfl
    trivial hr hr' (by rw [j.origin_record, j'.origin_record, hstart, hstart']; rfl)
    (by rw [j.root_record, j'.root_record, hdispatch, hdispatch'])
    (by rw [j.destination_record, j'.destination_record, hdispatch, hdispatch']; decide)
  have hupdated := hupdate.mpr (.of_nodup (hnodup.filter _) _ _)
  have hrelayed := hrelay.mpr (.of_nodup (hnodup.filter _) _ _)
  exact ⟨_, _, hr, hr', hupdated.1, hupdated.2, hrelayed.1, hrelayed.2⟩

/-- The root of two transfers is updated twice, then the first of the updates comes again. One of the
transfers was dispatched before that, and the other one is dispatched after it. -/
theorem redelivery_divides :
    let v := Stores.inMemory.oneByOne
    let batches := [[Sample.dispatch, Sample.update, Sample.nextUpdate, Sample.update,
      Sample.companion]]
    let records := (v.contents (consumeAll v.backend v.fan Sample.network batches
      Memory.empty).state).records
    ∃ r r', records.find? (default : Digest).text = some r ∧
      records.find? Sample.companionHash.text = some r' ∧ r.origin = r'.origin ∧
      r.root = r'.root ∧ r.destination = r'.destination ∧ r.updatedAt ≠ r'.updatedAt := by
  intro v batches records
  have hfirst : firstDispatch? default batches.flatten = some (Sample.dispatch, _) := rfl
  have hfirst' : firstDispatch? Sample.companionHash batches.flatten =
    some (Sample.companion, _) := rfl
  obtain ⟨j, hj, hr, hstart, hdispatch⟩ :=
    exists_record v Sample.network batches (s := Memory.empty) rfl trivial hfirst
  obtain ⟨j', hj', hr', hstart', hdispatch'⟩ :=
    exists_record v Sample.network batches (s := Memory.empty) rfl trivial hfirst'
  have horigin : (j.record Sample.network).origin = (j'.record Sample.network).origin := by
    rw [j.origin_record, j'.origin_record, hstart, hstart']
    rfl
  have hroot : (j.record Sample.network).root = (j'.record Sample.network).root := by
    rw [j.root_record, j'.root_record, hdispatch, hdispatch']
  have hdestination :
      (j.record Sample.network).destination = (j'.record Sample.network).destination := by
    rw [j.destination_record, j'.destination_record, hdispatch, hdispatch']
    decide
  have hheard := Ledger.heard_of_root (k := .updated) rfl hj
  have hheard' := Ledger.heard_of_root (k := .updated) rfl hj'
  rw [j.hears_updated, hstart, hdispatch] at hheard
  rw [j'.hears_updated, hstart', hdispatch'] at hheard'
  have hlast : j.heard .updated = some Sample.update := hheard.trans rfl
  have hlast' : j'.heard .updated = some Sample.nextUpdate := hheard'.trans rfl
  refine ⟨_, _, hr, hr', horigin, hroot, hdestination, ?_⟩
  change ((j.heard .updated).map Event.timestamp).getD 0 ≠
    ((j'.heard .updated).map Event.timestamp).getD 0
  rw [hlast, hlast']
  decide

end Tracker

end Waybill
