import Waybill.Proofs.Message.Climb
import Waybill.Proofs.Tracker.Simulation
/-!
# What is told of a step

As a ledger takes the step of an event, observers are told of the messages that move on. Up to the
branches of the event this is about one message at most; in the branches each message of a root is
told of by its own. For each hash the notices are those of a climb, from where its message stood to
where it stands once the step is taken.

## Main definitions

* `Ledger.standing`, `Memory.standing`: where the message of a hash stands.

## Main results

* `Ledger.climb_opening`, `Ledger.climb_told`: what is told up to the branches, and in one of them.
* `Ledger.noticesOf_branch`, `Ledger.noticesOf_eq_nil`: what branches tell of a message in turns.
* `Ledger.balanced_opening`, `Ledger.balanced_spread`: transitions are counted as they are noticed.
-/

namespace Waybill

open Waybill.Pending Message

/-! ### Journeys -/

namespace Message.Rises

variable {net : Network} {m m' : Message} {xs : List Signal}

/-- All that is told is about the message itself. -/
theorem climb_noticesOf (h : Rises net m xs m') :
    Climb net m.hash (some m.standing) (Signal.noticesOf m.hash xs) (some m'.standing) := by
  obtain ⟨-, -, ns, rfl, hclimb⟩ := h
  rw [Signal.noticesOf, Signal.notices_signals, List.filter_eq_self.mpr fun n hn =>
    decide_eq_true (hclimb.fits hn).2]
  exact hclimb

theorem noticesOf_of_ne (h : Rises net m xs m') {hash : Digest} (hne : hash ≠ m.hash) :
    Signal.noticesOf hash xs = [] := by
  obtain ⟨-, -, ns, rfl, hclimb⟩ := h
  rw [Signal.noticesOf, Signal.notices_signals, List.filter_eq_nil_iff]
  intro n hn hsame
  exact hne ((of_decide_eq_true hsame).symm.trans (hclimb.fits hn).2)

end Message.Rises

/-- What is told when a message goes on with an event that it looks for. -/
theorem Journey.rises_told {net : Network} {j : Journey} {k : Mark} {e : Event}
    (hadmits : (j.base net).admits k = true) (hans : j.answers net k e = true) (s : Stock) :
    Rises net (j.message net) (j.told net k e s) ((j.goOn net k e s).message net) := by
  have hlookup : (j.message net).lookup? k = Lookup.ofEvent? e :=
    (lookup?_after _ _ k).trans (of_decide_eq_true hans)
  have htake : Rises net (j.message net) _ _ :=
    rises_take ((admits_after _ _ k).trans hadmits) hlookup
  rw [goOn, message_catchUp, message_hear]
  exact htake.trans (rises_caughtUp net s _)

namespace Signal

/-- The notice that is told, if it is about a message of a hash. -/
def noticeOf? (hash : Digest) : Signal → Option Notice
  | noted n => if n.message.hash = hash then some n else none
  | _ => none

theorem noticesOf_eq_filterMap (hash : Digest) (xs : List Signal) :
    noticesOf hash xs = xs.filterMap (noticeOf? hash) := by
  rw [noticesOf, notices, List.filter_filterMap]
  congr 1
  funext x
  cases x <;> simp [noticeOf?, Option.filter]

theorem noticesOf_sighted (hash : Digest) (domain : UInt32) (xs : List Signal) :
    noticesOf hash (.sighted domain :: xs) = noticesOf hash xs := rfl

theorem noticesOf_noted (hash : Digest) (n : Notice) (xs : List Signal) :
    noticesOf hash (.noted n :: xs) =
      if n.message.hash = hash then n :: noticesOf hash xs else noticesOf hash xs := by
  rw [noticesOf, show notices (.noted n :: xs) = n :: notices xs from rfl, List.filter_cons]
  simp only [decide_eq_true_eq]
  rfl

theorem noticesOf_storeSignals (hash : Digest) (e : Event) :
    noticesOf hash (storeSignals e) = [] := by
  rw [storeSignals]
  split <;> rfl

theorem balanced_storeSignals (e : Event) : Balanced (storeSignals e) := by
  intro t
  rw [storeSignals]
  split <;> split <;> rfl

end Signal

/-! ### Ledgers -/

namespace Ledger

variable {net : Network} {L : Ledger} {e : Event} {k : Mark} {hash : Digest}

/-- Where the message of a hash stands. -/
def standing (net : Network) (L : Ledger) (hash : Digest) : Option Standing :=
  (L.journeys.find? hash.text).map fun j => (j.message net).standing

theorem standing_put (j : Journey) : (L.put j).standing net hash =
    if hash = j.dispatch.messageHash then some (j.message net).standing
    else L.standing net hash := by
  have hkey : hash.text = j.key ↔ hash = j.dispatch.messageHash :=
    ⟨fun h => Digest.text_injective h, fun h => congrArg Digest.text h⟩
  rw [standing, find?_put]
  simp only [hkey]
  split <;> rfl

theorem standing_of_find? {j : Journey} (hj : L.journeys.find? j.key = some j) :
    L.standing net j.dispatch.messageHash = some (j.message net).standing := by
  rw [standing, ← Journey.key, hj, Option.map_some]

/-- What is told about a dispatch. -/
theorem climb_begin {d : Dispatch} (he : e.data = .dispatch d) :
    Climb net hash (L.standing net hash) (Signal.noticesOf hash (L.beginSignals net e d))
      ((L.begin net e d).standing net hash) := by
  rw [beginSignals, begin]
  split
  · exact .stay _
  · next hnew =>
    rw [Bool.not_eq_true, SortedMap.contains_eq_false_iff] at hnew
    have hrises := rises_caughtUp net L.stock (Tracker.created net e d)
    rw [standing_put, Journey.message_catchUp, Journey.message_ofDispatch, Signal.noticesOf_sighted,
      Signal.noticesOf_noted]
    change Climb net hash _ (if d.messageHash = hash then _ else _)
      (if hash = d.messageHash then _ else _)
    by_cases hhash : hash = d.messageHash
    · subst hhash
      rw [if_pos rfl, if_pos rfl, standing, hnew, Option.map_none]
      exact .enter ⟨rfl, d, he, rfl⟩ rfl rfl hrises.climb_noticesOf
    · rw [if_neg hhash, if_neg (Ne.symm hhash), hrises.noticesOf_of_ne hhash]
      exact .stay _

/-- What is told about an event that reaches a single message or waits. -/
theorem climb_deliver (net : Network) (L : Ledger) (k : Mark) (e : Event) (hash : Digest) :
    Climb net hash (L.standing net hash) (Signal.noticesOf hash (L.deliverSignals net k e))
      ((L.deliver net k e).standing net hash) := by
  rw [deliverSignals, deliver]
  cases hj : L.addressee? net k e with
  | none =>
    rw [Signal.noticesOf_storeSignals]
    exact .stay _
  | some j =>
    obtain ⟨hfind, hans⟩ := addressee?_eq_some net hj
    simp only
    split
    · next hadmits =>
      have hrises := Journey.rises_told hadmits hans L.stock
      rw [standing_put, Journey.dispatch_goOn]
      by_cases hhash : hash = j.dispatch.messageHash
      · subst hhash
        rw [if_pos rfl, standing_of_find? hfind]
        exact hrises.climb_noticesOf
      · rw [if_neg hhash, hrises.noticesOf_of_ne hhash]
        exact .stay _
    · exact .stay _

/-- What is told about an event that is not one of a root. -/
theorem climb_opening (hmark : ∀ k, e.mark? = some k → k.isOfRoot = false) :
    Climb net hash (L.standing net hash) (Signal.noticesOf hash (L.openingSignals net e))
      ((L.step net e).standing net hash) := by
  rw [openingSignals, step]
  rw [Event.mark?] at hmark
  cases he : e.data with
  | dispatch d => exact climb_begin he
  | homeUpdate u => exact absurd (hmark .updated (by rw [he])) (by decide)
  | replicaUpdate u => exact absurd (hmark .relayed (by rw [he])) (by decide)
  | process p => exact climb_deliver net L .processed e hash
  | bridgeSend s => exact climb_deliver net L .sent e hash
  | bridgeReceive r => exact climb_deliver net L .received e hash

/-- An event of a root is handed to the pool before any message is told of. -/
theorem openingSignals_of_root (hmark : e.mark? = some k) (hroot : k.isOfRoot = true) :
    L.openingSignals net e = storeSignals e := by
  rw [openingSignals]
  rw [Event.mark?] at hmark
  revert hmark
  cases e.data <;> rintro ⟨⟩ <;> first | rfl | cases hroot

theorem balanced_deliver (net : Network) (L : Ledger) (k : Mark) (e : Event) :
    Signal.Balanced (L.deliverSignals net k e) := by
  rw [deliverSignals]
  cases hj : L.addressee? net k e with
  | none => exact Signal.balanced_storeSignals e
  | some j =>
    simp only
    split
    · next hadmits =>
      exact (Journey.rises_told hadmits (addressee?_eq_some net hj).2 L.stock).balanced
    · exact Signal.balanced_nil

/-- Up to its branches, transitions are counted as they are noticed. -/
theorem balanced_opening (net : Network) (L : Ledger) (e : Event) :
    Signal.Balanced (L.openingSignals net e) := by
  rw [openingSignals]
  cases he : e.data with
  | dispatch d =>
    simp only
    rw [beginSignals]
    split
    · exact Signal.Balanced.sighted _ Signal.balanced_nil
    · exact Signal.Balanced.sighted _ (Signal.Balanced.dispatched rfl
        (rises_caughtUp net L.stock _).balanced)
  | homeUpdate u => exact Signal.balanced_storeSignals e
  | replicaUpdate u => exact Signal.balanced_storeSignals e
  | process p => exact balanced_deliver net L .processed e
  | bridgeSend s => exact balanced_deliver net L .sent e
  | bridgeReceive r => exact balanced_deliver net L .received e

/-! ### The messages of a root -/

theorem balanced_spread (hroot : k.isOfRoot = true) {xs : List Signal}
    (hxs : xs ∈ L.spreadSignals net k e) : Signal.Balanced xs := by
  obtain ⟨j, hj, rfl⟩ := List.mem_map.mp hxs
  exact (Journey.rises_told (admits_of_isOfRoot hroot _) (List.mem_filter.mp hj).2 _).balanced

/-- A branch tells of no other message than its own. -/
theorem noticesOf_told_of_ne (hroot : k.isOfRoot = true) {j : Journey}
    (hans : j.answers net k e = true) (hne : j.dispatch.messageHash ≠ hash) (s : Stock) :
    Signal.noticesOf hash (j.told net k e s) = [] :=
  (Journey.rises_told (admits_of_isOfRoot hroot _) hans s).noticesOf_of_ne (Ne.symm hne)

/-- The messages of a root have different hashes. -/
theorem eq_of_messageHash_eq {j j' : Journey} {i i' : Nat}
    (hi : (L.journeys.values.filter fun j => j.answers net k e)[i]? = some j)
    (hi' : (L.journeys.values.filter fun j => j.answers net k e)[i']? = some j')
    (hsame : j'.dispatch.messageHash = j.dispatch.messageHash) : i' = i := by
  refine (List.getElem?_inj ?_ (L.nodup_keys_answering net k e)).mp ?_
  · rw [List.length_map]
    exact (List.getElem?_eq_some_iff.mp hi').1
  · rw [List.getElem?_map, List.getElem?_map, hi', hi, Option.map_some, Option.map_some,
      Journey.key, hsame, Journey.key]

/-- Of what is told in the branches of an event of a root, what is about one of the messages comes
from the branch of that message. -/
theorem noticesOf_branch (hroot : k.isOfRoot = true) {ys : List Signal} {zss : List (List Signal)}
    (hwoven : Woven (L.spreadSignals net k e) ys zss) {i : Nat} {j : Journey}
    (hi : (L.journeys.values.filter fun j => j.answers net k e)[i]? = some j) :
    ∃ zs, zss[i]? = some zs ∧
      Signal.noticesOf j.dispatch.messageHash (j.told net k e (L.stock.keep e)) =
        Signal.noticesOf j.dispatch.messageHash ys ++
          Signal.noticesOf j.dispatch.messageHash zs := by
  have htold : (L.spreadSignals net k e)[i]? = some (j.told net k e (L.stock.keep e)) := by
    rw [spreadSignals, List.getElem?_map, hi, Option.map_some]
  simp only [Signal.noticesOf_eq_filterMap]
  refine hwoven.filterMap_eq htold fun {i' vs} hne hvs => ?_
  rw [spreadSignals, List.getElem?_map, Option.map_eq_some_iff] at hvs
  obtain ⟨j', hj', rfl⟩ := hvs
  rw [← Signal.noticesOf_eq_filterMap]
  exact noticesOf_told_of_ne hroot (List.mem_filter.mp (List.mem_of_getElem? hj')).2
    (fun hsame => hne (eq_of_messageHash_eq hi hj' hsame)) _

/-- Of a message that is not of the root nothing is told. -/
theorem noticesOf_eq_nil (hroot : k.isOfRoot = true) {ys : List Signal}
    {zss : List (List Signal)} (hwoven : Woven (L.spreadSignals net k e) ys zss)
    (hother : ∀ r ∈ L.goneOn net k e, r.messageHash ≠ hash.text) :
    Signal.noticesOf hash ys = [] := by
  rw [Signal.noticesOf_eq_filterMap]
  refine hwoven.filterMap_eq_nil fun xs hxs => ?_
  obtain ⟨j, hj, rfl⟩ := List.mem_map.mp hxs
  obtain ⟨hmem, hans⟩ := List.mem_filter.mp hj
  rw [← Signal.noticesOf_eq_filterMap]
  refine noticesOf_told_of_ne hroot hans (fun hsame => ?_) _
  refine hother _ (record_mem_goneOn ((L.mem_values_iff).mp hmem) hans) ?_
  rw [Journey.messageHash_record, Journey.key_goOn, Journey.key, hsame]

/-- Where the messages of a root stand when an event has reached them. -/
theorem standing_step_of_root (hmark : e.mark? = some k) (hroot : k.isOfRoot = true) :
    (L.step net e).standing net hash = (L.journeys.find? hash.text).map fun j =>
      let next := if j.answers net k e then j.goOn net k e (L.stock.keep e) else j
      (next.message net).standing := by
  rw [step_of_mark net L hmark, if_pos hroot, spread, standing, revise, SortedMap.find?_map,
    Option.map_map]
  rfl

/-- What is told in the branch of a message of a root. -/
theorem climb_told (hmark : e.mark? = some k) (hroot : k.isOfRoot = true) {j : Journey}
    (hj : L.journeys.find? j.key = some j) (hans : j.answers net k e = true) :
    Climb net j.dispatch.messageHash (L.standing net j.dispatch.messageHash)
      (Signal.noticesOf j.dispatch.messageHash (j.told net k e (L.stock.keep e)))
      ((L.step net e).standing net j.dispatch.messageHash) := by
  rw [standing_step_of_root hmark hroot, ← Journey.key, hj, Option.map_some, if_pos hans,
    standing_of_find? hj]
  exact (Journey.rises_told (admits_of_isOfRoot hroot _) hans _).climb_noticesOf

/-- A message that is not of the root stands where it stood. -/
theorem standing_step_of_not_mem (hmark : e.mark? = some k) (hroot : k.isOfRoot = true)
    (hother : ∀ r ∈ L.goneOn net k e, r.messageHash ≠ hash.text) :
    (L.step net e).standing net hash = L.standing net hash := by
  rw [standing_step_of_root hmark hroot, standing]
  cases hj : L.journeys.find? hash.text with
  | none => rfl
  | some j =>
    have hkey := L.keyed hj
    have hans : ¬ j.answers net k e = true := fun hans =>
      hother _ (record_mem_goneOn (hkey.symm ▸ hj) hans) ((j.key_goOn net k e _).trans hkey)
    rw [Option.map_some, Option.map_some, if_neg hans]

/-- What is told about an event up to its branches is a beginning of all that is told about it. -/
theorem exists_climb_step (net : Network) (L : Ledger) (e : Event) (hash : Digest) :
    ∃ ns, Climb net hash (L.standing net hash)
      (Signal.noticesOf hash (L.openingSignals net e) ++ ns)
      ((L.step net e).standing net hash) := by
  rcases e.isOfRoot_cases with hmark | ⟨k, hk, hroot⟩
  · refine ⟨[], ?_⟩
    rw [List.append_nil]
    exact L.climb_opening hmark
  · rw [openingSignals_of_root hk hroot, Signal.noticesOf_storeSignals]
    by_cases hmem : ∃ r ∈ L.goneOn net k e, r.messageHash = hash.text
    · obtain ⟨r, hr, hhash⟩ := hmem
      obtain ⟨j, hj, hans, rfl⟩ := mem_goneOn.mp hr
      rw [Journey.messageHash_record, Journey.key_goOn] at hhash
      obtain rfl := Digest.text_injective hhash
      exact ⟨_, climb_told hk hroot hj hans⟩
    · refine ⟨[], ?_⟩
      rw [standing_step_of_not_mem hk hroot fun r hr hhash => hmem ⟨r, hr, hhash⟩]
      exact .stay _

end Ledger

/-! ### What is stored -/

/-- Where the message of a hash stands, as it is read back from its record. -/
def Memory.standing (net : Network) (m : Memory) (hash : Digest) : Option Standing :=
  (m.records.find? hash.text).bind fun r => (ofRecord net r).toOption.map Message.standing

theorem Journey.standing_eq {net : Network} {m : Memory} {hash : Digest} {j : Journey}
    (h : m.records.find? hash.text = some (j.record net)) :
    m.standing net hash = some (j.message net).standing := by
  rw [Memory.standing, h, Option.bind_some, Journey.record,
    (j.isUnpacked_message net).ofRecord_ofMessage]
  rfl

theorem Ledger.Depicts.standing {net : Network} {L : Ledger} {m : Memory} (h : L.Depicts net m)
    (hash : Digest) : m.standing net hash = L.standing net hash := by
  have hfind := h.find? hash.text
  rw [Ledger.standing]
  cases hj : L.journeys.find? hash.text with
  | none => rw [Memory.standing, hfind, hj, Option.map_none, Option.bind_none, Option.map_none]
  | some j => rw [Journey.standing_eq (by rw [hfind, hj, Option.map_some]), Option.map_some]

end Waybill
