import Waybill.Proofs.Tracker.Routes
import Waybill.Proofs.Tracker.Sends
/-!
# Messages do not interfere

Messages share what waits in the pool, an event of a root rewrites the records of all its messages,
and where an event that is for one message goes depends on which other messages there are. Still,
what is stored of a message depends on nothing but the events for it: if no other message has its
number or, for a transfer, its values, its record is the same as if there had been no other events.

## Main definitions

* `Tracker.isFor`: an event is for the message of a dispatch.
* `Tracker.Unrivalled`: no other message has the number or the values of a message.

## Main results

* `Ledger.heard_of_alone`: which event left a mark on a message that alone looks for it.
* `Ledger.heard_of_unrivalled`: the events that are for a message tell what it has heard.
* `Tracker.record_unaffected`: the record of a message after the events that are for it.
-/

namespace Waybill

open Waybill.Pending Message

namespace Sample

/-- The dispatch of another transfer of the root, in a later block. -/
def laterCompanion : Event := { companion with block := 8 }

/-- A sending of its tokens. -/
def laterSend : Event := { send with block := 8 }

end Sample

/-- Of what satisfies a weaker condition the same satisfies a stronger one. -/
theorem filter_filter_of_imp {α : Type} {p q : α → Bool} (h : ∀ a, p a = true → q a = true)
    (es : List α) : (es.filter q).filter p = es.filter p := by
  rw [List.filter_filter]
  refine List.filter_congr fun a _ => ?_
  cases hp : p a with
  | true => rw [h a hp, Bool.and_true]
  | false => rw [Bool.false_and]

/-! ### The events for a message -/

namespace Tracker

/-- Whether an event is for the message of a dispatch. -/
def isFor (net : Network) (e : Event) (d : Dispatch) (a : Event) : Bool :=
  match a.data with
  | .dispatch d' => d'.messageHash = d.messageHash
  | .process p => p.messageHash = d.messageHash
  | .homeUpdate u => u.homeDomain = e.domain ∧ u.oldRoot = d.committedRoot
  | .replicaUpdate u =>
    u.homeDomain = e.domain ∧ u.oldRoot = d.committedRoot ∧ a.domain = d.destination
  | .bridgeReceive c => c.origin = e.domain ∧ c.nonce = d.nonce ∧ a.domain = d.destination
  | .bridgeSend s =>
    match (created net e d).transfer? with
    | some t => s.toDomain = d.destination ∧ s.toId = t.recipient ∧ s.amount = t.amount ∧
        a.block = e.block
    | none => false

/-- No other message that was dispatched has the origin, nonce and destination of a message or is,
if that is a transfer, one with the same values. -/
structure Unrivalled (net : Network) (es : List Event) (e : Event) (d : Dispatch) : Prop where
  received : ∀ hash e' d', firstDispatch? hash es = some (e', d') → e'.domain = e.domain →
    d'.nonce = d.nonce → d'.destination = d.destination → hash = d.messageHash
  sent : ∀ hash e' d' t t', firstDispatch? hash es = some (e', d') →
    (created net e d).transfer? = some t → (created net e' d').transfer? = some t' →
    d'.destination = d.destination → t'.recipient = t.recipient → t'.amount = t.amount →
    e'.block = e.block → hash = d.messageHash

variable {net : Network} {es : List Event} {e a : Event} {d : Dispatch} {hash : Digest}

theorem isFor_of_dispatchOf? (h : (dispatchOf? d.messageHash a).isSome = true) :
    isFor net e d a = true := by
  obtain ⟨⟨a', d'⟩, ha⟩ := Option.isSome_iff_exists.mp h
  obtain ⟨rfl, hdata, hhash⟩ := dispatchOf?_eq_some.mp ha
  rw [isFor, hdata]
  exact decide_eq_true hhash

/-- An event that leaves a mark on a message is for it. -/
theorem isFor_of_hears {j : Journey} {k : Mark} (h : j.hears net k a = true) :
    isFor net j.start j.dispatch a = true := by
  have hconcerns := Journey.hears_iff.mp h
  rw [isFor]
  cases k with
  | updated =>
    obtain ⟨u, hu, hfor⟩ := Journey.concerns_updated_iff.mp hconcerns
    simp [hu, hfor]
  | relayed =>
    obtain ⟨u, hu, hfor⟩ := Journey.concerns_relayed_iff.mp hconcerns
    simp [hu, hfor]
  | processed =>
    obtain ⟨p, hp, hfor⟩ := Journey.concerns_processed_iff.mp hconcerns
    simp [hp, hfor]
  | received =>
    obtain ⟨-, c, hc, hfor⟩ := Journey.concerns_received_iff.mp hconcerns
    simp [hc, hfor]
  | sent =>
    obtain ⟨t, ht, s, hs, hfor⟩ := Journey.concerns_sent_iff.mp hconcerns
    replace ht : (created net j.start j.dispatch).transfer? = some t := ht
    simp [hs, ht, hfor]

section Filter

variable {p q : Event → Bool} (hq : ∀ a, (dispatchOf? hash a).isSome = true → q a = true)

include hq

/-- Leaving out events that do not dispatch a message leaves its first dispatch. -/
theorem firstDispatch?_filter : firstDispatch? hash (es.filter q) = firstDispatch? hash es := by
  induction es with
  | nil => rfl
  | cons a es ih =>
    rw [firstDispatch?] at ih
    by_cases hqa : q a = true
    · rw [List.filter_cons_of_pos hqa, firstDispatch?, firstDispatch?, List.findSome?_cons,
        List.findSome?_cons, ih, firstDispatch?]
    · have hnone : dispatchOf? hash a = none := by simpa using mt (hq a) hqa
      rw [List.filter_cons_of_neg hqa, firstDispatch?, firstDispatch?, List.findSome?_cons, hnone,
        ih, firstDispatch?]

theorem since_filter : since hash (es.filter q) = (since hash es).filter q := by
  induction es with
  | nil => rfl
  | cons a es ih =>
    by_cases hqa : q a = true
    · rw [List.filter_cons_of_pos hqa, since, since]
      split
      · rfl
      · exact ih
    · rw [List.filter_cons_of_neg hqa, since, if_neg (mt (hq a) hqa), ih]

/-- Leaving out events that do not matter leaves the last one that was heard. -/
theorem lastHeard_filter (hp : ∀ a, p a = true → q a = true) :
    lastHeard p (es.filter q) hash = lastHeard p es hash := by
  rw [lastHeard, since_filter hq, filter_filter_of_imp hp, filter_filter_of_imp hp, lastHeard]

end Filter

/-- What a message has heard of events if it alone looks for them, by its dispatch: the last of each
mark, save that of the events of a root the pool keeps only those that are new. -/
def heardAlone (net : Network) (es : List Event) (e : Event) (d : Dispatch) : History := fun k =>
  let hears := (Journey.ofDispatch e d).hears net k
  if k.isOfRoot then lastHeard hears es d.messageHash else (es.filter hears).getLast?

/-- Nothing that leaves a mark on a message is left out with the events that are not for it. -/
theorem heardAlone_filter (net : Network) (es : List Event) (e : Event) (d : Dispatch) :
    heardAlone net (es.filter (isFor net e d)) e d = heardAlone net es e d := by
  funext k
  have hhears (a : Event) (ha : (Journey.ofDispatch e d).hears net k a = true) :
    isFor net e d a = true := isFor_of_hears ha
  rw [heardAlone, heardAlone, lastHeard_filter (fun _ => isFor_of_dispatchOf?) hhears,
    filter_filter_of_imp hhears]

/-- Among the events for a message no other one is dispatched. -/
theorem Unrivalled.filter (net : Network) (es : List Event) (e : Event) (d : Dispatch) :
    Unrivalled net (es.filter (isFor net e d)) e d := by
  have honly {hash : Digest} {e' : Event} {d' : Dispatch}
      (h : firstDispatch? hash (es.filter (isFor net e d)) = some (e', d')) :
      hash = d.messageHash := by
    obtain ⟨a, ha, hdispatch⟩ := List.exists_of_findSome?_eq_some h
    obtain ⟨rfl, hdata, rfl⟩ := dispatchOf?_eq_some.mp hdispatch
    have hfor := (List.mem_filter.mp ha).2
    rw [isFor, hdata] at hfor
    exact of_decide_eq_true hfor
  exact ⟨fun _ _ _ h _ _ _ => honly h, fun _ _ _ _ _ h _ _ _ _ _ _ => honly h⟩

end Tracker

/-! ### Messages that alone look for an event -/

namespace Ledger

open Tracker (firstFor? handings since lastHeard firstDispatch? dispatchOf? isFor Unrivalled
  heardAlone)

variable {net : Network} {es : List Event} {l : Lookup} {j : Journey} {hash : Digest}

/-- An event is handed to a message if one looks for it. -/
theorem isSome_firstFor?_iff (net : Network) (l : Lookup) (past : List Event) :
    (firstFor? net l past).isSome = true ↔
      ∃ i ∈ (empty.steps net past).journeys.values, (i.base net).lookup? l.mark = some l := by
  rw [firstFor?, Option.isSome_map, List.find?_isSome, ← starts_steps_empty net, starts,
    SortedMap.values_map]
  simp only [List.mem_map, exists_exists_and_eq_and, decide_eq_true_eq]
  rfl

/-- Once an event is handed to a message, later ones are. -/
theorem isSome_firstFor?_append {past : List Event} (h : (firstFor? net l past).isSome = true)
    (es : List Event) : (firstFor? net l (past ++ es)).isSome = true := by
  obtain ⟨i, hi, hlookup⟩ := (isSome_firstFor?_iff net l past).mp h
  obtain ⟨j, hj, hbase⟩ := exists_steps net ((mem_values_iff _).mp hi) es
  rw [← steps_append] at hj
  exact (isSome_firstFor?_iff net l _).mpr
    ⟨j, SortedMap.mem_values_iff.mpr ⟨_, hj⟩, by rw [hbase, hlookup]⟩

theorem isSome_of_handings {past : List Event} (h : (firstFor? net l past).isSome = true)
    {p : Option String × Event} (hp : p ∈ handings net l past es) : p.1.isSome = true := by
  induction es generalizing past with
  | nil => cases hp
  | cons e es ih =>
    have hnext := isSome_firstFor?_append h [e]
    rw [handings] at hp
    split at hp
    · rcases List.mem_cons.mp hp with rfl | hp
      · exact h
      · exact ih hnext hp
    · exact ih hnext hp

theorem pairwise_handings (net : Network) (l : Lookup) (past es : List Event) :
    (handings net l past es).Pairwise fun p q => p.1.isSome = true → q.1.isSome = true := by
  induction es generalizing past with
  | nil => exact .nil
  | cons e es ih =>
    rw [handings]
    split
    · refine List.pairwise_cons.mpr ⟨fun q hq h => ?_, ih _⟩
      exact isSome_of_handings (isSome_firstFor?_append h [e]) hq
    · exact ih _

/-- A mark that is left by events for one message is of the last of them, if no other message looks
for them. -/
theorem heard_of_alone {k : Mark} (hroot : k.isOfRoot = false)
    (hj : (empty.steps net es).journeys.find? j.key = some j)
    (halone : (j.base net).admits k = true → (empty.steps net es).IsAlone net j k) :
    j.heard k = (es.filter (j.hears net k)).getLast? := by
  cases hadmits : (j.base net).admits k with
  | false =>
    have hnil : es.filter (j.hears net k) = [] := by simp [Journey.hears, hadmits]
    rw [hnil, List.getLast?_nil, (sound_steps_empty net es).heard_eq_none hj hadmits]
  | true =>
    obtain ⟨l, hl⟩ : ∃ l, (j.base net).lookup? k = some l := by
      cases hl : (j.base net).lookup? k with
      | none => exact absurd (lookup?_eq_none hl) (by simp [hadmits])
      | some l => exact ⟨l, rfl⟩
    obtain rfl := mark_of_lookup? hl
    have hkeeps : l.keepsAll = false := l.keepsAll_eq_isOfRoot.trans hroot
    have honly : ∀ p ∈ handings net l [] es, ∀ key, p.1 = some key → key = j.key := by
      intro p hp key hkey
      obtain ⟨i, hi, rfl, hlookup⟩ := exists_of_handings net l [] es hp hkey
      rw [halone hadmits hi (hlookup.trans hl.symm)]
    have hhears : (fun e => decide (Lookup.ofEvent? e = some l)) = j.hears net l.mark := by
      funext e
      rw [Journey.hears, hadmits, heeds_of_not_isOfRoot hroot, Journey.answers, hl]
      simp [eq_comm]
    have hkept : j.heard l.mark = Handing.kept (handings net l [] es) j.key :=
      heard_of_single hkeeps hadmits hl hj
    rw [hkept, Handing.kept_of_late honly (pairwise_handings ..), Tracker.map_snd_handings, hhears]

/-- What a message without rivals has heard follows from its dispatch and the events. -/
theorem heard_of_unrivalled (h : Unrivalled net es j.start j.dispatch)
    (hj : (empty.steps net es).journeys.find? j.key = some j) :
    j.heard = heardAlone net es j.start j.dispatch := by
  funext k
  rw [heardAlone]
  split
  · next hroot => exact heard_of_root hroot hj
  · next hroot =>
    refine heard_of_alone (by simpa using hroot) hj fun hadmits => ?_
    cases k with
    | processed => exact isAlone_processed hj
    | received => exact isAlone_received h.received hj
    | sent =>
      obtain ⟨t, ht⟩ := Option.isSome_iff_exists.mp hadmits
      exact isAlone_sent ht h.sent hj
    | updated => exact absurd rfl hroot
    | relayed => exact absurd rfl hroot

/-- A message without rivals is the same after the events that are for it alone. -/
theorem find?_filter (h : Unrivalled net es j.start j.dispatch)
    (hj : (empty.steps net es).journeys.find? j.key = some j) :
    (empty.steps net (es.filter (isFor net j.start j.dispatch))).journeys.find? j.key =
      some j := by
  have hfirst : firstDispatch? j.dispatch.messageHash
      (es.filter (isFor net j.start j.dispatch)) = some (j.start, j.dispatch) := by
    rw [Tracker.firstDispatch?_filter fun _ => Tracker.isFor_of_dispatchOf?,
      ← find?_steps_empty net, ← Journey.key, hj]
    rfl
  obtain ⟨⟨start, dispatch, heard⟩, hi, rfl, rfl⟩ := exists_journey net hfirst
  have hheard : heard = j.heard := by
    rw [heard_of_unrivalled h hj, ← Tracker.heardAlone_filter]
    exact heard_of_unrivalled (j := ⟨j.start, j.dispatch, heard⟩) (Unrivalled.filter ..) hi
  rw [hheard] at hi
  exact hi

end Ledger

/-! ### The records of messages -/

namespace Tracker

variable {σ τ : Type}

/-- From empty stores that refuse nothing, the record of a message without rivals is the same after
any events as after those of them that are for the message. -/
theorem record_unaffected (v : Service σ) (w : Service τ) (net : Network)
    (batches batches' : List (List Event)) {s : σ} {t : τ} (hs : v.contents s = Memory.empty)
    (ht : w.contents t = Memory.empty) (hsteady : v.Steady s) (hsteady' : w.Steady t)
    {hash : Digest} {e : Event} {d : Dispatch}
    (hfirst : firstDispatch? hash batches.flatten = some (e, d))
    (hunrivalled : Unrivalled net batches.flatten e d)
    (hfor : batches'.flatten = batches.flatten.filter (isFor net e d)) :
    ∃ r, (v.contents (consumeAll v.backend v.fan net batches s).state).records.find? hash.text =
        some r ∧
      (w.contents (consumeAll w.backend w.fan net batches' t).state).records.find? hash.text =
        some r := by
  obtain ⟨j, hj, hr, rfl, rfl⟩ := exists_record v net batches hs hsteady hfirst
  obtain ⟨-, hdepicts, -⟩ := w.consumeAll_depicts (ht ▸ Ledger.depicts_empty net) hsteady' batches'
  have hkey : j.key = hash.text := Ledger.keyed _ hj
  rw [← hkey] at hj
  have hfiltered := Ledger.find?_filter hunrivalled hj
  rw [← hfor, hkey] at hfiltered
  exact ⟨_, hr, by rw [hdepicts.find?, hfiltered, Option.map_some]⟩

/-- Another transfer has the root of the transfer but neither its number nor its block. -/
theorem record_unaffected_sample :
    let v := Stores.inMemory.oneByOne
    let batches := [[Sample.relay, Sample.laterCompanion, Sample.send],
      [Sample.laterSend, Sample.dispatch, Sample.update]]
    let own := [[Sample.relay, Sample.send, Sample.dispatch], [Sample.update]]
    ∃ r, (v.contents (consumeAll v.backend v.fan Sample.network batches
        Memory.empty).state).records.find? (default : Digest).text = some r ∧
      (v.contents (consumeAll v.backend v.fan Sample.network own
        Memory.empty).state).records.find? (default : Digest).text = some r := by
  intro v batches own
  let d : Dispatch :=
    ⟨default, 0, packHalves 2 5, default, List.replicate 112 0 ++ 3 :: List.replicate 96 0⟩
  have hfirst : firstDispatch? default batches.flatten = some (Sample.dispatch, d) := rfl
  have hrivals {hash : Digest} {e : Event} {d : Dispatch}
      (h : firstDispatch? hash batches.flatten = some (e, d)) :
      hash = default ∨ e.block = 8 ∧ d.nonce = 6 := by
    obtain ⟨a, ha, hdispatch⟩ := List.exists_of_findSome?_eq_some h
    obtain ⟨rfl, hdata, rfl⟩ := dispatchOf?_eq_some.mp hdispatch
    simp only [batches, List.flatten_cons, List.flatten_nil, List.cons_append, List.nil_append,
      List.append_nil, List.mem_cons, List.not_mem_nil, or_false] at ha
    rcases ha with rfl | rfl | rfl | rfl | rfl | rfl
    · cases hdata
    · cases hdata
      exact .inr ⟨rfl, by decide⟩
    · cases hdata
    · cases hdata
    · cases hdata
      exact .inl rfl
    · cases hdata
  have hunrivalled : Unrivalled Sample.network batches.flatten Sample.dispatch d := by
    constructor
    · intro hash e d h _ hnonce _
      refine (hrivals h).resolve_right fun hother => ?_
      rw [hother.2] at hnonce
      revert hnonce
      decide
    · intro hash e d t t' h _ _ _ _ _ hblock
      refine (hrivals h).resolve_right fun hother => ?_
      rw [hother.1] at hblock
      revert hblock
      decide
  have hfor : own.flatten = batches.flatten.filter (isFor Sample.network Sample.dispatch d) := by
    decide +kernel
  exact record_unaffected v v Sample.network batches own (s := Memory.empty) (t := Memory.empty) rfl
    rfl trivial trivial hfirst hunrivalled hfor

end Tracker

end Waybill
