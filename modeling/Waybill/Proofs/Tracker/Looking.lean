import Waybill.Proofs.Message.Mark
import Waybill.Proofs.Pending.Access
import Waybill.Proofs.Task.Contract
import Waybill.Tracker.Handling
/-!
# Messages that catch up over any stores

A message that catches up only looks into the pool. If what it finds there are entries of events
as they were handed to the pool, then the work does not fail by itself, and a property of messages
that transitions keep is kept.

## Main definitions

* `Pending.IsEntry`: the value of an entry of the pool for which such events wait.
* `Tracker.looking`: the contract of looking into the pool.
* `Tracker.Lasting`: transitions keep a property of messages.

## Main results

* `Tracker.meets_catchUp`: a message that catches up keeps what transitions keep.
-/

namespace Waybill

open Waybill.Pending Waybill.Task Message

/-- A value is the entry of a lookup for which such events wait. -/
def Pending.IsEntry (H : Event → Prop) (bucket key value : String) : Prop :=
  ∃ l es, Lookup.place l = (bucket, key) ∧ l.entry? es = some value ∧
    ∀ e ∈ es, H e ∧ Lookup.ofEvent? e = some l

namespace Tracker

/-- Only the pool is looked into, and only entries of the events are found there. -/
def looking (H : Event → Prop) : Contract where
  Proper
    | .get _ _ => True
    | _ => False
  Sound
    | .get bucket key, value? => ∀ value, value? = some value → IsEntry H bucket key value
    | _, _ => True

variable {H : Event → Prop} {G : Message → Prop} {E : Failure → Prop}

/-! ### Looking into the pool -/

section Looking

variable {l : Lookup}

/-- The value of a lookup is an entry of events that wait for it. -/
theorem meets_get (l : Lookup) : (get l.slot).Meets (looking H) E fun value? =>
    ∀ value, value? = some value →
      ∃ es, l.entry? es = some value ∧ ∀ e ∈ es, H e ∧ Lookup.ofEvent? e = some l := by
  refine ⟨trivial, fun value? hsound value hvalue => ?_⟩
  obtain ⟨l', es, hplace, hentry, hes⟩ := hsound value hvalue
  have hl : l' = l := Lookup.place_injective hplace
  subst hl
  exact ⟨es, hentry, hes⟩

/-- The texts in the list of a lookup are those of events that wait for it. -/
theorem meets_listed (hl : l.keepsAll = true) :
    (listed l.slot).Meets (looking H) E fun values => ∃ es : List Event,
      values = es.map Event.render ∧ ∀ e ∈ es, H e ∧ Lookup.ofEvent? e = some l := by
  refine (meets_get l).bind fun value? hvalue => ?_
  cases value? with
  | none => exact ⟨[], rfl, by simp⟩
  | some value =>
    obtain ⟨es, hentry, hes⟩ := hvalue value rfl
    cases es with
    | nil => cases hentry
    | cons e es =>
      rw [entry?_cons, if_pos hl] at hentry
      obtain rfl := Option.some.inj hentry
      simp only [parseList?_renderList, readable]
      exact ⟨e :: es, rfl, hes⟩

/-- The events that are read for a lookup that keeps all wait for it. -/
theorem meets_events (hl : l.keepsAll = true) : (events l.slot).Meets (looking H) E fun es =>
    ∀ e ∈ es, H e ∧ Lookup.ofEvent? e = some l := by
  refine (meets_listed hl).bind fun values hvalues => ?_
  obtain ⟨es, rfl, hes⟩ := hvalues
  rw [parseAll?_map_render]
  exact hes

/-- The event that is read for a lookup that keeps the last one waits for it. -/
theorem meets_event? (hl : l.keepsAll = false) : (event? l.slot).Meets (looking H) E fun e? =>
    ∀ e, e? = some e → H e ∧ Lookup.ofEvent? e = some l := by
  refine (meets_get l).bind fun value? hvalue => ?_
  cases value? with
  | none => exact nofun
  | some value =>
    obtain ⟨es, hentry, hes⟩ := hvalue value rfl
    cases es with
    | nil => cases hentry
    | cons e es =>
      rw [entry?_cons, hl, if_neg (by decide)] at hentry
      obtain rfl := Option.some.inj hentry
      simp only [Event.parse?_render, readable]
      rintro _ ⟨⟩
      exact hes e List.mem_cons_self

end Looking

/-! ### Messages that catch up -/

/-- Transitions keep a property of messages. -/
def Lasting (H : Event → Prop) (G : Message → Prop) : Prop :=
  ∀ ⦃m k e⦄, G m → H e → e.mark? = some k → G (m.take k e).1

section CatchUp

variable {C : Contract} {m : Message}

theorem meets_announce (target : State) (e : Event) {step : Message × Bool} (h : G step.1) :
    (announce target e step).Meets C E G := by
  rw [announce]
  split <;> exact h

variable (hlasting : Lasting H G)
include hlasting

theorem meets_applyAll {l : Lookup} (target : State) {step : Message → Event → Message × Bool}
    (hstep : ∀ m e, step m e = m.take l.mark e) {es : List Event}
    (hes : ∀ e ∈ es, H e ∧ Lookup.ofEvent? e = some l) (hm : G m) :
    (applyAll target step es m).Meets C E G := by
  induction es generalizing m with
  | nil => exact hm
  | cons e es ih =>
    obtain ⟨he, hl⟩ := hes e List.mem_cons_self
    have hnext := hlasting hm he (Lookup.mark_of_ofEvent? hl)
    rw [← hstep] at hnext
    exact (meets_announce target e hnext).bind fun m' hm' =>
      ih (fun d hd => hes d (List.mem_cons_of_mem e hd)) hm'

/-- Of a lookup for which at most one event waits, that one is taken. -/
theorem meets_single {l : Lookup} (hl : l.keepsAll = false) (hm : G m)
    {f : Option Event → Task Message} (hnone : f none = .done m)
    (hsome : ∀ e, Lookup.ofEvent? e = some l → G (m.take l.mark e).1 →
      (f (some e)).Meets (looking H) E G) :
    ((event? l.slot).bind f).Meets (looking H) E G := by
  refine (meets_event? hl).bind fun e? he => ?_
  cases e? with
  | none =>
    rw [hnone]
    exact hm
  | some e =>
    obtain ⟨hwaits, hfit⟩ := he e rfl
    exact hsome e hfit (hlasting hm hwaits (Lookup.mark_of_ofEvent? hfit))

theorem meets_catchUpSend (hm : G m) : (catchUpSend m).Meets (looking H) E G := by
  rw [catchUpSend]
  split
  · exact hm
  · next t ht =>
    have htransfer : m.isTransfer = true := by simp [isTransfer, ht]
    split
    · exact hm
    · refine meets_single hlasting (l := .send m.identity.destination t.recipient t.amount
        m.identity.dispatchBlock) rfl hm rfl fun e hfit hnext => ?_
      cases hdata : e.data with
      | bridgeSend s =>
        simp only [hdata, attachSend?_eq htransfer hdata]
        exact hnext
      | _ =>
        rw [Lookup.ofEvent?, hdata] at hfit
        cases hfit

theorem meets_catchUpUpdate (hm : G m) : (catchUpUpdate m).Meets (looking H) E G := by
  rw [catchUpUpdate]
  split
  · exact hm
  · exact (meets_events (l := .update m.identity.origin m.identity.root) rfl).bind fun es hes =>
      meets_applyAll hlasting .updated (fun _ _ => rfl) hes hm

theorem meets_catchUpRelay (hm : G m) : (catchUpRelay m).Meets (looking H) E G := by
  rw [catchUpRelay]
  split
  · exact hm
  · exact (meets_events (l := .relay m.identity.origin m.identity.root) rfl).bind fun es hes =>
      meets_applyAll hlasting .relayed (fun _ _ => rfl) hes hm

theorem meets_catchUpReceive (hm : G m) : (catchUpReceive m).Meets (looking H) E G := by
  rw [catchUpReceive]
  split
  · exact hm
  · exact meets_single hlasting (l := .receive m.identity.origin m.identity.nonce
      m.identity.destination) rfl hm rfl fun e _ hnext => meets_announce .received e hnext

theorem meets_catchUpProcess (hm : G m) : (catchUpProcess m).Meets (looking H) E G := by
  rw [catchUpProcess]
  split
  · exact hm
  · exact meets_single hlasting (l := .process m.identity.hash) rfl hm rfl fun e _ hnext =>
      meets_announce .processed e hnext

/-- A message that catches up keeps what transitions keep. -/
theorem meets_catchUp (hm : G m) : (catchUp m).Meets (looking H) E G :=
  (meets_catchUpSend hlasting hm).bind fun _ hm => (meets_catchUpUpdate hlasting hm).bind
    fun _ hm => (meets_catchUpRelay hlasting hm).bind fun _ hm =>
      (meets_catchUpReceive hlasting hm).bind fun _ hm => meets_catchUpProcess hlasting hm

end CatchUp

end Tracker

end Waybill
