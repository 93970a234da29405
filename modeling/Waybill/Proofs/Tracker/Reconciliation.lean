import Waybill.Proofs.Ledger.Reached
import Waybill.Proofs.Tracker.History
/-!
# Nothing is left to catch up with

Whatever events were consumed, the pool never holds one that a stored message still has to take.
A message that is taken up from its record at any time between two events and that catches up with
the pool of that time comes out as it was, and nothing is told about it.

## Main definitions

* `Message.Expects`: an event leaves a mark on a message when the message comes to take it.
* `Pending.Holds`: an event is found in a pool.

## Main results

* `Message.caughtUp_of_settled`: a message for which nothing waits catches up with nothing.
* `Tracker.catchUp_changes_nothing`: a stored message that catches up again stays as it is.
-/

namespace Waybill

open Waybill.Pending Message

namespace Message

variable {s : Stock} {k : Mark} {m : Message} {es : List Event}

/-- An event is one that a message looks for, and leaves a mark on it when it takes the event. -/
structure Expects (m : Message) (k : Mark) (e : Event) : Prop where
  admits : m.admits k = true
  lookup : m.lookup? k = Lookup.ofEvent? e
  heeds : m.heeds k e = true

/-! ### Catching up with nothing -/

theorem takeAll_of_unheeded (hes : ∀ e ∈ es, m.heeds k e = false) : takeAll k es m = (m, []) := by
  induction es with
  | nil => rfl
  | cons e es ih =>
    have htake : m.take k e = (m, false) := by
      rw [take_eq, hes e List.mem_cons_self, if_neg (by decide)]
    rw [takeAll, htake, ih fun d hd => hes d (List.mem_cons_of_mem _ hd)]
    rfl

theorem catchOn_of_settled (h : m.seen.has k = true ∨ m.pending? s k = none) :
    catchOn s k m = (m, []) := by
  rw [catchOn]
  split
  · rfl
  · next hskip =>
    simp only [Bool.or_eq_true, Bool.not_eq_true', not_or, Bool.not_eq_false] at hskip
    have hnone := h.resolve_left hskip.1
    rw [pending?, if_pos hskip.2, List.getLast?_eq_none_iff, List.filter_eq_nil_iff] at hnone
    exact takeAll_of_unheeded fun e he => Bool.not_eq_true _ ▸ hnone e he

theorem catchAll_of_settled (ks : List Mark)
    (h : ∀ k, m.seen.has k = true ∨ m.pending? s k = none) : catchAll s ks m = (m, []) := by
  induction ks with
  | nil => rfl
  | cons k ks ih => rw [catchAll, catchOn_of_settled (h k), ih, List.append_nil]

/-- A message that has every mark for which an event waits catches up with nothing. -/
theorem caughtUp_of_settled (h : ∀ k, m.seen.has k = true ∨ m.pending? s k = none) :
    m.caughtUp s = (m, []) :=
  catchAll_of_settled Mark.all h

end Message

namespace Journey

variable {net : Network} {j : Journey} {s : Stock}

/-- The message of a journey expects the events that concern the journey. -/
theorem expects_message_iff {k : Mark} {e : Event} :
    (j.message net).Expects k e ↔ j.Concerns net k e :=
  ⟨fun h => ⟨(admits_after _ j.heard k).symm.trans h.admits,
      (lookup?_after _ j.heard k).symm.trans h.lookup, h.heeds⟩,
    fun h => ⟨(admits_after _ j.heard k).trans h.admits,
      (lookup?_after _ j.heard k).trans h.lookup, h.heeds⟩⟩

theorem Settled.message (h : j.Settled net s) (k : Mark) :
    (j.message net).seen.has k = true ∨ (j.message net).pending? s k = none := by
  have hpending : (j.message net).pending? s k = (j.base net).pending? s k := by
    rw [pending?, pending?, Journey.message, admits_after, lookup?_after]
    rfl
  rw [hpending, Journey.message, seen_after, History.has_seen]
  exact h k

end Journey

namespace Pending

/-- An event is found in a pool: under the lookup that it answers, its text stands by itself or in
a list. -/
def Holds (pool : SortedMap (String × String) String) (e : Event) : Prop :=
  ∃ l, Lookup.ofEvent? e = some l ∧ ∃ raw, pool.find? l.place = some raw ∧
    if l.keepsAll then ∃ texts, parseList? raw = some texts ∧ e.render ∈ texts
    else raw = e.render

/-- The events that are found in a pool are those that wait in it. -/
theorem Stock.ShownBy.holds_iff {s : Stock} {pool : SortedMap (String × String) String}
    (h : s.ShownBy pool) {e : Event} :
    Holds pool e ↔ ∃ l, Lookup.ofEvent? e = some l ∧ e ∈ s.held l := by
  refine exists_congr fun l => and_congr_right fun _ => ?_
  rw [h.entry l]
  cases hs : s.held l with
  | nil => simp [Lookup.entry?]
  | cons d ds =>
    simp only [entry?_cons, Option.some.injEq, exists_eq_left']
    by_cases hl : l.keepsAll = true
    · have hmem := contains_map_render (d :: ds) e
      rw [Bool.eq_iff_iff, List.contains_iff_mem, decide_eq_true_iff] at hmem
      rw [if_pos hl, if_pos hl]
      simp only [parseList?_renderList, Option.some.injEq, exists_eq_left', hmem]
    · have hsingle := s.single (l := l) (by simpa using hl)
      rw [hs, List.length_cons] at hsingle
      have hnil : ds = [] := List.eq_nil_of_length_eq_zero (by omega)
      rw [if_neg hl, if_neg hl, hnil, List.mem_singleton]
      exact ⟨fun h => (Event.render_injective h).symm, fun h => congrArg Event.render h.symm⟩

end Pending

namespace Tracker

variable {σ : Type}

/-- Whatever was consumed from empty stores that refuse nothing, every stored record is that of a
message which catches up with the pool without a change and without a signal, and which has the
mark of every event in the pool that it expects. -/
theorem catchUp_changes_nothing (v : Service σ) (net : Network) (batches : List (List Event))
    {s : σ} (hempty : v.contents s = Memory.empty) (hsteady : v.Steady s) {key : String}
    {r : Record} :
    let stored := (consumeAll v.backend v.fan net batches s).state
    (v.contents stored).records.find? key = some r →
    ∃ m, Message.ofRecord net r = .ok m ∧ Record.ofMessage net m = r ∧
      ((catchUp m).run v.backend stored).result = .ok m ∧
      ((catchUp m).run v.backend stored).signals = [] ∧
      v.contents ((catchUp m).run v.backend stored).state = v.contents stored ∧
      ∀ k e, m.Expects k e → Pending.Holds (v.contents stored).pool e → m.seen.has k = true := by
  intro stored hr
  obtain ⟨-, hdepicts, hstill⟩ :=
    v.consumeAll_depicts (hempty ▸ Ledger.depicts_empty net) hsteady batches
  rw [hdepicts.find?, Option.map_eq_some_iff] at hr
  obtain ⟨j, hj, rfl⟩ := hr
  have hsettled := Ledger.settled_steps_empty hj
  have hcourse := (leads_catchUp hdepicts.pool (j.message net)).reads
  rw [caughtUp_of_settled hsettled.message] at hcourse
  obtain ⟨hresult, hstate, hsignals⟩ :=
    (v.run_of_writesLast hcourse rfl).resolve_right fun h => h.1 hstill
  refine ⟨j.message net, (j.isUnpacked_message net).ofRecord_ofMessage, rfl, hresult, hsignals,
    hstate, fun k e he hheld => ?_⟩
  have hconcerns := Journey.expects_message_iff.mp he
  obtain ⟨l, hl, hmem⟩ := hdepicts.pool.holds_iff.mp hheld
  have hpending := Journey.isSome_pending? hconcerns.admits (hconcerns.lookup.trans hl) hmem
    hconcerns.heeds
  rw [Journey.message, seen_after, History.has_seen]
  exact (hsettled k).resolve_right fun hnone => by simp [hnone] at hpending

/-- A transfer that was relayed to its destination and, before it was dispatched, to another
replica. -/
theorem catchUp_changes_nothing_sample :
    let v := Stores.inMemory.oneByOne
    let elsewhere := Sample.report 3 115 Sample.relay.data
    let batches := [[elsewhere, Sample.send], [Sample.dispatch, Sample.relay]]
    let stored := (consumeAll v.backend v.fan Sample.network batches Memory.empty).state
    ∃ r m, (v.contents stored).records.find? (default : Digest).text = some r ∧
      Message.ofRecord Sample.network r = .ok m ∧
      ((catchUp m).run v.backend stored).result = .ok m ∧
      ((catchUp m).run v.backend stored).signals = [] ∧ m.Expects .relayed Sample.relay ∧
      ¬ m.Expects .relayed elsewhere := by
  intro v elsewhere batches stored
  have hfirst : firstDispatch? default batches.flatten = some (Sample.dispatch, _) := rfl
  obtain ⟨j, -, hr, hstart, hdispatch⟩ :=
    exists_record v Sample.network batches (s := Memory.empty) rfl trivial hfirst
  obtain ⟨m, hm, -, hresult, hsignals, -, -⟩ :=
    catchUp_changes_nothing v Sample.network batches (s := Memory.empty) rfl trivial hr
  obtain rfl : j.message Sample.network = m :=
    Except.ok.inj ((j.isUnpacked_message Sample.network).ofRecord_ofMessage.symm.trans hm)
  refine ⟨_, _, hr, hm, hresult, hsignals, ?_, ?_⟩
  · rw [Journey.expects_message_iff, Journey.concerns_relayed_iff, hstart, hdispatch]
    exact ⟨_, rfl, rfl, rfl, rfl⟩
  · rw [Journey.expects_message_iff, Journey.concerns_relayed_iff, hstart, hdispatch]
    rintro ⟨-, -, -, -, hdestination⟩
    cases hdestination

end Tracker

end Waybill
