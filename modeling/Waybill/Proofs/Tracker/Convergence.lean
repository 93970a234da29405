import Waybill.Proofs.Ledger.Consistency
import Waybill.Proofs.Tracker.Runs
/-!
# Consistent events lead to the same records

If no two events compete, the records that are left after all of them do not depend on their
order, on how often each came, on the batches they came in, or on the stores and the interleavings
under which they were worked on.

## Main results

* `Tracker.records_converge`: runs over the same consistent events end with the same records.
-/

namespace Waybill

variable {σ τ : Type}

namespace Ledger

variable {net : Network} {es : List Event}

/-- Over the events that it took the steps of, a ledger is sound, and all are accounted for. -/
theorem settled (net : Network) {fs : List Event} (hfs : ∀ e, e ∈ fs ↔ e ∈ es) :
    (empty.steps net fs).Sound net es ∧ ∀ e ∈ es, (empty.steps net fs).Covered net e :=
  ⟨(sound_empty net es).steps fun e he => (hfs e).mp he,
    fun e he => empty.covered_steps net ((hfs e).mpr he)⟩

end Ledger

namespace Tracker

/-- Runs from empty stores over the same consistent events, each as often and in such an order and
such batches as it may be, succeed and end with the same records. -/
theorem records_converge (v : Service σ) (w : Service τ) {net : Network} {es : List Event}
    (hes : Consistent net es) {one other : List (List Event)}
    (hone : ∀ e, e ∈ one.flatten ↔ e ∈ es) (hother : ∀ e, e ∈ other.flatten ↔ e ∈ es) {s : σ} {t : τ}
    (hs : v.contents s = Memory.empty) (ht : w.contents t = Memory.empty) (hsteady : v.Steady s)
    (hsteady' : w.Steady t) :
    (consumeAll v.backend v.fan net one s).result = .ok () ∧
      (consumeAll w.backend w.fan net other t).result = .ok () ∧
      (v.contents (consumeAll v.backend v.fan net one s).state).records =
        (w.contents (consumeAll w.backend w.fan net other t).state).records := by
  obtain ⟨hok, hdepicts, -⟩ := v.consumeAll_depicts (hs ▸ Ledger.depicts_empty net) hsteady one
  obtain ⟨hok', hdepicts', -⟩ := w.consumeAll_depicts (ht ▸ Ledger.depicts_empty net) hsteady' other
  obtain ⟨hsound, hall⟩ := Ledger.settled net hone
  obtain ⟨hsound', hall'⟩ := Ledger.settled net hother
  refine ⟨hok, hok', ?_⟩
  rw [hdepicts.records, hdepicts'.records, hes.journeys_eq hsound hsound' hall hall']

theorem consistent_sample : Consistent Sample.network Sample.events := by
  have hdispatch : ∀ a ∈ Sample.events, ∀ d, a.data = .dispatch d → a = Sample.dispatch := by
    intro a ha d hd
    simp only [Sample.events, List.mem_cons, List.not_mem_nil, or_false] at ha
    rcases ha with rfl | rfl | rfl | rfl | rfl | rfl <;> first | rfl | cases hd
  refine ⟨fun a ha b hb h => ?_, fun a ha b hb d d' hd hd' _ _ _ => ?_,
    fun a ha b hb d d' _ _ hd hd' _ _ _ _ _ _ => ?_⟩
  · simp only [Sample.events, List.mem_cons, List.not_mem_nil, or_false] at ha hb
    rcases ha with rfl | rfl | rfl | rfl | rfl | rfl <;>
      rcases hb with rfl | rfl | rfl | rfl | rfl | rfl <;> first | rfl | cases h
  · rw [hdispatch a ha d hd, hdispatch b hb d' hd']
  · rw [hdispatch a ha d hd, hdispatch b hb d' hd']

/-- The events of a transfer in their order with branches one after another, and in another order
and with a redelivery with branches in turns. -/
theorem records_converge_sample :
    let v := Stores.inMemory.oneByOne
    let w := Stores.inTurns 3
    let one := [Sample.events]
    let other := [[Sample.process, Sample.relay, Sample.send], [Sample.dispatch, Sample.update],
      [Sample.receive, Sample.relay]]
    (∀ e, e ∈ other.flatten ↔ e ∈ Sample.events) ∧
      (v.contents (consumeAll v.backend v.fan Sample.network one Memory.empty).state).records =
        (w.contents (consumeAll w.backend w.fan Sample.network other
          (Guarded.ofInner Memory.empty)).state).records := by
  intro v w one other
  have hone : ∀ e, e ∈ one.flatten ↔ e ∈ Sample.events := fun e => by simp [one]
  have hother : ∀ e, e ∈ other.flatten ↔ e ∈ Sample.events := by
    intro e
    simp only [other, Sample.events, List.flatten_cons, List.flatten_nil, List.mem_append,
      List.mem_cons, List.not_mem_nil, or_false]
    grind
  exact ⟨hother, (records_converge v w consistent_sample hone hother (s := Memory.empty)
    (t := Guarded.ofInner Memory.empty) rfl rfl trivial rfl).2.2⟩

end Tracker

end Waybill
