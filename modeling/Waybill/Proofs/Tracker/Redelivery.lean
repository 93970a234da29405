import Waybill.Proofs.Ledger.Repetition
import Waybill.Proofs.Tracker.Shape
import Waybill.Proofs.Tracker.Telling
import Waybill.Tracker.Basic
/-!
# Events that are delivered again

An event that was consumed and is delivered again at once is consumed again, and nothing comes of
it: what is stored stays as it is, no message moves on, no observer is told of anything, and the
known domains are those that were known. This holds whatever was stored before, also after calls
that were broken off.

## Main definitions

* `Signal.Quiet`: a signal tells of no message, and of no domain but that of a dispatch.

## Main results

* `Ledger.quiet_opening`, `Ledger.spreadSignals_eq_nil`: what is told where the step of an event
  leads nowhere.
* `Tracker.Service.perform_again`: the work on an event whose step leads nowhere.
* `Tracker.redelivery_changes_nothing`: an event that is delivered again.
-/

namespace Waybill

open Waybill.Pending Message

/-! ### Nothing is told -/

/-- Nothing is told on a climb that ends where it starts. -/
theorem Climb.eq_nil {net : Network} {hash : Digest} {s : Standing} {ns : List Notice}
    (h : Climb net hash (some s) ns (some s)) : ns = [] := by
  refine List.eq_nil_iff_forall_not_mem.mpr fun n hn => ?_
  exact Nat.not_le_of_lt (h.rank_lt hn) (cameTo_some.mp (h.cameTo hn))

theorem Message.Rises.eq_nil {net : Network} {m : Message} {xs : List Signal}
    (h : Rises net m xs m) : xs = [] := by
  obtain ⟨-, -, ns, rfl, hclimb⟩ := h
  rw [hclimb.eq_nil, List.flatMap_nil]

/-- Nothing is told of a message that an event leaves where it is. -/
theorem Journey.told_eq_nil {net : Network} {j : Journey} {k : Mark} {e : Event} {s : Stock}
    (hadmits : (j.base net).admits k = true) (hans : j.answers net k e = true)
    (h : j.goOn net k e s = j) : j.told net k e s = [] := by
  have hrises := Journey.rises_told hadmits hans s
  rw [h] at hrises
  exact hrises.eq_nil

/-- A signal about an event tells of no message, and of the domain of the event only if that is a
dispatch. -/
def Signal.Quiet (e : Event) : Signal → Prop
  | consumed _ | buffered _ => True
  | sighted domain => domain = e.domain ∧ ∃ d, e.data = .dispatch d
  | moved _ | noted _ => False

namespace Signal

variable {e : Event} {xs : List Signal}

theorem quiet_storeSignals : ∀ x ∈ storeSignals e, x.Quiet e := by
  intro x hx
  rw [storeSignals] at hx
  split at hx
  · rw [List.mem_singleton.mp hx]
    trivial
  · cases hx

theorem notices_of_quiet (h : ∀ x ∈ xs, x.Quiet e) : notices xs = [] := by
  rw [notices, List.filterMap_eq_nil_iff]
  intro x hx
  cases x with
  | noted n => exact (h _ hx).elim
  | _ => rfl

theorem countMoved_of_quiet (h : ∀ x ∈ xs, x.Quiet e) (t : State) : countMoved t xs = 0 := by
  rw [countMoved, List.countP_eq_zero]
  intro x hx
  cases x with
  | moved s => exact (h _ hx).elim
  | _ => exact Bool.false_ne_true

end Signal

/-! ### Steps that lead nowhere -/

namespace Ledger

variable {net : Network} {L : Ledger} {e : Event} {k : Mark}

theorem contains_of_step_eq (hstep : L.step net e = L) {d : Dispatch} (hd : e.data = .dispatch d) :
    L.journeys.contains d.messageHash.text = true := by
  have hknows := L.knows_steps net [e]
  rw [steps, List.foldl_cons, List.foldl_nil, hstep] at hknows
  exact hknows e List.mem_cons_self d hd

/-- What is told of an event that reaches one message, where its step leads nowhere. -/
theorem quiet_deliver (hstep : L.deliver net k e = L) :
    ∀ x ∈ L.deliverSignals net k e, x.Quiet e := by
  rw [deliverSignals]
  cases hj : L.addressee? net k e with
  | none => exact Signal.quiet_storeSignals
  | some j =>
    obtain ⟨hfind, hans⟩ := addressee?_eq_some net hj
    simp only
    split
    · next hadmits =>
      have hput : L.put (j.goOn net k e L.stock) = L := by
        rwa [deliver_of_some net hj, if_pos hadmits] at hstep
      have hstays := L.find?_put (j.goOn net k e L.stock) j.key
      rw [hput, if_pos (j.key_goOn net k e _).symm, hfind] at hstays
      rw [Journey.told_eq_nil hadmits hans (Option.some.inj hstays).symm]
      exact List.forall_mem_nil _
    · exact List.forall_mem_nil _

/-- Where the step of an event leads nowhere, no message is told of up to its branches. -/
theorem quiet_opening (hstep : L.step net e = L) : ∀ x ∈ L.openingSignals net e, x.Quiet e := by
  rw [openingSignals]
  have hdeliver {k : Mark} (hmark : e.mark? = some k) (hroot : k.isOfRoot = false) :
      ∀ x ∈ L.deliverSignals net k e, x.Quiet e := by
    rw [step_of_mark net L hmark, hroot, if_neg Bool.false_ne_true] at hstep
    exact quiet_deliver hstep
  cases hdata : e.data with
  | dispatch d =>
    simp only [beginSignals, if_pos (contains_of_step_eq hstep hdata), List.mem_singleton]
    rintro _ rfl
    exact ⟨rfl, d, hdata⟩
  | homeUpdate u => exact Signal.quiet_storeSignals
  | replicaUpdate u => exact Signal.quiet_storeSignals
  | process p => exact hdeliver (by rw [Event.mark?, hdata]) rfl
  | bridgeSend s => exact hdeliver (by rw [Event.mark?, hdata]) rfl
  | bridgeReceive r => exact hdeliver (by rw [Event.mark?, hdata]) rfl

/-- Nor is any in the branches. -/
theorem spreadSignals_eq_nil (hstep : L.step net e = L) (hmark : e.mark? = some k)
    (hroot : k.isOfRoot = true) {xs : List Signal} (hxs : xs ∈ L.spreadSignals net k e) :
    xs = [] := by
  obtain ⟨j, hj, rfl⟩ := List.mem_map.mp hxs
  obtain ⟨hmem, hans⟩ := List.mem_filter.mp hj
  have hfind := (L.mem_values_iff).mp hmem
  have hstays : (L.step net e).journeys.find? j.key =
      some (j.goOn net k e (L.stock.keep e)) := by
    rw [step_of_mark net L hmark, if_pos hroot, find?_spread, hfind, Option.map_some, if_pos hans]
  rw [hstep, hfind] at hstays
  exact Journey.told_eq_nil (admits_of_isOfRoot hroot _) hans (Option.some.inj hstays).symm

end Ledger

/-! ### What a tracker knows -/

namespace Tracker

variable {σ : Type} {t : Tracker} {domain : UInt32}

theorem contains_hear (h : t.known.contains domain = true) (x : Signal) :
    (t.hear x).known.contains domain = true := by
  cases x with
  | sighted id =>
    rw [hear, SortedMap.contains, SortedMap.find?_insert]
    split
    · rfl
    · exact h
  | _ => exact h

/-- A domain that was told of is known. -/
theorem contains_hearAll {xs : List Signal}
    (h : t.known.contains domain = true ∨ .sighted domain ∈ xs) :
    (t.hearAll xs).known.contains domain = true := by
  induction xs generalizing t with
  | nil => exact h.resolve_right (by simp)
  | cons x xs ih =>
    refine ih ?_
    rcases h with h | h
    · exact .inl (contains_hear h x)
    · rcases List.mem_cons.mp h with rfl | h
      · refine .inl ?_
        rw [hear, SortedMap.contains, SortedMap.find?_insert_self]
        rfl
      · exact .inr h

/-- A tracker that knows a domain learns nothing when it is told of it. -/
theorem hear_of_contains (h : t.known.contains domain = true) : t.hear (.sighted domain) = t := by
  obtain ⟨network, settings, known⟩ := t
  have hsame : known.insert domain () = known := by
    refine SortedMap.ext_find? fun id => ?_
    rw [SortedMap.find?_insert]
    split
    · next hid =>
      obtain ⟨u, hu⟩ := Option.isSome_iff_exists.mp h
      rw [hid, hu]
    · rfl
  rw [hear, hsame]

/-- A tracker learns nothing from what is told of an event that is no dispatch, or the dispatch of a
domain that it knows. -/
theorem hearAll_of_quiet {e : Event} {xs : List Signal} (hxs : ∀ x ∈ xs, x.Quiet e)
    (h : ∀ d, e.data = .dispatch d → t.known.contains e.domain = true) : t.hearAll xs = t := by
  induction xs with
  | nil => rfl
  | cons x xs ih =>
    have hx : t.hear x = t := by
      cases x with
      | sighted domain =>
        obtain ⟨rfl, d, hd⟩ := hxs _ List.mem_cons_self
        exact hear_of_contains (h d hd)
      | _ => rfl
    rw [hearAll, List.foldl_cons, hx]
    exact ih fun y hy => hxs y (List.mem_cons_of_mem x hy)

/-! ### The work that is done again -/

variable {net : Network} {L : Ledger} {m : Memory} {e : Event}

/-- The domain of a dispatch is told of when the work on it is done. -/
theorem Course.sighted_mem {faulty : Prop} {o : Outcome Memory Failure Unit}
    (h : Course faulty net L m e o) (hok : o.result = .ok ()) {d : Dispatch}
    (hd : e.data = .dispatch d) : .sighted e.domain ∈ o.signals := by
  cases h with
  | single => simp [Ledger.openingSignals, hd, Ledger.beginSignals]
  | refused => cases hok
  | spread hmark =>
    rw [(Event.mark?_eq_none_iff e).mpr ⟨d, hd⟩] at hmark
    cases hmark

/-- On no course a message is told of where the step of the event leads nowhere. -/
theorem Course.quiet {faulty : Prop} {o : Outcome Memory Failure Unit}
    (h : Course faulty net L m e o) (hstep : L.step net e = L) : ∀ x ∈ o.signals, x.Quiet e := by
  have hopening : ∀ x ∈ .consumed e.kind :: L.openingSignals net e, x.Quiet e :=
    List.forall_mem_cons.mpr ⟨trivial, Ledger.quiet_opening hstep⟩
  cases h with
  | single => exact hopening
  | refused _ hxs => exact fun x hx => hopening x (hxs.subset hx)
  | spread hmark hroot _ _ _ hsignals hwoven =>
    intro x hx
    rw [hsignals] at hx
    rcases List.mem_append.mp hx with hx | hx
    · exact hopening x hx
    · obtain ⟨xs, hxs, hmem⟩ := hwoven.exists_mem hx
      rw [Ledger.spreadSignals_eq_nil hstep hmark hroot hxs] at hmem
      cases hmem

/-- The work on an event whose step leads nowhere: everything stays as it is, no message is told
of, and the work ends well unless a call is refused. -/
theorem Service.perform_again (v : Service σ) {s : σ} (hs : L.Depicts net (v.contents s))
    (hstep : L.step net e = L) :
    let o := perform v.backend v.fan net e s
    (v.Steady s → o.result = .ok ()) ∧ v.contents o.state = v.contents s ∧
      ∀ x ∈ o.signals, x.Quiet e := by
  intro o
  refine ⟨fun hsteady => ?_, ?_, (v.perform_course hs e).quiet hstep⟩
  · exact ((v.perform_cases hs e).resolve_right fun h => h.1 hsteady).1
  · rcases v.perform_cases hs e with ⟨-, hm⟩ | ⟨-, -, L', hpart, hm⟩
    · exact (hstep ▸ hm).unique hs
    · exact (hpart.eq_of_step_eq hstep ▸ hm).unique hs

/-- Consuming an event is the work on it. -/
theorem consume_singleton (b : Backend σ) (fan : FanOut σ) (net : Network) (e : Event) (s : σ) :
    (consume b fan net [e] s).state = (perform b fan net e s).state ∧
      (consume b fan net [e] s).signals = (perform b fan net e s).signals ∧
      ((consume b fan net [e] s).result = .ok () ↔ (perform b fan net e s).result = .ok ()) := by
  cases h : (perform b fan net e s).result with
  | ok _ =>
    rw [consume_cons_of_ok h]
    exact ⟨rfl, List.append_nil _, by simp [consume, Outcome.after]⟩
  | error f =>
    rw [consume_cons_of_error h]
    exact ⟨rfl, rfl, by simp⟩

/-- An event that was consumed and is delivered again at once changes nothing, whatever was stored
before: it is consumed again, unless a call is refused then, what is stored stays as it is, the
tracker learns of no domain, observers are told of nothing, and no message moves on. -/
theorem redelivery_changes_nothing (v : Service σ) (net : Network) (t : Tracker) {s : σ}
    (h : Attained net (v.contents s)) (e : Event) :
    let first := consume v.backend v.fan net [e] s
    let again := consume v.backend v.fan net [e] first.state
    first.result = .ok () →
      (v.Steady first.state → again.result = .ok ()) ∧
        v.contents again.state = v.contents first.state ∧
        (t.hearAll first.signals).hearAll again.signals = t.hearAll first.signals ∧
        Signal.notices again.signals = [] ∧
        ∀ state, Signal.countMoved state again.signals = 0 := by
  intro first again hfirst
  obtain ⟨L, -, hs, -⟩ := h.ledger
  obtain ⟨hstate, hsignals, hresult⟩ := consume_singleton v.backend v.fan net e s
  obtain ⟨hstate', hsignals', hresult'⟩ := consume_singleton v.backend v.fan net e first.state
  have hok := hresult.mp hfirst
  have hdone : (L.step net e).Depicts net (v.contents first.state) := by
    rcases v.perform_cases hs e with ⟨-, hm⟩ | ⟨-, ⟨f, hf⟩, -⟩
    · rwa [← hstate] at hm
    · rw [hok] at hf
      cases hf
  obtain ⟨hagain, hcontents, hquiet⟩ := v.perform_again hdone (L.step_step net e)
  rw [← hsignals'] at hquiet
  rw [← hstate'] at hcontents
  refine ⟨fun hsteady => hresult'.mpr (hagain hsteady), hcontents,
    hearAll_of_quiet hquiet fun d hd => contains_hearAll (.inr ?_),
    Signal.notices_of_quiet hquiet, Signal.countMoved_of_quiet hquiet⟩
  exact hsignals ▸ (v.perform_course hs e).sighted_mem hok hd

/-- A dispatch is broken off when an update waits already. Then it is consumed, and delivered
again. -/
theorem redelivery_changes_nothing_dispatch :
    let v := Stores.faltering.oneByOne
    let kept := v.contents
      (consume v.backend v.fan Sample.network [Sample.update] (Memory.empty, none)).state
    let broken := consume v.backend v.fan Sample.network [Sample.dispatch] (kept, some 0)
    let first := consume v.backend v.fan Sample.network [Sample.dispatch] broken.state
    let again := consume v.backend v.fan Sample.network [Sample.dispatch] first.state
    (∃ f, broken.result = .error f) ∧ first.result = .ok () ∧ again.result = .ok () ∧
      v.contents again.state = v.contents first.state ∧ Signal.notices again.signals = [] := by
  intro v kept broken
  have hkept : Attained Sample.network kept := .consumed v (s := (Memory.empty, none)) .empty _
  have hbroken : Attained Sample.network (v.contents broken.state) :=
    .consumed v (s := (kept, some 0)) hkept _
  have hsteady : v.Steady broken.state := (rfl : broken.state.2 = none)
  obtain ⟨L, -, hm, -⟩ := hbroken.ledger
  have hfirst := (v.consume_depicts hm hsteady [Sample.dispatch]).1
  obtain ⟨hagain, hcontents, -, hnotices, -⟩ := redelivery_changes_nothing v Sample.network
    (.new Sample.network .standard) hbroken Sample.dispatch hfirst
  exact ⟨⟨_, rfl⟩, hfirst, hagain (v.steady_consume [Sample.dispatch] hsteady), hcontents,
    hnotices⟩

end Tracker

end Waybill
