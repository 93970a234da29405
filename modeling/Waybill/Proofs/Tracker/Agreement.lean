import Waybill.Proofs.Tracker.Scene
import Waybill.Proofs.Tracker.Shape
import Waybill.Proofs.Tracker.Telling
/-!
# Branches in any order

An update of a root is worked off in one branch for each message of the root, and nothing is said
about the order in which the branches stand or go on. It does not matter: a branch looks at its own
record and at the pool, which no branch writes, so in the end the stores are those that they would
be if the branches had been worked off one after another, and the notices of each message are the
same in the same order.

## Main definitions

* `Tracker.Agree`: outcomes that differ in the order of the notices of different messages only.

## Main results

* `Ledger.noticesOf_woven`: what is told of a message in branches that are over.
* `Tracker.Course.agree`: all courses on which no call is refused agree.
* `Tracker.Service.perform_agree`: so do the services that work on an event.
* `Tracker.branches_in_any_order`: branches that go on in any order.
-/

namespace Waybill

open Waybill.Pending Waybill.Task Message

/-! ### What is told of a message -/

namespace Ledger

variable {net : Network} {L : Ledger} {e : Event} {k : Mark}

/-- When the branches of an event of a root are over, what was told of a message is what its own
branch had to tell. -/
theorem noticesOf_woven (hroot : k.isOfRoot = true) {ys : List Signal} {zss : List (List Signal)}
    (hwoven : Woven (L.spreadSignals net k e) ys zss) (hdone : ∀ zs ∈ zss, zs = [])
    (hash : Digest) : Signal.noticesOf hash ys =
      match (L.journeys.find? hash.text).filter fun j => j.answers net k e with
      | some j => Signal.noticesOf hash (j.told net k e (L.stock.keep e))
      | none => [] := by
  cases hj : (L.journeys.find? hash.text).filter fun j => j.answers net k e with
  | some j =>
    obtain ⟨hfind, hans⟩ := Option.filter_eq_some_iff.mp hj
    have hkey : j.key = hash.text := L.keyed hfind
    obtain rfl : j.dispatch.messageHash = hash := Digest.text_injective hkey
    have hmem : j ∈ L.journeys.values.filter fun j => j.answers net k e :=
      List.mem_filter.mpr ⟨L.mem_values_iff.mpr hfind, hans⟩
    obtain ⟨i, hi⟩ := List.getElem?_of_mem hmem
    obtain ⟨zs, hzs, heq⟩ := noticesOf_branch hroot hwoven hi
    rw [hdone zs (List.mem_of_getElem? hzs)] at heq
    exact (heq.trans (List.append_nil _)).symm
  | none =>
    refine noticesOf_eq_nil hroot hwoven fun r hr hhash => ?_
    obtain ⟨j, hfind, hans, rfl⟩ := mem_goneOn.mp hr
    rw [Journey.messageHash_record, Journey.key_goOn] at hhash
    rw [hhash] at hfind
    rw [hfind, Option.filter_some, if_pos hans] at hj
    cases hj

end Ledger

namespace Tracker

/-! ### Courses -/

/-- Two outcomes end in the same way, with the same contents of the stores and the same notices of
each message in the same order. -/
structure Agree (o o' : Outcome Memory Failure Unit) : Prop where
  result : o.result = o'.result
  state : o.state = o'.state
  notices : ∀ hash, Signal.noticesOf hash o.signals = Signal.noticesOf hash o'.signals

variable {net : Network} {L : Ledger} {m : Memory} {e : Event}

/-- On a course on which no call is refused the step of the ledger is taken. -/
theorem Course.taken (hm : L.Depicts net m) {o : Outcome Memory Failure Unit}
    (h : Course False net L m e o) : o.result = .ok () ∧ (L.step net e).Depicts net o.state :=
  (h.effect hm).resolve_right And.left

/-- What is told of a message on a course on which no call is refused. -/
theorem Course.noticesOf_of_root {o : Outcome Memory Failure Unit}
    (h : Course False net L m e o) {k : Mark} (hmark : e.mark? = some k)
    (hroot : k.isOfRoot = true) (hash : Digest) : Signal.noticesOf hash o.signals =
      match (L.journeys.find? hash.text).filter fun j => j.answers net k e with
      | some j => Signal.noticesOf hash (j.told net k e (L.stock.keep e))
      | none => [] := by
  cases h with
  | single hnot _ =>
    rw [hnot k hmark] at hroot
    cases hroot
  | refused hfaulty _ => exact hfaulty.elim
  | @spread k' o ys zss us hmark' _ _ hunder hverdict hsignals hwoven =>
    obtain rfl := Option.some.inj (hmark.symm.trans hmark')
    have hover : ∀ u ∈ us, u = .done () :=
      hverdict.elim And.right fun ⟨_, _, hf⟩ => (hunder.faulty_of_fail hf).elim
    rw [hsignals, Signal.noticesOf_append, L.openingSignals_of_root hmark hroot]
    refine (congrArg (· ++ _) (Signal.noticesOf_storeSignals hash e)).trans ?_
    exact Ledger.noticesOf_woven hroot hwoven (hunder.told_all hover) hash

/-- What is told on a course of an event without branches. -/
theorem Course.signals_of_not_root {o : Outcome Memory Failure Unit}
    (h : Course False net L m e o) (hmark : ∀ k, e.mark? = some k → k.isOfRoot = false) :
    o.signals = .consumed e.kind :: L.openingSignals net e := by
  cases h with
  | single _ _ => rfl
  | refused hfaulty _ => exact hfaulty.elim
  | spread hmark' hroot _ _ _ _ _ =>
    rw [hmark _ hmark'] at hroot
    cases hroot

/-- On every course on which no call is refused the same becomes of the stores and of each
message. -/
theorem Course.agree (hm : L.Depicts net m) {o o' : Outcome Memory Failure Unit}
    (h : Course False net L m e o) (h' : Course False net L m e o') : Agree o o' := by
  obtain ⟨hok, hdepicts⟩ := h.taken hm
  obtain ⟨hok', hdepicts'⟩ := h'.taken hm
  refine ⟨hok.trans hok'.symm, hdepicts.unique hdepicts', fun hash => ?_⟩
  rcases e.isOfRoot_cases with hmark | ⟨k, hk, hroot⟩
  · rw [h.signals_of_not_root hmark, h'.signals_of_not_root hmark]
  · rw [h.noticesOf_of_root hk hroot, h'.noticesOf_of_root hk hroot]

/-! ### Services -/

theorem Service.steady_course {σ : Type} (v : Service σ) {s : σ}
    (hm : L.Depicts net (v.contents s)) (hsteady : v.Steady s) (e : Event) :
    Course False net L (v.contents s) e
      ((perform v.backend v.fan net e s).mapState v.contents) := by
  have hcourse := v.perform_course hm e
  rwa [eq_false (not_not_intro hsteady)] at hcourse

/-- Whatever the services, and however they work off branches, the work on an event agrees as long
as no call is refused. -/
theorem Service.perform_agree {σ τ : Type} (v : Service σ) (w : Service τ) {s : σ} {t : τ}
    (h : Attained net m) (hs : v.contents s = m) (ht : w.contents t = m) (hsteady : v.Steady s)
    (hsteady' : w.Steady t) (e : Event) :
    Agree ((perform v.backend v.fan net e s).mapState v.contents)
      ((perform w.backend w.fan net e t).mapState w.contents) := by
  obtain ⟨L, es, hm, -⟩ := h.ledger
  have hcourse := v.steady_course (hs ▸ hm) hsteady e
  have hcourse' := w.steady_course (ht ▸ hm) hsteady' e
  rw [hs] at hcourse
  rw [ht] at hcourse'
  exact hcourse.agree hm hcourse'

/-! ### Moves in any order -/

/-- Over any contents that calls can leave, whether broken off or not, the branches of an event may
stand in any order and go on one move at a time, whichever of them is next and however many updates
may be under way at once. There are never more updates under way, none of the branches fails, and
as long as they are not over one of them can go on. Their moves come to an end, and then the stores,
the pool among them, and the notices of each message are those that there are if the branches are
worked off one after another. -/
theorem branches_in_any_order (h : Attained net m) (e : Event) :
    let alone := perform Memory.backend (oneByOne Memory.backend) net e m
    let opening := (Task.tell (.consumed e.kind) (branches net e)).run Memory.backend m
    alone.result = .ok () ∧ ∃ ts, opening.result = .ok ts ∧
      ∀ us limit, us.Perm ts → 0 < limit →
        let start := Scene.start us opening.state opening.signals
        Acc (fun sc' sc => sc.Next Memory.backend limit sc') start ∧
        ∀ sc, start.Leads Memory.backend limit sc →
          sc.writing ≤ limit ∧ ¬ sc.HasFailed ∧
            (¬ sc.IsOver → ∃ sc', sc.Next Memory.backend limit sc') ∧
            (sc.IsOver → Agree ⟨.ok (), sc.store, sc.signals⟩ alone) := by
  intro alone opening
  obtain ⟨L, es, hm, -⟩ := h.ledger
  obtain ⟨ts, m', hrun, hcourse⟩ := Course.of_branches False hm e
  have hopening : opening = ⟨.ok ts, m', .consumed e.kind :: L.openingSignals net e⟩ :=
    (WritesLast.tell (x := .consumed e.kind) hrun).run
  have halone : Course False net L m e alone :=
    Stores.inMemory.oneByOne.steady_course (s := m) hm trivial e
  refine ⟨(halone.taken hm).1, ts, by rw [hopening],
    fun us limit hperm hlimit => ?_⟩
  intro start
  -- however the branches go on, it is an interleaving of them in their first order
  have hinterleaves {o : Outcome Memory Failure Unit}
      (ho : Memory.backend.Interleaves start.tasks start.store o) :
      Course False net L m e (o.after (.consumed e.kind :: L.openingSignals net e)) := by
    have htasks : start.tasks = us := by
      rw [Scene.tasks, show start.stands = us.map .ready from rfl, List.map_map]
      exact List.map_id us
    rw [htasks, show start.store = m' from congrArg Outcome.state hopening] at ho
    exact hcourse (Stores.inMemory.interleaves (ho.perm hperm) fun hnot => hnot trivial)
  refine ⟨(Scene.wellFounded_next Memory.backend limit).apply start, fun sc hsc => ?_⟩
  have hfine : ¬ sc.HasFailed := by
    intro hfailed
    obtain ⟨xs, f, ho⟩ := hsc.interleaves_of_hasFailed hfailed
    have hok := ((hinterleaves ho).taken hm).1
    cases hok
  have hwriting : sc.writing ≤ limit := by
    refine hsc.writing_le ?_
    rw [Scene.writing_start]
    exact Nat.zero_le limit
  refine ⟨hwriting, hfine, Scene.exists_next hlimit hfine, fun hover => ?_⟩
  obtain ⟨xs, hxs, ho⟩ := hsc.interleaves_of_isOver hover
  have hagree := (hinterleaves ho).agree hm halone
  rwa [Outcome.after, show .consumed e.kind :: L.openingSignals net e = start.signals from
    (congrArg Outcome.signals hopening).symm, ← hxs] at hagree

end Tracker

namespace Sample

/-- Two messages of a root. -/
def pair : Memory :=
  let v := Tracker.Stores.inMemory.oneByOne
  v.contents (Tracker.consume v.backend v.fan network [dispatch, companion] Memory.empty).state

/-- What the work on an update comes to before its branches. -/
def pairUpdated : Outcome Memory Failure (List (Task Unit)) :=
  (Task.tell (.consumed update.kind) (Tracker.branches network update)).run Memory.backend pair

end Sample

namespace Tracker

set_option maxRecDepth 2000 in
theorem length_pairUpdated : Sample.pairUpdated.result.toOption.map List.length = some 2 := by
  decide +kernel

/-- Two messages of a root, the branch of the second one standing first, and one update at once. -/
theorem branches_in_any_order_sample :
    let opening := Sample.pairUpdated
    let alone := perform Memory.backend (oneByOne Memory.backend) Sample.network Sample.update
      Sample.pair
    ∃ t₁ t₂, opening.result = .ok [t₁, t₂] ∧
      let start := Scene.start [t₂, t₁] opening.state opening.signals
      Acc (fun sc' sc => sc.Next Memory.backend 1 sc') start ∧
      ∀ sc, start.Leads Memory.backend 1 sc →
        (¬ sc.IsOver → ∃ sc', sc.Next Memory.backend 1 sc') ∧
          (sc.IsOver → Agree ⟨.ok (), sc.store, sc.signals⟩ alone) := by
  have hm : Attained Sample.network Sample.pair := by
    have hempty : Attained Sample.network (Stores.inMemory.oneByOne.contents Memory.empty) := .empty
    exact .consumed Stores.inMemory.oneByOne hempty [Sample.dispatch, Sample.companion]
  obtain ⟨-, ts, hts, hany⟩ := branches_in_any_order hm Sample.update
  have hlength := length_pairUpdated
  rw [Sample.pairUpdated, hts] at hlength
  obtain ⟨t₁, t₂, rfl⟩ := List.length_eq_two.mp (Option.some.inj hlength)
  obtain ⟨hends, hscenes⟩ := hany [t₂, t₁] 1 (.swap t₁ t₂ []) Nat.one_pos
  exact ⟨t₁, t₂, hts, hends, fun sc hsc => (hscenes sc hsc).2.2⟩

end Tracker

end Waybill
