import Waybill.Proofs.Tracker.Conduct
import Waybill.Proofs.Tracker.Redelivery
/-!
# The works of a run

A run of batches is a row of works, one on each event that was begun. A batch ends with the first
work that fails, and the next batch begins all the same. What is told over a run is told by its
works, and a quantity that some works raise has grown by their number.

## Main definitions

* `Tracker.Work`: an event, the stores before the work on it, and how the work ended.
* `Tracker.works`, `Tracker.worksEach`: the works of a batch, and of batches.
* `Tracker.toldEach`: what is told over batches, whatever becomes of them.

## Main results

* `Tracker.toldEach_eq`: what is told over batches is what their works tell.
* `Tracker.consumeEach_countP`: a quantity after batches that some works raise.
* `Tracker.exists_logged_fan`: every run can be logged.
* `Tracker.mem_domains_hearAll`: which domains are known after a run.
-/

namespace Waybill.Tracker

open Waybill.Task

variable {σ : Type}

/-- The work on an event. -/
structure Work (σ : Type) where
  event : Event
  /-- The stores before the work. -/
  before : σ
  outcome : Outcome σ Failure Unit

variable (b : Backend σ) (fan : FanOut σ) (net : Network)

/-- The works of a batch. -/
def works : List Event → σ → List (Work σ)
  | [], _ => []
  | e :: es, s =>
    let o := perform b fan net e s
    ⟨e, s, o⟩ ::
      match o.result with
      | .ok _ => works es o.state
      | .error _ => []

/-- The works of batches, whatever becomes of them. -/
def worksEach : List (List Event) → σ → List (Work σ)
  | [], _ => []
  | es :: batches, s => works b fan net es s ++ worksEach batches (consume b fan net es s).state

/-- What is told over batches, whatever becomes of them. -/
def toldEach : List (List Event) → σ → List Signal
  | [], _ => []
  | es :: batches, s =>
    (consume b fan net es s).signals ++ toldEach batches (consume b fan net es s).state

variable {b fan net}

theorem works_cons_of_ok {e : Event} {s : σ} (h : (perform b fan net e s).result = .ok ())
    (es : List Event) : works b fan net (e :: es) s =
      ⟨e, s, perform b fan net e s⟩ :: works b fan net es (perform b fan net e s).state := by
  simp only [works, h]

theorem works_cons_of_error {e : Event} {s : σ} {f : Failure}
    (h : (perform b fan net e s).result = .error f) (es : List Event) :
    works b fan net (e :: es) s = [⟨e, s, perform b fan net e s⟩] := by
  simp only [works, h]

/-- What is told while a batch is handled is what its works tell. -/
theorem signals_consume (es : List Event) (s : σ) :
    (consume b fan net es s).signals =
      (works b fan net es s).flatMap fun w => w.outcome.signals := by
  induction es generalizing s with
  | nil => rfl
  | cons e es ih =>
    cases h : (perform b fan net e s).result with
    | ok _ =>
      rw [consume_cons_of_ok h, works_cons_of_ok h, List.flatMap_cons, ← ih]
      rfl
    | error f =>
      rw [consume_cons_of_error h, works_cons_of_error h, List.flatMap_singleton]

/-- What is told over batches is what their works tell. -/
theorem toldEach_eq (batches : List (List Event)) (s : σ) :
    toldEach b fan net batches s =
      (worksEach b fan net batches s).flatMap fun w => w.outcome.signals := by
  induction batches generalizing s with
  | nil => rfl
  | cons es batches ih =>
    rw [toldEach, worksEach, List.flatMap_append, signals_consume, ih]

/-- A work is the work on its event. -/
theorem outcome_of_mem_works {es : List Event} {s : σ} {w : Work σ}
    (h : w ∈ works b fan net es s) : w.outcome = perform b fan net w.event w.before := by
  induction es generalizing s with
  | nil => cases h
  | cons e es ih =>
    cases hr : (perform b fan net e s).result with
    | ok _ =>
      rw [works_cons_of_ok hr] at h
      rcases List.mem_cons.mp h with rfl | h
      · rfl
      · exact ih h
    | error f =>
      rw [works_cons_of_error hr] at h
      rw [List.mem_singleton.mp h]

theorem outcome_of_mem_worksEach {batches : List (List Event)} {s : σ} {w : Work σ}
    (h : w ∈ worksEach b fan net batches s) : w.outcome = perform b fan net w.event w.before := by
  induction batches generalizing s with
  | nil => cases h
  | cons es batches ih =>
    rcases List.mem_append.mp h with h | h
    · exact outcome_of_mem_works h
    · exact ih h

/-! ### Quantities that grow -/

section Counting

variable {f : σ → Nat} {p : Work σ → Bool}
  (hwork : ∀ w : Work σ, w.outcome = perform b fan net w.event w.before →
    f w.outcome.state = f w.before + if p w then 1 else 0)
include hwork

theorem consume_countP (es : List Event) (s : σ) :
    f (consume b fan net es s).state = f s + (works b fan net es s).countP p := by
  induction es generalizing s with
  | nil => rfl
  | cons e es ih =>
    have hfirst := hwork ⟨e, s, perform b fan net e s⟩ rfl
    dsimp only at hfirst
    cases h : (perform b fan net e s).result with
    | ok _ =>
      rw [consume_cons_of_ok h, works_cons_of_ok h, List.countP_cons,
        Nat.add_comm (List.countP _ _), ← Nat.add_assoc, ← hfirst, ← ih]
      rfl
    | error f =>
      rw [consume_cons_of_error h, works_cons_of_error h, List.countP_singleton]
      exact hfirst

/-- A quantity that some works raise by one has grown by the number of these works. -/
theorem consumeEach_countP (batches : List (List Event)) (s : σ) :
    f (consumeEach b fan net batches s) = f s + (worksEach b fan net batches s).countP p := by
  induction batches generalizing s with
  | nil => rfl
  | cons es batches ih =>
    rw [worksEach, List.countP_append, ← Nat.add_assoc, ← consume_countP hwork]
    exact ih _

end Counting

/-! ### Runs with a log -/

section Logged

variable (b net) {fan' : FanOut (σ × List Call)}
  (hfan' : ∀ ts s, (fan' ts s).mapState Prod.fst = fan ts s.1)
include hfan'

theorem perform_logged (e : Event) (s : σ × List Call) :
    (perform b.logged fan' net e s).mapState Prod.fst = perform b fan net e s.1 := by
  rw [perform, perform, b.run_logged _ s.1 s.2]
  cases (Task.run b.logged (.tell (.consumed e.kind) (branches net e)) (s.1, s.2)).result with
  | ok ts =>
    dsimp only
    rw [Outcome.mapState_after, hfan']
  | error f => rfl

theorem consume_logged (es : List Event) (s : σ × List Call) :
    (consume b.logged fan' net es s).mapState Prod.fst = consume b fan net es s.1 := by
  induction es generalizing s with
  | nil => rfl
  | cons e es ih =>
    have hperform := perform_logged b net hfan' e s
    have hresult := congrArg Outcome.result hperform
    cases h : (perform b.logged fan' net e s).result with
    | ok _ =>
      rw [consume_cons_of_ok h, consume_cons_of_ok (hresult.symm.trans h), Outcome.mapState_after,
        ih, ← hperform]
      rfl
    | error f =>
      rw [consume_cons_of_error h, consume_cons_of_error (hresult.symm.trans h), ← hperform]
      rfl

theorem toldEach_logged (batches : List (List Event)) (s : σ × List Call) :
    toldEach b.logged fan' net batches s = toldEach b fan net batches s.1 := by
  induction batches generalizing s with
  | nil => rfl
  | cons es batches ih =>
    rw [toldEach, toldEach, ih, ← consume_logged b net hfan']
    rfl

end Logged

/-- Whatever turns are taken over stores, the calls can be logged, and nothing else changes. -/
theorem exists_logged_fan (hfan : ∀ ts s, b.Interleaves ts s (fan ts s)) :
    ∃ fan' : FanOut (σ × List Call), (∀ ts s, b.logged.Interleaves ts s (fan' ts s)) ∧
      ∀ net batches s, toldEach b.logged fan' net batches s = toldEach b fan net batches s.1 := by
  choose log hlog using fun ts (s : σ × List Call) => (hfan ts s.1).exists_log s.2
  exact ⟨_, hlog, fun net => toldEach_logged b net fun ts s => rfl⟩

/-! ### The domains that are known -/

/-- A tracker knows the domains that it knew, and those that it was told of. -/
theorem mem_domains_hearAll {t : Tracker} {xs : List Signal} {id : UInt32} :
    id ∈ (t.hearAll xs).domains ↔ id ∈ t.domains ∨ .sighted id ∈ xs := by
  simp only [domains, SortedMap.mem_keys_iff]
  induction xs generalizing t with
  | nil => simp [hearAll]
  | cons x xs ih =>
    change ((t.hear x).hearAll xs).known.contains id = true ↔ _
    rw [ih, List.mem_cons, ← or_assoc]
    refine or_congr_left ?_
    cases x with
    | sighted other =>
      simp only [hear, SortedMap.contains, SortedMap.find?_insert, Signal.sighted.injEq]
      split <;> simp_all
    | _ => simp [hear]

/-- A tracker knows the configured domains at its start. -/
theorem mem_domains_new {settings : TrackerSettings} {id : UInt32} :
    id ∈ (Tracker.new net settings).domains ↔ id ∈ net.ids := by
  simp only [domains, Tracker.new, SortedMap.mem_keys_iff, SortedMap.contains,
    SortedMap.find?_foldl_insert fun _ => (), SortedMap.find?_empty]
  split <;> simp_all

/-- The work on an event tells of that event, and of messages that move on. -/
theorem isAbout_perform (hfan : ∀ ts s, b.Interleaves ts s (fan ts s)) (e : Event) (s : σ) :
    ∀ x ∈ (perform b fan net e s).signals, x.IsAbout e := by
  have hopening : (Task.tell (.consumed e.kind) (branches net e)).Confined (Signal.IsAbout e)
      (fun _ => True) Settling := ⟨rfl, (handsOver_branches net e).confined⟩
  obtain ⟨htold, hbranches⟩ := hopening.run b s
  rw [perform]
  split
  · next ts hts =>
    intro x hx
    rcases List.mem_append.mp hx with hx | hx
    · exact htold x hx
    · have hprogress : x.IsProgress := (hfan ts _).told (hbranches ts hts) x hx
      exact (hprogress.isAside e).isAbout
  · exact htold

/-- The work on a dispatch tells of its domain at once. -/
theorem sighted_mem_perform {e : Event} (h : e.kind = .dispatch) (s : σ) :
    .sighted e.domain ∈ (perform b fan net e s).signals := by
  have hopening :
      .sighted e.domain ∈ ((Task.tell (.consumed e.kind) (branches net e)).run b s).signals := by
    cases hdata : e.data with
    | dispatch d =>
      rw [branches, hdata]
      simp [onDispatch, Task.run, Task.signal, Task.bind, Bind.bind, Outcome.after]
    | _ => simp [Event.kind, hdata, Event.Data.kind] at h
  rw [perform]
  split
  · exact List.mem_append_left _ hopening
  · exact hopening

/-- After batches, whatever became of them, a new tracker knows the configured domains and those of
which the work on a dispatch was begun. -/
theorem mem_domains_toldEach (hfan : ∀ ts s, b.Interleaves ts s (fan ts s))
    (settings : TrackerSettings) (batches : List (List Event)) (s : σ) (id : UInt32) :
    id ∈ ((Tracker.new net settings).hearAll (toldEach b fan net batches s)).domains ↔
      id ∈ net.ids ∨
        ∃ w ∈ worksEach b fan net batches s, w.event.kind = .dispatch ∧ w.event.domain = id := by
  rw [mem_domains_hearAll, mem_domains_new, toldEach_eq, List.mem_flatMap]
  refine or_congr_right (exists_congr fun w => and_congr_right fun hw => ?_)
  rw [outcome_of_mem_worksEach hw]
  constructor
  · intro hsighted
    obtain ⟨rfl, hkind⟩ := isAbout_perform hfan _ _ _ hsighted
    exact ⟨hkind, rfl⟩
  · rintro ⟨hkind, rfl⟩
    exact sighted_mem_perform hkind _

end Waybill.Tracker
