import Waybill.Tracker.Turns
import Waybill.Proofs.Tracker.Service
/-!
# Turns are an interleaving

However branches take turns, in rounds or through a queue, all that becomes of the stores comes
from single signals and calls of theirs in some order. An update that has begun has no effect until
it is carried out, and what is noted about updates under way is not part of what is stored. So
stores in memory before which calls may be refused, with branches in turns, are a service.

## Main definitions

* `Tracker.Finishes`: an outcome is that of some interleaving of what is left of the branches.
* `Tracker.Stores.inTurns`: stores in memory before which calls may be refused, with branches in
  turns.

## Main results

* `Tracker.Finishes.rounds`: rounds are an interleaving.
* `Tracker.Finishes.crowd`: the turns of a crowd are an interleaving.
-/

namespace Waybill.Tracker

/-- What is left to do for a branch that may have failed. -/
def leftover : Except Failure Stand → Task Unit
  | .ok st => st.rest
  | .error e => .fail e

/-- From a floor on, an outcome is that of some interleaving of what is left of the branches. -/
structure Finishes (ts : List (Task Unit)) (fl : Floor Memory)
    (out : Outcome (Guarded Memory) Failure Unit) : Prop where
  refusals : out.state.refusals = fl.store.refusals
  interleaves : ∃ o, Interleaves (fl.store.refusals ≠ .none) ts fl.store.inner o ∧
    out.mapState Guarded.inner = o.after fl.signals.reverse

variable {ts : List (Task Unit)} {fl fl' : Floor Memory}
  {out : Outcome (Guarded Memory) Failure Unit} {i limit : Nat}

namespace Finishes

/-! ### Single signals and calls -/

/-- Only what is stored, what is refused and what was told counts on a floor. -/
theorem congr (h : Finishes ts fl' out) (hinner : fl'.store.inner = fl.store.inner)
    (hrefusals : fl'.store.refusals = fl.store.refusals) (hsignals : fl'.signals = fl.signals) :
    Finishes ts fl out := by
  obtain ⟨hout, o, ho, heq⟩ := h
  rw [hinner, hrefusals] at ho
  exact ⟨hout.trans hrefusals, o, ho, hsignals ▸ heq⟩

theorem ended (h : ∀ t ∈ ts, t = .done ()) :
    Finishes ts fl ⟨.ok (), fl.store, fl.signals.reverse⟩ := by
  refine ⟨rfl, _, .ended h, ?_⟩
  rw [Outcome.mapState, Outcome.after, List.append_nil]

theorem failed {e : Failure} (h : .fail e ∈ ts) :
    Finishes ts fl ⟨.error e, fl.store, fl.signals.reverse⟩ := by
  refine ⟨rfl, _, .failed h, ?_⟩
  rw [Outcome.mapState, Outcome.after, List.append_nil]

theorem tell {x : Signal} {t : Task Unit} (ht : ts[i]? = some (.tell x t))
    (h : Finishes (ts.set i t) { fl with signals := x :: fl.signals } out) :
    Finishes ts fl out := by
  obtain ⟨hout, o, ho, heq⟩ := h
  refine ⟨hout, _, .tell ht ho, ?_⟩
  rw [heq, Outcome.after_after, List.reverse_cons]

theorem ask (fl' : Floor Memory) {c : Call} {k : c.Answer → Task Unit}
    {r : Except Failure c.Answer} (ht : ts[i]? = some (.ask c k))
    (hr : fl.store.inner.Answers (fl.store.refusals ≠ .none) c r fl'.store.inner)
    (hrefusals : fl'.store.refusals = fl.store.refusals) (hsignals : fl'.signals = fl.signals)
    (h : Finishes (ts.set i (.resume k r)) fl' out) : Finishes ts fl out := by
  obtain ⟨hout, o, ho, heq⟩ := h
  rw [hrefusals] at ho
  exact ⟨hout.trans hrefusals, o, .ask ht hr ho, hsignals ▸ heq⟩

/-- What is left may be worked off in order. -/
theorem inOrder (ts : List (Task Unit)) (fl : Floor Memory) :
    Finishes ts fl (((Task.inOrder ts).run (Guarded.backend Memory.backend) fl.store).after
      fl.signals.reverse) :=
  ⟨Guarded.refusals_run Memory.backend (.inOrder ts) fl.store, _,
    Stores.guarded.interleaves (Backend.interleaves_inOrder _ [] (by simp) ts _) id, rfl⟩

/-! ### Turns of one branch -/

/-- A branch that comes to an update begins it, waits, or is refused. -/
theorem of_begin {c : Call} {k : c.Answer → Task Unit} (ht : ts[i]? = some (.ask c k))
    (h : Finishes (ts.set i (leftover (begin limit fl c k).1)) (begin limit fl c k).2 out) :
    Finishes ts fl out := by
  rw [begin] at h
  split at h
  · rwa [leftover, Stand.rest, Task.set_of_getElem? ht] at h
  · split at h
    · next hcovers =>
      exact ask fl ht (.inr ⟨fun hnone => by simp [hnone] at hcovers, ⟨_, rfl⟩, rfl⟩) rfl rfl h
    · rw [leftover, Stand.rest, Task.set_of_getElem? ht] at h
      exact h.congr rfl rfl rfl

/-- A branch goes on until it is over or comes to an update. -/
theorem of_drive (limit : Nat) (t : Task Unit) (ht : ts[i]? = some t)
    (h : Finishes (ts.set i (leftover (drive Memory.backend limit t fl).1))
      (drive Memory.backend limit t fl).2 out) : Finishes ts fl out := by
  induction t generalizing ts fl with
  | done a => rwa [drive, leftover, Stand.rest, Task.set_of_getElem? ht] at h
  | fail e => rwa [drive, leftover, Task.set_of_getElem? ht] at h
  | tell x t ih =>
    refine tell ht (ih (Task.getElem?_set ht t) ?_)
    rwa [List.set_set]
  | ask c k ih =>
    rw [drive] at h
    split at h
    · exact of_begin ht h
    · have hans := Stores.guarded.answers fl.store c
      have hrefusals := Guarded.refusals_answer Memory.backend fl.store c
      change Memory.Answers _ _ _ (Guarded.answer _ _ _).1 (Guarded.answer _ _ _).2.inner at hans
      change (Guarded.answer _ _ _).2.refusals = _ at hrefusals
      revert h hans hrefusals
      obtain ⟨r, s⟩ := Guarded.answer Memory.backend fl.store c
      intro h hans hrefusals
      cases r with
      | ok a =>
        refine ask { fl with store := s } ht hans hrefusals rfl ?_
        refine ih a (Task.getElem?_set ht (k a)) ?_
        rwa [List.set_set]
      | error e => exact ask { fl with store := s } ht hans hrefusals rfl h

/-- An update that has begun is carried out. -/
theorem of_pass (fl' : Floor Memory) {c : Call} {k : c.Answer → Task Unit}
    {r : Except Failure c.Answer} {s : Guarded Memory} (ht : ts[i]? = some (.ask c k))
    (hpass : Guarded.pass Memory.backend fl.store c = (r, s)) (hstore : fl'.store = s)
    (hsignals : fl'.signals = fl.signals) (h : Finishes (ts.set i (.resume k r)) fl' out) :
    Finishes ts fl out := by
  obtain ⟨rfl, rfl⟩ := Prod.mk.inj hpass
  exact ask fl' ht (.inl (by rw [hstore]; rfl)) (by rw [hstore]) hsignals h

/-! ### Rounds -/

theorem of_turn (limit : Nat) {st : Stand} (ht : ts[i]? = some st.rest)
    (h : Finishes (ts.set i (leftover (turn Memory.backend limit st fl).1))
      (turn Memory.backend limit st fl).2 out) : Finishes ts fl out := by
  cases st with
  | ready t => exact of_drive limit t ht h
  | waiting c k => exact of_begin ht h
  | finished => rwa [turn, leftover, Task.set_of_getElem? ht] at h
  | writing c k =>
    rw [turn] at h
    obtain ⟨r, s, hpass⟩ : ∃ r s, Guarded.pass Memory.backend fl.store c = (r, s) := ⟨_, _, rfl⟩
    rw [hpass] at h
    refine of_pass { fl with store := s, free := fl.free + 1 } ht hpass rfl rfl ?_
    cases r with
    | ok a =>
      refine of_drive limit (k a) (Task.getElem?_set ht (k a)) ?_
      rwa [List.set_set]
    | error e => exact h

/-- A round takes all branches on, or ends with the first failure. -/
theorem of_round (ds : List (Task Unit)) {sts : List Stand} {r : Except Failure (List Stand)}
    (hround : round Memory.backend limit sts fl = (r, fl'))
    (hok : ∀ sts', r = .ok sts' → Finishes (ds ++ sts'.map Stand.rest) fl' out)
    (herror : ∀ e, r = .error e → out = ⟨.error e, fl'.store, fl'.signals.reverse⟩) :
    Finishes (ds ++ sts.map Stand.rest) fl out := by
  induction sts generalizing ds fl fl' r with
  | nil =>
    cases hround
    exact hok [] rfl
  | cons st sts ih =>
    rw [round] at hround
    rw [List.map_cons]
    refine of_turn limit (Task.getElem?_length_append ds st.rest (sts.map Stand.rest)) ?_
    rw [Task.set_length_append]
    obtain ⟨r₁, fl₁, hturn⟩ : ∃ r₁ fl₁, turn Memory.backend limit st fl = (r₁, fl₁) :=
      ⟨_, _, rfl⟩
    rw [hturn] at hround ⊢
    cases r₁ with
    | error e =>
      cases hround
      rw [herror e rfl]
      exact failed (by simp [leftover])
    | ok st₁ =>
      obtain ⟨r₂, fl₂, hrest⟩ : ∃ r₂ fl₂, round Memory.backend limit sts fl₁ = (r₂, fl₂) :=
        ⟨_, _, rfl⟩
      simp only [hrest] at hround
      have hnext := ih (ds ++ [st₁.rest]) hrest
      simp only [List.append_assoc, List.singleton_append] at hnext
      cases r₂ with
      | error e =>
        cases hround
        exact hnext (fun _ h => by cases h) herror
      | ok sts₁ =>
        cases hround
        exact hnext (fun sts' h => by cases h; exact hok _ rfl) (fun _ h => by cases h)

/-- Rounds are an interleaving of what is left of the branches. -/
theorem rounds (limit n : Nat) (sts : List Stand) (fl : Floor Memory) :
    Finishes (sts.map Stand.rest) fl (Tracker.rounds Memory.backend limit n sts fl) := by
  induction n generalizing sts fl with
  | zero => exact inOrder _ fl
  | succ n ih =>
    rw [Tracker.rounds]
    obtain ⟨r, fl', hround⟩ : ∃ r fl', round Memory.backend limit sts fl = (r, fl') :=
      ⟨_, _, rfl⟩
    rw [hround]
    refine of_round [] hround (fun sts' hr => ?_) (fun e hr => ?_)
    · rw [hr]
      exact ih sts' fl'
    · rw [hr]

end Finishes

/-! ### Crowds -/

namespace Crowd

variable {cr : Crowd Memory}

/-- What is left to do for the branches of a crowd. -/
def tasks (cr : Crowd Memory) : List (Task Unit) := cr.stands.map leftover

theorem tasks_place (i : Nat) (step : Step Memory) (cr : Crowd Memory) :
    (cr.place i step).tasks = cr.tasks.set i (leftover step.1) := by
  rw [tasks, tasks, ← List.map_set, place]
  split <;> rfl

theorem floor_place (i : Nat) (step : Step Memory) (cr : Crowd Memory) :
    (cr.place i step).floor = step.2 := by
  rw [place]
  split <;> rfl

theorem tasks_release (cr : Crowd Memory) : cr.release.tasks = cr.tasks := by
  rw [release]
  split <;> rfl

theorem floor_release (cr : Crowd Memory) :
    cr.release.floor.store = cr.floor.store ∧ cr.release.floor.signals = cr.floor.signals := by
  rw [release]
  split <;> exact ⟨rfl, rfl⟩

theorem getElem?_tasks {st : Stand} (h : cr.stands[i]? = some (.ok st)) :
    cr.tasks[i]? = some st.rest := by
  rw [tasks, List.getElem?_map, h]
  rfl

theorem rest_eq (cr : Crowd Memory) : cr.rest = .inOrder cr.tasks := rfl

end Crowd

namespace Finishes

variable {cr : Crowd Memory}

theorem of_place {step : Step Memory}
    (h : Finishes (cr.place i step).tasks (cr.place i step).floor out) :
    Finishes (cr.tasks.set i (leftover step.1)) step.2 out := by
  rwa [Crowd.tasks_place, Crowd.floor_place] at h

theorem of_release (h : Finishes cr.release.tasks cr.release.floor out) :
    Finishes cr.tasks cr.floor out := by
  obtain ⟨hstore, hsignals⟩ := cr.floor_release
  rw [Crowd.tasks_release] at h
  exact h.congr (by rw [hstore]) (by rw [hstore]) hsignals

theorem of_enter {c : Call} {k : c.Answer → Task Unit} (ht : cr.tasks[i]? = some (.ask c k))
    (h : Finishes (cr.enter i c k).tasks (cr.enter i c k).floor out) :
    Finishes cr.tasks cr.floor out := by
  rw [Crowd.enter] at h
  split at h
  · next hcovers =>
    exact ask _ ht (.inr ⟨fun hnone => by simp [hnone] at hcovers, ⟨_, rfl⟩, rfl⟩) rfl rfl
      (of_place (of_release h))
  · have hnext := of_place h
    rw [leftover, Stand.rest, Task.set_of_getElem? ht] at hnext
    exact hnext.congr rfl rfl rfl

theorem of_carryOut {c : Call} {k : c.Answer → Task Unit} (ht : cr.tasks[i]? = some (.ask c k))
    (h : Finishes (cr.carryOut Memory.backend limit i c k).tasks
      (cr.carryOut Memory.backend limit i c k).floor out) :
    Finishes cr.tasks cr.floor out := by
  rw [Crowd.carryOut] at h
  obtain ⟨r, s, hpass⟩ : ∃ r s, Guarded.pass Memory.backend cr.floor.store c = (r, s) :=
    ⟨_, _, rfl⟩
  rw [hpass] at h
  refine of_pass { cr.floor with store := s } ht hpass rfl rfl ?_
  cases r with
  | ok a =>
    have hnext := of_place h
    rw [Crowd.tasks_release] at hnext
    -- giving leave to another branch changes nothing that counts
    obtain ⟨hstore, hsignals⟩ :=
      Crowd.floor_release { cr with floor := { cr.floor with store := s } }
    refine congr (of_drive limit (k a) (Task.getElem?_set ht (k a)) ?_)
      (congrArg Guarded.inner hstore) (congrArg Guarded.refusals hstore) hsignals
    rwa [List.set_set]
  | error e => exact of_place (of_release h)

theorem of_crowdTurn (cr : Crowd Memory) (h : Finishes (cr.turn Memory.backend limit i).tasks
    (cr.turn Memory.backend limit i).floor out) : Finishes cr.tasks cr.floor out := by
  rw [Crowd.turn] at h
  split at h
  · next t hi => exact of_drive limit t (Crowd.getElem?_tasks hi) (of_place h)
  · next c k hi => exact of_enter (Crowd.getElem?_tasks hi) h
  · next c k hi => exact of_carryOut (Crowd.getElem?_tasks hi) h
  · exact h

/-- The verdict on a crowd is that of its branches. -/
theorem of_verdict {sts : List (Except Failure Stand)} {r : Except Failure Unit}
    (h : Crowd.verdict sts = some r) :
    Finishes (sts.map leftover) fl ⟨r, fl.store, fl.signals.reverse⟩ := by
  have hcases : r = .ok () ∧ (∀ t ∈ sts.map leftover, t = .done ()) ∨
      ∃ e, r = .error e ∧ .fail e ∈ sts.map leftover := by
    induction sts using Crowd.verdict.induct with
    | case1 =>
      cases h
      exact .inl ⟨rfl, by simp⟩
    | case2 sts ih =>
      rcases ih h with ⟨rfl, hall⟩ | ⟨e, rfl, he⟩
      · exact .inl ⟨rfl, by simpa [leftover, Stand.rest] using hall⟩
      · exact .inr ⟨e, rfl, List.mem_cons_of_mem _ he⟩
    | case3 st sts hst =>
      rw [Crowd.verdict] at h
      · cases h
      · exact hst
    | case4 e sts =>
      cases h
      exact .inr ⟨e, rfl, List.mem_cons_self⟩
  rcases hcases with ⟨rfl, hall⟩ | ⟨e, rfl, he⟩
  · exact ended hall
  · exact failed he

/-- The turns of a crowd are an interleaving of what is left of its branches. -/
theorem crowd (limit n : Nat) (cr : Crowd Memory) :
    Finishes cr.tasks cr.floor (cr.run Memory.backend limit n) := by
  induction n generalizing cr with
  | zero =>
    rw [Crowd.run, Crowd.rest_eq]
    exact inOrder cr.tasks cr.floor
  | succ n ih =>
    rw [Crowd.run]
    split
    · next r hr => exact of_verdict hr
    · split
      · next i is hq => exact of_crowdTurn { cr with queue := is } (ih _)
      · exact ih { cr with queue := cr.begun, begun := [] }

/-- Branches in turns are interleaved. -/
theorem inTurns (limit : Nat) (ts : List (Task Unit)) (s : Guarded Memory) :
    Finishes ts ⟨s, max limit 1, []⟩ (Tracker.inTurns Memory.backend limit ts s) := by
  have hrest : ts.map (Stand.rest ∘ .ready) = ts := List.map_id ts
  rw [Tracker.inTurns]
  split
  · have h := rounds (max limit 1) (ts.length + 1) (ts.map .ready) ⟨s, max limit 1, []⟩
    rwa [List.map_map, hrest] at h
  · have h := crowd (max limit 1) (4 * ts.length + 1)
      (.ofTasks ts ⟨s, max limit 1, []⟩)
    rwa [Crowd.tasks, Crowd.ofTasks, List.map_map, show leftover ∘ (fun t => .ok (.ready t)) = id
      from rfl, List.map_id] at h

end Finishes

/-- Stores in memory before which calls may be refused, with branches in turns. -/
def Stores.inTurns (limit : Nat) : Service (Guarded Memory) where
  toStores := .guarded
  fan := Tracker.inTurns Memory.backend limit
  interleaves ts s := by
    obtain ⟨-, o, ho, heq⟩ := Finishes.inTurns limit ts s
    exact heq ▸ ho
  steady_fan ts {s} h := (Finishes.inTurns limit ts s).refusals.trans h

end Waybill.Tracker
