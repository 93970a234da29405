import Waybill.Store.Guarded
import Waybill.Tracker.Batch
import Waybill.Proofs.Task.Course
import Waybill.Proofs.Task.Interleaving
/-!
# Services

A tracker works with stores that it shares with nobody else while they may refuse calls at any
time. A service is such a pair of stores with a way to work off branches: every call is answered
as by stores in memory or is refused and does nothing, and branches are worked off in some
interleaving of their calls, which a failing branch may cut short.

## Main definitions

* `Memory.Answers`: the answers to a call that may be refused.
* `Tracker.Interleaves`: branches worked off in turns.
* `Tracker.Stores`: stores that answer as those in memory do, or refuse.
* `Tracker.Service`: stores with a way to work off branches.
* `Tracker.Stores.withFan`: stores with branches worked off in turns over them.
* `Tracker.Stores.inMemory`, `Tracker.Stores.guarded`, `Tracker.Stores.faltering`: stores in memory
  that refuse nothing, some kinds of calls, or a single call at any point.

## Main results

* `Tracker.Stores.run_of_writesLast`: a task whose only write comes last is done or leaves
  everything as it was.
-/

namespace Waybill

variable {σ α : Type}

/-- A call is answered as by stores in memory or, where calls may be refused, fails and does
nothing. -/
def Memory.Answers (faulty : Prop) (m : Memory) (c : Call) (r : Except Failure c.Answer)
    (m' : Memory) : Prop :=
  (r, m') = m.answer c ∨ faulty ∧ (∃ f, r = .error f) ∧ m' = m

theorem Memory.Answers.mono {faulty faulty' : Prop} (h : faulty → faulty') {m m' : Memory}
    {c : Call} {r : Except Failure c.Answer} (ha : m.Answers faulty c r m') :
    m.Answers faulty' c r m' :=
  ha.imp_right fun ha => ⟨h ha.1, ha.2⟩

/-- The outcome seen through its state. -/
def Outcome.mapState {τ ε : Type} (view : σ → τ) (o : Outcome σ ε α) : Outcome τ ε α :=
  ⟨o.result, view o.state, o.signals⟩

theorem Outcome.mapState_after {τ ε : Type} (view : σ → τ) (o : Outcome σ ε α)
    (xs : List Signal) : (o.after xs).mapState view = (o.mapState view).after xs := rfl

/-! ### Refusals -/

@[simp] theorem Refusals.covers_none (c : Call) : Refusals.none.covers c = false := by
  cases c <;> rfl

namespace Guarded

variable (b : Backend σ)

theorem refusals_answer (s : Guarded σ) (c : Call) :
    ((backend b).answer s c).2.refusals = s.refusals := by
  simp only [backend, answer]
  split
  · rfl
  · split <;> rfl

/-- What is refused stays the same all along. -/
theorem refusals_run (t : Task α) (s : Guarded σ) :
    (t.run (backend b) s).state.refusals = s.refusals := by
  induction t generalizing s with
  | done a => rfl
  | fail f => rfl
  | tell x t ih => exact ih s
  | ask c k ih =>
    have hanswer := refusals_answer b s c
    rw [Task.run]
    split
    · next heq =>
      rw [heq] at hanswer
      exact (ih _ _).trans hanswer
    · next heq =>
      rw [heq] at hanswer
      exact hanswer

end Guarded

namespace Tracker

/-- Branches are worked off in turns of single signals and calls. They are over when all of them
are, and may be broken off as soon as one of them has failed. -/
inductive Interleaves (faulty : Prop) :
    List (Task Unit) → Memory → Outcome Memory Failure Unit → Prop
  | ended {ts : List (Task Unit)} {m : Memory} (h : ∀ t ∈ ts, t = .done ()) :
      Interleaves faulty ts m ⟨.ok (), m, []⟩
  | failed {ts : List (Task Unit)} {m : Memory} {f : Failure} (h : .fail f ∈ ts) :
      Interleaves faulty ts m ⟨.error f, m, []⟩
  | tell {ts : List (Task Unit)} {m : Memory} {o : Outcome Memory Failure Unit} {i : Nat}
      {x : Signal} {t : Task Unit} (ht : ts[i]? = some (.tell x t))
      (h : Interleaves faulty (ts.set i t) m o) : Interleaves faulty ts m (o.after [x])
  | ask {ts : List (Task Unit)} {m m' : Memory} {o : Outcome Memory Failure Unit} {i : Nat}
      {c : Call} {k : c.Answer → Task Unit} {r : Except Failure c.Answer}
      (ht : ts[i]? = some (.ask c k)) (hr : m.Answers faulty c r m')
      (h : Interleaves faulty (ts.set i (.resume k r)) m' o) : Interleaves faulty ts m o

theorem Interleaves.mono {faulty faulty' : Prop} (hfaulty : faulty → faulty')
    {ts : List (Task Unit)} {m : Memory} {o : Outcome Memory Failure Unit}
    (h : Interleaves faulty ts m o) : Interleaves faulty' ts m o := by
  induction h with
  | ended h => exact .ended h
  | failed h => exact .failed h
  | tell ht _ ih => exact .tell ht ih
  | ask ht hr _ ih => exact .ask ht (hr.mono hfaulty) ih

/-- Stores that answer calls as those in memory do, or refuse them. -/
structure Stores (σ : Type) where
  backend : Backend σ
  /-- What is stored. -/
  contents : σ → Memory
  /-- No call is refused from now on. -/
  Steady : σ → Prop
  answers : ∀ s c, (contents s).Answers (¬ Steady s) c (backend.answer s c).1
    (contents (backend.answer s c).2)
  steady_answer : ∀ {s} c, Steady s → Steady (backend.answer s c).2

/-- Stores with a way to work off branches. -/
structure Service (σ : Type) extends Stores σ where
  fan : FanOut σ
  interleaves : ∀ ts s, Interleaves (¬ Steady s) ts (contents s) ((fan ts s).mapState contents)
  steady_fan : ∀ ts {s}, Steady s → Steady (fan ts s).state

namespace Stores

variable (v : Stores σ)

theorem steady_run (t : Task α) {s : σ} (h : v.Steady s) : v.Steady (t.run v.backend s).state := by
  induction t generalizing s with
  | done a => exact h
  | fail f => exact h
  | tell x t ih => exact ih h
  | ask c k ih =>
    have hs := v.steady_answer c h
    rw [Task.run]
    split
    · next heq =>
      rw [heq] at hs
      exact ih _ hs
    · next heq =>
      rw [heq] at hs
      exact hs

/-- A call that stores in memory answer is answered in the same way or refused. -/
theorem answer_cases {s : σ} {m m' : Memory} (hs : v.contents s = m) {c : Call} {r : c.Answer}
    (hc : m.answer c = (.ok r, m')) :
    (∃ s', v.backend.answer s c = (.ok r, s') ∧ v.contents s' = m' ∧
      (v.Steady s → v.Steady s')) ∨
    (∃ f s', v.backend.answer s c = (.error f, s') ∧ ¬ v.Steady s ∧ v.contents s' = m) := by
  have hans := v.answers s c
  have hsteady := v.steady_answer (s := s) c
  rw [hs] at hans
  revert hans hsteady
  obtain ⟨r', s'⟩ := v.backend.answer s c
  intro hans hsteady
  rcases hans with heq | ⟨hfaulty, ⟨f, rfl⟩, hm⟩
  · rw [hc] at heq
    obtain ⟨rfl, hm⟩ := Prod.mk.inj heq
    exact .inl ⟨s', rfl, hm, hsteady⟩
  · exact .inr ⟨f, s', rfl, hfaulty, hm⟩

/-- A task whose only write comes last is done, or a call was refused and everything is as it
was. -/
theorem run_of_writesLast {t : Task α} {xs : List Signal} {a : α} {m m' : Memory}
    (h : t.WritesLast m xs a m') {s : σ} (hs : v.contents s = m) :
    ((t.run v.backend s).result = .ok a ∧ v.contents (t.run v.backend s).state = m' ∧
      (t.run v.backend s).signals = xs) ∨
    (¬ v.Steady s ∧ (∃ f, (t.run v.backend s).result = .error f) ∧
      v.contents (t.run v.backend s).state = m ∧ (t.run v.backend s).signals <+: xs) := by
  induction h generalizing s with
  | done a => exact .inl ⟨rfl, hs, rfl⟩
  | @tell _ x t xs a _ ih =>
    rcases ih hs with ⟨hr, hm, hx⟩ | ⟨hfaulty, hr, hm, hx⟩
    · refine .inl ⟨hr, hm, ?_⟩
      rw [Task.run, Outcome.after, hx, List.singleton_append]
    · refine .inr ⟨hfaulty, hr, hm, ?_⟩
      rw [Task.run, Outcome.after, List.singleton_append]
      exact List.prefix_cons_inj x |>.mpr hx
  | read hc _ ih =>
    rw [Task.run]
    rcases v.answer_cases hs hc with ⟨s', heq, hs', hsteady⟩ | ⟨f, s', heq, hfaulty, hm⟩
    · rw [heq]
      exact (ih hs').imp_right fun h => ⟨fun hst => h.1 (hsteady hst), h.2⟩
    · rw [heq]
      exact .inr ⟨hfaulty, ⟨f, rfl⟩, hm, List.nil_prefix⟩
  | write hc hk =>
    rw [Task.run]
    rcases v.answer_cases hs hc with ⟨s', heq, hs', -⟩ | ⟨f, s', heq, hfaulty, hm⟩
    · rw [heq]
      simp only [hk, Task.run_telling]
      exact .inl ⟨trivial, hs', trivial⟩
    · rw [heq]
      exact .inr ⟨hfaulty, ⟨f, rfl⟩, hm, List.nil_prefix⟩

end Stores

/-! ### Branches one after another -/

/-- Turns over stores are turns over what is in them, where calls may be refused. -/
theorem Stores.interleaves (v : Stores σ) {faulty : Prop} {ts : List (Task Unit)} {s : σ}
    {o : Outcome σ Failure Unit} (h : v.backend.Interleaves ts s o)
    (hfaulty : ¬ v.Steady s → faulty) :
    Interleaves faulty ts (v.contents s) (o.mapState v.contents) := by
  induction h with
  | ended h => exact .ended h
  | failed h => exact .failed h
  | tell ht _ ih => exact .tell ht (ih hfaulty)
  | ask ht _ ih =>
    exact .ask ht ((v.answers _ _).mono hfaulty)
      (ih fun h => hfaulty fun hs => h (v.steady_answer _ hs))

theorem Stores.steady_interleaves (v : Stores σ) {ts : List (Task Unit)} {s : σ}
    {o : Outcome σ Failure Unit} (h : v.backend.Interleaves ts s o) (hs : v.Steady s) :
    v.Steady o.state := by
  induction h with
  | ended h => exact hs
  | failed h => exact hs
  | tell ht _ ih => exact ih hs
  | ask ht _ ih => exact ih (v.steady_answer _ hs)

/-- Stores with branches worked off in turns over them, in whatever order. -/
def Stores.withFan (v : Stores σ) (fan : FanOut σ)
    (hfan : ∀ ts s, v.backend.Interleaves ts s (fan ts s)) : Service σ where
  toStores := v
  fan := fan
  interleaves ts s := v.interleaves (hfan ts s) id
  steady_fan ts s h := v.steady_interleaves (hfan ts s) h

/-- Stores with branches worked off one after another. -/
def Stores.oneByOne (v : Stores σ) : Service σ :=
  v.withFan (Tracker.oneByOne v.backend) (v.backend.interleaves_inOrder [] (by simp))

/-- Stores in memory refuse nothing. -/
def Stores.inMemory : Stores Memory where
  backend := Memory.backend
  contents := id
  Steady _ := True
  answers _ _ := .inl rfl
  steady_answer _ _ := trivial

/-- Stores in memory before which calls are refused. -/
def Stores.guarded : Stores (Guarded Memory) where
  backend := Guarded.backend Memory.backend
  contents := Guarded.inner
  Steady s := s.refusals = .none
  answers s c := by
    simp only [Guarded.backend, Guarded.answer]
    split
    · next hcovers =>
      exact .inr ⟨fun hnone => by simp [hnone] at hcovers, ⟨_, rfl⟩, rfl⟩
    · refine .inl ?_
      split <;> rfl
  steady_answer {s} c h := (Guarded.refusals_answer Memory.backend s c).trans h

/-- Stores in memory that answer a number of calls, refuse the next one, and answer again. -/
def Stores.faltering : Stores (Memory × Option Nat) where
  backend := ⟨fun s c =>
    match s with
    | (m, some 0) => (.error (.refused (Refusals.callName c)), (m, none))
    | (m, some (n + 1)) => ((m.answer c).1, ((m.answer c).2, some n))
    | (m, none) => ((m.answer c).1, ((m.answer c).2, none))⟩
  contents := Prod.fst
  Steady s := s.2 = none
  answers := by
    rintro ⟨m, _ | _ | n⟩ c
    · exact .inl rfl
    · exact .inr ⟨nofun, ⟨_, rfl⟩, rfl⟩
    · exact .inl rfl
  steady_answer := by
    rintro ⟨m, _⟩ c rfl
    rfl

end Tracker

end Waybill
