import Waybill.Proofs.Task.Contract
/-!
# What a task may do

A task is a tree that is there before any call is answered, so it can be seen from it which signals
it may tell and which calls it may make. Over whatever stores it is run, and whatever turns it takes
with other tasks, it tells no other signals, and a log of the answered calls holds no other calls.

## Main definitions

* `Task.Confined`: a task tells only some signals, makes only some calls and ends with some values.
* `Call.isPut`: whether a call writes to the pool.
* `Backend.logged`: stores with a log of the calls that they answered.

## Main results

* `Task.Confined.bind`: confined tasks one after another.
* `Task.Confined.run`, `Backend.Interleaves.told`: which signals are told.
* `Backend.run_logged`, `Backend.Interleaves.exists_log`: logging changes nothing of what is done.
* `Task.Confined.run_logged`, `Backend.Interleaves.log`: which calls are logged.
-/

namespace Waybill

/-- Whether a call writes to the pool. -/
def Call.isPut : Call → Bool
  | put _ _ _ => true
  | _ => false

variable {σ α β : Type} {S S' : Signal → Prop} {A A' : Call → Prop} {Q : α → Prop} {R : β → Prop}

namespace Task

/-- Whatever is answered, the signals and the calls of a task are as given, and so is a value that
it ends with. -/
def Confined (S : Signal → Prop) (A : Call → Prop) (Q : α → Prop) : Task α → Prop
  | done a => Q a
  | fail _ => True
  | tell x t => S x ∧ Confined S A Q t
  | ask c k => A c ∧ ∀ a, Confined S A Q (k a)

variable {t : Task α}

theorem Confined.mono (h : t.Confined S A Q) (hS : ∀ x, S x → S' x) (hA : ∀ c, A c → A' c) :
    t.Confined S' A' Q := by
  induction t with
  | done a => exact h
  | fail f => trivial
  | tell x t ih => exact ⟨hS x h.1, ih h.2⟩
  | ask c k ih => exact ⟨hA c h.1, fun a => ih a (h.2 a)⟩

/-- A task goes on with the value of another one. -/
theorem Confined.bind {f : α → Task β} (h : t.Confined S A Q)
    (hf : ∀ a, Q a → (f a).Confined S A R) : (t.bind f).Confined S A R := by
  induction t with
  | done a => exact hf a h
  | fail f => trivial
  | tell x t ih => exact ⟨h.1, ih h.2⟩
  | ask c k ih => exact ⟨h.1, fun a => ih a (h.2 a)⟩

theorem confined_call {c : Call} (h : A c) : (call c).Confined S A fun _ => True :=
  ⟨h, fun _ => trivial⟩

/-- The calls of a confined task keep to a contract that promises nothing of the answers. -/
theorem Confined.meets (h : t.Confined S A Q) :
    t.Meets ⟨A, fun _ _ => True⟩ (fun _ => True) Q := by
  induction t with
  | done a => exact h
  | fail f => trivial
  | tell x t ih => exact ih h.2
  | ask c k ih => exact ⟨h.1, fun a _ => ih a (h.2 a)⟩

theorem Confined.resume {γ : Type} {k : γ → Task α} (h : ∀ a, (k a).Confined S A Q)
    (r : Except Failure γ) : (Task.resume k r).Confined S A Q := by
  cases r with
  | ok a => exact h a
  | error f => trivial

/-- A confined task tells no other signals, and ends with no other value. -/
theorem Confined.run (h : t.Confined S A Q) (b : Backend σ) (s : σ) :
    (∀ x ∈ (t.run b s).signals, S x) ∧ ∀ a, (t.run b s).result = .ok a → Q a := by
  induction t generalizing s with
  | done a => exact ⟨List.forall_mem_nil _, fun _ ha => Except.ok.inj ha ▸ h⟩
  | fail f => exact ⟨List.forall_mem_nil _, fun _ ha => by cases ha⟩
  | tell x t ih => exact ⟨List.forall_mem_cons.mpr ⟨h.1, (ih h.2 s).1⟩, (ih h.2 s).2⟩
  | ask c k ih =>
    rw [Task.run]
    split
    · exact ih _ (h.2 _) _
    · exact ⟨List.forall_mem_nil _, fun _ ha => by cases ha⟩

end Task

namespace Backend

/-- Confined tasks that are worked off in turns tell no other signals. -/
theorem Interleaves.told {b : Backend σ} {ts : List (Task Unit)} {s : σ}
    {o : Outcome σ Failure Unit} (h : b.Interleaves ts s o)
    (hts : ∀ t ∈ ts, t.Confined S A fun _ => True) : ∀ x ∈ o.signals, S x := by
  induction h with
  | ended _ => exact List.forall_mem_nil _
  | failed _ => exact List.forall_mem_nil _
  | tell ht _ ih =>
    have htold := hts _ (List.mem_of_getElem? ht)
    refine List.forall_mem_cons.mpr ⟨htold.1, ih fun u hu => ?_⟩
    rcases List.mem_or_eq_of_mem_set hu with hu | rfl
    · exact hts u hu
    · exact htold.2
  | ask ht _ ih =>
    have hasked := hts _ (List.mem_of_getElem? ht)
    refine ih fun u hu => ?_
    rcases List.mem_or_eq_of_mem_set hu with hu | rfl
    · exact hts u hu
    · exact Task.Confined.resume hasked.2 _

/-! ### The log of the calls -/

/-- Stores with a log of the calls that they answered, in their order. A call that fails is not
logged. -/
def logged (b : Backend σ) : Backend (σ × List Call) where
  answer s c :=
    let answered := b.answer s.1 c
    (answered.1, answered.2, match answered.1 with
      | .ok _ => s.2 ++ [c]
      | .error _ => s.2)

theorem logged_answer_of_ok {b : Backend σ} {s s' : σ} {c : Call} {a : c.Answer}
    (h : b.answer s c = (.ok a, s')) (log : List Call) :
    b.logged.answer (s, log) c = (.ok a, s', log ++ [c]) := by
  simp only [logged, h]

theorem logged_answer_of_error {b : Backend σ} {s s' : σ} {c : Call} {f : Failure}
    (h : b.answer s c = (.error f, s')) (log : List Call) :
    b.logged.answer (s, log) c = (.error f, s', log) := by
  simp only [logged, h]

/-- Logging changes nothing of what a task does. -/
theorem run_logged (b : Backend σ) (t : Task α) (s : σ) (log : List Call) :
    t.run b s = ⟨(t.run b.logged (s, log)).result, (t.run b.logged (s, log)).state.1,
      (t.run b.logged (s, log)).signals⟩ := by
  induction t generalizing s log with
  | done a => rfl
  | fail f => rfl
  | tell x t ih =>
    rw [Task.run, ih s log]
    rfl
  | ask c k ih =>
    rcases h : b.answer s c with ⟨f | a, s'⟩
    · rw [Task.run, Task.run, h, logged_answer_of_error h]
    · rw [Task.run, Task.run, h, logged_answer_of_ok h]
      exact ih a s' _

/-- A log goes on with calls of a kind. -/
def LogsOnly (A : Call → Prop) (log : List Call) (s : σ × List Call) : Prop :=
  ∃ cs, s.2 = log ++ cs ∧ ∀ c ∈ cs, A c

theorem logsOnly_refl (A : Call → Prop) (s : σ × List Call) : LogsOnly A s.2 s :=
  ⟨[], (List.append_nil _).symm, List.forall_mem_nil _⟩

/-- Whatever is answered, a call is all that can be new in a log. -/
theorem honours_logged (b : Backend σ) (A : Call → Prop) (log : List Call) :
    b.logged.Honours ⟨A, fun _ _ => True⟩ (LogsOnly A log) (fun _ => True) := by
  rintro s c ⟨cs, hcs, hA⟩ hc
  refine ⟨?_, fun _ _ => trivial, fun _ _ => trivial⟩
  simp only [LogsOnly, logged]
  split
  · refine ⟨cs ++ [c], by rw [hcs, List.append_assoc], fun d hd => ?_⟩
    rcases List.mem_append.mp hd with hd | hd
    · exact hA d hd
    · exact List.mem_singleton.mp hd ▸ hc
  · exact ⟨cs, hcs, hA⟩

variable {b : Backend σ}

/-- Confined tasks that are worked off in turns make no other calls. -/
theorem Interleaves.log {ts : List (Task Unit)} {s : σ × List Call}
    {o : Outcome (σ × List Call) Failure Unit} (h : b.logged.Interleaves ts s o)
    (hts : ∀ t ∈ ts, t.Confined S A fun _ => True) : LogsOnly A s.2 o.state :=
  ((b.honours_logged A s.2).interleaves h (fun t ht => (hts t ht).meets) (logsOnly_refl A s)).state

/-- Whatever turns are taken, the same turns can be logged. -/
theorem Interleaves.exists_log {ts : List (Task Unit)} {s : σ} {o : Outcome σ Failure Unit}
    (h : b.Interleaves ts s o) (log : List Call) :
    ∃ log', b.logged.Interleaves ts (s, log) ⟨o.result, (o.state, log'), o.signals⟩ := by
  induction h generalizing log with
  | ended h => exact ⟨log, .ended h⟩
  | failed h => exact ⟨log, .failed h⟩
  | tell ht _ ih =>
    obtain ⟨log', h⟩ := ih log
    exact ⟨log', .tell ht h⟩
  | @ask _ s _ _ c _ ht _ ih =>
    obtain ⟨log', h⟩ := ih (b.logged.answer (s, log) c).2.2
    exact ⟨log', .ask ht h⟩

end Backend

/-- A confined task makes no other calls. -/
theorem Task.Confined.run_logged {t : Task α} (h : t.Confined S A Q) (b : Backend σ)
    (s : σ × List Call) : Backend.LogsOnly A s.2 (t.run b.logged s).state :=
  ((b.honours_logged A s.2).run h.meets (Backend.logsOnly_refl A s)).state

end Waybill
