import Waybill.Task.Basic
/-!
# Running tasks

A backend answers calls over a state. Running a task over it gives the value or the failure, the
new state, and the signals in the order in which they were told. A failing call ends the task.
-/

namespace Waybill

/-- Stores that answer calls over a state. -/
structure Backend (σ : Type) where
  answer : σ → (c : Call) → Except Failure c.Answer × σ

/-- How a run ended. -/
structure Outcome (σ ε α : Type) where
  result : Except ε α
  state : σ
  signals : List Signal

namespace Outcome

variable {σ ε α : Type}

/-- The outcome after further signals were told before it. -/
def after (signals : List Signal) (o : Outcome σ ε α) : Outcome σ ε α :=
  { o with signals := signals ++ o.signals }

@[simp] theorem after_nil (o : Outcome σ ε α) : o.after [] = o := rfl

@[simp] theorem after_after (xs ys : List Signal) (o : Outcome σ ε α) :
    (o.after ys).after xs = o.after (xs ++ ys) := by
  simp [after]

end Outcome

namespace Task

variable {σ α β : Type}

/-- Runs a task to its end. -/
def run (b : Backend σ) : Task α → σ → Outcome σ Failure α
  | done a, s => ⟨.ok a, s, []⟩
  | fail e, s => ⟨.error e, s, []⟩
  | tell x t, s => (t.run b s).after [x]
  | ask c k, s =>
    match b.answer s c with
    | (.ok a, s) => (k a).run b s
    | (.error e, s) => ⟨.error e, s, []⟩

theorem run_bind (b : Backend σ) (t : Task α) (f : α → Task β) (s : σ) :
    (t.bind f).run b s =
      match (t.run b s).result with
      | .ok a => ((f a).run b (t.run b s).state).after (t.run b s).signals
      | .error e => ⟨.error e, (t.run b s).state, (t.run b s).signals⟩ := by
  induction t generalizing s with
  | done a => rfl
  | fail e => rfl
  | tell x t ih =>
    simp only [bind, run, ih, Outcome.after]
    split <;> rfl
  | ask c k ih =>
    simp only [bind, run]
    cases b.answer s c with
    | mk r s' => cases r with
      | ok a => exact ih a s'
      | error e => rfl

end Task

end Waybill
