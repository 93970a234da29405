import Waybill.Store.Memory
/-!
# The course of a task

Over stores in memory a task takes one course. Two kinds of courses matter: those on which nothing
is done but signals told and the pool read, and those whose only write comes last. Of the second
kind a call that fails can only leave nothing or everything undone.

## Main definitions

* `Task.Leads`: a task comes to what is left of it by telling signals and reading the pool.
* `Task.WritesLast`: a task ends with a value, its only write being its last call.

## Main results

* `Task.WritesLast.bind`, `Task.Leads.bind`: courses of tasks one after another.
* `Task.WritesLast.run`: a course is what a run over stores in memory is.
-/

namespace Waybill.Task

variable {α β : Type}

/-- A task that only tells signals and ends with a value. -/
def telling (xs : List Signal) (a : α) : Task α := xs.foldr tell (done a)

@[simp] theorem telling_cons (x : Signal) (xs : List Signal) (a : α) :
    telling (x :: xs) a = tell x (telling xs a) := rfl

theorem telling_bind (xs : List Signal) (a : α) (f : α → Task β) :
    (telling xs a).bind f = xs.foldr tell (f a) := by
  induction xs with
  | nil => rfl
  | cons x xs ih =>
    rw [telling_cons, bind, ih]
    rfl

theorem run_telling {σ : Type} (b : Backend σ) (xs : List Signal) (a : α) (s : σ) :
    (telling xs a).run b s = ⟨.ok a, s, xs⟩ := by
  induction xs with
  | nil => rfl
  | cons x xs ih => rw [telling_cons, run, ih, Outcome.after, List.singleton_append]

/-! ### Telling and reading the pool -/

/-- Over a pool, a task tells these signals and reads, and comes to what is left of it. -/
inductive Leads (pool : SortedMap (String × String) String) :
    Task α → List Signal → Task α → Prop
  | here (t : Task α) : Leads pool t [] t
  | tell {x : Signal} {t u : Task α} {xs : List Signal} (h : Leads pool t xs u) :
      Leads pool (.tell x t) (x :: xs) u
  | get {bucket key : String} {k : Option String → Task α} {u : Task α} {xs : List Signal}
      (h : Leads pool (k (pool.find? (bucket, key))) xs u) :
      Leads pool (.ask (.get bucket key) k) xs u

namespace Leads

variable {pool : SortedMap (String × String) String} {t u : Task α} {xs ys : List Signal}

/-- A task goes on with the value of another one. -/
theorem bind {a : α} {f : α → Task β} {v : Task β} (h : Leads pool t xs (.done a))
    (hf : Leads pool (f a) ys v) : Leads pool (t.bind f) (xs ++ ys) v := by
  generalize hu : Task.done a = u at h
  induction h with
  | here t =>
    subst hu
    exact hf
  | tell _ ih => exact .tell (ih hu)
  | get _ ih => exact .get (ih hu)

theorem bind_nil {a : α} {f : α → Task β} {v : Task β} (h : Leads pool t [] (.done a))
    (hf : Leads pool (f a) ys v) : Leads pool (t.bind f) ys v :=
  h.bind hf

end Leads

/-! ### One write at the end -/

/-- Over stores in memory, a task tells these signals and ends with a value and new contents of the
stores, and no call but its last one changes them. -/
inductive WritesLast : Memory → Task α → List Signal → α → Memory → Prop
  | done (m : Memory) (a : α) : WritesLast m (.done a) [] a m
  | tell {m m' : Memory} {x : Signal} {t : Task α} {xs : List Signal} {a : α}
      (h : WritesLast m t xs a m') : WritesLast m (.tell x t) (x :: xs) a m'
  | read {m m' : Memory} {c : Call} {r : c.Answer} {k : c.Answer → Task α} {xs : List Signal}
      {a : α} (hc : m.answer c = (.ok r, m)) (h : WritesLast m (k r) xs a m') :
      WritesLast m (.ask c k) xs a m'
  | write {m m' : Memory} {c : Call} {r : c.Answer} {k : c.Answer → Task α} {xs : List Signal}
      {a : α} (hc : m.answer c = (.ok r, m')) (hk : k r = telling xs a) :
      WritesLast m (.ask c k) xs a m'

namespace WritesLast

variable {m m' : Memory} {t : Task α} {xs ys : List Signal} {a : α} {b : β}

theorem foldr_tell (xs : List Signal) (h : WritesLast m t ys a m') :
    WritesLast m (xs.foldr Task.tell t) (xs ++ ys) a m' := by
  induction xs with
  | nil => exact h
  | cons x xs ih => exact .tell ih

theorem of_telling (m : Memory) (xs : List Signal) (a : α) : WritesLast m (telling xs a) xs a m := by
  have h := foldr_tell xs (.done m a)
  rwa [List.append_nil] at h

-- the contents before and after are told apart for the induction
private theorem bind_of_eq {m₁ : Memory} {f : α → Task β} (h : WritesLast m t xs a m₁)
    (hm : m₁ = m) (hf : WritesLast m (f a) ys b m') :
    WritesLast m (t.bind f) (xs ++ ys) b m' := by
  induction h with
  | done a => exact hf
  | tell _ ih => exact .tell (ih hm hf)
  | read hc _ ih => exact .read hc (ih hm hf)
  | write hc hk =>
    subst hm
    refine .read hc ?_
    rw [hk, telling_bind]
    exact foldr_tell _ hf

/-- After a task that leaves the stores as they are, another one goes on. -/
theorem bind {f : α → Task β} (h : WritesLast m t xs a m) (hf : WritesLast m (f a) ys b m') :
    WritesLast m (t.bind f) (xs ++ ys) b m' :=
  bind_of_eq h rfl hf

theorem bind_nil {f : α → Task β} (h : WritesLast m t [] a m) (hf : WritesLast m (f a) ys b m') :
    WritesLast m (t.bind f) ys b m' :=
  h.bind hf

/-- After its write a task may still tell signals. -/
theorem bind_telling {f : α → Task β} (h : WritesLast m t xs a m') (ys : List Signal)
    (hf : f a = telling ys b) :
    WritesLast m (t.bind f) (xs ++ ys) b m' := by
  induction h with
  | done a =>
    rw [Task.bind, hf]
    exact of_telling _ _ _
  | tell _ ih => exact .tell (ih hf)
  | read hc _ ih => exact .read hc (ih hf)
  | write hc hk =>
    refine .write hc ?_
    rw [hk, telling_bind, hf, telling, telling, List.foldr_append]

end WritesLast

/-- What is led to over the pool may still write. -/
theorem Leads.writesLast {m m' : Memory} {t u : Task α} {xs ys : List Signal} {a : α}
    (h : Leads m.pool t xs u) (hu : WritesLast m u ys a m') : WritesLast m t (xs ++ ys) a m' := by
  induction h with
  | here t => exact hu
  | tell _ ih => exact .tell (ih hu)
  | get _ ih => exact .read rfl (ih hu)

/-- A task that only tells signals and reads the pool leaves the stores as they are. -/
theorem Leads.reads {m : Memory} {t : Task α} {xs : List Signal} {a : α}
    (h : Leads m.pool t xs (.done a)) : WritesLast m t xs a m := by
  have hwrites := h.writesLast (.done m a)
  rwa [List.append_nil] at hwrites

/-- A task whose only write comes last runs to its end. -/
theorem WritesLast.run {m m' : Memory} {t : Task α} {xs : List Signal} {a : α}
    (h : WritesLast m t xs a m') : t.run Memory.backend m = ⟨.ok a, m', xs⟩ := by
  have hstep {m₁ m₂ : Memory} {c : Call} {r : c.Answer} {k : c.Answer → Task α}
      (hc : m₁.answer c = (.ok r, m₂)) :
      (ask c k).run Memory.backend m₁ = (k r).run Memory.backend m₂ := by
    rw [Task.run, show Memory.backend.answer m₁ c = _ from hc]
  induction h with
  | done a => rfl
  | tell _ ih => rw [Task.run, ih, Outcome.after, List.singleton_append]
  | read hc _ ih => rw [hstep hc, ih]
  | write hc hk => rw [hstep hc, hk, run_telling]

end Waybill.Task
