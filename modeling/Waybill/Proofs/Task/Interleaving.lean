import Mathlib.Data.List.Perm.Basic
import Waybill.Task.Run
/-!
# Tasks in turns

Tasks over the same stores are worked off in turns of single signals and calls. Whatever order the
turns have, a failing task may cut the work short.

## Main definitions

* `Task.resume`: a task goes on after an answer.
* `Backend.Interleaves`: tasks worked off in turns over a backend.

## Main results

* `Backend.Interleaves.perm`: the order in which tasks stand does not matter.
* `Backend.interleaves_inOrder`: one after another is one way to take turns.
-/

namespace Waybill

variable {σ α β : Type}

/-- Goes on after the answer to a call. -/
def Task.resume (k : β → Task α) : Except Failure β → Task α
  | .ok a => k a
  | .error f => .fail f

namespace Task

theorem set_length_append (ds : List (Task Unit)) (t u : Task Unit) (ts : List (Task Unit)) :
    (ds ++ t :: ts).set ds.length u = ds ++ u :: ts := by
  rw [List.set_append_right _ _ (Nat.le_refl _), Nat.sub_self, List.set_cons_zero]

theorem set_of_getElem? {ts : List (Task Unit)} {i : Nat} {t : Task Unit}
    (ht : ts[i]? = some t) : ts.set i t = ts := by
  obtain ⟨hi, rfl⟩ := List.getElem?_eq_some_iff.mp ht
  exact List.set_getElem_self hi

theorem getElem?_set {ts : List (Task Unit)} {i : Nat} {t : Task Unit} (ht : ts[i]? = some t)
    (u : Task Unit) : (ts.set i u)[i]? = some u :=
  List.getElem?_set_self (List.getElem?_eq_some_iff.mp ht).1

/-- A task has a place in every order of the tasks, where it can be replaced. -/
theorem exists_set_perm {us ts : List (Task Unit)} (h : us.Perm ts) {i : Nat} {t : Task Unit}
    (hi : us[i]? = some t) : ∃ j, ts[j]? = some t ∧ ∀ t', (us.set i t').Perm (ts.set j t') := by
  obtain ⟨j, hj⟩ := List.getElem?_of_mem (h.subset (List.mem_of_getElem? hi))
  refine ⟨j, hj, fun t' => ?_⟩
  obtain ⟨hlt, rfl⟩ := List.getElem?_eq_some_iff.mp hi
  obtain ⟨hlt', heq⟩ := List.getElem?_eq_some_iff.mp hj
  have hrest : (us.eraseIdx i).Perm (ts.eraseIdx j) := by
    refine ((List.getElem_cons_eraseIdx_perm hlt).trans (h.trans ?_)).cons_inv
    rw [← heq]
    exact (List.getElem_cons_eraseIdx_perm hlt').symm
  exact (List.set_perm_cons_eraseIdx hlt t').trans
    ((hrest.cons t').trans (List.set_perm_cons_eraseIdx hlt' t').symm)

theorem getElem?_length_append (ds : List (Task Unit)) (t : Task Unit) (ts : List (Task Unit)) :
    (ds ++ t :: ts)[ds.length]? = some t := by
  rw [List.getElem?_append_right (Nat.le_refl _), Nat.sub_self, List.getElem?_cons_zero]

end Task

namespace Backend

/-- Tasks are worked off in turns of single signals and calls. They are over when all of them are,
and may be broken off as soon as one of them has failed. -/
inductive Interleaves (b : Backend σ) :
    List (Task Unit) → σ → Outcome σ Failure Unit → Prop
  | ended {ts : List (Task Unit)} {s : σ} (h : ∀ t ∈ ts, t = .done ()) :
      Interleaves b ts s ⟨.ok (), s, []⟩
  | failed {ts : List (Task Unit)} {s : σ} {f : Failure} (h : .fail f ∈ ts) :
      Interleaves b ts s ⟨.error f, s, []⟩
  | tell {ts : List (Task Unit)} {s : σ} {o : Outcome σ Failure Unit} {i : Nat} {x : Signal}
      {t : Task Unit} (ht : ts[i]? = some (.tell x t)) (h : Interleaves b (ts.set i t) s o) :
      Interleaves b ts s (o.after [x])
  | ask {ts : List (Task Unit)} {s : σ} {o : Outcome σ Failure Unit} {i : Nat} {c : Call}
      {k : c.Answer → Task Unit} (ht : ts[i]? = some (.ask c k))
      (h : Interleaves b (ts.set i (.resume k (b.answer s c).1)) (b.answer s c).2 o) :
      Interleaves b ts s o

variable {b : Backend σ}

/-- Tasks in turns may stand in any order. -/
theorem Interleaves.perm {us ts : List (Task Unit)} {s : σ} {o : Outcome σ Failure Unit}
    (h : b.Interleaves us s o) (hperm : us.Perm ts) : b.Interleaves ts s o := by
  induction h generalizing ts with
  | ended hdone => exact .ended fun t ht => hdone t (hperm.mem_iff.mpr ht)
  | failed hf => exact .failed (hperm.mem_iff.mp hf)
  | tell hi _ ih =>
    obtain ⟨j, hj, hset⟩ := Task.exists_set_perm hperm hi
    exact .tell hj (ih (hset _))
  | ask hi _ ih =>
    obtain ⟨j, hj, hset⟩ := Task.exists_set_perm hperm hi
    exact .ask hj (ih (hset _))

/-- Going on with one task to its end, and with others after it, is one way to take turns. -/
theorem Interleaves.inOrder_cons {ds ts : List (Task Unit)} (t : Task Unit) {s : σ}
    (hrest : ∀ s', b.Interleaves (ds ++ .done () :: ts) s' ((Task.inOrder ts).run b s')) :
    b.Interleaves (ds ++ t :: ts) s ((Task.inOrder (t :: ts)).run b s) := by
  induction t generalizing s with
  | done a => exact hrest s
  | fail f => exact .failed (by simp)
  | tell x t ih =>
    change b.Interleaves _ _ (((Task.inOrder (t :: ts)).run b s).after [x])
    refine .tell (Task.getElem?_length_append ds (.tell x t) ts) ?_
    rw [Task.set_length_append]
    exact ih
  | ask c k ih =>
    refine .ask (Task.getElem?_length_append ds (.ask c k) ts) ?_
    rw [Task.set_length_append, Task.inOrder, Task.bind, Task.run]
    obtain ⟨r, s'⟩ := b.answer s c
    cases r with
    | ok a => exact ih a
    | error f => exact .failed (by simp [Task.resume])

/-- Working tasks off one after another is one way to take turns. -/
theorem interleaves_inOrder (b : Backend σ) (ds : List (Task Unit)) (hds : ∀ d ∈ ds, d = .done ())
    (ts : List (Task Unit)) (s : σ) :
    b.Interleaves (ds ++ ts) s ((Task.inOrder ts).run b s) := by
  induction ts generalizing ds s with
  | nil =>
    rw [List.append_nil]
    exact .ended hds
  | cons t ts ih =>
    refine Interleaves.inOrder_cons t fun s' => ?_
    have hdone : ∀ d ∈ ds ++ [.done ()], d = .done () := by
      intro d hd
      rcases List.mem_append.mp hd with hd | hd
      · exact hds d hd
      · exact List.mem_singleton.mp hd
    have hrest := ih _ hdone s'
    rwa [List.append_assoc, List.singleton_append] at hrest

end Backend

end Waybill
