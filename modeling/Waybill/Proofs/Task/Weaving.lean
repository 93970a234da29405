import Mathlib.Data.List.Perm.Basic
/-!
# Woven lists

Several tellers who talk at the same time are heard as one list. It is woven from what each of them
says: each keeps to its own order, and each may be cut off before its end. Whoever listens only to
what a single one of them says hears a first part of it.

## Main definitions

* `Woven`: a list is woven from the fronts of several lists.

## Main results

* `Woven.perm`: nothing is lost and nothing is added.
* `Woven.filterMap_eq`: what a single list is responsible for is heard in its order.
-/

namespace Waybill

variable {α β : Type}

/-- A list is woven from the fronts of several lists, of which the last ones are left. -/
inductive Woven : List (List α) → List α → List (List α) → Prop
  | stop (xss : List (List α)) : Woven xss [] xss
  | next {xss zss : List (List α)} {ys xs : List α} {i : Nat} {x : α}
      (hi : xss[i]? = some (x :: xs)) (h : Woven (xss.set i xs) ys zss) : Woven xss (x :: ys) zss

theorem perm_flatten_set {xss : List (List α)} {i : Nat} {x : α} {xs : List α}
    (hi : xss[i]? = some (x :: xs)) : (x :: (xss.set i xs).flatten).Perm xss.flatten := by
  induction xss generalizing i with
  | nil => simp at hi
  | cons zs xss ih =>
    cases i with
    | zero =>
      rw [List.getElem?_cons_zero, Option.some.injEq] at hi
      subst hi
      exact .refl _
    | succ i =>
      rw [List.getElem?_cons_succ] at hi
      rw [List.set_cons_succ, List.flatten_cons, List.flatten_cons]
      exact (List.perm_middle.symm).trans ((ih hi).append_left zs)

namespace Woven

variable {xss zss : List (List α)} {xs ys : List α}

/-- What is woven and what is left is all that there was. -/
theorem perm (h : Woven xss ys zss) : (ys ++ zss.flatten).Perm xss.flatten := by
  induction h with
  | stop xss => exact .refl _
  | next hi _ ih => exact (ih.cons _).trans (perm_flatten_set hi)

/-- Where nothing is left, all is woven. -/
theorem perm_of_done (h : Woven xss ys zss) (hdone : ∀ zs ∈ zss, zs = []) :
    ys.Perm xss.flatten := by
  have hperm := h.perm
  rwa [List.flatten_eq_nil_iff.mpr hdone, List.append_nil] at hperm

theorem exists_mem (h : Woven xss ys zss) {y : α} (hy : y ∈ ys) : ∃ xs ∈ xss, y ∈ xs :=
  List.mem_flatten.mp (h.perm.subset (List.mem_append_left _ hy))

/-- Of what no list is responsible for nothing is heard. -/
theorem filterMap_eq_nil (h : Woven xss ys zss) {f : α → Option β}
    (hf : ∀ xs ∈ xss, xs.filterMap f = []) : ys.filterMap f = [] := by
  rw [List.filterMap_eq_nil_iff]
  intro y hy
  obtain ⟨xs, hxs, hmem⟩ := h.exists_mem hy
  exact List.filterMap_eq_nil_iff.mp (hf xs hxs) y hmem

/-- What a single list is responsible for is heard in its order, and what is not heard is left. -/
theorem filterMap_eq (h : Woven xss ys zss) {f : α → Option β} {i : Nat} (hi : xss[i]? = some xs)
    (hother : ∀ {j vs}, j ≠ i → xss[j]? = some vs → vs.filterMap f = []) :
    ∃ zs, zss[i]? = some zs ∧ xs.filterMap f = ys.filterMap f ++ zs.filterMap f := by
  induction h generalizing xs with
  | stop xss => exact ⟨xs, hi, rfl⟩
  | @next xss zss ys us j x hj _ ih =>
    by_cases hij : j = i
    · -- the list itself goes on
      subst hij
      obtain rfl := Option.some.inj (hi.symm.trans hj)
      have hnext : (xss.set j us)[j]? = some us :=
        List.getElem?_set_self (List.getElem?_eq_some_iff.mp hj).1
      obtain ⟨zs, hzs, heq⟩ := ih hnext fun {k vs} hk hvs =>
        hother hk ((List.getElem?_set_ne hk.symm).symm.trans hvs)
      refine ⟨zs, hzs, ?_⟩
      rw [List.filterMap_cons, List.filterMap_cons, heq]
      cases f x <;> rfl
    · -- another list goes on, and nothing is heard
      have hsilent := hother hij hj
      obtain ⟨hx, hus⟩ : f x = none ∧ us.filterMap f = [] := by
        simpa [List.filterMap_eq_nil_iff] using hsilent
      have hnext : (xss.set j us)[i]? = some xs := (List.getElem?_set_ne hij).trans hi
      obtain ⟨zs, hzs, heq⟩ := ih hnext fun {k vs} hk hvs => by
        by_cases hjk : j = k
        · subst hjk
          rw [List.getElem?_set_self (List.getElem?_eq_some_iff.mp hj).1] at hvs
          exact Option.some.inj hvs ▸ hus
        · exact hother hk ((List.getElem?_set_ne hjk).symm.trans hvs)
      exact ⟨zs, hzs, by rw [List.filterMap_cons, hx, heq]⟩

end Woven

end Waybill
