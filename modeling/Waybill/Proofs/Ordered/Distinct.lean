/-!
# Lists without repetitions

What is left of a list when each of its values stands only where it came first.

## Main results

* `eraseDups_concat`: one more value is appended unless it came before.
* `eraseDups_filter`: choosing values and leaving out repetitions can change places.
-/

namespace Waybill

variable {α : Type} [BEq α] [LawfulBEq α]

theorem eraseDups_concat (es : List α) (e : α) :
    (es ++ [e]).eraseDups = if e ∈ es then es.eraseDups else es.eraseDups ++ [e] := by
  rw [List.eraseDups_append, List.removeAll, List.filter_cons, List.filter_nil]
  by_cases he : e ∈ es
  · simp [he]
  · simp [he, List.eraseDups_cons]

theorem eraseDups_filter (p : α → Bool) (es : List α) :
    (es.filter p).eraseDups = es.eraseDups.filter p := by
  -- the induction appends the events at the end, after those that were seen
  have hafter (es : List α) : ∀ ds : List α, (ds.filter p).eraseDups = ds.eraseDups.filter p →
      ((ds ++ es).filter p).eraseDups = (ds ++ es).eraseDups.filter p := by
    induction es with
    | nil =>
      intro ds hds
      rwa [List.append_nil]
    | cons e es ih =>
      intro ds hds
      have hsplit : ds ++ e :: es = (ds ++ [e]) ++ es := by simp
      rw [hsplit]
      refine ih (ds ++ [e]) ?_
      rw [List.filter_append, eraseDups_concat ds]
      by_cases hp : p e = true
      · rw [List.filter_cons_of_pos hp, List.filter_nil, eraseDups_concat, hds]
        by_cases he : e ∈ ds <;> simp [he, hp]
      · rw [List.filter_cons_of_neg hp, List.filter_nil, List.append_nil, hds]
        by_cases he : e ∈ ds <;> simp [he, hp]
  exact hafter es [] rfl

theorem eraseDups_of_nodup {es : List α} (h : es.Nodup) : es.eraseDups = es := by
  induction es with
  | nil => rfl
  | cons e es ih =>
    obtain ⟨he, hes⟩ := List.nodup_cons.mp h
    have hrest : es.filter (fun d => !d == e) = es := by
      refine List.filter_eq_self.mpr fun d hd => ?_
      simp only [Bool.not_eq_true', beq_eq_false_iff_ne]
      rintro rfl
      exact he hd
    rw [List.eraseDups_cons, hrest, ih hes]

end Waybill
