import Mathlib.Data.List.Nodup
import Mathlib.Data.List.Perm.Basic
import Waybill.Proofs.Store.Engine
import Waybill.Store.Database
/-!
# Tables as lists do what is documented

Keeping the rows in lists is one way to do what is documented of an engine. The row that is found is
the first one, rows come in the order in which they were added, and no text is too much for a list.

## Main results

* `Row.sortByHash_perm`, `Row.inOrder_sortByHash`: rows are put in the order of their hashes.
* `Database.store_perm`: a row is put over the one with its key.
* `Database.manual`: what is documented of the lists.
-/

namespace Waybill

namespace Row

/-! ### The order of hashes -/

theorem insertByHash_perm (row : Row) (rows : List Row) :
    (insertByHash row rows).Perm (row :: rows) := by
  induction rows with
  | nil => exact .refl _
  | cons r rows ih =>
    rw [insertByHash]
    split
    · exact (ih.cons r).trans (.swap row r rows)
    · exact .refl _

theorem sortByHash_perm (rows : List Row) : (sortByHash rows).Perm rows := by
  induction rows with
  | nil => exact .refl _
  | cons r rows ih => exact (insertByHash_perm r _).trans (ih.cons r)

theorem inOrder_insertByHash {row : Row} {rows : List Row} (h : Tables.InOrder rows)
    (hnew : row.messageHash ∉ rows.map Row.messageHash) :
    Tables.InOrder (insertByHash row rows) := by
  induction rows with
  | nil => exact List.pairwise_singleton _ _
  | cons r rows ih =>
    obtain ⟨hr, hrows⟩ := List.pairwise_cons.mp h
    rw [List.map_cons, List.mem_cons, not_or] at hnew
    rw [insertByHash]
    split
    · next hbefore =>
      refine List.pairwise_cons.mpr ⟨fun x hx => ?_, ih hrows hnew.2⟩
      rcases List.mem_cons.mp ((insertByHash_perm row rows).mem_iff.mp hx) with rfl | hx
      · exact hbefore
      · exact hr x hx
    · next hbefore =>
      have hrow : OrderedKey.before row.messageHash r.messageHash = true := by
        by_contra hnot
        exact hnew.1 (OrderedKey.eq_of_not_before (by simpa using hnot) (by simpa using hbefore))
      refine List.pairwise_cons.mpr ⟨fun x hx => ?_, h⟩
      rcases List.mem_cons.mp hx with rfl | hx
      · exact hrow
      · exact OrderedKey.before_trans hrow (hr x hx)

/-- Rows of different hashes are put in the order of their hashes. -/
theorem inOrder_sortByHash {rows : List Row} (h : (rows.map Row.messageHash).Nodup) :
    Tables.InOrder (sortByHash rows) := by
  induction rows with
  | nil => exact .nil
  | cons r rows ih =>
    obtain ⟨hr, hrows⟩ := List.nodup_cons.mp h
    refine inOrder_insertByHash (ih hrows) fun hmem => hr ?_
    exact ((sortByHash_perm rows).map _).mem_iff.mp hmem

end Row

namespace Database

/-! ### Storing rows -/

section Store

variable {ρ κ : Type} [DecidableEq κ] {key : ρ → κ} (row : ρ) {rows : List ρ}

/-- A row takes the place of the one with its key. -/
theorem store_perm (h : (rows.map key).Nodup) :
    (store key row rows).Perm (row :: rows.filter fun r => key r ≠ key row) := by
  induction rows with
  | nil => exact .refl _
  | cons r rows ih =>
    obtain ⟨hr, hrows⟩ := List.nodup_cons.mp h
    rw [store]
    by_cases hsame : key r = key row
    · have hothers : ∀ x ∈ rows, key x ≠ key row := fun x hx heq =>
        hr (hsame.trans heq.symm ▸ List.mem_map_of_mem hx)
      rw [if_pos hsame, List.filter_cons_of_neg (by simpa using hsame),
        List.filter_eq_self.mpr fun x hx => by simpa using hothers x hx]
    · rw [if_neg hsame, List.filter_cons_of_pos (by simpa using hsame)]
      exact ((ih hrows).cons r).trans (.swap row r _)

/-- Keys stay different. -/
theorem nodup_store (h : (rows.map key).Nodup) : ((store key row rows).map key).Nodup := by
  rw [((store_perm row h).map key).nodup_iff, List.map_cons, List.nodup_cons]
  refine ⟨fun hmem => ?_, h.sublist (List.filter_sublist.map key)⟩
  obtain ⟨r, hr, heq⟩ := List.mem_map.mp hmem
  simpa [heq] using (List.mem_filter.mp hr).2

end Store

/-! ### What is documented -/

/-- The tables are the lists, as long as both are there. -/
def Has (db : Database) (t : Tables) : Prop :=
  db = ⟨some t.messages, some t.pending⟩ ∧ t.Keyed

variable {db : Database} {t : Tables}

theorem any_messageHash_iff {hash : String} :
    (t.messages.any fun r => r.messageHash == hash) = true ↔
      hash ∈ t.messages.map Row.messageHash := by
  simp

theorem has_migrated : migrated.Has .empty := ⟨rfl, .nil, .nil⟩

/-- What comes back for a statement is right, and so are the lists that are left. -/
theorem carried_run {st : Statement} {r : st.Result} (h : db.Has t)
    (hrun : (db.run st).1 = .ok r) : ∃ t', (db.run st).2.Has t' ∧ t.Carries st r t' := by
  obtain ⟨rfl, hkeyed⟩ := h
  cases st with
  | insert row =>
    simp only [run] at hrun ⊢
    split at hrun
    · cases hrun
    next hfree =>
    have hnew : row.messageHash ∉ t.messages.map Row.messageHash := fun hmem =>
      hfree (any_messageHash_iff.mpr hmem)
    rw [if_neg hfree]
    refine ⟨{ t with messages := t.messages ++ [row] }, ⟨rfl, ?_, hkeyed.pending⟩, hnew,
      List.perm_append_singleton row t.messages, rfl⟩
    rw [List.map_append, List.map_singleton]
    exact List.nodup_append.mpr ⟨hkeyed.messages, List.nodup_singleton _, by
      rintro a ha _ hb rfl
      exact hnew (List.mem_singleton.mp hb ▸ ha)⟩
  | upsert row =>
    exact ⟨{ t with messages := store Row.messageHash row t.messages },
      ⟨rfl, nodup_store row hkeyed.messages, hkeyed.pending⟩, store_perm row hkeyed.messages, rfl⟩
  | upsertPending row =>
    exact ⟨{ t with pending := store PendingRow.place row t.pending },
      ⟨rfl, hkeyed.messages, nodup_store row hkeyed.pending⟩, rfl, store_perm row hkeyed.pending⟩
  | one filter =>
    obtain rfl := Except.ok.inj hrun
    exact ⟨t, ⟨rfl, hkeyed⟩, finds_find? _ _, rfl⟩
  | all filter =>
    obtain rfl := Except.ok.inj hrun
    exact ⟨t, ⟨rfl, hkeyed⟩, .refl _, rfl⟩
  | page limit offset =>
    simp only [run] at hrun ⊢
    split at hrun
    · cases hrun
    next hbounds =>
    obtain rfl := Except.ok.inj hrun
    rw [if_neg hbounds]
    exact ⟨t, ⟨rfl, hkeyed⟩, ⟨_, Row.sortByHash_perm _, Row.inOrder_sortByHash hkeyed.messages,
      rfl⟩, rfl⟩
  | count =>
    obtain rfl := Except.ok.inj hrun
    exact ⟨t, ⟨rfl, hkeyed⟩, rfl, rfl⟩
  | onePending bucket key =>
    obtain rfl := Except.ok.inj hrun
    exact ⟨t, ⟨rfl, hkeyed⟩, finds_find? _ _, rfl⟩
  | countPending bucket key =>
    obtain rfl := Except.ok.inj hrun
    exact ⟨t, ⟨rfl, hkeyed⟩, rfl, rfl⟩

/-- A statement fails only where it has to, and leaves the lists as they are. -/
theorem failed_run {st : Statement} {f : Failure} (h : db.Has t)
    (hrun : (db.run st).1 = .error f) : (db.run st).2.Has t ∧ t.Forbids st f := by
  obtain ⟨rfl, hkeyed⟩ := h
  cases st with
  | insert row =>
    simp only [run] at hrun ⊢
    split at hrun
    · next htaken =>
      rw [if_pos htaken]
      obtain rfl := Except.error.inj hrun
      exact ⟨⟨rfl, hkeyed⟩, any_messageHash_iff.mp htaken, rfl⟩
    · cases hrun
  | page limit offset =>
    simp only [run] at hrun ⊢
    split at hrun
    · next hbounds =>
      rw [if_pos hbounds]
      exact ⟨⟨rfl, hkeyed⟩, hbounds⟩
    · cases hrun
  | _ => cases hrun

/-- What is documented of the lists. -/
def manual : engine.Manual where
  Has := Has
  Holds _ := True
  keyed h := h.2
  carried := carried_run
  failed h hrun := ⟨(failed_run h hrun).1, fun _ => (failed_run h hrun).2⟩

theorem not_refuses_manual (f : Failure) : ¬ manual.Refuses f := by
  rintro ⟨s, st, hnot, -⟩
  exact hnot trivial

end Database

end Waybill
