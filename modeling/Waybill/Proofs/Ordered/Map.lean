import Mathlib.Data.List.Nodup
import Mathlib.Data.List.Perm.Basic
import Waybill.Ordered.Map
/-!
# Maps and what is found in them

A map is determined by what is found under each key. Its values can be replaced one by one, and
the order of insertions under different keys does not matter.

## Main definitions

* `SortedMap.map`: a map with a function applied to every value.
* `SortedMap.KeyedBy`: a map in which every value is under its own key.

## Main results

* `SortedMap.ext_find?`: maps in which the same is found under every key are equal.
* `SortedMap.find?_map`, `SortedMap.insert_map`, `SortedMap.values_map`: how a map with replaced
  values is read and changed.
* `SortedMap.KeyedBy.values_insert_perm`: a value takes the place of the one with its key.
-/

namespace Waybill.SortedMap

open OrderedKey

variable {κ ν μ : Type} [OrderedKey κ] [DecidableEq κ]

theorem lookup_eq_none_of_before {k : κ} {es : List (κ × ν)}
    (h : ∀ e ∈ es, before k e.1 = true) : lookup k es = none := by
  induction es with
  | nil => rfl
  | cons e es ih =>
    have he : e.1 ≠ k := by
      rintro rfl
      exact absurd (h e List.mem_cons_self) (by simp [before_irrefl])
    rw [lookup, if_neg he]
    exact ih fun d hd => h d (List.mem_cons_of_mem e hd)

/-- Sorted lists of entries in which the same is found are equal. -/
theorem entries_ext {es fs : List (κ × ν)}
    (he : es.Pairwise fun a b => before a.1 b.1 = true)
    (hf : fs.Pairwise fun a b => before a.1 b.1 = true)
    (h : ∀ k, lookup k es = lookup k fs) : es = fs := by
  induction es generalizing fs with
  | nil =>
    cases fs with
    | nil => rfl
    | cons f fs => simpa [lookup] using h f.1
  | cons e es ih =>
    cases fs with
    | nil => simpa [lookup] using h e.1
    | cons f fs =>
      obtain ⟨hes, hes'⟩ := List.pairwise_cons.mp he
      obtain ⟨hfs, hfs'⟩ := List.pairwise_cons.mp hf
      have hef : e ∈ f :: fs := by
        rw [← lookup_eq_some_iff hf, ← h e.1]
        simp [lookup]
      have hfe : f ∈ e :: es := by
        rw [← lookup_eq_some_iff he, h f.1]
        simp [lookup]
      have heq : e = f := by
        rcases List.mem_cons.mp hef with heq | hef
        · exact heq
        · rcases List.mem_cons.mp hfe with heq | hfe
          · exact heq.symm
          · exact absurd (before_asymm (hfs e hef)) (by simp [hes f hfe])
      subst heq
      refine congrArg (e :: ·) (ih hes' hfs' fun k => ?_)
      by_cases hk : e.1 = k
      · subst hk
        rw [lookup_eq_none_of_before hes, lookup_eq_none_of_before hfs]
      · simpa [lookup, hk] using h k

/-- Maps in which the same is found under every key are equal. -/
theorem ext_find? {m n : SortedMap κ ν} (h : ∀ k, m.find? k = n.find? k) : m = n := by
  have heq : m.entries = n.entries := entries_ext m.sorted n.sorted h
  cases m
  cases n
  cases heq
  rfl

theorem mem_values_iff {m : SortedMap κ ν} {v : ν} : v ∈ m.values ↔ ∃ k, m.find? k = some v := by
  simp only [values, List.mem_map, find?_eq_some_iff]
  constructor
  · rintro ⟨⟨k, w⟩, hmem, rfl⟩
    exact ⟨k, hmem⟩
  · rintro ⟨k, hmem⟩
    exact ⟨(k, v), hmem, rfl⟩

theorem contains_eq_false_iff {m : SortedMap κ ν} {k : κ} :
    m.contains k = false ↔ m.find? k = none := by
  rw [contains, Option.isSome_eq_false_iff, Option.isNone_iff_eq_none]

theorem mem_keys_iff {m : SortedMap κ ν} {k : κ} : k ∈ m.keys ↔ m.contains k = true := by
  simp only [keys, contains, List.mem_map, Option.isSome_iff_exists, find?_eq_some_iff]
  constructor
  · rintro ⟨⟨j, v⟩, hmem, rfl⟩
    exact ⟨v, hmem⟩
  · rintro ⟨v, hmem⟩
    exact ⟨(k, v), hmem, rfl⟩

/-- What is found after insertions of values that depend on their keys alone. -/
theorem find?_foldl_insert (f : κ → ν) (ks : List κ) (m : SortedMap κ ν) (j : κ) :
    (ks.foldl (fun m k => m.insert k (f k)) m).find? j =
      if j ∈ ks then some (f j) else m.find? j := by
  induction ks generalizing m with
  | nil => rfl
  | cons k ks ih =>
    rw [List.foldl_cons, ih, find?_insert]
    by_cases hk : j = k
    · subst hk
      simp
    · simp [hk]

/-- A map with a function applied to every value. -/
def map (f : ν → μ) (m : SortedMap κ ν) : SortedMap κ μ :=
  ⟨m.entries.map fun e => (e.1, f e.2), List.pairwise_map.mpr m.sorted⟩

omit [OrderedKey κ] in
theorem lookup_map (f : ν → μ) (k : κ) (es : List (κ × ν)) :
    lookup k (es.map fun e => (e.1, f e.2)) = (lookup k es).map f := by
  induction es with
  | nil => rfl
  | cons e es ih =>
    rw [List.map_cons, lookup, lookup, ih]
    split <;> rfl

@[simp] theorem find?_map (f : ν → μ) (m : SortedMap κ ν) (k : κ) :
    (m.map f).find? k = (m.find? k).map f :=
  lookup_map f k m.entries

omit [DecidableEq κ] in
@[simp] theorem values_map (f : ν → μ) (m : SortedMap κ ν) : (m.map f).values = m.values.map f := by
  simp only [values, map, List.map_map]
  rfl

theorem insert_map (f : ν → μ) (m : SortedMap κ ν) (k : κ) (v : ν) :
    (m.map f).insert k (f v) = (m.insert k v).map f := by
  refine ext_find? fun j => ?_
  simp only [find?_insert, find?_map]
  split <;> rfl

omit [DecidableEq κ] in
theorem nodup_keys (m : SortedMap κ ν) : m.keys.Nodup := by
  rw [keys, List.nodup_iff_pairwise_ne, List.pairwise_map]
  refine m.sorted.imp fun {a b} hab heq => ?_
  rw [heq, before_irrefl] at hab
  cases hab

/-! ### Values that have their keys -/

/-- Every value is under its own key. -/
def KeyedBy (key : ν → κ) (m : SortedMap κ ν) : Prop := ∀ k v, m.find? k = some v → key v = k

namespace KeyedBy

variable {key : ν → κ} {m : SortedMap κ ν} (h : m.KeyedBy key)
include h

theorem mem_values_iff {v : ν} : v ∈ m.values ↔ m.find? (key v) = some v := by
  rw [SortedMap.mem_values_iff]
  constructor
  · rintro ⟨k, hk⟩
    rwa [h k v hk]
  · intro hv
    exact ⟨_, hv⟩

/-- Values are listed in the strict order of their keys. -/
theorem pairwise_values :
    m.values.Pairwise fun v w => before (key v) (key w) = true := by
  rw [values, List.pairwise_map]
  refine m.sorted.imp_of_mem fun {a b} ha hb hab => ?_
  rwa [h _ _ (find?_eq_some_iff.mpr ha), h _ _ (find?_eq_some_iff.mpr hb)]

theorem nodup_values : m.values.Nodup := by
  refine h.pairwise_values.imp fun {v w} hvw heq => ?_
  rw [heq, before_irrefl] at hvw
  cases hvw

protected theorem insert (v : ν) : (m.insert (key v) v).KeyedBy key := by
  intro k w hw
  rw [find?_insert] at hw
  split at hw
  · next hk => rw [← Option.some.inj hw, hk]
  · exact h k w hw

/-- A value takes the place of the one with its key. -/
theorem values_insert_perm (v : ν) :
    (m.insert (key v) v).values.Perm (v :: m.values.filter fun w => key w ≠ key v) := by
  have hothers : (v :: m.values.filter fun w => key w ≠ key v).Nodup :=
    List.nodup_cons.mpr ⟨by simp, h.nodup_values.filter _⟩
  refine (List.perm_ext_iff_of_nodup (h.insert v).nodup_values hothers).mpr fun w => ?_
  rw [(h.insert v).mem_values_iff, find?_insert, List.mem_cons, List.mem_filter,
    h.mem_values_iff, decide_eq_true_iff]
  by_cases hk : key w = key v
  · simp [hk, eq_comm]
  · have hne : w ≠ v := fun heq => hk (congrArg key heq)
    simp [hk, hne]

end KeyedBy

end Waybill.SortedMap
