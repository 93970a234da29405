import Waybill.Proofs.Ordered.Map
import Waybill.Proofs.Pending.Lookup
/-!
# What waits in the pool

The pool seen as what it is for: for every lookup the events that wait for it. Updates and relays
of a root wait in a list without repetitions, of the other events the last one of its lookup waits.

## Main definitions

* `Pending.Stock`: the events that wait for each lookup.
* `Pending.Stock.keep`: one more event waits.
* `Pending.Stock.Within`: what waits of a stock waits of another.
* `Pending.Stock.ShownBy`: the entries of a pool are those of a stock.

## Main results

* `Pending.Stock.ShownBy.unique`: a stock determines the pool that shows it.
* `Pending.Stock.ShownBy.keep`: the entry that is written when an event is kept.
-/

namespace Waybill.Pending

/-- The events that wait for each lookup. -/
structure Stock where
  held : Lookup → List Event
  /-- An event waits for the lookup that it answers. -/
  fitting : ∀ {l e}, e ∈ held l → Lookup.ofEvent? e = some l
  /-- For a lookup that does not keep all its events at most one waits. -/
  single : ∀ {l}, l.keepsAll = false → (held l).length ≤ 1

/-- The events that wait for a lookup when one more is kept. -/
def Lookup.arrange (l : Lookup) (es : List Event) (e : Event) : List Event :=
  if l.keepsAll then if e ∈ es then es else es ++ [e] else [e]

namespace Lookup

variable {l : Lookup} {es : List Event} {d e : Event}

theorem mem_arrange_self : e ∈ l.arrange es e := by
  rw [arrange]
  split
  · split
    · assumption
    · simp
  · simp

theorem mem_of_mem_arrange (h : d ∈ l.arrange es e) : d = e ∨ d ∈ es := by
  rw [arrange] at h
  split at h
  · split at h
    · exact .inr h
    · simpa [or_comm] using h
  · exact .inl (by simpa using h)

theorem mem_arrange_of_mem (hl : l.keepsAll = true) (h : d ∈ es) : d ∈ l.arrange es e := by
  rw [arrange, if_pos hl]
  split
  · exact h
  · exact List.mem_append_left _ h

theorem length_arrange_le (hl : l.keepsAll = false) : (l.arrange es e).length ≤ 1 := by
  simp [arrange, hl]

end Lookup

namespace Stock

/-- Nothing waits. -/
def empty : Stock := ⟨fun _ => [], by simp, by simp⟩

/-- One more event waits. -/
def keep (s : Stock) (e : Event) : Stock where
  held l := if Lookup.ofEvent? e = some l then l.arrange (s.held l) e else s.held l
  fitting := by
    intro l d h
    split at h
    · next he =>
      rcases Lookup.mem_of_mem_arrange h with rfl | h
      · exact he
      · exact s.fitting h
    · exact s.fitting h
  single := by
    intro l h
    split
    · exact Lookup.length_arrange_le h
    · exact s.single h

variable {s : Stock} {l : Lookup} {d e : Event}

theorem held_keep_of_eq (h : Lookup.ofEvent? e = some l) :
    (s.keep e).held l = l.arrange (s.held l) e :=
  if_pos h

theorem held_keep_of_ne (h : Lookup.ofEvent? e ≠ some l) : (s.keep e).held l = s.held l :=
  if_neg h

theorem mem_keep_self (h : Lookup.ofEvent? e = some l) : e ∈ (s.keep e).held l := by
  rw [held_keep_of_eq h]
  exact Lookup.mem_arrange_self

theorem mem_of_mem_keep (h : d ∈ (s.keep e).held l) : d = e ∨ d ∈ s.held l := by
  by_cases he : Lookup.ofEvent? e = some l
  · rw [held_keep_of_eq he] at h
    exact Lookup.mem_of_mem_arrange h
  · rw [held_keep_of_ne he] at h
    exact .inr h

theorem mem_keep_of_mem (hl : l.keepsAll = true) (h : d ∈ s.held l) : d ∈ (s.keep e).held l := by
  by_cases he : Lookup.ofEvent? e = some l
  · rw [held_keep_of_eq he]
    exact Lookup.mem_arrange_of_mem hl h
  · rwa [held_keep_of_ne he]

theorem keep_ne_nil (h : s.held l ≠ []) : (s.keep e).held l ≠ [] := by
  by_cases he : Lookup.ofEvent? e = some l
  · exact List.ne_nil_of_mem (mem_keep_self he)
  · rwa [held_keep_of_ne he]

/-- Where something waits, something waits of the other stock too, and of a lookup that keeps all
its events all do. -/
structure Within (s s' : Stock) : Prop where
  mem : ∀ {l e}, l.keepsAll = true → e ∈ s.held l → e ∈ s'.held l
  ne_nil : ∀ {l}, s.held l ≠ [] → s'.held l ≠ []

theorem Within.refl (s : Stock) : s.Within s := ⟨fun _ h => h, fun h => h⟩

theorem Within.trans {s s' s'' : Stock} (h : s.Within s') (h' : s'.Within s'') : s.Within s'' :=
  ⟨fun hl he => h'.mem hl (h.mem hl he), fun hs => h'.ne_nil (h.ne_nil hs)⟩

theorem within_keep (s : Stock) (e : Event) : s.Within (s.keep e) := ⟨mem_keep_of_mem, keep_ne_nil⟩

theorem Within.keep {s' : Stock} (h : s.Within s') (e : Event) : (s.keep e).Within (s'.keep e) := by
  refine ⟨fun {l d} hl hd => ?_, fun {l} hs => ?_⟩
  · rcases mem_of_mem_keep hd with rfl | hd'
    · exact mem_keep_self ((s.keep d).fitting hd)
    · exact mem_keep_of_mem hl (h.mem hl hd')
  · by_cases he : Lookup.ofEvent? e = some l
    · exact List.ne_nil_of_mem (mem_keep_self he)
    · rw [held_keep_of_ne he] at hs ⊢
      exact h.ne_nil hs

/-- Keeping an event that answers no lookup changes nothing. -/
theorem keep_of_none (h : Lookup.ofEvent? e = none) : s.keep e = s := by
  obtain ⟨held, fitting, single⟩ := s
  simp [keep, h]

/-- Of a single event that waits, the list is known. -/
theorem held_eq_singleton (hl : l.keepsAll = false) (h : e ∈ s.held l) : s.held l = [e] := by
  have hlen := s.single hl
  match hs : s.held l with
  | [] => simp [hs] at h
  | [a] =>
    rw [hs, List.mem_singleton] at h
    rw [h]
  | a :: b :: es =>
    rw [hs] at hlen
    simp at hlen

/-! ### Pools -/

/-- The entries of a pool are those of a stock. -/
structure ShownBy (s : Stock) (pool : SortedMap (String × String) String) : Prop where
  entry : ∀ l : Lookup, pool.find? l.place = l.entry? (s.held l)
  /-- There are no entries but those of lookups. -/
  place : ∀ {key}, pool.contains key = true → ∃ l : Lookup, l.place = key

theorem shownBy_empty : empty.ShownBy SortedMap.empty :=
  ⟨fun _ => rfl, fun h => by simp [SortedMap.contains] at h⟩

/-- A stock determines the pool that shows it. -/
theorem ShownBy.unique {pool pool' : SortedMap (String × String) String} (h : s.ShownBy pool)
    (h' : s.ShownBy pool') : pool = pool' := by
  refine SortedMap.ext_find? fun key => ?_
  by_cases hkey : ∃ l : Lookup, l.place = key
  · obtain ⟨l, rfl⟩ := hkey
    rw [h.entry l, h'.entry l]
  · have hnone {p : SortedMap (String × String) String} (hp : s.ShownBy p) : p.find? key = none :=
      SortedMap.contains_eq_false_iff.mp (Bool.not_eq_true _ ▸ fun hin => hkey (hp.place hin))
    rw [hnone h, hnone h']

/-- When an event is kept, the entry of its lookup is written. -/
theorem ShownBy.keep {pool : SortedMap (String × String) String} (h : s.ShownBy pool)
    (he : Lookup.ofEvent? e = some l) {text : String}
    (htext : l.entry? (l.arrange (s.held l) e) = some text) :
    (s.keep e).ShownBy (pool.insert l.place text) := by
  constructor
  · intro j
    rw [SortedMap.find?_insert]
    split
    · next hj =>
      rw [Lookup.place_injective hj, held_keep_of_eq he, htext]
    · next hj =>
      rw [h.entry j, held_keep_of_ne]
      intro hej
      exact hj (congrArg Lookup.place (Option.some.inj (hej.symm.trans he)))
  · intro key hkey
    rw [SortedMap.contains, SortedMap.find?_insert] at hkey
    split at hkey
    · next hj => exact ⟨l, hj.symm⟩
    · exact h.place hkey

/-- Keeping an event again changes no entry. -/
theorem ShownBy.keep_again {pool : SortedMap (String × String) String} (h : s.ShownBy pool)
    (he : Lookup.ofEvent? e = some l) (hsame : l.arrange (s.held l) e = s.held l) :
    (s.keep e).ShownBy pool := by
  refine ⟨fun j => ?_, h.place⟩
  rw [h.entry j]
  by_cases hj : Lookup.ofEvent? e = some j
  · obtain rfl : l = j := Option.some.inj (he.symm.trans hj)
    rw [held_keep_of_eq he, hsame]
  · rw [held_keep_of_ne hj]

end Stock

end Waybill.Pending
