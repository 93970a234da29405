import Mathlib.Data.List.Nodup
import Mathlib.Data.List.Perm.Subperm
/-!
# Things handed to places

Things are handed one after another to a place or to none. A place keeps the last thing that was
handed to it, and one to which nothing was handed takes the last thing that was handed to none.
When there are as many places as things, all things are kept, each by one place, exactly if no two
of them were handed alike.

## Main definitions

* `Handing.last`: the last thing that was handed to a place, or to none.
* `Handing.kept`: what a place ends up with.

## Main results

* `Handing.perm_kept_iff`: when all things are kept.
* `Handing.kept_of_late`: what the only place ends up with.
-/

namespace Waybill.Handing

variable {κ α β : Type} [DecidableEq κ] {hs : List (Option κ × α)} {t : Option κ} {a : α}

/-- The last thing that was handed to a place, or to none. -/
def last (hs : List (Option κ × α)) (t : Option κ) : Option α :=
  ((hs.filter fun p => p.1 = t).map Prod.snd).getLast?

/-- What a place ends up with. -/
def kept (hs : List (Option κ × α)) (k : κ) : Option α := (last hs (some k)).or (last hs none)

theorem last_cons (p : Option κ × α) (hs : List (Option κ × α)) (t : Option κ) :
    last (p :: hs) t = if p.1 = t then (last hs t).or (some p.2) else last hs t := by
  rw [last]
  split
  · next ht =>
    rw [List.filter_cons_of_pos (by simpa using ht), List.map_cons, List.getLast?_cons, last]
    cases ((hs.filter fun p => p.1 = t).map Prod.snd).getLast? <;> rfl
  · next ht => rw [List.filter_cons_of_neg (by simpa using ht), last]

theorem mem_of_last (h : last hs t = some a) : (t, a) ∈ hs := by
  obtain ⟨p, hp, rfl⟩ := List.mem_map.mp (List.mem_of_getLast? h)
  obtain ⟨hmem, ht⟩ := List.mem_filter.mp hp
  rwa [← of_decide_eq_true ht]

theorem mem_of_kept {k : κ} (h : kept hs k = some a) : ∃ t, last hs t = some a := by
  rcases Option.or_eq_some_iff.mp h with h | ⟨-, h⟩
  · exact ⟨some k, h⟩
  · exact ⟨none, h⟩

/-- If no two things were handed alike, each is the last one of its place. -/
theorem last_of_nodup (hnodup : (hs.map Prod.fst).Nodup) (h : (t, a) ∈ hs) :
    last hs t = some a := by
  have hmem : a ∈ (hs.filter fun p => p.1 = t).map Prod.snd :=
    List.mem_map.mpr ⟨(t, a), List.mem_filter.mpr ⟨h, decide_eq_true rfl⟩, rfl⟩
  obtain ⟨b, hb⟩ := Option.isSome_iff_exists.mp
    (List.getLast?_isSome.mpr (List.ne_nil_of_mem hmem))
  have hsame : (t, b) = (t, a) := List.inj_on_of_nodup_map hnodup (mem_of_last hb) h rfl
  obtain rfl : b = a := (Prod.mk.inj hsame).2
  exact hb

/-- Of things with different labels that all are kept, no two were handed alike. -/
theorem nodup_of_kept {label : α → β} (hlabels : (hs.map fun p => label p.2).Nodup)
    (hkept : ∀ p ∈ hs, ∃ k, (kept hs k).map label = some (label p.2)) :
    (hs.map Prod.fst).Nodup := by
  have hlast : ∀ p ∈ hs, last hs p.1 = some p.2 := by
    intro p hp
    obtain ⟨k, hk⟩ := hkept p hp
    obtain ⟨a, ha, hlabel⟩ := Option.map_eq_some_iff.mp hk
    obtain ⟨t, ht⟩ := mem_of_kept ha
    obtain rfl : (t, a) = p := List.inj_on_of_nodup_map hlabels (mem_of_last ht) hp hlabel
    exact ht
  refine List.Nodup.map_on (fun p hp q hq hpq => ?_) (List.Nodup.of_map _ hlabels)
  have hsnd : p.2 = q.2 := Option.some.inj ((hlast p hp).symm.trans (hpq ▸ hlast q hq))
  exact Prod.ext hpq hsnd

/-- If no two things were handed alike, and there are as many places as things, each thing is kept
by a place. -/
theorem exists_kept {ks : List κ} (hks : ks.Nodup) (hlength : ks.length = hs.length)
    (hplaces : ∀ p ∈ hs, ∀ k, p.1 = some k → k ∈ ks) (hnodup : (hs.map Prod.fst).Nodup)
    {p : Option κ × α} (hp : p ∈ hs) : ∃ k ∈ ks, kept hs k = some p.2 := by
  obtain ⟨t, a⟩ := p
  cases t with
  | some k =>
    refine ⟨k, hplaces _ hp k rfl, ?_⟩
    rw [kept, last_of_nodup hnodup hp, Option.some_or]
  | none =>
    -- with a thing for each place and one for none there would be more things than places
    have hfree : ∃ k ∈ ks, last hs (some k) = none := by
      refine Decidable.byContradiction fun hall => ?_
      have hsub : none :: ks.map some ⊆ hs.map Prod.fst := by
        refine List.cons_subset.mpr ⟨List.mem_map_of_mem hp, fun t ht => ?_⟩
        obtain ⟨k, hk, rfl⟩ := List.mem_map.mp ht
        cases hlast : last hs (some k) with
        | none => exact absurd ⟨k, hk, hlast⟩ hall
        | some b => exact List.mem_map_of_mem (mem_of_last hlast)
      have hdistinct : (none :: ks.map some).Nodup :=
        List.nodup_cons.mpr ⟨by simp, hks.map fun _ _ => Option.some.inj⟩
      have hle := hdistinct.length_le_of_subset hsub
      rw [List.length_cons, List.length_map, List.length_map, hlength] at hle
      exact Nat.not_succ_le_self _ hle
    obtain ⟨k, hk, hnone⟩ := hfree
    refine ⟨k, hk, ?_⟩
    rw [kept, hnone, Option.none_or, last_of_nodup hnodup hp]

/-- When there are as many places as things, and the things have different labels, the labels of
what the places end up with are those of all things exactly if no two were handed alike. -/
theorem perm_kept_iff {label : α → β} {ks : List κ} (hks : ks.Nodup)
    (hlength : ks.length = hs.length) (hplaces : ∀ p ∈ hs, ∀ k, p.1 = some k → k ∈ ks)
    (hlabels : (hs.map fun p => label p.2).Nodup) :
    (ks.map fun k => (kept hs k).map label).Perm (hs.map fun p => some (label p.2)) ↔
      (hs.map Prod.fst).Nodup := by
  constructor
  · intro hperm
    refine nodup_of_kept hlabels fun p hp => ?_
    obtain ⟨k, -, hk⟩ := List.mem_map.mp
      (hperm.mem_iff.mpr (List.mem_map_of_mem hp))
    exact ⟨k, hk⟩
  · intro hnodup
    have hsome : (hs.map fun p => some (label p.2)).Nodup := by
      have hmap := hlabels.map fun _ _ => Option.some.inj
      rwa [List.map_map] at hmap
    have hsub : (hs.map fun p => some (label p.2)) ⊆ ks.map fun k => (kept hs k).map label := by
      intro b hb
      obtain ⟨p, hp, rfl⟩ := List.mem_map.mp hb
      obtain ⟨k, hk, hkept⟩ := exists_kept hks hlength hplaces hnodup hp
      exact List.mem_map.mpr ⟨k, hk, by rw [hkept, Option.map_some]⟩
    refine ((List.subperm_of_subset hsome hsub).perm_of_length_le ?_).symm
    rw [List.length_map, List.length_map]
    exact Nat.le_of_eq hlength

/-- If things are handed to one place only, and none to no place after that, the place ends up with
the last thing of all. -/
theorem kept_of_late {k : κ} (honly : ∀ p ∈ hs, ∀ i, p.1 = some i → i = k)
    (hlate : hs.Pairwise fun p q => p.1.isSome = true → q.1.isSome = true) :
    kept hs k = (hs.map Prod.snd).getLast? := by
  induction hs with
  | nil => rfl
  | cons p hs ih =>
    obtain ⟨hafter, hlate⟩ := List.pairwise_cons.mp hlate
    have hrest := ih (fun q hq => honly q (List.mem_cons_of_mem p hq)) hlate
    have hlast : ((p :: hs).map Prod.snd).getLast? = (kept hs k).or (some p.2) := by
      rw [hrest, List.map_cons, List.getLast?_cons]
      cases (hs.map Prod.snd).getLast? <;> rfl
    rw [hlast, kept, kept, last_cons, last_cons]
    cases hp : p.1 with
    | none => rw [if_neg (by simp), if_pos rfl, Option.or_assoc]
    | some i =>
      obtain rfl := honly p List.mem_cons_self i hp
      -- nothing is handed to no place after the first thing that is handed to this one
      have hnone : last hs none = none := by
        cases h : last hs none with
        | none => rfl
        | some a => exact absurd (hafter _ (mem_of_last h) (by rw [hp]; rfl)) (by simp)
      rw [if_pos rfl, if_neg (by simp), hnone, Option.or_none, Option.or_none]

end Waybill.Handing
