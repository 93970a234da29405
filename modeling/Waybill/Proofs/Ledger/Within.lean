import Waybill.Proofs.Ledger.Account
/-!
# Ledgers within others

A ledger lies within another one if both have the same messages, each of which has heard no less on
the other, and if what waits on it waits on the other. An event keeps this: whatever it does to a
ledger, it does no less to one that this lies within. And a ledger lies within what is left when
events are worked on again whose dispatches it knows, whether to the end or not.

## Main definitions

* `Ledger.Within`: a ledger of which another one has no less.
* `Ledger.Knows`: the messages of events were dispatched.

## Main results

* `Ledger.Within.step`: an event on two ledgers of which one lies within the other.
* `Ledger.Knows.within_steps`, `Ledger.Partial.within`: events that are worked on again.
-/

namespace Waybill

open Waybill.Pending Message

/-! ### Journeys -/

namespace Journey

variable {net : Network} {j j' : Journey} {k : Mark} {e : Event} {s s' : Stock}

theorem key_eq (net : Network) (j : Journey) : j.key = (j.base net).hash.text := rfl

theorem Within.key (h : j.Within net j') : j'.key = j.key := by
  rw [j'.key_eq net, h.base, ← j.key_eq net]

theorem Within.answers (h : j.Within net j') (k : Mark) (e : Event) :
    j'.answers net k e = j.answers net k e :=
  answers_congr net h.base k e

/-- What is pending of a stock is pending of one that it lies within. -/
theorem isSome_pending?_mono (h : s.Within s') (hk : ((j.base net).pending? s k).isSome = true) :
    ((j.base net).pending? s' k).isSome = true := by
  obtain ⟨e, he⟩ := Option.isSome_iff_exists.mp hk
  obtain ⟨hconcerns, l, hheld⟩ := pending?_eq_some he
  have hl : (j.base net).lookup? k = some l := hconcerns.lookup.trans (s.fitting hheld)
  cases hroot : k.isOfRoot with
  | true =>
    have hall : l.keepsAll = true := by rw [l.keepsAll_eq_isOfRoot, mark_of_lookup? hl, hroot]
    exact isSome_pending? hconcerns.admits hl (h.mem hall hheld) hconcerns.heeds
  | false =>
    obtain ⟨d, hd⟩ := List.exists_mem_of_ne_nil _ (h.ne_nil (List.ne_nil_of_mem hheld))
    exact isSome_pending? hconcerns.admits hl hd (heeds_of_not_isOfRoot hroot _ d)

theorem Within.catchUp (h : j.Within net j') (hs : s.Within s') :
    (j.catchUp net s).Within net (j'.catchUp net s') := by
  refine ⟨h.base, fun k hk => ?_⟩
  rw [heard_catchUp_eq, Option.isSome_or, Bool.or_eq_true] at hk ⊢
  rw [h.base]
  exact hk.imp (h.heard k) (isSome_pending?_mono hs)

theorem Within.hear (h : j.Within net j') (k : Mark) (e : Event) :
    (j.hear net k e).Within net (j'.hear net k e) := by
  refine ⟨by rw [base_hear, base_hear, h.base], fun i hi => ?_⟩
  rw [heard_hear_eq] at hi ⊢
  rw [h.base]
  split at hi
  · next hheeds =>
    rw [if_pos hheeds]
    by_cases hik : i = k
    · rw [hik, History.note_self, Option.isSome_some]
    · rw [History.note_of_ne _ hik] at hi ⊢
      exact h.heard i hi
  · next hheeds =>
    rw [if_neg hheeds]
    exact h.heard i hi

/-- Two messages go on with the same event. -/
theorem Within.goOn (h : j.Within net j') (hs : s.Within s') (k : Mark) (e : Event) :
    (j.goOn net k e s).Within net (j'.goOn net k e s') :=
  (h.hear k e).catchUp hs

end Journey

namespace Ledger

variable {net : Network} {L L' L'' : Ledger} {e : Event} {es : List Event}

/-! ### Ledgers -/

/-- The same messages, each of which has heard no less, and no less that waits. -/
structure Within (net : Network) (L L' : Ledger) : Prop where
  journeys : ∀ key, (L.journeys.find? key = none ∧ L'.journeys.find? key = none) ∨
    ∃ j j', L.journeys.find? key = some j ∧ L'.journeys.find? key = some j' ∧ j.Within net j'
  stock : L.stock.Within L'.stock

namespace Within

theorem refl (net : Network) (L : Ledger) : L.Within net L := by
  refine ⟨fun key => ?_, .refl _⟩
  cases L.journeys.find? key with
  | none => exact .inl ⟨rfl, rfl⟩
  | some j => exact .inr ⟨j, j, rfl, rfl, .refl net j⟩

theorem trans (h : L.Within net L') (h' : L'.Within net L'') : L.Within net L'' := by
  refine ⟨fun key => ?_, h.stock.trans h'.stock⟩
  rcases h.journeys key with ⟨hnone, hnone'⟩ | ⟨j, i, hj, hi, hji⟩
  · rcases h'.journeys key with ⟨-, hnone''⟩ | ⟨i', -, hi', -, -⟩
    · exact .inl ⟨hnone, hnone''⟩
    · rw [hnone'] at hi'
      cases hi'
  · rcases h'.journeys key with ⟨hnone', -⟩ | ⟨i', j'', hi', hj'', hij⟩
    · rw [hi] at hnone'
      cases hnone'
    · obtain rfl := Option.some.inj (hi.symm.trans hi')
      exact .inr ⟨j, j'', hj, hj'', hji.trans hij⟩

theorem contains (h : L.Within net L') (key : String) :
    L'.journeys.contains key = L.journeys.contains key := by
  rw [SortedMap.contains, SortedMap.contains]
  rcases h.journeys key with ⟨hnone, hnone'⟩ | ⟨j, j', hj, hj', -⟩
  · rw [hnone, hnone']
  · rw [hj, hj', Option.isSome_some, Option.isSome_some]

/-- The messages as they were dispatched are the same. -/
theorem values_base (h : L.Within net L') :
    L'.journeys.values.map (Journey.base net) = L.journeys.values.map (Journey.base net) := by
  have hmap : L'.journeys.map (Journey.base net) = L.journeys.map (Journey.base net) := by
    refine SortedMap.ext_find? fun key => ?_
    rw [SortedMap.find?_map, SortedMap.find?_map]
    rcases h.journeys key with ⟨hnone, hnone'⟩ | ⟨j, j', hj, hj', hwithin⟩
    · rw [hnone, hnone', Option.map_none]
    · rw [hj, hj', Option.map_some, Option.map_some, hwithin.base]
  rw [← SortedMap.values_map, hmap, SortedMap.values_map]

/-- An event is for the same message. -/
theorem addressee? (h : L.Within net L') (k : Mark) (e : Event) :
    (L.addressee? net k e = none ∧ L'.addressee? net k e = none) ∨ ∃ j j',
      L.addressee? net k e = some j ∧ L'.addressee? net k e = some j' ∧ j.Within net j' := by
  have hfirst (K : Ledger) : (K.addressee? net k e).map (Journey.base net) =
      (K.journeys.values.map (Journey.base net)).find? fun b =>
        decide (b.lookup? k = Lookup.ofEvent? e) := by
    rw [List.find?_map]
    rfl
  have hsame : (L'.addressee? net k e).map (Journey.base net) =
      (L.addressee? net k e).map (Journey.base net) := by
    rw [hfirst, h.values_base, hfirst]
  cases hj : L.addressee? net k e with
  | none =>
    rw [hj, Option.map_none, Option.map_eq_none_iff] at hsame
    exact .inl ⟨rfl, hsame⟩
  | some j =>
    rw [hj, Option.map_some, Option.map_eq_some_iff] at hsame
    obtain ⟨j', hj', hbase⟩ := hsame
    have hkey : j'.key = j.key := by rw [j'.key_eq net, hbase, ← j.key_eq net]
    have hfind := (addressee?_eq_some net hj).1
    have hfind' := (addressee?_eq_some net hj').1
    rcases h.journeys j.key with ⟨hnone, -⟩ | ⟨i, i', hi, hi', hwithin⟩
    · rw [hfind] at hnone
      cases hnone
    · obtain rfl := Option.some.inj (hfind.symm.trans hi)
      obtain rfl := Option.some.inj ((hkey ▸ hfind').symm.trans hi')
      exact .inr ⟨j, j', rfl, hj', hwithin⟩

theorem keep (h : L.Within net L') (e : Event) : (L.keep e).Within net (L'.keep e) :=
  ⟨h.journeys, h.stock.keep e⟩

theorem put (h : L.Within net L') {j j' : Journey} (hj : j.Within net j') :
    (L.put j).Within net (L'.put j') := by
  refine ⟨fun key => ?_, h.stock⟩
  rw [find?_put, find?_put, hj.key]
  split
  · exact .inr ⟨j, j', rfl, rfl, hj⟩
  · exact h.journeys key

theorem spread (h : L.Within net L') (k : Mark) (e : Event) :
    (L.spread net k e).Within net (L'.spread net k e) := by
  refine ⟨fun key => ?_, h.stock.keep e⟩
  rw [Ledger.spread, revise, SortedMap.find?_map, Ledger.spread, revise, SortedMap.find?_map,
    Ledger.keep, Ledger.keep]
  rcases h.journeys key with ⟨hnone, hnone'⟩ | ⟨j, j', hj, hj', hwithin⟩
  · exact .inl ⟨by rw [hnone, Option.map_none], by rw [hnone', Option.map_none]⟩
  · refine .inr ⟨_, _, by rw [hj, Option.map_some], by rw [hj', Option.map_some], ?_⟩
    rw [hwithin.answers]
    split
    · exact hwithin.goOn (h.stock.keep e) k e
    · exact hwithin

theorem deliver (h : L.Within net L') (k : Mark) (e : Event) :
    (L.deliver net k e).Within net (L'.deliver net k e) := by
  rw [Ledger.deliver, Ledger.deliver]
  rcases h.addressee? k e with ⟨hnone, hnone'⟩ | ⟨j, j', hj, hj', hwithin⟩
  · rw [hnone, hnone']
    exact h.keep e
  · rw [hj, hj']
    simp only [hwithin.base]
    split
    · exact h.put (hwithin.goOn h.stock k e)
    · exact h

/-- An event does no less to a ledger than to one that lies within it. -/
theorem step (h : L.Within net L') (e : Event) : (L.step net e).Within net (L'.step net e) := by
  cases hmark : e.mark? with
  | none =>
    obtain ⟨d, hd⟩ := (Event.mark?_eq_none_iff e).mp hmark
    rw [step_of_dispatch net L hd, step_of_dispatch net L' hd, begin, begin, h.contains]
    split
    · exact h
    · exact h.put ((Journey.Within.refl net _).catchUp h.stock)
  | some k =>
    rw [step_of_mark net L hmark, step_of_mark net L' hmark]
    split
    · exact h.spread k e
    · exact h.deliver k e

end Within

/-! ### Events that are worked on again -/

/-- Of all dispatches among some events the messages are known. -/
def Knows (L : Ledger) (es : List Event) : Prop :=
  ∀ e ∈ es, ∀ d, e.data = .dispatch d → L.journeys.contains d.messageHash.text = true

theorem knows_steps (net : Network) (L : Ledger) (es : List Event) :
    (L.steps net es).Knows es := by
  intro e he d hd
  obtain ⟨j, hj⟩ := (L.covered_steps net he).exists_journey hd
  rw [SortedMap.contains, hj, Option.isSome_some]

theorem Within.knows (h : L.Within net L') (hknows : L.Knows es) : L'.Knows es := by
  intro e he d hd
  rw [h.contains]
  exact hknows e he d hd

/-- An event begins no journey of a message that is known. -/
theorem Moves.within (h : L.Moves net e L')
    (hknown : ∀ d, e.data = .dispatch d → L.journeys.contains d.messageHash.text = true) :
    L.Within net L' := by
  refine ⟨fun key => ?_, h.within_stock⟩
  cases hj : L.journeys.find? key with
  | some j =>
    obtain ⟨j', hj', hwithin⟩ := h.exists_within hj
    exact .inr ⟨j, j', rfl, hj', hwithin⟩
  | none =>
    refine .inl ⟨rfl, ?_⟩
    cases h.fate key with
    | same hfate => exact hfate.trans hj
    | went hi _ _ _ _ =>
      rw [hj] at hi
      cases hi
    | began hd hkey _ _ =>
      have hin := hknown _ hd
      rw [hkey, SortedMap.contains, hj] at hin
      cases hin

/-- An event that leaves a mark begins no journey. -/
theorem Moves.within_of_mark {k : Mark} (h : L.Moves net e L') (hmark : e.mark? = some k) :
    L.Within net L' := by
  refine h.within fun d hd => ?_
  rw [(Event.mark?_eq_none_iff e).mpr ⟨d, hd⟩] at hmark
  cases hmark

theorem Knows.within_steps (h : L.Knows es) (net : Network) : L.Within net (L.steps net es) :=
  steps_keep (fun he hmoves hwithin => Within.trans hwithin
    (hmoves.within fun d hd => Within.knows hwithin h _ he d hd)) (.refl net L)

/-- What was broken off begins no journey. -/
theorem Partial.within (h : L.Partial net e L') : L.Within net L' := by
  have hmoves := h.moves
  cases h with
  | nothing => exact .refl net _
  | some hmark _ _ _ => exact hmoves.within_of_mark hmark

end Ledger

end Waybill
