import Waybill.Proofs.Ledger.Reached
import Waybill.Proofs.Ledger.Within
/-!
# Events that are repeated

An event that is repeated at once does nothing: what it let wait waits already, a message that went
on with it goes on to where it is, and a message that it began is known. So the step of an event
leads to a ledger on which its step leads nowhere, and neither does any part of it.

## Main results

* `Ledger.step_step`: the step of an event that is repeated.
* `Ledger.Partial.eq_of_step_eq`: a part of a step that leads nowhere.
-/

namespace Waybill

open Waybill.Pending Message

namespace Pending

theorem Lookup.arrange_arrange (l : Lookup) (es : List Event) (e : Event) :
    l.arrange (l.arrange es e) e = l.arrange es e := by
  by_cases hl : l.keepsAll = true
  · have hmem : e ∈ l.arrange es e := mem_arrange_self
    rw [arrange, if_pos hl, if_pos hmem]
  · rw [arrange, if_neg hl, arrange, if_neg hl]

namespace Stock

theorem ext_held {s s' : Stock} (h : ∀ l, s.held l = s'.held l) : s = s' := by
  obtain ⟨held, _, _⟩ := s
  obtain ⟨held', _, _⟩ := s'
  obtain rfl : held = held' := funext h
  rfl

/-- An event that waits already is kept again without a change. -/
theorem keep_keep (s : Stock) (e : Event) : (s.keep e).keep e = s.keep e := by
  refine ext_held fun l => ?_
  by_cases he : Lookup.ofEvent? e = some l
  · rw [held_keep_of_eq he, held_keep_of_eq he, l.arrange_arrange]
  · rw [held_keep_of_ne he]

end Stock

end Pending

namespace Journey

theorem ext_heard {i j : Journey} (hstart : i.start = j.start) (hdispatch : i.dispatch = j.dispatch)
    (hheard : ∀ k, i.heard k = j.heard k) : i = j := by
  obtain ⟨start, dispatch, heard⟩ := i
  obtain ⟨start', dispatch', heard'⟩ := j
  obtain rfl : start = start' := hstart
  obtain rfl : dispatch = dispatch' := hdispatch
  obtain rfl : heard = heard' := funext hheard
  rfl

/-- A message that goes on with the same event again stays where it is. -/
theorem goOn_goOn (net : Network) (j : Journey) (k : Mark) (e : Event) (s : Stock) :
    (j.goOn net k e s).goOn net k e s = j.goOn net k e s := by
  refine ext_heard (start_goOn net _ k e s) (dispatch_goOn net _ k e s) fun i => ?_
  rw [heard_goOn_eq, base_goOn]
  split
  · next hleft => rw [heard_goOn_eq, if_pos hleft]
  · next hleft => rw [heard_goOn_eq, if_neg hleft, Option.or_assoc, Option.or_self]

end Journey

namespace Ledger

variable {net : Network} {L L' : Ledger} {e : Event} {k : Mark}

theorem ext_find? (hjourneys : ∀ key, L.journeys.find? key = L'.journeys.find? key)
    (hstock : L.stock = L'.stock) : L = L' := by
  obtain ⟨journeys, stock, _⟩ := L
  obtain ⟨journeys', stock', _⟩ := L'
  obtain rfl : journeys = journeys' := SortedMap.ext_find? hjourneys
  obtain rfl : stock = stock' := hstock
  rfl

/-- Putting a journey to where it is. -/
theorem put_eq_self {j : Journey} (hj : L.journeys.find? j.key = some j) : L.put j = L := by
  refine ext_find? (fun key => ?_) rfl
  rw [find?_put]
  split
  · next hkey => rw [hkey, hj]
  · rfl

/-! ### Steps that are repeated -/

theorem begin_begin (net : Network) (L : Ledger) (e : Event) (d : Dispatch) :
    (L.begin net e d).begin net e d = L.begin net e d := by
  have hknown : (L.begin net e d).journeys.contains d.messageHash.text = true := by
    rw [begin]
    split
    · assumption
    · rw [SortedMap.contains, find?_put, Journey.key_catchUp, Journey.key_ofDispatch, if_pos rfl]
      rfl
  rw [begin, if_pos hknown]

theorem spread_spread (net : Network) (L : Ledger) (k : Mark) (e : Event) :
    (L.spread net k e).spread net k e = L.spread net k e := by
  refine ext_find? (fun key => ?_) (L.stock.keep_keep e)
  have hstock : (L.spread net k e).stock.keep e = L.stock.keep e := L.stock.keep_keep e
  rw [find?_spread, find?_spread, hstock]
  cases L.journeys.find? key with
  | none => rfl
  | some j =>
    simp only [Option.map_some]
    by_cases hans : j.answers net k e = true
    · have hans' : (j.goOn net k e (L.stock.keep e)).answers net k e = true :=
        (Journey.answers_congr net (j.base_goOn net k e _) k e).trans hans
      rw [if_pos hans, if_pos hans', j.goOn_goOn]
    · rw [if_neg hans, if_neg hans]

/-- An event is for the same message again, which has gone on with it if it takes such events. -/
theorem addressee?_deliver (net : Network) (L : Ledger) (hmark : e.mark? = some k) :
    (L.deliver net k e).addressee? net k e = (L.addressee? net k e).map fun j =>
      if (j.base net).admits k then j.goOn net k e L.stock else j := by
  have hmoves : L.Moves net e (L.deliver net k e) := deliver_moves hmark
  rcases (hmoves.within_of_mark hmark).addressee? k e with
    ⟨hnone, hnone'⟩ | ⟨j, j', hj, hj', hwithin⟩
  · rw [hnone, hnone', Option.map_none]
  · have hfind := (addressee?_eq_some net hj').1
    rw [hwithin.key, deliver_of_some net hj] at hfind
    rw [hj, hj', Option.map_some]
    split
    · next hadmits =>
      rw [if_pos hadmits, find?_put, if_pos (j.key_goOn net k e _).symm] at hfind
      exact hfind.symm
    · next hrefuses =>
      rw [if_neg hrefuses, (addressee?_eq_some net hj).1] at hfind
      exact hfind.symm

theorem deliver_deliver (net : Network) (L : Ledger) (hmark : e.mark? = some k) :
    (L.deliver net k e).deliver net k e = L.deliver net k e := by
  have hagain := addressee?_deliver net L hmark
  cases hj : L.addressee? net k e with
  | none =>
    rw [hj, Option.map_none] at hagain
    rw [deliver_of_none net hagain, deliver_of_none net hj]
    exact ext_find? (fun _ => rfl) (L.stock.keep_keep e)
  | some j =>
    rw [hj, Option.map_some] at hagain
    rw [deliver_of_some net hagain]
    have hstep := deliver_of_some net hj
    by_cases hadmits : (j.base net).admits k = true
    · simp only [if_pos hadmits] at hagain hstep ⊢
      rw [j.base_goOn, if_pos hadmits]
      have hstock : (L.deliver net k e).stock = L.stock := by rw [hstep, put]
      rw [hstock, j.goOn_goOn]
      exact put_eq_self (addressee?_eq_some net hagain).1
    · simp only [if_neg hadmits]

/-- The step of an event that is repeated at once leads nowhere. -/
theorem step_step (net : Network) (L : Ledger) (e : Event) :
    (L.step net e).step net e = L.step net e := by
  cases hmark : e.mark? with
  | none =>
    obtain ⟨d, hd⟩ := (Event.mark?_eq_none_iff e).mp hmark
    rw [step_of_dispatch net _ hd, step_of_dispatch net L hd, begin_begin]
  | some k =>
    rw [step_of_mark net _ hmark, step_of_mark net L hmark]
    split
    · exact spread_spread net L k e
    · exact deliver_deliver net L hmark

/-- Where the step of an event leads nowhere, no part of it does. -/
theorem Partial.eq_of_step_eq (h : L.Partial net e L') (hstep : L.step net e = L) : L' = L := by
  cases h with
  | nothing => rfl
  | @some _ k hmark hroot hstock hjourneys =>
    refine ext_find? (fun key => ?_) ?_
    · have hcases := hjourneys key
      rwa [hstep, or_self] at hcases
    · have hkept := congrArg Ledger.stock hstep
      rw [step_of_mark net L hmark, if_pos hroot] at hkept
      exact hstock.trans hkept

end Ledger

end Waybill
