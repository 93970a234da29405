import Waybill.Proofs.Ledger.Moves
/-!
# Which event left each mark

Some events reach a message directly: those of its root, and those that are delivered to it because
it is the first one that looks for them. The last of these left the mark of their kind. Where there
was none, the mark was left by what waited for the message, if anything did. So nothing that waits
is ever left for a message to take up.

## Main definitions

* `Journey.hears`: an event concerns a message.
* `Ledger.reaches`: the work on an event leaves its mark on a message directly.
* `Ledger.direct`: those of some events that reach the message of a hash directly.
* `Journey.Settled`: a message has heard all that waits for it.

## Main results

* `Ledger.heard_steps_empty`: the event that left a mark.
* `Ledger.settled_steps_empty`: all messages are settled after any events.
-/

namespace Waybill

open Waybill.Pending Message

namespace Journey

variable {net : Network} {j : Journey} {i k : Mark} {e : Event} {s s' : Stock}

theorem heard_goOn_eq (net : Network) (j : Journey) (k : Mark) (e : Event) (s : Stock) (i : Mark) :
    (j.goOn net k e s).heard i =
      (if i = k ∧ (j.base net).heeds k e = true then some e else j.heard i).or
        ((j.base net).pending? s i) := by
  rw [goOn, heard_catchUp_eq, base_hear, heard_hear_eq]
  congr 1
  by_cases hheeds : (j.base net).heeds k e = true
  · simp only [hheeds, if_true, and_true, History.note]
  · simp only [hheeds, if_false, and_false, Bool.false_eq_true]

/-- What is pending for a mark stays the same when an event is kept that does not leave it. -/
theorem pending?_keep (h : ¬ j.Concerns net i e) :
    (j.base net).pending? (s.keep e) i = (j.base net).pending? s i := by
  rw [pending?, pending?]
  split
  case isFalse => rfl
  case isTrue hadmits =>
    cases hl : (j.base net).lookup? i with
    | none => rfl
    | some l =>
      by_cases he : Lookup.ofEvent? e = some l
      · have hheeds : (j.base net).heeds i e = false :=
          Bool.not_eq_true _ ▸ fun hheeds => h ⟨hadmits, hl.trans he.symm, hheeds⟩
        have hroot : l.keepsAll = true := by
          rw [l.keepsAll_eq_isOfRoot, mark_of_lookup? hl]
          cases hi : i.isOfRoot with
          | true => rfl
          | false => exact absurd (heeds_of_not_isOfRoot hi (j.base net) e) (by simp [hheeds])
        simp only [Option.elim_some]
        rw [Stock.held_keep_of_eq he, Lookup.arrange, if_pos hroot]
        split
        · rfl
        · rw [List.filter_append, List.filter_cons_of_neg (by simp [hheeds]), List.filter_nil,
            List.append_nil]
      · simp only [Option.elim_some]
        rw [Stock.held_keep_of_ne he]

/-- Whether an event concerns a message: it is one that the message looks for and that leaves its
mark. -/
def hears (net : Network) (j : Journey) (k : Mark) (e : Event) : Bool :=
  (j.base net).admits k && j.answers net k e && (j.base net).heeds k e

theorem hears_iff : j.hears net k e = true ↔ j.Concerns net k e := by
  have hans : j.answers net k e = true ↔ (j.base net).lookup? k = Lookup.ofEvent? e :=
    decide_eq_true_iff
  rw [hears, Bool.and_eq_true, Bool.and_eq_true, hans]
  exact ⟨fun h => ⟨h.1.1, h.1.2, h.2⟩, fun h => ⟨⟨h.admits, h.lookup⟩, h.heeds⟩⟩

/-- A message has heard an event of each mark for which one waits. -/
def Settled (net : Network) (j : Journey) (s : Stock) : Prop :=
  ∀ k, (j.heard k).isSome = true ∨ (j.base net).pending? s k = none

end Journey

namespace Ledger

variable (net : Network) (L : Ledger)

/-- The work on an event leaves its mark on the message directly: the event concerns it and, unless
it is for all messages of a root, is delivered to it. -/
def reaches (k : Mark) (e : Event) (j : Journey) : Bool :=
  j.hears net k e && (k.isOfRoot || (L.addressee? net k e).map Journey.key == some j.key)

/-- Those of some events that reach the message of a hash directly, as a ledger takes their
steps. -/
def direct (key : String) (k : Mark) : Ledger → List Event → List Event
  | _, [] => []
  | L, e :: es =>
    if (L.journeys.find? key).any (L.reaches net k e) then e :: direct key k (L.step net e) es
    else direct key k (L.step net e) es

/-- The events that left marks are the last ones listed as having reached the messages directly,
or else what is pending. -/
structure Traced (direct : String → Mark → List Event) : Prop where
  heard : ∀ {key j}, L.journeys.find? key = some j → ∀ k,
    j.heard k = (direct key k).getLast?.or ((j.base net).pending? L.stock k)
  fresh : ∀ {key}, L.journeys.find? key = none → ∀ k, direct key k = []

variable {net L} {k : Mark} {e : Event} {j : Journey}

theorem reaches_iff : L.reaches net k e j = true ↔ j.Concerns net k e ∧
    (k.isOfRoot = true ∨ (L.addressee? net k e).map Journey.key = some j.key) := by
  rw [reaches, Bool.and_eq_true, Journey.hears_iff, Bool.or_eq_true, beq_iff_eq]

/-! ### One step -/

section Step

variable {tr : Mark → List Event} {s s' : Stock}

theorem getLast?_append_ite (b : Bool) (es : List Event) (e : Event) :
    (es ++ if b then [e] else []).getLast? = if b then some e else es.getLast? := by
  cases b <;> simp

/-- A message that an event does not reach has the marks that it had. -/
theorem heard_of_not_reaches {i : Mark}
    (h : j.heard i = (tr i).getLast?.or ((j.base net).pending? s i))
    (hnot : L.reaches net i e j = false)
    (hs : (j.base net).pending? s' i = (j.base net).pending? s i) :
    j.heard i = (tr i ++ if L.reaches net i e j then [e] else []).getLast?.or
      ((j.base net).pending? s' i) := by
  rw [getLast?_append_ite, hnot, hs, h]
  rfl

/-- A message that goes on with an event has its mark from it, if the event concerns it, and
otherwise the marks that it had. -/
theorem heard_goOn_of_reaches
    (h : ∀ i, j.heard i = (tr i).getLast?.or ((j.base net).pending? s i))
    (hmark : e.mark? = some k) (hadmits : (j.base net).admits k = true)
    (hans : j.answers net k e = true)
    (haddr : k.isOfRoot = true ∨ (L.addressee? net k e).map Journey.key = some j.key)
    (hs : ∀ i, ¬ j.Concerns net i e → (j.base net).pending? s' i = (j.base net).pending? s i)
    (i : Mark) :
    (j.goOn net k e s').heard i =
      (tr i ++ if L.reaches net i e j then [e] else []).getLast?.or
        ((j.base net).pending? s' i) := by
  rw [Journey.heard_goOn_eq, getLast?_append_ite]
  by_cases hconcerns : j.Concerns net i e
  · obtain rfl : i = k := Option.some.inj (hconcerns.mark?.symm.trans hmark)
    rw [if_pos ⟨rfl, hconcerns.heeds⟩, reaches_iff.mpr ⟨hconcerns, haddr⟩]
    rfl
  · have hnot : L.reaches net i e j = false :=
      Bool.not_eq_true _ ▸ fun hreach => hconcerns (reaches_iff.mp hreach).1
    have hother : ¬ (i = k ∧ (j.base net).heeds k e = true) := by
      rintro ⟨rfl, hheeds⟩
      exact hconcerns ⟨hadmits, of_decide_eq_true hans, hheeds⟩
    rw [if_neg hother, hnot, hs i hconcerns, h i, Option.or_assoc, Option.or_self]
    rfl

end Step

namespace Traced

variable {tr : String → Mark → List Event}

/-- What has reached the messages directly once an event was worked on. -/
def extend (net : Network) (L : Ledger) (e : Event) (tr : String → Mark → List Event) :
    String → Mark → List Event :=
  fun key k => tr key k ++ if (L.journeys.find? key).any (L.reaches net k e) then [e] else []

theorem extend_of_find? {key : String} (hj : L.journeys.find? key = some j) (k : Mark) :
    extend net L e tr key k = tr key k ++ if L.reaches net k e j then [e] else [] := by
  rw [extend, hj, Option.any_some]

theorem fresh_extend (h : L.Traced net tr) {key : String}
    (hnone : (L.step net e).journeys.find? key = none) (k : Mark) :
    extend net L e tr key k = [] := by
  have hbefore : L.journeys.find? key = none := by
    cases (L.step_moves net e).fate key with
    | same hfate => exact hfate ▸ hnone
    | went _ _ _ _ hfate => simp [hfate] at hnone
    | began _ _ _ hfate => simp [hfate] at hnone
  rw [extend, h.fresh hbefore, hbefore]
  rfl

/-- A message that was just dispatched has heard what waited for it. -/
theorem began {d : Dispatch} (h : L.Traced net tr) (he : e.data = .dispatch d) :
    (L.begin net e d).Traced net (extend net L e tr) := by
  have hstep := step_of_dispatch net L he
  have hreach (i : Mark) (j : Journey) : L.reaches net i e j = false := by
    rw [← Bool.not_eq_true, reaches_iff]
    intro hreach
    have hnone := (Event.mark?_eq_none_iff e).mpr ⟨d, he⟩
    exact absurd (hreach.1.mark?.symm.trans hnone) (by simp)
  refine ⟨fun {key j} hj k => ?_, hstep ▸ h.fresh_extend⟩
  rw [begin] at hj ⊢
  split at hj
  · next hknown =>
    rw [if_pos hknown, extend_of_find? hj]
    exact heard_of_not_reaches (h.heard hj k) (hreach k j) rfl
  · next hnew =>
    rw [if_neg hnew]
    rw [Bool.not_eq_true, SortedMap.contains_eq_false_iff] at hnew
    rw [find?_put, Journey.key_catchUp, Journey.key_ofDispatch] at hj
    split at hj
    · next hkey =>
      cases hj
      rw [extend, hkey, hnew, h.fresh hnew, Journey.heard_catchUp_eq]
      rfl
    · rw [extend_of_find? hj]
      exact heard_of_not_reaches (h.heard hj k) (hreach k j) rfl

/-- An event of a root reaches all messages of the root that it concerns. -/
theorem spread (h : L.Traced net tr) (hmark : e.mark? = some k) (hroot : k.isOfRoot = true) :
    (L.spread net k e).Traced net (extend net L e tr) := by
  have hstep : L.step net e = L.spread net k e := by rw [step_of_mark net L hmark, if_pos hroot]
  refine ⟨fun {key j'} hj' i => ?_, hstep ▸ h.fresh_extend⟩
  rw [Ledger.spread, revise, SortedMap.find?_map, Option.map_eq_some_iff] at hj'
  obtain ⟨j, (hj : L.journeys.find? key = some j), rfl⟩ := hj'
  rw [extend_of_find? hj]
  cases hans : j.answers net k e with
  | true =>
    rw [if_pos rfl, Journey.base_goOn]
    exact heard_goOn_of_reaches (h.heard hj) hmark (admits_of_isOfRoot hroot _) hans (.inl hroot)
      (fun _ => Journey.pending?_keep) i
  | false =>
    have hother : ¬ j.Concerns net i e := by
      intro hconcerns
      obtain rfl : i = k := Option.some.inj (hconcerns.mark?.symm.trans hmark)
      rw [Journey.answers, hconcerns.lookup, decide_eq_true rfl] at hans
      cases hans
    rw [if_neg (by simp)]
    exact heard_of_not_reaches (h.heard hj i)
      (Bool.not_eq_true _ ▸ fun hreach => hother (reaches_iff.mp hreach).1)
      (Journey.pending?_keep hother)

/-- An event that is for one message reaches the first one that looks for it, or is kept. -/
theorem deliver (h : L.Traced net tr) (hmark : e.mark? = some k) (hroot : k.isOfRoot = false) :
    (L.deliver net k e).Traced net (extend net L e tr) := by
  have hstep : L.step net e = L.deliver net k e := by
    rw [step_of_mark net L hmark, if_neg (by simp [hroot])]
  refine ⟨fun {key j'} hj' i => ?_, hstep ▸ h.fresh_extend⟩
  rw [Ledger.deliver] at hj' ⊢
  cases haddr : L.addressee? net k e with
  | none =>
    simp only [haddr] at hj' ⊢
    replace hj' : L.journeys.find? key = some j' := hj'
    have hother : ¬ j'.Concerns net i e := by
      intro hconcerns
      obtain rfl : i = k := Option.some.inj (hconcerns.mark?.symm.trans hmark)
      have hans := addressee?_eq_none net haddr hj'
      rw [Journey.answers, hconcerns.lookup, decide_eq_true rfl] at hans
      cases hans
    rw [extend_of_find? hj']
    exact heard_of_not_reaches (h.heard hj' i)
      (Bool.not_eq_true _ ▸ fun hreach => hother (reaches_iff.mp hreach).1)
      (Journey.pending?_keep hother)
  | some j =>
    obtain ⟨hfind, hans⟩ := addressee?_eq_some net haddr
    simp only [haddr] at hj' ⊢
    -- no other message is reached
    have hunreached {key : String} {i' : Journey} (hi' : L.journeys.find? key = some i')
        (hne : key = j.key → (j.base net).admits k = false) : L.reaches net i e i' = false := by
      rw [← Bool.not_eq_true, reaches_iff]
      rintro ⟨hconcerns, hkey⟩
      obtain rfl : i = k := Option.some.inj (hconcerns.mark?.symm.trans hmark)
      rw [hroot, haddr, L.keyed hi'] at hkey
      obtain rfl : j.key = key := by simpa using hkey
      obtain rfl := Option.some.inj (hfind.symm.trans hi')
      exact absurd hconcerns.admits (by simp [hne rfl])
    split at hj'
    · next hadmits =>
      rw [if_pos hadmits]
      rw [find?_put, Journey.key_goOn] at hj'
      split at hj'
      · next hkey =>
        cases hj'
        rw [extend_of_find? (hkey ▸ hfind), Journey.base_goOn]
        exact heard_goOn_of_reaches (h.heard (hkey ▸ hfind)) hmark hadmits hans
          (.inr (by rw [haddr, Option.map_some])) (fun _ _ => rfl) i
      · next hkey =>
        rw [extend_of_find? hj']
        exact heard_of_not_reaches (h.heard hj' i)
          (hunreached hj' fun hsame => absurd hsame hkey) rfl
    · next hrefuses =>
      rw [if_neg hrefuses, extend_of_find? hj']
      exact heard_of_not_reaches (h.heard hj' i)
        (hunreached hj' fun _ => by simpa using hrefuses) rfl

theorem step (h : L.Traced net tr) (e : Event) :
    (L.step net e).Traced net (extend net L e tr) := by
  cases hmark : e.mark? with
  | none =>
    obtain ⟨d, hd⟩ := (Event.mark?_eq_none_iff e).mp hmark
    rw [step_of_dispatch net L hd]
    exact h.began hd
  | some k =>
    rw [step_of_mark net L hmark]
    split
    · next hroot => exact h.spread hmark hroot
    · next hroot => exact h.deliver hmark (by simpa using hroot)

theorem steps (h : L.Traced net tr) (es : List Event) :
    (L.steps net es).Traced net fun key k => tr key k ++ direct net key k L es := by
  induction es generalizing L tr with
  | nil =>
    simp only [direct, List.append_nil]
    exact h
  | cons e es ih =>
    have hnext := ih (h.step e)
    have hsame (key : String) (k : Mark) : extend net L e tr key k ++
        direct net key k (L.step net e) es = tr key k ++ direct net key k L (e :: es) := by
      rw [extend, direct, List.append_assoc]
      split <;> rfl
    simp only [hsame] at hnext
    exact hnext

theorem empty (net : Network) : Ledger.empty.Traced net fun _ _ => [] where
  heard h := by cases h
  fresh _ _ := rfl

end Traced

/-- After events the mark of a message is of the last one that reached it directly, or else of what
is pending for it. -/
theorem heard_steps_empty {es : List Event} {key : String}
    (hj : (empty.steps net es).journeys.find? key = some j) (k : Mark) :
    j.heard k = (direct net key k empty es).getLast?.or
      ((j.base net).pending? (empty.steps net es).stock k) :=
  ((Traced.empty net).steps es).heard hj k

/-- After events every message has heard all that waits for it. -/
theorem settled_steps_empty {es : List Event} {key : String}
    (hj : (empty.steps net es).journeys.find? key = some j) :
    j.Settled net (empty.steps net es).stock := by
  intro k
  rw [heard_steps_empty hj k, Option.isSome_or]
  cases (j.base net).pending? (empty.steps net es).stock k with
  | none => exact .inr rfl
  | some e => exact .inl (Bool.or_true _)

end Ledger

end Waybill
