import Waybill.Proofs.Ledger.Basic
/-!
# What an event does to a ledger

Whether its work was done to the end or broken off, an event leaves every journey as it was, lets
it go on, or begins it; and it waits or it does not. Events that were heard stay heard, or others
take their place.

## Main definitions

* `Journey.Concerns`: an event leaves a mark on the message.
* `Journey.Within`: a message and the same one later.
* `Ledger.Moves`: all that an event can do to a ledger.

## Main results

* `Ledger.Moves.exists_within`: no message is lost, and none loses a mark.
* `Ledger.step_moves`, `Ledger.Partial.moves`: the step of an event, and what it leaves behind when
  it was broken off.
* `Ledger.steps_keep`: what every move of a ledger keeps, a run keeps.
* `Journey.heard_goOn`, `Journey.heard_catchUp`: where the events that were heard come from.
-/

namespace Waybill

open Waybill.Pending Message

/-! ### Journeys -/

namespace Journey

variable {net : Network} {j : Journey} {k i : Mark} {e d : Event} {s : Stock}

/-- An event leaves a mark on the message: the message takes the mark, looks for the event, and
heeds it. -/
structure Concerns (net : Network) (j : Journey) (k : Mark) (e : Event) : Prop where
  admits : (j.base net).admits k = true
  lookup : (j.base net).lookup? k = Lookup.ofEvent? e
  heeds : (j.base net).heeds k e = true

/-- The lookup that an event answers which concerns a message. -/
theorem Concerns.exists_lookup (h : j.Concerns net k e) :
    ∃ l, (j.base net).lookup? k = some l ∧ Lookup.ofEvent? e = some l ∧ l.mark = k := by
  cases hl : (j.base net).lookup? k with
  | none =>
    have hadmits := h.admits
    rw [lookup?_eq_none hl] at hadmits
    cases hadmits
  | some l => exact ⟨l, rfl, h.lookup ▸ hl, mark_of_lookup? hl⟩

theorem Concerns.mark? (h : j.Concerns net k e) : e.mark? = some k := by
  obtain ⟨l, -, hl, rfl⟩ := h.exists_lookup
  exact Lookup.mark_of_ofEvent? hl

theorem Concerns.of_base {i : Journey} (hbase : i.base net = j.base net)
    (h : i.Concerns net k e) : j.Concerns net k e :=
  ⟨hbase ▸ h.admits, hbase ▸ h.lookup, hbase ▸ h.heeds⟩

/-- What is pending for a mark waits and concerns the message. -/
theorem pending?_eq_some (h : (j.base net).pending? s k = some e) :
    j.Concerns net k e ∧ ∃ l, e ∈ s.held l := by
  rw [pending?] at h
  split at h
  · next hadmits =>
    have hmem := List.mem_of_getLast? h
    rw [List.mem_filter] at hmem
    cases hl : (j.base net).lookup? k with
    | none => simp [hl] at hmem
    | some l =>
      rw [hl, Option.elim_some] at hmem
      exact ⟨⟨hadmits, hl.trans (s.fitting hmem.1).symm, hmem.2⟩, l, hmem.1⟩
  · cases h

/-- Something is pending for a mark if an event waits that concerns the message. -/
theorem isSome_pending? (hadmits : (j.base net).admits k = true) {l : Lookup}
    (hl : (j.base net).lookup? k = some l) (he : e ∈ s.held l)
    (hheeds : (j.base net).heeds k e = true) : ((j.base net).pending? s k).isSome = true := by
  have hmem : e ∈ (s.held l).filter ((j.base net).heeds k) := List.mem_filter.mpr ⟨he, hheeds⟩
  rw [pending?, if_pos hadmits, hl, Option.elim_some, List.getLast?_isSome]
  exact List.ne_nil_of_mem hmem

/-- What a message has heard when it has caught up, it had heard or was pending for it. -/
theorem heard_catchUp (h : (j.catchUp net s).heard i = some d) :
    j.heard i = some d ∨ j.Concerns net i d ∧ ∃ l, d ∈ s.held l := by
  rw [heard_catchUp_eq, Option.or_eq_some_iff] at h
  exact h.imp_right fun h => pending?_eq_some h.2

theorem isSome_heard_catchUp (h : (j.heard i).isSome = true) :
    ((j.catchUp net s).heard i).isSome = true := by
  rw [heard_catchUp_eq, Option.isSome_or, h, Bool.true_or]

/-- A message that has caught up has heard an event of each mark for which one waits. -/
theorem isSome_heard_of_held (hadmits : (j.base net).admits i = true) {l : Lookup}
    (hl : (j.base net).lookup? i = some l) (hd : d ∈ s.held l)
    (hheeds : (j.base net).heeds i d = true) : ((j.catchUp net s).heard i).isSome = true := by
  rw [heard_catchUp_eq, Option.isSome_or, isSome_pending? hadmits hl hd hheeds, Bool.or_true]

/-- What a message has heard after an event, it had heard, or it is that event. -/
theorem heard_hear (h : (j.hear net k e).heard i = some d) :
    j.heard i = some d ∨ i = k ∧ d = e ∧ (j.base net).heeds k e = true := by
  rw [heard_hear_eq] at h
  split at h
  · next hheeds =>
    by_cases hi : i = k
    · subst hi
      rw [History.note_self] at h
      exact .inr ⟨rfl, (Option.some.inj h).symm, hheeds⟩
    · rw [History.note_of_ne _ hi] at h
      exact .inl h
  · exact .inl h

theorem isSome_heard_hear (h : (j.heard i).isSome = true) :
    ((j.hear net k e).heard i).isSome = true := by
  rw [heard_hear_eq]
  split
  · by_cases hi : i = k
    · subst hi
      rw [History.note_self, Option.isSome_some]
    · rwa [History.note_of_ne _ hi]
  · exact h

/-- Where the events come from that a message has heard when it went on with one. -/
theorem heard_goOn (hadmits : (j.base net).admits k = true) (hans : j.answers net k e = true)
    (h : (j.goOn net k e s).heard i = some d) :
    j.heard i = some d ∨ j.Concerns net i d ∧ (d = e ∨ ∃ l, d ∈ s.held l) := by
  rcases heard_catchUp h with h | ⟨hconcerns, hheld⟩
  · rcases heard_hear h with h | ⟨rfl, rfl, hheeds⟩
    · exact .inl h
    · exact .inr ⟨⟨hadmits, of_decide_eq_true hans, hheeds⟩, .inl rfl⟩
  · exact .inr ⟨hconcerns.of_base (base_hear net j k e), .inr hheld⟩

theorem isSome_heard_goOn (h : (j.heard i).isSome = true) :
    ((j.goOn net k e s).heard i).isSome = true :=
  isSome_heard_catchUp (isSome_heard_hear h)

/-- A message and the same one later: of each mark of which it had heard an event, it has heard
one. -/
structure Within (net : Network) (j j' : Journey) : Prop where
  base : j'.base net = j.base net
  heard : ∀ k, (j.heard k).isSome = true → (j'.heard k).isSome = true

theorem Within.refl (net : Network) (j : Journey) : j.Within net j := ⟨rfl, fun _ h => h⟩

theorem Within.trans {j' j'' : Journey} (h : j.Within net j') (h' : j'.Within net j'') :
    j.Within net j'' :=
  ⟨h'.base.trans h.base, fun k hk => h'.heard k (h.heard k hk)⟩

theorem within_goOn (net : Network) (j : Journey) (k : Mark) (e : Event) (s : Stock) :
    j.Within net (j.goOn net k e s) :=
  ⟨base_goOn net j k e s, fun _ h => isSome_heard_goOn h⟩

/-- A message has heard the event that it went on with, if it heeds it. -/
theorem isSome_heard_goOn_self (h : (j.base net).heeds k e = true) :
    ((j.goOn net k e s).heard k).isSome = true := by
  refine isSome_heard_catchUp ?_
  rw [heard_hear_eq, if_pos h, History.note_self, Option.isSome_some]

end Journey

namespace Ledger

variable {net : Network} {L L' : Ledger} {e : Event} {k : Mark}

/-! ### Moves -/

/-- What an event does to the journey of a hash: nothing, or it lets it go on, or begins it. -/
inductive Fate (net : Network) (L : Ledger) (e : Event) (L' : Ledger) (key : String) : Prop
  | same (h : L'.journeys.find? key = L.journeys.find? key)
  | went {j : Journey} {k : Mark} (hj : L.journeys.find? key = some j)
      (hmark : e.mark? = some k) (hans : j.answers net k e = true)
      (hadmits : (j.base net).admits k = true)
      (h : L'.journeys.find? key = some (j.goOn net k e L'.stock))
  | began {d : Dispatch} (he : e.data = .dispatch d) (hkey : d.messageHash.text = key)
      (hnone : L.journeys.find? key = none)
      (h : L'.journeys.find? key = some ((Journey.ofDispatch e d).catchUp net L'.stock))

/-- All that an event can do to a ledger. -/
structure Moves (net : Network) (L : Ledger) (e : Event) (L' : Ledger) : Prop where
  stock : L'.stock = L.stock ∨ L'.stock = L.stock.keep e
  fate : ∀ key, Fate net L e L' key

/-- What waits goes on waiting, or another event does in its place. -/
theorem Moves.within_stock (h : L.Moves net e L') : L.stock.Within L'.stock := by
  rcases h.stock with hstock | hstock
  · exact hstock ▸ .refl _
  · exact hstock ▸ Stock.within_keep _ e

/-- A message that is known stays known, and is as far. -/
theorem Moves.exists_within (h : L.Moves net e L') {key : String} {j : Journey}
    (hj : L.journeys.find? key = some j) :
    ∃ j', L'.journeys.find? key = some j' ∧ j.Within net j' := by
  cases h.fate key with
  | same hfate => exact ⟨j, hfate.trans hj, .refl net j⟩
  | @went i k hi _ _ _ hfate =>
    obtain rfl := Option.some.inj (hj.symm.trans hi)
    exact ⟨_, hfate, j.within_goOn net k e _⟩
  | began _ _ hnone _ =>
    rw [hj] at hnone
    cases hnone

theorem begin_moves {d : Dispatch} (he : e.data = .dispatch d) :
    L.Moves net e (L.begin net e d) := by
  rw [begin]
  split
  · exact ⟨.inl rfl, fun key => .same rfl⟩
  · next hnew =>
    rw [Bool.not_eq_true, SortedMap.contains_eq_false_iff] at hnew
    refine ⟨.inl rfl, fun key => ?_⟩
    have hput := L.find?_put ((Journey.ofDispatch e d).catchUp net L.stock) key
    rw [Journey.key_catchUp, Journey.key_ofDispatch] at hput
    by_cases hkey : key = d.messageHash.text
    · rw [if_pos hkey] at hput
      exact .began he hkey.symm (hkey ▸ hnew) hput
    · rw [if_neg hkey] at hput
      exact .same hput

theorem spread_moves (hmark : e.mark? = some k) (hroot : k.isOfRoot = true) :
    L.Moves net e (L.spread net k e) := by
  refine ⟨.inr rfl, fun key => ?_⟩
  have hfind := L.find?_spread net k e key
  cases hj : L.journeys.find? key with
  | none => exact .same (by rw [hfind, hj, Option.map_none])
  | some j =>
    rw [hj, Option.map_some] at hfind
    cases hans : j.answers net k e with
    | true =>
      rw [if_pos hans] at hfind
      exact .went hj hmark hans (admits_of_isOfRoot hroot _) hfind
    | false =>
      rw [if_neg (by simp [hans])] at hfind
      exact .same (hfind.trans hj.symm)

theorem deliver_moves (hmark : e.mark? = some k) : L.Moves net e (L.deliver net k e) := by
  rw [deliver]
  cases hj : L.addressee? net k e with
  | none => exact ⟨.inr rfl, fun key => .same rfl⟩
  | some j =>
    obtain ⟨hfind, hans⟩ := addressee?_eq_some net hj
    simp only
    split
    · next hadmits =>
      refine ⟨.inl rfl, fun key => ?_⟩
      have hput := L.find?_put (j.goOn net k e L.stock) key
      rw [j.key_goOn] at hput
      by_cases hkey : key = j.key
      · rw [if_pos hkey] at hput
        exact .went (hkey ▸ hfind) hmark hans hadmits hput
      · rw [if_neg hkey] at hput
        exact .same hput
    · exact ⟨.inl rfl, fun key => .same rfl⟩

/-- All that the step of an event does. -/
theorem step_moves (net : Network) (L : Ledger) (e : Event) : L.Moves net e (L.step net e) := by
  cases hmark : e.mark? with
  | none =>
    obtain ⟨d, hd⟩ := (Event.mark?_eq_none_iff e).mp hmark
    rw [step_of_dispatch net L hd]
    exact begin_moves hd
  | some k =>
    rw [step_of_mark net L hmark]
    split
    · next hroot => exact spread_moves hmark hroot
    · exact deliver_moves hmark

/-- All that an event leaves behind when the work on it was broken off. -/
theorem Partial.moves (h : L.Partial net e L') : L.Moves net e L' := by
  cases h with
  | nothing => exact ⟨.inl rfl, fun key => .same rfl⟩
  | some hmark' hroot hstock hjourneys =>
    refine ⟨.inr hstock, fun key => ?_⟩
    rcases hjourneys key with hsame | hstep
    · exact .same hsame
    · cases (L.step_moves net e).fate key with
      | same h => exact .same (hstep.trans h)
      | went hj hmark hans hadmits h =>
        have hend : (L.step net e).stock = L'.stock := by
          rw [step_of_mark net L hmark', if_pos hroot]
          exact hstock.symm
        exact .went hj hmark hans hadmits (hend ▸ hstep.trans h)
      | began he hkey hnone h =>
        rw [(Event.mark?_eq_none_iff e).mpr ⟨_, he⟩] at hmark'
        cases hmark'

/-- What every event keeps as it moves a ledger, the steps of the events keep. -/
theorem steps_keep {P : Ledger → Prop} {es : List Event}
    (hkeep : ∀ {L L' e}, e ∈ es → L.Moves net e L' → P L → P L') (hL : P L) :
    P (L.steps net es) := by
  induction es generalizing L with
  | nil => exact hL
  | cons e es ih =>
    exact ih (fun hd => hkeep (List.mem_cons_of_mem e hd))
      (hkeep List.mem_cons_self (L.step_moves net e) hL)

end Ledger

end Waybill
