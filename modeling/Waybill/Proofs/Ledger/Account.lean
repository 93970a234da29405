import Waybill.Proofs.Ledger.Moves
/-!
# Every event is accounted for, and nothing else is

Two invariants tie a ledger to the events that were worked on. Nothing is invented: what waits and
what was heard are such events, and what was heard concerns the message. Nothing is lost: an event
was heard by the messages that it concerns, or something waits from which they will hear it. Both
survive an event whose work was broken off, and working on an event again makes up for it.

## Main definitions

* `Ledger.Sound`: all that a ledger holds comes from the given events.
* `Ledger.Covered`: an event is accounted for.

## Main results

* `Ledger.Sound.steps`, `Ledger.Covered.steps`, `Ledger.covered_steps`: the invariants over a run.
* `Ledger.Sound.isSome_heard_iff`: a mark was left exactly if there was an event for it.
-/

namespace Waybill

open Waybill.Pending Message

namespace Ledger

variable {net : Network} {L L' : Ledger} {es : List Event} {d e : Event} {k : Mark}

/-! ### Nothing is invented -/

/-- All that a ledger holds comes from the given events. -/
structure Sound (net : Network) (es : List Event) (L : Ledger) : Prop where
  held : ∀ {l e}, e ∈ L.stock.held l → e ∈ es
  start : ∀ {key j}, L.journeys.find? key = some j →
    j.start ∈ es ∧ j.start.data = .dispatch j.dispatch
  heard : ∀ {key j k e}, L.journeys.find? key = some j → j.heard k = some e →
    e ∈ es ∧ j.Concerns net k e

theorem sound_empty (net : Network) (es : List Event) : empty.Sound net es where
  held h := by cases h
  start h := by cases h
  heard h := by cases h

theorem Sound.mono (h : L.Sound net es) {fs : List Event} (hsub : ∀ e ∈ es, e ∈ fs) :
    L.Sound net fs :=
  ⟨fun hheld => hsub _ (h.held hheld), fun hj => ⟨hsub _ (h.start hj).1, (h.start hj).2⟩,
    fun hj hk => ⟨hsub _ (h.heard hj hk).1, (h.heard hj hk).2⟩⟩

theorem Sound.moves (h : L.Sound net es) (he : e ∈ es) (hmoves : L.Moves net e L') :
    L'.Sound net es := by
  have hheld : ∀ {l d}, d ∈ L'.stock.held l → d ∈ es := by
    intro l d hd
    rcases hmoves.stock with hstock | hstock
    · exact h.held (hstock ▸ hd)
    · rw [hstock] at hd
      rcases Stock.mem_of_mem_keep hd with rfl | hd
      · exact he
      · exact h.held hd
  refine ⟨hheld, fun {key j'} hj' => ?_, fun {key j' k d} hj' hd => ?_⟩
  · cases hmoves.fate key with
    | same hfate => exact h.start (hfate ▸ hj')
    | went hj _ _ _ hfate =>
      obtain rfl := Option.some.inj (hfate.symm.trans hj')
      rw [Journey.start_goOn, Journey.dispatch_goOn]
      exact h.start hj
    | began hdata _ _ hfate =>
      obtain rfl := Option.some.inj (hfate.symm.trans hj')
      exact ⟨he, hdata⟩
  · cases hmoves.fate key with
    | same hfate => exact h.heard (hfate ▸ hj') hd
    | went hj _ hans hadmits hfate =>
      obtain rfl := Option.some.inj (hfate.symm.trans hj')
      rcases Journey.heard_goOn hadmits hans hd with hd | ⟨hconcerns, hfrom⟩
      · exact ⟨(h.heard hj hd).1, (h.heard hj hd).2.of_base (by simp)⟩
      · refine ⟨?_, hconcerns.of_base (by simp)⟩
        rcases hfrom with rfl | ⟨l, hl⟩
        · exact he
        · exact hheld hl
    | began _ _ _ hfate =>
      obtain rfl := Option.some.inj (hfate.symm.trans hj')
      rcases Journey.heard_catchUp hd with hd | ⟨hconcerns, l, hl⟩
      · cases hd
      · exact ⟨hheld hl, hconcerns.of_base (Journey.base_catchUp net _ _).symm⟩

theorem Sound.steps (h : L.Sound net es) {ds : List Event} (hds : ∀ d ∈ ds, d ∈ es) :
    (L.steps net ds).Sound net es :=
  steps_keep (fun he hmoves hsound => Sound.moves hsound (hds _ he) hmoves) h

theorem sound_steps_empty (net : Network) (es : List Event) : (empty.steps net es).Sound net es :=
  (sound_empty net es).steps fun _ hd => hd

/-- A message heard nothing of a mark that it does not take. -/
theorem Sound.heard_eq_none (h : L.Sound net es) {key : String} {j : Journey}
    (hj : L.journeys.find? key = some j) (hadmits : (j.base net).admits k = false) :
    j.heard k = none := by
  rw [Option.eq_none_iff_forall_ne_some]
  intro e he
  rw [(h.heard hj he).2.admits] at hadmits
  cases hadmits

/-! ### Nothing is lost -/

/-- An event is accounted for. -/
inductive Covered (net : Network) (L : Ledger) (e : Event) : Prop
  /-- The message of a dispatch is known. -/
  | dispatched {d : Dispatch} {j : Journey} (he : e.data = .dispatch d)
      (hj : L.journeys.find? d.messageHash.text = some j)
  /-- An event of a root waits, and all messages that it concerns have heard one of its mark. -/
  | spread {k : Mark} {l : Lookup} (hmark : e.mark? = some k) (hroot : k.isOfRoot = true)
      (hl : Lookup.ofEvent? e = some l) (hheld : e ∈ L.stock.held l)
      (hheard : ∀ {key j}, L.journeys.find? key = some j → j.Concerns net k e →
        (j.heard k).isSome = true)
  /-- A message that an event is for has heard one of its mark, if it takes the mark. -/
  | delivered {k : Mark} {key : String} {j : Journey} (hmark : e.mark? = some k)
      (hroot : k.isOfRoot = false) (hj : L.journeys.find? key = some j)
      (hans : j.answers net k e = true)
      (hheard : (j.base net).admits k = true → (j.heard k).isSome = true)
  /-- No message is known that an event is for, and it waits, or another one does in its place. -/
  | waiting {k : Mark} {l : Lookup} (hmark : e.mark? = some k) (hroot : k.isOfRoot = false)
      (hl : Lookup.ofEvent? e = some l) (hheld : L.stock.held l ≠ [])
      (hnone : ∀ {key j}, L.journeys.find? key = some j → j.answers net k e = false)

/-- A message that looks for an event for which none looked before was dispatched just now, and
has heard what waited for it. -/
theorem Moves.isSome_heard_of_answers (hmoves : L.Moves net e L') {k : Mark} {l : Lookup}
    (hroot : k.isOfRoot = false) (hl : Lookup.ofEvent? d = some l) (hheld : L.stock.held l ≠ [])
    (hnone : ∀ {key j}, L.journeys.find? key = some j → j.answers net k d = false) {key : String}
    {j : Journey} (hj : L'.journeys.find? key = some j) (hans : j.answers net k d = true)
    (hadmits : (j.base net).admits k = true) : (j.heard k).isSome = true := by
  cases hmoves.fate key with
  | same hfate =>
    have hfalse := hnone (hfate ▸ hj)
    rw [hans] at hfalse
    cases hfalse
  | went hi _ _ _ hfate =>
    obtain rfl := Option.some.inj (hfate.symm.trans hj)
    have hfalse := hnone hi
    rw [← Journey.answers_congr net (Journey.base_goOn net _ _ _ _), hans] at hfalse
    cases hfalse
  | began _ _ _ hfate =>
    obtain rfl := Option.some.inj (hfate.symm.trans hj)
    obtain ⟨e', he'⟩ := List.exists_mem_of_ne_nil _ (hmoves.within_stock.ne_nil hheld)
    exact Journey.isSome_heard_of_held hadmits ((of_decide_eq_true hans).trans hl) he'
      (heeds_of_not_isOfRoot hroot _ _)

/-- What is accounted for stays so as a ledger moves on. -/
theorem Covered.moves (h : L.Covered net d) (hmoves : L.Moves net e L') : L'.Covered net d := by
  cases h with
  | dispatched hd hj =>
    obtain ⟨j', hj', -⟩ := hmoves.exists_within hj
    exact .dispatched hd hj'
  | spread hmark hroot hl hheld hheard =>
    have hheld' := hmoves.within_stock.mem ((Lookup.keepsAll_of_mark hmark hl).trans hroot) hheld
    refine .spread hmark hroot hl hheld' fun {key j'} hj' hconcerns => ?_
    cases hmoves.fate key with
    | same hfate => exact hheard (hfate ▸ hj') hconcerns
    | went hj _ _ _ hfate =>
      obtain rfl := Option.some.inj (hfate.symm.trans hj')
      exact Journey.isSome_heard_goOn (hheard hj (hconcerns.of_base (by simp)))
    | began _ _ _ hfate =>
      obtain rfl := Option.some.inj (hfate.symm.trans hj')
      exact Journey.isSome_heard_of_held hconcerns.admits (hconcerns.lookup.trans hl) hheld'
        hconcerns.heeds
  | delivered hmark hroot hj hans hheard =>
    obtain ⟨j', hj', hwithin⟩ := hmoves.exists_within hj
    refine .delivered hmark hroot hj' ?_ fun hadmits => ?_
    · rwa [Journey.answers_congr net hwithin.base]
    · exact hwithin.heard _ (hheard (hwithin.base ▸ hadmits))
  | @waiting k _ hmark hroot hl hheld hnone =>
    by_cases hnew : ∃ key j, L'.journeys.find? key = some j ∧ j.answers net k d = true
    · obtain ⟨key, j, hj, hans⟩ := hnew
      exact .delivered hmark hroot hj hans fun hadmits =>
        hmoves.isSome_heard_of_answers hroot hl hheld hnone hj hans hadmits
    · refine .waiting hmark hroot hl (hmoves.within_stock.ne_nil hheld) fun {key j} hj => ?_
      rw [← Bool.not_eq_true]
      exact fun hans => hnew ⟨key, j, hj, hans⟩

/-- The step of an event accounts for it. -/
theorem covered_step (net : Network) (L : Ledger) (e : Event) : (L.step net e).Covered net e := by
  cases hmark : e.mark? with
  | none =>
    obtain ⟨d, hd⟩ := (Event.mark?_eq_none_iff e).mp hmark
    rw [step_of_dispatch net L hd, begin]
    split
    · next hknown =>
      obtain ⟨j, hj⟩ := Option.isSome_iff_exists.mp hknown
      exact .dispatched hd hj
    · exact .dispatched hd (SortedMap.find?_insert_self _ _ _)
  | some k =>
    obtain ⟨l, hl⟩ : ∃ l, Lookup.ofEvent? e = some l := by
      rw [← Option.isSome_iff_exists, Option.isSome_iff_ne_none, Ne, Event.ofEvent?_eq_none_iff,
        hmark]
      simp
    rw [step_of_mark net L hmark]
    split
    · next hroot =>
      refine .spread hmark hroot hl (Stock.mem_keep_self hl) fun {key j'} hj' hconcerns => ?_
      rw [Ledger.spread, revise, SortedMap.find?_map, Option.map_eq_some_iff] at hj'
      obtain ⟨j, -, rfl⟩ := hj'
      by_cases hans : j.answers net k e = true
      · rw [if_pos hans] at hconcerns ⊢
        exact Journey.isSome_heard_goOn_self (hconcerns.of_base (j := j) (by simp)).heeds
      · rw [if_neg hans] at hconcerns
        exact absurd (decide_eq_true hconcerns.lookup) hans
    · next hroot =>
      rw [Bool.not_eq_true] at hroot
      rw [deliver]
      cases hj : L.addressee? net k e with
      | none =>
        exact .waiting hmark hroot hl (List.ne_nil_of_mem (Stock.mem_keep_self hl))
          fun hfind => addressee?_eq_none net hj hfind
      | some j =>
        obtain ⟨hfind, hans⟩ := addressee?_eq_some net hj
        simp only
        split
        · refine .delivered hmark hroot (SortedMap.find?_insert_self _ _ _) ?_ fun _ =>
            Journey.isSome_heard_goOn_self (heeds_of_not_isOfRoot hroot _ _)
          rwa [Journey.answers_congr net (Journey.base_goOn net _ _ _ _)]
        · next hrefuses =>
          exact .delivered hmark hroot hfind hans fun hadmits => absurd hadmits hrefuses

theorem Covered.steps (h : L.Covered net d) (ds : List Event) : (L.steps net ds).Covered net d :=
  steps_keep (fun _ hmoves hcovered => Covered.moves hcovered hmoves) h

/-- After the steps of events all of them are accounted for. -/
theorem covered_steps (net : Network) (L : Ledger) {ds : List Event} (hd : d ∈ ds) :
    (L.steps net ds).Covered net d := by
  induction ds generalizing L with
  | nil => cases hd
  | cons e ds ih =>
    rcases List.mem_cons.mp hd with rfl | hd
    · exact (L.covered_step net d).steps ds
    · exact ih _ hd

/-- The message of a dispatch that is accounted for is known. -/
theorem Covered.exists_journey (h : L.Covered net e) {d : Dispatch} (hd : e.data = .dispatch d) :
    ∃ j, L.journeys.find? d.messageHash.text = some j := by
  have hmark := (Event.mark?_eq_none_iff e).mpr ⟨d, hd⟩
  cases h with
  | dispatched hdata hj =>
    rw [hd] at hdata
    obtain rfl := Event.Data.dispatch.inj hdata
    exact ⟨_, hj⟩
  | spread hmark' => exact absurd (hmark.symm.trans hmark') (by simp)
  | delivered hmark' => exact absurd (hmark.symm.trans hmark') (by simp)
  | waiting hmark' => exact absurd (hmark.symm.trans hmark') (by simp)

/-! ### What is known of the journeys -/

/-- Messages are known exactly for the hashes that were dispatched. -/
theorem Sound.isSome_find?_iff (h : L.Sound net es) (hall : ∀ e ∈ es, L.Covered net e)
    (hash : Digest) : (L.journeys.find? hash.text).isSome = true ↔
      ∃ e ∈ es, ∃ d, e.data = .dispatch d ∧ d.messageHash = hash := by
  constructor
  · intro hsome
    obtain ⟨j, hj⟩ := Option.isSome_iff_exists.mp hsome
    obtain ⟨hmem, hdata⟩ := h.start hj
    exact ⟨j.start, hmem, j.dispatch, hdata, Digest.text_injective (L.keyed hj)⟩
  · rintro ⟨e, he, d, hd, rfl⟩
    exact Option.isSome_iff_exists.mpr ((hall e he).exists_journey hd)

/-- No other message looks for what a message looks for under a mark. -/
def IsAlone (net : Network) (L : Ledger) (j : Journey) (k : Mark) : Prop :=
  ∀ {key i}, L.journeys.find? key = some i →
    (i.base net).lookup? k = (j.base net).lookup? k → i = j

theorem Sound.eq_of_start (h : L.Sound net es) {key key' : String} {i j : Journey}
    (hi : L.journeys.find? key' = some i) (hj : L.journeys.find? key = some j)
    (hstart : i.start = j.start) : i = j := by
  have hdispatch : i.dispatch = j.dispatch := by
    have hdata := (h.start hi).2
    rw [hstart, (h.start hj).2] at hdata
    exact (Event.Data.dispatch.inj hdata).symm
  rw [← L.keyed hi, Journey.key, hdispatch] at hi
  rw [← L.keyed hj] at hj
  exact Option.some.inj (hi.symm.trans hj)

/-- Nothing but its hash is looked for to process a message. -/
theorem isAlone_processed {key : String} {j : Journey} (hj : L.journeys.find? key = some j) :
    L.IsAlone net j .processed := by
  intro key' i hi hlookup
  have hhash : i.dispatch.messageHash = j.dispatch.messageHash :=
    Lookup.process.inj (Option.some.inj hlookup)
  rw [← L.keyed hi, Journey.key, hhash] at hi
  rw [← L.keyed hj] at hj
  exact Option.some.inj (hi.symm.trans hj)

/-- Where all events are accounted for, a mark was left on a message exactly if one of them leaves
it. Of the events that reach a single message this is known if it is the only one to look for
them. -/
theorem Sound.isSome_heard_iff (h : L.Sound net es) (hall : ∀ e ∈ es, L.Covered net e)
    {key : String} {j : Journey} (hj : L.journeys.find? key = some j)
    (halone : k.isOfRoot = false → (j.base net).admits k = true → L.IsAlone net j k) :
    (j.heard k).isSome = true ↔ ∃ e ∈ es, j.Concerns net k e := by
  constructor
  · intro hsome
    obtain ⟨e, he⟩ := Option.isSome_iff_exists.mp hsome
    exact ⟨e, h.heard hj he⟩
  · rintro ⟨e, he, hconcerns⟩
    have hsame {i : Mark} (hi : e.mark? = some i) : k = i :=
      Option.some.inj (hconcerns.mark?.symm.trans hi)
    cases hall e he with
    | dispatched hd _ =>
      have hnone := (Event.mark?_eq_none_iff e).mpr ⟨_, hd⟩
      exact absurd (hconcerns.mark?.symm.trans hnone) (by simp)
    | spread hmark _ _ _ hheard =>
      obtain rfl := hsame hmark
      exact hheard hj hconcerns
    | delivered hmark hroot hi hans hheard =>
      obtain rfl := hsame hmark
      obtain rfl := halone hroot hconcerns.admits hi
        ((of_decide_eq_true hans).trans hconcerns.lookup.symm)
      exact hheard hconcerns.admits
    | waiting hmark _ _ _ hnone =>
      obtain rfl := hsame hmark
      have hfalse := hnone hj
      rw [Journey.answers, hconcerns.lookup, decide_eq_true rfl] at hfalse
      cases hfalse

end Ledger

end Waybill
