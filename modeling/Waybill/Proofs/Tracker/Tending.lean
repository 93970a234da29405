import Waybill.Proofs.Store.Reading
import Waybill.Proofs.Tracker.Upkeep
/-!
# Databases under the work on events

While a tracker works over a database, the table of messages has the rows of records of messages,
each under a hash of its own, and what waits in the pool are entries of events. The work does not
come upon anything else. A call fails only where a row cannot be read, or where the engine does not
accept the statement for it.

## Main definitions

* `Tables.Tended`: what holds of the tables over which a tracker works.
* `Tracker.Tends`, `Tracker.Fails`: the states with such tables, and how calls fail there.

## Main results

* `Tracker.custody_engine`: a documented engine keeps to the contract of the work on events.
-/

namespace Waybill

open Waybill.Pending Message Tracker

namespace Tables

/-- The table of messages has the rows of these records, which are of the messages. What waits are
entries of the events. -/
structure Tended (net : Network) (H : Event → Prop) (G : Message → Prop) (t : Tables)
    (rs : List Record) : Prop where
  keeps : t.Keeps rs
  records : ∀ r ∈ rs, IsRecord net G r
  pending : ∀ p ∈ t.pending, IsEntry H p.bucket p.key p.value

variable {net : Network} {H : Event → Prop} {G : Message → Prop} {t t' : Tables}
  {rs : List Record}

theorem tended_empty : empty.Tended net H G [] := ⟨.refl _, by simp, by simp [empty]⟩

namespace Tended

variable (h : t.Tended net H G rs)
include h

/-- If the records of the messages fit, those that are kept do. -/
theorem fits (hG : ∀ m, G m → (Record.ofMessage net m).Fits) : ∀ r ∈ rs, r.Fits := by
  intro r hr
  obtain ⟨m, hm, rfl⟩ := h.records r hr
  exact hG m hm

/-! ### What is stored -/

/-- Adding the record of a message, or storing it over another one. -/
theorem store {r : Record} (hr : IsRecord net G r) {p : Row → Bool}
    (hmessages : t'.messages.Perm (Row.ofRecord r :: t.messages.filter p))
    (hpending : t'.pending = t.pending) : ∃ rs', t'.Tended net H G rs' := by
  refine ⟨r :: rs.filter (p ∘ Row.ofRecord), ?_, ?_, hpending ▸ h.pending⟩
  · refine hmessages.trans (.cons _ ((h.keeps.filter p).trans (.of_eq ?_)))
    rw [List.filter_map]
  · rw [List.forall_mem_cons]
    exact ⟨hr, fun s hs => h.records s (List.mem_of_mem_filter hs)⟩

/-- Setting the value of an entry of the pool. -/
theorem put {bucket key value : String} (hentry : IsEntry H bucket key value)
    (hc : t.Carries (Call.put bucket key value).statement () t') : t'.Tended net H G rs := by
  obtain ⟨hmessages, hrows⟩ := hc
  refine ⟨(List.Perm.of_eq hmessages).trans h.keeps, h.records, fun p hp => ?_⟩
  rcases List.mem_cons.mp (hrows.mem_iff.mp hp) with rfl | hp
  · exact hentry
  · exact h.pending p (List.mem_of_mem_filter hp)

/-! ### What is found -/

/-- A record that is read is that of a message, and it has the property that it was looked for by.
Reading fails only if there is a message whose record does not fit. -/
theorem found {p : Record → Bool} {r? : Option Record} (hr : Finds p rs r?) :
    (∀ a, Row.readOption (r?.map Row.ofRecord) = .ok a →
      ∀ r, a = some r → IsRecord net G r ∧ p r = true) ∧
    ∀ f, Row.readOption (r?.map Row.ofRecord) = .error f →
      ¬ ∀ m, G m → (Record.ofMessage net m).Fits := by
  constructor
  · intro a ha r hsome
    obtain ⟨-, rfl⟩ := Row.readOption_map_iff.mp ha
    subst hsome
    exact ⟨h.records r hr.1, hr.2⟩
  · intro f hf hG
    have hok := hr.readOption (h.fits hG)
    rw [hf] at hok
    cases hok

/-- Of the records of a root, those that are kept are read. -/
theorem foundAll {found : List Record} (hfound : ∀ r ∈ found, r ∈ rs) :
    (∀ rs', Row.readAll (found.map Row.ofRecord) = .ok rs' → ∀ r ∈ rs', IsRecord net G r) ∧
    ∀ f, Row.readAll (found.map Row.ofRecord) = .error f →
      ¬ ∀ m, G m → (Record.ofMessage net m).Fits := by
  constructor
  · intro rs' hok r hr
    obtain ⟨-, rfl⟩ := Row.readAll_map_iff.mp hok
    exact h.records r (hfound r hr)
  · intro f hf hG
    have hok := Row.readAll_map_iff.mpr ⟨fun r hr => h.fits hG r (hfound r hr), rfl⟩
    rw [hf] at hok
    cases hok

/-- What is found in the pool is an entry of events. -/
theorem entry {bucket key : String} {row? : Option PendingRow}
    (hrow : Finds (PendingRow.isUnder bucket key) t.pending row?) :
    ∀ value, row?.map (·.value) = some value → IsEntry H bucket key value := by
  intro value hvalue
  obtain ⟨row, rfl, rfl⟩ := Option.map_eq_some_iff.mp hvalue
  obtain ⟨rfl, rfl⟩ := Prod.mk.inj (PendingRow.isUnder_iff.mp hrow.2)
  exact h.pending row hrow.1

/-- What is carried out for a proper call leaves the tables tended, and its answer is sound, or a
row cannot be read. -/
theorem carried {c : Call} (hproper : (upkeep net H G).Proper c) {r : c.statement.Result}
    (hc : t.Carries c.statement r t') :
    (∃ rs', t'.Tended net H G rs') ∧ (∀ a, c.ofResult r = .ok a → (upkeep net H G).Sound c a) ∧
      ∀ f, c.ofResult r = .error f → ¬ ∀ m, G m → (Record.ofMessage net m).Fits := by
  cases c with
  | insert r => exact hproper.elim
  | page limit offset => exact hproper.elim
  | update r => exact ⟨h.store hproper hc.1 hc.2, fun _ _ => trivial, fun f hf => by cases hf⟩
  | put bucket key value =>
    exact ⟨⟨rs, h.put hproper hc⟩, fun _ _ => trivial, fun f hf => by cases hf⟩
  | get bucket key =>
    obtain ⟨hrow, rfl⟩ := hc
    exact ⟨⟨rs, h⟩, fun _ ha => Except.ok.inj ha ▸ h.entry hrow, fun f hf => by cases hf⟩
  | has bucket key =>
    obtain ⟨-, rfl⟩ := hc
    exact ⟨⟨rs, h⟩, fun _ _ => trivial, fun f hf => by cases hf⟩
  | byRoot origin root =>
    obtain ⟨rfl, found, rfl, hperm⟩ := h.keeps.byRoot hc
    exact ⟨⟨rs, h⟩, h.foundAll fun r hr => List.mem_of_mem_filter (hperm.mem_iff.mp hr)⟩
  | byHash hash =>
    obtain ⟨rfl, r?, rfl, hr⟩ := h.keeps.one hc (Call.byHash hash).filters_ofRecord
    obtain ⟨hok, herror⟩ := h.found hr
    exact ⟨⟨rs, h⟩, fun a ha r hsome => (hok a ha r hsome).1, herror⟩
  | byNonce origin nonce destination =>
    obtain ⟨rfl, r?, rfl, hr⟩ :=
      h.keeps.one hc (Call.byNonce origin nonce destination).filters_ofRecord
    obtain ⟨hok, herror⟩ := h.found hr
    exact ⟨⟨rs, h⟩, fun a ha r hsome => (hok a ha r hsome).1, herror⟩
  | bySend destination recipient amount block =>
    obtain ⟨rfl, r?, rfl, hr⟩ :=
      h.keeps.one hc (Call.bySend destination recipient amount block).filters_ofRecord
    obtain ⟨hok, herror⟩ := h.found hr
    refine ⟨⟨rs, h⟩, fun a ha r hsome => ?_, herror⟩
    obtain ⟨⟨m, hm, rfl⟩, hvalues⟩ := hok a ha r hsome
    refine ⟨m, ⟨hm, ?_⟩, rfl⟩
    -- only the record of a transfer has an amount
    rw [Call.selects, Record.isOfSend] at hvalues
    simp only [Bool.and_eq_true, beq_iff_eq] at hvalues
    have hamount : m.transfer?.map _ = some amount.decimal := hvalues.2
    rw [isTransfer, ← Option.isSome_map, hamount]
    rfl

end Tended

/-- A proper call is one that no engine has to fail. -/
theorem not_forbids {c : Call} (hproper : (upkeep net H G).Proper c) (f : Failure) :
    ¬ t.Forbids c.statement f := by
  cases c with
  | insert r => exact hproper.elim
  | page limit offset => exact hproper.elim
  | _ => exact id

end Tables

namespace Tracker

variable {σ : Type} {E : Engine σ} {D : E.Manual} {net : Network} {H : Event → Prop}
  {G : Message → Prop} {s : σ} {t : Tables}

/-- A state has tended tables. -/
def Tends (D : E.Manual) (net : Network) (H : Event → Prop) (G : Message → Prop) (s : σ) : Prop :=
  ∃ t rs, D.Has s t ∧ t.Tended net H G rs

/-- There is a message whose record does not fit, or the engine does not accept a statement. -/
def Fails (D : E.Manual) (net : Network) (G : Message → Prop) (f : Failure) : Prop := (¬ ∀ m, G m → (Record.ofMessage net m).Fits) ∨ D.Refuses f

/-- A proper call to an engine with tended tables. -/
theorem honours_tended {rs : List Record} (ht : D.Has s t) (h : t.Tended net H G rs) {c : Call}
    (hproper : (upkeep net H G).Proper c) :
    Tends D net H G (E.gateway.answer s c).2 ∧
      (∀ a, (E.gateway.answer s c).1 = .ok a → (upkeep net H G).Sound c a) ∧
      ∀ f, (E.gateway.answer s c).1 = .error f → Fails D net G f := by
  rcases D.answer_cases ht c with ⟨r, t', hc, ht', hanswer⟩ | ⟨f, hanswer, hrun, ht', hwhy⟩
  · obtain ⟨⟨rs', h'⟩, hok, herror⟩ := h.carried hproper hc
    rw [hanswer]
    exact ⟨⟨t', rs', ht', h'⟩, hok, fun f hf => .inl (herror f hf)⟩
  · rw [hanswer]
    refine ⟨⟨t, rs, ht', h⟩, fun _ ha => (by cases ha), fun g hg => .inr ?_⟩
    obtain rfl := Except.error.inj hg
    exact ⟨s, c.statement, fun haccepts => Tables.not_forbids hproper f (hwhy haccepts), hrun⟩

/-- A state with tended tables in which a hash is missing. -/
def Misses (D : E.Manual) (net : Network) (H : Event → Prop) (G : Message → Prop) (hash : Digest)
    (s : σ) : Prop :=
  ∃ t rs, D.Has s t ∧ t.Tended net H G rs ∧ ∀ r ∈ rs, r.messageHash ≠ hash.text

/-- A hash that is not found is missing. -/
theorem misses_of_none {hash : Digest} {rs : List Record} (ht : D.Has s t)
    (h : t.Tended net H G rs) (hnone : (E.gateway.answer s (.byHash hash)).1 = .ok none) :
    Misses D net H G hash (E.gateway.answer s (.byHash hash)).2 := by
  rcases D.answer_cases ht (.byHash hash) with ⟨row?, t', hc, ht', hanswer⟩ | ⟨f, hanswer, -⟩
  · obtain ⟨rfl, r?, rfl, hr⟩ := h.keeps.one hc (Call.byHash hash).filters_ofRecord
    obtain ⟨-, rfl⟩ := Row.readOption_map_iff.mp (hanswer.symm.trans hnone)
    exact ⟨_, rs, ht', h, fun r hmem => beq_eq_false_iff_ne.mp (hr r hmem)⟩
  · rw [hanswer] at hnone
    cases hnone

/-- A missing hash stays missing while the pool is looked into, and then its record may be
inserted. -/
theorem awaits_misses (hash : Digest) :
    Awaits E.gateway H (IsRecord net fun m => G m ∧ m.hash = hash) (Tends D net H G)
      (Fails D net G) (Misses D net H G hash) where
  kept := by
    rintro s ⟨t, rs, ht, h, -⟩
    exact ⟨t, rs, ht, h⟩
  looking := by
    rintro s c ⟨t, rs, ht, h, hnew⟩ hlooking
    cases c with
    | get bucket key =>
      have hproper : (upkeep net H G).Proper (.get bucket key) := trivial
      refine ⟨?_, (honours_tended ht h hproper).2⟩
      rcases D.answer_cases ht (.get bucket key) with ⟨row?, t', hc, ht', -⟩ | ⟨f, -, -, ht', -⟩
      · obtain ⟨-, rfl⟩ := hc
        exact ⟨_, rs, ht', h, hnew⟩
      · exact ⟨t, rs, ht', h, hnew⟩
    | _ => exact hlooking.elim
  insert := by
    rintro s _ ⟨t, rs, ht, h, hnew⟩ ⟨m, ⟨hm, rfl⟩, rfl⟩
    rcases D.answer_cases ht (.insert (.ofMessage net m)) with
      ⟨r, t', ⟨-, hmessages, hpending⟩, ht', hanswer⟩ | ⟨f, hanswer, hrun, ht', hwhy⟩
    · rw [← List.filter_true t.messages] at hmessages
      obtain ⟨rs', h'⟩ := h.store ⟨m, hm, rfl⟩ hmessages hpending
      exact ⟨⟨t', rs', ht', h'⟩, fun f hf => by rw [hanswer] at hf; cases hf⟩
    · refine ⟨⟨t, rs, ht', h⟩, fun g hg => .inr ?_⟩
      obtain rfl := Except.error.inj (hanswer.symm.trans hg)
      refine ⟨s, _, fun haccepts => ?_, hrun⟩
      obtain ⟨row, hrow, heq⟩ := List.mem_map.mp (hwhy haccepts).1
      obtain ⟨r, hr, rfl⟩ := List.mem_map.mp (h.keeps.mem_iff.mp hrow)
      exact hnew r hr heq

/-- A documented engine keeps to the contract of the work on events. It fails only if there is a
message whose record does not fit, or where it does not accept a statement. -/
theorem custody_engine (D : E.Manual) (net : Network) (H : Event → Prop) (G : Message → Prop) :
    Custody E.gateway net H G (Tends D net H G) (Fails D net G) where
  honours := by
    rintro s c ⟨t, rs, ht, h⟩ hproper
    exact honours_tended ht h hproper
  missing := by
    rintro s hash ⟨t, rs, ht, h⟩ hnone
    exact ⟨Misses D net H G hash, misses_of_none ht h hnone, awaits_misses hash⟩

end Tracker

end Waybill
