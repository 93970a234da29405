import Waybill.Proofs.Tracker.Convergence
/-!
# A batch that was broken off is made up for

When a call is refused in the middle of a batch, what was done stays done and the rest is left
undone; nothing is rolled back and nothing is logged. If the batch is consumed again from its
start, once or after any number of further attempts that are broken off, the records are those of
an undisturbed consumption.

## Main definitions

* `Tracker.Reached`: what is stored after events of some supply.
* `Tracker.Attempts`: what is left by attempts at a batch that were all broken off.

## Main results

* `Tracker.Attempts.ledger`: attempts lose nothing of what was accounted for, and invent nothing.
* `Tracker.consume_recovers`: a batch that is consumed to its end makes up for broken attempts.
-/

namespace Waybill.Tracker

variable {σ τ : Type}

/-- What is stored once events of the given ones were consumed successfully from empty stores. -/
inductive Reached (net : Network) (es : List Event) : Memory → Prop
  | intro {σ : Type} (v : Service σ) {s : σ} (hempty : v.contents s = Memory.empty)
      (hsteady : v.Steady s) {batches : List (List Event)} (hsub : ∀ e ∈ batches.flatten, e ∈ es) :
      Reached net es (v.contents (consumeAll v.backend v.fan net batches s).state)

/-- What is stored after a number of attempts to consume a batch from its start, all of which were
broken off. -/
inductive Attempts (net : Network) (batch : List Event) (m : Memory) : Memory → Prop
  | none : Attempts net batch m m
  | more {σ : Type} (v : Service σ) {s : σ} (h : Attempts net batch m (v.contents s))
      {r : Rejection} (hr : (consume v.backend v.fan net batch s).result = .error r) :
      Attempts net batch m (v.contents (consume v.backend v.fan net batch s).state)

/-- What events of the given ones leave in the stores stands for a ledger that holds nothing but
them, and on which they are accounted for. -/
theorem Reached.ledger {net : Network} {es : List Event} {m : Memory} (h : Reached net es m) :
    ∃ (L : Ledger) (ds : List Event), (∀ d ∈ ds, d ∈ es) ∧ L.Depicts net m ∧ L.Sound net ds ∧
      ∀ d ∈ ds, L.Covered net d := by
  obtain ⟨v, hempty, hsteady, hsub⟩ := h
  obtain ⟨-, hdepicts, -⟩ :=
    v.consumeAll_depicts (hempty ▸ Ledger.depicts_empty net) hsteady _
  obtain ⟨hsound, hall⟩ := Ledger.settled net fun e => Iff.rfl
  exact ⟨_, _, hsub, hdepicts, hsound, hall⟩

/-- Attempts that were broken off lose nothing of what was accounted for before, and all that they
leave comes from the events before and from those of the batch. -/
theorem Attempts.ledger {net : Network} {batch es : List Event} {m m' : Memory}
    (h : Attempts net batch m m') {L : Ledger} (hm : L.Depicts net m) (hsound : L.Sound net es)
    (hbatch : ∀ e ∈ batch, e ∈ es) :
    ∃ L' : Ledger, L'.Depicts net m' ∧ L'.Sound net es ∧
      ∀ d, L.Covered net d → L'.Covered net d := by
  induction h with
  | none => exact ⟨L, hm, hsound, fun _ h => h⟩
  | more v _ _ ih =>
    obtain ⟨L', hm', hkept⟩ := ih
    refine v.consume_keeps (fun he hmoves h => ?_) hm' hkept
    obtain ⟨hsound, hcovered⟩ := h
    exact ⟨hsound.moves (hbatch _ he) hmoves, fun d hd => (hcovered d hd).moves hmoves⟩

/-- However often a batch of consistent events was broken off, once it is consumed to its end the
records are those of a consumption that was never broken off. -/
theorem consume_recovers (v : Service σ) (w : Service τ) {net : Network} {es : List Event}
    (hes : Consistent net es) {batch : List Event} (hbatch : ∀ e ∈ batch, e ∈ es)
    {start broken : Memory} (hstart : Reached net es start)
    (hbroken : Attempts net batch start broken) {s : σ} {t : τ} (hs : v.contents s = broken)
    (ht : w.contents t = start) (hsteady : v.Steady s) (hsteady' : w.Steady t) :
    (consume v.backend v.fan net batch s).result = .ok () ∧
      (v.contents (consume v.backend v.fan net batch s).state).records =
        (w.contents (consume w.backend w.fan net batch t).state).records := by
  obtain ⟨L, ds, hds, hm, hsound, hall⟩ := hstart.ledger
  have hsound : L.Sound net (ds ++ batch) :=
    hsound.mono fun e he => List.mem_append_left _ he
  have hmem : ∀ e ∈ batch, e ∈ ds ++ batch := fun e he => List.mem_append_right _ he
  obtain ⟨L', hm', hsound', hcovered⟩ := hbroken.ledger hm hsound hmem
  obtain ⟨hok, hdepicts⟩ := v.consume_depicts (hs ▸ hm') hsteady batch
  obtain ⟨-, hdepicts'⟩ := w.consume_depicts (ht ▸ hm) hsteady' batch
  -- both end with all events accounted for, those before the batch and those of it
  have hcover (K : Ledger) (hK : ∀ d ∈ ds, K.Covered net d) :
      ∀ d ∈ ds ++ batch, (K.steps net batch).Covered net d := by
    intro d hd
    rcases List.mem_append.mp hd with hd | hd
    · exact (hK d hd).steps batch
    · exact K.covered_steps net hd
  have hconsistent : Consistent net (ds ++ batch) := hes.mono fun e he =>
    (List.mem_append.mp he).elim (hds e) (hbatch e)
  refine ⟨hok, ?_⟩
  rw [hdepicts.records, hdepicts'.records,
    hconsistent.journeys_eq (hsound'.steps hmem) (hsound.steps hmem)
      (hcover L' fun d hd => hcovered d (hall d hd)) (hcover L hall)]

/-- Stores that refuse what is put into the pool. -/
def refusingPuts : Guarded Memory := { Guarded.ofInner Memory.empty with
  refusals := { Refusals.none with put := true } }

/-- A batch that was broken off at the pool, broken off again after three calls, and consumed
again. -/
theorem consume_recovers_sample :
    let v := Stores.inMemory.oneByOne
    let w := Stores.inTurns 3
    let u := Stores.faltering.oneByOne
    let batch := [Sample.update, Sample.dispatch]
    let once := w.contents (consume w.backend w.fan Sample.network batch refusingPuts).state
    let twice := u.contents (consume u.backend u.fan Sample.network batch (once, some 3)).state
    (∃ r, (consume w.backend w.fan Sample.network batch refusingPuts).result = .error r) ∧
      (∃ r, (consume u.backend u.fan Sample.network batch (once, some 3)).result = .error r) ∧
      (consume v.backend v.fan Sample.network batch twice).result = .ok () ∧
      (v.contents (consume v.backend v.fan Sample.network batch twice).state).records =
        (v.contents (consume v.backend v.fan Sample.network batch Memory.empty).state).records := by
  intro v w u batch once twice
  have hbatch : ∀ e ∈ batch, e ∈ Sample.events := by simp [batch, Sample.events]
  have hnone : ∀ e ∈ ([] : List (List Event)).flatten, e ∈ Sample.events := by simp
  have hstart : Reached Sample.network Sample.events Memory.empty :=
    .intro v (s := Memory.empty) rfl trivial hnone
  have hr : ∃ r, (consume w.backend w.fan Sample.network batch refusingPuts).result = .error r :=
    ⟨_, rfl⟩
  have hq : ∃ r, (consume u.backend u.fan Sample.network batch (once, some 3)).result =
    .error r := ⟨_, rfl⟩
  obtain ⟨r, hr⟩ := hr
  obtain ⟨q, hq⟩ := hq
  have honce : Attempts Sample.network batch Memory.empty once := .more w .none hr
  have htwice : Attempts Sample.network batch Memory.empty twice := .more u honce hq
  exact ⟨⟨r, hr⟩, ⟨q, hq⟩, consume_recovers v v consistent_sample hbatch hstart htwice (s := twice)
    (t := Memory.empty) rfl rfl trivial trivial⟩

end Waybill.Tracker
