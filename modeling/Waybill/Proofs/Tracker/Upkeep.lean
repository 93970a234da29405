import Waybill.Proofs.Tracker.Keeping
/-!
# The upkeep of the stores

While the network stays the same, the work on events takes messages up from their records as they
were, writes nothing but records of messages as dispatches and transitions leave them, and hands
nothing to the pool but entries of events that were handled. If the stores give back only what was
stored, a property of messages that dispatches give and transitions keep is one of every message
that is ever stored, and the work never fails by itself.

## Main definitions

* `Tracker.upkeep`: the contract of the work on events.
* `Tracker.Upkeep`: dispatches give a property of messages, and transitions keep it.
* `Tracker.Custody`: stores of which something holds keep to the contract.

## Main results

* `Tracker.Upkeep.keeping`, `Tracker.Custody.keeper`: this is what the work on events keeps when
  all records were stored under its own network.
* `Tracker.Custody.perform`: what holds of the stores holds after the work on an event.
* `Tracker.Custody.consumeAll`: it goes on holding, batch after batch.
-/

namespace Waybill

open Waybill.Pending Waybill.Task Message

namespace Tracker

/-- A record is that of one of the messages. -/
def IsRecord (net : Network) (G : Message → Prop) (r : Record) : Prop :=
  ∃ m, G m ∧ r = .ofMessage net m

/-- Only records of the messages and entries of the events are stored and found. A record that is
found by the values of a transfer is that of a transfer. Insertions have their own rules. -/
def upkeep (net : Network) (H : Event → Prop) (G : Message → Prop) : Contract where
  Proper
    | .insert _ | .page _ _ => False
    | .update r => IsRecord net G r
    | .put bucket key value => IsEntry H bucket key value
    | _ => True
  Sound
    | .byHash _, r? | .byNonce _ _ _, r? => ∀ r, r? = some r → IsRecord net G r
    | .byRoot _ _, rs => ∀ r ∈ rs, IsRecord net G r
    | .bySend _ _ _ _, r? => ∀ r, r? = some r → IsRecord net (fun m => G m ∧ m.isTransfer) r
    | .get bucket key, value? => ∀ value, value? = some value → IsEntry H bucket key value
    | _, _ => True

/-- Dispatches give a property of messages, and transitions keep it. The messages show what their
bodies show. -/
structure Upkeep (net : Network) (H : Event → Prop) (G : Message → Prop) : Prop where
  created : ∀ {e d}, H e → e.data = .dispatch d → G (created net e d)
  lasting : Lasting H G
  unpacked : ∀ {m}, G m → m.IsUnpacked net

/-! ### Stores that keep to the contract -/

/-- Stores of which something holds keep to the contract. The record of a message whose hash was not
found is inserted. -/
structure Custody {σ : Type} (b : Backend σ) (net : Network) (H : Event → Prop)
    (G : Message → Prop) (P : σ → Prop) (E : Failure → Prop) : Prop where
  honours : b.Honours (upkeep net H G) P E
  missing : ∀ {s hash}, P s → (b.answer s (.byHash hash)).1 = .ok none →
    ∃ Q : σ → Prop, Q (b.answer s (.byHash hash)).2 ∧
      Awaits b H (IsRecord net fun m => G m ∧ m.hash = hash) P E Q

section Runs

variable {σ : Type} {b : Backend σ} {net : Network} {H : Event → Prop} {G : Message → Prop}
  {P : σ → Prop} {E : Failure → Prop} {e : Event} {s : σ}

/-- Messages are taken up from their records as they were. -/
theorem Upkeep.keeping (u : Upkeep net H G) : Keeping net H (IsRecord net G) G where
  created := u.created
  lasting := u.lasting
  loads := by
    rintro _ ⟨m, hm, rfl⟩
    exact ⟨m, hm, (u.unpacked hm).ofRecord_ofMessage⟩
  saves hm := ⟨_, hm, rfl⟩

namespace Custody

theorem keeper (c : Custody b net H G P E) : Keeper b H (IsRecord net G) P E where
  honours := by
    intro s c' hs hc'
    cases c' with
    | insert r => exact hc'.elim
    | page limit offset => exact hc'.elim
    | bySend destination recipient amount block => exact hc'.elim
    | update r => exact c.honours s (.update r) hs hc'
    | put bucket key value => exact c.honours s (.put bucket key value) hs hc'
    | byHash hash => exact c.honours s (.byHash hash) hs trivial
    | byRoot origin root => exact c.honours s (.byRoot origin root) hs trivial
    | byNonce origin nonce destination =>
      exact c.honours s (.byNonce origin nonce destination) hs trivial
    | get bucket key => exact c.honours s (.get bucket key) hs trivial
    | has bucket key => exact c.honours s (.has bucket key) hs trivial
  missing := by
    intro s hash hs hnone
    obtain ⟨Q, hmissing, hawaits⟩ := c.missing hs hnone
    refine ⟨Q, hmissing, hawaits.kept, hawaits.looking, fun hs' hr => ?_⟩
    obtain ⟨⟨m, hm, rfl⟩, hhash⟩ := hr
    exact hawaits.insert hs' ⟨m, ⟨hm, Digest.text_injective hhash⟩, rfl⟩
  bySend destination recipient amount block hs := by
    obtain ⟨hkept, -, herror⟩ := c.honours _ (.bySend destination recipient amount block) hs trivial
    exact ⟨hkept, herror⟩

/-- A record that is found by the values of a sending is that of a transfer. -/
theorem findsTransfer (c : Custody b net H G P E) (u : Upkeep net H G) (hs : P s) (e : Event) :
    FindsTransfer b net G e s := by
  intro d _ r hr
  obtain ⟨-, hok, -⟩ := c.honours s (.bySend d.toDomain d.toId d.amount e.block) hs trivial
  obtain ⟨m, hm, rfl⟩ := hok _ hr r rfl
  exact ⟨m, hm, (u.unpacked hm.1).ofRecord_ofMessage⟩

variable {fan : FanOut σ} (hfan : ∀ ts s, b.Interleaves ts s (fan ts s))
include hfan

/-- What holds of the stores holds after the work on an event. -/
theorem perform (c : Custody b net H G P E) (u : Upkeep net H G) (he : H e) (hs : P s) :
    (perform b fan net e s).Leaves P E fun _ => True :=
  c.keeper.perform hfan u.keeping he hs (c.findsTransfer u hs e)

/-- What holds of the stores goes on holding while a batch is handled. -/
theorem consume (c : Custody b net H G P E) (u : Upkeep net H G) {es : List Event}
    (hes : ∀ e ∈ es, H e) (hs : P s) :
    (consume b fan net es s).Leaves P (fun r => E r.failure) fun _ => True := by
  induction es generalizing s with
  | nil => exact Outcome.leaves_ok hs trivial
  | cons e es ih =>
    obtain ⟨hstate, -, herror⟩ := c.perform hfan u (hes e List.mem_cons_self) hs
    simp only [Tracker.consume]
    cases hr : (Tracker.perform b fan net e s).result with
    | error f => exact Outcome.leaves_error hstate (herror f hr)
    | ok _ => exact (ih (fun d hd => hes d (List.mem_cons_of_mem e hd)) hstate).after _

/-- What holds of the stores goes on holding, batch after batch. -/
theorem consumeAll (c : Custody b net H G P E) (u : Upkeep net H G) {batches : List (List Event)}
    (hes : ∀ e ∈ batches.flatten, H e) (hs : P s) :
    (consumeAll b fan net batches s).Leaves P (fun r => E r.failure) fun _ => True := by
  induction batches generalizing s with
  | nil => exact Outcome.leaves_ok hs trivial
  | cons es batches ih =>
    rw [List.flatten_cons] at hes
    obtain ⟨hstate, -, herror⟩ := c.consume hfan u
      (fun e he => hes e (List.mem_append_left _ he)) hs
    simp only [Tracker.consumeAll]
    cases hr : (Tracker.consume b fan net es s).result with
    | error f => exact Outcome.leaves_error hstate (herror f hr)
    | ok _ => exact (ih (fun e he => hes e (List.mem_append_right _ he)) hstate).after _

end Custody

end Runs

end Tracker

end Waybill
