import Mathlib.Data.UInt
import Waybill.Proofs.Tracker.Tending
/-!
# Messages in a database are read back

Messages are read back from a database, by hash, by root, page by page and for the census, exactly
if all numbers of their records are below `2 ^ 63`. That is so if the events that were handled leave
no larger numbers on messages, and then no batch fails, as long as the engine accepts what is
written. A message with a larger number is stored all the same, but from then on it is not given
back.

## Main definitions

* `Event.Fits`: the numbers that an event leaves on messages are those of columns.

## Main results

* `Message.fits_iff`: when the record of a message fits.
* `Tracker.upkeep_fits`: events that fit keep messages whose records fit.
* `Tracker.rows_read_back_iff`: when all messages are read back.
-/

namespace Waybill

open Message

/-- The numbers that an event leaves on messages are below the bound of a column: block and time of
a dispatch, the time of the other events, and for a relay also the time at which the window of the
replica ends. The sending of tokens leaves no number. -/
def Event.Fits (net : Network) (e : Event) : Prop :=
  match e.data with
  | .dispatch _ => e.block.toNat < 2 ^ 63 ∧ e.timestamp.toNat < 2 ^ 63
  | .replicaUpdate _ =>
    e.timestamp.toNat + ((net.optimisticSeconds e.domain).elim 0 UInt64.toNat) < 2 ^ 63
  | .bridgeSend _ => True
  | _ => e.timestamp.toNat < 2 ^ 63

instance (net : Network) : (e : Event) → Decidable (e.Fits net)
  | ⟨_, _, _, _, _, .dispatch _⟩ => inferInstanceAs (Decidable (_ ∧ _))
  | ⟨_, _, _, _, _, .homeUpdate _⟩ => inferInstanceAs (Decidable (_ < _))
  | ⟨_, _, _, _, _, .replicaUpdate _⟩ => inferInstanceAs (Decidable (_ < _))
  | ⟨_, _, _, _, _, .process _⟩ => inferInstanceAs (Decidable (_ < _))
  | ⟨_, _, _, _, _, .bridgeSend _⟩ => inferInstanceAs (Decidable True)
  | ⟨_, _, _, _, _, .bridgeReceive _⟩ => inferInstanceAs (Decidable (_ < _))

namespace Event.Fits

variable {net : Network} {e : Event} {k : Mark}

/-- The end of the window of a relay fits. -/
theorem window (he : e.Fits net) (hk : e.mark? = some .relayed) :
    e.timestamp.toNat + ((net.optimisticSeconds e.domain).elim 0 UInt64.toNat) < 2 ^ 63 := by
  cases hdata : e.data <;> rw [Event.mark?, hdata] at hk <;> cases hk
  rwa [Event.Fits, hdata] at he

/-- The time of an event that leaves one fits. -/
theorem timestamp (he : e.Fits net) (hk : e.mark? = some k) (hsent : k ≠ .sent) :
    e.timestamp.toNat < 2 ^ 63 := by
  cases hdata : e.data <;> rw [Event.mark?, hdata] at hk <;> cases hk
  case replicaUpdate => exact Nat.lt_of_le_of_lt (Nat.le_add_right _ _) (he.window (by
    rw [Event.mark?, hdata]))
  case bridgeSend => exact absurd rfl hsent
  all_goals rwa [Event.Fits, hdata] at he

end Event.Fits

namespace Message

variable {net : Network} {m : Message} {e : Event}

/-- The record of a message fits if its block, its times and the end of its window do. -/
theorem fits_iff : (Record.ofMessage net m).Fits ↔ m.identity.dispatchBlock.toNat < 2 ^ 63 ∧
    (∀ t, (m.times.get t).toNat < 2 ^ 63) ∧ (m.confirmAt net).toNat < 2 ^ 63 := by
  have htimes : (∀ t, (m.times.get t).toNat < 2 ^ 63) ↔
      m.times.dispatched.toNat < 2 ^ 63 ∧ m.times.updated.toNat < 2 ^ 63 ∧
        m.times.relayed.toNat < 2 ^ 63 ∧ m.times.received.toNat < 2 ^ 63 ∧
          m.times.processed.toNat < 2 ^ 63 :=
    ⟨fun h => ⟨h .dispatched, h .updated, h .relayed, h .received, h .processed⟩,
      fun h t => by cases t <;> simp only [ByState.get, h]⟩
  rw [htimes]
  simp only [Record.Fits, Record.numbers, Record.ofMessage, List.forall_mem_cons,
    List.not_mem_nil, false_imp_iff, implies_true, and_true, and_assoc]

/-- The end of the window is that of the relay and the destination. -/
theorem confirmAt_lt (hwindow : m.times.relayed.toNat +
    ((net.optimisticSeconds m.identity.destination).elim 0 UInt64.toNat) < 2 ^ 63) :
    (m.confirmAt net).toNat < 2 ^ 63 := by
  rw [confirmAt]
  split
  · decide
  · split
    · next hconfigured =>
      rw [hconfigured, Option.elim_some] at hwindow
      split
      · rw [UInt64.toNat_add]
        exact Nat.lt_of_le_of_lt (Nat.mod_le _ _) hwindow
      · decide
    · decide

theorem identity_stamp (m : Message) (k : Mark) (e : Event) :
    (m.stamp k e).identity = m.identity := by
  cases k <;> rfl

theorem times_stamp {k : Mark} (m : Message) (hsent : k ≠ .sent) (e : Event) :
    (m.stamp k e).times = m.times.modify k.state fun _ => e.timestamp := by
  cases k <;> first | rfl | exact absurd rfl hsent

/-- A message goes on fitting when it is stamped with an event that fits and concerns it. -/
theorem fits_stamp {k : Mark} (h : (Record.ofMessage net m).Fits) (he : e.Fits net)
    (hk : e.mark? = some k) (hheeds : m.heeds k e = true) :
    (Record.ofMessage net (m.stamp k e)).Fits := by
  rw [fits_iff] at h ⊢
  obtain ⟨hblock, htimes, hconfirm⟩ := h
  rw [identity_stamp]
  by_cases hsent : k = .sent
  · subst hsent
    exact ⟨hblock, htimes, hconfirm⟩
  rw [times_stamp m hsent]
  refine ⟨hblock, fun t => ?_, ?_⟩
  · by_cases ht : t = k.state
    · rw [ht, ByState.get_modify_self]
      exact he.timestamp hk hsent
    · rw [ByState.get_modify_of_ne _ ht]
      exact htimes t
  · by_cases hrelayed : k = .relayed
    · subst hrelayed
      refine confirmAt_lt ?_
      rw [identity_stamp, ← beq_iff_eq.mp hheeds]
      exact he.window hk
    · have hsame : (m.stamp k e).confirmAt net = m.confirmAt net := by
        cases k <;> first | rfl | exact absurd rfl hrelayed
      rwa [hsame]

/-- A message goes on fitting when it takes an event that fits. -/
theorem fits_take {k : Mark} (h : (Record.ofMessage net m).Fits) (he : e.Fits net)
    (hk : e.mark? = some k) : (Record.ofMessage net (m.take k e).1).Fits := by
  rw [take_eq]
  split
  · next hheeds =>
    rw [advance_fst]
    exact fits_iff.mpr (fits_iff.mp (fits_stamp h he hk hheeds))
  · exact h

end Message

namespace Tracker

variable {net : Network}

/-- Whatever the events are, messages show what their bodies show. -/
theorem upkeep_unpacked (net : Network) : Upkeep net (fun _ => True) (IsUnpacked net) where
  created _ _ := rfl
  lasting _ _ _ h _ _ := isUnpacked_take h
  unpacked := id

/-- If there are only events that fit, records of messages fit. -/
theorem upkeep_fits {H : Event → Prop} {p : Prop} (h : p → ∀ e, H e → e.Fits net) :
    Upkeep net H fun m => m.IsUnpacked net ∧ (p → (Record.ofMessage net m).Fits) where
  created {e d} he hdata := by
    refine ⟨rfl, fun hp => ?_⟩
    have hfits := h hp e he
    rw [Event.Fits, hdata] at hfits
    have hzero : (0 : UInt64).toNat < 2 ^ 63 := by decide
    have hconfirm : (created net e d).confirmAt net = 0 := if_pos rfl
    refine fits_iff.mpr ⟨hfits.1, fun t => ?_, hconfirm ▸ hzero⟩
    cases t
    case dispatched => exact hfits.2
    all_goals exact hzero
  lasting _ _ _ hm he hk := ⟨isUnpacked_take hm.1, fun hp => fits_take (hm.2 hp) (h hp _ he) hk⟩
  unpacked := And.left

section Engines

variable {σ : Type} {E : Engine σ} (D : E.Manual) {s : σ} (hs : D.Has s .empty) {fan : FanOut σ}
  (hfan : ∀ ts s, E.gateway.Interleaves ts s (fan ts s)) (batches : List (List Event))
include hs hfan

/-- Tables that were empty at first are tended while batches are handled. -/
theorem consumeAll_tended {H : Event → Prop} {G : Message → Prop} (u : Upkeep net H G)
    (hes : ∀ e ∈ batches.flatten, H e) :
    (consumeAll E.gateway fan net batches s).Leaves (Tends D net H G)
      (fun j => Fails D net G j.failure) fun _ => True :=
  (custody_engine D net H G).consumeAll hfan u hes ⟨.empty, [], hs, Tables.tended_empty⟩

/-- After batches of any events, handled over a documented engine with their branches in any turns,
the records that are stored, one for a hash, are read back exactly if all their numbers are below
`2 ^ 63`. If the events leave no larger ones, they are, and no batch fails, except with a failure
with which the engine refuses what it does not accept. -/
theorem rows_read_back_iff (net : Network)
    (haccepts : ∀ c : Call, c.IsQuestion → D.Accepts c.statement) :
    let o := consumeAll E.gateway fan net batches s
    ∃ t rs, D.Has o.state t ∧ t.Keeps rs ∧ (rs.map Record.messageHash).Nodup ∧
      (E.ReadsBack o.state rs ↔ ∀ r ∈ rs, r.Fits) ∧
      ((∀ e ∈ batches.flatten, e.Fits net) → (∀ r ∈ rs, r.Fits) ∧
        (o.result = .ok () ∨ ∃ j, o.result = .error j ∧ D.Refuses j.failure)) := by
  intro o
  have u : Upkeep net (· ∈ batches.flatten) fun m => m.IsUnpacked net ∧
      ((∀ e ∈ batches.flatten, e.Fits net) → (Record.ofMessage net m).Fits) := upkeep_fits id
  obtain ⟨⟨t, rs, ht, h⟩, -, herror⟩ := consumeAll_tended D hs hfan batches u fun _ => id
  have hroots : ∀ r ∈ rs, ∃ root : Digest, r.root = root.text := by
    intro r hr
    obtain ⟨m, -, rfl⟩ := h.records r hr
    exact ⟨m.identity.root, rfl⟩
  refine ⟨t, rs, ht, h.keeps, h.keeps.distinct (D.keyed ht),
    D.readsBack_iff haccepts ht h.keeps hroots, fun hfits => ?_⟩
  have hall : ∀ m : Message, (m.IsUnpacked net ∧
      ((∀ e ∈ batches.flatten, e.Fits net) → (Record.ofMessage net m).Fits)) →
      (Record.ofMessage net m).Fits := fun _ hm => hm.2 hfits
  refine ⟨h.fits hall, ?_⟩
  cases hresult : o.result with
  | ok _ => exact .inl rfl
  | error j => exact .inr ⟨j, rfl, (herror j hresult).resolve_left (not_not_intro hall)⟩

end Engines

/-- A dispatch at the last time that is a number of a column, over lists. -/
theorem rows_read_back_iff_sample :
    let o := consumeAll Database.backend (oneByOne Database.backend) Sample.network
      [[{ Sample.dispatch with timestamp := 2 ^ 63 - 1 }]] .migrated
    o.result = .ok () ∧ o.state.count = .ok 1 ∧
      ∃ t rs, o.state.Has t ∧ t.Keeps rs ∧ Database.engine.ReadsBack o.state rs := by
  intro o
  obtain ⟨t, rs, ht, hkeeps, -, hiff, hfits⟩ := rows_read_back_iff Database.manual
    Database.has_migrated (fun ts db => Database.backend.interleaves_inOrder [] (by simp) ts db)
    [[{ Sample.dispatch with timestamp := 2 ^ 63 - 1 }]] Sample.network fun _ _ => trivial
  obtain ⟨hall, hresult⟩ := hfits (by decide +kernel)
  refine ⟨?_, by decide +kernel, t, rs, ht, hkeeps, hiff.mpr hall⟩
  rcases hresult with hok | ⟨j, -, hrefuses⟩
  · exact hok
  · exact absurd hrefuses (Database.not_refuses_manual _)

/-- A dispatch at a time that is no number of a column is handled without a failure. Its message
is stored and counted, but from then on neither its hash nor its root nor any page is answered,
and handling the same dispatch again fails. -/
theorem accepted_row_is_refused :
    let late := [{ Sample.dispatch with timestamp := 2 ^ 63 }]
    let run := consume Database.backend (oneByOne Database.backend) Sample.network late
    let fault := Record.Fault.outOfRange "dispatched_at" (-9223372036854775808)
    let db := (run .migrated).state
    (run .migrated).result = .ok () ∧ db.count = .ok 1 ∧
      (Database.backend.answer db (.byHash default)).1 = .error (.badRecord fault) ∧
      (Database.backend.answer db (.byRoot 1 default)).1 = .error (.badRecord fault) ∧
      (Database.backend.answer db (.page 1 0)).1 = .error (.badRecord fault) ∧
      (run db).result.mapError Rejection.failure = .error (.badRecord fault) := by
  decide +kernel

end Tracker

end Waybill
