import Waybill.Signal.Inbox
import Waybill.Signal.Tally
import Waybill.Proofs.Message.CatchUp
/-!
# Notices climb with the message

What is told about a message follows its state: first that it was dispatched, then of every state
that it moves on to, each one later than the one before. Each notice carries the message in the
state of its kind and the event that brought it there, and for each but the first a transition is
counted. A message that takes events and catches up continues the climb from where it stands.

## Main definitions

* `Event.Brings`: an event brings a message into a state.
* `Notice.Fits`: a notice carries what its kind says.
* `Message.Standing`: what the dispatch of a message fixed, and its state.
* `Message.CameTo`: the state of a message is no earlier than another.
* `Climb`: the notices of a hash lead from one standing to another.
* `Signal.Balanced`: transitions are counted as they are noticed.
* `Message.Rises`: what is told leads from one message to another.

## Main results

* `Climb.append`: climbs one after another.
* `Climb.increasing`, `Climb.cameTo`, `Climb.kind_ne`: the states that a climb tells of.
* `Message.rises_caughtUp`: a message that catches up.
-/

namespace Waybill

open Waybill.Pending Message

/-! ### Notices that fit -/

/-- An event brings a message into a state: it is of the kind that does, and it is for the
message. -/
def Event.Brings (net : Network) (e : Event) (m : Message) : State → Prop
  | .dispatched => ∃ d, e.data = .dispatch d ∧ m = Tracker.created net e d
  | .updated => ∃ u, e.data = .homeUpdate u ∧
      u.homeDomain = m.identity.origin ∧ u.oldRoot = m.identity.root
  | .relayed => ∃ u, e.data = .replicaUpdate u ∧
      (u.homeDomain = m.identity.origin ∧ u.oldRoot = m.identity.root) ∧
        e.domain = m.identity.destination
  | .received => m.isTransfer = true ∧ ∃ r, e.data = .bridgeReceive r ∧
      r.origin = m.identity.origin ∧ r.nonce = m.identity.nonce ∧
        e.domain = m.identity.destination
  | .processed => ∃ p, e.data = .process p ∧ p.messageHash = m.hash

/-- A notice carries a message in the state of its kind, and an event that brings it there. -/
structure Notice.Fits (net : Network) (n : Notice) : Prop where
  state : n.message.state = n.kind
  event : n.event.Brings net n.message n.kind

/-- What the dispatch of a message fixed, and the state to which it has come. -/
structure Message.Standing where
  identity : Identity
  state : State

/-- Where a message stands. -/
def Message.standing (m : Message) : Standing := ⟨m.identity, m.state⟩

/-- A message has come at least as far as a state. -/
def Message.CameTo (s : Option Standing) (t : State) : Prop :=
  ∃ s', s = some s' ∧ t.rank ≤ s'.state.rank

theorem Message.cameTo_some {s : Standing} {t : State} :
    CameTo (some s) t ↔ t.rank ≤ s.state.rank := by
  simp [CameTo]

theorem Notice.Fits.standing {net : Network} {n : Notice} (h : n.Fits net) :
    n.message.standing.state = n.kind :=
  h.state

/-- The notices of a hash lead from where its message stands, or from none, to where it stands
then: each fits, the first of all tells of a dispatch, and each other one of the same message in a
later state than before. -/
inductive Climb (net : Network) (hash : Digest) :
    Option Standing → List Notice → Option Standing → Prop
  | stay (s : Option Standing) : Climb net hash s [] s
  | enter {n : Notice} {ns : List Notice} {t : Option Standing} (hn : n.Fits net)
      (hhash : n.message.hash = hash) (hkind : n.kind = .dispatched)
      (h : Climb net hash (some n.message.standing) ns t) : Climb net hash none (n :: ns) t
  | rise {s : Standing} {n : Notice} {ns : List Notice} {t : Option Standing} (hn : n.Fits net)
      (hhash : n.message.hash = hash) (hid : n.message.identity = s.identity)
      (hs : s.state.precedes n.kind = true)
      (h : Climb net hash (some n.message.standing) ns t) : Climb net hash (some s) (n :: ns) t

namespace Climb

variable {net : Network} {hash : Digest} {s t u : Option Standing} {ns ms : List Notice}

theorem append (h : Climb net hash s ns t) (h' : Climb net hash t ms u) :
    Climb net hash s (ns ++ ms) u := by
  induction h with
  | stay s => exact h'
  | enter hn hhash hkind _ ih => exact .enter hn hhash hkind (ih h')
  | rise hn hhash hid hs _ ih => exact .rise hn hhash hid hs (ih h')

theorem fits (h : Climb net hash s ns t) {n : Notice} (hn : n ∈ ns) :
    n.Fits net ∧ n.message.hash = hash := by
  induction h with
  | stay => cases hn
  | enter hfits hhash _ _ ih =>
    rcases List.mem_cons.mp hn with rfl | hn
    · exact ⟨hfits, hhash⟩
    · exact ih hn
  | rise hfits hhash _ _ _ ih =>
    rcases List.mem_cons.mp hn with rfl | hn
    · exact ⟨hfits, hhash⟩
    · exact ih hn

/-- All notices of a climb are about the message at its end, and so is its start. -/
theorem identity {t : Standing} (h : Climb net hash s ns (some t)) :
    (∀ s', s = some s' → s'.identity = t.identity) ∧
      ∀ n ∈ ns, n.message.identity = t.identity := by
  generalize ht : some t = t' at h
  induction h with
  | stay s => exact ⟨fun s' hs' => by rw [Option.some.inj (ht.trans hs')], by simp⟩
  | enter _ _ _ _ ih =>
    obtain ⟨hfirst, hrest⟩ := ih ht
    exact ⟨nofun, List.forall_mem_cons.mpr ⟨hfirst _ rfl, hrest⟩⟩
  | rise _ _ hid _ _ ih =>
    obtain ⟨hfirst, hrest⟩ := ih ht
    refine ⟨fun s' hs' => ?_, List.forall_mem_cons.mpr ⟨hfirst _ rfl, hrest⟩⟩
    rw [← Option.some.inj hs', ← hid]
    exact hfirst _ rfl

/-- All notices of a climb tell of later states than that from which it starts. -/
theorem rank_lt {s : Standing} (h : Climb net hash (some s) ns t) {n : Notice} (hn : n ∈ ns) :
    s.state.rank < n.kind.rank := by
  induction ns generalizing s with
  | nil => cases hn
  | cons n' ns ih =>
    cases h with
    | rise hfits _ _ hs h =>
      have hlt : s.state.rank < n'.kind.rank := of_decide_eq_true hs
      rcases List.mem_cons.mp hn with rfl | hn
      · exact hlt
      · exact Nat.lt_trans (hfits.standing ▸ hlt) (ih h hn)

/-- The states that a climb tells of come one after another. -/
theorem increasing (h : Climb net hash s ns t) :
    ns.Pairwise fun earlier later => earlier.kind.precedes later.kind = true := by
  induction h with
  | stay => exact .nil
  | enter hn _ _ h ih =>
    exact .cons (fun n hlater => decide_eq_true (hn.standing ▸ h.rank_lt hlater)) ih
  | rise hn _ _ _ h ih =>
    exact .cons (fun n hlater => decide_eq_true (hn.standing ▸ h.rank_lt hlater)) ih

/-- A climb ends in the state that its last notice tells of. -/
theorem state_eq_last (h : Climb net hash s ns t) :
    t.map Standing.state = (ns.getLast?.map Notice.kind).or (s.map Standing.state) := by
  induction h with
  | stay s => rfl
  | @enter n ns t hn _ _ _ ih =>
    rw [ih, List.getLast?_cons, Option.map_some, hn.standing]
    cases ns.getLast? <;> rfl
  | @rise s n ns t hn _ _ _ _ ih =>
    rw [ih, List.getLast?_cons, Option.map_some, hn.standing]
    cases ns.getLast? <;> rfl

/-- What climbs from nowhere begins with a dispatch. -/
theorem exists_cons (h : Climb net hash none ns t) (ht : t ≠ none) :
    ∃ n ms, ns = n :: ms ∧ n.kind = .dispatched := by
  cases h with
  | stay => exact absurd rfl ht
  | enter _ _ hkind _ => exact ⟨_, _, rfl, hkind⟩

/-- A climb does not fall below a state to which the message had come. -/
theorem cameTo_of_start (h : Climb net hash s ns t) {u : State} (hs : CameTo s u) : CameTo t u := by
  induction h with
  | stay => exact hs
  | enter =>
    obtain ⟨s', hnone, -⟩ := hs
    cases hnone
  | rise hn _ _ hprecedes _ ih =>
    rw [cameTo_some] at hs
    refine ih (cameTo_some.mpr ?_)
    rw [hn.standing]
    exact Nat.le_trans hs (Nat.le_of_lt (of_decide_eq_true hprecedes))

/-- The message has come to all states that a climb tells of. -/
theorem cameTo (h : Climb net hash s ns t) {n : Notice} (hn : n ∈ ns) : CameTo t n.kind := by
  have hself {n : Notice} (hfits : n.Fits net) : CameTo (some n.message.standing) n.kind :=
    cameTo_some.mpr (Nat.le_of_eq (congrArg State.rank hfits.standing).symm)
  induction h with
  | stay => cases hn
  | enter hfits _ _ h ih =>
    rcases List.mem_cons.mp hn with rfl | hn
    · exact h.cameTo_of_start (hself hfits)
    · exact ih hn
  | rise hfits _ _ _ h ih =>
    rcases List.mem_cons.mp hn with rfl | hn
    · exact h.cameTo_of_start (hself hfits)
    · exact ih hn

/-- A climb tells of no state to which the message had come. -/
theorem kind_ne (h : Climb net hash s ns t) {u : State} (hs : CameTo s u) {n : Notice}
    (hn : n ∈ ns) : n.kind ≠ u := by
  obtain ⟨s', rfl, hle⟩ := hs
  rintro rfl
  exact Nat.not_le_of_lt (h.rank_lt hn) hle

end Climb

/-! ### Signals -/

/-- What is told when a message moves on. -/
def Notice.signals (n : Notice) : List Signal := [.moved n.kind, .noted n]

namespace Signal

/-- The notices about messages of a hash, in their order. -/
def noticesOf (hash : Digest) (xs : List Signal) : List Notice :=
  (notices xs).filter fun n => n.message.hash = hash

theorem mem_noticesOf {hash : Digest} {n : Notice} {xs : List Signal} :
    n ∈ noticesOf hash xs ↔ n ∈ notices xs ∧ n.message.hash = hash := by
  rw [noticesOf, List.mem_filter, decide_eq_true_iff]

theorem notices_append (xs ys : List Signal) : notices (xs ++ ys) = notices xs ++ notices ys :=
  List.filterMap_append

theorem noticesOf_append (hash : Digest) (xs ys : List Signal) :
    noticesOf hash (xs ++ ys) = noticesOf hash xs ++ noticesOf hash ys := by
  rw [noticesOf, notices_append, List.filter_append]
  rfl

theorem notices_signals (ns : List Notice) : notices (ns.flatMap Notice.signals) = ns := by
  induction ns with
  | nil => rfl
  | cons n ns ih =>
    rw [List.flatMap_cons, notices_append, ih]
    rfl

/-- For each state the transitions to it that are counted are those that are noticed. A dispatch is
noticed, but it is no transition. -/
def Balanced (xs : List Signal) : Prop :=
  ∀ t, countMoved t xs = if t = .dispatched then 0 else (notices xs).countP (·.kind = t)

theorem balanced_nil : Balanced [] := by
  intro t
  split <;> rfl

theorem Balanced.append {xs ys : List Signal} (h : Balanced xs) (h' : Balanced ys) :
    Balanced (xs ++ ys) := by
  intro t
  rw [countMoved, List.countP_append, notices_append, List.countP_append]
  have hx := h t
  have hy := h' t
  rw [countMoved] at hx hy
  rw [hx, hy]
  split <;> rfl

theorem Balanced.sighted {xs : List Signal} (domain : UInt32) (h : Balanced xs) :
    Balanced (.sighted domain :: xs) := h

theorem Balanced.consumed {xs : List Signal} (kind : Event.Kind) (h : Balanced xs) :
    Balanced (.consumed kind :: xs) := h

/-- A dispatch is noticed, but it is no transition. -/
theorem Balanced.dispatched {xs : List Signal} {n : Notice} (hn : n.kind = .dispatched)
    (h : Balanced xs) : Balanced (.noted n :: xs) := by
  have hone : Balanced [.noted n] := by
    intro t
    by_cases ht : t = .dispatched
    · rw [if_pos ht]
      rfl
    · simp [countMoved, notices, hn, ht, Ne.symm ht]
  exact hone.append h

theorem Balanced.flatten {xss : List (List Signal)} (h : ∀ xs ∈ xss, Balanced xs) :
    Balanced xss.flatten := by
  induction xss with
  | nil => exact balanced_nil
  | cons xs xss ih =>
    exact (h xs List.mem_cons_self).append (ih fun ys hys => h ys (List.mem_cons_of_mem _ hys))

theorem Balanced.perm {xs ys : List Signal} (h : Balanced xs) (hperm : ys.Perm xs) :
    Balanced ys := by
  intro t
  have hnotices : (notices ys).Perm (notices xs) := hperm.filterMap _
  rw [countMoved, hperm.countP_eq, hnotices.countP_eq]
  exact h t

theorem balanced_signals {ns : List Notice} (h : ∀ n ∈ ns, n.kind ≠ .dispatched) :
    Balanced (ns.flatMap Notice.signals) := by
  induction ns with
  | nil => exact balanced_nil
  | cons n ns ih =>
    have hn := h n List.mem_cons_self
    refine Balanced.append (fun t => ?_) (ih fun n' hn' => h n' (List.mem_cons_of_mem n hn'))
    by_cases ht : n.kind = t
    · subst ht
      simp [Notice.signals, countMoved, notices, hn]
    · simp [Notice.signals, countMoved, notices, ht]

end Signal

/-! ### Messages that move on -/

namespace Message

variable {net : Network} {m m' m'' : Message} {xs ys : List Signal} {k : Mark} {e : Event}

/-- What is told leads from where a message stands to where the same message stands later. -/
structure Rises (net : Network) (m : Message) (xs : List Signal) (m' : Message) : Prop where
  identity : m'.identity = m.identity
  payload : m'.payload = m.payload
  climb : ∃ ns, xs = ns.flatMap Notice.signals ∧
    Climb net m.hash (some m.standing) ns (some m'.standing)

namespace Rises

theorem refl (net : Network) (m : Message) : Rises net m [] m :=
  ⟨rfl, rfl, [], rfl, .stay _⟩

theorem trans (h : Rises net m xs m') (h' : Rises net m' ys m'') :
    Rises net m (xs ++ ys) m'' := by
  obtain ⟨hid, hpay, ns, rfl, hclimb⟩ := h
  obtain ⟨hid', hpay', ms, rfl, hclimb'⟩ := h'
  have hhash : m'.hash = m.hash := congrArg Identity.hash hid
  exact ⟨hid'.trans hid, hpay'.trans hpay, ns ++ ms, List.flatMap_append.symm,
    hclimb.append (hhash ▸ hclimb')⟩

theorem lookup? (h : Rises net m xs m') (k : Mark) : m'.lookup? k = m.lookup? k := by
  cases k <;> simp only [Message.lookup?, transfer?, h.identity, h.payload]

theorem admits (h : Rises net m xs m') (k : Mark) : m'.admits k = m.admits k := by
  cases k <;> simp only [Message.admits, isTransfer, transfer?, h.payload]

theorem balanced (h : Rises net m xs m') : Signal.Balanced xs := by
  obtain ⟨-, -, ns, rfl, hclimb⟩ := h
  refine Signal.balanced_signals fun n hn hkind => ?_
  have hlt := hclimb.rank_lt hn
  rw [hkind] at hlt
  exact Nat.not_lt_zero _ hlt

end Rises

/-- An event that a message looks for and heeds brings it into the state of its mark. -/
theorem brings_of_lookup (hadmits : m.admits k = true) (hlookup : m.lookup? k = Lookup.ofEvent? e)
    (hheeds : m.heeds k e = true) (hk : k ≠ .sent) : e.Brings net m k.state := by
  cases k with
  | sent => exact absurd rfl hk
  | updated => exact Lookup.ofEvent?_eq_update.mp hlookup.symm
  | relayed =>
    obtain ⟨u, hu, hmatch⟩ := Lookup.ofEvent?_eq_relay.mp hlookup.symm
    rw [heeds, bne_self_eq_false, Bool.false_or, beq_iff_eq] at hheeds
    exact ⟨u, hu, hmatch, hheeds⟩
  | received => exact ⟨hadmits, Lookup.ofEvent?_eq_receive.mp hlookup.symm⟩
  | processed => exact Lookup.ofEvent?_eq_process.mp hlookup.symm

/-- The notice of a transition fits. -/
theorem fits_of_lookup (hadmits : m.admits k = true) (hlookup : m.lookup? k = Lookup.ofEvent? e)
    (hheeds : m.heeds k e = true) (hk : k ≠ .sent) :
    Notice.Fits net ⟨k.state, { m.stamp k e with state := k.state }, e⟩ := by
  refine ⟨rfl, brings_of_lookup ?_ ?_ ?_ hk⟩
  · cases k <;> exact hadmits
  · cases k <;> exact hlookup
  · cases k <;> exact hheeds

/-- A message takes an event that it looks for. -/
theorem rises_take (hadmits : m.admits k = true) (hlookup : m.lookup? k = Lookup.ofEvent? e) :
    Rises net m (announcement k e (m.take k e)) (m.take k e).1 := by
  rw [take_eq]
  by_cases hheeds : m.heeds k e = true
  · have hstamp : Rises net m [] (m.stamp k e) := by
      cases k <;> exact ⟨rfl, rfl, [], rfl, .stay _⟩
    have hstate : (m.stamp k e).state = m.state := by cases k <;> rfl
    rw [if_pos hheeds, advance]
    split
    · next hmoves =>
      rw [hstate] at hmoves
      have hk : k ≠ .sent := by
        rintro rfl
        simp [State.precedes, Mark.state, State.rank] at hmoves
      exact ⟨hstamp.identity, hstamp.payload, [_], rfl,
        .rise (fits_of_lookup hadmits hlookup hheeds hk) (congrArg Identity.hash hstamp.identity)
          hstamp.identity hmoves (.stay _)⟩
    · exact hstamp
  · rw [if_neg hheeds]
    exact .refl net m

theorem rises_takeAll {es : List Event} (hadmits : m.admits k = true)
    (hlookup : ∀ e ∈ es, m.lookup? k = Lookup.ofEvent? e) :
    Rises net m (takeAll k es m).2 (takeAll k es m).1 := by
  induction es generalizing m with
  | nil => exact .refl net m
  | cons e es ih =>
    have hfirst : Rises net m _ _ := rises_take hadmits (hlookup e List.mem_cons_self)
    refine hfirst.trans (ih ((hfirst.admits k).trans hadmits) fun d hd => ?_)
    rw [hfirst.lookup?]
    exact hlookup d (List.mem_cons_of_mem e hd)

theorem rises_catchOn (s : Stock) (k : Mark) (m : Message) :
    Rises net m (catchOn s k m).2 (catchOn s k m).1 := by
  rw [catchOn]
  split
  · exact .refl net m
  · next hskip =>
    have hadmits : m.admits k = true := by
      simp only [Bool.or_eq_true, Bool.not_eq_true', not_or, Bool.not_eq_false] at hskip
      exact hskip.2
    refine rises_takeAll hadmits fun e he => ?_
    cases hl : m.lookup? k with
    | none =>
      rw [hl] at he
      cases he
    | some l =>
      rw [hl] at he
      exact (s.fitting he).symm

theorem rises_catchAll (s : Stock) (ks : List Mark) (m : Message) :
    Rises net m (catchAll s ks m).2 (catchAll s ks m).1 := by
  induction ks generalizing m with
  | nil => exact .refl net m
  | cons k ks ih => exact (rises_catchOn s k m).trans (ih _)

/-- A message that catches up moves on from where it stands. -/
theorem rises_caughtUp (net : Network) (s : Stock) (m : Message) :
    Rises net m (m.caughtUp s).2 (m.caughtUp s).1 :=
  rises_catchAll s Mark.all m

end Message

end Waybill
