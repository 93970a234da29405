import Mathlib.Data.List.Induction
import Waybill.Proofs.Message.Reload
/-!
# What a message is after its acts

The acts of each kind write places of their own, and a later one writes over an earlier one. The
state only moves up. So a message after any list of acts can be told from the last act of each kind
and from the states that the acts lead to, however acts of different kinds follow one another. Two
sorts of acts do nothing: a relay to another domain, and a sending attached to no transfer.

## Main definitions

* `State.IsFurthest`: the furthest one of some states.
* `Message.Act.kind`, `Message.Act.event`, `Message.Act.target?`: what an act is made of.
* `Message.allows`: an act takes effect on a message.
* `Message.moved`: what an act tells.
* `Message.last?`, `Message.targets`: the last act of a kind, and the states acts lead to.
* `Message.closedForm`: a message after some acts, written down at once.

## Main results

* `Message.act_closedForm`: one more act.
* `Message.moved_iff`: what an act tells is whether it raises the state.
* `Message.closedForm_congr`: acts of different kinds can change places.
* `Message.acts_in_any_order`: what a message is after its acts.
-/

namespace Waybill

namespace State

/-- The later one of two states. -/
def later (s t : State) : State := if s.precedes t then t else s

theorem rank_later (s t : State) : (s.later t).rank = max s.rank t.rank := by
  rw [later, precedes]
  by_cases h : s.rank < t.rank
  · rw [if_pos (decide_eq_true h), Nat.max_eq_right (Nat.le_of_lt h)]
  · rw [if_neg (mt of_decide_eq_true h), Nat.max_eq_left (Nat.not_lt.mp h)]

theorem later_eq_or (s t : State) : s.later t = s ∨ s.later t = t := by
  rw [later]
  split
  · exact .inr rfl
  · exact .inl rfl

/-- A state is the furthest one of a state and some more. -/
structure IsFurthest (s : State) (ts : List State) (r : State) : Prop where
  mem : r ∈ s :: ts
  bound : ∀ t ∈ s :: ts, t.rank ≤ r.rank

/-- Which state is the furthest one does not depend on the order. -/
theorem IsFurthest.unique {s r r' : State} {ts ts' : List State} (h : IsFurthest s ts r)
    (h' : IsFurthest s ts' r') (hmem : ∀ t, t ∈ ts ↔ t ∈ ts') : r = r' := by
  have hcons (t : State) : t ∈ s :: ts ↔ t ∈ s :: ts' := by
    rw [List.mem_cons, List.mem_cons, hmem t]
  have hle : r.rank ≤ r'.rank := h'.bound r ((hcons r).mp h.mem)
  have hge : r'.rank ≤ r.rank := h.bound r' ((hcons r').mpr h'.mem)
  exact rank_inj (Nat.le_antisymm hle hge)

/-- Moving on whenever there is a later state leads to the furthest one. -/
theorem isFurthest_foldl (s : State) (ts : List State) : IsFurthest s ts (ts.foldl later s) := by
  induction ts generalizing s with
  | nil => exact ⟨List.mem_cons_self, by simp⟩
  | cons t ts ih =>
    obtain ⟨hmem, hbound⟩ := ih (s.later t)
    have hlater := hbound _ List.mem_cons_self
    rw [rank_later] at hlater
    refine ⟨?_, ?_⟩
    · rcases List.mem_cons.mp hmem with heq | hts
      · rw [List.foldl_cons, heq]
        rcases s.later_eq_or t with h | h <;> simp [h]
      · exact List.mem_cons_of_mem _ (List.mem_cons_of_mem _ hts)
    · intro u hu
      rw [List.mem_cons, List.mem_cons] at hu
      rcases hu with rfl | rfl | hu
      · exact Nat.le_trans (Nat.le_max_left ..) hlater
      · exact Nat.le_trans (Nat.le_max_right ..) hlater
      · exact hbound u (List.mem_cons_of_mem _ hu)

end State

namespace Message

/-! ### What an act is made of -/

namespace Act

/-- The mark that an act leaves. -/
def kind : Act → Mark
  | update _ => .updated
  | relay _ => .relayed
  | receive _ => .received
  | process _ => .processed
  | attachSend _ _ => .sent

/-- The event of an act. -/
def event : Act → Event
  | update e | relay e | receive e | process e | attachSend e _ => e

/-- Who sent the tokens, if a sending is attached. -/
def sender? : Act → Option Identifier
  | attachSend _ s => some s.sender
  | _ => none

/-- The state that an act leads to. Attaching a sending leads to none. -/
def target? : Act → Option State
  | update _ => some .updated
  | relay _ => some .relayed
  | receive _ => some .received
  | process _ => some .processed
  | attachSend _ _ => none

end Act

/-! ### Single acts -/

section Single

variable (m : Message)

/-- An act takes effect on a message: a relay at its destination only, and the attachment of a
sending to a transfer only. -/
def allows : Act → Bool
  | .relay e => e.domain == m.identity.destination
  | .attachSend _ _ => m.isTransfer
  | _ => true

/-- What an act tells, whether the state moved. Attaching a sending does not move it. -/
def moved : Act → Bool
  | .update e => (m.update e).2
  | .relay e => (m.relay e).2
  | .receive e => (m.receive e).2
  | .process e => (m.process e).2
  | .attachSend _ _ => false

/-- A relay to another domain does nothing. -/
theorem relay_of_ne {e : Event} (h : e.domain ≠ m.identity.destination) :
    m.relay e = (m, false) :=
  if_pos h

/-- A sending is refused by what is no transfer, and by nothing else. -/
theorem attachSend?_eq_none_iff {e : Event} {s : Send} :
    m.attachSend? e s = none ↔ m.isTransfer = false := by
  rw [attachSend?]
  split <;> simp_all

/-- An act that does not take effect does nothing. -/
theorem act_of_not_allows {a : Act} (h : m.allows a = false) : m.act a = m := by
  cases a with
  | update e => cases h
  | receive e => cases h
  | process e => cases h
  | relay e => rw [act, m.relay_of_ne (bne_iff_ne.mp (congrArg not h))]
  | attachSend e s =>
    rw [act, m.attachSend?_eq_none_iff.mpr h]
    rfl

theorem advance_snd_iff (target : State) :
    (m.advance target).2 = true ↔ m.state.rank < (m.advance target).1.state.rank := by
  rw [advance]
  split
  · next h => simpa [State.precedes] using h
  · simp

/-- What an act tells is whether it raises the state. -/
theorem moved_iff (a : Act) : m.moved a = true ↔ m.state.rank < (m.act a).state.rank := by
  cases a with
  | update e => exact advance_snd_iff _ _
  | receive e => exact advance_snd_iff _ _
  | process e => exact advance_snd_iff _ _
  | relay e =>
    rw [moved, act]
    by_cases h : e.domain = m.identity.destination
    · rw [relay, if_neg (not_not_intro h)]
      exact advance_snd_iff _ _
    · simp [m.relay_of_ne h]
  | attachSend e s =>
    have hstate : (m.act (.attachSend e s)).state = m.state := by
      rw [act, attachSend?]
      split <;> rfl
    simp [moved, hstate]

end Single

/-! ### Many acts -/

section Closed

variable (m : Message) (as : List Act)

/-- The last act of a kind that takes effect. -/
def last? (k : Mark) : Option Act := ((as.filter fun a => a.kind = k).filter m.allows).getLast?

/-- The states that the acts that take effect lead to. -/
def targets : List State := (as.filter m.allows).filterMap Act.target?

/-- A message after some acts. -/
def closedForm : Message :=
  { m with
    state := (m.targets as).foldl State.later m.state
    seen :=
      ⟨m.seen.sent || (m.last? as .sent).isSome,
        m.seen.updated || (m.last? as .updated).isSome,
        m.seen.relayed || (m.last? as .relayed).isSome,
        m.seen.received || (m.last? as .received).isSome,
        m.seen.processed || (m.last? as .processed).isSome⟩
    times :=
      ⟨m.times.dispatched,
        ((m.last? as .updated).map (·.event.timestamp)).getD m.times.updated,
        ((m.last? as .relayed).map (·.event.timestamp)).getD m.times.relayed,
        ((m.last? as .received).map (·.event.timestamp)).getD m.times.received,
        ((m.last? as .processed).map (·.event.timestamp)).getD m.times.processed⟩
    gas :=
      ⟨m.gas.dispatched,
        ((m.last? as .updated).map (·.event.gasUsed)).getD m.gas.updated,
        ((m.last? as .relayed).map (·.event.gasUsed)).getD m.gas.relayed,
        ((m.last? as .received).map (·.event.gasUsed)).getD m.gas.received,
        ((m.last? as .processed).map (·.event.gasUsed)).getD m.gas.processed⟩
    sender := ((m.last? as .sent).bind (·.sender?)).or m.sender
    tx := ((m.last? as .sent).map (·.event.tx)).or m.tx }

variable {as}

theorem last?_concat (a : Act) (k : Mark) : m.last? (as ++ [a]) k =
    if a.kind = k ∧ m.allows a = true then some a else m.last? as k := by
  rw [last?, List.filter_append, List.filter_append]
  by_cases hk : a.kind = k
  · by_cases ha : m.allows a = true
    · simp [hk, ha]
    · simp [hk, ha, last?]
  · simp [hk, last?]

theorem targets_concat (a : Act) : m.targets (as ++ [a]) =
    m.targets as ++ if m.allows a then a.target?.toList else [] := by
  rw [targets, List.filter_append, List.filterMap_append, ← targets]
  by_cases ha : m.allows a = true
  · cases ht : a.target? <;> simp [ha, ht]
  · simp [ha]

/-- Acts are allowed as they were before other acts. -/
theorem allows_closedForm (a : Act) : (m.closedForm as).allows a = m.allows a := by
  cases a <;> rfl

/-- One more act. -/
theorem act_closedForm (a : Act) : (m.closedForm as).act a = m.closedForm (as ++ [a]) := by
  by_cases ha : m.allows a = true
  · have hlast (k : Mark) : m.last? (as ++ [a]) k =
        if a.kind = k then some a else m.last? as k := by
      rw [last?_concat]
      simp only [ha, and_true]
    have htargets : m.targets (as ++ [a]) = m.targets as ++ a.target?.toList := by
      rw [targets_concat, if_pos ha]
    simp only [closedForm, hlast, htargets, List.foldl_append]
    cases a with
    | update e =>
      rw [act, update, advance_fst]
      simp [Act.kind, Act.target?, Act.event, State.later]
    | receive e =>
      rw [act, receive, advance_fst]
      simp [Act.kind, Act.target?, Act.event, State.later]
    | process e =>
      rw [act, process, advance_fst]
      simp [Act.kind, Act.target?, Act.event, State.later]
    | relay e =>
      rw [act, relay, if_neg (not_not_intro (beq_iff_eq.mp ha)), advance_fst]
      simp [Act.kind, Act.target?, Act.event, State.later]
    | attachSend e s =>
      have htransfer : (m.closedForm as).isTransfer = true := ha
      rw [closedForm] at htransfer
      rw [act, attachSend?, if_pos htransfer]
      simp [Act.kind, Act.target?, Act.event, Act.sender?]
  · have hlast (k : Mark) : m.last? (as ++ [a]) k = m.last? as k := by
      rw [last?_concat, if_neg (mt And.right ha)]
    have htargets : m.targets (as ++ [a]) = m.targets as := by
      rw [targets_concat, if_neg ha, List.append_nil]
    rw [act_of_not_allows _ ((m.allows_closedForm a).trans (eq_false_of_ne_true ha))]
    simp only [closedForm, hlast, htargets]

/-- A message after some acts is its closed form. -/
theorem acts_eq_closedForm (as : List Act) : m.acts as = m.closedForm as := by
  induction as using List.reverseRecOn with
  | nil => simp [acts, closedForm, last?, targets]
  | append_singleton as a ih =>
    have hlast : m.acts (as ++ [a]) = (m.acts as).act a := List.foldl_append
    rw [hlast, ih, act_closedForm]

theorem mem_targets_iff {t : State} :
    t ∈ m.targets as ↔ ∃ a ∈ as, m.allows a = true ∧ a.target? = some t := by
  simp only [targets, List.mem_filterMap, List.mem_filter, and_assoc]

/-- The closed form depends only on the acts of each kind. -/
theorem closedForm_congr {bs : List Act}
    (h : ∀ k, (as.filter fun a => a.kind = k) = bs.filter fun a => a.kind = k) :
    m.closedForm as = m.closedForm bs := by
  have hlast (k : Mark) : m.last? as k = m.last? bs k := by
    rw [last?, last?, h k]
  have hmem (a : Act) : a ∈ as ↔ a ∈ bs := by
    have hkind := congrArg (a ∈ ·) (h a.kind)
    simpa using hkind
  have htargets (t : State) : t ∈ m.targets as ↔ t ∈ m.targets bs := by
    simp only [mem_targets_iff, hmem]
  have hstate : (m.targets as).foldl State.later m.state =
      (m.targets bs).foldl State.later m.state :=
    (State.isFurthest_foldl ..).unique (State.isFurthest_foldl ..) htargets
  simp only [closedForm, hlast, hstate]

end Closed

/-- Whatever is done with a message, each mark is left if it was left before or an act of its kind
took effect. Time and gas of a kind, sender and transaction are those of the last such act, the
state is the furthest one of all that were led to, and the rest stays. A relay to another domain
and a sending attached to no transfer do nothing, the latter is refused, and acts tell whether they
raise the state. So only the order of the acts of each kind among themselves matters. -/
theorem acts_in_any_order :
    (∀ (m : Message) (as : List Act), m.acts as = m.closedForm as ∧
      State.IsFurthest m.state (m.targets as) (m.acts as).state) ∧
    (∀ (m : Message) (a : Act),
      (m.allows a = false → m.act a = m) ∧
        (m.moved a = true ↔ m.state.rank < (m.act a).state.rank)) ∧
    (∀ (m : Message) (e : Event) (s : Send),
      m.attachSend? e s = none ↔ m.isTransfer = false) ∧
    ∀ (m : Message) (as bs : List Act),
      (∀ k, (as.filter fun a => a.kind = k) = bs.filter fun a => a.kind = k) →
        m.acts as = m.acts bs := by
  refine ⟨fun m as => ⟨m.acts_eq_closedForm as, ?_⟩, fun m a => ⟨m.act_of_not_allows, m.moved_iff a⟩,
    fun m e s => m.attachSend?_eq_none_iff, fun m as bs h => ?_⟩
  · rw [acts_eq_closedForm]
    exact State.isFurthest_foldl ..
  · rw [acts_eq_closedForm, acts_eq_closedForm, m.closedForm_congr h]

end Message

end Waybill
