import Waybill.Tracker.Handling
import Waybill.Proofs.Message.Mark
import Waybill.Proofs.Pending.Access
/-!
# How a message catches up

A message that catches up takes, for each mark that was not left on it, the events that wait for
it. The last one that concerns it is the one that counts.

## Main definitions

* `Message.caughtUp`: the message that has caught up, and what is told on the way.
* `Message.pending?`: the event that a message would take from the pool for a mark.

## Main results

* `Tracker.leads_catchUp`: the task of catching up over a pool.
* `Message.caughtUp_after`: catching up fills the history with what is pending.
-/

namespace Waybill

open Waybill.Pending

namespace Message

/-- What is told about a transition. -/
def announcement (k : Mark) (e : Event) (step : Message × Bool) : List Signal :=
  if step.2 then [.moved k.state, .noted ⟨k.state, step.1, e⟩] else []

/-- A message takes events of a mark one after another. -/
def takeAll (k : Mark) : List Event → Message → Message × List Signal
  | [], m => (m, [])
  | e :: es, m =>
    let rest := takeAll k es (m.take k e).1
    (rest.1, announcement k e (m.take k e) ++ rest.2)

/-- A message takes the events that wait for a mark, if the mark was not left. -/
def catchOn (s : Stock) (k : Mark) (m : Message) : Message × List Signal :=
  if m.seen.has k || !m.admits k then (m, [])
  else takeAll k ((m.lookup? k).elim [] s.held) m

/-- A message takes the events that wait for the marks of a list. -/
def catchAll (s : Stock) : List Mark → Message → Message × List Signal
  | [], m => (m, [])
  | k :: ks, m =>
    let rest := catchAll s ks (catchOn s k m).1
    (rest.1, (catchOn s k m).2 ++ rest.2)

/-- The marks in the order in which a message catches up. -/
def Mark.all : List Mark := [sent, updated, relayed, received, processed]

theorem Mark.mem_all (k : Mark) : k ∈ all := by
  cases k <;> decide

/-- A message that has caught up, and what is told on the way. -/
def caughtUp (s : Stock) (m : Message) : Message × List Signal := catchAll s Mark.all m

end Message

/-! ### The task of catching up -/

namespace Tracker

open Waybill.Task Message

variable {s : Stock} {pool : SortedMap (String × String) String}

theorem leads_announce (pool : SortedMap (String × String) String) (k : Mark) (e : Event)
    (step : Message × Bool) :
    Leads pool (announce k.state e step) (announcement k e step) (.done step.1) := by
  rw [announce, announcement]
  split
  · exact .tell (.tell (.here _))
  · exact .here _

theorem leads_applyAll (pool : SortedMap (String × String) String) (k : Mark)
    {step : Message → Event → Message × Bool} (hstep : ∀ m e, step m e = m.take k e)
    (es : List Event) (m : Message) :
    Leads pool (applyAll k.state step es m) (takeAll k es m).2 (.done (takeAll k es m).1) := by
  induction es generalizing m with
  | nil => exact .here _
  | cons e es ih =>
    rw [applyAll, hstep]
    exact (leads_announce pool k e _).bind (ih _)

/-- Of a lookup for which at most one event waits, that one is taken. -/
theorem leads_single (h : s.ShownBy pool) {l : Lookup} (hl : l.keepsAll = false) (k : Mark)
    (m : Message) {f : Option Event → Task Message} (hnone : f none = .done m)
    (hsome : ∀ e ∈ s.held l,
      Leads pool (f (some e)) (announcement k e (m.take k e)) (.done (m.take k e).1)) :
    Leads pool ((event? l.slot).bind f) (takeAll k (s.held l) m).2
      (.done (takeAll k (s.held l) m).1) := by
  refine (leads_event? h hl).bind_nil ?_
  cases hs : s.held l with
  | nil =>
    rw [List.head?_nil, hnone]
    exact .here _
  | cons e es =>
    have hmem : e ∈ s.held l := hs ▸ List.mem_cons_self
    rw [s.held_eq_singleton hl hmem] at hs
    rw [← hs, takeAll, takeAll, List.append_nil, List.head?_cons]
    exact hsome e hmem

/-- Catching up on the sending of tokens. -/
theorem leads_catchUpSend (h : s.ShownBy pool) (m : Message) :
    Leads pool (catchUpSend m) (catchOn s .sent m).2 (.done (catchOn s .sent m).1) := by
  rw [catchUpSend, catchOn]
  cases ht : m.transfer? with
  | none =>
    rw [if_pos (by simp [admits, isTransfer, ht])]
    exact .here _
  | some t =>
    have htransfer : m.isTransfer = true := by simp [isTransfer, ht]
    by_cases hseen : m.seen.sent = true
    · simp only [hseen, Seen.has, Bool.true_or, if_true]
      exact .here _
    · rw [if_neg (by simp [Seen.has, hseen, admits, htransfer]), lookup?, ht]
      simp only [if_neg hseen]
      refine leads_single h (l := .send m.identity.destination t.recipient t.amount
        m.identity.dispatchBlock) rfl .sent m ?_ fun e he => ?_
      · rfl
      · have hfit := s.fitting he
        cases hdata : e.data with
        | bridgeSend d =>
          simp only [hdata, attachSend?_eq htransfer hdata]
          exact .here _
        | _ =>
          rw [Lookup.ofEvent?, hdata] at hfit
          cases hfit

/-- Catching up on the updates of the root. -/
theorem leads_catchUpUpdate (h : s.ShownBy pool) (m : Message) :
    Leads pool (catchUpUpdate m) (catchOn s .updated m).2 (.done (catchOn s .updated m).1) := by
  rw [catchUpUpdate, catchOn]
  by_cases hseen : m.seen.updated = true
  · simp only [hseen, Seen.has, Bool.true_or, if_true]
    exact .here _
  · rw [if_neg hseen, if_neg (by simp [Seen.has, hseen, admits])]
    exact (leads_events (l := .update m.identity.origin m.identity.root) h rfl).bind
      (leads_applyAll pool .updated (fun _ _ => rfl) _ m)

/-- Catching up on the relays of the root. -/
theorem leads_catchUpRelay (h : s.ShownBy pool) (m : Message) :
    Leads pool (catchUpRelay m) (catchOn s .relayed m).2 (.done (catchOn s .relayed m).1) := by
  rw [catchUpRelay, catchOn]
  by_cases hseen : m.seen.relayed = true
  · simp only [hseen, Seen.has, Bool.true_or, if_true]
    exact .here _
  · rw [if_neg hseen, if_neg (by simp [Seen.has, hseen, admits])]
    exact (leads_events (l := .relay m.identity.origin m.identity.root) h rfl).bind
      (leads_applyAll pool .relayed (fun _ _ => rfl) _ m)

/-- Catching up on the receipt of the tokens. -/
theorem leads_catchUpReceive (h : s.ShownBy pool) (m : Message) :
    Leads pool (catchUpReceive m) (catchOn s .received m).2 (.done (catchOn s .received m).1) := by
  rw [catchUpReceive, catchOn]
  by_cases hskip : (m.seen.received || !m.isTransfer) = true
  · rw [if_pos hskip, if_pos (by exact hskip)]
    exact .here _
  · rw [if_neg hskip, if_neg (by exact hskip)]
    refine leads_single h (l := .receive m.identity.origin m.identity.nonce m.identity.destination)
      rfl .received m ?_ fun e _ => ?_
    · rfl
    · exact leads_announce pool .received e _

/-- Catching up on the processing. -/
theorem leads_catchUpProcess (h : s.ShownBy pool) (m : Message) :
    Leads pool (catchUpProcess m) (catchOn s .processed m).2
      (.done (catchOn s .processed m).1) := by
  rw [catchUpProcess, catchOn]
  by_cases hseen : m.seen.processed = true
  · simp only [hseen, Seen.has, Bool.true_or, if_true]
    exact .here _
  · rw [if_neg hseen, if_neg (by simp [Seen.has, hseen, admits])]
    refine leads_single h (l := .process m.identity.hash) rfl .processed m ?_ fun e _ => ?_
    · rfl
    · exact leads_announce pool .processed e _

/-- Over a pool that shows a stock, a message catches up with what waits in it. -/
theorem leads_catchUp (h : s.ShownBy pool) (m : Message) :
    Leads pool (catchUp m) (m.caughtUp s).2 (.done (m.caughtUp s).1) := by
  simp only [caughtUp, Mark.all, catchAll, List.append_nil]
  exact (leads_catchUpSend h m).bind <| (leads_catchUpUpdate h _).bind <|
    (leads_catchUpRelay h _).bind <| (leads_catchUpReceive h _).bind (leads_catchUpProcess h _)

end Tracker

namespace Message

variable (b : Message) (s : Stock)

/-- The event that a message would take from the pool for a mark. -/
def pending? (k : Mark) : Option Event :=
  if b.admits k then (((b.lookup? k).elim [] s.held).filter (b.heeds k)).getLast? else none

/-- Taking events one after another leaves the mark of the last one that concerns the message. -/
theorem takeAll_after (k : Mark) (es : List Event) (h : History) :
    (takeAll k es (b.after h)).1 =
      b.after (((es.filter (b.heeds k)).getLast?).elim h (h.note k)) := by
  induction es generalizing h with
  | nil => rfl
  | cons e es ih =>
    rw [takeAll, take_after]
    by_cases he : b.heeds k e = true
    · rw [if_pos he, ih, List.filter_cons_of_pos he, List.getLast?_cons]
      cases (es.filter (b.heeds k)).getLast? with
      | none => rfl
      | some d => simp only [Option.elim_some, Option.getD_some, History.note_note]
    · rw [if_neg he, ih, List.filter_cons_of_neg he]

/-- Catching up on a mark fills it with what is pending. -/
theorem catchOn_after (k : Mark) (h : History) :
    (catchOn s k (b.after h)).1 = b.after (h.fill [k] (b.pending? s)) := by
  rw [catchOn, seen_after, History.has_seen, admits_after, lookup?_after]
  split
  case isTrue hskip =>
    rw [History.fill_of_skip]
    rcases Bool.or_eq_true_iff.mp hskip with hsome | hrefuses
    · exact .inl hsome
    · exact .inr (if_neg (by simpa using hrefuses))
  case isFalse hskip =>
    simp only [Bool.or_eq_true, Bool.not_eq_true', not_or, Bool.not_eq_false] at hskip
    have hunseen : h k = none := Option.not_isSome_iff_eq_none.mp hskip.1
    have hpending : b.pending? s k =
        (((b.lookup? k).elim [] s.held).filter (b.heeds k)).getLast? := if_pos hskip.2
    rw [takeAll_after, ← hpending]
    cases he : b.pending? s k with
    | none => rw [History.fill_of_skip (.inr he), Option.elim_none]
    | some e => rw [History.fill_eq_note hunseen he, Option.elim_some]

theorem catchAll_after (ks : List Mark) (h : History) :
    (catchAll s ks (b.after h)).1 = b.after (h.fill ks (b.pending? s)) := by
  induction ks generalizing h with
  | nil => rw [History.fill_nil, catchAll]
  | cons k ks ih => rw [catchAll, catchOn_after, ih, History.fill_fill]

/-- Catching up fills the marks that were not left with what is pending for them. -/
theorem caughtUp_after (h : History) :
    ((b.after h).caughtUp s).1 = b.after (h.fill Mark.all (b.pending? s)) :=
  catchAll_after b s Mark.all h

end Message

end Waybill
