import Waybill.Proofs.Pending.Stock
import Waybill.Proofs.Task.Course
/-!
# Access to the pool

What is read from a pool and what is written to it, in terms of the events that wait in it: no
entry of a pool that shows a stock is corrupted, and handing an event to it writes at most once.

## Main definitions

* `Pending.Slot.appendTo`: a pool with a text appended to a list.

## Main results

* `Pending.leads_events`, `Pending.leads_event?`: reading gives the events that wait.
* `Pending.writesLast_store`: handing an event to the pool lets it wait.
* `Pending.shownBy_appendTo`: an event of a root waits in the list of the root.
-/

namespace Waybill.Pending

open Waybill.Task

variable {s : Stock} {pool : SortedMap (String × String) String} {l : Lookup}

theorem leads_get (pool : SortedMap (String × String) String) (l : Lookup) :
    Leads pool (get l.slot) [] (.done (pool.find? l.place)) :=
  .get (.here _)

theorem entry?_cons (l : Lookup) (e : Event) (es : List Event) : l.entry? (e :: es) =
    some (if l.keepsAll then renderList ((e :: es).map Event.render) else e.render) := rfl

/-- The texts in the list of a lookup are those of the events that wait for it. -/
theorem leads_listed (h : s.ShownBy pool) (hl : l.keepsAll = true) :
    Leads pool (listed l.slot) [] (.done ((s.held l).map Event.render)) := by
  refine (leads_get pool l).bind_nil ?_
  rw [h.entry l]
  cases hs : s.held l with
  | nil => exact .here _
  | cons e es =>
    rw [entry?_cons, if_pos hl]
    simp only [parseList?_renderList, readable]
    exact .here _

/-- The events that are read for a lookup that keeps all are those that wait. -/
theorem leads_events (h : s.ShownBy pool) (hl : l.keepsAll = true) :
    Leads pool (events l.slot) [] (.done (s.held l)) := by
  refine (leads_listed h hl).bind_nil ?_
  rw [parseAll?_map_render]
  exact .here _

/-- The event that is read for a lookup that keeps the last one is the one that waits. -/
theorem leads_event? (h : s.ShownBy pool) (hl : l.keepsAll = false) :
    Leads pool (event? l.slot) [] (.done (s.held l).head?) := by
  refine (leads_get pool l).bind_nil ?_
  rw [h.entry l]
  cases hs : s.held l with
  | nil => exact .here _
  | cons e es =>
    rw [entry?_cons, hl, if_neg (by decide)]
    simp only [Event.parse?_render, readable]
    exact .here _

/-- The texts of a list of events hold the text of an event as the list holds the event. -/
theorem contains_map_render (es : List Event) (e : Event) :
    (es.map Event.render).contains e.render = decide (e ∈ es) := by
  rw [Bool.eq_iff_iff, List.contains_iff_mem, List.mem_map, decide_eq_true_iff]
  constructor
  · rintro ⟨d, hd, hde⟩
    rwa [← Event.render_injective hde]
  · intro he
    exact ⟨e, he, rfl⟩

/-! ### Handing events to the pool -/

/-- What is told when an event is handed to the pool. -/
def storeSignals (e : Event) : List Signal :=
  if (Lookup.ofEvent? e).isSome then [.buffered e.kind] else []

theorem entry?_arrange {e : Event} (hl : l.keepsAll = true) (he : e ∉ s.held l) :
    l.entry? (l.arrange (s.held l) e) =
      some (renderList ((s.held l).map Event.render ++ [e.render])) := by
  rw [Lookup.arrange, if_pos hl, if_neg he]
  cases hs : s.held l <;> simp [Lookup.entry?, hl]

/-- The texts in the list of a slot of a pool. -/
def Slot.textsIn (slot : Slot) (pool : SortedMap (String × String) String) : List String :=
  ((pool.find? (slot.bucket.name, slot.key)).bind parseList?).getD []

/-- A pool with a text appended to the list of a slot, unless it is in the list already. -/
def Slot.appendTo (slot : Slot) (value : String) (pool : SortedMap (String × String) String) :
    SortedMap (String × String) String :=
  if value ∈ slot.textsIn pool then pool
  else pool.insert (slot.bucket.name, slot.key) (renderList (slot.textsIn pool ++ [value]))

theorem textsIn_eq (h : s.ShownBy pool) (hl : l.keepsAll = true) :
    l.slot.textsIn pool = (s.held l).map Event.render := by
  have hentry : pool.find? (l.slot.bucket.name, l.slot.key) = l.entry? (s.held l) := h.entry l
  rw [Slot.textsIn, hentry]
  cases s.held l with
  | nil => rfl
  | cons e es => rw [entry?_cons, if_pos hl, Option.bind_some, parseList?_renderList,
      Option.getD_some]

/-- Where all events of a lookup are kept, keeping an event is appending its text. -/
theorem shownBy_appendTo (h : s.ShownBy pool) {e : Event} (he : Lookup.ofEvent? e = some l)
    (hl : l.keepsAll = true) : (s.keep e).ShownBy (l.slot.appendTo e.render pool) := by
  have hmem : e.render ∈ (s.held l).map Event.render ↔ e ∈ s.held l := by
    rw [← List.contains_iff_mem, contains_map_render, decide_eq_true_iff]
  rw [Slot.appendTo, textsIn_eq h hl]
  by_cases hin : e ∈ s.held l
  · rw [if_pos (hmem.mpr hin)]
    exact h.keep_again he (by rw [Lookup.arrange, if_pos hl, if_pos hin])
  · rw [if_neg (mt hmem.mp hin)]
    exact h.keep he (entry?_arrange hl hin)

/-- Setting the entry of a lookup is one write. -/
theorem writesLast_put (m : Memory) (l : Lookup) (text : String) :
    WritesLast m (put l.slot text) [] () { m with pool := m.pool.insert l.place text } :=
  .write rfl rfl

/-- Appending an event to the list of its lookup lets it wait there. -/
theorem writesLast_appendUnique {m : Memory} (h : s.ShownBy m.pool) {e : Event}
    (he : Lookup.ofEvent? e = some l) (hl : l.keepsAll = true) :
    ∃ pool, (s.keep e).ShownBy pool ∧
      WritesLast m (appendUnique l.slot e.render) [] () { m with pool } := by
  have hhas : m.answer (.has l.slot.bucket.name l.slot.key) =
      (.ok (!(s.held l).isEmpty), m) := by
    have hentry : m.pool.contains l.place = !(s.held l).isEmpty := by
      rw [SortedMap.contains, h.entry l]
      cases s.held l <;> rfl
    exact congrArg (fun b => (Except.ok b, m)) hentry
  by_cases hmem : e ∈ s.held l
  · -- the event waits already, so nothing is written
    have hsome : (!(s.held l).isEmpty) = true := by
      simpa using List.ne_nil_of_mem hmem
    refine ⟨m.pool, h.keep_again he (by rw [Lookup.arrange, if_pos hl, if_pos hmem]),
      .read hhas ?_⟩
    rw [hsome, Task.bind, if_pos rfl]
    refine (leads_listed h hl).reads.bind_nil ?_
    rw [contains_map_render, if_pos (decide_eq_true hmem)]
    exact .done m ()
  · refine ⟨_, h.keep he (entry?_arrange hl hmem), .read hhas ?_⟩
    by_cases hnil : s.held l = []
    · rw [hnil, Task.bind, if_neg (by simp)]
      exact writesLast_put m l _
    · rw [Task.bind, if_pos (by simpa using hnil)]
      refine (leads_listed h hl).reads.bind_nil ?_
      rw [contains_map_render, if_neg (by simpa using hmem)]
      exact writesLast_put m l _

/-- Handing an event to the pool lets it wait there. -/
theorem writesLast_store {m : Memory} (h : s.ShownBy m.pool) (e : Event) :
    ∃ pool, (s.keep e).ShownBy pool ∧
      WritesLast m (store e) (storeSignals e) () { m with pool } := by
  rw [store, Lookup.slot_ofEvent?, storeSignals]
  cases he : Lookup.ofEvent? e with
  | none =>
    rw [Stock.keep_of_none he]
    exact ⟨m.pool, h, .done m ()⟩
  | some l =>
    have hwrite : ∃ pool, (s.keep e).ShownBy pool ∧ WritesLast m
        (if l.keepsAll then appendUnique l.slot e.render else put l.slot e.render) [] ()
        { m with pool } := by
      split
      · next hl => exact writesLast_appendUnique h he hl
      · next hl =>
        have hentry : l.entry? (l.arrange (s.held l) e) = some e.render := by
          simp [Lookup.arrange, Lookup.entry?, hl]
        exact ⟨_, h.keep he hentry, writesLast_put m l e.render⟩
    obtain ⟨pool, hpool, hrun⟩ := hwrite
    have htold := hrun.bind_telling (f := fun _ => signal (.buffered e.kind)) [.buffered e.kind] rfl
    exact ⟨pool, hpool, by cases l <;> exact htold⟩

end Waybill.Pending
