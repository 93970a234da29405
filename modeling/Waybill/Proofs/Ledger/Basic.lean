import Waybill.Proofs.Message.CatchUp
import Waybill.Proofs.Message.RoundTrip
/-!
# Ledgers

A ledger is what the stores mean: for every message that was dispatched its journey, that is its
dispatch and the events that it heard, and the events that wait. A tracker's work on an event is a
step of the ledger. The stores depict a ledger if the records are those of the messages at the
points to which their journeys have come, and the pool shows the events that wait.

## Main definitions

* `Journey`: the dispatch of a message and the events that it heard.
* `Ledger`: the journeys by the hashes of their messages, and what waits.
* `Ledger.step`: the effect of an event.
* `Ledger.Depicts`: what the stores hold when they stand for a ledger.
-/

namespace Waybill

open Waybill.Pending Message

/-- The dispatch of a message and the events that it heard since. -/
structure Journey where
  /-- The report of the dispatch. -/
  start : Event
  dispatch : Dispatch
  heard : History

namespace Journey

variable (net : Network) (j : Journey)

/-- The message as it was dispatched. -/
def base : Message := Tracker.created net j.start j.dispatch

/-- The message at the point to which the journey has come. -/
def message : Message := (j.base net).after j.heard

/-- The text of the hash of the message. -/
def key : String := j.dispatch.messageHash.text

/-- The record of the message. -/
def record : Record := .ofMessage net (j.message net)

/-- Whether an event of a mark is for the message: what the message looks for is what the event
answers. -/
def answers (k : Mark) (e : Event) : Bool :=
  decide ((j.base net).lookup? k = Lookup.ofEvent? e)

/-- The message hears an event of a mark, if the event concerns it. -/
def hear (k : Mark) (e : Event) : Journey :=
  if (j.base net).heeds k e then { j with heard := j.heard.note k e } else j

/-- The message catches up with what waits. -/
def catchUp (s : Stock) : Journey :=
  { j with heard := j.heard.fill Mark.all ((j.base net).pending? s) }

/-- The message hears an event and catches up with what waits. -/
def goOn (k : Mark) (e : Event) (s : Stock) : Journey := (j.hear net k e).catchUp net s

/-- A journey that has just begun. -/
def ofDispatch (e : Event) (d : Dispatch) : Journey := ⟨e, d, .none⟩

@[simp] theorem key_hear (k : Mark) (e : Event) : (j.hear net k e).key = j.key := by
  rw [hear]
  split <;> rfl

@[simp] theorem key_catchUp (s : Stock) : (j.catchUp net s).key = j.key := rfl

@[simp] theorem key_ofDispatch (e : Event) (d : Dispatch) :
    (ofDispatch e d).key = d.messageHash.text := rfl

@[simp] theorem key_goOn (k : Mark) (e : Event) (s : Stock) : (j.goOn net k e s).key = j.key :=
  key_hear net j k e

@[simp] theorem start_goOn (k : Mark) (e : Event) (s : Stock) :
    (j.goOn net k e s).start = j.start := by
  rw [goOn, hear]
  split <;> rfl

@[simp] theorem dispatch_goOn (k : Mark) (e : Event) (s : Stock) :
    (j.goOn net k e s).dispatch = j.dispatch := by
  rw [goOn, hear]
  split <;> rfl

@[simp] theorem base_hear (k : Mark) (e : Event) : (j.hear net k e).base net = j.base net := by
  rw [hear]
  split <;> rfl

@[simp] theorem base_catchUp (s : Stock) : (j.catchUp net s).base net = j.base net := rfl

@[simp] theorem base_goOn (k : Mark) (e : Event) (s : Stock) :
    (j.goOn net k e s).base net = j.base net :=
  base_hear net j k e

theorem answers_congr {i j : Journey} (h : i.base net = j.base net) (k : Mark) (e : Event) :
    i.answers net k e = j.answers net k e := by
  rw [answers, answers, h]

theorem heard_hear_eq (k : Mark) (e : Event) : (j.hear net k e).heard =
    if (j.base net).heeds k e then j.heard.note k e else j.heard := by
  rw [hear]
  split <;> rfl

theorem heard_catchUp_eq (s : Stock) (k : Mark) :
    (j.catchUp net s).heard k = (j.heard k).or ((j.base net).pending? s k) :=
  if_pos (Mark.mem_all k)

theorem message_ofDispatch (e : Event) (d : Dispatch) :
    (ofDispatch e d).message net = Tracker.created net e d := rfl

theorem message_hear (k : Mark) (e : Event) :
    (j.hear net k e).message net = ((j.message net).take k e).1 := by
  rw [hear, message, message, take_after]
  split <;> rfl

theorem message_catchUp (s : Stock) :
    (j.catchUp net s).message net = ((j.message net).caughtUp s).1 :=
  (caughtUp_after (j.base net) s j.heard).symm

theorem isUnpacked_message : (j.message net).IsUnpacked net := rfl

theorem messageHash_record : (j.record net).messageHash = j.key := rfl

end Journey

/-- The journeys of the messages by their hashes, and what waits. -/
structure Ledger where
  journeys : SortedMap String Journey
  stock : Stock
  keyed : ∀ {key j}, journeys.find? key = some j → j.key = key

namespace Ledger

/-- No message was dispatched, and nothing waits. -/
def empty : Ledger := ⟨.empty, .empty, by simp⟩

/-- One more event waits. -/
def keep (L : Ledger) (e : Event) : Ledger := { L with stock := L.stock.keep e }

/-- A journey, in place of the one of the same message. -/
def put (L : Ledger) (j : Journey) : Ledger where
  journeys := L.journeys.insert j.key j
  stock := L.stock
  keyed := by
    intro key i hi
    rw [SortedMap.find?_insert] at hi
    split at hi
    · next hkey =>
      obtain rfl := Option.some.inj hi
      exact hkey.symm
    · exact L.keyed hi

theorem find?_put (L : Ledger) (j : Journey) (key : String) : (L.put j).journeys.find? key =
    if key = j.key then some j else L.journeys.find? key :=
  SortedMap.find?_insert _ _ _ _

/-- Every journey goes on in its own way. -/
def revise (L : Ledger) (f : Journey → Journey) (hf : ∀ j, (f j).key = j.key) : Ledger where
  journeys := L.journeys.map f
  stock := L.stock
  keyed := by
    intro key i hi
    rw [SortedMap.find?_map, Option.map_eq_some_iff] at hi
    obtain ⟨j, hj, rfl⟩ := hi
    rw [hf, L.keyed hj]

variable (net : Network) (L : Ledger)

/-- The journey of the message that an event of a mark is for. -/
def addressee? (k : Mark) (e : Event) : Option Journey :=
  L.journeys.values.find? fun j => j.answers net k e

/-- A message is dispatched, unless one of its hash was before. -/
def begin (e : Event) (d : Dispatch) : Ledger :=
  if L.journeys.contains d.messageHash.text then L
  else L.put ((Journey.ofDispatch e d).catchUp net L.stock)

/-- An event waits, and reaches all messages that it is for. -/
def spread (k : Mark) (e : Event) : Ledger :=
  (L.keep e).revise
    (fun j => if j.answers net k e then j.goOn net k e (L.stock.keep e) else j)
    (by intro j; split <;> simp)

/-- An event reaches the message that it is for, or waits. -/
def deliver (k : Mark) (e : Event) : Ledger :=
  match L.addressee? net k e with
  | none => L.keep e
  | some j => if (j.base net).admits k then L.put (j.goOn net k e L.stock) else L

/-- The effect of an event. -/
def step (e : Event) : Ledger :=
  match e.data with
  | .dispatch d => L.begin net e d
  | .homeUpdate _ => L.spread net .updated e
  | .replicaUpdate _ => L.spread net .relayed e
  | .process _ => L.deliver net .processed e
  | .bridgeSend _ => L.deliver net .sent e
  | .bridgeReceive _ => L.deliver net .received e

/-- The effect of events, one after another. -/
def steps (es : List Event) : Ledger := es.foldl (step net) L

/-- What an event leaves behind when the work on it was broken off: everything as it was, or the
event in the pool and some of the messages of its root gone on. -/
inductive Partial (e : Event) : Ledger → Prop
  | nothing : Partial e L
  | some {L' : Ledger} {k : Mark} (hmark : e.mark? = some k) (hroot : k.isOfRoot = true)
      (hstock : L'.stock = L.stock.keep e)
      (hjourneys : ∀ key, L'.journeys.find? key = L.journeys.find? key ∨
        L'.journeys.find? key = (L.step net e).journeys.find? key) : Partial e L'

theorem steps_append (es fs : List Event) :
    L.steps net (es ++ fs) = (L.steps net es).steps net fs :=
  List.foldl_append

theorem step_of_dispatch {e : Event} {d : Dispatch} (h : e.data = .dispatch d) :
    L.step net e = L.begin net e d := by
  rw [step, h]

theorem step_of_mark {k : Mark} {e : Event} (h : e.mark? = some k) :
    L.step net e = if k.isOfRoot then L.spread net k e else L.deliver net k e := by
  rw [step]
  rw [Event.mark?] at h
  cases hdata : e.data <;> rw [hdata] at h <;> cases h <;> rfl

theorem find?_spread (k : Mark) (e : Event) (key : String) :
    (L.spread net k e).journeys.find? key = (L.journeys.find? key).map fun j =>
      if j.answers net k e then j.goOn net k e (L.stock.keep e) else j :=
  SortedMap.find?_map _ _ _

theorem mem_values_iff {j : Journey} :
    j ∈ L.journeys.values ↔ L.journeys.find? j.key = some j := by
  rw [SortedMap.mem_values_iff]
  constructor
  · rintro ⟨key, hj⟩
    rwa [L.keyed hj]
  · exact fun hj => ⟨_, hj⟩

variable {L}

theorem deliver_of_none {k : Mark} {e : Event} (h : L.addressee? net k e = none) :
    L.deliver net k e = L.keep e := by
  rw [deliver, h]

theorem deliver_of_some {k : Mark} {e : Event} {j : Journey} (h : L.addressee? net k e = some j) :
    L.deliver net k e =
      if (j.base net).admits k then L.put (j.goOn net k e L.stock) else L := by
  rw [deliver, h]

theorem addressee?_eq_some {k : Mark} {e : Event} {j : Journey}
    (h : L.addressee? net k e = some j) :
    L.journeys.find? j.key = some j ∧ j.answers net k e = true :=
  ⟨(L.mem_values_iff).mp (List.mem_of_find?_eq_some h), by simpa using List.find?_some h⟩

theorem addressee?_eq_none {k : Mark} {e : Event} (h : L.addressee? net k e = none) {key : String}
    {j : Journey} (hj : L.journeys.find? key = some j) : j.answers net k e = false := by
  have hmem : j ∈ L.journeys.values := SortedMap.mem_values_iff.mpr ⟨key, hj⟩
  simpa using List.find?_eq_none.mp h j hmem

/-- A message is found among all by its hash as it is found under it. -/
theorem addressee?_process {e : Event} {p : Processing} (he : e.data = .process p) :
    L.addressee? net .processed e = L.journeys.find? p.messageHash.text := by
  have hanswers : ∀ j : Journey,
      j.answers net .processed e = true ↔ j.dispatch.messageHash = p.messageHash := by
    intro j
    rw [Journey.answers, decide_eq_true_iff, Lookup.ofEvent?, he]
    constructor
    · intro h
      exact (Lookup.process.inj (Option.some.inj h))
    · intro h
      exact congrArg (fun d => some (Lookup.process d)) h
  cases h : L.addressee? net .processed e with
  | none =>
    cases hp : L.journeys.find? p.messageHash.text with
    | none => rfl
    | some j =>
      have hkey : j.dispatch.messageHash = p.messageHash := Digest.text_injective (L.keyed hp)
      have hfalse := addressee?_eq_none net h hp
      rw [(hanswers j).mpr hkey] at hfalse
      cases hfalse
  | some j =>
    obtain ⟨hj, hans⟩ := addressee?_eq_some net h
    rw [← hj, Journey.key, (hanswers j).mp hans]

/-! ### Stores that stand for a ledger -/

/-- What the stores hold when they stand for a ledger. -/
structure Depicts (L : Ledger) (m : Memory) : Prop where
  records : m.records = L.journeys.map (Journey.record net)
  pool : L.stock.ShownBy m.pool

theorem depicts_empty : empty.Depicts net Memory.empty :=
  ⟨rfl, Stock.shownBy_empty⟩

end Ledger

end Waybill
