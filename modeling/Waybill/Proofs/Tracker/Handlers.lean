import Waybill.Proofs.Tracker.Lookups
/-!
# The work on an event over stores that stand for a ledger

Where the stores stand for a ledger, the work on an event does not fail by itself, and its course
is the step of the ledger. Its only write comes last, except that the branches of an update or a
relay, each with one write, come after the event was handed to the pool.

## Main definitions

* `Journey.told`, `Ledger.beginSignals`, `Ledger.deliverSignals`: what is told on the way.
* `Ledger.openingSignals`, `Ledger.spreadSignals`: what is told about an event up to its branches,
  and in each of them.

## Main results

* `Ledger.Depicts.onDispatch`, `Ledger.Depicts.onProcess`, `Ledger.Depicts.onSend`,
  `Ledger.Depicts.onReceive`: the work on an event without branches.
* `Ledger.Depicts.onRoot`, `leads_branch`: an event of a root and its branches.
-/

namespace Waybill

open Waybill.Pending Waybill.Task Message

/-! ### What is told -/

/-- What is told when a message hears an event and catches up. -/
def Journey.told (net : Network) (j : Journey) (k : Mark) (e : Event) (s : Stock) : List Signal :=
  announcement k e ((j.message net).take k e) ++ (((j.message net).take k e).1.caughtUp s).2

/-- What is told when a message is dispatched. -/
def Ledger.beginSignals (net : Network) (L : Ledger) (e : Event) (d : Dispatch) : List Signal :=
  .sighted e.domain :: if L.journeys.contains d.messageHash.text then []
    else .noted ⟨.dispatched, Tracker.created net e d, e⟩ ::
      ((Tracker.created net e d).caughtUp L.stock).2

/-- What is told when an event reaches the message that it is for, or waits. -/
def Ledger.deliverSignals (net : Network) (L : Ledger) (k : Mark) (e : Event) : List Signal :=
  match L.addressee? net k e with
  | none => storeSignals e
  | some j => if (j.base net).admits k then j.told net k e L.stock else []

/-- What is told about an event up to its branches. -/
def Ledger.openingSignals (net : Network) (L : Ledger) (e : Event) : List Signal :=
  match e.data with
  | .dispatch d => L.beginSignals net e d
  | .homeUpdate _ | .replicaUpdate _ => storeSignals e
  | .process _ => L.deliverSignals net .processed e
  | .bridgeSend _ => L.deliverSignals net .sent e
  | .bridgeReceive _ => L.deliverSignals net .received e

/-- What is told about each of the messages of a root when they go on with an event. -/
def Ledger.spreadSignals (net : Network) (L : Ledger) (k : Mark) (e : Event) :
    List (List Signal) :=
  (L.journeys.values.filter fun j => j.answers net k e).map fun j =>
    j.told net k e (L.stock.keep e)

/-! ### Single messages -/

section Messages

variable (net : Network) {pool : SortedMap (String × String) String} {s : Stock}

/-- A message is taken up from its record at the point to which its journey has come. -/
theorem load_record (j : Journey) : Tracker.load net (j.record net) = .done (j.message net) := by
  rw [Tracker.load, Journey.record, (j.isUnpacked_message net).ofRecord_ofMessage, Task.ofRecord]

theorem loadOption_record (j : Option Journey) :
    Tracker.loadOption net (j.map (Journey.record net)) =
      .done (j.map (Journey.message net)) := by
  cases j with
  | none => rfl
  | some j =>
    rw [Option.map_some, Tracker.loadOption, load_record]
    rfl

/-- Settling a message comes to storing it when it has caught up. -/
theorem leads_settle (h : s.ShownBy pool) (m : Message) :
    Leads pool (Tracker.settle net m) (m.caughtUp s).2 (Tracker.save net (m.caughtUp s).1) := by
  have hlead := (Tracker.leads_catchUp h m).bind (f := Tracker.save net) (.here _)
  rwa [List.append_nil] at hlead

/-- Applying an event to a message and settling it comes to storing the message as it went on. -/
theorem leads_goOn (h : s.ShownBy pool) (j : Journey) (k : Mark) (e : Event) :
    Leads pool
      ((Tracker.announce k.state e ((j.message net).take k e)).bind (Tracker.settle net))
      (j.told net k e s) (.ask (.update ((j.goOn net k e s).record net)) .done) := by
  rw [Journey.record, Journey.goOn, Journey.message_catchUp, Journey.message_hear]
  exact (Tracker.leads_announce pool k e _).bind (leads_settle net h _)

/-- A branch of an event of a root comes to storing its message as it went on. -/
theorem leads_branch (h : s.ShownBy pool) (j : Journey) (k : Mark) {e : Event}
    {step : Message → Event → Message × Bool}
    (hstep : ∀ m, step m e = m.take k e) :
    Leads pool (Tracker.branch net k.state step e (j.record net)) (j.told net k e s)
      (.ask (.update ((j.goOn net k e s).record net)) .done) := by
  have hlead := leads_goOn net h j k e
  rw [← hstep] at hlead
  rw [Tracker.branch, load_record]
  exact hlead

end Messages

namespace Ledger.Depicts

variable {net : Network} {L : Ledger} {m : Memory} {e : Event}

/-- Storing the record of a message puts its journey into the ledger. -/
theorem put (h : L.Depicts net m) (j : Journey) :
    (L.put j).Depicts net { m with records := m.records.insert j.key (j.record net) } :=
  ⟨by rw [h.records, SortedMap.insert_map, Ledger.put], h.pool⟩

theorem keep (h : L.Depicts net m) {pool : SortedMap (String × String) String}
    (hpool : (L.stock.keep e).ShownBy pool) : (L.keep e).Depicts net { m with pool } :=
  ⟨h.records, hpool⟩

/-- Updating the record of a message is one write. -/
theorem writesLast_update (m : Memory) (r : Record) :
    WritesLast m (.ask (.update r) .done) [] ()
      { m with records := m.records.insert r.messageHash r } :=
  .write rfl rfl

/-- Inserting a record of a new hash is one write. -/
theorem writesLast_insert {r : Record} (hr : m.records.contains r.messageHash = false) :
    WritesLast m (Task.call (.insert r)) [] ()
      { m with records := m.records.insert r.messageHash r } := by
  refine .write (r := ()) ?_ rfl
  rw [Memory.answer, if_neg (by simp [hr])]

/-! ### The work on the events of single messages -/

/-- The work on a dispatch. -/
theorem onDispatch (h : L.Depicts net m) (e : Event) (d : Dispatch) :
    ∃ m', (L.begin net e d).Depicts net m' ∧
      WritesLast m (Tracker.onDispatch net e d) (L.beginSignals net e d) () m' := by
  have hfind : m.answer (.byHash d.messageHash) =
      (.ok ((L.journeys.find? d.messageHash.text).map (Journey.record net)), m) := by
    rw [Memory.answer, h.find?]
  rw [begin, beginSignals, SortedMap.contains]
  cases hj : L.journeys.find? d.messageHash.text with
  | some j =>
    rw [hj] at hfind
    exact ⟨m, h, .tell (.read hfind (.done m ()))⟩
  | none =>
    rw [hj] at hfind
    have hfresh : m.records.contains d.messageHash.text = false := by
      rw [SortedMap.contains_eq_false_iff, h.find?, hj, Option.map_none]
    refine ⟨_, h.put ((Journey.ofDispatch e d).catchUp net L.stock),
      .tell (.read hfind (.tell ?_))⟩
    have hrecord : ((Journey.ofDispatch e d).catchUp net L.stock).record net =
        .ofMessage net ((Tracker.created net e d).caughtUp L.stock).1 := by
      rw [Journey.record, Journey.message_catchUp, Journey.message_ofDispatch]
    have hinsert := writesLast_insert
      (r := ((Journey.ofDispatch e d).catchUp net L.stock).record net) hfresh
    rw [Journey.messageHash_record, hrecord] at hinsert
    rw [hrecord]
    have hlead := (Tracker.leads_catchUp h.pool (Tracker.created net e d)).bind
      (f := fun m => Task.call (.insert (.ofMessage net m))) (.here _)
    have hrun := hlead.writesLast hinsert
    rw [List.append_nil, List.append_nil] at hrun
    exact hrun

/-- What the work on an event does with the record that was read for it, if there is one. -/
theorem deliver (h : L.Depicts net m) (k : Mark) (e : Event) {f : Option Message → Task Unit}
    (hnone : f none = Pending.store e)
    (hsome : ∀ j, L.addressee? net k e = some j → f (some (j.message net)) =
      if (j.base net).admits k then
        (Tracker.announce k.state e ((j.message net).take k e)).bind (Tracker.settle net)
      else .done ()) :
    ∃ m', (L.deliver net k e).Depicts net m' ∧
      WritesLast m
        ((Tracker.loadOption net ((L.addressee? net k e).map (Journey.record net))).bind f)
        (L.deliverSignals net k e) () m' := by
  rw [loadOption_record, Task.bind, Ledger.deliver, deliverSignals]
  cases hj : L.addressee? net k e with
  | none =>
    obtain ⟨pool, hpool, hrun⟩ := writesLast_store h.pool e
    exact ⟨_, h.keep hpool, by rwa [Option.map_none, hnone]⟩
  | some j =>
    simp only [Option.map_some, hsome j hj]
    split
    · have hrun := (leads_goOn net h.pool j k e).writesLast (writesLast_update m _)
      rw [List.append_nil] at hrun
      exact ⟨_, h.put (j.goOn net k e L.stock), hrun⟩
    · exact ⟨m, h, .done m ()⟩

/-- The work on a processing. -/
theorem onProcess (h : L.Depicts net m) {p : Processing} (he : e.data = .process p) :
    ∃ m', (L.deliver net .processed e).Depicts net m' ∧
      WritesLast m (Tracker.onProcess net e p) (L.deliverSignals net .processed e) () m' := by
  refine (h.deliver .processed e ?_ ?_).imp fun m' hm' => ⟨hm'.1, .read (h.byHash he) hm'.2⟩
  · rfl
  · exact fun j _ => rfl

/-- The work on the receipt of tokens. -/
theorem onReceive (h : L.Depicts net m) {r : Receipt} (he : e.data = .bridgeReceive r) :
    ∃ m', (L.deliver net .received e).Depicts net m' ∧
      WritesLast m (Tracker.onReceive net e r) (L.deliverSignals net .received e) () m' := by
  refine (h.deliver .received e ?_ ?_).imp fun m' hm' => ⟨hm'.1, .read (h.byNonce he) hm'.2⟩
  · rfl
  · exact fun j _ => rfl

/-- The work on the sending of tokens. A message that is found for it carries a transfer. -/
theorem onSend (h : L.Depicts net m) {s : Send} (he : e.data = .bridgeSend s) :
    ∃ m', (L.deliver net .sent e).Depicts net m' ∧
      WritesLast m (Tracker.onSend net e s) (L.deliverSignals net .sent e) () m' := by
  refine (h.deliver .sent e ?_ ?_).imp fun m' hm' => ⟨hm'.1, .read (h.bySend he) hm'.2⟩
  · rfl
  · intro j hj
    have hanswers := (j.answers_iff net).mp (addressee?_eq_some net hj).2
    have htransfer : (j.base net).isTransfer = true := by
      rw [Lookup.ofEvent?, he, lookup?] at hanswers
      obtain ⟨t, ht, -⟩ := Option.map_eq_some_iff.mp hanswers
      rw [isTransfer, ht, Option.isSome_some]
    simp only [attachSend?_eq (m := j.message net) htransfer he]
    rw [admits, if_pos htransfer]
    rfl

/-! ### The work on the events of a root -/

/-- The work on an event of a root up to its branches. -/
theorem onRoot (h : L.Depicts net m) {k : Mark} {u : RootUpdate}
    (he : e.data = .homeUpdate u ∧ k = .updated ∨ e.data = .replicaUpdate u ∧ k = .relayed)
    (target : State) (step : Message → Event → Message × Bool) :
    ∃ pool, (L.stock.keep e).ShownBy pool ∧
      WritesLast m (Tracker.onRoot net target step e u) (storeSignals e)
        (((L.journeys.values.filter fun j => j.answers net k e).map (Journey.record net)).map
          (Tracker.branch net target step e)) { m with pool } := by
  obtain ⟨pool, hpool, hrun⟩ := writesLast_store h.pool e
  refine ⟨pool, hpool, .read (h.byRoot he) ?_⟩
  have hdone := hrun.bind_telling (f := fun _ => Task.done
    (((L.journeys.values.filter fun j => j.answers net k e).map (Journey.record net)).map
      (Tracker.branch net target step e))) [] rfl
  rw [List.append_nil] at hdone
  exact hdone

end Ledger.Depicts

end Waybill
