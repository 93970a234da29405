import Waybill.Tracker.Handling
import Waybill.Task.Run
/-!
# Batches

A batch of events is handled strictly in its order, every event to its end before the next one
begins. The first failure ends the batch; what was done before it stays.
-/

namespace Waybill.Tracker

variable {σ : Type}

/-- A way to work off the branches of an event. -/
abbrev FanOut (σ : Type) := List (Task Unit) → σ → Outcome σ Failure Unit

/-- Branches are worked off one after another. -/
def oneByOne (b : Backend σ) : FanOut σ := fun ts s => (Task.inOrder ts).run b s

/-- Handles one event. -/
def perform (b : Backend σ) (fan : FanOut σ) (net : Network) (e : Event) (s : σ) :
    Outcome σ Failure Unit :=
  let o := (Task.tell (.consumed e.kind) (branches net e)).run b s
  match o.result with
  | .ok ts => (fan ts o.state).after o.signals
  | .error f => ⟨.error f, o.state, o.signals⟩

/-- Handles a batch. -/
def consume (b : Backend σ) (fan : FanOut σ) (net : Network) :
    List Event → σ → Outcome σ Rejection Unit
  | [], s => ⟨.ok (), s, []⟩
  | e :: es, s =>
    let o := perform b fan net e s
    match o.result with
    | .ok _ => (consume b fan net es o.state).after o.signals
    | .error f => ⟨.error ⟨e, f⟩, o.state, o.signals⟩

/-- The message of a hash, if it is stored. -/
def find? (net : Network) (hash : Digest) : Task (Option Message) :=
  (Task.call (.byHash hash)).bind (loadOption net)

end Waybill.Tracker
