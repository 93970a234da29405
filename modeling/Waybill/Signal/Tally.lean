import Waybill.Task.Basic
/-!
# Tallies

How often events of each kind were taken up and handed to the pool, and how often messages moved
on to each state.
-/

namespace Waybill.Signal

/-- How many events of a kind were taken up. -/
def countConsumed (kind : Event.Kind) (xs : List Signal) : Nat :=
  xs.countP fun
    | consumed k => k == kind
    | _ => false

/-- How many events of a kind were handed to the pool. -/
def countBuffered (kind : Event.Kind) (xs : List Signal) : Nat :=
  xs.countP fun
    | buffered k => k == kind
    | _ => false

/-- How often a message moved on to a state. -/
def countMoved (state : State) (xs : List Signal) : Nat :=
  xs.countP fun
    | moved s => s == state
    | _ => false

end Waybill.Signal
