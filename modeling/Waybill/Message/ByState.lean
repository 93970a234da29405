import Waybill.Message.State
/-!
# One value for each state

Times, gas and counts come five at a time, one for each state.
-/

namespace Waybill

/-- One value for each state. -/
structure ByState (α : Type) where
  dispatched : α
  updated : α
  relayed : α
  received : α
  processed : α
deriving DecidableEq

namespace ByState

variable {α : Type}

/-- The same value for every state. -/
def all (a : α) : ByState α := ⟨a, a, a, a, a⟩

/-- The value of a state. -/
def get (b : ByState α) : State → α
  | .dispatched => b.dispatched
  | .updated => b.updated
  | .relayed => b.relayed
  | .received => b.received
  | .processed => b.processed

/-- Changes the value of one state. -/
def modify (b : ByState α) (s : State) (f : α → α) : ByState α :=
  match s with
  | .dispatched => { b with dispatched := f b.dispatched }
  | .updated => { b with updated := f b.updated }
  | .relayed => { b with relayed := f b.relayed }
  | .received => { b with received := f b.received }
  | .processed => { b with processed := f b.processed }

/-- The values in the order of the states. -/
def toList (b : ByState α) : List α := State.all.map b.get

theorem get_all (a : α) (s : State) : (all a).get s = a := by
  cases s <;> rfl

@[simp] theorem get_modify_self (b : ByState α) (s : State) (f : α → α) :
    (b.modify s f).get s = f (b.get s) := by
  cases s <;> rfl

theorem get_modify_of_ne (b : ByState α) {s t : State} (h : t ≠ s) (f : α → α) :
    (b.modify s f).get t = b.get t := by
  cases s <;> cases t <;> simp_all [modify, get]

end ByState

end Waybill
