/-!
# States

A message goes through five states in a fixed order and never goes back. Each state has a code,
under which it is stored, and codes compare as the states do.
-/

namespace Waybill

/-- How far a message has come. -/
inductive State where
  | dispatched
  | updated
  | relayed
  | received
  | processed
deriving DecidableEq, Repr

namespace State

/-- All states in order. -/
def all : List State := [dispatched, updated, relayed, received, processed]

/-- The place of a state in the order. -/
def rank : State → Nat
  | dispatched => 0
  | updated => 1
  | relayed => 2
  | received => 3
  | processed => 4

/-- The name of a state. -/
def name : State → String
  | dispatched => "dispatched"
  | updated => "updated"
  | relayed => "relayed"
  | received => "received"
  | processed => "processed"

/-- The code under which a state is stored. -/
def code (s : State) : Int32 := Int32.ofNat s.rank

/-- The state of a code. -/
def ofCode? (c : Int32) : Option State := all.find? fun s => s.code == c

/-- Whether the first state comes before the second. -/
def precedes (s t : State) : Bool := decide (s.rank < t.rank)

theorem rank_inj {s t : State} (h : s.rank = t.rank) : s = t := by
  cases s <;> cases t <;> simp_all [rank]

@[simp] theorem ofCode?_code (s : State) : ofCode? s.code = some s := by
  cases s <;> decide

/-- The states have different codes. -/
theorem code_inj {s t : State} : s.code = t.code ↔ s = t := by
  refine ⟨fun h => ?_, fun h => h ▸ rfl⟩
  have hread := ofCode?_code s
  rwa [h, ofCode?_code, Option.some.injEq, eq_comm] at hread

theorem ofCode?_eq_some_iff {c : Int32} {s : State} : ofCode? c = some s ↔ c = s.code := by
  refine ⟨fun h => ?_, fun h => h ▸ ofCode?_code s⟩
  have hcode := List.find?_some h
  exact (by simpa using hcode : s.code = c).symm

theorem ofCode?_eq_none_iff {c : Int32} : ofCode? c = none ↔ ∀ s : State, c ≠ s.code := by
  simp only [Option.eq_none_iff_forall_ne_some, ne_eq, ofCode?_eq_some_iff]

end State

end Waybill
