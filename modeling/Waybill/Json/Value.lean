import Waybill.Power
/-!
# JSON values

A value keeps what a reader may still ask about: whether a number was written as an integer, the
order and repetition of an object's members, and whether a text holds half of a surrogate pair.
-/

namespace Waybill

/-- A number as it is written. -/
structure Json.Number where
  negative : Bool
  /-- The number before the point. -/
  whole : Nat
  /-- The digits after the point, if there is one. -/
  fraction : List Nat
  /-- The power of ten behind an `e`, or zero. -/
  exponent : Int
  /-- Whether neither a point nor an exponent is written. -/
  plain : Bool
deriving DecidableEq, Repr

/-- A JSON value. A text is `none` where an escape stands for half of a surrogate pair. -/
inductive Json where
  | null
  | bool (value : Bool)
  | number (value : Json.Number)
  | text (value : Option String)
  | array (items : List Json)
  | object (members : List (Option String × Json))

namespace Json

instance : Inhabited Json := ⟨null⟩

/-- The integer `n`. -/
def ofNat (n : Nat) : Json := number ⟨false, n, [], 0, true⟩

/-- An integer of either sign. -/
def ofInt (i : Int) : Json := number ⟨decide (i < 0), i.natAbs, [], 0, true⟩

/-- A text. -/
def ofString (s : String) : Json := text (some s)

/-- An object with the given members. -/
def record (members : List (String × Json)) : Json :=
  object (members.map fun m => (some m.1, m.2))

/-- A value or `null`. -/
def orNull {α : Type} (f : α → Json) : Option α → Json
  | some a => f a
  | none => null

end Json

end Waybill
