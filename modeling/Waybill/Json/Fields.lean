import Waybill.Json.Value
/-!
# Structures in JSON

A structure is an object with the structure's field names or an array of its fields in order. A
known name that is repeated is refused. Unknown names are skipped, unless the shape is closed.
-/

namespace Waybill.Json

/-- How a structure is written. -/
structure Shape where
  /-- The field names in order. -/
  names : List String
  /-- Whether unknown names are refused. -/
  closed : Bool
  /-- Whether an array may leave out fields at its end. -/
  endsEarly : Bool

/-- The fields of a structure that were found, by name. -/
abbrev Fields := List (String × Json)

/-- The keys of an object, if all of them are texts. -/
def keys? : List (Option String × Json) → Option Fields
  | [] => some []
  | (none, _) :: _ => none
  | (some k, v) :: ms => (keys? ms).map ((k, v) :: ·)

/-- The fields of a structure of the given shape. -/
def fields? (shape : Shape) : Json → Option Fields
  | object members =>
    match keys? members with
    | none => none
    | some ms =>
      let known := ms.filter fun m => shape.names.contains m.1
      if (shape.closed && known.length != ms.length) || !decide (known.map (·.1)).Nodup then none
      else some known
  | array items =>
    if items.length ≤ shape.names.length ∧
        (shape.endsEarly = true ∨ items.length = shape.names.length) then
      some (shape.names.zip items)
    else none
  | _ => none

namespace Fields

/-- The value of a field. -/
def get? (fs : Fields) (name : String) : Option Json :=
  (fs.find? fun f => f.1 == name).map (·.2)

/-- A field that has to be there. -/
def need {α : Type} (fs : Fields) (name : String) (read : Json → Option α) : Option α :=
  (fs.get? name).bind read

/-- A field that is `d` where it is left out. -/
def withDefault {α : Type} (fs : Fields) (name : String) (d : α) (read : Json → Option α) :
    Option α :=
  match fs.get? name with
  | none => some d
  | some v => read v

end Fields

/-- An integer from zero up to, but not including, `bound`. A minus sign is refused also before
zero, and so are a fraction and an exponent. -/
def toNat? (bound : Nat) : Json → Option Nat
  | number n => if n.plain && !n.negative && decide (n.whole < bound) then some n.whole else none
  | _ => none

/-- A byte. -/
def toUInt8? (v : Json) : Option UInt8 := (v.toNat? (2 ^ 8)).map UInt8.ofNat

/-- A 32-bit number. -/
def toUInt32? (v : Json) : Option UInt32 := (v.toNat? (2 ^ 32)).map UInt32.ofNat

/-- A 64-bit number. -/
def toUInt64? (v : Json) : Option UInt64 := (v.toNat? (2 ^ 64)).map UInt64.ofNat

/-- An integer from `-half` up to, but not including, `half`. -/
def toInt? (half : Nat) : Json → Option Int
  | number n =>
    if !n.plain then none
    else if n.negative then
      if 0 < n.whole ∧ n.whole ≤ half then some (-(n.whole : Int)) else none
    else if n.whole < half then some n.whole else none
  | _ => none

/-- A signed 32-bit number. -/
def toInt32? (v : Json) : Option Int32 := (v.toInt? (2 ^ 31)).map Int32.ofInt

/-- A signed 64-bit number. -/
def toInt64? (v : Json) : Option Int64 := (v.toInt? (2 ^ 63)).map Int64.ofInt

/-- A truth value. -/
def toBool? : Json → Option Bool
  | bool b => some b
  | _ => none

/-- A text. -/
def toString? : Json → Option String
  | text s => s
  | _ => none

/-- A name out of a fixed choice, given as a text or as an object that has `null` under the name. -/
def toName? : Json → Option String
  | text s => s
  | object [(s, null)] => s
  | _ => none

/-- A value or `null`. -/
def toOption? {α : Type} (read : Json → Option α) : Json → Option (Option α)
  | null => some none
  | v => (read v).map some

/-- The values of a list, all of which have to be read. -/
def readAll {α : Type} (read : Json → Option α) : List Json → Option (List α)
  | [] => some []
  | v :: vs =>
    match read v with
    | none => none
    | some a => (readAll read vs).map (a :: ·)

/-- An array of `count` bytes. One more item is passed over, provided that it is no byte. -/
def toBytesOf? (count : Nat) : Json → Option (List UInt8)
  | array items =>
    let surplus := items.drop count
    if items.length < count ∨ 1 < surplus.length ∨ surplus.any (fun v => v.toUInt8?.isSome) then none
    else readAll toUInt8? (items.take count)
  | _ => none

/-- An array of values of one kind. -/
def toList? {α : Type} (read : Json → Option α) : Json → Option (List α)
  | array items => readAll read items
  | _ => none

end Waybill.Json
