import Waybill.Json.Value
/-!
# What a value is read for

An array of a fixed number of bytes is read with more patience than other values: what comes
after the last byte may be malformed. So the reader is told where such an array is expected. It
follows the fields of structures down to it; everywhere else anything may be expected.
-/

namespace Waybill.Json

/-- What a value is read for, as far as reading depends on it. -/
inductive Expected where
  | anything
  /-- An array of so many bytes. -/
  | bytes (count : Nat)
  /-- A structure with these fields, as an object or as an array of all of them in order. -/
  | fields (all : List (String × Expected))
  /-- A content that depends on the tag before it, as members of an object or as an array of both. -/
  | tagged (tag content : String) (ofTag : Json → Expected)

namespace Expected

/-- A structure of which the fields in `digests` are arrays of 32 bytes, if they are arrays. -/
def withDigests (names digests : List String) : Expected :=
  fields (names.map fun n => (n, if digests.contains n then bytes 32 else anything))

/-- What the value of a member is read for, after the members in `before`, last one first. -/
def member (e : Expected) (before : List (Option String × Json)) (key : Option String) : Expected :=
  match e with
  | fields all =>
    match all.find? fun f => some f.1 == key with
    | some (_, e) => e
    | none => anything
  | tagged tag content ofTag =>
    if key = some content then
      match before.find? fun m => m.1 == some tag with
      | some (_, v) => ofTag v
      | none => anything
    else anything
  | _ => anything

/-- What an item of an array is read for, after the items in `before`, last one first. -/
def item (e : Expected) (before : List Json) : Expected :=
  match e, before with
  | fields all, _ =>
    match all[before.length]? with
    | some (_, e) => e
    | none => anything
  | tagged _ _ ofTag, [tag] => ofTag tag
  | _, _ => anything

/-- Whether an array with so many items has all the bytes that are expected. -/
def isFilled (e : Expected) (items : Nat) : Bool :=
  match e with
  | bytes count => count == items
  | _ => false

end Expected

end Waybill.Json
