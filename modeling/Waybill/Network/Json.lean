import Waybill.Network.Basic
import Waybill.Event.Json
/-!
# Domain settings as JSON

The settings file is an array of domains. Unknown members are refused here. The challenge window
may be written as a number or as a text of decimal digits.
-/

namespace Waybill

namespace Json

/-- Reads decimal digits, at least one, with an optional plus sign in front. -/
def decimalText? (bound : Nat) (s : String) : Option Nat :=
  let digits := match s.toList with
    | '+' :: rest => rest
    | cs => cs
  let n := digitsValue digits
  if !digits.isEmpty && digits.all isDigit && decide (n < bound) then some n else none

/-- A 64-bit number, written as such or as a text of digits. -/
def toSeconds? : Json → Option UInt64
  | text (some s) => (decimalText? (2 ^ 64) s).map UInt64.ofNat
  | v => v.toUInt64?

end Json

namespace Domain

/-- The field names of a domain. -/
def shape : Json.Shape :=
  ⟨["domain", "name", "bridge_router", "governance_router", "optimistic_seconds"], true, true⟩

/-- A domain as JSON. -/
def toJson (d : Domain) : Json := .record [
  ("domain", .ofNat d.id.toNat),
  ("name", .ofString d.name),
  ("bridge_router", .orNull (fun p => .ofString p.pretty) d.bridgeRouter),
  ("governance_router", .orNull (fun p => .ofString p.pretty) d.governanceRouter),
  ("optimistic_seconds", .orNull (fun s => .ofNat s.toNat) d.optimisticSeconds)]

/-- Reads a domain. -/
def ofJson? (v : Json) : Option Domain := do
  let fs ← v.fields? shape
  return {
    id := ← fs.need "domain" Json.toUInt32?
    name := ← fs.need "name" Json.toString?
    bridgeRouter := ← fs.withDefault "bridge_router" none (Json.toOption? Json.toIdentifier?)
    governanceRouter := ← fs.withDefault "governance_router" none (Json.toOption? Json.toIdentifier?)
    optimisticSeconds := ← fs.withDefault "optimistic_seconds" none (Json.toOption? Json.toSeconds?) }

/-- Why a file holds no list of domains. -/
inductive LoadFault where
  /-- The file cannot be read as text. -/
  | unreadable
  /-- The text is no array of domains. -/
  | malformed
deriving DecidableEq, Repr

/-- Reads the content of a settings file, which has to be UTF-8. -/
def load (content : ByteArray) : Except LoadFault (List Domain) :=
  match String.fromUTF8? content with
  | none => .error .unreadable
  | some s =>
    match (Json.parse s).bind (Json.toList? ofJson?) with
    | none => .error .malformed
    | some ds => .ok ds

end Domain

end Waybill
