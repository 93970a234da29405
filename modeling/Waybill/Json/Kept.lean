import Waybill.Json.Value
/-!
# Values that are kept before they are understood

A value may have to be kept until a later member tells what it is for. Such a value must not be
nested too deeply, its texts must be whole, and its numbers must be in the range of a
double-precision float.
-/

namespace Waybill.Json

/-- Takes decimal digits onto a number as long as it stays below `2 ^ 64`, and gives the number and
the digits that are left over. -/
def takeDigits (n : Nat) : List Nat → Nat × List Nat
  | [] => (n, [])
  | d :: ds => if n * 10 + d < 2 ^ 64 then takeDigits (n * 10 + d) ds else (n, d :: ds)

/-- The nearest number with at most 53 binary digits before its zeros; a tie goes to the even one. -/
def roundToFloat (n : Nat) : Nat :=
  let unit := 2 ^ (n.log2 - 52)
  let low := n / unit
  let rest := n % unit
  if unit < 2 * rest ∨ (unit = 2 * rest ∧ low % 2 = 1) then (low + 1) * unit else low * unit

/-- The least number that rounds to no finite double-precision float. -/
def floatBound : Nat := 2 ^ 1024 - 2 ^ 970

/-- Whether a number can be taken as a double-precision float. The float is the rounded product of
two rounded factors, the leading digits below `2 ^ 64` and a power of ten, so at the end of the
range it need not be the float nearest to the number. -/
def Number.isFinite (n : Number) : Bool :=
  let (lead, dropped) := takeDigits 0 ((Nat.toDigits 10 n.whole).map fun c => c.toNat - 48)
  let (lead, unused) := takeDigits lead n.fraction
  let power : Int := dropped.length - (n.fraction.length - unused.length : Nat) + n.exponent
  if lead = 0 ∨ power < 0 then true
  else if 308 < power then false
  else decide (roundToFloat lead * roundToFloat (10 ^ power.toNat) < floatBound)

mutual

/-- Whether a value with at most `depth` layers can be kept. -/
def canKeep : Nat → Json → Bool
  | _, null => true
  | _, bool _ => true
  | _, number n => n.isFinite
  | _, text s => s.isSome
  | 0, array _ => false
  | 0, object _ => false
  | depth + 1, array items => canKeepItems depth items
  | depth + 1, object members => canKeepMembers depth members

/-- Whether all items of an array can be kept. -/
def canKeepItems : Nat → List Json → Bool
  | _, [] => true
  | depth, v :: vs => canKeep depth v && canKeepItems depth vs

/-- Whether all members of an object can be kept. -/
def canKeepMembers : Nat → List (Option String × Json) → Bool
  | _, [] => true
  | depth, (k, v) :: ms => k.isSome && canKeep depth v && canKeepMembers depth ms

end

end Waybill.Json
