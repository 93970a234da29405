/-!
# Decimal numbers

Numbers in keys, amounts and messages are written with the fewest decimal digits.
-/

namespace Waybill.Text

/-- The decimal digits of a number. -/
def decimalChars (n : Nat) : List Char := Nat.toDigits 10 n

/-- A number in decimal. -/
def decimal (n : Nat) : String := String.ofList (decimalChars n)

/-- An integer in decimal, a negative one after a minus sign. -/
def signed (i : Int) : String :=
  if i < 0 then String.ofList ('-' :: decimalChars i.natAbs) else decimal i.natAbs

end Waybill.Text
