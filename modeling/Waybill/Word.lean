import Waybill.Text.Latin
import Waybill.Text.Decimal
/-!
# 256-bit words

Amounts, gas and leaf indexes are numbers below `2 ^ 256`. They are written in decimal or as `0x`
and the fewest lower-case hexadecimal digits. A text may be hexadecimal, octal, binary or decimal
by its mark, and underscores in it are skipped.
-/

namespace Waybill

/-- A number below `2 ^ 256`. -/
abbrev Word := BitVec 256

namespace Word

/-- Why a text is no word. -/
inductive Fault where
  /-- This byte is no digit of the base in use. -/
  | badDigit (byte : UInt8)
  /-- The number is `2 ^ 256` or more. -/
  | tooLarge
deriving DecidableEq, Repr

/-- The wording of a fault. -/
def Fault.message : Fault → String
  | badDigit b => "invalid digit: " ++ String.ofList [Text.latin b]
  | tooLarge => "the value is too large to fit the target type"

/-- A word in decimal. -/
def decimal (w : Word) : String := Text.decimal w.toNat

/-- The characters of a word's hexadecimal text. -/
def hexChars (w : Word) : List Char := '0' :: 'x' :: Nat.toDigits 16 w.toNat

/-- A word as `0x` and the fewest hexadecimal digits. -/
def hex (w : Word) : String := String.ofList w.hexChars

/-- The value of a digit in bases up to sixteen, given as its byte. -/
def digitValue? (base : Nat) (b : UInt8) : Option Nat :=
  let n := b.toNat
  let value? : Option Nat :=
    if 48 ≤ n ∧ n ≤ 57 then some (n - 48)
    else if 97 ≤ n ∧ n ≤ 122 then some (n - 87)
    else if 65 ≤ n ∧ n ≤ 90 then some (n - 55)
    else none
  value?.filter (· < base)

/-- Adds a group of `count` decimal digits to the number read so far. -/
def joinGroup (value group count : Nat) : Except Fault Nat :=
  let joined := value * 10 ^ count + group
  if joined < 2 ^ 256 then .ok joined else .error .tooLarge

/-- Reads decimal digits from the left in groups of nineteen; the size is looked at when a group
is complete, and at the end. -/
def readDecimal (value group count : Nat) : Bytes → Except Fault Nat
  | [] => joinGroup value group count
  | b :: bs =>
    if b = 95 then readDecimal value group count bs
    else
      match digitValue? 10 b with
      | none => .error (.badDigit b)
      | some d =>
        if count = 18 then
          (joinGroup value (group * 10 + d) 19).bind fun v => readDecimal v 0 0 bs
        else readDecimal value (group * 10 + d) (count + 1) bs

/-- Reads digits of `bits` bits each from the right, the next of which has the weight of bit
`place`. -/
def readBinary (bits place value : Nat) : Bytes → Except Fault Nat
  | [] => .ok value
  | b :: bs =>
    if b = 95 then readBinary bits place value bs
    else
      match digitValue? (2 ^ bits) b with
      | none => .error (.badDigit b)
      | some 0 => readBinary bits (place + bits) value bs
      | some d =>
        if 256 ≤ place ∨ 2 ^ 256 ≤ d * 2 ^ place then .error .tooLarge
        else readBinary bits (place + bits) (value + d * 2 ^ place) bs

/-- Reads the number a text stands for. -/
def readNat (text : Bytes) : Except Fault Nat :=
  match text with
  | 48 :: 120 :: rest => readBinary 4 0 0 rest.reverse
  | 48 :: 88 :: rest => readBinary 4 0 0 rest.reverse
  | 48 :: 111 :: rest => readBinary 3 0 0 rest.reverse
  | 48 :: 79 :: rest => readBinary 3 0 0 rest.reverse
  | 48 :: 98 :: rest => readBinary 1 0 0 rest.reverse
  | 48 :: 66 :: rest => readBinary 1 0 0 rest.reverse
  | _ => readDecimal 0 0 0 text

/-- Reads a word; no digit at all is zero. -/
def read (s : String) : Except Fault Word :=
  (readNat (Text.utf8 s)).map (BitVec.ofNat 256)

/-- The 32 bytes of a word. -/
def toBytes (w : Word) : Bytes := Bytes.ofNat 32 w.toNat

/-- The word that bytes spell, modulo `2 ^ 256`. -/
def ofBytes (bs : Bytes) : Word := BitVec.ofNat 256 (Bytes.toNat bs)

end Word

end Waybill
