import Waybill.Bytes.BigEndian
/-!
# Hexadecimal text

Bytes are written as two lower-case digits each. Reading works on the UTF-8 bytes of a text, two
at a time, accepts either case and names the first byte that is no digit together with its place.
-/

namespace Waybill.Hex

/-- Why a text is no run of hexadecimal digit pairs. -/
inductive Fault where
  /-- A digit has no partner. -/
  | oddLength
  /-- The byte at this place is no hexadecimal digit. -/
  | badDigit (byte : UInt8) (place : Nat)
deriving DecidableEq, Repr

/-- The lower-case digit of a number below sixteen. -/
def digit (n : Nat) : Char := Nat.digitChar n

/-- The value of a digit of either case, given as its byte. -/
def digitValue? (b : UInt8) : Option Nat :=
  let n := b.toNat
  if 48 ≤ n ∧ n ≤ 57 then some (n - 48)
  else if 97 ≤ n ∧ n ≤ 102 then some (n - 87)
  else if 65 ≤ n ∧ n ≤ 70 then some (n - 55)
  else none

/-- Two lower-case digits a byte. -/
def encode : Bytes → List Char
  | [] => []
  | b :: bs => digit (b.toNat / 16) :: digit (b.toNat % 16) :: encode bs

/-- Reads digit pairs, the first of which stands at `place`. -/
def pairs (place : Nat) : Bytes → Except Fault Bytes
  | [] => .ok []
  | [_] => .error .oddLength
  | hi :: lo :: rest =>
    match digitValue? hi, digitValue? lo with
    | none, _ => .error (.badDigit hi place)
    | some _, none => .error (.badDigit lo (place + 1))
    | some h, some l => (pairs (place + 2) rest).map (UInt8.ofNat (h * 16 + l) :: ·)

/-- Reads a text of digit pairs; an odd length is noticed before any bad digit. -/
def decode (text : Bytes) : Except Fault Bytes :=
  if text.length % 2 = 1 then .error .oddLength else pairs 0 text

/-- The text without one leading mark: a zero and one of the letters that may follow it. -/
def dropMark (letters : Bytes) : Bytes → Bytes
  | 48 :: b :: rest => if b ∈ letters then rest else 48 :: b :: rest
  | text => text

end Waybill.Hex
