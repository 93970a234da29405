import Waybill.Digest
import Waybill.Bytes.Keccak
import Waybill.Text.Blank
import Waybill.Text.Decimal
/-!
# Identifiers

Accounts and contracts of every chain are named by 32 bytes. A 20-byte address is written to the
right of twelve zero bytes, so an address and its padded form are the same identifier. An
identifier that is an address is shown with the letter case of its checksum, any other one with
all 64 digits in lower case.
-/

namespace Waybill

/-- A chain-independent account name of 32 bytes. -/
structure Identifier where
  bytes : Bytes
  length_eq : bytes.length = 32

namespace Identifier

theorem bytes_inj {p q : Identifier} : p.bytes = q.bytes ↔ p = q := by
  obtain ⟨bs, _⟩ := p
  obtain ⟨cs, _⟩ := q
  rw [mk.injEq]

instance : DecidableEq Identifier := fun _ _ => decidable_of_decidable_of_iff bytes_inj

/-- Why bytes or a text are no identifier. -/
inductive Fault where
  /-- There are this many bytes, more than 32. -/
  | tooLong (length : Nat)
  | hex (fault : Hex.Fault)
deriving DecidableEq, Repr

/-- The wording of a fault. -/
def Fault.message : Fault → String
  | tooLong n => s!"identifier is {Text.decimal n} bytes long, at most 32 expected"
  | hex .oddLength => "invalid hex: Odd number of digits"
  | hex (.badDigit b i) => s!"invalid hex: Invalid character {Text.quoted b} at position {Text.decimal i}"

/-- The identifier of 32 zero bytes. -/
def zero : Identifier := ⟨List.replicate 32 0, Digest.length_zeros⟩

instance : Inhabited Identifier := ⟨zero⟩

/-- Fills at most 32 bytes up with zeros on the left. -/
def ofBytes (bs : Bytes) : Except Fault Identifier :=
  if h : bs.length ≤ 32 then
    .ok ⟨List.replicate (32 - bs.length) 0 ++ bs, by simp; omega⟩
  else .error (.tooLong bs.length)

/-- The last 20 bytes, if all others are zero. -/
def address? (p : Identifier) : Option Bytes :=
  if (p.bytes.take 12).all (· == 0) then some (p.bytes.drop 12) else none

/-- The letters of lower-case digits in capitals where the matching nibble of the hash of those
digits is at least eight. -/
def checksumCase : List Char → List Nat → List Char
  | c :: cs, n :: ns => (if 8 ≤ n then c.toUpper else c) :: checksumCase cs ns
  | cs, [] => cs
  | [], _ => []

/-- The two halves of each byte. -/
def nibbles (bs : Bytes) : List Nat := bs.flatMap fun b => [b.toNat / 16, b.toNat % 16]

/-- The characters of an address with the letter case of its checksum. -/
def checksummed (address : Bytes) : List Char :=
  let digits := Hex.encode address
  checksumCase digits (nibbles (Keccak.digest (digits.map fun c => UInt8.ofNat c.toNat)))

/-- The characters of an identifier's text. -/
def chars (p : Identifier) : List Char :=
  match p.address? with
  | some a => '0' :: 'x' :: checksummed a
  | none => '0' :: 'x' :: Hex.encode p.bytes

/-- The text of an identifier. -/
def pretty (p : Identifier) : String := String.ofList p.chars

/-- The letters of the marks of identifiers, `0x` and `0X`. -/
def markLetters : Bytes := [120, 88]

/-- Reads an identifier: blanks at the ends and one leading mark are dropped, the rest is an even
number of digits, at most 64. -/
def read (s : String) : Except Fault Identifier :=
  let digits := Hex.dropMark markLetters (Text.utf8 (String.ofList (Text.trim s.toList)))
  match Hex.decode digits with
  | .error f => .error (.hex f)
  | .ok bs => ofBytes bs

/-- The digest of the same bytes. -/
def toDigest (p : Identifier) : Digest := ⟨p.bytes, p.length_eq⟩

/-- The identifier of the same bytes. -/
def ofDigest (d : Digest) : Identifier := ⟨d.bytes, d.length_eq⟩

end Identifier

end Waybill
