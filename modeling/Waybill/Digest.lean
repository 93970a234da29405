import Waybill.Bytes.Hex
import Waybill.Text.Latin
import Waybill.Text.Decimal
/-!
# Digests

Message hashes, roots and transaction hashes are 32 bytes, written as `0x` and 64 lower-case
digits. Bytes of any length are written and read in the same way. Their readers take a mark of
either case.
-/

namespace Waybill

/-- The letters of the marks of byte strings and digests, `0x` and `0X`. -/
def Bytes.markLetters : Bytes := [120, 88]

/-- Exactly 32 bytes. -/
structure Digest where
  bytes : Bytes
  length_eq : bytes.length = 32
deriving DecidableEq

namespace Digest

theorem length_zeros : (List.replicate 32 (0 : UInt8)).length = 32 := List.length_replicate

instance : Inhabited Digest := ⟨⟨List.replicate 32 0, length_zeros⟩⟩

/-- Why a text is no digest. -/
inductive Fault where
  | hex (fault : Hex.Fault)
  /-- The digits are not 64 in number. -/
  | wrongLength
deriving DecidableEq, Repr

/-- Bytes as a digest, if they are 32. -/
def ofBytes? (bs : Bytes) : Option Digest :=
  if h : bs.length = 32 then some ⟨bs, h⟩ else none

/-- The characters of a digest's text. -/
def chars (d : Digest) : List Char := '0' :: 'x' :: Hex.encode d.bytes

/-- The text of a digest. -/
def text (d : Digest) : String := String.ofList d.chars

/-- Reads a digest. An odd length of the whole text is noticed first, then a wrong number of
digits, then the first byte that is no digit. -/
def read (s : String) : Except Fault Digest :=
  let text := Text.utf8 s
  if text.length % 2 = 1 then .error (.hex .oddLength)
  else
    let digits := Hex.dropMark Bytes.markLetters text
    if digits.length ≠ 64 then .error .wrongLength
    else
      match Hex.pairs 0 digits with
      | .error f => .error (.hex f)
      | .ok bs => match ofBytes? bs with
        | some d => .ok d
        | none => .error .wrongLength

end Digest

namespace Hex.Fault

/-- The wording used for byte strings and digests. -/
def message : Hex.Fault → String
  | oddLength => "odd number of digits"
  | badDigit b i => s!"invalid character {Text.quoted b} at position {Text.decimal i}"

end Hex.Fault

/-- The wording of a fault in a digest's text. -/
def Digest.Fault.message : Digest.Fault → String
  | hex f => f.message
  | wrongLength => "invalid string length"

namespace Bytes

/-- The characters of a byte string's text. -/
def chars (bs : Bytes) : List Char := '0' :: 'x' :: Hex.encode bs

/-- The text of a byte string. -/
def text (bs : Bytes) : String := String.ofList (chars bs)

/-- Reads a byte string with or without its mark. -/
def read (s : String) : Except Hex.Fault Bytes :=
  let text := Text.utf8 s
  if text.length % 2 = 1 then .error .oddLength else Hex.pairs 0 (Hex.dropMark markLetters text)

end Bytes

end Waybill
