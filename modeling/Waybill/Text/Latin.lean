import Waybill.Bytes.BigEndian
/-!
# Texts as bytes, and bytes as characters

Readers that report positions work on the UTF-8 bytes of a text. A byte that has to be shown in
an error message is shown as the Latin-1 character of its number, in single quotes where the
message quotes it, with what cannot be printed escaped.
-/

namespace Waybill.Text

/-- The UTF-8 bytes of a text. -/
def utf8 (s : String) : Bytes := s.toList.flatMap String.utf8EncodeChar

/-- The Latin-1 character of a byte. -/
def latin (b : UInt8) : Char := Char.ofNat b.toNat

/-- Whether a Latin-1 character is shown by an escape with its number: the control characters,
the no-break space and the soft hyphen. -/
def isHidden (b : UInt8) : Bool :=
  let n := b.toNat
  n < 32 || (127 ≤ n && n ≤ 160) || n == 173

/-- A byte as a Latin-1 character between single quotes. -/
def quoted (b : UInt8) : String :=
  let body : List Char :=
    match b.toNat with
    | 0 => ['\\', '0']
    | 9 => ['\\', 't']
    | 10 => ['\\', 'n']
    | 13 => ['\\', 'r']
    | 39 => ['\\', '\'']
    | 92 => ['\\', '\\']
    | n => if isHidden b then ['\\', 'u', '\x7b'] ++ Nat.toDigits 16 n ++ ['\x7d'] else [latin b]
  String.ofList (['\''] ++ body ++ ['\''])

end Waybill.Text
