import Waybill.Json.Value
import Waybill.Text.Decimal
/-!
# Writing JSON

Values are written without any blanks. In a text the quote, the backslash and the control
characters are escaped, by a letter where there is one, and all other characters stand for
themselves.
-/

namespace Waybill.Json

/-- The written form of a character within a text. -/
def escape (c : Char) : List Char :=
  match c with
  | '"' => ['\\', '"']
  | '\\' => ['\\', '\\']
  | '\n' => ['\\', 'n']
  | '\r' => ['\\', 'r']
  | '\t' => ['\\', 't']
  | c =>
    if c.toNat = 8 then ['\\', 'b']
    else if c.toNat = 12 then ['\\', 'f']
    else if c.toNat < 32 then
      ['\\', 'u', '0', '0', Nat.digitChar (c.toNat / 16), Nat.digitChar (c.toNat % 16)]
    else [c]

/-- A text between quotes. -/
def writeChars (cs : List Char) : List Char := '"' :: (cs.flatMap escape ++ ['"'])

/-- A text between quotes; one with half of a surrogate pair is written as the replacement
character. -/
def writeText (s : Option String) : List Char :=
  writeChars (s.getD "\uFFFD").toList

/-- A number; one that is not plain is written with an exponent. -/
def writeNumber (n : Number) : List Char :=
  let sign := if n.negative then ['-'] else []
  let whole := Text.decimalChars n.whole
  if n.plain then sign ++ whole
  else
    let fraction := if n.fraction.isEmpty then [] else '.' :: n.fraction.map Nat.digitChar
    let exponent := if n.exponent < 0 then ['-'] else []
    sign ++ (whole ++ (fraction ++ 'e' :: (exponent ++ Text.decimalChars n.exponent.natAbs)))

mutual

/-- The written form of a value. -/
def write : Json → List Char
  | null => ['n', 'u', 'l', 'l']
  | bool true => ['t', 'r', 'u', 'e']
  | bool false => ['f', 'a', 'l', 's', 'e']
  | number n => writeNumber n
  | text s => writeText s
  | array [] => ['[', ']']
  | array (v :: vs) => '[' :: (write v ++ writeItems vs)
  | object [] => ['\x7b', '\x7d']
  | object ((k, v) :: ms) => '\x7b' :: (writeText k ++ ':' :: (write v ++ writeMembers ms))

/-- Further items of an array and its end. -/
def writeItems : List Json → List Char
  | [] => [']']
  | v :: vs => ',' :: (write v ++ writeItems vs)

/-- Further members of an object and its end. -/
def writeMembers : List (Option String × Json) → List Char
  | [] => ['\x7d']
  | (k, v) :: ms => ',' :: (writeText k ++ ':' :: (write v ++ writeMembers ms))

end

/-- The text of a value. -/
def render (v : Json) : String := String.ofList v.write

end Waybill.Json
