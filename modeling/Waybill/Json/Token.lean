import Waybill.Json.Value
/-!
# The tokens of JSON

Blanks, texts and numbers, read from the front of a list of characters. Each reading gives what
was read and the characters after it.
-/

namespace Waybill.Json

/-- Whether a character may stand between tokens. -/
def isBlank (c : Char) : Bool := c == ' ' || c == '\t' || c == '\n' || c == '\r'

/-- The text from its first character that is not blank. -/
def skipBlanks (cs : List Char) : List Char := cs.dropWhile isBlank

/-- Whether a character is a decimal digit. -/
def isDigit (c : Char) : Bool := '0'.toNat ≤ c.toNat && c.toNat ≤ '9'.toNat

/-- The value of a decimal digit. -/
def digitValue (c : Char) : Nat := c.toNat - 48

/-- The number that decimal digits spell. -/
def digitsValue (cs : List Char) : Nat := cs.foldl (fun n c => n * 10 + digitValue c) 0

/-- The value of a hexadecimal digit. -/
def hexValue? (c : Char) : Option Nat :=
  let n := c.toNat
  if 48 ≤ n ∧ n ≤ 57 then some (n - 48)
  else if 97 ≤ n ∧ n ≤ 102 then some (n - 87)
  else if 65 ≤ n ∧ n ≤ 70 then some (n - 55)
  else none

/-- The 16-bit unit that four hexadecimal digits spell. -/
def unit? (a b c d : Char) : Option Nat := do
  let a ← hexValue? a
  let b ← hexValue? b
  let c ← hexValue? c
  let d ← hexValue? d
  return ((a * 16 + b) * 16 + c) * 16 + d

/-- The code of a character that is escaped by one letter. -/
def escaped? : Char → Option Nat
  | '"' => some 34
  | '\\' => some 92
  | '/' => some 47
  | 'b' => some 8
  | 'f' => some 12
  | 'n' => some 10
  | 'r' => some 13
  | 't' => some 9
  | _ => none

/-- Reads the codes of a text up to its closing quote and puts them, last one first, onto `codes`.
Control characters are refused. -/
def readCodes (codes : List Nat) : List Char → Option (List Nat × List Char)
  | [] => none
  | '"' :: rest => some (codes, rest)
  | '\\' :: 'u' :: a :: b :: c :: d :: rest =>
    match unit? a b c d with
    | some u => readCodes (u :: codes) rest
    | none => none
  | '\\' :: e :: rest =>
    match escaped? e with
    | some u => readCodes (u :: codes) rest
    | none => none
  | c :: rest => if c.toNat < 32 then none else readCodes (c.toNat :: codes) rest

/-- Turns codes, last one first, into characters in front of `chars`. A high surrogate and the low
one after it are one character; half of a pair is none. -/
def joinCodes (chars : List Char) : List Nat → Option (List Char)
  | [] => some chars
  | [u] => if 0xD800 ≤ u ∧ u < 0xE000 then none else some (Char.ofNat u :: chars)
  | u :: v :: rest =>
    if 0xDC00 ≤ u ∧ u < 0xE000 then
      if 0xD800 ≤ v ∧ v < 0xDC00 then
        joinCodes (Char.ofNat (0x10000 + (v - 0xD800) * 0x400 + (u - 0xDC00)) :: chars) rest
      else none
    else if 0xD800 ≤ u ∧ u < 0xDC00 then none
    else joinCodes (Char.ofNat u :: chars) (v :: rest)

/-- Reads a text after its opening quote. -/
def readText (cs : List Char) : Option (Option String × List Char) :=
  match readCodes [] cs with
  | some (codes, rest) => some ((joinCodes [] codes).map String.ofList, rest)
  | none => none

/-- Reads the digits of an exponent with their sign; there is at least one. -/
def readExponent (cs : List Char) : Option (Int × List Char) :=
  let (negative, cs) := match cs with
    | '-' :: rest => (true, rest)
    | '+' :: rest => (false, rest)
    | cs => (false, cs)
  let digits := cs.takeWhile isDigit
  if digits.isEmpty then none
  else
    let n : Int := digitsValue digits
    some (if negative then -n else n, cs.dropWhile isDigit)

/-- Reads an unsigned number: digits without a leading zero, a fraction and an exponent. -/
def readUnsigned (negative : Bool) (cs : List Char) : Option (Number × List Char) :=
  let whole := match cs with
    | '0' :: _ => ['0']
    | cs => cs.takeWhile isDigit
  if whole.isEmpty then none
  else
    match cs.drop whole.length with
    | '.' :: rest =>
      let fraction := rest.takeWhile isDigit
      if fraction.isEmpty then none
      else
        let digits := fraction.map digitValue
        match rest.dropWhile isDigit with
        | 'e' :: rest | 'E' :: rest =>
          (readExponent rest).map fun (e, rest) =>
            (⟨negative, digitsValue whole, digits, e, false⟩, rest)
        | rest => some (⟨negative, digitsValue whole, digits, 0, false⟩, rest)
    | 'e' :: rest | 'E' :: rest =>
      (readExponent rest).map fun (e, rest) => (⟨negative, digitsValue whole, [], e, false⟩, rest)
    | rest => some (⟨negative, digitsValue whole, [], 0, true⟩, rest)

/-- Reads a number. -/
def readNumber : List Char → Option (Number × List Char)
  | '-' :: rest => readUnsigned true rest
  | cs => readUnsigned false cs

end Waybill.Json
