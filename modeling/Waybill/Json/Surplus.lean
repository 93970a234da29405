import Waybill.Json.Token
/-!
# Surplus items

Behind the last byte of an array of bytes one more item may be written, provided that it is no
byte. It need not even be well formed: the attempt to read a byte stops at the first character
that does not fit, and all that counts is whether the array ends there. A character that does not
fit is used up where it was asked for and left where it was only looked at, so the stop depends on
the token that seemed to begin.
-/

namespace Waybill.Json.Surplus

/-- Uses up a character of one byte. A longer one cannot be used up as a whole and stays. -/
def useUp : List Char → List Char
  | [] => []
  | c :: cs => if c.toNat < 128 then cs else c :: cs

/-- Uses up the characters of the next `n` bytes. One that reaches further stays. -/
def useUpBytes : Nat → List Char → List Char
  | 0, cs => cs
  | _, [] => []
  | n + 1, c :: cs =>
    if c.utf8Size ≤ n + 1 then useUpBytes (n + 1 - c.utf8Size) cs else c :: cs

/-- Uses up the four digits of an escaped unit, and gives the unit if they are digits. -/
def useUpUnit (cs : List Char) : Option Nat × List Char :=
  match cs with
  | a :: b :: c :: d :: rest =>
    match unit? a b c d with
    | some u => (some u, rest)
    | none => (none, useUpBytes 4 cs)
  | _ => (none, useUpBytes 4 cs)

/-- Where reading a text stops, after its opening quote: behind the closing quote, or at what is no
part of a text. The low half of a surrogate pair stops it, and so does what is not the low half
after a high one. -/
def stopInText : Nat → List Char → List Char
  | 0, cs => cs
  | _, [] => []
  | _, '"' :: cs => cs
  | steps + 1, '\\' :: 'u' :: cs =>
    match useUpUnit cs with
    | (none, cs) => cs
    | (some u, cs) =>
      if 0xDC00 ≤ u ∧ u < 0xE000 then cs
      else if 0xD800 ≤ u ∧ u < 0xDC00 then
        match cs with
        | '\\' :: 'u' :: cs =>
          match useUpUnit cs with
          | (none, cs) => cs
          | (some v, cs) => if 0xDC00 ≤ v ∧ v < 0xE000 then stopInText steps cs else cs
        | '\\' :: cs => useUp cs
        | cs => useUp cs
      else stopInText steps cs
  | _, ['\\'] => []
  | steps + 1, '\\' :: e :: cs =>
    match escaped? e with
    | some _ => stopInText steps cs
    | none => useUp (e :: cs)
  | steps + 1, c :: cs => if c.toNat < 32 then cs else stopInText steps cs

/-- Where reading the letters of a word stops. -/
def stopInWord : List Char → List Char → List Char
  | [], cs => cs
  | _, [] => []
  | w :: ws, c :: cs => if c = w then stopInWord ws cs else useUp (c :: cs)

/-- Where the digits of an exponent stop: behind the last one, or behind the one with which the
exponent comes to `2 ^ 31`. -/
def stopInPower (power : Nat) : List Char → List Char
  | [] => []
  | c :: cs =>
    if isDigit c then
      let power := power * 10 + digitValue c
      if 2 ^ 31 ≤ power then cs else stopInPower power cs
    else c :: cs

/-- Where reading an exponent stops, after its letter. Of a number that is not zero the exponent
must not become too large. -/
def stopInExponent (isZero : Bool) (cs : List Char) : List Char :=
  let (down, cs) := match cs with
    | '-' :: cs => (true, cs)
    | '+' :: cs => (false, cs)
    | cs => (false, cs)
  match cs with
  | [] => []
  | c :: rest =>
    if !isDigit c then useUp (c :: rest)
    else if isZero || down then rest.dropWhile isDigit
    else stopInPower (digitValue c) rest

/-- Where reading a number stops after the digits before its point. -/
def stopAfterWhole (whole : List Char) (cs : List Char) : List Char :=
  match cs with
  | '.' :: cs =>
    let fraction := cs.takeWhile isDigit
    match cs.dropWhile isDigit with
    | c :: rest =>
      if !fraction.isEmpty && (c == 'e' || c == 'E') then
        stopInExponent ((whole ++ fraction).all (· == '0')) rest
      else c :: rest
    | [] => []
  | 'e' :: cs | 'E' :: cs => stopInExponent (whole.all (· == '0')) cs
  | cs => cs

/-- Where reading a number stops, after its sign. A zero is not followed by digits. -/
def stopInNumber (cs : List Char) : List Char :=
  match cs with
  | [] => []
  | '0' :: rest => if (rest.takeWhile isDigit).isEmpty then stopAfterWhole ['0'] rest else rest
  | c :: rest =>
    if isDigit c then stopAfterWhole (cs.takeWhile isDigit) (cs.dropWhile isDigit)
    else useUp (c :: rest)

/-- Where the attempt to read a byte stops. An array or an object is not begun. -/
def stop (cs : List Char) : List Char :=
  match cs with
  | '"' :: rest => stopInText (rest.length + 1) rest
  | 'n' :: rest => stopInWord ['u', 'l', 'l'] rest
  | 't' :: rest => stopInWord ['r', 'u', 'e'] rest
  | 'f' :: rest => stopInWord ['a', 'l', 's', 'e'] rest
  | '-' :: rest => stopInNumber rest
  | c :: rest => if isDigit c then stopInNumber (c :: rest) else c :: rest
  | [] => []

/-- Whether a byte can be read. -/
def beginsByte (cs : List Char) : Bool :=
  match readUnsigned false cs with
  | some (n, _) => n.plain && decide (n.whole < 256)
  | none => false

/-- Passes over a surplus item and the end of its array, after the comma before the item. -/
def passOver (cs : List Char) : Option (List Char) :=
  let cs := skipBlanks cs
  if beginsByte cs then none
  else
    match skipBlanks (stop cs) with
    | ']' :: rest => some rest
    | _ => none

end Waybill.Json.Surplus
