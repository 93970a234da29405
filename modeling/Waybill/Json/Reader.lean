import Waybill.Json.Surplus
import Waybill.Json.Expected
/-!
# Reading JSON

A text is one value with blanks around it. Reading works on the list of characters; the bound on
the number of steps is taken from the length of the text, of which every other step uses up a
character.
-/

namespace Waybill.Json

mutual

/-- Reads one value in at most the given number of steps. -/
def readValue : Nat → Expected → List Char → Option (Json × List Char)
  | 0, _, _ => none
  | steps + 1, e, cs =>
    match skipBlanks cs with
    | '"' :: rest => (readText rest).map fun (s, rest) => (text s, rest)
    | '[' :: rest =>
      match skipBlanks rest with
      | ']' :: rest => some (array [], rest)
      | rest => readItems steps e [] rest
    | '{' :: rest =>
      match skipBlanks rest with
      | '}' :: rest => some (object [], rest)
      | rest => readMembers steps e [] rest
    | 'n' :: 'u' :: 'l' :: 'l' :: rest => some (null, rest)
    | 't' :: 'r' :: 'u' :: 'e' :: rest => some (bool true, rest)
    | 'f' :: 'a' :: 'l' :: 's' :: 'e' :: rest => some (bool false, rest)
    | rest => (readNumber rest).map fun (n, rest) => (number n, rest)

/-- Reads the items of an array up to its end, after those in `items`, last one first. Behind the
last of the bytes that are expected something else than a byte is passed over. -/
def readItems : Nat → Expected → List Json → List Char → Option (Json × List Char)
  | 0, _, _, _ => none
  | steps + 1, e, items, cs =>
    match readValue steps (e.item items) cs with
    | none => none
    | some (v, rest) =>
      match skipBlanks rest with
      | ',' :: rest =>
        if e.isFilled (items.length + 1) then
          (Surplus.passOver rest).map fun rest => (array (v :: items).reverse, rest)
        else readItems steps e (v :: items) rest
      | ']' :: rest => some (array (v :: items).reverse, rest)
      | _ => none

/-- Reads the members of an object up to its end, after those in `members`, last one first. -/
def readMembers :
    Nat → Expected → List (Option String × Json) → List Char → Option (Json × List Char)
  | 0, _, _, _ => none
  | steps + 1, e, members, cs =>
    match skipBlanks cs with
    | '"' :: rest =>
      match readText rest with
      | none => none
      | some (key, rest) =>
        match skipBlanks rest with
        | ':' :: rest =>
          match readValue steps (e.member members key) rest with
          | none => none
          | some (v, rest) =>
            match skipBlanks rest with
            | ',' :: rest => readMembers steps e ((key, v) :: members) rest
            | '}' :: rest => some (object ((key, v) :: members).reverse, rest)
            | _ => none
        | _ => none
    | _ => none

end

/-- Reads a text that is one value, read for what is expected, and nothing but blanks around it. -/
def parseAs (e : Expected) (s : String) : Option Json :=
  let cs := s.toList
  match readValue (2 * cs.length + 2) e cs with
  | some (v, rest) => if (skipBlanks rest).isEmpty then some v else none
  | none => none

/-- Reads a text that is one value and nothing but blanks around it. -/
def parse (s : String) : Option Json := parseAs .anything s

end Waybill.Json
