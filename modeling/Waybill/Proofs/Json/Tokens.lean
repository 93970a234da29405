import Waybill.Json.Token
import Waybill.Json.Writer
import Waybill.Proofs.Text.Digits
/-!
# Written tokens read back

The texts and numbers of JSON are read back from their written forms, with whatever follows them
left over. A text may hold any characters: quotes, backslashes and control characters are escaped
and come back as themselves. A number has to be followed by something that cannot go on with it.

## Main results

* `Json.readText_write`: a text is read back from its escaped characters and the closing quote.
* `Json.readNumber_decimal`: a natural number is read back from its decimal digits.
-/

namespace Waybill.Json

/-! ### Texts -/

theorem hexValue?_digitChar {d : Nat} (h : d < 16) : hexValue? (Nat.digitChar d) = some d := by
  have all : ∀ d : Fin 16, hexValue? (Nat.digitChar d) = some d.val := by decide
  exact all ⟨d, h⟩

theorem unit?_control {n : Nat} (h : n < 32) :
    unit? '0' '0' (Nat.digitChar (n / 16)) (Nat.digitChar (n % 16)) = some n := by
  have hzero : hexValue? '0' = some 0 := by decide
  have hhi := hexValue?_digitChar (d := n / 16) (by omega)
  have hlo := hexValue?_digitChar (d := n % 16) (by omega)
  simp only [unit?, hzero, hhi, hlo, Option.bind_eq_bind, Option.bind_some, Option.pure_def,
    Option.some.injEq]
  omega

/-- The written form of a character is read as its code. -/
theorem readCodes_escape (codes : List Nat) (c : Char) (tail : List Char) :
    readCodes codes (escape c ++ tail) = readCodes (c.toNat :: codes) tail := by
  rw [escape.eq_def]
  split
  case h_1 => rfl
  case h_2 => rfl
  case h_3 => rfl
  case h_4 => rfl
  case h_5 => rfl
  case h_6 hquote hslash _ _ _ =>
    split
    case isTrue h8 =>
      rw [h8]
      rfl
    case isFalse _ =>
      split
      case isTrue h12 =>
        rw [h12]
        rfl
      case isFalse _ =>
        split
        case isTrue h32 =>
          simp only [List.cons_append, List.nil_append, readCodes, unit?_control h32]
        case isFalse h32 =>
          rw [List.singleton_append, readCodes]
          · rw [if_neg h32]
          · exact hquote
          · rintro a b c d rest rfl
            exact absurd rfl hslash
          · rintro e rest rfl
            exact absurd rfl hslash

theorem readCodes_flatMap_escape (codes : List Nat) (cs rest : List Char) :
    readCodes codes (cs.flatMap escape ++ '"' :: rest) =
      some ((cs.map Char.toNat).reverse ++ codes, rest) := by
  induction cs generalizing codes with
  | nil => rfl
  | cons c cs ih =>
    rw [List.flatMap_cons, List.append_assoc, readCodes_escape, ih, List.map_cons,
      List.reverse_cons, List.append_assoc]
    rfl

/-- The code of a character is no half of a surrogate pair. -/
theorem not_surrogate (c : Char) : ¬ (0xD800 ≤ c.toNat ∧ c.toNat < 0xE000) := by
  have hvalid : c.toNat < 0xD800 ∨ 0xDFFF < c.toNat ∧ c.toNat < 0x110000 := c.valid
  omega

theorem joinCodes_map_toNat (chars cs : List Char) :
    joinCodes chars (cs.map Char.toNat) = some (cs.reverse ++ chars) := by
  induction cs generalizing chars with
  | nil => rfl
  | cons c cs ih =>
    have hc := not_surrogate c
    cases cs with
    | nil =>
      rw [List.map_cons, List.map_nil, joinCodes, if_neg hc, Char.ofNat_toNat]
      rfl
    | cons d ds =>
      have hlow : ¬ (0xDC00 ≤ c.toNat ∧ c.toNat < 0xE000) := by omega
      have hhigh : ¬ (0xD800 ≤ c.toNat ∧ c.toNat < 0xDC00) := by omega
      rw [List.map_cons, List.map_cons, joinCodes, if_neg hlow, if_neg hhigh, Char.ofNat_toNat,
        ← List.map_cons, ih]
      simp only [List.reverse_cons, List.append_assoc, List.cons_append, List.nil_append]

/-- A text is read back from its escaped characters and the closing quote. -/
theorem readText_write (cs rest : List Char) :
    readText (cs.flatMap escape ++ '"' :: rest) = some (some (String.ofList cs), rest) := by
  rw [readText, readCodes_flatMap_escape, List.append_nil, ← List.map_reverse]
  simp only [joinCodes_map_toNat, List.reverse_reverse, List.append_nil, Option.map_some]

/-! ### Numbers -/

theorem isDigit_digitChar {d : Nat} (h : d < 10) : isDigit (Nat.digitChar d) = true := by
  have all : ∀ d : Fin 10, isDigit (Nat.digitChar d) = true := by decide
  exact all ⟨d, h⟩

theorem digitsValue_decimalChars (n : Nat) : digitsValue (Text.decimalChars n) = n := by
  have hfold : ∀ (cs : List Char) (k : Nat),
      cs.foldl (fun n c => n * 10 + digitValue c) k = Nat.ofDigitChars 10 cs k := by
    intro cs
    induction cs with
    | nil => exact fun _ => rfl
    | cons c cs ih =>
      intro k
      rw [List.foldl_cons, ih, Nat.ofDigitChars_cons, Nat.mul_comm]
      rfl
  rw [digitsValue, hfold]
  exact Nat.ofDigitChars_ten_toDigits

/-- What may stand behind a value: nothing, or a mark of the structure around it. -/
def EndsValue (rest : List Char) : Prop :=
  ∀ c cs, rest = c :: cs → c = ',' ∨ c = ']' ∨ c = '\x7d'

theorem endsValue_nil : EndsValue [] := by
  rintro c cs ⟨⟩

theorem endsValue_cons {c : Char} (h : c = ',' ∨ c = ']' ∨ c = '\x7d') (cs : List Char) :
    EndsValue (c :: cs) := by
  rintro d ds heq
  obtain ⟨rfl, -⟩ := List.cons.inj heq
  exact h

/-- Digits are taken up to the end of the value. -/
theorem takeWhile_digits {ds rest : List Char} (hd : ∀ c ∈ ds, isDigit c = true)
    (hr : EndsValue rest) : (ds ++ rest).takeWhile isDigit = ds := by
  have hstop : rest.takeWhile isDigit = [] := by
    cases rest with
    | nil => rfl
    | cons c cs =>
      rcases hr c cs rfl with rfl | rfl | rfl <;> rfl
  rw [List.takeWhile_append_of_pos hd, hstop, List.append_nil]

theorem readUnsigned_decimal (n : Nat) {rest : List Char} (hr : EndsValue rest) :
    readUnsigned false (Text.decimalChars n ++ rest) = some (⟨false, n, [], 0, true⟩, rest) := by
  have hdigits : ∀ c ∈ Text.decimalChars n, isDigit c = true := by
    intro c hc
    obtain ⟨d, hd, rfl⟩ := Text.mem_decimalChars hc
    exact isDigit_digitChar hd
  have hwhole : (Text.decimalChars n ++ rest).takeWhile isDigit = Text.decimalChars n :=
    takeWhile_digits hdigits hr
  cases hn : Text.decimalChars n with
  | nil => exact absurd hn (Text.decimalChars_ne_nil n)
  | cons c cs =>
    by_cases hc : c = '0'
    · -- A leading zero is the whole number.
      subst hc
      obtain rfl := Text.decimalChars_of_zero_head hn
      obtain rfl : n = 0 := by rw [← digitsValue_decimalChars n, hn]; rfl
      cases rest with
      | nil => rfl
      | cons d ds =>
        rcases hr d ds rfl with rfl | rfl | rfl <;> rfl
    · rw [hn] at hwhole
      have hvalue : digitsValue (c :: cs) = n := by rw [← hn, digitsValue_decimalChars]
      rw [readUnsigned]
      · simp only [hwhole, List.isEmpty_cons, Bool.false_eq_true, if_false, List.drop_left, hvalue]
        cases rest with
        | nil => rfl
        | cons d ds =>
          rcases hr d ds rfl with rfl | rfl | rfl <;> rfl
      · intro tail heq
        exact hc (List.cons.inj heq).1

/-- A natural number is read back from its decimal digits. -/
theorem readNumber_decimal (n : Nat) {rest : List Char} (hr : EndsValue rest) :
    readNumber (Text.decimalChars n ++ rest) = some (⟨false, n, [], 0, true⟩, rest) := by
  rw [readNumber.eq_def]
  split
  case h_1 tail heq =>
    cases hn : Text.decimalChars n with
    | nil => exact absurd hn (Text.decimalChars_ne_nil n)
    | cons c cs =>
      have hc : c ∈ Text.decimalChars n := hn ▸ List.mem_cons_self
      rw [hn, List.cons_append] at heq
      obtain ⟨rfl, -⟩ := List.cons.inj heq
      obtain ⟨d, hd, hsign⟩ := Text.mem_decimalChars hc
      have := isDigit_digitChar hd
      rw [← hsign] at this
      exact absurd this (by decide)
  case h_2 => exact readUnsigned_decimal n hr

end Waybill.Json
