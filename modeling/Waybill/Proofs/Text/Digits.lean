import Waybill.Word
import Waybill.Proofs.Text.Hex
/-!
# Numbers in positional notation read back

Numbers are written with the fewest digits: decimal in keys, amounts and JSON, hexadecimal for
words. The decimal form determines the number, and a word is read back from its hexadecimal text.

## Main results

* `Text.decimalChars_injective`: different numbers have different decimal forms.
* `Word.read_hex`: a word is read back from its hexadecimal text.
* `Word.decimal_injective`: different words have different decimal texts.
-/

namespace Waybill

namespace Text

/-- A character of a number in some base is a digit of that base. -/
theorem mem_toDigits {b n : Nat} (hb : 1 < b) {c : Char} (h : c ∈ Nat.toDigits b n) :
    ∃ d < b, c = Nat.digitChar d := by
  induction n using Nat.strongRecOn with
  | ind n ih =>
    rw [Nat.toDigits_eq_if hb] at h
    split at h
    case isTrue hn => exact ⟨n, hn, List.mem_singleton.mp h⟩
    case isFalse hn =>
      have hpos : 0 < n := by omega
      rcases List.mem_append.mp h with h | h
      · exact ih (n / b) (Nat.div_lt_self hpos hb) h
      · exact ⟨n % b, Nat.mod_lt n (by omega), List.mem_singleton.mp h⟩

/-- A character of a decimal form is one of ten digits. -/
theorem mem_decimalChars {n : Nat} {c : Char} (h : c ∈ decimalChars n) :
    ∃ d < 10, c = Nat.digitChar d :=
  mem_toDigits (by decide) h

theorem decimalChars_ne_nil (n : Nat) : decimalChars n ≠ [] := Nat.toDigits_ne_nil

/-- Different numbers have different decimal forms. -/
theorem decimalChars_injective {m n : Nat} (h : decimalChars m = decimalChars n) : m = n := by
  have hm := Nat.ofDigitChars_ten_toDigits (n := m)
  rw [← decimalChars, h, decimalChars, Nat.ofDigitChars_ten_toDigits] at hm
  exact hm.symm

/-- A decimal form that begins with a zero is that zero. -/
theorem decimalChars_of_zero_head {n : Nat} {cs : List Char} (h : decimalChars n = '0' :: cs) :
    cs = [] := by
  induction n using Nat.strongRecOn generalizing cs with
  | ind n ih =>
    rw [decimalChars, Nat.toDigits_eq_if (by decide)] at h
    split at h
    case isTrue hn => exact (List.cons.inj h).2.symm
    case isFalse hn =>
      -- The digits before the last one are those of a positive number.
      cases hq : Nat.toDigits 10 (n / 10) with
      | nil => exact absurd hq Nat.toDigits_ne_nil
      | cons q qs =>
        rw [hq, List.cons_append] at h
        obtain ⟨rfl, -⟩ := List.cons.inj h
        have hnil := ih (n / 10) (by omega) hq
        have hzero := Nat.ofDigitChars_ten_toDigits (n := n / 10)
        rw [hq, hnil] at hzero
        have hpos : 0 < n / 10 := by omega
        simp [Nat.ofDigitChars] at hzero
        omega

end Text

namespace Word

open Text (asciiByte)

theorem digitValue?_digitChar {d : Nat} (h : d < 16) :
    digitValue? (2 ^ 4) (asciiByte (Nat.digitChar d)) = some d ∧
      asciiByte (Nat.digitChar d) ≠ 95 := by
  have all : ∀ d : Fin 16, digitValue? (2 ^ 4) (asciiByte (Nat.digitChar d)) = some d.val ∧
      asciiByte (Nat.digitChar d) ≠ 95 := by decide
  exact all ⟨d, h⟩

/-- One hexadecimal digit adds its value at its place, as long as the word has room for it. -/
theorem readBinary_cons {d place : Nat} (hd : d < 16) (hroom : d * 2 ^ place < 2 ^ 256)
    (value : Nat) (bs : Bytes) :
    readBinary 4 place value (asciiByte (Nat.digitChar d) :: bs) =
      readBinary 4 (place + 4) (value + d * 2 ^ place) bs := by
  obtain ⟨hvalue, hbyte⟩ := digitValue?_digitChar hd
  rw [readBinary, if_neg hbyte, hvalue]
  cases d with
  | zero => simp only [Nat.zero_mul, Nat.add_zero]
  | succ d =>
    have hpow : 2 ^ place < 2 ^ 256 := by
      refine Nat.lt_of_le_of_lt ?_ hroom
      exact Nat.le_mul_of_pos_left _ (Nat.succ_pos d)
    have hplace : place < 256 := (Nat.pow_lt_pow_iff_right (by decide)).mp hpow
    have hfits : ¬ (256 ≤ place ∨ 2 ^ 256 ≤ (d + 1) * 2 ^ place) := by omega
    simp only [if_neg hfits]

/-- The hexadecimal digits of a number, last one first, add the number at their place. -/
theorem readBinary_toDigits (n : Nat) {place : Nat} (hroom : n * 2 ^ place < 2 ^ 256)
    (value : Nat) :
    readBinary 4 place value ((Nat.toDigits 16 n).map asciiByte).reverse =
      .ok (value + n * 2 ^ place) := by
  induction n using Nat.strongRecOn generalizing place value with
  | ind n ih =>
    rw [Nat.toDigits_eq_if (by decide)]
    split
    case isTrue hn =>
      simp only [List.map_cons, List.map_nil, List.reverse_cons, List.reverse_nil,
        List.nil_append, readBinary_cons hn hroom, readBinary]
    case isFalse hn =>
      have hmod : n % 16 < 16 := Nat.mod_lt n (by decide)
      have hsplit : n * 2 ^ place = n / 16 * 2 ^ (place + 4) + n % 16 * 2 ^ place := by
        have hp : 2 ^ (place + 4) = 16 * 2 ^ place := by rw [Nat.pow_add, Nat.mul_comm]
        rw [hp, ← Nat.mul_assoc, ← Nat.add_mul, Nat.div_add_mod']
      rw [List.map_append, List.reverse_append]
      simp only [List.map_cons, List.map_nil, List.reverse_cons, List.reverse_nil,
        List.nil_append, List.cons_append]
      rw [readBinary_cons hmod (by omega), ih (n / 16) (by omega) (by omega), hsplit]
      congr 1
      omega

/-- A word is read back from its hexadecimal text. -/
@[simp] theorem read_hex (w : Word) : read w.hex = .ok w := by
  have hascii : ∀ c ∈ Nat.toDigits 16 w.toNat, c.toNat < 128 := by
    intro c hc
    obtain ⟨d, hd, rfl⟩ := Text.mem_toDigits (by decide) hc
    exact Hex.toNat_digit_lt hd
  have hroom : w.toNat * 2 ^ 0 < 2 ^ 256 := by simpa using w.isLt
  rw [read, hex, hexChars, utf8_marked _ hascii]
  simp only [readNat, readBinary_toDigits w.toNat hroom, Nat.pow_zero, Nat.mul_one,
    Nat.zero_add, Except.map, BitVec.ofNat_toNat, BitVec.setWidth_eq]

/-- Different words have different decimal texts. -/
theorem decimal_injective {a b : Word} (h : a.decimal = b.decimal) : a = b :=
  BitVec.eq_of_toNat_eq (Text.decimalChars_injective (String.ofList_injective h))

end Word

end Waybill
