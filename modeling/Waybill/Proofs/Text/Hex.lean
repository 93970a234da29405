import Waybill.Digest
/-!
# Hexadecimal texts read back

Byte strings and digests are written with two lower-case digits a byte. The readers work on the
UTF-8 bytes of a text, take digits of either case, and give back what was written.

## Main results

* `Text.utf8_ofList`: a text of ASCII characters has one byte a character.
* `Hex.pairs_encode`: reading written digit pairs gives the bytes back.
* `Digest.read_text`, `Bytes.read_text`: digests and byte strings are read back from their texts.
* `Digest.text_injective`: different digests have different texts.
-/

namespace Waybill

namespace Text

/-- The byte of an ASCII character. -/
def asciiByte (c : Char) : UInt8 := UInt8.ofNat c.toNat

theorem utf8EncodeChar_of_lt {c : Char} (h : c.toNat < 128) :
    String.utf8EncodeChar c = [asciiByte c] := by
  have hv : c.val.toNat ≤ 127 := Nat.le_of_lt_succ h
  rw [String.utf8EncodeChar]
  exact if_pos hv

/-- A text of ASCII characters has one byte a character. -/
theorem utf8_ofList {cs : List Char} (h : ∀ c ∈ cs, c.toNat < 128) :
    utf8 (String.ofList cs) = cs.map asciiByte := by
  rw [utf8, String.toList_ofList]
  induction cs with
  | nil => rfl
  | cons c cs ih =>
    rw [List.flatMap_cons, utf8EncodeChar_of_lt (h c List.mem_cons_self),
      ih fun d hd => h d (List.mem_cons_of_mem c hd)]
    rfl

end Text

namespace Hex

open Text (asciiByte)

/-- A lower-case digit is one of sixteen characters. -/
theorem digit_cases {P : Char → Prop} (h : ∀ n : Fin 16, P (digit n)) {n : Nat} (hn : n < 16) :
    P (digit n) :=
  h ⟨n, hn⟩

theorem digitValue?_digit {n : Nat} (h : n < 16) : digitValue? (asciiByte (digit n)) = some n := by
  have all : ∀ n : Fin 16, digitValue? (asciiByte (digit n)) = some n.val := by decide
  exact all ⟨n, h⟩

theorem toNat_digit_lt {n : Nat} (h : n < 16) : (digit n).toNat < 128 :=
  digit_cases (P := fun c => c.toNat < 128) (by decide) h

theorem high_lt (b : UInt8) : b.toNat / 16 < 16 := by
  have := b.toNat_lt
  omega

theorem low_lt (b : UInt8) : b.toNat % 16 < 16 := Nat.mod_lt _ (by decide)

/-- Every character of written bytes is a digit. -/
theorem mem_encode {c : Char} {bs : Bytes} (h : c ∈ encode bs) : ∃ n < 16, c = digit n := by
  induction bs with
  | nil => simp [encode] at h
  | cons b bs ih =>
    simp only [encode, List.mem_cons] at h
    rcases h with rfl | rfl | h
    · exact ⟨_, high_lt b, rfl⟩
    · exact ⟨_, low_lt b, rfl⟩
    · exact ih h

theorem toNat_lt_of_mem_encode {c : Char} {bs : Bytes} (h : c ∈ encode bs) : c.toNat < 128 := by
  obtain ⟨n, hn, rfl⟩ := mem_encode h
  exact toNat_digit_lt hn

@[simp] theorem length_encode (bs : Bytes) : (encode bs).length = 2 * bs.length := by
  induction bs with
  | nil => rfl
  | cons b bs ih =>
    simp only [encode, List.length_cons, ih]
    omega

/-- Bytes with the digit values of written bytes read as those bytes, whatever the letter case. -/
theorem pairs_of_values {bs text : Bytes} (place : Nat)
    (h : text.map digitValue? = (encode bs).map fun c => digitValue? (asciiByte c)) :
    pairs place text = .ok bs := by
  induction bs generalizing text place with
  | nil =>
    have : text = [] := by simpa [encode] using h
    rw [this]
    rfl
  | cons b bs ih =>
    match text, h with
    | hi :: lo :: rest, h =>
      simp only [encode, List.map_cons, List.cons.injEq, digitValue?_digit (high_lt b),
        digitValue?_digit (low_lt b)] at h
      obtain ⟨hhi, hlo, hrest⟩ := h
      have hb : b.toNat / 16 * 16 + b.toNat % 16 = b.toNat := by omega
      rw [pairs]
      simp only [hhi, hlo, ih _ hrest, hb, UInt8.ofNat_toNat]
      rfl
    | [], h => simp [encode] at h
    | [_], h => simp [encode] at h

theorem pairs_encode (place : Nat) (bs : Bytes) :
    pairs place ((encode bs).map asciiByte) = .ok bs :=
  pairs_of_values place (by rw [List.map_map]; rfl)

end Hex

open Text (asciiByte)

/-- The bytes of a mark and digits. -/
theorem utf8_marked (cs : List Char) (h : ∀ c ∈ cs, c.toNat < 128) :
    Text.utf8 (String.ofList ('0' :: 'x' :: cs)) = 48 :: 120 :: cs.map asciiByte := by
  rw [Text.utf8_ofList]
  · rfl
  · intro c hc
    simp only [List.mem_cons] at hc
    rcases hc with rfl | rfl | hc
    · decide
    · decide
    · exact h c hc

/-- A small mark is taken off byte strings and digests. -/
theorem Bytes.dropMark_small (digits : Bytes) :
    Hex.dropMark markLetters (48 :: 120 :: digits) = digits := by
  rw [Hex.dropMark, markLetters, if_pos List.mem_cons_self]

/-- A byte string is read back from its text. -/
@[simp] theorem Bytes.read_text (bs : Bytes) : Bytes.read bs.text = .ok bs := by
  have hu := utf8_marked (Hex.encode bs) fun c hc => Hex.toNat_lt_of_mem_encode hc
  rw [Bytes.read, Bytes.text, Bytes.chars, hu]
  have hodd : ¬ (48 :: 120 :: (Hex.encode bs).map asciiByte).length % 2 = 1 := by
    simp only [List.length_cons, List.length_map, Hex.length_encode]
    omega
  rw [if_neg hodd, dropMark_small]
  exact Hex.pairs_encode 0 bs

/-- A digest is read back from its text. -/
@[simp] theorem Digest.read_text (d : Digest) : Digest.read d.text = .ok d := by
  have hu := utf8_marked (Hex.encode d.bytes) fun c hc => Hex.toNat_lt_of_mem_encode hc
  have hodd : ¬ (48 :: 120 :: (Hex.encode d.bytes).map asciiByte).length % 2 = 1 := by
    simp [d.length_eq]
  have hlen : ((Hex.encode d.bytes).map asciiByte).length = 64 := by simp [d.length_eq]
  simp only [Digest.read, Digest.text, Digest.chars, hu, if_neg hodd, Bytes.dropMark_small, hlen,
    Hex.pairs_encode, ne_eq, not_true_eq_false, if_false, Digest.ofBytes?, d.length_eq, dite_true]

/-- Different digests have different texts. -/
theorem Digest.text_injective {a b : Digest} (h : a.text = b.text) : a = b := by
  have hr : Digest.read a.text = .ok b := h ▸ Digest.read_text b
  rw [Digest.read_text] at hr
  exact Except.ok.inj hr

end Waybill
