import Waybill.Identifier
import Waybill.Proofs.Text.Hex
/-!
# Identifiers read back

An identifier that is an address is shown with the letter case of a checksum, any other one in
lower case. Reading does not look at the case, so an identifier is read back from either form,
whatever hash the checksum is taken from.

## Main results

* `Identifier.read_pretty`: an identifier is read back from the text it is shown as.
* `Identifier.pretty_injective`: different identifiers are shown differently.
-/

namespace Waybill

namespace Text

theorem dropWhile_of_head {c : Char} {cs : List Char} {p : Char → Bool} (h : p c = false) :
    (c :: cs).dropWhile p = c :: cs := by
  rw [List.dropWhile_cons, h]
  rfl

/-- A text without any blank is not trimmed. -/
theorem trim_of_no_blank {cs : List Char} (h : ∀ c ∈ cs, isBlank c = false) : trim cs = cs := by
  have keep : ∀ ds : List Char, (∀ c ∈ ds, isBlank c = false) → ds.dropWhile isBlank = ds := by
    intro ds hd
    cases ds with
    | nil => rfl
    | cons d ds => exact dropWhile_of_head (hd d List.mem_cons_self)
  rw [trim, keep cs h, keep cs.reverse fun c hc => h c (List.mem_reverse.mp hc),
    List.reverse_reverse]

end Text

namespace Identifier

open Text (asciiByte)

/-- A digit in either case is an ASCII character, no blank, and has the same value. -/
theorem digit_of_either_case {n : Nat} (h : n < 16) {c : Char}
    (hc : c = Hex.digit n ∨ c = (Hex.digit n).toUpper) :
    c.toNat < 128 ∧ Text.isBlank c = false ∧
      Hex.digitValue? (asciiByte c) = Hex.digitValue? (asciiByte (Hex.digit n)) := by
  rcases hc with rfl | rfl
  · have all : ∀ n : Fin 16, (Hex.digit n).toNat < 128 ∧ Text.isBlank (Hex.digit n) = false := by
      decide
    exact ⟨(all ⟨n, h⟩).1, (all ⟨n, h⟩).2, rfl⟩
  · have all : ∀ n : Fin 16, (Hex.digit n).toUpper.toNat < 128 ∧
        Text.isBlank (Hex.digit n).toUpper = false ∧
        Hex.digitValue? (asciiByte (Hex.digit n).toUpper) =
          Hex.digitValue? (asciiByte (Hex.digit n)) := by
      decide
    exact all ⟨n, h⟩

/-- A text of digits in either case, over the digits in lower case. -/
inductive SameDigits : List Char → List Char → Prop
  | nil : SameDigits [] []
  | cons {n : Nat} {c : Char} {cs ds : List Char} (hn : n < 16)
      (hc : c = Hex.digit n ∨ c = (Hex.digit n).toUpper) (h : SameDigits cs ds) :
      SameDigits (c :: cs) (Hex.digit n :: ds)

theorem sameDigits_checksumCase {digits : List Char} (h : ∀ d ∈ digits, ∃ n < 16, d = Hex.digit n)
    (ns : List Nat) : SameDigits (checksumCase digits ns) digits := by
  induction digits generalizing ns with
  | nil => cases ns <;> exact .nil
  | cons d ds ih =>
    obtain ⟨n, hn, rfl⟩ := h d List.mem_cons_self
    have hds := fun e he => h e (List.mem_cons_of_mem (Hex.digit n) he)
    cases ns with
    | nil =>
      refine .cons hn (.inl rfl) ?_
      have := ih hds []
      cases ds <;> exact this
    | cons m ms =>
      refine .cons hn ?_ (ih hds ms)
      split
      · exact .inr rfl
      · exact .inl rfl

theorem sameDigits_refl {digits : List Char} (h : ∀ d ∈ digits, ∃ n < 16, d = Hex.digit n) :
    SameDigits digits digits := by
  induction digits with
  | nil => exact .nil
  | cons d ds ih =>
    obtain ⟨n, hn, rfl⟩ := h d List.mem_cons_self
    exact .cons hn (.inl rfl) (ih fun e he => h e (List.mem_cons_of_mem _ he))

theorem SameDigits.ascii {shown digits : List Char} (h : SameDigits shown digits) :
    ∀ c ∈ shown, c.toNat < 128 ∧ Text.isBlank c = false := by
  induction h with
  | nil => simp
  | cons hn hc _ ih =>
    intro c hmem
    rcases List.mem_cons.mp hmem with rfl | hmem
    · exact ⟨(digit_of_either_case hn hc).1, (digit_of_either_case hn hc).2.1⟩
    · exact ih c hmem

theorem SameDigits.length_eq {shown digits : List Char} (h : SameDigits shown digits) :
    shown.length = digits.length := by
  induction h with
  | nil => rfl
  | cons _ _ _ ih => rw [List.length_cons, List.length_cons, ih]

theorem SameDigits.values {shown digits : List Char} (h : SameDigits shown digits) :
    (shown.map asciiByte).map Hex.digitValue? =
      digits.map fun c => Hex.digitValue? (asciiByte c) := by
  induction h with
  | nil => rfl
  | cons hn hc _ ih =>
    simp only [List.map_cons, ih, (digit_of_either_case hn hc).2.2]

/-- The digits of bytes in either case, behind the mark, are read as those bytes filled up with
zeros. -/
theorem read_of_sameDigits {shown : List Char} {bs : Bytes}
    (h : SameDigits shown (Hex.encode bs)) :
    read (String.ofList ('0' :: 'x' :: shown)) = ofBytes bs := by
  have hblank : Text.trim ('0' :: 'x' :: shown) = '0' :: 'x' :: shown := by
    refine Text.trim_of_no_blank fun c hc => ?_
    simp only [List.mem_cons] at hc
    rcases hc with rfl | rfl | hc
    · decide
    · decide
    · exact (h.ascii c hc).2
  have hlen : shown.length = 2 * bs.length := by
    rw [h.length_eq, Hex.length_encode]
  have hodd : ¬ (shown.map asciiByte).length % 2 = 1 := by
    rw [List.length_map, hlen]
    omega
  have hmark : Hex.dropMark markLetters (48 :: 120 :: shown.map asciiByte) = shown.map asciiByte := by
    rw [Hex.dropMark, markLetters, if_pos List.mem_cons_self]
  rw [read, String.toList_ofList, hblank, utf8_marked _ fun c hc => (h.ascii c hc).1]
  simp only [hmark, Hex.decode, if_neg hodd, Hex.pairs_of_values 0 h.values]

/-- The bytes of an address filled up with zeros are the identifier. -/
theorem ofBytes_of_address {p : Identifier} {a : Bytes} (h : p.address? = some a) :
    ofBytes a = .ok p := by
  obtain ⟨bytes, hlen⟩ := p
  simp only [address?, Option.ite_none_right_eq_some, Option.some.injEq, List.all_eq_true,
    beq_iff_eq] at h
  obtain ⟨hzero, rfl⟩ := h
  have htake : bytes.take 12 = List.replicate 12 0 :=
    List.eq_replicate_iff.mpr ⟨by simp [hlen], hzero⟩
  have hfill : List.replicate (32 - (bytes.drop 12).length) 0 ++ bytes.drop 12 = bytes := by
    have hcount : 32 - (bytes.drop 12).length = 12 := by simp [hlen]
    rw [hcount, ← htake, List.take_append_drop]
  have hle : (bytes.drop 12).length ≤ 32 := by simp [hlen]
  simp only [ofBytes, dif_pos hle, hfill]

theorem ofBytes_bytes (p : Identifier) : ofBytes p.bytes = .ok p := by
  obtain ⟨bytes, hlen⟩ := p
  have hle : bytes.length ≤ 32 := by omega
  have hfill : List.replicate (32 - bytes.length) 0 ++ bytes = bytes := by
    rw [hlen]
    rfl
  simp only [ofBytes, dif_pos hle, hfill]

/-- An identifier is read back from the text it is shown as. -/
@[simp] theorem read_pretty (p : Identifier) : read p.pretty = .ok p := by
  rw [pretty, chars]
  cases h : p.address? with
  | none =>
    exact (read_of_sameDigits (sameDigits_refl fun d hd => Hex.mem_encode hd)).trans
      (ofBytes_bytes p)
  | some a =>
    exact (read_of_sameDigits (sameDigits_checksumCase (fun d hd => Hex.mem_encode hd) _)).trans
      (ofBytes_of_address h)

/-- Different identifiers are shown differently. -/
theorem pretty_injective {a b : Identifier} (h : a.pretty = b.pretty) : a = b := by
  have hr : read a.pretty = .ok b := h ▸ read_pretty b
  rw [read_pretty] at hr
  exact Except.ok.inj hr

end Identifier

end Waybill
