import Waybill.Proofs.Text.HexSpelling
/-!
# Which texts are identifiers

An identifier is read from any text that is an even number of digits, at most 64, between blanks
and behind at most one mark. The digits are the end of the identifier's 64, and zeros are before
them. Any other text is refused for the first reason that applies.

The form an identifier is shown in is one such text, and only its own. Nothing of this depends on
the hash from which the letter case of an address is taken.

## Main definitions

* `Identifier.Leaves`: the digits that are left of a text.
* `Identifier.prettyWith`: an identifier as it is shown when some other hash gives the letter case.

## Main results

* `Identifier.read_ok_iff`: which texts are identifiers, and which identifiers they are.
* `Identifier.reads_exactly`: the texts that are read, the reasons for refusing the others, and
  the forms of an identifier that are read as that identifier.
-/

namespace Waybill

namespace Hex

open Text (asciiByte)

theorem encode_append (as bs : Bytes) : encode (as ++ bs) = encode as ++ encode bs := by
  induction as with
  | nil => rfl
  | cons a as ih => simp only [List.cons_append, encode, ih]

/-- Zero bytes are written as zeros. -/
theorem encode_zeros (n : Nat) : encode (List.replicate n 0) = List.replicate (2 * n) '0' := by
  induction n with
  | zero => rfl
  | succ n ih =>
    rw [List.replicate_succ, encode, ih]
    rfl

/-- A character that is a digit in lower case is a digit itself, and neither a blank nor part of a
mark. -/
theorem digit_of_toLower {c : Char} {n : Nat} (hn : n < 16) (h : c.toLower = digit n) :
    c.toNat < 128 ∧ Text.isBlank c = false ∧ IsDigit (asciiByte c) ∧
      lower (asciiByte c) = c.toLower := by
  by_cases hc : c.toNat < 128
  · have all : ∀ i : Fin 128, ∀ n : Fin 16, (Char.ofNat i).toLower = digit n →
        Text.isBlank (Char.ofNat i) = false ∧ IsDigit (asciiByte (Char.ofNat i)) ∧
          lower (asciiByte (Char.ofNat i)) = (Char.ofNat i).toLower := by
      decide +kernel
    have hchar := all ⟨c.toNat, hc⟩ ⟨n, hn⟩
    rw [Char.ofNat_toNat] at hchar
    exact ⟨hc, hchar h⟩
  · -- Beyond ASCII no letter has another case.
    have hlarge : ¬ (c.val ≥ 'A'.val ∧ c.val ≤ 'Z'.val) :=
      fun hle => hc (Nat.lt_of_le_of_lt (UInt32.le_iff_toNat_le.mp hle.2) (by decide))
    have hsame : c.toLower = c := dif_neg hlarge
    rw [← hsame, h] at hc
    exact absurd (toNat_digit_lt hn) hc

end Hex

namespace Identifier

open Text (asciiByte)

/-! ### What is left of a text -/

/-- The digits that are left of a text when the blanks at its ends and then one leading `0x` or
`0X` are taken off. -/
def Leaves (s : String) (digits : Bytes) : Prop :=
  ∃ core, Text.IsTrimmed s.toList core ∧
    Hex.Unmarks markLetters (Text.utf8 (String.ofList core)) digits

theorem leaves_iff {s : String} {digits : Bytes} :
    Leaves s digits ↔
      digits = Hex.dropMark markLetters (Text.utf8 (String.ofList (Text.trim s.toList))) := by
  simp only [Leaves, Text.isTrimmed_iff, Hex.unmarks_iff, exists_eq_left]

/-- The digits are turned into bytes, and these are filled up. -/
theorem Leaves.read_eq {s : String} {digits : Bytes} (h : Leaves s digits) :
    read s = match Hex.decode digits with
      | .error f => .error (.hex f)
      | .ok bs => ofBytes bs := by
  cases hread : Hex.decode digits with
  | error f => rw [read, ← leaves_iff.mp h, hread]
  | ok bs => rw [read, ← leaves_iff.mp h, hread]

/-! ### The identifier of some digits -/

theorem ofBytes_ok_iff {bs : Bytes} {p : Identifier} :
    ofBytes bs = .ok p ↔
      bs.length ≤ 32 ∧ p.bytes = List.replicate (32 - bs.length) 0 ++ bs := by
  rw [ofBytes]
  split
  case isTrue h => rw [Except.ok.injEq, ← bytes_inj, and_iff_right h, eq_comm]
  case isFalse h => exact ⟨fun hp => (by cases hp), fun hp => absurd hp.1 h⟩

theorem ofBytes_error_iff {bs : Bytes} {f : Fault} :
    ofBytes bs = .error f ↔ 32 < bs.length ∧ f = .tooLong bs.length := by
  rw [ofBytes]
  split
  case isTrue h => exact ⟨fun hf => (by cases hf), fun hf => absurd hf.1 (Nat.not_lt.mpr h)⟩
  case isFalse h => rw [Except.error.injEq, and_iff_right (Nat.not_le.mp h), eq_comm]

variable {s : String} {digits : Bytes}

/-- The bytes that digits spell are half as many. -/
theorem length_of_encode {bs : Bytes} (h : Hex.encode bs = digits.map Hex.lower) :
    digits.length = 2 * bs.length := by
  rw [← Hex.length_encode, h, List.length_map]

/-- Bytes filled up with zeros are written as their digits filled up with zeros. -/
theorem bytes_eq_iff {p : Identifier} {bs : Bytes} (hlen : bs.length ≤ 32)
    (h : Hex.encode bs = digits.map Hex.lower) :
    p.bytes = List.replicate (32 - bs.length) 0 ++ bs ↔
      Hex.encode p.bytes = List.replicate (64 - digits.length) '0' ++ digits.map Hex.lower := by
  have hzeros : 64 - digits.length = 2 * (32 - bs.length) := by
    rw [length_of_encode h]
    omega
  rw [hzeros, ← h, ← Hex.encode_zeros, ← Hex.encode_append]
  exact ⟨fun hp => congrArg Hex.encode hp, Hex.encode_injective⟩

/-- A text is an identifier if what is left of it is an even number of digits, at most 64, and it
is the identifier that is written with these digits behind zeros. -/
theorem Leaves.read_ok_iff (h : Leaves s digits) {p : Identifier} :
    read s = .ok p ↔ digits.length % 2 = 0 ∧ digits.length ≤ 64 ∧
      (∀ b ∈ digits, Hex.IsDigit b) ∧
      Hex.encode p.bytes = List.replicate (64 - digits.length) '0' ++ digits.map Hex.lower := by
  rw [h.read_eq]
  constructor
  · intro hp
    split at hp
    · cases hp
    · next bs hbs =>
      obtain ⟨heven, hdigits, henc⟩ := Hex.decode_ok_iff.mp hbs
      obtain ⟨hlen, hp⟩ := ofBytes_ok_iff.mp hp
      have hhalf := length_of_encode henc
      exact ⟨heven, by omega, hdigits, (bytes_eq_iff hlen henc).mp hp⟩
  · rintro ⟨heven, hlen, hdigits, hp⟩
    obtain ⟨bs, hbs, henc⟩ := Hex.pairs_of_digits 0 heven hdigits
    have hhalf := length_of_encode henc
    have hbytes : bs.length ≤ 32 := by omega
    rw [Hex.decode_ok_iff.mpr ⟨heven, hdigits, henc⟩]
    exact ofBytes_ok_iff.mpr ⟨hbytes, (bytes_eq_iff hbytes henc).mpr hp⟩

theorem Leaves.exists_read_iff (h : Leaves s digits) :
    (∃ p, read s = .ok p) ↔
      digits.length % 2 = 0 ∧ digits.length ≤ 64 ∧ ∀ b ∈ digits, Hex.IsDigit b := by
  constructor
  · rintro ⟨p, hp⟩
    obtain ⟨heven, hlen, hdigits, -⟩ := h.read_ok_iff.mp hp
    exact ⟨heven, hlen, hdigits⟩
  · rintro ⟨heven, hlen, hdigits⟩
    obtain ⟨bs, -, henc⟩ := Hex.pairs_of_digits 0 heven hdigits
    have hhalf := length_of_encode henc
    have hbytes : bs.length ≤ 32 := by omega
    rw [h.read_eq, Hex.decode_ok_iff.mpr ⟨heven, hdigits, henc⟩]
    exact ⟨⟨List.replicate (32 - bs.length) 0 ++ bs, by simp; omega⟩,
      ofBytes_ok_iff.mpr ⟨hbytes, rfl⟩⟩

/-! ### The reasons for refusing a text -/

/-- A fault of the digits is the fault of the text. -/
theorem Leaves.read_hex_iff (h : Leaves s digits) {f : Hex.Fault} :
    read s = .error (.hex f) ↔ Hex.Reading digits (.error f) := by
  rw [h.read_eq, ← Hex.decode_eq_iff]
  cases hbs : Hex.decode digits with
  | error f' => simp only [Except.error.injEq, Fault.hex.injEq]
  | ok bs => simp [ofBytes_error_iff]

theorem Leaves.read_oddLength_iff (h : Leaves s digits) :
    read s = .error (.hex .oddLength) ↔ digits.length % 2 = 1 := by
  rw [h.read_hex_iff]
  exact ⟨fun hr => by cases hr; assumption, .odd⟩

theorem Leaves.read_badDigit_iff (h : Leaves s digits) {b : UInt8} {place : Nat} :
    read s = .error (.hex (.badDigit b place)) ↔
      digits.length % 2 = 0 ∧ Hex.IsFirstBad digits b place := by
  rw [h.read_hex_iff]
  refine ⟨fun hr => ?_, fun hr => .bad hr.1 hr.2⟩
  cases hr with
  | bad heven hbad => exact ⟨heven, hbad⟩

theorem Leaves.read_tooLong_iff (h : Leaves s digits) {n : Nat} :
    read s = .error (.tooLong n) ↔
      digits.length = 2 * n ∧ 32 < n ∧ ∀ b ∈ digits, Hex.IsDigit b := by
  rw [h.read_eq]
  constructor
  · intro hn
    split at hn
    · cases hn
    · next bs hbs =>
      obtain ⟨-, hdigits, henc⟩ := Hex.decode_ok_iff.mp hbs
      obtain ⟨hlen, hn⟩ := ofBytes_error_iff.mp hn
      obtain rfl := Fault.tooLong.inj hn
      exact ⟨length_of_encode henc, hlen, hdigits⟩
  · rintro ⟨htwice, hn, hdigits⟩
    have heven : digits.length % 2 = 0 := by omega
    obtain ⟨bs, -, henc⟩ := Hex.pairs_of_digits 0 heven hdigits
    have hhalf : bs.length = n := by
      have := length_of_encode henc
      omega
    rw [Hex.decode_ok_iff.mpr ⟨heven, hdigits, henc⟩]
    exact ofBytes_error_iff.mpr ⟨hhalf ▸ hn, by rw [hhalf]⟩

/-! ### The forms of one identifier -/

/-- The text of an identifier when the letter case of an address is taken from some hash of its
lower-case digits. -/
def prettyWith (hash : Bytes → Bytes) (p : Identifier) : String :=
  match p.address? with
  | some a =>
    String.ofList ('0' :: 'x' ::
      checksumCase (Hex.encode a) (nibbles (hash ((Hex.encode a).map asciiByte))))
  | none => String.ofList ('0' :: 'x' :: Hex.encode p.bytes)

theorem pretty_eq_prettyWith (p : Identifier) : p.pretty = p.prettyWith Keccak.digest := by
  rw [pretty, chars, prettyWith]
  cases p.address? with
  | none => rfl
  | some a =>
    simp only [checksummed]
    rfl

/-- An identifier is read back whatever hash gave the letter case. -/
theorem read_prettyWith (hash : Bytes → Bytes) (p : Identifier) :
    read (p.prettyWith hash) = .ok p := by
  rw [prettyWith]
  split
  case h_1 a ha =>
    exact (read_of_sameDigits (sameDigits_checksumCase (fun d hd => Hex.mem_encode hd) _)).trans
      (ofBytes_of_address ha)
  case h_2 =>
    exact (read_of_sameDigits (sameDigits_refl fun d hd => Hex.mem_encode hd)).trans
      (ofBytes_bytes p)

theorem prettyWith_inj (hash : Bytes → Bytes) {p q : Identifier} :
    p.prettyWith hash = q.prettyWith hash ↔ p = q := by
  refine ⟨fun h => ?_, fun h => h ▸ rfl⟩
  have hread := read_prettyWith hash p
  rw [h, read_prettyWith] at hread
  exact (Except.ok.inj hread).symm

/-- The identifier of an address. -/
def ofAddress (a : Bytes) (h : a.length = 20) : Identifier :=
  ⟨List.replicate 12 0 ++ a, by rw [List.length_append, List.length_replicate, h]⟩

@[simp] theorem address?_ofAddress {a : Bytes} (h : a.length = 20) :
    (ofAddress a h).address? = some a := by
  simp [address?, ofAddress]

theorem mark_ascii {mark : String} (h : mark ∈ ["", "0x", "0X"]) :
    ∀ c ∈ mark.toList, c.toNat < 128 ∧ Text.isBlank c = false := by
  have hall : mark.toList.all fun c => decide (c.toNat < 128) && !Text.isBlank c := by
    simp only [List.mem_cons, List.not_mem_nil, or_false] at h
    rcases h with rfl | rfl | rfl <;> decide
  simpa using hall

/-- A mark before digits is taken off, and digits without one do not begin with a mark. -/
theorem unmarks_mark {mark : String} (h : mark ∈ ["", "0x", "0X"])
    (hdigits : ∀ b ∈ digits, Hex.IsDigit b) :
    Hex.Unmarks markLetters (mark.toList.map asciiByte ++ digits) digits := by
  simp only [List.mem_cons, List.not_mem_nil, or_false] at h
  rcases h with rfl | rfl | rfl
  · refine .bare fun b hb rest heq => ?_
    -- the letter of a mark would have to be a digit
    have hdigit : Hex.IsDigit b := hdigits b (by rw [show digits = 48 :: b :: rest from heq]; simp)
    have hletter : b = 120 ∨ b = 88 := by simpa [markLetters] using hb
    rcases hletter with rfl | rfl <;> exact absurd hdigit (by decide)
  · exact .marked (by decide : (120 : UInt8) ∈ markLetters) digits
  · exact .marked (by decide : (88 : UInt8) ∈ markLetters) digits

/-- The digits of bytes in any letter case, with any mark or none, are all that is left of such a
text. -/
theorem leaves_of_toLower {shown : List Char} {bs : Bytes} {mark : String}
    (hmark : mark ∈ ["", "0x", "0X"]) (h : shown.map Char.toLower = Hex.encode bs) :
    Leaves (mark ++ String.ofList shown) (shown.map asciiByte) ∧
      (∀ b ∈ shown.map asciiByte, Hex.IsDigit b) ∧
      (shown.map asciiByte).map Hex.lower = Hex.encode bs := by
  have hdigit : ∀ c ∈ shown, c.toNat < 128 ∧ Text.isBlank c = false ∧
      Hex.IsDigit (asciiByte c) ∧ Hex.lower (asciiByte c) = c.toLower := by
    intro c hc
    obtain ⟨n, hn, hcn⟩ := Hex.mem_encode (h ▸ List.mem_map_of_mem hc)
    exact Hex.digit_of_toLower hn hcn
  have hbytes : ∀ b ∈ shown.map asciiByte, Hex.IsDigit b := by
    intro b hb
    obtain ⟨c, hc, rfl⟩ := List.mem_map.mp hb
    exact (hdigit c hc).2.2.1
  refine ⟨⟨mark.toList ++ shown, ?_, ?_⟩, hbytes, ?_⟩
  · rw [String.toList_append, String.toList_ofList, Text.isTrimmed_iff, Text.trim_of_no_blank]
    intro c hc
    rcases List.mem_append.mp hc with hc | hc
    · exact (mark_ascii hmark c hc).2
    · exact (hdigit c hc).2.1
  · rw [Text.utf8_ofList, List.map_append]
    · exact unmarks_mark hmark hbytes
    · intro c hc
      rcases List.mem_append.mp hc with hc | hc
      · exact (mark_ascii hmark c hc).1
      · exact (hdigit c hc).1
  · rw [List.map_map, ← h]
    exact List.map_congr_left fun c hc => (hdigit c hc).2.2.2

/-- The digits of an address, in any letter case, behind any number of zero bytes that fit and any
mark or none, are read as the identifier of the address. -/
theorem read_padded {a : Bytes} (ha : a.length = 20) {zeros : Nat} (hzeros : zeros ≤ 12)
    {mark : String} (hmark : mark ∈ ["", "0x", "0X"]) {shown : List Char}
    (hshown : shown.map Char.toLower = Hex.encode (List.replicate zeros 0 ++ a)) :
    read (mark ++ String.ofList shown) = .ok (ofAddress a ha) := by
  obtain ⟨hleaves, hdigits, hlower⟩ := leaves_of_toLower hmark hshown
  have hcount : (shown.map asciiByte).length = 2 * (zeros + 20) := by
    rw [List.length_map, ← List.length_map (f := Char.toLower), hshown, Hex.length_encode,
      List.length_append, List.length_replicate, ha]
  have hfill : 64 - 2 * (zeros + 20) = 2 * (12 - zeros) := by omega
  have hbytes : (ofAddress a ha).bytes =
      List.replicate (12 - zeros) 0 ++ (List.replicate zeros 0 ++ a) := by
    rw [← List.append_assoc, List.replicate_append_replicate, Nat.sub_add_cancel hzeros]
    rfl
  refine hleaves.read_ok_iff.mpr ⟨by omega, by omega, hdigits, ?_⟩
  rw [hlower, hcount, hfill, hbytes, ← Hex.encode_zeros, ← Hex.encode_append]

/-- What is left of a text between blanks and behind at most one mark is determined, and decides
how the text is read. It is an identifier if it is an even number of digits of either case, at most
64; the identifier is then written with these digits in lower case behind zeros. Otherwise an odd
number comes first, then the first byte that is no digit with its place, then the number of bytes
when there are more than 32. An identifier is read back from the form it is shown in, different
identifiers are shown differently, both whatever hash gives the letter case of addresses, and all
padded forms of an address are the same identifier. -/
theorem reads_exactly :
    (∀ s : String, ∃ digits : Bytes, (∀ others, Leaves s others ↔ others = digits) ∧
      ((∃ p, read s = .ok p) ↔
        digits.length % 2 = 0 ∧ digits.length ≤ 64 ∧ ∀ b ∈ digits, Hex.IsDigit b) ∧
      (∀ p, read s = .ok p →
        Hex.encode p.bytes = List.replicate (64 - digits.length) '0' ++ digits.map Hex.lower) ∧
      (read s = .error (.hex .oddLength) ↔ digits.length % 2 = 1) ∧
      (∀ b place, read s = .error (.hex (.badDigit b place)) ↔
        digits.length % 2 = 0 ∧ Hex.IsFirstBad digits b place) ∧
      ∀ n, read s = .error (.tooLong n) ↔
        digits.length = 2 * n ∧ 32 < n ∧ ∀ b ∈ digits, Hex.IsDigit b) ∧
    (∀ p, read (pretty p) = .ok p) ∧ (∀ p q, pretty p = pretty q ↔ p = q) ∧
    (∀ p, pretty p = prettyWith Keccak.digest p) ∧
    (∀ hash, (∀ p, read (prettyWith hash p) = .ok p) ∧
      ∀ p q, prettyWith hash p = prettyWith hash q ↔ p = q) ∧
    ∀ a : Bytes, a.length = 20 → ∃ p, p.address? = some a ∧
      ∀ zeros ≤ 12, ∀ mark ∈ ["", "0x", "0X"], ∀ shown : List Char,
        shown.map Char.toLower = Hex.encode (List.replicate zeros 0 ++ a) →
          read (mark ++ String.ofList shown) = .ok p := by
  refine ⟨fun s => ?_, read_pretty, fun p q => ⟨pretty_injective, congrArg pretty⟩,
    pretty_eq_prettyWith, fun hash => ⟨read_prettyWith hash, fun p q => prettyWith_inj hash⟩,
    fun a ha => ⟨ofAddress a ha, address?_ofAddress ha, fun zeros hzeros mark hmark shown hshown =>
      read_padded ha hzeros hmark hshown⟩⟩
  obtain ⟨digits, hleaves⟩ : ∃ digits, Leaves s digits := ⟨_, leaves_iff.mpr rfl⟩
  refine ⟨digits, fun others => ?_, hleaves.exists_read_iff,
    fun p hp => (hleaves.read_ok_iff.mp hp).2.2.2, hleaves.read_oddLength_iff,
    fun b place => hleaves.read_badDigit_iff, fun n => hleaves.read_tooLong_iff⟩
  rw [leaves_iff, ← leaves_iff.mp hleaves]

/-- Between blanks `0Xa0` is the identifier that ends in these two digits, and the address of twenty
bytes `0xab` is read from capital digits behind a mark and one more zero byte. -/
theorem reads_exactly_capital_digits :
    (∃ digits p, Leaves " 0Xa0 " digits ∧ read " 0Xa0 " = .ok p ∧
      Hex.encode p.bytes = List.replicate (64 - digits.length) '0' ++ digits.map Hex.lower) ∧
    ∃ p, p.address? = some (List.replicate 20 0xab) ∧
      read ("0X" ++ String.ofList ('0' :: '0' :: (List.replicate 20 ['A', 'B']).flatten)) =
        .ok p := by
  constructor
  · obtain ⟨digits, hleaves, -, hvalue, -⟩ := reads_exactly.1 " 0Xa0 "
    have hread : read " 0Xa0 " = .ok ⟨List.replicate 31 0 ++ [0xa0], rfl⟩ := by decide +kernel
    exact ⟨digits, _, (hleaves digits).mpr rfl, hread, hvalue _ hread⟩
  · obtain ⟨p, hp, hread⟩ := reads_exactly.2.2.2.2.2 (List.replicate 20 0xab) List.length_replicate
    exact ⟨p, hp, hread 1 (by decide) "0X" (by decide) _ (by decide)⟩

end Identifier

end Waybill
