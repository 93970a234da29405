import Waybill.Proofs.Text.Identifier
import Mathlib.Data.List.TakeWhile
/-!
# Which texts are hexadecimal

The readers of bytes, digests and identifiers take digits of either case in pairs. Here it is said
from outside what a run of bytes is to them: an odd number of bytes, a first byte that is no
digit, or the two digits a byte of some bytes in either case.

## Main definitions

* `Text.IsTrimmed`: what is left of a text when the blanks at its ends are taken off.
* `Hex.Unmarks`: what is left of a text when one leading mark is taken off.
* `Hex.IsFirstBad`: a byte is the first that is no digit.
* `Hex.Reading`: what a run of bytes reads as.

## Main results

* `Text.isTrimmed_iff`: trimming takes all blanks off both ends, and nothing else.
* `Hex.reading_decode`, `Hex.Reading.unique`: the reader finds the one answer a text has.
* `Digest.read_ok_iff`, `Bytes.read_ok_iff`: which texts are digests and byte strings, and which.
-/

namespace Waybill

namespace Text

/-- A text without the blanks at its ends: what was taken off are blanks, and what is left begins
and ends with none. -/
structure IsTrimmed (cs core : List Char) : Prop where
  around : ∃ before after : List Char, cs = before ++ (core ++ after) ∧
    (∀ c ∈ before, isBlank c = true) ∧ ∀ c ∈ after, isBlank c = true
  first : ∀ c ∈ core.head?, isBlank c = false
  last : ∀ c ∈ core.getLast?, isBlank c = false

theorem dropWhile_blanks_append {before cs : List Char} (h : ∀ c ∈ before, isBlank c = true) :
    (before ++ cs).dropWhile isBlank = cs.dropWhile isBlank :=
  List.dropWhile_append_of_pos h

theorem dropWhile_isBlank_of_first {cs : List Char} (h : ∀ c ∈ cs.head?, isBlank c = false) :
    cs.dropWhile isBlank = cs := by
  cases cs with
  | nil => rfl
  | cons c cs => exact dropWhile_of_head (h c rfl)

theorem first_of_dropWhile (cs : List Char) :
    ∀ c ∈ (cs.dropWhile isBlank).head?, isBlank c = false := by
  intro c hc
  have hhead := List.head?_dropWhile_not isBlank cs
  rwa [hc] at hhead

/-- Blanks are dropped from the front of a text up to the first character that is none. -/
theorem exists_blanks_append (cs : List Char) :
    ∃ before, cs = before ++ cs.dropWhile isBlank ∧ ∀ c ∈ before, isBlank c = true :=
  ⟨cs.takeWhile isBlank, List.takeWhile_append_dropWhile.symm, fun _ => List.mem_takeWhile_imp⟩

theorem isTrimmed_trim (cs : List Char) : IsTrimmed cs (trim cs) := by
  obtain ⟨before, hbefore, hblank⟩ := exists_blanks_append cs
  obtain ⟨after, hafter, hblank'⟩ := exists_blanks_append (cs.dropWhile isBlank).reverse
  have hmid : cs.dropWhile isBlank = trim cs ++ after.reverse := by
    rw [trim, ← List.reverse_append, ← hafter, List.reverse_reverse]
  refine ⟨⟨before, after.reverse, hmid ▸ hbefore, hblank, fun c hc => ?_⟩, fun c hc => ?_,
    fun c hc => ?_⟩
  · exact hblank' c (List.mem_reverse.mp hc)
  · -- A first character of the core is the first after the leading blanks.
    refine first_of_dropWhile cs c ?_
    rw [hmid, List.head?_append, hc]
    rfl
  · rw [trim, List.getLast?_reverse] at hc
    exact first_of_dropWhile _ c hc

/-- Trimming takes all blanks off both ends of a text, and nothing else. -/
theorem isTrimmed_iff {cs core : List Char} : IsTrimmed cs core ↔ core = trim cs := by
  refine ⟨fun h => ?_, fun h => h ▸ isTrimmed_trim cs⟩
  obtain ⟨⟨before, after, rfl, hbefore, hafter⟩, hfirst, hlast⟩ := h
  have hback : (after.reverse ++ core.reverse).dropWhile isBlank = core.reverse := by
    rw [dropWhile_blanks_append fun c hc => hafter c (List.mem_reverse.mp hc)]
    exact dropWhile_isBlank_of_first fun c hc => hlast c (List.head?_reverse ▸ hc)
  have hfront : (core ++ after).dropWhile isBlank = [] ∧ core = [] ∨
      (core ++ after).dropWhile isBlank = core ++ after := by
    cases core with
    | nil => exact .inl ⟨List.dropWhile_eq_nil_iff.mpr hafter, rfl⟩
    | cons c core => exact .inr (dropWhile_of_head (hfirst c rfl))
  rw [trim, dropWhile_blanks_append hbefore]
  rcases hfront with ⟨hnil, rfl⟩ | hkeep
  · rw [hnil]
    rfl
  · rw [hkeep, List.reverse_append, hback, List.reverse_reverse]

end Text

namespace Hex

open Text (asciiByte)

variable {letters : Bytes}

/-- What is left of a text when one leading mark is taken off, a zero and one of the letters. -/
inductive Unmarks (letters : Bytes) : Bytes → Bytes → Prop
  | marked {b : UInt8} (hb : b ∈ letters) (digits : Bytes) :
      Unmarks letters (48 :: b :: digits) digits
  | bare {text : Bytes} (h : ∀ b ∈ letters, ∀ rest, text ≠ 48 :: b :: rest) :
      Unmarks letters text text

theorem unmarks_iff {text digits : Bytes} :
    Unmarks letters text digits ↔ digits = dropMark letters text := by
  constructor
  · intro h
    cases h with
    | marked hb digits => exact (if_pos hb).symm
    | bare h =>
      rw [dropMark.eq_def]
      split
      · next b rest => rw [if_neg fun hb => h b hb rest rfl]
      · rfl
  · rintro rfl
    fun_cases dropMark letters text with
    | case1 b rest hb => exact .marked hb rest
    | case2 b rest hb =>
      refine .bare fun b' hb' rest' heq => hb ?_
      rw [List.cons.injEq, List.cons.injEq] at heq
      rwa [heq.2.1]
    | case3 _ hbare => exact .bare fun b _ rest => hbare b rest

/-- The mark is two bytes long, so that a text and its digits are odd together. -/
theorem length_dropMark_mod_two (letters text : Bytes) :
    (dropMark letters text).length % 2 = text.length % 2 := by
  fun_cases dropMark letters text with
  | case1 b rest _ =>
    simp only [List.length_cons]
    omega
  | case2 => rfl
  | case3 => rfl

/-- A byte is a hexadecimal digit of either case. -/
def IsDigit (b : UInt8) : Prop :=
  Text.latin b ∈ ['0', '1', '2', '3', '4', '5', '6', '7', '8', '9',
    'a', 'b', 'c', 'd', 'e', 'f', 'A', 'B', 'C', 'D', 'E', 'F']

instance (b : UInt8) : Decidable (IsDigit b) := inferInstanceAs (Decidable (_ ∈ _))

/-- A digit in lower case. -/
def lower (b : UInt8) : Char := (Text.latin b).toLower

/-- A digit has the value under which its lower-case form is written, and no other byte has one. -/
theorem digitValue?_spec (b : UInt8) :
    if IsDigit b then ∃ n < 16, digitValue? b = some n ∧ digit n = lower b
    else digitValue? b = none := by
  have all : ∀ i : Fin 256, if IsDigit (UInt8.ofNat i) then
      ∃ n < 16, digitValue? (UInt8.ofNat i) = some n ∧ digit n = lower (UInt8.ofNat i)
      else digitValue? (UInt8.ofNat i) = none := by
    decide +kernel
  have hb := all ⟨b.toNat, b.toNat_lt⟩
  rwa [UInt8.ofNat_toNat] at hb

theorem IsDigit.exists_value {b : UInt8} (h : IsDigit b) :
    ∃ n < 16, digitValue? b = some n ∧ digit n = lower b := by
  simpa only [if_pos h] using digitValue?_spec b

theorem digitValue?_of_not_isDigit {b : UInt8} (h : ¬ IsDigit b) : digitValue? b = none := by
  simpa only [if_neg h] using digitValue?_spec b

/-- The byte at a place is the first that is no digit. -/
structure IsFirstBad (text : Bytes) (b : UInt8) (place : Nat) : Prop where
  here : text[place]? = some b
  bad : ¬ IsDigit b
  before : ∀ c ∈ text.take place, IsDigit c

/-- A text has nothing but digits, or a first byte that is none. -/
theorem digits_or_firstBad (text : Bytes) :
    (∀ b ∈ text, IsDigit b) ∨ ∃ b place, IsFirstBad text b place := by
  induction text with
  | nil => exact .inl fun _ h => absurd h List.not_mem_nil
  | cons c text ih =>
    by_cases hc : IsDigit c
    · rcases ih with hall | ⟨b, place, hbad⟩
      · exact .inl (List.forall_mem_cons.mpr ⟨hc, hall⟩)
      · exact .inr ⟨b, place + 1, hbad.here, hbad.bad, List.forall_mem_cons.mpr ⟨hc, hbad.before⟩⟩
    · exact .inr ⟨c, 0, rfl, hc, fun _ h => absurd h List.not_mem_nil⟩

/-- What a run of bytes reads as: an odd number comes first, then the first byte that is no digit,
else the bytes that are written with these digits in lower case. -/
inductive Reading (text : Bytes) : Except Fault Bytes → Prop
  | odd (h : text.length % 2 = 1) : Reading text (.error .oddLength)
  | bad {b : UInt8} {place : Nat} (h : text.length % 2 = 0) (hbad : IsFirstBad text b place) :
      Reading text (.error (.badDigit b place))
  | good {bs : Bytes} (h : text.length % 2 = 0) (hdigits : ∀ b ∈ text, IsDigit b)
      (hencode : encode bs = text.map lower) : Reading text (.ok bs)

/-- Digits in pairs are read as the bytes that are written with them. -/
theorem pairs_of_digits {text : Bytes} (place : Nat) (heven : text.length % 2 = 0)
    (h : ∀ b ∈ text, IsDigit b) :
    ∃ bs, pairs place text = .ok bs ∧ encode bs = text.map lower := by
  match text with
  | [] => exact ⟨[], rfl, rfl⟩
  | [_] => simp at heven
  | hi :: lo :: rest =>
    obtain ⟨hhi, hlo, hrest⟩ := List.forall_mem_cons.mp h |>.imp_right List.forall_mem_cons.mp
    obtain ⟨x, hx, hxv, hxd⟩ := hhi.exists_value
    obtain ⟨y, hy, hyv, hyd⟩ := hlo.exists_value
    have hpairs : rest.length % 2 = 0 := by
      simp only [List.length_cons] at heven
      omega
    obtain ⟨bs, hbs, henc⟩ := pairs_of_digits (place + 2) hpairs hrest
    have hbyte : (UInt8.ofNat (x * 16 + y)).toNat = x * 16 + y := by
      rw [UInt8.toNat_ofNat']
      omega
    have hdiv : (x * 16 + y) / 16 = x := by omega
    have hmod : (x * 16 + y) % 16 = y := by omega
    refine ⟨UInt8.ofNat (x * 16 + y) :: bs, ?_, ?_⟩
    · simp only [pairs, hxv, hyv, hbs, Except.map]
    · simp only [encode, hbyte, hdiv, hmod, hxd, hyd, henc, List.map_cons]

/-- The first byte that is no digit is named together with its place. -/
theorem pairs_of_firstBad {text : Bytes} {b : UInt8} {i : Nat} (place : Nat)
    (heven : text.length % 2 = 0) (h : IsFirstBad text b i) :
    pairs place text = .error (.badDigit b (place + i)) := by
  obtain ⟨here, bad, before⟩ := h
  match text, i with
  | [], _ => simp at here
  | [_], _ => simp at heven
  | hi :: lo :: rest, 0 =>
    obtain rfl : hi = b := by simpa using here
    simp only [pairs, digitValue?_of_not_isDigit bad, Nat.add_zero]
  | hi :: lo :: rest, 1 =>
    obtain rfl : lo = b := by simpa using here
    obtain ⟨x, -, hx, -⟩ := (before hi (by simp)).exists_value
    simp only [pairs, hx, digitValue?_of_not_isDigit bad]
  | hi :: lo :: rest, i + 2 =>
    obtain ⟨x, -, hx, -⟩ := (before hi (by simp)).exists_value
    obtain ⟨y, -, hy, -⟩ := (before lo (by simp)).exists_value
    have hrest : IsFirstBad rest b i :=
      ⟨by simpa using here, bad, fun c hc => before c (by simp [hc])⟩
    have ih := pairs_of_firstBad (place + 2) (by simp only [List.length_cons] at heven; omega) hrest
    simp only [pairs, hx, hy, ih, Except.map, Nat.add_assoc, Nat.add_comm 2 i]

/-- The reader gives an answer that the text has. -/
theorem reading_decode (text : Bytes) : Reading text (decode text) := by
  rw [decode]
  split
  case isTrue h => exact .odd h
  case isFalse h =>
    have heven : text.length % 2 = 0 := by omega
    rcases digits_or_firstBad text with hall | ⟨b, place, hbad⟩
    · obtain ⟨bs, hbs, henc⟩ := pairs_of_digits 0 heven hall
      exact hbs ▸ .good heven hall henc
    · rw [pairs_of_firstBad 0 heven hbad, Nat.zero_add]
      exact .bad heven hbad

/-- Different bytes are written differently. -/
theorem encode_injective {as bs : Bytes} (h : encode as = encode bs) : as = bs := by
  have has := pairs_encode 0 as
  rw [h, pairs_encode] at has
  exact (Except.ok.inj has).symm

theorem IsFirstBad.not_digits {text : Bytes} {b : UInt8} {i : Nat} (h : IsFirstBad text b i) :
    ¬ ∀ c ∈ text, IsDigit c :=
  fun hall => h.bad (hall b (List.mem_of_getElem? h.here))

theorem IsFirstBad.unique {text : Bytes} {b c : UInt8} {i j : Nat} (hb : IsFirstBad text b i)
    (hc : IsFirstBad text c j) : b = c ∧ i = j := by
  have earlier : ∀ {x y : UInt8} {i j : Nat},
      IsFirstBad text x i → IsFirstBad text y j → ¬ i < j := by
    intro x y i j hx hy hij
    have hmem : (text.take j)[i]? = some x := (List.getElem?_take_of_lt hij).trans hx.here
    exact hx.bad (hy.before x (List.mem_of_getElem? hmem))
  have hij : i = j := by
    have := earlier hb hc
    have := earlier hc hb
    omega
  exact ⟨Option.some.inj (hb.here.symm.trans (hij ▸ hc.here)), hij⟩

/-- A run of bytes reads as one thing only. -/
theorem Reading.unique {text : Bytes} {r r' : Except Fault Bytes} (h : Reading text r)
    (h' : Reading text r') : r = r' := by
  cases h with
  | odd h =>
    cases h' with
    | odd => rfl
    | bad h' => omega
    | good h' => omega
  | bad h hbad =>
    cases h' with
    | odd h' => omega
    | bad _ hbad' =>
      obtain ⟨rfl, rfl⟩ := hbad.unique hbad'
      rfl
    | good _ hdigits => exact absurd hdigits hbad.not_digits
  | good h hdigits henc =>
    cases h' with
    | odd h' => omega
    | bad _ hbad => exact absurd hdigits hbad.not_digits
    | good _ _ henc' => rw [encode_injective (henc.trans henc'.symm)]

theorem decode_eq_iff {text : Bytes} {r : Except Fault Bytes} :
    decode text = r ↔ Reading text r :=
  ⟨fun h => h ▸ reading_decode text, fun h => (reading_decode text).unique h⟩

theorem decode_ok_iff {text bs : Bytes} :
    decode text = .ok bs ↔
      text.length % 2 = 0 ∧ (∀ b ∈ text, IsDigit b) ∧ encode bs = text.map lower := by
  rw [decode_eq_iff]
  constructor
  · rintro (_ | _ | ⟨h, hdigits, henc⟩)
    exact ⟨h, hdigits, henc⟩
  · rintro ⟨h, hdigits, henc⟩
    exact .good h hdigits henc

end Hex

/-- A text is a byte string if it is an even number of digits behind at most one mark, and these
digits spell the bytes. -/
theorem Bytes.read_ok_iff {s : String} {bs : Bytes} :
    Bytes.read s = .ok bs ↔ ∃ digits, Hex.Unmarks markLetters (Text.utf8 s) digits ∧
      digits.length % 2 = 0 ∧ (∀ b ∈ digits, Hex.IsDigit b) ∧
      Hex.encode bs = digits.map Hex.lower := by
  have hread : Bytes.read s = Hex.decode (Hex.dropMark markLetters (Text.utf8 s)) := by
    rw [Bytes.read, Hex.decode, Hex.length_dropMark_mod_two]
  simp only [hread, Hex.unmarks_iff, exists_eq_left, Hex.decode_ok_iff]

/-- A text is a digest if it is 64 digits behind at most one mark, and these digits spell the
digest. -/
theorem Digest.read_ok_iff {s : String} {d : Digest} :
    Digest.read s = .ok d ↔ ∃ digits, Hex.Unmarks Bytes.markLetters (Text.utf8 s) digits ∧
      digits.length = 64 ∧ (∀ b ∈ digits, Hex.IsDigit b) ∧
      Hex.encode d.bytes = digits.map Hex.lower := by
  simp only [Hex.unmarks_iff, exists_eq_left]
  have hmod := Hex.length_dropMark_mod_two Bytes.markLetters (Text.utf8 s)
  by_cases hlen : (Hex.dropMark Bytes.markLetters (Text.utf8 s)).length = 64
  · have hodd : ¬ (Text.utf8 s).length % 2 = 1 := by omega
    have heven : (Hex.dropMark Bytes.markLetters (Text.utf8 s)).length % 2 = 0 := by omega
    simp only [Digest.read, if_neg hodd, ne_eq, hlen, not_true_eq_false, if_false, true_and]
    rcases Hex.digits_or_firstBad (Hex.dropMark Bytes.markLetters (Text.utf8 s)) with
      hall | ⟨b, place, hbad⟩
    · obtain ⟨bs, hbs, henc⟩ := Hex.pairs_of_digits 0 heven hall
      have hbytes : bs.length = 32 := by
        have := congrArg List.length henc
        rw [Hex.length_encode, List.length_map, hlen] at this
        omega
      simp only [hbs, ofBytes?, hbytes, dif_pos, Except.ok.injEq, and_iff_right hall, ← henc]
      exact ⟨fun h => h ▸ rfl, fun h => by cases d; simpa using (Hex.encode_injective h).symm⟩
    · rw [Hex.pairs_of_firstBad 0 heven hbad]
      exact ⟨fun h => (by cases h), fun h => absurd h.1 hbad.not_digits⟩
  · refine ⟨fun h => ?_, fun h => absurd h.1 hlen⟩
    rw [Digest.read] at h
    split at h
    · cases h
    · simp only [ne_eq, hlen, not_false_eq_true, if_true] at h
      cases h

end Waybill
