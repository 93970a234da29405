import Waybill.Proofs.Text.Digits
import Waybill.Proofs.Text.HexSpelling
import Mathlib.Data.Nat.Digits.Defs
import Mathlib.Data.List.Forall2
/-!
# Which texts are words

A mark at the front of a text says in which base it is written, decimal without one. What is
behind the mark are digits of that base, among which underscores do not count, and the number they
spell has to be below `2 ^ 256`. The readers look at the size in different ways: the decimal one
after every group of digits, the others at the place of each digit that is not zero.

## Main definitions

* `Word.Based`: the base of a text, and what is behind its mark.
* `Word.Spells`: the number a text spells.

## Main results

* `Word.readDecimal_ok_iff`, `Word.readBinary_ok_iff`: the two readers.
* `Word.read_ok_iff`: a text is a word if it spells its number.
-/

namespace Waybill.Word

/-- The letters behind a zero that mark a text, with the base they stand for. -/
def marks : List (UInt8 × Nat) := [(120, 16), (88, 16), (111, 8), (79, 8), (98, 2), (66, 2)]

/-- The base in which a text is written, and what is behind its mark. -/
inductive Based : Bytes → Nat → Bytes → Prop
  | marked {mark : UInt8} {base : Nat} (h : (mark, base) ∈ marks) (rest : Bytes) :
      Based (48 :: mark :: rest) base rest
  | decimal {text : Bytes} (h : ∀ m ∈ marks, ∀ rest, text ≠ 48 :: m.1 :: rest) : Based text 10 text

/-- A byte is a digit of a base, of either case, with this value. -/
def DigitOf (base : Nat) (b : UInt8) (d : Nat) : Prop := d < base ∧ Hex.lower b = Nat.digitChar d

/-- The bytes of a text that count as digits: all but underscores. -/
def counted (text : Bytes) : Bytes := text.filter (· ≠ 95)

/-- A text spells a number: behind the mark there are digits of its base and underscores. -/
def Spells (text : Bytes) (n : Nat) : Prop :=
  ∃ base rest ds, Based text base rest ∧ List.Forall₂ (DigitOf base) (counted rest) ds ∧
    n = Nat.ofDigits base ds.reverse

/-! ### Digits -/

theorem digitValue?_eq_some_iff {base : Nat} (hbase : base ≤ 16) {b : UInt8} {d : Nat} :
    digitValue? base b = some d ↔ DigitOf base b d := by
  have all : ∀ i : Fin 256, ∀ d : Fin 16,
      digitValue? 16 (UInt8.ofNat i) = some d.val ↔
        Hex.lower (UInt8.ofNat i) = Nat.digitChar d := by
    decide +kernel
  have hsplit : digitValue? base b = some d ↔ d < base ∧ digitValue? 16 b = some d := by
    simp only [digitValue?, Option.filter_eq_some_iff, decide_eq_true_eq]
    constructor
    · rintro ⟨hd, hlt⟩
      exact ⟨hlt, hd, by omega⟩
    · rintro ⟨hlt, hd, -⟩
      exact ⟨hd, hlt⟩
  rw [hsplit, DigitOf]
  refine and_congr_right fun hlt => ?_
  have hd := all ⟨b.toNat, b.toNat_lt⟩ ⟨d, by omega⟩
  rwa [UInt8.ofNat_toNat] at hd

theorem not_digitOf_of_none {base : Nat} (hbase : base ≤ 16) {b : UInt8}
    (h : digitValue? base b = none) (d : Nat) : ¬ DigitOf base b d := by
  rw [← digitValue?_eq_some_iff hbase, h]
  exact nofun

theorem counted_underscore (text : Bytes) : counted (95 :: text) = counted text := rfl

theorem counted_cons {b : UInt8} (h : b ≠ 95) (text : Bytes) :
    counted (b :: text) = b :: counted text := by
  rw [counted, List.filter_cons_of_pos (by simpa using h)]
  rfl

/-- The digits of a text that begins with the digit `d`. -/
theorem digits_cons_iff {base : Nat} (hbase : base ≤ 16) {b : UInt8} {d : Nat}
    (h : digitValue? base b = some d) {text : Bytes} {P : List Nat → Prop} :
    (∃ ds, List.Forall₂ (DigitOf base) (b :: text) ds ∧ P ds) ↔
      ∃ ds, List.Forall₂ (DigitOf base) text ds ∧ P (d :: ds) := by
  constructor
  · rintro ⟨_, hds, hP⟩
    cases hds with
    | @cons _ e _ ds he hds =>
      rw [(digitValue?_eq_some_iff hbase).mpr he, Option.some.injEq] at h
      exact ⟨ds, hds, h ▸ hP⟩
  · rintro ⟨ds, hds, hP⟩
    exact ⟨d :: ds, .cons ((digitValue?_eq_some_iff hbase).mp h) hds, hP⟩

theorem no_digits_cons {base : Nat} (hbase : base ≤ 16) {b : UInt8}
    (h : digitValue? base b = none) {text : Bytes} {P : List Nat → Prop} :
    ¬ ∃ ds, List.Forall₂ (DigitOf base) (b :: text) ds ∧ P ds := by
  rintro ⟨_, hds, -⟩
  cases hds with
  | cons he => exact not_digitOf_of_none hbase h _ he

/-! ### Decimal texts -/

/-- The number read so far with more digits behind it. -/
def extended (base n : Nat) (ds : List Nat) : Nat := ds.foldl (fun n d => n * base + d) n

theorem extended_cons (base n d : Nat) (ds : List Nat) :
    extended base n (d :: ds) = extended base (n * base + d) ds := rfl

theorem extended_zero (base : Nat) (ds : List Nat) :
    extended base 0 ds = Nat.ofDigits base ds.reverse := by
  rw [extended, Nat.ofDigits_eq_foldr, List.foldr_reverse]
  congr 1
  funext n d
  simp [Nat.mul_comm, Nat.add_comm]

/-- More digits do not make a number smaller. -/
theorem le_extended {base : Nat} (hbase : 0 < base) (n : Nat) (ds : List Nat) :
    n ≤ extended base n ds := by
  induction ds generalizing n with
  | nil => exact Nat.le_refl n
  | cons d ds ih =>
    calc n ≤ n * base + d := Nat.le_add_right_of_le (Nat.le_mul_of_pos_right n hbase)
      _ ≤ extended base n (d :: ds) := ih _

theorem joinGroup_ok_iff {value group count n : Nat} :
    joinGroup value group count = .ok n ↔ n = value * 10 ^ count + group ∧ n < 2 ^ 256 := by
  simp only [joinGroup]
  split
  case isTrue h =>
    rw [Except.ok.injEq, eq_comm]
    exact ⟨fun hn => ⟨hn, hn ▸ h⟩, And.left⟩
  case isFalse h => exact ⟨nofun, fun hn => absurd (hn.1 ▸ hn.2) h⟩

/-- The decimal reader goes on from the number read so far, which is the finished value with the
digits of the unfinished group behind it. -/
theorem readDecimal_ok_iff {value group count n : Nat} {text : Bytes} :
    readDecimal value group count text = .ok n ↔
      ∃ ds, List.Forall₂ (DigitOf 10) (counted text) ds ∧
        n = extended 10 (value * 10 ^ count + group) ds ∧ n < 2 ^ 256 := by
  induction text generalizing value group count with
  | nil =>
    rw [readDecimal, joinGroup_ok_iff]
    constructor
    · exact fun h => ⟨[], .nil, h⟩
    · rintro ⟨_, ⟨⟩, h⟩
      exact h
  | cons b text ih =>
    rw [readDecimal]
    by_cases hb : b = 95
    · rw [if_pos hb, hb, ih, counted_underscore]
    rw [if_neg hb, counted_cons hb]
    cases hd : digitValue? 10 b with
    | none => exact ⟨nofun, fun h => absurd h (no_digits_cons (by decide) hd)⟩
    | some d =>
      have hnext : value * 10 ^ (count + 1) + (group * 10 + d) =
          (value * 10 ^ count + group) * 10 + d := by ring
      rw [digits_cons_iff (by decide) hd]
      simp only [extended_cons, ← hnext]
      split
      case isTrue hcount =>
        subst hcount
        cases hjoin : joinGroup value (group * 10 + d) 19 with
        | ok v =>
          obtain ⟨rfl, -⟩ := joinGroup_ok_iff.mp hjoin
          rw [Except.bind, ih, Nat.pow_zero, Nat.mul_one, Nat.add_zero]
        | error e =>
          -- A finished group that is too large leaves no room for the digits behind it.
          refine ⟨nofun, fun ⟨ds, _, hn, hlt⟩ => ?_⟩
          have hle : _ ≤ extended 10 _ ds := le_extended (by decide) (value * 10 ^ 19 + (group * 10 + d)) ds
          have hok := joinGroup_ok_iff.mpr ⟨rfl, Nat.lt_of_le_of_lt hle (hn ▸ hlt)⟩
          cases hjoin.symm.trans hok
      case isFalse => exact ih

/-! ### Texts in a base that is a power of two -/

/-- A digit that is not zero has its place among the first 256 bits if it fits. -/
theorem place_lt_of_digit {d place : Nat} (hd : 0 < d) (h : d * 2 ^ place < 2 ^ 256) :
    place < 256 :=
  (Nat.pow_lt_pow_iff_right (a := 2) (by decide)).mp
    (Nat.lt_of_le_of_lt (Nat.le_mul_of_pos_left _ hd) h)

/-- A digit and the number of the digits after it fit together if each of them fits: the digit
fills only bits below those of the number. -/
theorem fits_cons {bits place d m : Nat} (hd : d < 2 ^ bits) :
    2 ^ place * (d + 2 ^ bits * m) < 2 ^ 256 ↔
      d * 2 ^ place < 2 ^ 256 ∧ 2 ^ (place + bits) * m < 2 ^ 256 := by
  have hsum : 2 ^ place * (d + 2 ^ bits * m) = d * 2 ^ place + 2 ^ (place + bits) * m := by ring
  rw [hsum]
  refine ⟨fun h => ⟨by omega, by omega⟩, fun ⟨hlow, hhigh⟩ => ?_⟩
  rcases Nat.eq_zero_or_pos m with rfl | hm
  · simpa using hlow
  -- Both the high part and the bound are multiples of the place after the digit.
  have hplace : place + bits < 256 := place_lt_of_digit hm (Nat.mul_comm _ _ ▸ hhigh)
  obtain ⟨k, hk⟩ : ∃ k, 256 = place + bits + k := ⟨256 - (place + bits), by omega⟩
  have hdigit : d * 2 ^ place < 2 ^ (place + bits) := by
    rw [Nat.pow_add, Nat.mul_comm]
    exact Nat.mul_lt_mul_of_pos_left hd (Nat.two_pow_pos place)
  rw [hk, Nat.pow_add 2 (place + bits) k] at hhigh ⊢
  have hm' : m + 1 ≤ 2 ^ k := Nat.lt_of_mul_lt_mul_left hhigh
  calc d * 2 ^ place + 2 ^ (place + bits) * m
      < 2 ^ (place + bits) + 2 ^ (place + bits) * m := Nat.add_lt_add_right hdigit _
    _ = 2 ^ (place + bits) * (m + 1) := by ring
    _ ≤ 2 ^ (place + bits) * 2 ^ k := Nat.mul_le_mul_left _ hm'

/-- The reader adds each digit at its place, the last digit first. -/
theorem readBinary_ok_iff {bits place value n : Nat} (hbits : 2 ^ bits ≤ 16) {text : Bytes} :
    readBinary bits place value text = .ok n ↔
      ∃ ds, List.Forall₂ (DigitOf (2 ^ bits)) (counted text) ds ∧
        n = value + 2 ^ place * Nat.ofDigits (2 ^ bits) ds ∧
        2 ^ place * Nat.ofDigits (2 ^ bits) ds < 2 ^ 256 := by
  induction text generalizing place value with
  | nil =>
    rw [readBinary, Except.ok.injEq, eq_comm]
    constructor
    · rintro rfl
      exact ⟨[], .nil, by simp, by simp⟩
    · rintro ⟨_, ⟨⟩, hn, -⟩
      simpa using hn
  | cons b text ih =>
    rw [readBinary]
    by_cases hb : b = 95
    · rw [if_pos hb, hb, ih, counted_underscore]
    rw [if_neg hb, counted_cons hb]
    cases hd : digitValue? (2 ^ bits) b with
    | none => exact ⟨fun h => (by cases h), fun h => absurd h (no_digits_cons hbits hd)⟩
    | some d =>
      have hlt : d < 2 ^ bits := ((digitValue?_eq_some_iff hbits).mp hd).1
      have hsum : ∀ m, value + 2 ^ place * (d + 2 ^ bits * m) =
          value + d * 2 ^ place + 2 ^ (place + bits) * m := fun m => by ring
      rw [digits_cons_iff hbits hd]
      simp only [Nat.ofDigits_cons, fits_cons hlt, hsum]
      cases d with
      | zero => simpa using ih
      | succ d =>
        by_cases hroom : (d + 1) * 2 ^ place < 2 ^ 256
        · have hfits : ¬ (256 ≤ place ∨ 2 ^ 256 ≤ (d + 1) * 2 ^ place) := by
            have := place_lt_of_digit (Nat.succ_pos d) hroom
            omega
          simp only [if_neg hfits, hroom, true_and]
          exact ih
        · have hfull : 256 ≤ place ∨ 2 ^ 256 ≤ (d + 1) * 2 ^ place := .inr (Nat.not_lt.mp hroom)
          simp only [if_pos hfull, hroom, false_and, and_false, exists_false, reduceCtorEq]

/-- From the last digit on, the reader finds the number that the digits spell. -/
theorem readBinary_reverse_ok_iff {bits n : Nat} (hbits : 2 ^ bits ≤ 16) {rest : Bytes} :
    readBinary bits 0 0 rest.reverse = .ok n ↔
      (∃ ds, List.Forall₂ (DigitOf (2 ^ bits)) (counted rest) ds ∧
        n = Nat.ofDigits (2 ^ bits) ds.reverse) ∧ n < 2 ^ 256 := by
  have hcounted : counted rest.reverse = (counted rest).reverse := List.filter_reverse
  simp only [readBinary_ok_iff hbits, Nat.pow_zero, Nat.one_mul, Nat.zero_add, hcounted]
  constructor
  · rintro ⟨ds, hds, rfl, hlt⟩
    refine ⟨⟨ds.reverse, ?_, by rw [List.reverse_reverse]⟩, hlt⟩
    rwa [← List.forall₂_reverse_iff, List.reverse_reverse]
  · rintro ⟨⟨ds, hds, rfl⟩, hlt⟩
    exact ⟨ds.reverse, List.forall₂_reverse_iff.mpr hds, rfl, hlt⟩

/-! ### All texts -/

/-- A text is written in one base only. -/
theorem Based.unique {text rest rest' : Bytes} {base base' : Nat} (h : Based text base rest)
    (h' : Based text base' rest') : base = base' ∧ rest = rest' := by
  have hmarks : ∀ m ∈ marks, ∀ m' ∈ marks, m.1 = m'.1 → m.2 = m'.2 := by decide
  cases h with
  | marked hm =>
    cases h' with
    | marked hm' => exact ⟨hmarks _ hm _ hm' rfl, rfl⟩
    | decimal hnone => exact absurd rfl (hnone _ hm _)
  | decimal hnone =>
    cases h' with
    | marked hm => exact absurd rfl (hnone _ hm _)
    | decimal => exact ⟨rfl, rfl⟩

/-- What a text in a known base spells. -/
theorem Based.spells_iff {text rest : Bytes} {base n : Nat} (h : Based text base rest) :
    Spells text n ↔ ∃ ds, List.Forall₂ (DigitOf base) (counted rest) ds ∧
      n = Nat.ofDigits base ds.reverse := by
  constructor
  · rintro ⟨_, _, ds, hbased, hds, hn⟩
    obtain ⟨rfl, rfl⟩ := h.unique hbased
    exact ⟨ds, hds, hn⟩
  · rintro ⟨ds, hds, hn⟩
    exact ⟨base, rest, ds, h, hds, hn⟩

/-- What a text with the mark of a power of two spells. -/
theorem readBinary_marked_iff {mark : UInt8} {bits n : Nat} (hm : (mark, 2 ^ bits) ∈ marks)
    (hbits : 2 ^ bits ≤ 16) (rest : Bytes) :
    readBinary bits 0 0 rest.reverse = .ok n ↔ Spells (48 :: mark :: rest) n ∧ n < 2 ^ 256 := by
  rw [readBinary_reverse_ok_iff hbits, (Based.marked hm rest).spells_iff]

/-- The number that is read is the one the text spells, and it is below `2 ^ 256`. -/
theorem readNat_ok_iff {text : Bytes} {n : Nat} :
    readNat text = .ok n ↔ Spells text n ∧ n < 2 ^ 256 := by
  fun_cases readNat text with
  | case1 rest => exact readBinary_marked_iff (by decide) (by decide) rest
  | case2 rest => exact readBinary_marked_iff (by decide) (by decide) rest
  | case3 rest => exact readBinary_marked_iff (by decide) (by decide) rest
  | case4 rest => exact readBinary_marked_iff (by decide) (by decide) rest
  | case5 rest => exact readBinary_marked_iff (by decide) (by decide) rest
  | case6 rest => exact readBinary_marked_iff (by decide) (by decide) rest
  | case7 _ h₁ h₂ h₃ h₄ h₅ h₆ =>
    have hbased : Based text 10 text := .decimal (by simpa [marks] using ⟨h₁, h₂, h₃, h₄, h₅, h₆⟩)
    rw [readDecimal_ok_iff, hbased.spells_iff, Nat.zero_mul, Nat.zero_add]
    simp only [extended_zero, ← exists_and_right, and_assoc]

/-- A text is a word if it spells the number of the word. -/
theorem read_ok_iff {s : String} {w : Word} :
    read s = .ok w ↔ Spells (Text.utf8 s) w.toNat := by
  rw [read]
  constructor
  · intro h
    cases hn : readNat (Text.utf8 s) with
    | error f => simp [hn, Except.map] at h
    | ok n =>
      obtain ⟨hspells, hlt⟩ := readNat_ok_iff.mp hn
      obtain rfl : BitVec.ofNat 256 n = w := by simpa [hn, Except.map] using h
      rwa [BitVec.toNat_ofNat, Nat.mod_eq_of_lt hlt]
  · intro h
    rw [readNat_ok_iff.mpr ⟨h, w.isLt⟩, Except.map, BitVec.ofNat_toNat, BitVec.setWidth_eq]

end Waybill.Word
