/-!
# Keys in a fixed strict order

A map that is listed in key order needs a strict total order on its keys that can be decided.
Texts are compared character by character by code point, which is also the order of their
UTF-8 bytes; pairs are compared by their first component and then by their second.
-/

namespace Waybill

/-- A decidable strict total order on keys. -/
class OrderedKey (κ : Type) where
  /-- Whether the first key comes strictly before the second. -/
  before : κ → κ → Bool
  before_irrefl : ∀ a, before a a = false
  before_trans : ∀ {a b c}, before a b = true → before b c = true → before a c = true
  eq_of_not_before : ∀ {a b}, before a b = false → before b a = false → a = b

namespace OrderedKey

theorem before_asymm {κ : Type} [OrderedKey κ] {a b : κ} (h : before a b = true) :
    before b a = false := by
  cases hba : before b a with
  | false => rfl
  | true => exact absurd (before_trans h hba) (by simp [before_irrefl])

instance : OrderedKey UInt32 where
  before a b := decide (a.toNat < b.toNat)
  before_irrefl a := by simp
  before_trans h₁ h₂ := by
    simp only [decide_eq_true_eq] at *
    omega
  eq_of_not_before h₁ h₂ := by
    simp only [decide_eq_false_iff_not] at *
    exact UInt32.toNat_inj.mp (by omega)

/-- Lexicographic order on characters by code point; a proper beginning of a text comes first. -/
def charsBefore : List Char → List Char → Bool
  | _, [] => false
  | [], _ :: _ => true
  | a :: as, b :: bs => decide (a.toNat < b.toNat) || (a == b && charsBefore as bs)

theorem charsBefore_irrefl (as : List Char) : charsBefore as as = false := by
  induction as with
  | nil => rfl
  | cons a as ih => simp [charsBefore, ih]

theorem charsBefore_trans {as bs cs : List Char} (h₁ : charsBefore as bs = true)
    (h₂ : charsBefore bs cs = true) : charsBefore as cs = true := by
  induction as generalizing bs cs with
  | nil => cases cs with
    | nil => cases bs <;> simp [charsBefore] at h₂
    | cons c cs => rfl
  | cons a as ih =>
    cases bs with
    | nil => simp [charsBefore] at h₁
    | cons b bs =>
      cases cs with
      | nil => simp [charsBefore] at h₂
      | cons c cs =>
        simp only [charsBefore, Bool.or_eq_true, decide_eq_true_eq, Bool.and_eq_true,
          beq_iff_eq] at *
        rcases h₁ with h₁ | ⟨rfl, h₁⟩ <;> rcases h₂ with h₂ | ⟨rfl, h₂⟩
        · exact .inl (by omega)
        · exact .inl h₁
        · exact .inl h₂
        · exact .inr ⟨rfl, ih h₁ h₂⟩

theorem eq_of_not_charsBefore {as bs : List Char} (h₁ : charsBefore as bs = false)
    (h₂ : charsBefore bs as = false) : as = bs := by
  induction as generalizing bs with
  | nil => cases bs with
    | nil => rfl
    | cons b bs => simp [charsBefore] at h₁
  | cons a as ih =>
    cases bs with
    | nil => simp [charsBefore] at h₂
    | cons b bs =>
      simp only [charsBefore, Bool.or_eq_false_iff, decide_eq_false_iff_not] at h₁ h₂
      have hab : a = b := Char.toNat_inj.mp (by omega)
      subst hab
      simp only [beq_self_eq_true, Bool.true_and] at h₁ h₂
      rw [ih h₁.2 h₂.2]

instance : OrderedKey String where
  before a b := charsBefore a.toList b.toList
  before_irrefl a := charsBefore_irrefl a.toList
  before_trans := charsBefore_trans
  eq_of_not_before h₁ h₂ := String.toList_inj.mp (eq_of_not_charsBefore h₁ h₂)

instance {κ μ : Type} [DecidableEq κ] [OrderedKey κ] [OrderedKey μ] : OrderedKey (κ × μ) where
  before a b := before a.1 b.1 || (decide (a.1 = b.1) && before a.2 b.2)
  before_irrefl a := by simp [before_irrefl]
  before_trans {a b c} h₁ h₂ := by
    simp only [Bool.or_eq_true, Bool.and_eq_true, decide_eq_true_eq] at *
    rcases h₁ with h₁ | ⟨e₁, h₁⟩ <;> rcases h₂ with h₂ | ⟨e₂, h₂⟩
    · exact .inl (before_trans h₁ h₂)
    · exact .inl (e₂ ▸ h₁)
    · exact .inl (e₁ ▸ h₂)
    · exact .inr ⟨e₁.trans e₂, before_trans h₁ h₂⟩
  eq_of_not_before {a b} h₁ h₂ := by
    simp only [Bool.or_eq_false_iff] at h₁ h₂
    have e : a.1 = b.1 := eq_of_not_before h₁.1 h₂.1
    have e₁ : before a.2 b.2 = false := by simpa [e] using h₁.2
    have e₂ : before b.2 a.2 = false := by simpa [e] using h₂.2
    exact Prod.ext e (eq_of_not_before e₁ e₂)

end OrderedKey

end Waybill
