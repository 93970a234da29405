import Waybill.Power
/-!
# Numbers as fixed runs of bytes

Packed bodies and 256-bit words are written with the most significant byte first. Writing a
number in `n` bytes keeps it modulo `256 ^ n` and reading the bytes back gives that remainder.
-/

namespace Waybill

/-- A run of bytes. -/
abbrev Bytes := List UInt8

namespace Bytes

/-- The number that bytes spell, most significant first. -/
def toNat (bs : Bytes) : Nat :=
  bs.foldl (fun n b => n * 256 + b.toNat) 0

/-- The last `n` bytes of a number, most significant first. -/
def ofNat : (n : Nat) → Nat → Bytes
  | 0, _ => []
  | n + 1, v => ofNat n (v / 256) ++ [UInt8.ofNat v]

@[simp] theorem length_ofNat (n v : Nat) : (ofNat n v).length = n := by
  induction n generalizing v with
  | zero => rfl
  | succ n ih => simp [ofNat, ih]

theorem toNat_append_singleton (bs : Bytes) (b : UInt8) :
    toNat (bs ++ [b]) = toNat bs * 256 + b.toNat := by
  simp [toNat]

theorem toNat_ofNat (n v : Nat) : toNat (ofNat n v) = v % 256 ^ n := by
  induction n generalizing v with
  | zero => simp [ofNat, toNat, Nat.mod_one]
  | succ n ih =>
    have hp : 256 ^ (n + 1) = 256 * 256 ^ n := by rw [Nat.pow_succ, Nat.mul_comm]
    rw [ofNat, toNat_append_singleton, ih, UInt8.toNat_ofNat', hp, Nat.mod_mul]
    omega

/-- Bytes compared from the left, a proper beginning first. -/
def order : Bytes → Bytes → Ordering
  | [], [] => .eq
  | [], _ :: _ => .lt
  | _ :: _, [] => .gt
  | a :: as, b :: bs =>
    if a.toNat < b.toNat then .lt else if b.toNat < a.toNat then .gt else order as bs

end Bytes

end Waybill
