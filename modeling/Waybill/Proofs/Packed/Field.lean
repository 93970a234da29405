import Waybill.Packed.Field
import Mathlib.Data.List.Induction
/-!
# Fields of packed bodies, read and written

A number of fixed width is determined by its bytes and determines them. Bytes are a field and what
comes before and after it, so they can be read off from the front field after field, and what is
written one after the other is found in its place.

## Main definitions

* `Packed.Reader`: reading off the front of bytes, which may meet a fault or run past the end.

## Main results

* `Bytes.ofNat_toNat`: bytes are written back from the number they spell.
* `Bytes.field_append_drop`, `Bytes.field_of_drop_eq`: fields and the bytes they are part of.
* `Packed.number_bind`, `Packed.digest_bind` and the like: within the bytes a reader gives the field
  at its place.
-/

namespace Waybill

namespace Bytes

/-! ### Numbers -/

theorem toNat_lt (bs : Bytes) : toNat bs < 256 ^ bs.length := by
  induction bs using List.reverseRecOn with
  | nil => decide
  | append_singleton bs b ih =>
    rw [toNat_append_singleton, List.length_append, List.length_singleton, Nat.pow_succ]
    have hb : b.toNat < 256 := b.toNat_lt
    omega

/-- Bytes are written back from the number they spell. -/
theorem ofNat_toNat (bs : Bytes) : ofNat bs.length (toNat bs) = bs := by
  induction bs using List.reverseRecOn with
  | nil => rfl
  | append_singleton bs b ih =>
    have hb : b.toNat < 256 := b.toNat_lt
    have hhigh : (toNat bs * 256 + b.toNat) / 256 = toNat bs := by omega
    have hlow : UInt8.ofNat (toNat bs * 256 + b.toNat) = b := by
      rw [← UInt8.toNat_inj, UInt8.toNat_ofNat']
      omega
    rw [toNat_append_singleton, List.length_append, List.length_singleton, ofNat, hhigh, hlow, ih]

@[simp] theorem length_ofUInt32 (n : UInt32) : (ofUInt32 n).length = 4 := length_ofNat 4 _

@[simp] theorem toUInt32_ofUInt32 (n : UInt32) : (ofUInt32 n).toUInt32 = n := by
  have hn : n.toNat < 256 ^ 4 := n.toNat_lt
  rw [toUInt32, ofUInt32, toNat_ofNat, Nat.mod_eq_of_lt hn, UInt32.ofNat_toNat]

theorem ofUInt32_toUInt32 {bs : Bytes} (h : bs.length = 4) : ofUInt32 bs.toUInt32 = bs := by
  have hlt : toNat bs < UInt32.size := by
    have := toNat_lt bs
    rwa [h] at this
  rw [ofUInt32, toUInt32, UInt32.toNat_ofNat_of_lt' hlt, ← h, ofNat_toNat]

end Bytes

namespace Word

@[simp] theorem length_toBytes (w : Word) : w.toBytes.length = 32 := Bytes.length_ofNat 32 _

@[simp] theorem ofBytes_toBytes (w : Word) : ofBytes w.toBytes = w := by
  have hw : w.toNat < 256 ^ 32 := w.isLt
  rw [ofBytes, toBytes, Bytes.toNat_ofNat, Nat.mod_eq_of_lt hw, BitVec.ofNat_toNat,
    BitVec.setWidth_eq]

theorem toBytes_ofBytes {bs : Bytes} (h : bs.length = 32) : (ofBytes bs).toBytes = bs := by
  have hlt : Bytes.toNat bs < 2 ^ 256 := by
    have := Bytes.toNat_lt bs
    rwa [h] at this
  rw [toBytes, ofBytes, BitVec.toNat_ofNat, Nat.mod_eq_of_lt hlt, ← h, Bytes.ofNat_toNat]

end Word

/-! ### Fields and the bytes they are part of -/

namespace Bytes

variable {raw a rest : Bytes} {start width : Nat}

/-- From a place on, bytes are a field and what comes after it. -/
theorem field_append_drop (raw : Bytes) (start width : Nat) :
    raw.field start width ++ raw.drop (start + width) = raw.drop start := by
  rw [field, ← List.drop_drop, List.take_append_drop]

/-- The last field is all that is left. -/
theorem field_eq_drop (raw : Bytes) (start : Nat) (h : raw.length = start + width) :
    raw.field start width = raw.drop start := by
  refine List.take_of_length_le ?_
  rw [List.length_drop]
  omega

/-- What is written from a place on is the field there. -/
theorem field_of_drop_eq (h : raw.drop start = a ++ rest) (ha : a.length = width) :
    raw.field start width = a := by
  rw [field, h, ← ha, List.take_left]

theorem drop_of_drop_eq (h : raw.drop start = a ++ rest) (ha : a.length = width) :
    raw.drop (start + width) = rest := by
  rw [← List.drop_drop, h, ← ha, List.drop_left]

theorem getElem_of_drop_eq {b : UInt8} (h : raw.drop start = b :: rest) (hlt : start < raw.length) :
    raw[start] = b := by
  rw [List.drop_eq_getElem_cons hlt] at h
  exact (List.cons.inj h).1

theorem toUInt32_of_drop_eq {n : UInt32} (h : raw.drop start = ofUInt32 n ++ rest) :
    (raw.field start 4).toUInt32 = n := by
  rw [field_of_drop_eq h (length_ofUInt32 n), toUInt32_ofUInt32]

theorem digestAt_of_drop_eq {d : Digest} (h : raw.drop start = d.bytes ++ rest)
    (hlen : start + 32 ≤ raw.length) : raw.digestAt start hlen = d := by
  obtain ⟨bs, hbs⟩ := d
  simp only [digestAt, field_of_drop_eq h hbs]

theorem identifierAt_of_drop_eq {p : Identifier} (h : raw.drop start = p.bytes ++ rest)
    (hlen : start + 32 ≤ raw.length) : raw.identifierAt start hlen = p :=
  Identifier.bytes_inj.mp (field_of_drop_eq h p.length_eq)

theorem word_of_drop_eq {w : Word} (h : raw.drop start = w.toBytes ++ rest) :
    Word.ofBytes (raw.field start 32) = w := by
  rw [field_of_drop_eq h w.length_toBytes, Word.ofBytes_toBytes]

end Bytes

/-! ### Reading off the front -/

namespace Packed

variable {α β : Type}

/-- Reading off the front of bytes: it gives a value and leaves the rest of the bytes, or meets a
fault. There is neither if it runs past the end. -/
abbrev Reader (α : Type) := StateT Bytes (ExceptT Fault Option) α

/-- The next bytes. -/
def take (width : Nat) : Reader Bytes := fun raw =>
  if width ≤ raw.length then some (.ok (raw.take width, raw.drop width)) else none

/-- The next byte. -/
def byte : Reader UInt8
  | [] => none
  | b :: rest => some (.ok (b, rest))

/-- The next 32 bytes as a digest. -/
def digest : Reader Digest := fun raw =>
  if h : 0 + 32 ≤ raw.length then some (.ok (raw.digestAt 0 h, raw.drop 32)) else none

/-- The next 32 bytes as an identifier. -/
def identifier : Reader Identifier := do
  return .ofDigest (← digest)

/-- The next four bytes as a number. -/
def number : Reader UInt32 := do
  return (← take 4).toUInt32

/-- The next 32 bytes as a word. -/
def word : Reader Word := do
  return .ofBytes (← take 32)

/-- All that is left. -/
def remainder : Reader Bytes := fun raw => some (.ok (raw, []))

/-- Ends with a fault. -/
def refuse (f : Fault) : Reader α := fun _ => some (.error f)

/-- Reading goes on with what was read. -/
theorem bind_of_ok {x : Reader α} {f : α → Reader β} {raw rest : Bytes} {a : α}
    (h : x raw = some (.ok (a, rest))) : (x >>= f) raw = f a rest := by
  change ((x raw : Option (Except Fault (α × Bytes))).bind fun r => _) = _
  rw [h]
  rfl

section Places

variable {raw : Bytes} {start width : Nat}

theorem take_drop (h : start + width ≤ raw.length) :
    take width (raw.drop start) = some (.ok (raw.field start width, raw.drop (start + width))) := by
  have hleft : width ≤ (raw.drop start).length := by
    rw [List.length_drop]
    omega
  rw [take, if_pos hleft, List.drop_drop]
  rfl

theorem digest_drop (h : start + 32 ≤ raw.length) :
    digest (raw.drop start) = some (.ok (raw.digestAt start h, raw.drop (start + 32))) := by
  have hleft : 0 + 32 ≤ (raw.drop start).length := by
    rw [List.length_drop]
    omega
  rw [digest, dif_pos hleft, List.drop_drop]
  rfl

theorem number_bind {f : UInt32 → Reader α} (h : start + 4 ≤ raw.length) :
    (number >>= f) (raw.drop start) = f (raw.field start 4).toUInt32 (raw.drop (start + 4)) :=
  bind_of_ok (bind_of_ok (take_drop h))

theorem word_bind {f : Word → Reader α} (h : start + 32 ≤ raw.length) :
    (word >>= f) (raw.drop start) =
      f (.ofBytes (raw.field start 32)) (raw.drop (start + 32)) :=
  bind_of_ok (bind_of_ok (take_drop h))

theorem digest_bind {f : Digest → Reader α} (h : start + 32 ≤ raw.length) :
    (digest >>= f) (raw.drop start) = f (raw.digestAt start h) (raw.drop (start + 32)) :=
  bind_of_ok (digest_drop h)

theorem identifier_bind {f : Identifier → Reader α} (h : start + 32 ≤ raw.length) :
    (identifier >>= f) (raw.drop start) = f (raw.identifierAt start h) (raw.drop (start + 32)) :=
  bind_of_ok (bind_of_ok (digest_drop h))

theorem byte_bind {f : UInt8 → Reader α} (h : start < raw.length) :
    (byte >>= f) (raw.drop start) = f raw[start] (raw.drop (start + 1)) := by
  refine bind_of_ok ?_
  rw [List.drop_eq_getElem_cons h]
  rfl

end Places

end Packed

end Waybill
