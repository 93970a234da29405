import Waybill.Word
import Waybill.Identifier
/-!
# Fields of packed bodies

Message bodies are packed without separators: every field has a fixed place and width, and
numbers have their most significant byte first.
-/

namespace Waybill

/-- The packed formats. -/
inductive Packed.Format where
  | envelope
  | transfer
  | governance
deriving DecidableEq, Repr

/-- Why bytes do not follow a packed format. -/
inductive Packed.Fault where
  /-- There are fewer bytes than the format needs. -/
  | tooShort (format : Packed.Format) (expected actual : Nat)
  /-- The number of bytes is not the one the format fixes. -/
  | wrongLength (format : Packed.Format) (expected actual : Nat)
  /-- The action byte is none that the format knows. -/
  | unknownAction (format : Packed.Format) (action : UInt8)
deriving DecidableEq, Repr

namespace Packed

/-- The name of a format in error messages. -/
def Format.name : Format → String
  | envelope => "envelope"
  | transfer => "transfer"
  | governance => "governance"

/-- The wording of a fault. -/
def Fault.message : Fault → String
  | tooShort f e a => s!"{f.name}: expected at least {Text.decimal e} bytes, got {Text.decimal a}"
  | wrongLength f e a => s!"{f.name}: expected exactly {Text.decimal e} bytes, got {Text.decimal a}"
  | unknownAction f a => s!"{f.name}: unknown action type {Text.decimal a.toNat}"

end Packed

namespace Bytes

/-- The `width` bytes from `start` on. -/
def field (bs : Bytes) (start width : Nat) : Bytes := (bs.drop start).take width

theorem length_field {bs : Bytes} {start width : Nat} (h : start + width ≤ bs.length) :
    (bs.field start width).length = width := by
  simp only [field, List.length_take, List.length_drop]
  omega

/-- The 32-bit number that bytes spell. -/
def toUInt32 (bs : Bytes) : UInt32 := UInt32.ofNat (toNat bs)

/-- The four bytes of a 32-bit number. -/
def ofUInt32 (n : UInt32) : Bytes := ofNat 4 n.toNat

/-- The identifier in the 32 bytes from `start` on. -/
def identifierAt (bs : Bytes) (start : Nat) (h : start + 32 ≤ bs.length) : Identifier :=
  ⟨bs.field start 32, length_field h⟩

/-- The digest in the 32 bytes from `start` on. -/
def digestAt (bs : Bytes) (start : Nat) (h : start + 32 ≤ bs.length) : Digest :=
  ⟨bs.field start 32, length_field h⟩

end Bytes

end Waybill
