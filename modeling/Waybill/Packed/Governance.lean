import Waybill.Packed.Field
/-!
# Governance actions

A governance message either carries the hash of a batch of calls (action byte 1) or hands the
office of governor to an account of a domain (action byte 2).
-/

namespace Waybill

/-- An action of the governance router. -/
inductive Governance where
  | batch (batchHash : Digest)
  | transferGovernor (domain : UInt32) (governor : Identifier)
deriving DecidableEq

namespace Governance

theorem governor_fits {rest : Bytes} (h : rest.length = 36) : 4 + 32 ≤ rest.length := by
  omega

/-- Reads an action: a missing action byte is noticed first, then an unknown one, then a wrong
number of bytes after it. -/
def decode (raw : Bytes) : Except Packed.Fault Governance :=
  match raw with
  | [] => .error (.tooShort .governance 1 0)
  | action :: rest =>
    if action = 1 then
      if h : rest.length = 32 then .ok (.batch ⟨rest, h⟩)
      else .error (.wrongLength .governance 33 raw.length)
    else if action = 2 then
      if h : rest.length = 36 then
        .ok (.transferGovernor (Bytes.field rest 0 4).toUInt32 (Bytes.identifierAt rest 4 (governor_fits h)))
      else .error (.wrongLength .governance 37 raw.length)
    else .error (.unknownAction .governance action)

/-- The bytes of an action. -/
def encode : Governance → Bytes
  | batch hash => 1 :: hash.bytes
  | transferGovernor domain governor => 2 :: (Bytes.ofUInt32 domain ++ governor.bytes)

end Governance

end Waybill
