import Waybill.Record.Basic
import Waybill.Event.Basic
/-!
# Failures

Why work on an event, or a question put to the stores, ends without an answer. What a layer below
reports in its own words is named by that layer only, in angle brackets.
-/

namespace Waybill

/-- Why a task ends early. -/
inductive Failure where
  /-- A sending of tokens was to be attached to a message that is no transfer. -/
  | notTransfer (hash : Digest)
  /-- A record is no message, or a row no record. -/
  | badRecord (fault : Record.Fault)
  /-- What is kept in the pool under this key cannot be read. -/
  | corruptedEntry (bucket key : String)
  /-- A record with this hash is already stored. -/
  | alreadyStored (hash : String)
  /-- The database already has a row with the same key. -/
  | uniqueViolation
  /-- The database cannot carry out the statement. -/
  | database
  /-- A page of the database was asked for beyond what a column can count. -/
  | pageOutOfRange
  /-- The store refuses this call. -/
  | refused (call : String)
deriving DecidableEq

/-- The wording of a failure. -/
def Failure.message : Failure → String
  | notTransfer hash => s!"message {hash.text} is not a transfer message"
  | badRecord fault => fault.message
  | corruptedEntry bucket key => s!"corrupted pool entry {bucket}/{key}: <json>"
  | alreadyStored hash => s!"message {hash} already exists"
  | uniqueViolation => "<db>"
  | database => "<db>"
  | pageOutOfRange => "page out of range"
  | refused call => s!"refused {call}"

/-- A batch ended at an event. -/
structure Rejection where
  event : Event
  failure : Failure
deriving DecidableEq

/-- The wording of a rejection. -/
def Rejection.message (r : Rejection) : String :=
  s!"failed to consume {r.event.kind.name} event from domain {Text.decimal r.event.domain.toNat} " ++
    s!"(tx {r.event.tx.text}): {r.failure.message}"

end Waybill
