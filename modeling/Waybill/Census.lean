import Waybill.Ordered.Map
import Waybill.Message.ByState
import Waybill.Task.Basic
/-!
# Census

Stored messages are counted by state, over all and by the domain they come from. A scan reads the
store page by page; a page that is not full is the last one.
-/

namespace Waybill

/-- Message counts by state, over all and by origin. -/
structure Census where
  total : ByState Nat
  domains : SortedMap UInt32 (ByState Nat)

namespace Census

/-- The sum of the counts of all states. -/
def sum (c : ByState Nat) : Nat := c.toList.foldr (· + ·) 0

/-- No message counted yet. The given domains are reported even without one. -/
def ofDomains (ids : List UInt32) : Census where
  total := .all 0
  domains := ids.foldl (fun m id => m.insert id (.all 0)) SortedMap.empty

/-- Counts a record. One with an unknown state is left out. -/
def add (c : Census) (r : Record) : Census :=
  match State.ofCode? r.state with
  | none => c
  | some s => {
      total := c.total.modify s (· + 1)
      domains := c.domains.modify r.origin (.all 0) fun d => d.modify s (· + 1) }

/-- Counts records. -/
def addAll (c : Census) (rs : List Record) : Census := rs.foldl add c

/-- Scans the store from an offset on in pages of a positive size. The scan ends at the latest
where an offset would have more than 64 bits. -/
def scan (size : Nat) (positive : 0 < size) (offset : Nat) (c : Census) : Task Census :=
  .ask (.page (UInt64.ofNat size) (UInt64.ofNat offset)) fun page =>
    let c := c.addAll page
    if page.length < size then .done c
    else if offset + size < 2 ^ 64 then scan size positive (offset + size) c
    else .done c
termination_by 2 ^ 64 - offset

/-- Counts all stored messages, reading at most `batch` of them at a time and at least one. -/
def take (known : List UInt32) (batch : UInt64) : Task Census :=
  scan (max batch.toNat 1) (by omega) 0 (ofDomains known)

end Census

end Waybill
