import Waybill.Settings
import Waybill.Task.Basic
/-!
# Inboxes

An observer reads notices at its own pace. A bounded number of the latest ones is kept for it; it
is told how many older ones it missed.
-/

namespace Waybill

namespace Signal

/-- The notices among signals, in their order. -/
def notices (xs : List Signal) : List Notice :=
  xs.filterMap fun
    | noted n => some n
    | _ => none

end Signal

/-- What an observer reads at one time. -/
structure Inbox where
  /-- How many notices were not kept. -/
  missed : Nat
  notices : List Notice

namespace Inbox

/-- How many notices are kept: the least power of two that is not below the setting. -/
def capacity (s : TrackerSettings) : Nat := (max s.notificationCapacity.toNat 1).nextPowerOfTwo

/-- What an observer reads after the given notices. -/
def read (capacity : Nat) (sent : List Notice) : Inbox :=
  let missed := sent.length - capacity
  ⟨missed, sent.drop missed⟩

end Inbox

end Waybill
