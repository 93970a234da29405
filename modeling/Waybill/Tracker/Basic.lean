import Waybill.Settings
import Waybill.Tracker.Batch
import Waybill.Census
/-!
# Trackers

A tracker works under one network and one choice of settings. It knows the configured domains and
those it saw a dispatch from. It lives as long as neither the network nor the settings change; the
stores outlive it.
-/

namespace Waybill

/-- What a tracker holds beside the stores. -/
structure Tracker where
  network : Network
  settings : TrackerSettings
  /-- The domains known by now. -/
  known : SortedMap UInt32 Unit

namespace Tracker

/-- A tracker at its start. -/
def new (net : Network) (settings : TrackerSettings) : Tracker :=
  ⟨net, settings, net.ids.foldl (fun m id => m.insert id ()) SortedMap.empty⟩

/-- A tracker at its start, if it can be set up with the settings. -/
def start? (net : Network) (settings : TrackerSettings) : Option Tracker :=
  if settings.isFeasible then some (new net settings) else none

/-- The known domains in increasing order. -/
def domains (t : Tracker) : List UInt32 := t.known.keys

/-- Takes note of a signal. -/
def hear (t : Tracker) : Signal → Tracker
  | .sighted id => { t with known := t.known.insert id () }
  | _ => t

/-- Takes note of signals. -/
def hearAll (t : Tracker) (xs : List Signal) : Tracker := xs.foldl hear t

/-- Counts all stored messages. -/
def census (t : Tracker) : Task Census := Census.take t.domains t.settings.statsBatchSize

end Tracker

end Waybill
