import Waybill.Json.Reader
import Waybill.Json.Fields
/-!
# Settings

How a tracker works: how many records may be written at once, how many records a scan reads at a
time, and how many notices are kept for a slow observer. Unknown members are refused.
-/

namespace Waybill

/-- The settings of a tracker. -/
structure TrackerSettings where
  /-- How many record updates may be under way at once. -/
  writeConcurrency : UInt64
  /-- How many records a statistics scan reads at a time. -/
  statsBatchSize : UInt64
  /-- How many notices are kept for an observer. -/
  notificationCapacity : UInt64
deriving DecidableEq, Repr

namespace TrackerSettings

/-- The settings that hold where nothing is set. -/
def standard : TrackerSettings := ⟨10, 10000, 1024⟩

/-- Whether a tracker can be set up: no more than `2 ^ 61 - 1` updates can be told apart, and no more
than `2 ^ 53` notices can be kept. -/
def isFeasible (s : TrackerSettings) : Bool :=
  decide (s.writeConcurrency.toNat < 2 ^ 61) && decide (s.notificationCapacity.toNat ≤ 2 ^ 53)

/-- The field names of tracker settings. -/
def shape : Json.Shape :=
  ⟨["write_concurrency", "stats_batch_size", "notification_capacity"], true, true⟩

/-- Tracker settings as JSON. -/
def toJson (s : TrackerSettings) : Json := .record [
  ("write_concurrency", .ofNat s.writeConcurrency.toNat),
  ("stats_batch_size", .ofNat s.statsBatchSize.toNat),
  ("notification_capacity", .ofNat s.notificationCapacity.toNat)]

/-- Reads tracker settings. -/
def ofJson? (v : Json) : Option TrackerSettings := do
  let fs ← v.fields? shape
  return {
    writeConcurrency :=
      ← fs.withDefault "write_concurrency" standard.writeConcurrency Json.toUInt64?
    statsBatchSize := ← fs.withDefault "stats_batch_size" standard.statsBatchSize Json.toUInt64?
    notificationCapacity :=
      ← fs.withDefault "notification_capacity" standard.notificationCapacity Json.toUInt64? }

end TrackerSettings

/-- How the program's own log is written. -/
structure LogSettings where
  enabled : Bool
  format : String
deriving DecidableEq, Repr

namespace LogSettings

/-- The settings that hold where nothing is set. -/
def standard : LogSettings := ⟨true, "default"⟩

/-- The field names of log settings. -/
def shape : Json.Shape := ⟨["enabled", "format"], true, true⟩

/-- Reads log settings. -/
def ofJson? (v : Json) : Option LogSettings := do
  let fs ← v.fields? shape
  let format ← fs.withDefault "format" standard.format Json.toName?
  if format == "default" || format == "json" then
    return { enabled := ← fs.withDefault "enabled" standard.enabled Json.toBool?, format }
  else none

end LogSettings

/-- The settings of the whole program. -/
structure Settings where
  /-- The path of the file with the domain settings. -/
  domainsConfig : String
  tracker : TrackerSettings
  /-- The address of the database. -/
  databaseUrl : String
  log : LogSettings
deriving DecidableEq, Repr

namespace Settings

/-- The field names of the settings. -/
def shape : Json.Shape := ⟨["domains_config", "consumer", "database", "tracing"], true, true⟩

/-- Reads the address of a database. -/
def databaseUrl? (v : Json) : Option String := do
  let connect ← (← v.fields? ⟨["connect"], true, false⟩).get? "connect"
  match connect with
  | .object _ => (← connect.fields? ⟨["url"], true, false⟩).need "url" Json.toString?
  | _ => none

/-- Reads settings. -/
def ofJson? (v : Json) : Option Settings := do
  let fs ← v.fields? shape
  return {
    domainsConfig := ← fs.need "domains_config" Json.toString?
    tracker := ← fs.withDefault "consumer" .standard TrackerSettings.ofJson?
    databaseUrl := ← fs.need "database" databaseUrl?
    log := ← fs.withDefault "tracing" .standard LogSettings.ofJson? }

end Settings

end Waybill
