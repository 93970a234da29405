import Waybill.Schema.Basic
/-!
# Migrations

Migrations bring a schema to its present form one after another, and back in the opposite order.
A bookkeeping table holds the versions that were brought up. A migration that fails is not
written there; what it changed before it failed stays.
-/

namespace Waybill

/-- A version of the schema. -/
structure Migration where
  name : String
  up : List Schema.Change
  down : List Schema.Change

namespace Schema

/-- A column whose value may not be missing. -/
def needed (name type : String) : Column := ⟨name, type, true, none, 0⟩

/-- A column whose value may be missing. -/
def optional (name type : String) : Column := ⟨name, type, false, none, 0⟩

/-- A column with a value that stands where none is given. -/
def defaulted (name type value : String) : Column := ⟨name, type, true, some value, 0⟩

/-- A column of the primary key. -/
def keyed (name type : String) (place : Nat) : Column := ⟨name, type, true, none, place⟩

/-- The table of messages. -/
def messagesTable : Table where
  columns := [
    keyed "message_hash" "varchar" 1,
    needed "origin" "bigint", needed "destination" "bigint", needed "nonce" "bigint",
    needed "root" "varchar", needed "leaf_index" "varchar", needed "body" "text",
    needed "dispatch_block" "bigint", needed "dispatched_at" "bigint",
    needed "updated_at" "bigint", needed "relayed_at" "bigint", needed "received_at" "bigint",
    needed "processed_at" "bigint", optional "sender" "varchar", optional "tx" "varchar",
    needed "state" "integer", needed "msg_type" "integer", needed "internal_sender" "varchar",
    needed "internal_recipient" "varchar", optional "recipient" "varchar",
    optional "amount" "varchar", defaulted "allow_fast" "boolean" "FALSE",
    optional "details_hash" "varchar", optional "token_domain" "bigint",
    optional "token_id" "varchar", needed "gas_at_dispatch" "varchar",
    needed "gas_at_update" "varchar", needed "gas_at_relay" "varchar",
    needed "gas_at_receive" "varchar", needed "gas_at_process" "varchar",
    defaulted "sent" "boolean" "FALSE", defaulted "updated" "boolean" "FALSE",
    defaulted "relayed" "boolean" "FALSE", defaulted "received" "boolean" "FALSE",
    defaulted "processed" "boolean" "FALSE", defaulted "confirm_at" "bigint" "0"]
  indexes := []

/-- The table of pending events. -/
def pendingTable : Table where
  columns := [
    keyed "bucket" "varchar" 1, keyed "key" "varchar" 2, needed "value" "text",
    defaulted "created_at" "timestamp_text" "CURRENT_TIMESTAMP",
    defaulted "updated_at" "timestamp_text" "CURRENT_TIMESTAMP"]
  indexes := []

/-- The bookkeeping table. -/
def bookkeepingTable : Table where
  columns := [keyed "version" "varchar" 1, needed "applied_at" "bigint"]
  indexes := []

/-- All migrations in order. -/
def migrations : List Migration := [
  { name := "m20240601_000001_create_messages"
    up := [
      .ensureTable "messages" messagesTable,
      .createIndex "messages" ⟨"messages_origin_root_index", false, ["origin", "root"]⟩,
      .createIndex "messages"
        ⟨"messages_origin_nonce_destination_index", false, ["origin", "nonce", "destination"]⟩,
      .createIndex "messages"
        ⟨"messages_send_values_index", false,
          ["destination", "recipient", "amount", "dispatch_block"]⟩]
    down := [.dropTable "messages"] },
  { name := "m20240601_000002_create_pending_events"
    up := [.ensureTable "pending_events" pendingTable]
    down := [.dropTable "pending_events"] }]

/-- Makes sure that the bookkeeping table is there. -/
def install (s : Schema) : Schema :=
  if s.tables.contains bookkeepingName then s
  else { s with tables := s.tables.insert bookkeepingName bookkeepingTable }

/-- Whether a migration was brought up. -/
def isApplied (s : Schema) (m : Migration) : Bool := s.applied.contains m.name

/-- Brings migrations up in the given order, up to the first that fails. -/
def bringUp : List Migration → Schema → Bool × Schema
  | [], s => (true, s)
  | m :: ms, s =>
    match applyAll m.up s with
    | (true, s) => bringUp ms { s with applied := s.applied ++ [m.name] }
    | (false, s) => (false, s)

/-- Brings migrations down in the given order, up to the first that fails. -/
def bringDown : List Migration → Schema → Bool × Schema
  | [], s => (true, s)
  | m :: ms, s =>
    match applyAll m.down s with
    | (true, s) => bringDown ms { s with applied := s.applied.filter (· ≠ m.name) }
    | (false, s) => (false, s)

/-- At most so many of a list, or all of it. -/
def atMost {α : Type} : Option Nat → List α → List α
  | some n, xs => xs.take n
  | none, xs => xs

/-- Brings up the first migrations that were not yet. -/
def up (n : Option Nat) (s : Schema) : Bool × Schema :=
  let s := s.install
  bringUp (atMost n (migrations.filter fun m => !s.isApplied m)) s

/-- Brings down the last migrations that were brought up. -/
def down (n : Option Nat) (s : Schema) : Bool × Schema :=
  let s := s.install
  bringDown (atMost n (migrations.filter s.isApplied).reverse) s

/-- Brings all migrations down and up again. -/
def refresh (s : Schema) : Bool × Schema :=
  match s.down none with
  | (true, s) => s.up none
  | (false, s) => (false, s)

/-- Drops all tables and brings all migrations up. -/
def fresh (_ : Schema) : Bool × Schema := empty.up none

/-- The names of the migrations that were brought up and of those that were not. -/
def status (s : Schema) : List String × List String :=
  ((migrations.filter s.isApplied).map (·.name),
    (migrations.filter fun m => !s.isApplied m).map (·.name))

end Schema

end Waybill
