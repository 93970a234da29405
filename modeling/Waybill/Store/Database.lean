import Waybill.Ordered.Key
import Waybill.Store.Engine
/-!
# Tables as lists

An engine that keeps the rows of both tables in lists, in the order in which they were added;
storing a row over another one keeps its place. Without its table every statement fails. The bounds
of a page are counted like columns, so from `2 ^ 63` on there is no page.
-/

namespace Waybill

/-- The contents of the tables that are there. -/
structure Database where
  messages : Option (List Row)
  pending : Option (List PendingRow)

namespace Row

/-- Puts a row in front of the first one whose hash is not before its own. -/
def insertByHash (row : Row) : List Row → List Row
  | [] => [row]
  | r :: rs =>
    if OrderedKey.before r.messageHash row.messageHash then r :: insertByHash row rs
    else row :: r :: rs

/-- Rows in the order of their hashes. -/
def sortByHash (rows : List Row) : List Row := rows.foldr insertByHash []

end Row

namespace Database

/-- A database with both tables and no row. -/
def migrated : Database := ⟨some [], some []⟩

/-- Puts a row over the one with its key, or behind all rows. -/
def store {ρ κ : Type} [DecidableEq κ] (key : ρ → κ) (row : ρ) : List ρ → List ρ
  | [] => [row]
  | r :: rs => if key r = key row then row :: rs else r :: store key row rs

/-- Answers a question to the table of messages. -/
def ask {α : Type} (db : Database) (f : List Row → Except Failure α) : Except Failure α × Database :=
  match db.messages with
  | none => (.error .database, db)
  | some rows => (f rows, db)

/-- Answers a question to the table of pending events. -/
def askPending {α : Type} (db : Database) (f : List PendingRow → α) : Except Failure α × Database :=
  match db.pending with
  | none => (.error .database, db)
  | some rows => (.ok (f rows), db)

/-- Carries out a statement. -/
def run (db : Database) : (st : Statement) → Except Failure st.Result × Database
  | .insert row =>
    match db.messages with
    | none => (.error .database, db)
    | some rows =>
      if rows.any fun r => r.messageHash == row.messageHash then (.error .uniqueViolation, db)
      else (.ok (), { db with messages := some (rows ++ [row]) })
  | .upsert row =>
    match db.messages with
    | none => (.error .database, db)
    | some rows => (.ok (), { db with messages := some (store Row.messageHash row rows) })
  | .one filter => db.ask fun rows => .ok (rows.find? filter.passes)
  | .all filter => db.ask fun rows => .ok (rows.filter filter.passes)
  | .page limit offset =>
    if 2 ^ 63 ≤ limit.toNat ∨ 2 ^ 63 ≤ offset.toNat then (.error .pageOutOfRange, db)
    else db.ask fun rows => .ok (((Row.sortByHash rows).drop offset.toNat).take limit.toNat)
  | .count => db.ask fun rows => .ok rows.length
  | .upsertPending row =>
    match db.pending with
    | none => (.error .database, db)
    | some rows => (.ok (), { db with pending := some (store PendingRow.place row rows) })
  | .onePending bucket key => db.askPending (·.find? (PendingRow.isUnder bucket key))
  | .countPending bucket key => db.askPending (·.countP (PendingRow.isUnder bucket key))

/-- The lists as an engine. -/
def engine : Engine Database := ⟨run⟩

/-- The gateway over the lists, as a backend. -/
def backend : Backend Database := engine.gateway

/-- The number of stored messages. -/
def count (db : Database) : Except Failure Nat := engine.count db

end Database

end Waybill
