import Waybill.Store.Row
import Waybill.Task.Run
/-!
# The gateway to a database

A database has a table of messages and a table of pending events. The gateway turns a call into a
statement on one of them, and makes the answer of the rows that come back. How a statement is
carried out is up to the engine of the database.
-/

namespace Waybill

/-- The value that waits under a key of a bucket. -/
structure PendingRow where
  bucket : String
  key : String
  value : String
deriving DecidableEq

/-- What a row is under. -/
def PendingRow.place (r : PendingRow) : String × String := (r.bucket, r.key)

/-- Whether a row is under a key of a bucket. -/
def PendingRow.isUnder (bucket key : String) (r : PendingRow) : Bool :=
  r.bucket == bucket && r.key == key

namespace Row

/-- Whether a row belongs to a root of a domain. -/
def isOfRoot (origin : Int64) (root : String) (r : Row) : Bool :=
  r.origin == origin && r.root == root

/-- Whether a row is of a transfer with these values. -/
def isOfSend (destination : Int64) (recipient amount : String) (block : Int64) (r : Row) : Bool :=
  r.destination == destination && r.recipient == some recipient && r.amount == some amount &&
    r.dispatchBlock == block

/-- Whether a row has this number on its way from one domain to another. -/
def isOfNonce (origin nonce destination : Int64) (r : Row) : Bool :=
  r.origin == origin && r.nonce == nonce && r.destination == destination

/-- What rows of messages are asked for by. -/
inductive Filter where
  | hash (text : String)
  | root (origin : Int64) (text : String)
  | send (destination : Int64) (recipient amount : String) (block : Int64)
  | nonce (origin number destination : Int64)
deriving DecidableEq

/-- Whether a row is asked for. -/
def Filter.passes : Filter → Row → Bool
  | hash text, r => r.messageHash == text
  | root origin text, r => r.isOfRoot origin text
  | send destination recipient amount block, r => r.isOfSend destination recipient amount block
  | nonce origin number destination, r => r.isOfNonce origin number destination

/-- The record of a row as an answer. -/
def read (row : Row) : Except Failure Record := row.toRecord.mapError .badRecord

/-- The records of rows as an answer; the first row that cannot be read is reported. -/
def readAll : List Row → Except Failure (List Record)
  | [] => .ok []
  | row :: rows => do
    let r ← row.read
    let rs ← readAll rows
    return r :: rs

/-- The record of a row that may be missing, as an answer. -/
def readOption : Option Row → Except Failure (Option Record)
  | none => .ok none
  | some row => row.read.map some

end Row

/-- A statement on the table of messages or on that of pending events. -/
inductive Statement where
  /-- Adds a row whose hash is not there yet. -/
  | insert (row : Row)
  /-- Puts a row over the one with its hash, or adds it. -/
  | upsert (row : Row)
  | one (filter : Row.Filter)
  | all (filter : Row.Filter)
  /-- At most `limit` rows after the first `offset` ones in the order of their hashes. -/
  | page (limit offset : UInt64)
  | count
  /-- Puts a row over the one under its key, or adds it. -/
  | upsertPending (row : PendingRow)
  | onePending (bucket key : String)
  | countPending (bucket key : String)
deriving DecidableEq

/-- What comes back for a statement. -/
@[reducible] def Statement.Result : Statement → Type
  | insert _ | upsert _ | upsertPending _ => Unit
  | one _ => Option Row
  | all _ | page _ _ => List Row
  | count | countPending _ _ => Nat
  | onePending _ _ => Option PendingRow

/-- What carries statements out over a state. -/
structure Engine (σ : Type) where
  run : σ → (st : Statement) → Except Failure st.Result × σ

namespace Call

/-- The statement for a call. -/
def statement : Call → Statement
  | insert r => .insert (Row.ofRecord r)
  | update r => .upsert (Row.ofRecord r)
  | byHash hash => .one (.hash hash.text)
  | byRoot origin root => .all (.root (Row.ofUInt32 origin) root.text)
  | bySend destination recipient amount block =>
    .one (.send (Row.ofUInt32 destination) recipient.pretty amount.decimal block.toInt64)
  | byNonce origin nonce destination =>
    .one (.nonce (Row.ofUInt32 origin) (Row.ofUInt32 nonce) (Row.ofUInt32 destination))
  | page limit offset => .page limit offset
  | put bucket key value => .upsertPending ⟨bucket, key, value⟩
  | get bucket key => .onePending bucket key
  | has bucket key => .countPending bucket key

/-- The answer to a call from what came back for its statement. -/
def ofResult : (c : Call) → c.statement.Result → Except Failure c.Answer
  | insert _, _ | update _, _ | put _ _ _, _ => .ok ()
  | byHash _, row? | bySend _ _ _ _, row? | byNonce _ _ _, row? => Row.readOption row?
  | byRoot _ _, rows | page _ _, rows => Row.readAll rows
  | get _ _, row? => .ok (row?.map (·.value))
  | has _ _, (n : Nat) => .ok (decide (0 < n))

end Call

namespace Engine

variable {σ : Type}

/-- The gateway over an engine, as a backend. -/
def gateway (E : Engine σ) : Backend σ where
  answer s c :=
    let (r, s) := E.run s c.statement
    (r.bind c.ofResult, s)

/-- The number of stored messages. -/
def count (E : Engine σ) (s : σ) : Except Failure Nat := (E.run s .count).1

end Engine

end Waybill
