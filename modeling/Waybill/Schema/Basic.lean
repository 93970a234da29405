import Waybill.Ordered.Map
/-!
# Schemas

A schema is the set of tables of a database with their columns and indexes. Changes either apply
as a whole or fail and leave the schema as it is. Names of indexes are unique over all tables.
-/

namespace Waybill

/-- A column of a table. -/
structure Column where
  name : String
  type : String
  required : Bool
  /-- The text of the value that stands where none is given. -/
  default : Option String
  /-- The place in the primary key, counted from one, or zero. -/
  keyPlace : Nat
deriving DecidableEq

/-- An index of a table. -/
structure Index where
  name : String
  unique : Bool
  columns : List String
deriving DecidableEq

/-- A table without its rows. -/
structure Table where
  columns : List Column
  indexes : List Index
deriving DecidableEq

namespace Table

/-- Whether a table has a column of a name. -/
def hasColumn (t : Table) (name : String) : Bool := t.columns.any fun c => c.name == name

/-- The indexes of a table in the order of their names. -/
def indexMap (t : Table) : SortedMap String Index :=
  t.indexes.foldl (fun m i => m.insert i.name i) SortedMap.empty

end Table

/-- The tables of a database, and the versions written in its bookkeeping table. -/
structure Schema where
  tables : SortedMap String Table
  applied : List String

namespace Schema

/-- A change of a schema. -/
inductive Change where
  | createTable (name : String) (table : Table)
  /-- Leaves a table of that name as it is. -/
  | ensureTable (name : String) (table : Table)
  | createIndex (table : String) (index : Index)
  | dropTable (name : String)
deriving DecidableEq

/-- A database without any table. -/
def empty : Schema := ⟨SortedMap.empty, []⟩

/-- The name of the bookkeeping table. -/
def bookkeepingName : String := "message_lifecycle_migrations"

/-- Whether any table has an index of a name. -/
def hasIndex (s : Schema) (name : String) : Bool :=
  s.tables.values.any fun t => t.indexes.any fun i => i.name == name

/-- The tables without one of them. -/
def without (tables : SortedMap String Table) (name : String) : SortedMap String Table :=
  (tables.entries.filter fun e => e.1 != name).foldl (fun m e => m.insert e.1 e.2) SortedMap.empty

/-- Applies a change, if it can be applied. -/
def change? (s : Schema) : Change → Option Schema
  | .createTable name table =>
    if s.tables.contains name then none else some { s with tables := s.tables.insert name table }
  | .ensureTable name table =>
    if s.tables.contains name then some s else some { s with tables := s.tables.insert name table }
  | .createIndex name index =>
    match s.tables.find? name with
    | none => none
    | some t =>
      if s.hasIndex index.name || !index.columns.all t.hasColumn then none
      else
        let t := { t with indexes := t.indexes ++ [index] }
        some { s with tables := s.tables.insert name t }
  | .dropTable name =>
    if s.tables.contains name then
      some {
        tables := without s.tables name
        applied := if name = bookkeepingName then [] else s.applied }
    else none

/-- Applies changes up to the first that fails, and tells whether none did. -/
def applyAll : List Change → Schema → Bool × Schema
  | [], s => (true, s)
  | c :: cs, s =>
    match s.change? c with
    | some s => applyAll cs s
    | none => (false, s)

/-- The words of a statement, with brackets as words of their own. -/
def words (cs : List Char) : List String :=
  let spaced := cs.flatMap fun c => if c == '(' || c == ')' then [' ', c, ' '] else [c]
  ((String.ofList spaced).splitOn " ").filter (· ≠ "")

/-- The change that a statement asks for, if it is one of the known forms. -/
def Change.ofStatement? (text : String) : Option Change :=
  match words text.toList with
  | ["drop", "table", name] => some (.dropTable name)
  | ["create", "table", name, "(", column, type, ")"] =>
    some (.createTable name ⟨[⟨column, type, false, none, 0⟩], []⟩)
  | _ => none

end Schema

end Waybill
