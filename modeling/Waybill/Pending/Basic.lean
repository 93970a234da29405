import Waybill.Pending.Slot
import Waybill.Event.Json
import Waybill.Task.Basic
/-!
# The pool of pending events

Events wait in the pool as their JSON texts. Updates and relays of a root wait in a list without
repetitions, in the order of their arrival; of the other kinds the last event of a slot is kept.
The pool does not match events with messages.
-/

namespace Waybill.Pending

/-- The text of a list of texts. -/
def renderList (values : List String) : String :=
  (Json.array (values.map .ofString)).render

/-- Reads the text of a list of texts. -/
def parseList? (raw : String) : Option (List String) :=
  (Json.parse raw).bind (Json.toList? Json.toString?)

/-- The value, or the failure that what a slot holds cannot be read. -/
def readable {α : Type} (slot : Slot) : Option α → Task α
  | some a => .done a
  | none => .fail (.corruptedEntry slot.bucket.name slot.key)

/-- Sets the value of a slot. -/
def put (slot : Slot) (value : String) : Task Unit :=
  .call (.put slot.bucket.name slot.key value)

/-- The value of a slot, if there is one. -/
def get (slot : Slot) : Task (Option String) :=
  .call (.get slot.bucket.name slot.key)

/-- The texts in the list of a slot. -/
def listed (slot : Slot) : Task (List String) := do
  match ← get slot with
  | some raw => readable slot (parseList? raw)
  | none => return []

/-- Appends a text to the list of a slot, unless it is in the list already. -/
def appendUnique (slot : Slot) (value : String) : Task Unit := do
  if ← Task.call (.has slot.bucket.name slot.key) then
    let values ← listed slot
    if values.contains value then return ()
    else put slot (renderList (values ++ [value]))
  else put slot (renderList [value])

/-- Hands an event to the pool. -/
def store (e : Event) : Task Unit := do
  match Slot.ofEvent? e with
  | none => return ()
  | some slot =>
    match slot.bucket with
    | .update | .relay => appendUnique slot e.render
    | .send | .receive | .process => put slot e.render
    Task.signal (.buffered e.kind)

/-- The event that waits in a slot, if there is one. -/
def event? (slot : Slot) : Task (Option Event) := do
  match ← get slot with
  | none => return none
  | some raw => some <$> readable slot (Event.parse? raw)

/-- All texts of a list read as events. -/
def parseAll? : List String → Option (List Event)
  | [] => some []
  | s :: ss =>
    match Event.parse? s with
    | none => none
    | some e => (parseAll? ss).map (e :: ·)

/-- The events that wait in the list of a slot. -/
def events (slot : Slot) : Task (List Event) := do
  readable slot (parseAll? (← listed slot))

end Waybill.Pending
