import Waybill.Message.Transition
import Waybill.Message.Record
import Waybill.Pending.Basic
/-!
# Handling events

An event is applied to the messages it concerns, if they are known, and waits in the pool
otherwise. Updates of a root are also kept for messages that are dispatched under it later. Each
message that an event reaches also catches up with what the pool holds for it.

An update or a relay reaches every message of its root. The work on each of them is a branch of
its own, and the branches may be worked off in any order or in turns.
-/

namespace Waybill.Tracker

/-- Tells about a transition if the state moved, and goes on with the message. -/
def announce (target : State) (e : Event) (step : Message × Bool) : Task Message :=
  if step.2 then .tell (.moved target) (.tell (.noted ⟨target, step.1, e⟩) (.done step.1))
  else .done step.1

/-- Applies events to a message, one after another. -/
def applyAll (target : State) (step : Message → Event → Message × Bool) :
    List Event → Message → Task Message
  | [], m => .done m
  | e :: es, m => (announce target e (step m e)).bind (applyAll target step es)

/-- Attaches the sending of a transfer from the pool, if it was not seen. -/
def catchUpSend (m : Message) : Task Message := do
  match m.transfer? with
  | none => return m
  | some t =>
    if m.seen.sent then return m
    else
      match ← Pending.event?
          (.send m.identity.destination t.recipient t.amount m.identity.dispatchBlock) with
      | none => return m
      | some e =>
        match e.data with
        | .bridgeSend s =>
          match m.attachSend? e s with
          | some m => return m
          | none => Task.fail (.notTransfer m.hash)
        | _ => return m

/-- Applies the updates of the root from the pool, if none was seen. -/
def catchUpUpdate (m : Message) : Task Message := do
  if m.seen.updated then return m
  else
    let es ← Pending.events (.update m.identity.origin m.identity.root)
    applyAll .updated Message.update es m

/-- Applies the relays of the root from the pool, if none was seen. -/
def catchUpRelay (m : Message) : Task Message := do
  if m.seen.relayed then return m
  else
    let es ← Pending.events (.relay m.identity.origin m.identity.root)
    applyAll .relayed Message.relay es m

/-- Applies the receipt of a transfer from the pool, if none was seen. -/
def catchUpReceive (m : Message) : Task Message := do
  if m.seen.received || !m.isTransfer then return m
  else
    match ← Pending.event?
        (.receive m.identity.origin m.identity.nonce m.identity.destination) with
    | none => return m
    | some e => announce .received e (m.receive e)

/-- Applies the processing from the pool, if none was seen. -/
def catchUpProcess (m : Message) : Task Message := do
  if m.seen.processed then return m
  else
    match ← Pending.event? (.process m.hash) with
    | none => return m
    | some e => announce .processed e (m.process e)

/-- Applies what the pool holds for every event that the message has not seen. -/
def catchUp (m : Message) : Task Message := do
  let m ← catchUpSend m
  let m ← catchUpUpdate m
  let m ← catchUpRelay m
  let m ← catchUpReceive m
  catchUpProcess m

/-- Takes a message up from its record. -/
def load (net : Network) (r : Record) : Task Message := .ofRecord (Message.ofRecord net r)

/-- Takes a message up from its record, if there is one. -/
def loadOption (net : Network) : Option Record → Task (Option Message)
  | none => .done none
  | some r => some <$> load net r

/-- Stores a message over its record. -/
def save (net : Network) (m : Message) : Task Unit := .call (.update (.ofMessage net m))

/-- Lets a message catch up and stores it. -/
def settle (net : Network) (m : Message) : Task Unit := do
  save net (← catchUp m)

/-- The message of a dispatch. -/
def created (net : Network) (e : Event) (d : Dispatch) : Message :=
  let m := Message.new net {
    origin := e.domain
    destination := d.destination
    nonce := d.nonce
    root := d.committedRoot
    hash := d.messageHash
    leafIndex := d.leafIndex
    body := d.message
    dispatchBlock := e.block } e.timestamp
  { m with gas := { m.gas with dispatched := e.gasUsed }, tx := some e.tx }

/-- Handles a dispatch: a hash that is stored already is left alone. -/
def onDispatch (net : Network) (e : Event) (d : Dispatch) : Task Unit := do
  Task.signal (.sighted e.domain)
  match ← Task.call (.byHash d.messageHash) with
  | some _ => return ()
  | none =>
    let m := created net e d
    Task.signal (.noted ⟨.dispatched, m, e⟩)
    let m ← catchUp m
    Task.call (.insert (.ofMessage net m))

/-- The work that an update or a relay is for one record of its root. -/
def branch (net : Network) (target : State) (step : Message → Event → Message × Bool) (e : Event)
    (r : Record) : Task Unit := do
  let m ← load net r
  settle net (← announce target e (step m e))

/-- Handles an update or a relay up to its branches. The records are looked up before the event is
handed to the pool. -/
def onRoot (net : Network) (target : State) (step : Message → Event → Message × Bool) (e : Event)
    (u : RootUpdate) : Task (List (Task Unit)) := do
  let records ← Task.call (.byRoot u.homeDomain u.oldRoot)
  Pending.store e
  return records.map (branch net target step e)

/-- Handles a processing. -/
def onProcess (net : Network) (e : Event) (p : Processing) : Task Unit := do
  match ← loadOption net (← Task.call (.byHash p.messageHash)) with
  | some m => settle net (← announce .processed e (m.process e))
  | none => Pending.store e

/-- Handles the sending of tokens. -/
def onSend (net : Network) (e : Event) (s : Send) : Task Unit := do
  match ← loadOption net (← Task.call (.bySend s.toDomain s.toId s.amount e.block)) with
  | some m =>
    match m.attachSend? e s with
    | some m => settle net m
    | none => Task.fail (.notTransfer m.hash)
  | none => Pending.store e

/-- Handles the receipt of tokens. One of a message that is no transfer is dropped. -/
def onReceive (net : Network) (e : Event) (r : Receipt) : Task Unit := do
  match ← loadOption net (← Task.call (.byNonce r.origin r.nonce e.domain)) with
  | some m =>
    if m.isTransfer then settle net (← announce .received e (m.receive e))
    else return ()
  | none => Pending.store e

/-- Handles an event up to its branches. -/
def branches (net : Network) (e : Event) : Task (List (Task Unit)) :=
  match e.data with
  | .dispatch d => (onDispatch net e d).bind fun _ => .done []
  | .homeUpdate u => onRoot net .updated Message.update e u
  | .replicaUpdate u => onRoot net .relayed Message.relay e u
  | .process p => (onProcess net e p).bind fun _ => .done []
  | .bridgeSend s => (onSend net e s).bind fun _ => .done []
  | .bridgeReceive r => (onReceive net e r).bind fun _ => .done []

/-- Handles an event, its branches one after another. -/
def handle (net : Network) (e : Event) : Task Unit :=
  (branches net e).bind .inOrder

end Waybill.Tracker
