import Waybill.Message.Basic
/-!
# Transitions

Each event that concerns a message leaves its time, its gas and a mark, and moves the state on if
it is not there yet. A transition also tells whether the state moved.
-/

namespace Waybill.Message

/-- Moves the state on to `target`, unless it is already there or further. -/
def advance (m : Message) (target : State) : Message × Bool :=
  if m.state.precedes target then ({ m with state := target }, true) else (m, false)

/-- The root of the message was updated at its home. -/
def update (m : Message) (e : Event) : Message × Bool :=
  advance { m with
    times := { m.times with updated := e.timestamp }
    gas := { m.gas with updated := e.gasUsed }
    seen := { m.seen with updated := true } } .updated

/-- The update reached a replica. Only the one at the destination concerns the message. -/
def relay (m : Message) (e : Event) : Message × Bool :=
  if e.domain ≠ m.identity.destination then (m, false)
  else advance { m with
    times := { m.times with relayed := e.timestamp }
    gas := { m.gas with relayed := e.gasUsed }
    seen := { m.seen with relayed := true } } .relayed

/-- The tokens of the message were paid out. -/
def receive (m : Message) (e : Event) : Message × Bool :=
  advance { m with
    times := { m.times with received := e.timestamp }
    gas := { m.gas with received := e.gasUsed }
    seen := { m.seen with received := true } } .received

/-- The message was processed. -/
def process (m : Message) (e : Event) : Message × Bool :=
  advance { m with
    times := { m.times with processed := e.timestamp }
    gas := { m.gas with processed := e.gasUsed }
    seen := { m.seen with processed := true } } .processed

/-- Attaches the sending of tokens that the message came from. Only a transfer has one. The state
stays as it is. -/
def attachSend? (m : Message) (e : Event) (s : Send) : Option Message :=
  if m.isTransfer then
    some { m with sender := some s.sender, tx := some e.tx, seen := { m.seen with sent := true } }
  else none

end Waybill.Message
