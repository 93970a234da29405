import Waybill.Failure
import Waybill.Message.Basic
/-!
# Tasks

The work on an event is a task: a finite tree of questions to the stores, of signals to the
outside, and of an end with a value or a failure. A task says nothing about how the stores answer,
so the same task can be run over any store, over one that refuses some calls, or in turns with
other tasks.
-/

namespace Waybill

/-- A question to the message store or to the store of the pool. -/
inductive Call where
  /-- Adds a record whose hash is not stored yet. -/
  | insert (record : Record)
  /-- Stores a record, over the one with its hash if there is one. -/
  | update (record : Record)
  | byHash (hash : Digest)
  | byRoot (origin : UInt32) (root : Digest)
  /-- A transfer by its destination, recipient, amount and dispatch block. -/
  | bySend (destination : UInt32) (recipient : Identifier) (amount : Word) (block : UInt64)
  | byNonce (origin nonce destination : UInt32)
  /-- At most `limit` records after the first `offset` ones in the order of their hashes. -/
  | page (limit offset : UInt64)
  /-- Sets the value under a key of a bucket. -/
  | put (bucket key value : String)
  | get (bucket key : String)
  | has (bucket key : String)
deriving DecidableEq

/-- What is answered to a call. -/
@[reducible] def Call.Answer : Call → Type
  | insert _ => Unit
  | update _ => Unit
  | byHash _ => Option Record
  | byRoot _ _ => List Record
  | bySend _ _ _ _ => Option Record
  | byNonce _ _ _ => Option Record
  | page _ _ => List Record
  | put _ _ _ => Unit
  | get _ _ => Option String
  | has _ _ => Bool

/-- A message came into a state through an event. -/
structure Notice where
  kind : State
  /-- The message right after the transition. -/
  message : Message
  event : Event
deriving DecidableEq

/-- What a task tells the outside. -/
inductive Signal where
  /-- Work on an event of this kind begins. -/
  | consumed (kind : Event.Kind)
  /-- A chain of this domain dispatched a message. -/
  | sighted (domain : UInt32)
  /-- An event of this kind was handed to the pool. -/
  | buffered (kind : Event.Kind)
  /-- A message moved on to this state. -/
  | moved (state : State)
  /-- Observers are told about a message. -/
  | noted (notice : Notice)
deriving DecidableEq

/-- Work that ends with a value of `α` or a failure. -/
inductive Task (α : Type) where
  | done (value : α)
  | fail (failure : Failure)
  | tell (signal : Signal) (next : Task α)
  | ask (call : Call) (next : call.Answer → Task α)

namespace Task

variable {α β : Type}

/-- Goes on with the value of a task. -/
def bind : Task α → (α → Task β) → Task β
  | done a, f => f a
  | fail e, _ => fail e
  | tell s t, f => tell s (t.bind f)
  | ask c k, f => ask c fun a => (k a).bind f

instance : Monad Task where
  pure := done
  bind := bind

/-- A call by itself. -/
def call (c : Call) : Task c.Answer := ask c done

/-- A signal by itself. -/
def signal (s : Signal) : Task Unit := tell s (done ())

/-- A value, or a failure of reading a record. -/
def ofRecord : Except Record.Fault α → Task α
  | .ok a => done a
  | .error f => fail (.badRecord f)

/-- Works tasks off one after another. -/
def inOrder : List (Task Unit) → Task Unit
  | [] => done ()
  | t :: ts => t.bind fun _ => inOrder ts

@[simp] theorem bind_done (t : Task α) : t.bind done = t := by
  induction t with
  | done a => rfl
  | fail e => rfl
  | tell s t ih => simp [bind, ih]
  | ask c k ih => simp [bind, ih]

theorem bind_assoc {γ : Type} (t : Task α) (f : α → Task β) (g : β → Task γ) :
    (t.bind f).bind g = t.bind fun a => (f a).bind g := by
  induction t with
  | done a => rfl
  | fail e => rfl
  | tell s t ih => simp [bind, ih]
  | ask c k ih => simp [bind, ih]

end Task

end Waybill
