import Waybill.Tracker.Stand
/-!
# Branches in a crowd

A larger number of branches goes through a queue. A branch that comes to an update begins it, or
waits for leave in the order of arrival. When all branches have come as far as they can, the
updates that were begun are carried out, the last one begun first; each of them gives leave to the
branch that waits longest, which then queues up. The outcomes are looked at in the order of the
branches: a failure counts once all branches before it are over, and until then the others go on.
-/

namespace Waybill.Tracker

variable {σ : Type}

/-- Where a crowd stands. Branches go by their numbers. -/
structure Crowd (σ : Type) where
  floor : Floor σ
  /-- The stand of each branch, or the failure it ended with. -/
  stands : List (Except Failure Stand)
  /-- The branches in the queue, first one first. -/
  queue : List Nat
  /-- The branches that have begun an update and left the queue, last one first. -/
  begun : List Nat
  /-- The branches that wait for leave, longest first. -/
  waiting : List Nat

namespace Crowd

/-- A crowd before any branch has begun. -/
def ofTasks (ts : List (Task Unit)) (fl : Floor σ) : Crowd σ :=
  ⟨fl, ts.map fun t => .ok (.ready t), List.range ts.length, [], []⟩

/-- How many updates are under way. -/
def writing (cr : Crowd σ) : Nat :=
  cr.stands.countP fun
    | .ok (.writing _ _) => true
    | _ => false

/-- Notes how a step of a branch ended. -/
def place (i : Nat) (step : Step σ) (cr : Crowd σ) : Crowd σ :=
  let cr := { cr with floor := step.2, stands := cr.stands.set i step.1 }
  match step.1 with
  | .ok (.waiting _ _) => { cr with waiting := cr.waiting ++ [i] }
  | .ok (.writing _ _) => { cr with begun := i :: cr.begun }
  | _ => cr

/-- Hands on the leave to update, or keeps it for a branch to come. -/
def release (cr : Crowd σ) : Crowd σ :=
  match cr.waiting with
  | [] => { cr with floor := { cr.floor with free := cr.floor.free + 1 } }
  | i :: is => { cr with waiting := is, queue := cr.queue ++ [i] }

/-- Begins an update for which leave was given. -/
def enter (i : Nat) (c : Call) (next : c.Answer → Task Unit) (cr : Crowd σ) : Crowd σ :=
  if cr.floor.store.refusals.covers c then
    (cr.place i (.error (.refused (Refusals.callName c)), cr.floor)).release
  else
    let store := cr.floor.store.notePeak (cr.writing + 1)
    cr.place i (.ok (.writing c next), { cr.floor with store })

/-- Carries out an update and goes on with its branch. -/
def carryOut (b : Backend σ) (limit i : Nat) (c : Call) (next : c.Answer → Task Unit)
    (cr : Crowd σ) : Crowd σ :=
  match Guarded.pass b cr.floor.store c with
  | (.ok a, store) =>
    let cr := release { cr with floor := { cr.floor with store } }
    cr.place i (drive b limit (next a) cr.floor)
  | (.error e, store) => (cr.place i (.error e, { cr.floor with store })).release

/-- One turn of a branch. -/
def turn (b : Backend σ) (limit i : Nat) (cr : Crowd σ) : Crowd σ :=
  match cr.stands[i]? with
  | some (.ok (.ready t)) => cr.place i (drive b limit t cr.floor)
  | some (.ok (.waiting c k)) => cr.enter i c k
  | some (.ok (.writing c k)) => cr.carryOut b limit i c k
  | _ => cr

/-- How the branches ended: with the failure of the first one that is not over otherwise, if it is
known yet. -/
def verdict : List (Except Failure Stand) → Option (Except Failure Unit)
  | [] => some (.ok ())
  | .ok .finished :: sts => verdict sts
  | .ok _ :: _ => none
  | .error e :: _ => some (.error e)

/-- What is left to do, in the order of the branches. -/
def rest (cr : Crowd σ) : Task Unit :=
  .inOrder (cr.stands.map fun
    | .ok st => st.rest
    | .error e => .fail e)

/-- A number of turns. What is left after them is worked off in order. -/
def run (b : Backend σ) (limit : Nat) : Nat → Crowd σ → Outcome (Guarded σ) Failure Unit
  | 0, cr => (cr.rest.run (Guarded.backend b) cr.floor.store).after cr.floor.signals.reverse
  | n + 1, cr =>
    match verdict cr.stands with
    | some r => ⟨r, cr.floor.store, cr.floor.signals.reverse⟩
    | none =>
      match cr.queue with
      | i :: is => run b limit n (turn b limit i { cr with queue := is })
      | [] => run b limit n { cr with queue := cr.begun, begun := [] }

end Crowd

/-- Works a crowd of branches off, at most `limit` updates at once. A branch has one update, so it
has at most three turns, and the queue is filled up at most once for each branch. -/
def inCrowd (b : Backend σ) (limit : Nat) (ts : List (Task Unit)) (s : Guarded σ) :
    Outcome (Guarded σ) Failure Unit :=
  (Crowd.ofTasks ts ⟨s, limit, []⟩).run b limit (4 * ts.length + 1)

end Waybill.Tracker
