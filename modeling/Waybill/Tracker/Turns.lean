import Waybill.Tracker.Crowd
/-!
# Branches in turns

A few branches are gone through in rounds: in each round every branch goes on until it has begun an
update or waits for leave to begin one, and an update that was begun is carried out in the next
round. The first failure ends the rounds. More branches than that make a crowd.
-/

namespace Waybill.Tracker

variable {σ : Type}

/-- One turn of a branch. -/
def turn (b : Backend σ) (limit : Nat) : Stand → Floor σ → Step σ
  | .finished, fl => (.ok .finished, fl)
  | .ready t, fl => drive b limit t fl
  | .waiting c k, fl => begin limit fl c k
  | .writing c k, fl =>
    match Guarded.pass b fl.store c with
    | (.ok a, store) => drive b limit (k a) { fl with store, free := fl.free + 1 }
    | (.error e, store) => (.error e, { fl with store, free := fl.free + 1 })

/-- One turn of every branch. -/
def round (b : Backend σ) (limit : Nat) : List Stand → Floor σ → Except Failure (List Stand) × Floor σ
  | [], fl => (.ok [], fl)
  | st :: sts, fl =>
    match turn b limit st fl with
    | (.error e, fl) => (.error e, fl)
    | (.ok st, fl) =>
      match round b limit sts fl with
      | (.error e, fl) => (.error e, fl)
      | (.ok sts, fl) => (.ok (st :: sts), fl)

/-- A number of rounds. What is left after them is worked off in order. -/
def rounds (b : Backend σ) (limit : Nat) :
    Nat → List Stand → Floor σ → Outcome (Guarded σ) Failure Unit
  | 0, sts, fl =>
    ((Task.inOrder (sts.map Stand.rest)).run (Guarded.backend b) fl.store).after fl.signals.reverse
  | n + 1, sts, fl =>
    match round b limit sts fl with
    | (.error e, fl) => ⟨.error e, fl.store, fl.signals.reverse⟩
    | (.ok sts, fl) => rounds b limit n sts fl

/-- Works branches off in rounds, at most `limit` updates at once. A branch has one update, so
every round but the last carries one out. -/
def inRounds (b : Backend σ) (limit : Nat) (ts : List (Task Unit)) (s : Guarded σ) :
    Outcome (Guarded σ) Failure Unit :=
  rounds b limit (ts.length + 1) (ts.map .ready) ⟨s, limit, []⟩

/-- How many branches are worked off in rounds at most. -/
def roundSize : Nat := 30

/-- Works branches off in turns, at most `limit` updates at once and at least one. -/
def inTurns (b : Backend σ) (limit : Nat) (ts : List (Task Unit)) (s : Guarded σ) :
    Outcome (Guarded σ) Failure Unit :=
  if ts.length ≤ roundSize then inRounds b (max limit 1) ts s else inCrowd b (max limit 1) ts s

end Waybill.Tracker
