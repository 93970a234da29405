import Waybill.Store.Guarded
/-!
# Stands of branches

Branches that are worked off in turns stop where they come to an update: only a bounded number of
record updates may be under way at once, so a branch either begins its update or waits for leave to
begin. An update that was begun is carried out when the branch has its next turn.
-/

namespace Waybill.Tracker

variable {σ : Type}

/-- Where a branch stands between two rounds. -/
inductive Stand where
  | ready (task : Task Unit)
  /-- An update waits for leave to begin. -/
  | waiting (call : Call) (next : call.Answer → Task Unit)
  /-- An update has begun. -/
  | writing (call : Call) (next : call.Answer → Task Unit)
  | finished

/-- What is left to do at a stand. -/
def Stand.rest : Stand → Task Unit
  | ready t => t
  | waiting c k => .ask c k
  | writing c k => .ask c k
  | finished => .done ()

/-- What all branches share: the store, the number of updates that may still begin, and the
signals told so far, last one first. -/
structure Floor (σ : Type) where
  store : Guarded σ
  free : Nat
  signals : List Signal

/-- A step of a branch gives its new stand, or a failure, and what is shared afterwards. -/
abbrev Step (σ : Type) := Except Failure Stand × Floor σ

/-- Begins an update, out of at most `limit` at once, or lets it wait. A refused one fails when it
would begin. -/
def begin (limit : Nat) (fl : Floor σ) (c : Call) (next : c.Answer → Task Unit) : Step σ :=
  if fl.free = 0 then (.ok (.waiting c next), fl)
  else if fl.store.refusals.covers c then (.error (.refused (Refusals.callName c)), fl)
  else
    let free := fl.free - 1
    (.ok (.writing c next), { fl with free, store := fl.store.notePeak (limit - free) })

/-- Goes on with a task until it is over or comes to an update. -/
def drive (b : Backend σ) (limit : Nat) : Task Unit → Floor σ → Step σ
  | .done _, fl => (.ok .finished, fl)
  | .fail e, fl => (.error e, fl)
  | .tell x t, fl => drive b limit t { fl with signals := x :: fl.signals }
  | .ask c k, fl =>
    if Guarded.isUpdate c then begin limit fl c k
    else
      match Guarded.answer b fl.store c with
      | (.ok a, store) => drive b limit (k a) { fl with store }
      | (.error e, store) => (.error e, { fl with store })

end Waybill.Tracker
