import Waybill.Task.Run
/-!
# Stores that refuse calls

A guarded store answers some calls with a refusal and does nothing for them; all other calls reach
the store behind it. It also keeps the largest number of record updates that were under way at
once.
-/

namespace Waybill

/-- Which calls are refused. -/
structure Refusals where
  insert : Bool
  read : Bool
  put : Bool
  get : Bool
  /-- The hashes of records whose updates are refused; an asterisk stands for all. -/
  update : List String
deriving DecidableEq

namespace Refusals

/-- No call is refused. -/
def none : Refusals := ⟨false, false, false, false, []⟩

/-- The name of a call in a refusal. -/
def callName : Call → String
  | .insert r => "insert " ++ r.messageHash
  | .update r => "update " ++ r.messageHash
  | .byHash _ => "read by hash"
  | .byRoot _ _ => "read by root"
  | .bySend _ _ _ _ => "read by send values"
  | .byNonce _ _ _ => "read by nonce"
  | .page _ _ => "read page"
  | .put bucket key _ => "hset " ++ bucket ++ "/" ++ key
  | .get bucket key => "hget " ++ bucket ++ "/" ++ key
  | .has bucket key => "hexists " ++ bucket ++ "/" ++ key

/-- Whether a call is refused. -/
def covers (f : Refusals) : Call → Bool
  | .insert _ => f.insert
  | .update r => f.update.contains "*" || f.update.contains r.messageHash
  | .byHash _ | .byRoot _ _ | .bySend _ _ _ _ | .byNonce _ _ _ | .page _ _ => f.read
  | .put _ _ _ => f.put
  | .get _ _ => f.get
  | .has _ _ => false

end Refusals

/-- A store and what is refused before it. -/
structure Guarded (σ : Type) where
  inner : σ
  refusals : Refusals
  /-- The most record updates that were under way at once. -/
  peak : Nat

namespace Guarded

variable {σ : Type}

/-- A store before which nothing is refused. -/
def ofInner (s : σ) : Guarded σ := ⟨s, .none, 0⟩

/-- Notes that so many record updates are under way. -/
def notePeak (s : Guarded σ) (n : Nat) : Guarded σ := { s with peak := max s.peak n }

/-- Lets the store behind answer a call. -/
def pass (b : Backend σ) (s : Guarded σ) (c : Call) : Except Failure c.Answer × Guarded σ :=
  ((b.answer s.inner c).1, { s with inner := (b.answer s.inner c).2 })

/-- Whether a call stores a record over another one. -/
def isUpdate : Call → Bool
  | .update _ => true
  | _ => false

/-- Answers a call. -/
def answer (b : Backend σ) (s : Guarded σ) (c : Call) : Except Failure c.Answer × Guarded σ :=
  if s.refusals.covers c then (.error (.refused (Refusals.callName c)), s)
  else pass b (if isUpdate c then s.notePeak 1 else s) c

/-- A guarded store as a backend. -/
def backend (b : Backend σ) : Backend (Guarded σ) := ⟨answer b⟩

end Guarded

end Waybill
