import Waybill.Proofs.Task.Conduct
import Waybill.Proofs.Tracker.Runs
/-!
# What is told and asked while an event is worked on

Whatever the stores answer, the work on an event tells of the event itself and of messages that move
on. Only a dispatch lets a domain be known, its own. Only handing the event over writes to the pool,
which the work does at most once, after which nothing is left but the branches of a root.

## Main definitions

* `Signal.IsProgress`, `Signal.IsAbout`: signals of messages that move on, and of an event.
* `Tracker.HandsOver`: a task hands an event to the pool at its end, if it does at all.

## Main results

* `Tracker.confined_catchUp`, `Tracker.confined_branch`: catching up writes nothing to the pool.
* `Tracker.handsOver_branches`: what the work on an event tells and asks.
-/

namespace Waybill

/-- A signal tells of a message that moved on. -/
def Signal.IsProgress : Signal → Prop
  | moved _ | noted _ => True
  | _ => False

/-- A signal tells of an event that is worked on, or of a message that moved on. A domain is told of
if the event is a dispatch of it. -/
def Signal.IsAbout (e : Event) : Signal → Prop
  | consumed k | buffered k => k = e.kind
  | sighted domain => domain = e.domain ∧ e.kind = .dispatch
  | moved _ | noted _ => True

/-- Such a signal that does not tell of the pool. -/
def Signal.IsAside (e : Event) : Signal → Prop
  | sighted domain => domain = e.domain ∧ e.kind = .dispatch
  | moved _ | noted _ => True
  | consumed _ | buffered _ => False

theorem Signal.IsProgress.isAside {x : Signal} (h : x.IsProgress) (e : Event) : x.IsAside e := by
  cases x with
  | moved s => trivial
  | noted n => trivial
  | _ => exact h.elim

theorem Signal.IsAside.isAbout {e : Event} {x : Signal} (h : x.IsAside e) : x.IsAbout e := by
  cases x with
  | consumed k => exact h.elim
  | buffered k => exact h.elim
  | _ => exact h

namespace Tracker

open Waybill.Pending Waybill.Task

variable {S : Signal → Prop}

/-! ### Reading the pool -/

theorem confined_readable {α : Type} (slot : Slot) (a? : Option α) :
    (readable slot a?).Confined S (·.isPut = false) fun _ => True := by
  cases a? <;> trivial

theorem confined_listed (slot : Slot) :
    (listed slot).Confined S (·.isPut = false) fun _ => True := by
  refine (confined_call (by rfl)).bind fun raw? _ => ?_
  cases raw? with
  | none => trivial
  | some raw => exact confined_readable slot _

theorem confined_events (slot : Slot) :
    (events slot).Confined S (·.isPut = false) fun _ => True :=
  (confined_listed slot).bind fun _ _ => confined_readable slot _

theorem confined_event? (slot : Slot) :
    (event? slot).Confined S (·.isPut = false) fun _ => True := by
  refine (confined_call (by rfl)).bind fun raw? _ => ?_
  cases raw? with
  | none => trivial
  | some raw => exact (confined_readable slot _).bind fun _ _ => trivial

/-! ### Catching up -/

theorem confined_announce (target : State) (e : Event) (step : Message × Bool) :
    (announce target e step).Confined Signal.IsProgress (·.isPut = false) fun _ => True := by
  rw [announce]
  split
  · exact ⟨trivial, trivial, trivial⟩
  · trivial

theorem confined_applyAll (target : State) (step : Message → Event → Message × Bool)
    (es : List Event) (m : Message) :
    (applyAll target step es m).Confined Signal.IsProgress (·.isPut = false) fun _ => True := by
  induction es generalizing m with
  | nil => trivial
  | cons e es ih => exact (confined_announce target e _).bind fun m' _ => ih m'

theorem confined_catchUpSend (m : Message) :
    (catchUpSend m).Confined Signal.IsProgress (·.isPut = false) fun _ => True := by
  rw [catchUpSend]
  cases m.transfer? with
  | none => trivial
  | some t =>
    dsimp only
    split
    · trivial
    · refine (confined_event? _).bind fun e? _ => ?_
      cases e? with
      | none => trivial
      | some e =>
        cases he : e.data with
        | bridgeSend s =>
          simp only [he]
          cases m.attachSend? e s <;> trivial
        | _ =>
          simp only [he]
          trivial

/-- What waits for a root is applied, unless an event of its kind was seen. -/
theorem confined_catchUp_root (seen : Bool) (slot : Slot) (target : State)
    (step : Message → Event → Message × Bool) (m : Message) :
    (if seen then Task.done m else (events slot).bind fun es => applyAll target step es m).Confined
      Signal.IsProgress (·.isPut = false) fun _ => True := by
  split
  · trivial
  · exact (confined_events slot).bind fun es _ => confined_applyAll target step es m

/-- What waits alone is applied, unless an event of its kind was seen. -/
theorem confined_catchUp_single (seen : Bool) (slot : Slot) (target : State)
    (step : Message → Event → Message × Bool) (m : Message) :
    (if seen then Task.done m else (event? slot).bind fun
      | none => .done m
      | some e => announce target e (step m e)).Confined
      Signal.IsProgress (·.isPut = false) fun _ => True := by
  split
  · trivial
  · refine (confined_event? slot).bind fun e? _ => ?_
    cases e? with
    | none => trivial
    | some e => exact confined_announce target e _

/-- Catching up tells of nothing but messages that move on, and writes nothing to the pool. -/
theorem confined_catchUp (m : Message) :
    (catchUp m).Confined Signal.IsProgress (·.isPut = false) fun _ => True := by
  refine (confined_catchUpSend m).bind fun m _ => ?_
  refine Confined.bind (confined_catchUp_root m.seen.updated _ .updated _ m) fun m _ => ?_
  refine Confined.bind (confined_catchUp_root m.seen.relayed _ .relayed _ m) fun m _ => ?_
  refine Confined.bind (confined_catchUp_single _ _ .received _ m) fun m _ => ?_
  exact confined_catchUp_single _ _ .processed _ m

variable (net : Network)

theorem confined_settle (m : Message) :
    (settle net m).Confined Signal.IsProgress (·.isPut = false) fun _ => True :=
  (confined_catchUp m).bind fun _ _ => ⟨rfl, fun _ => trivial⟩

theorem confined_load (r : Record) :
    (load net r).Confined S (·.isPut = false) fun _ => True := by
  rw [load]
  cases Message.ofRecord net r <;> trivial

/-- A branch tells of nothing but messages that move on, and writes nothing to the pool. -/
theorem confined_branch (target : State) (step : Message → Event → Message × Bool) (e : Event)
    (r : Record) :
    (branch net target step e r).Confined Signal.IsProgress (·.isPut = false) fun _ => True :=
  (confined_load net r).bind fun _ _ => (confined_announce target e _).bind fun m _ =>
    confined_settle net m

/-! ### Handing an event over -/

variable {α : Type} {Q : α → Prop} {e : Event}

/-- A task hands an event to the pool as the last that it does. Only one that is not of a root may
also end without handing it over. -/
inductive HandsOver (e : Event) (Q : α → Prop) : Task α → Prop
  | store {a : α} (ha : Q a) : HandsOver e Q ((Pending.store e).bind fun _ => .done a)
  | fail (f : Failure) : HandsOver e Q (.fail f)
  | ask {c : Call} {k : c.Answer → Task α} (hc : c.isPut = false)
      (h : ∀ a, HandsOver e Q (k a)) : HandsOver e Q (.ask c k)
  | aside {t : Task α} (hupdate : e.kind ≠ .homeUpdate) (hrelay : e.kind ≠ .replicaUpdate)
      (h : t.Confined (Signal.IsAside e) (·.isPut = false) Q) : HandsOver e Q t

theorem confined_put (slot : Slot) (value : String) :
    (put slot value).Confined S (fun _ => True) fun _ => True :=
  confined_call (A := fun _ => True) trivial

theorem confined_appendUnique (slot : Slot) (value : String) :
    (appendUnique slot value).Confined S (fun _ => True) fun _ => True := by
  refine (confined_call trivial).bind fun there _ => ?_
  cases there with
  | false => exact confined_put slot _
  | true =>
    refine ((confined_listed slot).mono (fun _ h => h) fun _ _ => trivial).bind fun values _ => ?_
    split
    · trivial
    · exact confined_put slot _

theorem confined_store (e : Event) :
    (Pending.store e).Confined (Signal.IsAbout e) (fun _ => True) fun _ => True := by
  rw [Pending.store]
  cases Slot.ofEvent? e with
  | none => trivial
  | some slot =>
    dsimp only
    split
    · exact (confined_appendUnique slot _).bind fun _ _ => ⟨rfl, trivial⟩
    · exact (confined_appendUnique slot _).bind fun _ _ => ⟨rfl, trivial⟩
    · exact (confined_put slot _).bind fun _ _ => ⟨rfl, trivial⟩
    · exact (confined_put slot _).bind fun _ _ => ⟨rfl, trivial⟩
    · exact (confined_put slot _).bind fun _ _ => ⟨rfl, trivial⟩

theorem HandsOver.confined {t : Task α} (h : HandsOver e Q t) :
    t.Confined (Signal.IsAbout e) (fun _ => True) Q := by
  induction h with
  | store ha => exact (confined_store e).bind fun _ _ => ha
  | fail f => trivial
  | ask _ _ ih => exact ⟨trivial, ih⟩
  | aside _ _ h => exact h.mono (fun _ hx => hx.isAbout) fun _ _ => trivial

/-- A task that hands the event over before nothing but an end. -/
theorem HandsOver.bind_done {t : Task Unit} (h : HandsOver e (fun _ => True) t) {a : α} (ha : Q a) :
    HandsOver e Q (t.bind fun _ => .done a) := by
  induction h with
  | store _ =>
    rw [Task.bind_assoc]
    exact .store ha
  | fail f => exact .fail f
  | ask hc _ ih => exact .ask hc ih
  | aside hupdate hrelay h => exact .aside hupdate hrelay (h.bind fun _ _ => ha)

theorem handsOver_store (e : Event) : HandsOver e (fun _ => True) (Pending.store e) := by
  have h := HandsOver.store (e := e) (Q := fun _ : Unit => True) (a := ()) trivial
  rwa [show (fun _ : Unit => Task.done ()) = Task.done from rfl, Task.bind_done] at h

/-- The work of an event on the message of a record, or its handing over if there is none. -/
theorem handsOver_loadOption (hupdate : e.kind ≠ .homeUpdate) (hrelay : e.kind ≠ .replicaUpdate)
    (r? : Option Record) {f : Option Message → Task Unit} (hnone : f none = Pending.store e)
    (hsome : ∀ m, (f (some m)).Confined Signal.IsProgress (·.isPut = false) fun _ => True) :
    HandsOver e (fun _ => True) ((loadOption net r?).bind f) := by
  cases r? with
  | none =>
    change HandsOver e (fun _ => True) (f none)
    rw [hnone]
    exact handsOver_store e
  | some r =>
    have hload : (loadOption net (some r)).Confined Signal.IsProgress (·.isPut = false)
        fun m? => ∃ m, m? = some m :=
      (confined_load net r).bind fun m _ => ⟨m, rfl⟩
    have hwork := hload.bind (R := fun _ => True) fun m? ⟨m, hm⟩ => hm ▸ hsome m
    exact .aside hupdate hrelay
      (hwork.mono (fun _ hx => Signal.IsProgress.isAside hx e) fun _ hc => hc)

/-! ### The work on an event up to its branches -/

/-- The branches of an event tell of nothing but messages that move on, and write nothing to the
pool. -/
def Settling (ts : List (Task Unit)) : Prop :=
  ∀ t ∈ ts, t.Confined Signal.IsProgress (·.isPut = false) fun _ => True

theorem settling_nil : Settling [] := List.forall_mem_nil _

theorem handsOver_onRoot (target : State) (step : Message → Event → Message × Bool) (e : Event)
    (u : RootUpdate) : HandsOver e Settling (onRoot net target step e u) := by
  refine .ask rfl fun records => .store fun t ht => ?_
  obtain ⟨r, -, rfl⟩ := List.mem_map.mp ht
  exact confined_branch net target step e r

theorem confined_onDispatch (d : Dispatch) (h : e.kind = .dispatch) :
    (onDispatch net e d).Confined (Signal.IsAside e) (·.isPut = false) fun _ => True := by
  refine ⟨⟨rfl, h⟩, rfl, fun r? => ?_⟩
  cases r? with
  | some r => trivial
  | none =>
    have hcatch := (confined_catchUp (created net e d)).mono
      (fun _ hx => Signal.IsProgress.isAside hx e) fun _ hc => hc
    exact ⟨trivial, hcatch.bind (R := fun _ => True) fun _ _ => ⟨rfl, fun _ => trivial⟩⟩

/-- What the work on an event does up to its branches, and what its branches do. -/
theorem handsOver_branches (e : Event) : HandsOver e Settling (branches net e) := by
  rw [branches]
  cases hdata : e.data with
  | dispatch d =>
    have hkind : e.kind = .dispatch := by rw [Event.kind, hdata, Event.Data.kind]
    have hwork := (confined_onDispatch net d hkind).bind (R := Settling)
      (f := fun _ => .done []) fun _ _ => settling_nil
    exact .aside (by simp [hkind]) (by simp [hkind]) hwork
  | homeUpdate u => exact handsOver_onRoot net _ _ e u
  | replicaUpdate u => exact handsOver_onRoot net _ _ e u
  | process p =>
    have hkind : e.kind = .process := by rw [Event.kind, hdata, Event.Data.kind]
    refine HandsOver.bind_done (.ask rfl fun r? => ?_) settling_nil
    exact handsOver_loadOption net (by simp [hkind]) (by simp [hkind]) r? rfl fun m =>
      (confined_announce _ e _).bind fun m _ => confined_settle net m
  | bridgeSend s =>
    have hkind : e.kind = .bridgeSend := by rw [Event.kind, hdata, Event.Data.kind]
    refine HandsOver.bind_done (.ask rfl fun r? => ?_) settling_nil
    refine handsOver_loadOption net (by simp [hkind]) (by simp [hkind]) r? rfl fun m => ?_
    dsimp only
    cases m.attachSend? e s with
    | none => trivial
    | some m => exact confined_settle net m
  | bridgeReceive r =>
    have hkind : e.kind = .bridgeReceive := by rw [Event.kind, hdata, Event.Data.kind]
    refine HandsOver.bind_done (.ask rfl fun r? => ?_) settling_nil
    refine handsOver_loadOption net (by simp [hkind]) (by simp [hkind]) r? rfl fun m => ?_
    dsimp only
    split
    · exact (confined_announce _ e _).bind fun m _ => confined_settle net m
    · trivial

end Tracker

end Waybill
