import Waybill.Proofs.Ledger.Moves
import Waybill.Proofs.Tracker.Simulation
import Waybill.Proofs.Tracker.Turns
/-!
# Runs of a tracker

Batches are handled one after another over the same stores. From empty stores that refuse nothing,
no batch ever fails: whatever the events are, in no state that is reached does the work on one
come upon a record that cannot be read, a message that is no transfer where one is needed, a hash
that is stored already, or an entry of the pool that is corrupted.

## Main definitions

* `Tracker.consumeAll`: batches one after another, up to the first that fails.
* `Tracker.consumeEach`: batches one after another, whatever becomes of them.

## Main results

* `Tracker.Service.consumeAll_depicts`: where no call is refused, the stores follow the ledger.
* `Tracker.Service.consume_keeps`, `Tracker.Service.consumeEach_keeps`: what every event keeps, a
  batch keeps, and so do batches.
* `Tracker.Service.consumeEach_depicts`: whichever calls are refused, the stores stand for a ledger.
* `Tracker.consumeAll_succeeds`: from empty stores every batch is handled to its end.
-/

namespace Waybill

/-! ### A transfer and its events -/

namespace Sample

/-- Two domains, with a bridge router at the first and a window at the second. -/
def network : Network :=
  ⟨(SortedMap.empty.insert 1 ⟨1, "home", some .zero, none, none⟩).insert 2
    ⟨2, "away", none, none, some 60⟩⟩

/-- A report at some time, of a chain of a domain. -/
def report (domain : UInt32) (timestamp : UInt64) (data : Event.Data) : Event :=
  ⟨domain, 7, timestamp, default, 21000, data⟩

/-- The dispatch of a transfer of the bridge router. -/
def dispatch : Event := report 1 100 <| .dispatch
  ⟨default, 0, packHalves 2 5, default, List.replicate 112 0 ++ 3 :: List.replicate 96 0⟩

def send : Event := report 1 100 <| .bridgeSend ⟨.zero, .zero, 2, .zero, 0, false⟩

def update : Event := report 1 110 <| .homeUpdate ⟨1, default, default, []⟩

def relay : Event := report 2 120 <| .replicaUpdate ⟨1, default, default, []⟩

def receive : Event := report 2 130 <| .bridgeReceive ⟨packHalves 1 5, .zero, .zero, .zero, 0⟩

def process : Event := report 2 140 <| .process ⟨default, true, []⟩

theorem length_ones : (List.replicate 32 (1 : UInt8)).length = 32 := List.length_replicate

/-- Another hash. -/
def companionHash : Digest := ⟨List.replicate 32 1, length_ones⟩

/-- The dispatch of another transfer with the same root and values. -/
def companion : Event := report 1 100 <| .dispatch
  ⟨companionHash, 1, packHalves 2 6, default, List.replicate 112 0 ++ 3 :: List.replicate 96 0⟩

/-- All events of the transfer. -/
def events : List Event := [dispatch, send, update, relay, receive, process]

end Sample

namespace Tracker

variable {σ : Type}

section Batches

variable {b : Backend σ} {fan : FanOut σ} {net : Network} {e : Event} {s : σ}

theorem consume_cons_of_ok (h : (perform b fan net e s).result = .ok ()) (es : List Event) :
    consume b fan net (e :: es) s = (consume b fan net es (perform b fan net e s).state).after
      (perform b fan net e s).signals := by
  rw [consume]
  simp only [h]

theorem consume_cons_of_error {f : Failure} (h : (perform b fan net e s).result = .error f)
    (es : List Event) : consume b fan net (e :: es) s =
      ⟨.error ⟨e, f⟩, (perform b fan net e s).state, (perform b fan net e s).signals⟩ := by
  rw [consume]
  simp only [h]

/-- A batch whose beginning is handled to its end goes on from there. -/
theorem consume_append_of_ok {ds : List Event} (h : (consume b fan net ds s).result = .ok ())
    (es : List Event) : consume b fan net (ds ++ es) s =
      (consume b fan net es (consume b fan net ds s).state).after
        (consume b fan net ds s).signals := by
  induction ds generalizing s with
  | nil => rfl
  | cons d ds ih =>
    cases hd : (perform b fan net d s).result with
    | error f =>
      rw [consume_cons_of_error hd] at h
      cases h
    | ok _ =>
      rw [consume_cons_of_ok hd] at h ⊢
      rw [List.cons_append, consume_cons_of_ok hd, ih h, Outcome.after_after]
      rfl

end Batches

/-- Handles batches one after another, up to the first that fails. -/
def consumeAll (b : Backend σ) (fan : FanOut σ) (net : Network) :
    List (List Event) → σ → Outcome σ Rejection Unit
  | [], s => ⟨.ok (), s, []⟩
  | es :: batches, s =>
    let o := consume b fan net es s
    match o.result with
    | .ok _ => (consumeAll b fan net batches o.state).after o.signals
    | .error f => ⟨.error f, o.state, o.signals⟩

/-- Handles batches one after another, whatever becomes of them. -/
def consumeEach (b : Backend σ) (fan : FanOut σ) (net : Network) (batches : List (List Event))
    (s : σ) : σ :=
  batches.foldl (fun s es => (consume b fan net es s).state) s

namespace Service

variable (v : Service σ) {net : Network} {L : Ledger} {s : σ}

/-- Where no call is refused, a batch takes the steps of the ledger. -/
theorem consume_depicts (hs : L.Depicts net (v.contents s)) (hsteady : v.Steady s)
    (es : List Event) :
    (consume v.backend v.fan net es s).result = .ok () ∧
      (L.steps net es).Depicts net (v.contents (consume v.backend v.fan net es s).state) :=
  (v.consume_cases hs es).resolve_right fun h => h.1 hsteady

/-- Where no call is refused, batches take the steps of the ledger. -/
theorem consumeAll_depicts (hs : L.Depicts net (v.contents s)) (hsteady : v.Steady s)
    (batches : List (List Event)) :
    (consumeAll v.backend v.fan net batches s).result = .ok () ∧
      (L.steps net batches.flatten).Depicts net
        (v.contents (consumeAll v.backend v.fan net batches s).state) ∧
      v.Steady (consumeAll v.backend v.fan net batches s).state := by
  induction batches generalizing L s with
  | nil => exact ⟨rfl, hs, hsteady⟩
  | cons es batches ih =>
    obtain ⟨hok, hnext⟩ := v.consume_depicts hs hsteady es
    rw [consumeAll, List.flatten_cons, Ledger.steps_append]
    simp only [hok]
    exact ih hnext (v.steady_consume es hsteady)

/-- Whichever calls are refused, what the work on an event leaves stands for a ledger. -/
theorem exists_depicts_perform (hs : L.Depicts net (v.contents s)) (e : Event) :
    ∃ L' : Ledger, L'.Depicts net (v.contents (perform v.backend v.fan net e s).state) := by
  rcases v.perform_cases hs e with ⟨-, hnext⟩ | ⟨-, -, L', -, hnext⟩
  · exact ⟨_, hnext⟩
  · exact ⟨L', hnext⟩

/-- Whichever calls are refused, what the events of a batch keep as they move a ledger, the work on
the batch keeps. -/
theorem consume_keeps {P : Ledger → Prop} {es : List Event}
    (hkeep : ∀ {L L' e}, e ∈ es → L.Moves net e L' → P L → P L')
    (hs : L.Depicts net (v.contents s)) (hL : P L) :
    ∃ L' : Ledger, L'.Depicts net (v.contents (consume v.backend v.fan net es s).state) ∧ P L' := by
  rcases v.consume_cases hs es with ⟨-, hm⟩ | ⟨-, ds, e, rest, L', rfl, -, hpart, hm⟩
  · exact ⟨_, hm, Ledger.steps_keep hkeep hL⟩
  · have hds := Ledger.steps_keep (fun hd => hkeep (List.mem_append_left _ hd)) hL
    have he : e ∈ ds ++ e :: rest := List.mem_append_right _ List.mem_cons_self
    exact ⟨L', hm, hkeep he hpart.moves hds⟩

/-- Whichever calls are refused, what every event keeps as it moves a ledger, batches keep. -/
theorem consumeEach_keeps {P : Ledger → Prop}
    (hkeep : ∀ {L L' e}, L.Moves net e L' → P L → P L') (hs : L.Depicts net (v.contents s))
    (hL : P L) (batches : List (List Event)) :
    ∃ L' : Ledger, L'.Depicts net (v.contents (consumeEach v.backend v.fan net batches s)) ∧
      P L' := by
  induction batches generalizing L s with
  | nil => exact ⟨L, hs, hL⟩
  | cons es batches ih =>
    obtain ⟨L', hs', hL'⟩ := v.consume_keeps (fun _ => hkeep) hs hL
    exact ih hs' hL'

/-- Whichever calls are refused, what is left of batches stands for a ledger. -/
theorem consumeEach_depicts (hs : L.Depicts net (v.contents s)) (batches : List (List Event)) :
    ∃ L' : Ledger, L'.Depicts net (v.contents (consumeEach v.backend v.fan net batches s)) := by
  obtain ⟨L', hs', -⟩ := v.consumeEach_keeps (fun _ _ => trivial) (P := fun _ => True) hs trivial
    batches
  exact ⟨L', hs'⟩

end Service

/-- From empty stores that refuse nothing every batch is handled to its end. -/
theorem consumeAll_succeeds (v : Service σ) (net : Network) (batches : List (List Event)) {s : σ}
    (hempty : v.contents s = Memory.empty) (hsteady : v.Steady s) :
    (consumeAll v.backend v.fan net batches s).result = .ok () :=
  (v.consumeAll_depicts (hempty ▸ Ledger.depicts_empty net) hsteady batches).1

/-- Two events ahead of the dispatch, and one after it, with branches in turns. -/
theorem consumeAll_sample_succeeds :
    let v := Stores.inTurns 3
    (consumeAll v.backend v.fan Sample.network
      [[Sample.process, Sample.relay], [Sample.dispatch, Sample.update]]
        (Guarded.ofInner Memory.empty)).result = .ok () :=
  consumeAll_succeeds (Stores.inTurns 3) Sample.network _ rfl rfl

end Tracker

end Waybill
