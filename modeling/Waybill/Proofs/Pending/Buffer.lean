import Waybill.Proofs.Ordered.Distinct
import Waybill.Proofs.Pending.Access
/-!
# The pool as a buffer

Whatever events are handed to an empty pool, every lookup finds its own events again and no other
ones. The updates and relays of a root are found as they came, those that came again left out. Of
the other kinds the last event with the values of the lookup is found. A dispatch leaves no trace.

## Main definitions

* `Event.isUpdateOf`, `Event.isRelayOf`, `Event.isSendOf`, `Event.isReceiptOf`,
  `Event.isProcessingOf`: which events a lookup is for.
* `Pending.Lookup.kept`: what of some events is kept for a lookup.
* `Memory.Buffers`: all lookups over a pool are answered from some events.

## Main results

* `Pending.held_foldl_keep`: what waits is what is kept of the events.
* `Pending.run_inOrder_store`: events are handed to the pool one after another.
* `Pending.store_buffers`: the pool answers all lookups from the events that were handed to it.
-/

namespace Waybill

namespace Event

/-- Whether an event updates a root at its home. -/
def isUpdateOf (origin : UInt32) (root : Digest) (e : Event) : Bool :=
  match e.data with
  | .homeUpdate u => u.homeDomain == origin && u.oldRoot == root
  | _ => false

/-- Whether an event updates a root in a replica of its home. -/
def isRelayOf (origin : UInt32) (root : Digest) (e : Event) : Bool :=
  match e.data with
  | .replicaUpdate u => u.homeDomain == origin && u.oldRoot == root
  | _ => false

/-- Whether an event sends a transfer with these values. -/
def isSendOf (destination : UInt32) (recipient : Identifier) (amount : Word) (block : UInt64)
    (e : Event) : Bool :=
  match e.data with
  | .bridgeSend s =>
    s.toDomain == destination && s.toId == recipient && s.amount == amount && e.block == block
  | _ => false

/-- Whether an event pays out the tokens of the message with this number. -/
def isReceiptOf (origin nonce destination : UInt32) (e : Event) : Bool :=
  match e.data with
  | .bridgeReceive r => r.origin == origin && r.nonce == nonce && e.domain == destination
  | _ => false

/-- Whether an event processes the message of a hash. -/
def isProcessingOf (hash : Digest) (e : Event) : Bool :=
  match e.data with
  | .process p => p.messageHash == hash
  | _ => false

end Event

namespace Pending

open Waybill.Task

namespace Lookup

variable {l : Lookup} {es : List Event} {e : Event}

/-- Whether a lookup is for an event. -/
def isFor : Lookup → Event → Bool
  | send destination recipient amount block => Event.isSendOf destination recipient amount block
  | update origin root => Event.isUpdateOf origin root
  | relay origin root => Event.isRelayOf origin root
  | receive origin nonce destination => Event.isReceiptOf origin nonce destination
  | process hash => Event.isProcessingOf hash

/-- An event is put where the lookups for it look. -/
theorem ofEvent?_eq_some_iff : ofEvent? e = some l ↔ l.isFor e = true := by
  cases l with
  | send d p a b =>
    simp only [ofEvent?_eq_send, isFor, Event.isSendOf]
    cases e.data <;> simp [and_assoc]
  | update o r =>
    simp only [ofEvent?_eq_update, isFor, Event.isUpdateOf]
    cases e.data <;> simp
  | relay o r =>
    simp only [ofEvent?_eq_relay, isFor, Event.isRelayOf]
    cases e.data <;> simp
  | receive o n d =>
    simp only [ofEvent?_eq_receive, isFor, Event.isReceiptOf]
    cases e.data <;> simp [and_assoc]
  | process h =>
    simp only [ofEvent?_eq_process, isFor, Event.isProcessingOf]
    cases e.data <;> simp

/-- What of some events is kept for a lookup. -/
def kept (l : Lookup) (es : List Event) : List Event :=
  if l.keepsAll then (es.filter l.isFor).eraseDups else (es.filter l.isFor).getLast?.toList

theorem kept_concat (l : Lookup) (es : List Event) (e : Event) :
    l.kept (es ++ [e]) = if ofEvent? e = some l then l.arrange (l.kept es) e else l.kept es := by
  rw [kept, kept, List.filter_append]
  by_cases he : l.isFor e = true
  · rw [if_pos (ofEvent?_eq_some_iff.mpr he), List.filter_cons_of_pos he, List.filter_nil,
      eraseDups_concat, List.getLast?_concat, Option.toList_some, arrange]
    split
    · simp only [List.mem_eraseDups]
    · rfl
  · rw [if_neg (mt ofEvent?_eq_some_iff.mp he), List.filter_cons_of_neg he, List.filter_nil,
      List.append_nil]

end Lookup

/-! ### What waits after some events -/

theorem held_foldl_keep_of_kept {s : Stock} {l : Lookup} {ds : List Event}
    (h : s.held l = l.kept ds) (es : List Event) :
    (es.foldl Stock.keep s).held l = l.kept (ds ++ es) := by
  induction es generalizing s ds with
  | nil => rwa [List.append_nil]
  | cons e es ih =>
    have hkeep : (s.keep e).held l = l.kept (ds ++ [e]) := by
      rw [Lookup.kept_concat, ← h]
      rfl
    have hrest := ih hkeep
    rwa [List.append_assoc, List.singleton_append] at hrest

/-- What waits for a lookup is what is kept of the events. -/
theorem held_foldl_keep (l : Lookup) (es : List Event) :
    (es.foldl Stock.keep .empty).held l = l.kept es := by
  have hempty : Stock.empty.held l = l.kept [] := by
    rw [Lookup.kept]
    split <;> rfl
  exact held_foldl_keep_of_kept hempty es

/-- Events are handed to the pool one after another, and none of them is refused. -/
theorem run_inOrder_store {s : Stock} {m : Memory} (h : s.ShownBy m.pool) (es : List Event) :
    ∃ pool, (es.foldl Stock.keep s).ShownBy pool ∧
      (inOrder (es.map store)).run Memory.backend m =
        ⟨.ok (), { m with pool }, es.flatMap storeSignals⟩ := by
  induction es generalizing s m with
  | nil => exact ⟨m.pool, h, rfl⟩
  | cons e es ih =>
    obtain ⟨pool₁, hpool₁, hwrite⟩ := writesLast_store h e
    obtain ⟨pool, hpool, hrun⟩ := ih (m := { m with pool := pool₁ }) hpool₁
    refine ⟨pool, hpool, ?_⟩
    rw [List.map_cons, inOrder, run_bind, hwrite.run]
    simp only [hrun, Outcome.after, List.flatMap_cons]

end Pending

/-! ### What is found -/

open Pending

/-- Over a pool every lookup is answered from some events: those of a root come as they came first,
and of the others the last one is found. Asking changes nothing. -/
structure Memory.Buffers (m : Memory) (es : List Event) : Prop where
  updates : ∀ origin root, (events (.update origin root)).run Memory.backend m =
    ⟨.ok (es.filter (Event.isUpdateOf origin root)).eraseDups, m, []⟩
  relays : ∀ origin root, (events (.relay origin root)).run Memory.backend m =
    ⟨.ok (es.filter (Event.isRelayOf origin root)).eraseDups, m, []⟩
  send : ∀ destination recipient amount block,
    (event? (.send destination recipient amount block)).run Memory.backend m =
      ⟨.ok (es.filter (Event.isSendOf destination recipient amount block)).getLast?, m, []⟩
  receive : ∀ origin nonce destination,
    (event? (.receive origin nonce destination)).run Memory.backend m =
      ⟨.ok (es.filter (Event.isReceiptOf origin nonce destination)).getLast?, m, []⟩
  process : ∀ hash, (event? (.process hash)).run Memory.backend m =
    ⟨.ok (es.filter (Event.isProcessingOf hash)).getLast?, m, []⟩

namespace Pending

variable {m : Memory} {es : List Event} {l : Lookup}

theorem run_events (h : (es.foldl Stock.keep .empty).ShownBy m.pool) (hl : l.keepsAll = true) :
    (events l.slot).run Memory.backend m = ⟨.ok (es.filter l.isFor).eraseDups, m, []⟩ := by
  rw [(leads_events h hl).reads.run, held_foldl_keep, Lookup.kept, if_pos hl]

theorem run_event? (h : (es.foldl Stock.keep .empty).ShownBy m.pool) (hl : l.keepsAll = false) :
    (event? l.slot).run Memory.backend m = ⟨.ok (es.filter l.isFor).getLast?, m, []⟩ := by
  rw [(leads_event? h hl).reads.run, held_foldl_keep, Lookup.kept, if_neg (by simp [hl]),
    Option.head?_toList]

/-- A pool that shows what was kept of some events answers from them. -/
theorem buffers_of_shownBy (h : (es.foldl Stock.keep .empty).ShownBy m.pool) : m.Buffers es where
  updates origin root := run_events (l := .update origin root) h rfl
  relays origin root := run_events (l := .relay origin root) h rfl
  send destination recipient amount block :=
    run_event? (l := .send destination recipient amount block) h rfl
  receive origin nonce destination := run_event? (l := .receive origin nonce destination) h rfl
  process hash := run_event? (l := .process hash) h rfl

/-- Handing any events to an empty pool succeeds, and the pool then answers every lookup from them.
Different lookups have different entries, and a dispatch changes nothing. -/
theorem store_buffers (records : SortedMap String Record) (es : List Event) :
    (∃ pool, (Task.inOrder (es.map store)).run Memory.backend ⟨records, SortedMap.empty⟩ =
        ⟨.ok (), ⟨records, pool⟩, es.flatMap storeSignals⟩ ∧
      Memory.Buffers ⟨records, pool⟩ es) ∧
    Function.Injective Lookup.place ∧
    ∀ (e : Event) (d : Dispatch) (m : Memory),
      (store { e with data := .dispatch d }).run Memory.backend m = ⟨.ok (), m, []⟩ := by
  refine ⟨?_, fun l l' hl => Lookup.place_injective hl, fun e d m => rfl⟩
  obtain ⟨pool, hpool, hrun⟩ :=
    run_inOrder_store (m := ⟨records, SortedMap.empty⟩) Stock.shownBy_empty es
  exact ⟨pool, hrun, buffers_of_shownBy hpool⟩

end Pending

end Waybill
