import Waybill.Proofs.Tracker.Atomicity
import Waybill.Proofs.Tracker.Upkeep
/-!
# Batches under changing networks

The stores outlive the network: after a restart the next batches may be consumed under another one.
A sending of tokens is attached to the message whose record tells its values. These were written
under an earlier network, but whether the message is a transfer is decided by its body under the
network of the moment. If the bridge router of its origin has changed, the message that is found may
be no transfer any more; then the work on the sending fails, and it fails again whenever it is tried
again. Nothing else ever makes a batch fail.

## Main definitions

* `Tracker.Reconfigured`: what is stored after batches each under a network of its own.
* `Memory.Kept`: what holds of these stores.
* `Tracker.stuckAt?`: the message that a sending is for though it is no transfer.

## Main results

* `Tracker.perform_of_stuck`, `Tracker.perform_of_free`: the work on one event.
* `Tracker.consume_rejected_iff`: when a batch is rejected.
-/

namespace Waybill

open Waybill.Pending Waybill.Task Message

namespace Sample

/-- The two domains without a bridge router. -/
def networkWithoutRouter : Network :=
  ⟨(SortedMap.empty.insert 1 ⟨1, "home", none, none, none⟩).insert 2
    ⟨2, "away", none, none, some 60⟩⟩

end Sample

/-- A record is that of a message that was made under one of the networks. -/
def Record.IsMadeUnder (N : Network → Prop) (r : Record) : Prop :=
  ∃ net m, N net ∧ m.IsUnpacked net ∧ r = .ofMessage net m

/-- All records are those of messages that were made under the networks, and what waits are entries
of events. -/
structure Memory.Kept (N : Network → Prop) (m : Memory) : Prop where
  records : ∀ {key r}, m.records.find? key = some r → r.IsMadeUnder N
  pool : ∀ {bucket key value}, m.pool.find? (bucket, key) = some value →
    IsEntry (fun _ => True) bucket key value

namespace Memory.Kept

variable {N : Network → Prop} {m : Memory}

theorem empty (N : Network → Prop) : Memory.empty.Kept N where
  records h := by simp [Memory.empty] at h
  pool h := by simp [Memory.empty] at h

theorem mono {N' : Network → Prop} (h : m.Kept N) (hN : ∀ net, N net → N' net) :
    m.Kept N' where
  records hr := by
    obtain ⟨net, message, hnet, hm⟩ := h.records hr
    exact ⟨net, message, hN net hnet, hm⟩
  pool := h.pool

theorem of_mem_values (h : m.Kept N) {r : Record} (hr : r ∈ m.records.values) :
    r.IsMadeUnder N := by
  obtain ⟨key, hkey⟩ := SortedMap.mem_values_iff.mp hr
  exact h.records hkey

/-- A record of such a message may be stored. -/
theorem insert (h : m.Kept N) {r : Record} (hr : r.IsMadeUnder N) :
    Memory.Kept N { m with records := m.records.insert r.messageHash r } where
  records {key r'} hr' := by
    rw [SortedMap.find?_insert] at hr'
    split at hr'
    · exact Option.some.inj hr' ▸ hr
    · exact h.records hr'
  pool := h.pool

/-- An entry of events may be set. -/
theorem put (h : m.Kept N) {bucket key value : String}
    (hentry : IsEntry (fun _ => True) bucket key value) :
    Memory.Kept N { m with pool := m.pool.insert (bucket, key) value } where
  records := h.records
  pool {bucket' key' value'} hvalue := by
    rw [SortedMap.find?_insert] at hvalue
    split at hvalue
    · next hplace =>
      obtain ⟨rfl, rfl⟩ := Prod.mk.inj hplace
      exact Option.some.inj hvalue ▸ hentry
    · exact h.pool hvalue

end Memory.Kept

namespace Tracker

/-- The hash of the message that a sending is for, if under a network the message is no transfer. -/
def stuckAt? (net : Network) (m : Memory) (e : Event) : Option Digest :=
  match e.data with
  | .bridgeSend s =>
    match m.records.values.find?
        (Record.isOfSend s.toDomain s.toId.pretty s.amount.decimal e.block) with
    | none => none
    | some r =>
      match Message.ofRecord net r with
      | .ok message => if message.isTransfer then none else some message.hash
      | .error _ => none
  | _ => none

/-- What is stored after batches from empty stores, each consumed under one of the networks and with
its branches worked off in any turns. -/
inductive Reconfigured (N : Network → Prop) : Memory → Prop
  | empty : Reconfigured N Memory.empty
  | consumed {m : Memory} (h : Reconfigured N m) {net : Network} (hnet : N net)
      {fan : FanOut Memory} (hfan : ∀ ts s, Memory.backend.Interleaves ts s (fan ts s))
      (batch : List Event) : Reconfigured N (consume Memory.backend fan net batch m).state

variable {N : Network → Prop} {net : Network} {m : Memory} {e : Event}

/-! ### Stores in memory under changing networks -/

/-- Under a network of theirs, messages are taken up from all such records. -/
theorem keeping_reconfigured (hnet : N net) :
    Keeping net (fun _ => True) (Record.IsMadeUnder N) (IsUnpacked net) where
  created _ _ := rfl
  lasting _ _ _ h _ _ := isUnpacked_take h
  loads := by
    rintro _ ⟨net', message, -, -, rfl⟩
    exact ⟨_, isUnpacked_repacked net message, ofRecord_ofMessage net' net message⟩
  saves hm := ⟨net, _, hnet, hm, rfl⟩

/-- Stores in memory keep to the contract of the work on events, under whatever networks their
records were stored. -/
theorem keeper_memory (N : Network → Prop) :
    Keeper Memory.backend (fun _ => True) (Record.IsMadeUnder N) (Memory.Kept N)
      fun _ => False where
  honours := by
    intro m c hm hc
    cases c with
    | insert r => exact hc.elim
    | page limit offset => exact hc.elim
    | bySend destination recipient amount block => exact hc.elim
    | update r => exact Backend.honours_of_ok rfl (hm.insert hc) trivial
    | put bucket key value => exact Backend.honours_of_ok rfl (hm.put hc) trivial
    | byHash hash => exact Backend.honours_of_ok rfl hm fun r hr => hm.records hr
    | byRoot origin root =>
      exact Backend.honours_of_ok rfl hm fun r hr => hm.of_mem_values (List.mem_of_mem_filter hr)
    | byNonce origin nonce destination =>
      exact Backend.honours_of_ok rfl hm fun r hr =>
        hm.of_mem_values (List.mem_of_find?_eq_some hr)
    | get bucket key => exact Backend.honours_of_ok rfl hm fun value hvalue => hm.pool hvalue
    | has bucket key => exact Backend.honours_of_ok rfl hm trivial
  missing := by
    intro m hash hm hnone
    refine ⟨fun m => m.Kept N ∧ m.records.find? hash.text = none, ⟨hm, Except.ok.inj hnone⟩,
      And.left, ?_, ?_⟩
    · intro m c hm hc
      cases c with
      | get bucket key =>
        refine ⟨hm, fun value? hvalue? value hvalue => ?_, fun f hf => by cases hf⟩
        exact hm.1.pool ((Except.ok.inj hvalue?).trans hvalue)
      | _ => exact hc.elim
    · rintro m r ⟨hm, hfind⟩ ⟨hr, hhash⟩
      have hnew : m.records.contains r.messageHash = false := by
        rw [SortedMap.contains_eq_false_iff, hhash, hfind]
      have hanswer : m.answer (.insert r) =
          (.ok (), { m with records := m.records.insert r.messageHash r }) :=
        if_neg (by simp [hnew])
      change Memory.Kept N (m.answer (.insert r)).2 ∧
        ∀ f, (m.answer (.insert r)).1 = .error f → False
      rw [hanswer]
      exact ⟨hm.insert hr, fun f hf => by cases hf⟩
  bySend _ _ _ _ hm := ⟨hm, fun f hf => by cases hf⟩

/-! ### One event -/

theorem stuckAt?_eq_some {hash : Digest} : stuckAt? net m e = some hash ↔
    ∃ s r message, e.data = .bridgeSend s ∧
      m.records.values.find? (Record.isOfSend s.toDomain s.toId.pretty s.amount.decimal e.block) =
        some r ∧
      Message.ofRecord net r = .ok message ∧ message.isTransfer = false ∧
      message.hash = hash := by
  constructor
  · intro h
    rw [stuckAt?] at h
    split at h
    · next s hdata =>
      split at h
      · cases h
      · next r hr =>
        split at h
        · next message hload =>
          split at h
          · cases h
          · next htransfer =>
            exact ⟨s, r, message, hdata, hr, hload, by simpa using htransfer, Option.some.inj h⟩
        · cases h
    · cases h
  · rintro ⟨s, r, message, hdata, hr, hload, htransfer, rfl⟩
    simp [stuckAt?, hdata, hr, hload, htransfer]

/-- The work on a sending fails if the message that it is for is no transfer, and does nothing. -/
theorem perform_of_stuck (fan : FanOut Memory) {hash : Digest} (h : stuckAt? net m e = some hash) :
    perform Memory.backend fan net e m =
      ⟨.error (.notTransfer hash), m, [.consumed e.kind]⟩ := by
  obtain ⟨s, r, message, hdata, hr, hload, htransfer, rfl⟩ := stuckAt?_eq_some.mp h
  have hattach : message.attachSend? e s = none := if_neg (by simp [htransfer])
  have hrun : (onSend net e s).run Memory.backend m =
      ⟨.error (.notTransfer message.hash), m, []⟩ := by
    change (Task.run _ (Task.bind (loadOption net (m.records.values.find? _)) _) m) = _
    rw [hr, loadOption, load, hload]
    change Task.run _ (Task.bind (.done (some message)) _) m = _
    simp only [Task.bind, hattach]
    rfl
  rw [perform, branches, hdata]
  simp only [Task.run, Task.run_bind, hrun, Outcome.after]
  rfl

/-- Where no sending is stuck, what is found for it is a transfer or nothing. -/
theorem findsTransfer_of_free (hm : m.Kept N) (hfree : stuckAt? net m e = none) :
    FindsTransfer Memory.backend net (IsUnpacked net) e m := by
  intro s hdata r hr
  replace hr : m.records.values.find?
    (Record.isOfSend s.toDomain s.toId.pretty s.amount.decimal e.block) = some r := Except.ok.inj hr
  obtain ⟨net', message, -, -, rfl⟩ := hm.of_mem_values (List.mem_of_find?_eq_some hr)
  have hload := ofRecord_ofMessage net' net message
  refine ⟨message.repacked net, ⟨isUnpacked_repacked net message, ?_⟩, hload⟩
  cases htransfer : (message.repacked net).isTransfer with
  | true => rfl
  | false =>
    rw [stuckAt?_eq_some.mpr ⟨s, _, _, hdata, hr, hload, htransfer, rfl⟩] at hfree
    cases hfree

/-- A record that is found by the values of a sending is that of a message that was a transfer when
it was stored. -/
theorem isTransfer_of_isOfSend {message : Message} {destination : UInt32}
    {recipient amount : String} {block : UInt64}
    (h : (Record.ofMessage net message).isOfSend destination recipient amount block = true) :
    message.isTransfer = true := by
  simp only [Record.isOfSend, Bool.and_eq_true, beq_iff_eq] at h
  have hamount : message.transfer?.map _ = some amount := h.2
  rw [isTransfer, ← Option.isSome_map, hamount]
  rfl

/-- Under a network in which the bridge routers are those of all networks before, no sending is
stuck. -/
theorem stuckAt?_of_routers (hm : m.Kept N)
    (hrouters : ∀ net', N net' → ∀ id, net'.bridgeRouter id = net.bridgeRouter id) (e : Event) :
    stuckAt? net m e = none := by
  cases h : stuckAt? net m e with
  | none => rfl
  | some hash =>
    obtain ⟨s, r, message, -, hr, hload, htransfer, -⟩ := stuckAt?_eq_some.mp h
    obtain ⟨net', stored, hnet', hunpacked, rfl⟩ := hm.of_mem_values (List.mem_of_find?_eq_some hr)
    rw [ofRecord_ofMessage] at hload
    obtain rfl := Except.ok.inj hload
    have hsame := hunpacked.isTransfer_repacked (hrouters net' hnet' _).symm
    rw [htransfer, isTransfer_of_isOfSend (List.find?_some hr)] at hsame
    cases hsame

/-- If stores show a ledger, a sending is stuck if the message that it is for is no transfer when it
is taken up again under another network. -/
theorem stuckAt?_of_addressee {net' : Network} {L : Ledger} {j : Journey} {s : Send}
    (hm : L.Depicts net' m) (hdata : e.data = .bridgeSend s)
    (haddr : L.addressee? net' .sent e = some j)
    (htransfer : ((j.message net').repacked net).isTransfer = false) :
    stuckAt? net m e = some j.dispatch.messageHash := by
  have hfind := hm.find?_values fun i => i.isOfSend_record net' hdata
  rw [haddr] at hfind
  exact stuckAt?_eq_some.mpr
    ⟨s, j.record net', _, hdata, hfind, ofRecord_ofMessage .., htransfer, rfl⟩

section Runs

variable {fan : FanOut Memory} (hfan : ∀ ts s, Memory.backend.Interleaves ts s (fan ts s))
include hfan

/-- Where no sending is stuck, the work on an event is done. -/
theorem perform_of_free (hm : m.Kept N) (hnet : N net) (hfree : stuckAt? net m e = none) :
    (perform Memory.backend fan net e m).result = .ok () ∧
      (perform Memory.backend fan net e m).state.Kept N := by
  obtain ⟨hkept, -, herror⟩ := (keeper_memory N).perform hfan (keeping_reconfigured hnet) trivial hm
    (findsTransfer_of_free hm hfree)
  cases hr : (perform Memory.backend fan net e m).result with
  | ok _ => exact ⟨rfl, hkept⟩
  | error f => exact (herror f hr).elim

/-! ### Batches -/

/-- A batch is consumed to its end, or up to a sending that is stuck. -/
theorem consume_cases (hm : m.Kept N) (hnet : N net) (es : List Event) :
    ((consume Memory.backend fan net es m).result = .ok () ∧
      (consume Memory.backend fan net es m).state.Kept N) ∨
    ∃ ds e rest hash, es = ds ++ e :: rest ∧
      (consume Memory.backend fan net ds m).result = .ok () ∧
      (consume Memory.backend fan net ds m).state.Kept N ∧
      stuckAt? net (consume Memory.backend fan net ds m).state e = some hash := by
  induction es generalizing m with
  | nil => exact .inl ⟨rfl, hm⟩
  | cons e es ih =>
    cases h : stuckAt? net m e with
    | some hash => exact .inr ⟨[], e, es, hash, rfl, rfl, hm, h⟩
    | none =>
      obtain ⟨hok, hkept⟩ := perform_of_free hfan hm hnet h
      rcases ih hkept with ⟨hdone, hm'⟩ | ⟨ds, d, rest, hash, rfl, hds, hm', hstuck⟩
      · rw [consume_cons_of_ok hok]
        exact .inl ⟨hdone, hm'⟩
      · refine .inr ⟨e :: ds, d, rest, hash, rfl, ?_⟩
        rw [consume_cons_of_ok hok]
        exact ⟨hds, hm', hstuck⟩

omit hfan in
/-- A batch that begins with a sending that is stuck is rejected, and nothing is done. -/
theorem consume_cons_of_stuck {hash : Digest} (h : stuckAt? net m e = some hash)
    (rest : List Event) : consume Memory.backend fan net (e :: rest) m =
      ⟨.error ⟨e, .notTransfer hash⟩, m, [.consumed e.kind]⟩ := by
  have hperform := perform_of_stuck fan h
  rw [consume_cons_of_error (congrArg Outcome.result hperform), hperform]

omit hfan in
/-- A batch ends at a sending that is stuck, and leaves the stores as they were before it. -/
theorem consume_of_stuck {ds : List Event} {hash : Digest}
    (hds : (consume Memory.backend fan net ds m).result = .ok ())
    (hstuck : stuckAt? net (consume Memory.backend fan net ds m).state e = some hash)
    (rest : List Event) :
    (consume Memory.backend fan net (ds ++ e :: rest) m).result =
        .error ⟨e, .notTransfer hash⟩ ∧
      (consume Memory.backend fan net (ds ++ e :: rest) m).state =
        (consume Memory.backend fan net ds m).state := by
  rw [consume_append_of_ok hds, consume_cons_of_stuck hstuck]
  exact ⟨rfl, rfl⟩

omit hfan in
/-- Whatever the networks were, the records are those of messages that were made under them. -/
theorem Reconfigured.kept (h : Reconfigured N m) : m.Kept N := by
  induction h with
  | empty => exact .empty N
  | consumed _ hnet hfan batch ih =>
    rcases consume_cases hfan ih hnet batch with
      ⟨-, hkept⟩ | ⟨ds, e, rest, hash, rfl, hds, hkept, h⟩
    · exact hkept
    · rw [(consume_of_stuck hds h rest).2]
      exact hkept

/-- After batches under any networks, a batch is rejected under a network exactly at a sending that
is stuck, with the message that it is for; then it is rejected again when it is tried again. No
batch is rejected if the bridge routers have never changed. -/
theorem consume_rejected_iff (hm : Reconfigured N m) (net : Network) (batch : List Event) :
    let consumed := consume Memory.backend fan net
    (∀ r, (consumed batch m).result = .error r ↔ ∃ ds rest hash, batch = ds ++ r.event :: rest ∧
      (consumed ds m).result = .ok () ∧ stuckAt? net (consumed ds m).state r.event = some hash ∧
      r.failure = .notTransfer hash) ∧
    (∀ r, (consumed batch m).result = .error r → ∀ rest,
      (consumed (r.event :: rest) (consumed batch m).state).result = .error r ∧
      (consumed (r.event :: rest) (consumed batch m).state).state = (consumed batch m).state) ∧
    ((∀ net', N net' → ∀ id, net'.bridgeRouter id = net.bridgeRouter id) →
      (consumed batch m).result = .ok ()) := by
  intro consumed
  have hkept : m.Kept fun net' => N net' ∨ net' = net := hm.kept.mono fun _ => .inl
  have hcases := consume_cases hfan hkept (.inr rfl) batch
  -- a batch that is rejected ends at a sending that is stuck
  have hrejected (r : Rejection) (hr : (consumed batch m).result = .error r) :
      ∃ ds rest hash, batch = ds ++ r.event :: rest ∧ (consumed ds m).result = .ok () ∧
        stuckAt? net (consumed ds m).state r.event = some hash ∧ r.failure = .notTransfer hash := by
    rcases hcases with ⟨hok, -⟩ | ⟨ds, e, rest, hash, rfl, hds, -, hstuck⟩
    · rw [hok] at hr
      cases hr
    · have hresult := (consume_of_stuck hds hstuck rest).1
      obtain rfl := Except.error.inj (hresult.symm.trans hr)
      exact ⟨ds, rest, hash, rfl, hds, hstuck, rfl⟩
  refine ⟨fun r => ⟨hrejected r, ?_⟩, fun r hr rest => ?_, fun hrouters => ?_⟩
  · obtain ⟨e, f⟩ := r
    rintro ⟨ds, rest, hash, rfl, hds, hstuck, rfl⟩
    exact (consume_of_stuck hds hstuck rest).1
  · obtain ⟨e, f⟩ := r
    obtain ⟨ds, rest', hash, rfl, hds, hstuck, rfl⟩ := hrejected _ hr
    have hstate : (consumed (ds ++ e :: rest') m).state = (consumed ds m).state :=
      (consume_of_stuck hds hstuck rest').2
    have hagain : consumed (e :: rest) (consumed ds m).state = ⟨_, _, _⟩ :=
      consume_cons_of_stuck hstuck rest
    rw [hstate, hagain]
    exact ⟨rfl, rfl⟩
  · rcases hcases with ⟨hok, -⟩ | ⟨ds, e, rest, hash, rfl, hds, hkept', hstuck⟩
    · exact hok
    · have hsame : ∀ net', N net' ∨ net' = net →
          ∀ id, net'.bridgeRouter id = net.bridgeRouter id := by
        rintro net' (hnet' | rfl) id
        · exact hrouters net' hnet' id
        · rfl
      rw [stuckAt?_of_routers hkept' hsame] at hstuck
      cases hstuck

end Runs

/-- A transfer is found for the sending of its tokens, but is none without the bridge router. -/
theorem stuckAt?_sample {m : Memory}
    (hm : (Ledger.empty.steps Sample.network [Sample.dispatch]).Depicts Sample.network m) :
    stuckAt? Sample.networkWithoutRouter m Sample.send = some default := by
  have haddr : ((Ledger.empty.steps Sample.network [Sample.dispatch]).addressee? Sample.network
      .sent Sample.send).any fun j => j.start = Sample.dispatch ∧
        .dispatch j.dispatch = Sample.dispatch.data := by
    decide +kernel
  obtain ⟨j, haddr, hj⟩ := (Option.any_eq_true _ _).mp haddr
  obtain ⟨hstart, hdata⟩ := of_decide_eq_true hj
  have hdispatch := Event.Data.dispatch.inj hdata
  have htransfer : ((j.message Sample.network).repacked Sample.networkWithoutRouter).isTransfer =
      false := by
    change (unpack Sample.networkWithoutRouter j.start.domain
      j.dispatch.message).2.2.transfer?.isSome = false
    rw [hstart, hdispatch]
    decide +kernel
  rw [stuckAt?_of_addressee hm rfl haddr htransfer, hdispatch]

/-- After the dispatch of a transfer the bridge router of its origin is no longer configured. -/
theorem send_rejected_without_router :
    let consumed := undisturbed Sample.networkWithoutRouter
    let stored := (undisturbed Sample.network [Sample.dispatch] Memory.empty).state
    (consumed [Sample.send] stored).result = .error ⟨Sample.send, .notTransfer default⟩ := by
  intro consumed stored
  have hstored := (undisturbed_depicts (Ledger.depicts_empty Sample.network) [Sample.dispatch]).2
  exact congrArg Outcome.result (consume_cons_of_stuck (stuckAt?_sample hstored) [])

/-- The sending goes on being rejected whatever comes after it, and is taken as soon as the bridge
router is configured again. -/
theorem consume_rejected_iff_sample :
    let consumed := undisturbed Sample.networkWithoutRouter
    let stored := (undisturbed Sample.network [Sample.dispatch] Memory.empty).state
    (∀ rest, (consumed (Sample.send :: rest) (consumed [Sample.send] stored).state).result =
        .error ⟨Sample.send, .notTransfer default⟩) ∧
      (undisturbed Sample.network [Sample.send] stored).result = .ok () := by
  have hfan : ∀ ts m, Memory.backend.Interleaves ts m (oneByOne Memory.backend ts m) :=
    Memory.backend.interleaves_inOrder [] (by simp)
  -- of what is stored only this matters
  suffices h : ∀ m, Reconfigured (fun net => net = Sample.network) m →
      stuckAt? Sample.networkWithoutRouter m Sample.send = some default →
      let consumed := undisturbed Sample.networkWithoutRouter
      (∀ rest, (consumed (Sample.send :: rest) (consumed [Sample.send] m).state).result =
          .error ⟨Sample.send, .notTransfer default⟩) ∧
        (undisturbed Sample.network [Sample.send] m).result = .ok () from
    h _ (.consumed (N := fun net => net = Sample.network) .empty rfl hfan [Sample.dispatch])
      (stuckAt?_sample
        (undisturbed_depicts (Ledger.depicts_empty Sample.network) [Sample.dispatch]).2)
  intro m hreached hstuck
  obtain ⟨hiff, hagain, -⟩ :=
    consume_rejected_iff hfan hreached Sample.networkWithoutRouter [Sample.send]
  obtain ⟨-, -, hrouters⟩ := consume_rejected_iff hfan hreached Sample.network [Sample.send]
  have hrejected := (hiff ⟨Sample.send, .notTransfer default⟩).mpr
    ⟨[], [], default, rfl, rfl, hstuck, rfl⟩
  refine ⟨fun rest => (hagain _ hrejected rest).1, hrouters ?_⟩
  rintro _ rfl id
  rfl

end Tracker

end Waybill
