import Waybill.Proofs.Message.Mark
import Waybill.Proofs.Message.RoundTrip
/-!
# Messages that are taken up under another network

A message is stored under one network and taken up again under another. Whatever has happened to it
since its dispatch, nothing of that is lost: state, times, gas, marks, sender and transaction are
those that were stored, and so is what the dispatch fixed. Only the payload is that of the network
of the moment. So the message comes back as it was exactly if both networks see the same payload in
its body, for which it is enough that its origin has the same routers.

## Main definitions

* `Message.Act`, `Message.acts`: what can be done with a message, and a message after some acts.
* `Message.ofDispatch`: a message as it is before any act.
* `Message.face`: what no act changes.

## Main results

* `Message.face_acts`: acts leave alone what the dispatch fixed and what the body shows.
* `Message.unpack_congr`: what a body shows depends on the routers of its origin only.
* `Message.reload_acts`: what becomes of a message that is stored and taken up again.
-/

namespace Waybill

namespace Message

/-! ### Acts -/

/-- What can be done with a message. -/
inductive Act where
  | update (e : Event)
  | relay (e : Event)
  | receive (e : Event)
  | process (e : Event)
  | attachSend (e : Event) (s : Send)
deriving DecidableEq

/-- A message after an act. Attaching a sending of tokens fails on a message that is no transfer,
and leaves it as it is. -/
def act (m : Message) : Act → Message
  | .update e => (m.update e).1
  | .relay e => (m.relay e).1
  | .receive e => (m.receive e).1
  | .process e => (m.process e).1
  | .attachSend e s => (m.attachSend? e s).getD m

/-- A message after some acts. -/
def acts (m : Message) (as : List Act) : Message := as.foldl act m

/-- A message as it is before any act, with the gas of its dispatch and maybe a transaction. -/
def ofDispatch (net : Network) (identity : Identity) (dispatchedAt : UInt64) (gas : Word)
    (tx : Option Digest) : Message :=
  let m := new net identity dispatchedAt
  { m with gas := { m.gas with dispatched := gas }, tx }

/-- What no act changes: what the dispatch fixed, and what the body shows. -/
def face (m : Message) : Identity × Identifier × Identifier × Payload :=
  (m.identity, m.internalSender, m.internalRecipient, m.payload)

section Acts

variable (m : Message)

theorem face_advance (target : State) : (m.advance target).1.face = m.face := by
  rw [advance]
  split <;> rfl

theorem face_act (a : Act) : (m.act a).face = m.face := by
  cases a with
  | update e => exact face_advance _ _
  | receive e => exact face_advance _ _
  | process e => exact face_advance _ _
  | relay e =>
    rw [act, relay]
    split
    · rfl
    · exact face_advance _ _
  | attachSend e s =>
    rw [act, attachSend?]
    split <;> rfl

/-- Acts leave alone what the dispatch fixed and what the body shows. -/
theorem face_acts (as : List Act) : (m.acts as).face = m.face := by
  induction as generalizing m with
  | nil => rfl
  | cons a as ih => exact (ih (m.act a)).trans (m.face_act a)

/-- So does no transition. -/
theorem face_take (k : Mark) (e : Event) : (m.take k e).1.face = m.face := by
  cases k with
  | sent => rfl
  | updated => exact m.face_act (.update e)
  | relayed => exact m.face_act (.relay e)
  | received => exact m.face_act (.receive e)
  | processed => exact m.face_act (.process e)

end Acts

/-! ### What a body shows -/

variable {net later : Network} {m m' : Message} {origin : UInt32} {body : Bytes}

/-- A message whose face is that of one made under a network shows what its body shows there. -/
theorem IsUnpacked.of_face (h : m.IsUnpacked net) (hface : m'.face = m.face) :
    m'.IsUnpacked net := by
  obtain ⟨hidentity, haccounts⟩ := Prod.mk.inj hface
  rw [IsUnpacked, hidentity]
  exact haccounts.trans h

theorem isUnpacked_take {k : Mark} {e : Event} (h : m.IsUnpacked net) :
    (m.take k e).1.IsUnpacked net :=
  h.of_face (m.face_take k e)

theorem isUnpacked_repacked (net : Network) (m : Message) : (m.repacked net).IsUnpacked net :=
  rfl

/-- Which account sent a message, and which one it is for, does not depend on the network. -/
theorem unpack_accounts (net later : Network) (origin : UInt32) (body : Bytes) :
    unpack later origin body = ((unpack net origin body).1, (unpack net origin body).2.1,
      (unpack later origin body).2.2) := by
  rw [unpack, unpack]
  cases Envelope.decode body <;> rfl

/-- What a body shows depends on the routers of its origin only. -/
theorem unpack_congr (hbridge : later.bridgeRouter origin = net.bridgeRouter origin)
    (hgovernance : later.governanceRouter origin = net.governanceRouter origin) :
    unpack later origin body = unpack net origin body := by
  rw [unpack, unpack]
  cases Envelope.decode body with
  | error f => rfl
  | ok e => simp only [Payload.classify, hbridge, hgovernance]

/-- Whether a body shows a transfer, and which, depends on the bridge router of its origin only. -/
theorem transfer?_unpack_congr (hbridge : later.bridgeRouter origin = net.bridgeRouter origin) :
    (unpack later origin body).2.2.transfer? = (unpack net origin body).2.2.transfer? := by
  rw [unpack, unpack]
  cases Envelope.decode body with
  | error f => rfl
  | ok e =>
    -- what the governance router sends is no transfer
    have hother (n : Network) : (if n.governanceRouter origin = some e.sender then
        Payload.ofGovernanceBody e.body else .empty).transfer? = none := by
      split
      · rw [Payload.ofGovernanceBody]
        split <;> rfl
      · rfl
    simp only [Payload.classify, hbridge]
    split
    · rfl
    · rw [hother, hother]

/-- A message that was made under a network has another payload at most under another one. -/
theorem IsUnpacked.repacked_of (h : m.IsUnpacked net) (later : Network) :
    m.repacked later =
      { m with payload := (unpack later m.identity.origin m.identity.body).2.2 } := by
  rw [repacked, unpack_accounts net later, ← h]

/-- A message is a transfer under every network in which its origin has the same bridge router. -/
theorem IsUnpacked.isTransfer_repacked (h : m.IsUnpacked net)
    (hbridge : later.bridgeRouter m.identity.origin = net.bridgeRouter m.identity.origin) :
    (m.repacked later).isTransfer = m.isTransfer := by
  have htransfer : (unpack later m.identity.origin m.identity.body).2.2.transfer? =
      (unpack net m.identity.origin m.identity.body).2.2.transfer? :=
    transfer?_unpack_congr hbridge
  rw [← h] at htransfer
  rw [isTransfer, isTransfer, h.repacked_of later]
  exact congrArg Option.isSome htransfer

/-- A message comes back as it was under every network in which its origin has the same routers. -/
theorem IsUnpacked.ofRecord_of_routers (h : m.IsUnpacked net)
    (hbridge : later.bridgeRouter m.identity.origin = net.bridgeRouter m.identity.origin)
    (hgovernance : later.governanceRouter m.identity.origin =
      net.governanceRouter m.identity.origin) :
    ofRecord later (.ofMessage net m) = .ok m := by
  rw [Message.ofRecord_ofMessage, repacked, unpack_congr hbridge hgovernance, ← h]

section Dispatched

variable (net : Network) (identity : Identity) (dispatchedAt : UInt64) (gas : Word)
  (tx : Option Digest) (as : List Act)

theorem identity_acts_ofDispatch :
    ((ofDispatch net identity dispatchedAt gas tx).acts as).identity = identity :=
  congrArg (·.1) ((ofDispatch net identity dispatchedAt gas tx).face_acts as)

theorem isUnpacked_acts_ofDispatch :
    ((ofDispatch net identity dispatchedAt gas tx).acts as).IsUnpacked net := by
  have hunpacked : (ofDispatch net identity dispatchedAt gas tx).IsUnpacked net := rfl
  exact hunpacked.of_face (face_acts _ as)

end Dispatched

/-! ### Stored and taken up again -/

/-- A message to which anything has happened since its dispatch is taken up from its record, under
whatever network, with all that was stored and with the payload that it would have if it were
dispatched under that network. It comes back as it was exactly if that is the payload that it had,
in particular if the network is the same. -/
theorem reload_acts (net later : Network) (identity : Identity) (dispatchedAt : UInt64) (gas : Word)
    (tx : Option Digest) (as : List Act) :
    let m := (ofDispatch net identity dispatchedAt gas tx).acts as
    let back := ofRecord later (.ofMessage net m)
    back = .ok { m with payload := (new later identity dispatchedAt).payload } ∧
      (back = .ok m ↔
        (new later identity dispatchedAt).payload = (new net identity dispatchedAt).payload) ∧
      (later = net → back = .ok m) := by
  intro m back
  have hunpacked := isUnpacked_acts_ofDispatch net identity dispatchedAt gas tx as
  have hidentity : m.identity = identity := identity_acts_ofDispatch ..
  have hpayload : m.payload = (new net identity dispatchedAt).payload :=
    congrArg (·.2.2.2) ((ofDispatch net identity dispatchedAt gas tx).face_acts as)
  have hback : back = .ok { m with payload := (new later identity dispatchedAt).payload } := by
    refine (ofRecord_ofMessage net later m).trans (congrArg Except.ok ?_)
    rw [hunpacked.repacked_of later, hidentity]
    rfl
  have hsame : back = .ok m ↔
      (new later identity dispatchedAt).payload = (new net identity dispatchedAt).payload := by
    rw [hback, Except.ok.injEq, ← hpayload]
    constructor
    · intro h
      have hsame := congrArg Message.payload h
      exact hsame
    · intro h
      rw [h]
  exact ⟨hback, hsame, fun h => hsame.mpr (by rw [h])⟩

/-! ### Networks that differ elsewhere -/

end Message

namespace Sample

/-- A domain with a bridge router, and another one with a window. -/
def networkWithWindow (window : UInt64) : Network :=
  ⟨(SortedMap.empty.insert 1 ⟨1, "home", some .zero, none, none⟩).insert 2
    ⟨2, "away", none, none, some window⟩⟩

/-- What the dispatch of a transfer of the bridge router fixes. -/
def transferIdentity : Message.Identity :=
  ⟨1, 2, 5, default, default, 0, List.replicate 112 0 ++ 3 :: List.replicate 96 0, 7⟩

end Sample

namespace Message

/-- A transfer that was relayed comes back as it was after the window at its destination has been
changed. -/
theorem reload_across_windows :
    let net := Sample.networkWithWindow 60
    let later := Sample.networkWithWindow 90
    let relayed : Event := ⟨2, 7, 120, default, 21000, .replicaUpdate ⟨1, default, default, []⟩⟩
    let m := (ofDispatch net Sample.transferIdentity 100 21000 none).acts [.relay relayed]
    later ≠ net ∧ m.isTransfer = true ∧ ofRecord later (.ofMessage net m) = .ok m := by
  intro net later relayed m
  refine ⟨fun h => ?_, by decide +kernel, ?_⟩
  · have hwindow := congrArg (·.optimisticSeconds 2) h
    revert hwindow
    decide
  · have hunpacked := isUnpacked_acts_ofDispatch net Sample.transferIdentity 100 21000 none
      [.relay relayed]
    have hidentity : m.identity = Sample.transferIdentity := identity_acts_ofDispatch ..
    refine hunpacked.ofRecord_of_routers ?_ ?_
    · rw [hidentity]
      decide
    · rw [hidentity]
      decide

end Message

end Waybill
