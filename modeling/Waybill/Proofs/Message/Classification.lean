import Waybill.Message.Basic
import Waybill.Proofs.Packed.Formats
/-!
# What a body is taken for

The payload of a message is decided once, when the message is made. There are two candidates for
it, a transfer if the bridge router of the origin sent the message and an action if the governance
router did. A body that cannot be read as the first of them that its sender allows should fall back
to the next one, but a body sent by the bridge router is never tried as an action. That makes a
difference only for an account that is both routers of a domain.

## Main definitions

* `Payload.IsFirstCandidate`: a payload is the first candidate that a body can be read as.

## Main results

* `Message.new_classified`: what a message shows of its body, and when that is the first candidate.
-/

namespace Waybill

namespace Payload

variable {net : Network} {origin : UInt32} {sender : Identifier} {body : Bytes} {t : Transfer}
  {g : Governance}

/-- A payload is the first candidate that a body can be read as: a transfer if the bridge router
sent it, otherwise an action if the governance router did, otherwise nothing. -/
structure IsFirstCandidate (net : Network) (origin : UInt32) (sender : Identifier) (body : Bytes)
    (p : Payload) : Prop where
  transfer : ∀ t, p = .transfer t ↔
    net.bridgeRouter origin = some sender ∧ Transfer.decode body = .ok t
  governance : ∀ g, p = .governance g ↔
    (¬ ∃ t, net.bridgeRouter origin = some sender ∧ Transfer.decode body = .ok t) ∧
      net.governanceRouter origin = some sender ∧ Governance.decode body = .ok g

theorem ofTransferBody_eq_transfer : ofTransferBody body = .transfer t ↔
    Transfer.decode body = .ok t := by
  rw [ofTransferBody]
  cases Transfer.decode body <;> simp

theorem ofTransferBody_ne_governance : ofTransferBody body ≠ .governance g := by
  rw [ofTransferBody]
  cases Transfer.decode body <;> simp

theorem ofGovernanceBody_eq_governance : ofGovernanceBody body = .governance g ↔
    Governance.decode body = .ok g := by
  rw [ofGovernanceBody]
  cases Governance.decode body <;> simp

theorem ofGovernanceBody_ne_transfer : ofGovernanceBody body ≠ .transfer t := by
  rw [ofGovernanceBody]
  cases Governance.decode body <;> simp

theorem classify_eq_transfer : classify net origin sender body = .transfer t ↔
    net.bridgeRouter origin = some sender ∧ Transfer.decode body = .ok t := by
  rw [classify]
  split
  · next hbridge => simp [hbridge, ofTransferBody_eq_transfer]
  · next hbridge =>
    split
    · simp [hbridge, ofGovernanceBody_ne_transfer]
    · simp [hbridge]

theorem classify_eq_governance : classify net origin sender body = .governance g ↔
    net.bridgeRouter origin ≠ some sender ∧ net.governanceRouter origin = some sender ∧
      Governance.decode body = .ok g := by
  rw [classify]
  split
  · next hbridge => simp [hbridge, ofTransferBody_ne_governance]
  · next hbridge =>
    split
    · next hgovernance => simp [hbridge, hgovernance, ofGovernanceBody_eq_governance]
    · next hgovernance => simp [hbridge, hgovernance]

/-- No bytes hold an action and a transfer: they are not as many. -/
theorem not_transfer_of_governance (hg : Governance.decode body = .ok g) :
    Transfer.decode body ≠ .ok t := by
  intro ht
  obtain ⟨hlen, -⟩ := (Transfer.isOk_decode_iff body).mp ⟨t, ht⟩
  cases (Governance.isOk_decode_iff body).mp ⟨g, hg⟩ <;> rw [List.length_cons] at hlen <;> omega

/-- A payload is the first candidate unless the body is an action and both routers sent it. -/
theorem isFirstCandidate_classify_iff :
    (classify net origin sender body).IsFirstCandidate net origin sender body ↔
      ¬ (net.bridgeRouter origin = some sender ∧ net.governanceRouter origin = some sender ∧
        ∃ g, Governance.decode body = .ok g) := by
  constructor
  · rintro hfirst ⟨hbridge, hgovernance, g, hg⟩
    have hclassified := (hfirst.governance g).mpr
      ⟨fun ⟨_, _, ht⟩ => not_transfer_of_governance hg ht, hgovernance, hg⟩
    exact (classify_eq_governance.mp hclassified).1 hbridge
  · intro hapart
    refine ⟨fun _ => classify_eq_transfer, fun g => classify_eq_governance.trans ?_⟩
    constructor
    · rintro ⟨hbridge, hgovernance, hg⟩
      exact ⟨fun ⟨_, h, _⟩ => hbridge h, hgovernance, hg⟩
    · rintro ⟨-, hgovernance, hg⟩
      exact ⟨fun hbridge => hapart ⟨hbridge, hgovernance, g, hg⟩, hgovernance, hg⟩

end Payload

namespace Message

variable {net : Network} {origin : UInt32} {body : Bytes}

theorem unpack_of_short (h : body.length < 76) :
    unpack net origin body = (.zero, .zero, .empty) := by
  rw [unpack, Envelope.decode_of_short h]

theorem unpack_of_decode {e : Envelope} (h : Envelope.decode body = .ok e) :
    unpack net origin body = (e.sender, e.recipient, .classify net origin e.sender e.body) := by
  rw [unpack, h]

/-- A body that is too short for an envelope shows nothing. Any other body shows the accounts of the
envelope; the message is a transfer exactly if the bridge router sent it and it holds one, and an
action exactly if the governance router sent it, the bridge router did not, and it holds one. So it
is taken for the first candidate unless both routers sent it and it holds an action. -/
theorem new_classified (net : Network) (identity : Identity) (dispatchedAt : UInt64) :
    let m := Message.new net identity dispatchedAt
    m.identity = identity ∧
    (identity.body.length < 76 →
      m.internalSender = .zero ∧ m.internalRecipient = .zero ∧ m.payload = .empty) ∧
    (76 ≤ identity.body.length → ∃ e, Envelope.decode identity.body = .ok e ∧
      m.internalSender = e.sender ∧ m.internalRecipient = e.recipient ∧
      (∀ t, m.payload = .transfer t ↔ net.bridgeRouter identity.origin = some e.sender ∧
        Transfer.decode e.body = .ok t) ∧
      (∀ g, m.payload = .governance g ↔ net.bridgeRouter identity.origin ≠ some e.sender ∧
        net.governanceRouter identity.origin = some e.sender ∧
        Governance.decode e.body = .ok g) ∧
      (m.payload.IsFirstCandidate net identity.origin e.sender e.body ↔
        ¬ (net.bridgeRouter identity.origin = some e.sender ∧
          net.governanceRouter identity.origin = some e.sender ∧
          ∃ g, Governance.decode e.body = .ok g))) := by
  intro m
  have hshown : (m.internalSender, m.internalRecipient, m.payload) =
    unpack net identity.origin identity.body := rfl
  refine ⟨rfl, fun hshort => ?_, fun hlong => ?_⟩
  · rw [unpack_of_short hshort] at hshown
    simpa using hshown
  · obtain ⟨e, he⟩ := (Envelope.isOk_decode_iff identity.body).mpr hlong
    rw [unpack_of_decode he, Prod.mk.injEq, Prod.mk.injEq] at hshown
    obtain ⟨hsender, hrecipient, hpayload⟩ := hshown
    rw [hpayload]
    exact ⟨e, he, hsender, hrecipient, fun _ => Payload.classify_eq_transfer,
      fun _ => Payload.classify_eq_governance, Payload.isFirstCandidate_classify_iff⟩

/-- A batch that was sent by an account which is both routers of its domain. -/
theorem action_of_shared_router_is_missed :
    let router : Identifier := .zero
    let net : Network := ⟨SortedMap.empty.insert 1 ⟨1, "home", some router, some router, none⟩⟩
    let e : Envelope := ⟨1, router, 0, 2, .zero, (Governance.batch default).encode⟩
    let m := Message.new net ⟨1, 2, 0, default, default, 0, e.encode, 7⟩ 100
    Envelope.decode e.encode = .ok e ∧ net.governanceRouter 1 = some e.sender ∧
      Governance.decode e.body = .ok (.batch default) ∧ m.payload = .empty ∧
      ¬ m.payload.IsFirstCandidate net 1 e.sender e.body := by
  intro router net e m
  have hbridge : net.bridgeRouter 1 = some e.sender := by decide
  have hgovernance : net.governanceRouter 1 = some e.sender := by decide
  have hbatch : Governance.decode e.body = .ok (.batch default) :=
    Governance.decode_encode (.batch default)
  have hpayload : m.payload = .classify net 1 e.sender e.body :=
    congrArg (·.2.2) (unpack_of_decode (Envelope.decode_encode e))
  have hempty : m.payload = .empty := by
    rw [hpayload]
    decide +kernel
  refine ⟨Envelope.decode_encode e, hgovernance, hbatch, hempty, ?_⟩
  rw [hpayload, Payload.isFirstCandidate_classify_iff]
  exact not_not_intro ⟨hbridge, hgovernance, _, hbatch⟩

end Message

end Waybill
