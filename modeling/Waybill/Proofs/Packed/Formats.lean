import Waybill.Packed.Envelope
import Waybill.Packed.Transfer
import Waybill.Packed.Governance
import Waybill.Proofs.Packed.Field
/-!
# The packed formats are exact

Each format is read from just those bytes that are written for its values: what is read is written
as the same bytes again, and what is written is read as the same value. Other bytes are refused for
the first reason that there is in a fixed order. Fields are read at their places; read off one
after the other they give the same, take up all bytes, and never run past their end.

## Main definitions

* `Envelope.reader`, `Transfer.reader`, `Governance.reader`: the formats, field after field.
* `Packed.Exact`: a format is read from just what is written.

## Main results

* `Packed.formats_exact`: the three formats are exact.
-/

namespace Waybill

open Packed (Fault Reader)

/-- A packed format is read from just the bytes that are written for its values, and other bytes are
refused with their fault. Read off field after field, bytes are taken up to their end and not
further. -/
structure Packed.Exact {α : Type} (decode : Bytes → Except Fault α) (encode : α → Bytes)
    (reader : Reader α) (accepts : Bytes → Prop) (fault : Bytes → Fault) : Prop where
  isOk_iff : ∀ raw, (∃ a, decode raw = .ok a) ↔ accepts raw
  encode_of_decode : ∀ {raw a}, decode raw = .ok a → encode a = raw
  decode_encode : ∀ a, decode (encode a) = .ok a
  refused : ∀ {raw}, ¬ accepts raw → decode raw = .error (fault raw)
  reader_eq : ∀ raw, reader raw = some ((decode raw).map fun a => (a, []))

/-- What is refused unless it is accepted is read exactly if it is accepted. -/
theorem Packed.isOk_iff_of_refused {α : Type} {decode : Bytes → Except Fault α} {raw : Bytes}
    {accepted : Prop} {f : Fault} (hread : accepted → ∃ a, decode raw = .ok a)
    (hrefused : ¬ accepted → decode raw = .error f) : (∃ a, decode raw = .ok a) ↔ accepted := by
  refine ⟨?_, hread⟩
  rintro ⟨a, ha⟩
  by_contra h
  rw [hrefused h] at ha
  cases ha

/-! ### Envelopes -/

namespace Envelope

/-- Reads an envelope field after field, once there are enough bytes for its header. -/
def reader : Reader Envelope := do
  let raw ← get
  if raw.length < headerLength then Packed.refuse (.tooShort .envelope headerLength raw.length)
  else
    return {
      origin := ← Packed.number
      sender := ← Packed.identifier
      nonce := ← Packed.number
      destination := ← Packed.number
      recipient := ← Packed.identifier
      body := ← Packed.remainder }

variable {raw : Bytes} {e : Envelope}

theorem decode_of_short (h : raw.length < 76) :
    decode raw = .error (.tooShort .envelope 76 raw.length) :=
  dif_pos h

/-- What is read from bytes that are enough. -/
theorem decode_of_le (h : 76 ≤ raw.length) : decode raw = .ok {
    origin := (raw.field 0 4).toUInt32
    sender := raw.identifierAt 4 (Nat.le_trans (by decide) h)
    nonce := (raw.field 36 4).toUInt32
    destination := (raw.field 40 4).toUInt32
    recipient := raw.identifierAt 44 (Nat.le_trans (by decide) h)
    body := raw.drop 76 } :=
  dif_neg (Nat.not_lt.mpr h)

theorem isOk_decode_iff (raw : Bytes) : (∃ e, decode raw = .ok e) ↔ 76 ≤ raw.length :=
  Packed.isOk_iff_of_refused (fun h => ⟨_, decode_of_le h⟩)
    fun h => decode_of_short (Nat.lt_of_not_le h)

theorem encode_of_decode (h : decode raw = .ok e) : e.encode = raw := by
  have hlen := (isOk_decode_iff raw).mp ⟨e, h⟩
  rw [decode_of_le hlen] at h
  obtain rfl := Except.ok.inj h
  have hwidth {start : Nat} (h : start + 4 ≤ raw.length) := Bytes.length_field h
  simp only [encode, Bytes.identifierAt]
  rw [Bytes.ofUInt32_toUInt32 (hwidth (by omega)), Bytes.ofUInt32_toUInt32 (hwidth (by omega)),
    Bytes.ofUInt32_toUInt32 (hwidth (by omega))]
  rw [raw.field_append_drop 44 32, raw.field_append_drop 40 4, raw.field_append_drop 36 4,
    raw.field_append_drop 4 32, raw.field_append_drop 0 4, List.drop_zero]

/-- What is written for an envelope is long enough. -/
theorem length_encode (e : Envelope) : e.encode.length = 76 + e.body.length := by
  simp only [encode, List.length_append, Bytes.length_ofUInt32, e.sender.length_eq,
    e.recipient.length_eq]
  omega

theorem decode_encode (e : Envelope) : decode e.encode = .ok e := by
  have h0 : e.encode.drop 0 = Bytes.ofUInt32 e.origin ++ _ := rfl
  have h4 := Bytes.drop_of_drop_eq h0 (Bytes.length_ofUInt32 _)
  have h36 := Bytes.drop_of_drop_eq h4 e.sender.length_eq
  have h40 := Bytes.drop_of_drop_eq h36 (Bytes.length_ofUInt32 _)
  have h44 := Bytes.drop_of_drop_eq h40 (Bytes.length_ofUInt32 _)
  have h76 := Bytes.drop_of_drop_eq h44 e.recipient.length_eq
  have hlen : 76 ≤ e.encode.length := by
    rw [length_encode]
    omega
  rw [decode_of_le hlen, Bytes.toUInt32_of_drop_eq h0, Bytes.identifierAt_of_drop_eq h4,
    Bytes.toUInt32_of_drop_eq h36, Bytes.toUInt32_of_drop_eq h40, Bytes.identifierAt_of_drop_eq h44,
    h76]

theorem reader_eq (raw : Bytes) : reader raw = some ((decode raw).map fun e => (e, [])) := by
  rw [reader, Packed.bind_of_ok rfl]
  by_cases h : raw.length < headerLength
  · rw [if_pos h, decode_of_short h]
    rfl
  · have hlen : 76 ≤ raw.length := Nat.not_lt.mp h
    rw [if_neg h, decode_of_le hlen]
    change (Packed.number >>= _) (raw.drop 0) = _
    simp (disch := omega) only [Packed.number_bind, Packed.identifier_bind, Nat.zero_add,
      Nat.reduceAdd]
    rfl

theorem exact_format : Packed.Exact decode encode reader (fun raw => 76 ≤ raw.length)
    fun raw => .tooShort .envelope 76 raw.length where
  isOk_iff := isOk_decode_iff
  encode_of_decode := encode_of_decode
  decode_encode := decode_encode
  refused h := decode_of_short (Nat.lt_of_not_le h)
  reader_eq := reader_eq

end Envelope

/-! ### Transfers -/

namespace Transfer

/-- Reads a transfer field after field, once there are as many bytes as it has. -/
def reader : Reader Transfer := do
  let raw ← get
  if raw.length ≠ bodyLength then
    Packed.refuse (.wrongLength .transfer bodyLength raw.length)
  else
    let tokenDomain ← Packed.number
    let tokenId ← Packed.identifier
    let action ← Packed.byte
    match allowFast? action with
    | none => Packed.refuse (.unknownAction .transfer action)
    | some allowFast =>
      return {
        tokenDomain
        tokenId
        allowFast
        recipient := ← Packed.identifier
        amount := ← Packed.word
        detailsHash := ← Packed.digest }

/-- Bytes that hold a transfer: there are 133, and the one after the token tells the action. -/
def IsBody (raw : Bytes) : Prop := raw.length = 133 ∧ (raw[36]? = some 3 ∨ raw[36]? = some 4)

/-- Why bytes hold no transfer. Their number is looked at before the action. -/
def fault (raw : Bytes) : Fault :=
  if raw.length = 133 then .unknownAction .transfer (raw[36]?.getD 0)
  else .wrongLength .transfer 133 raw.length

variable {raw : Bytes} {t : Transfer}

theorem allowFast?_eq_some {a : UInt8} {fast : Bool} :
    allowFast? a = some fast ↔ a = action fast := by
  rw [allowFast?]
  split
  · next h => subst h; cases fast <;> decide
  · next h3 =>
    split
    · next h => subst h; cases fast <;> decide
    · next h4 => cases fast <;> simp [action, h3, h4]

theorem decode_of_length_ne (h : raw.length ≠ 133) :
    decode raw = .error (.wrongLength .transfer 133 raw.length) :=
  dif_pos h

theorem decode_of_unknown (h : raw.length = 133) (ha : allowFast? raw[36] = none) :
    decode raw = .error (.unknownAction .transfer raw[36]) := by
  have hbody : ¬ raw.length ≠ bodyLength := not_not_intro h
  rw [decode, dif_neg hbody]
  simp only [ha]

/-- What is read from 133 bytes with an action. -/
theorem decode_of_known (h : raw.length = 133) {fast : Bool} (ha : raw[36] = action fast) :
    decode raw = .ok {
      tokenDomain := (raw.field 0 4).toUInt32
      tokenId := raw.identifierAt 4 (by omega)
      recipient := raw.identifierAt 37 (by omega)
      amount := Word.ofBytes (raw.field 69 32)
      allowFast := fast
      detailsHash := raw.digestAt 101 (by omega) } := by
  have hbody : ¬ raw.length ≠ bodyLength := not_not_intro h
  rw [decode, dif_neg hbody]
  simp only [allowFast?_eq_some.mpr ha]

theorem isBody_iff : IsBody raw ↔ ∃ h : raw.length = 133, ∃ fast, raw[36] = action fast := by
  rw [IsBody, ← exists_prop]
  refine exists_congr fun h => ?_
  rw [List.getElem?_eq_getElem (by omega : 36 < raw.length), Bool.exists_bool]
  simp [action]

theorem refused (h : ¬ IsBody raw) : decode raw = .error (fault raw) := by
  rw [fault]
  split
  · next hlen =>
    have hnone : allowFast? raw[36] = none := by
      rw [Option.eq_none_iff_forall_ne_some]
      exact fun fast hfast => h (isBody_iff.mpr ⟨hlen, fast, allowFast?_eq_some.mp hfast⟩)
    rw [decode_of_unknown hlen hnone, List.getElem?_eq_getElem (by omega), Option.getD_some]
  · next hlen => exact decode_of_length_ne hlen

theorem isOk_decode_iff (raw : Bytes) : (∃ t, decode raw = .ok t) ↔ IsBody raw := by
  refine Packed.isOk_iff_of_refused (fun h => ?_) refused
  obtain ⟨hlen, fast, ha⟩ := isBody_iff.mp h
  exact ⟨_, decode_of_known hlen ha⟩

theorem encode_of_decode (h : decode raw = .ok t) : t.encode = raw := by
  obtain ⟨hlen, fast, ha⟩ := isBody_iff.mp ((isOk_decode_iff raw).mp ⟨t, h⟩)
  rw [decode_of_known hlen ha] at h
  obtain rfl := Except.ok.inj h
  have hwidth {start width : Nat} (h : start + width ≤ raw.length) := Bytes.length_field h
  simp only [encode, Bytes.identifierAt, Bytes.digestAt]
  -- the fields are put together again from the last one to the first
  rw [Bytes.ofUInt32_toUInt32 (hwidth (by omega)), Word.toBytes_ofBytes (hwidth (by omega)),
    raw.field_eq_drop 101 hlen, raw.field_append_drop 69 32, raw.field_append_drop 37 32, ← ha,
    ← List.drop_eq_getElem_cons, raw.field_append_drop 4 32, raw.field_append_drop 0 4,
    List.drop_zero]

theorem length_encode (t : Transfer) : t.encode.length = 133 := by
  simp only [encode, List.length_append, List.length_cons, Bytes.length_ofUInt32,
    t.tokenId.length_eq, t.recipient.length_eq, t.amount.length_toBytes, t.detailsHash.length_eq]

theorem decode_encode (t : Transfer) : decode t.encode = .ok t := by
  have h0 : t.encode.drop 0 = Bytes.ofUInt32 t.tokenDomain ++ _ := rfl
  have h4 := Bytes.drop_of_drop_eq h0 (Bytes.length_ofUInt32 _)
  have h36 := Bytes.drop_of_drop_eq h4 t.tokenId.length_eq
  have h37 : t.encode.drop 37 = t.recipient.bytes ++ _ :=
    Bytes.drop_of_drop_eq (a := [action t.allowFast]) h36 rfl
  have h69 := Bytes.drop_of_drop_eq h37 t.recipient.length_eq
  have h101 : t.encode.drop 101 = t.detailsHash.bytes ++ [] :=
    (Bytes.drop_of_drop_eq h69 t.amount.length_toBytes).trans (List.append_nil _).symm
  have hlen := t.length_encode
  rw [decode_of_known hlen (Bytes.getElem_of_drop_eq h36 (by omega)), Bytes.toUInt32_of_drop_eq h0,
    Bytes.identifierAt_of_drop_eq h4, Bytes.identifierAt_of_drop_eq h37, Bytes.word_of_drop_eq h69,
    Bytes.digestAt_of_drop_eq h101]

theorem reader_eq (raw : Bytes) : reader raw = some ((decode raw).map fun t => (t, [])) := by
  rw [reader, Packed.bind_of_ok rfl]
  by_cases h : raw.length ≠ bodyLength
  · rw [if_pos h, decode_of_length_ne h]
    rfl
  · have hlen : raw.length = 133 := not_not.mp h
    rw [if_neg h]
    change (Packed.number >>= _) (raw.drop 0) = _
    simp (disch := omega) only [Packed.number_bind, Packed.identifier_bind, Packed.byte_bind,
      Nat.zero_add, Nat.reduceAdd]
    cases ha : allowFast? raw[36] with
    | none =>
      rw [decode_of_unknown hlen ha]
      rfl
    | some fast =>
      rw [decode_of_known hlen (allowFast?_eq_some.mp ha)]
      simp (disch := omega) only [Packed.identifier_bind, Packed.word_bind, Packed.digest_bind,
        Nat.reduceAdd]
      rw [List.drop_eq_nil_of_le (by omega)]
      rfl

theorem exact_format : Packed.Exact decode encode reader IsBody fault where
  isOk_iff := isOk_decode_iff
  encode_of_decode := encode_of_decode
  decode_encode := decode_encode
  refused := refused
  reader_eq := reader_eq

end Transfer

/-! ### Governance actions -/

namespace Governance

/-- Reads an action field after field: its byte, and when that is known what it says, once there are
as many bytes as that takes. -/
def reader : Reader Governance := do
  let raw ← get
  if raw.isEmpty then Packed.refuse (.tooShort .governance 1 0)
  else
    let action ← Packed.byte
    let rest ← get
    if action = 1 then
      if rest.length = 32 then return .batch (← Packed.digest)
      else Packed.refuse (.wrongLength .governance 33 raw.length)
    else if action = 2 then
      if rest.length = 36 then return .transferGovernor (← Packed.number) (← Packed.identifier)
      else Packed.refuse (.wrongLength .governance 37 raw.length)
    else Packed.refuse (.unknownAction .governance action)

/-- Bytes that hold an action. -/
inductive IsBody : Bytes → Prop
  | batch {rest : Bytes} (h : rest.length = 32) : IsBody (1 :: rest)
  | transferGovernor {rest : Bytes} (h : rest.length = 36) : IsBody (2 :: rest)

/-- Why bytes hold no action. A missing action byte is noticed first, then an unknown one, then a
wrong number of bytes. -/
def fault : Bytes → Fault
  | [] => .tooShort .governance 1 0
  | action :: rest =>
    if action = 1 then .wrongLength .governance 33 (rest.length + 1)
    else if action = 2 then .wrongLength .governance 37 (rest.length + 1)
    else .unknownAction .governance action

variable {raw rest : Bytes} {g : Governance}

theorem decode_batch (h : rest.length = 32) : decode (1 :: rest) = .ok (.batch ⟨rest, h⟩) := by
  rw [decode, if_pos rfl, dif_pos h]

theorem decode_transferGovernor (h : rest.length = 36) : decode (2 :: rest) =
    .ok (.transferGovernor (rest.field 0 4).toUInt32 (rest.identifierAt 4 (governor_fits h))) := by
  rw [decode, if_neg (by decide), if_pos rfl, dif_pos h]

theorem refused (h : ¬ IsBody raw) : decode raw = .error (fault raw) := by
  cases raw with
  | nil => rfl
  | cons action rest =>
    rw [decode, fault]
    split
    · next haction =>
      subst haction
      exact dif_neg fun hlen => h (.batch hlen)
    · split
      · next haction =>
        subst haction
        exact dif_neg fun hlen => h (.transferGovernor hlen)
      · rfl

theorem isOk_decode_iff (raw : Bytes) : (∃ g, decode raw = .ok g) ↔ IsBody raw := by
  refine Packed.isOk_iff_of_refused ?_ refused
  rintro (h | h)
  · exact ⟨_, decode_batch h⟩
  · exact ⟨_, decode_transferGovernor h⟩

theorem encode_of_decode (h : decode raw = .ok g) : g.encode = raw := by
  cases (isOk_decode_iff raw).mp ⟨g, h⟩ with
  | batch hlen =>
    rw [decode_batch hlen] at h
    obtain rfl := Except.ok.inj h
    rfl
  | @transferGovernor rest hlen =>
    rw [decode_transferGovernor hlen] at h
    obtain rfl := Except.ok.inj h
    simp only [encode, Bytes.identifierAt]
    rw [Bytes.ofUInt32_toUInt32 (Bytes.length_field (by omega)),
      rest.field_eq_drop 4 hlen, rest.field_append_drop 0 4, List.drop_zero]

theorem decode_encode (g : Governance) : decode g.encode = .ok g := by
  cases g with
  | batch hash => exact decode_batch hash.length_eq
  | transferGovernor domain governor =>
    have h0 : (Bytes.ofUInt32 domain ++ governor.bytes).drop 0 = Bytes.ofUInt32 domain ++ _ := rfl
    have h4 : (Bytes.ofUInt32 domain ++ governor.bytes).drop 4 = governor.bytes ++ [] :=
      (Bytes.drop_of_drop_eq h0 (Bytes.length_ofUInt32 _)).trans (List.append_nil _).symm
    have hlen : (Bytes.ofUInt32 domain ++ governor.bytes).length = 36 := by
      rw [List.length_append, Bytes.length_ofUInt32, governor.length_eq]
    rw [encode, decode_transferGovernor hlen, Bytes.toUInt32_of_drop_eq h0,
      Bytes.identifierAt_of_drop_eq h4]

theorem reader_eq (raw : Bytes) : reader raw = some ((decode raw).map fun g => (g, [])) := by
  cases raw with
  | nil => rfl
  | cons action rest =>
    rw [reader, Packed.bind_of_ok rfl, if_neg (by simp), Packed.bind_of_ok rfl,
      Packed.bind_of_ok rfl]
    by_cases hbatch : action = 1
    · subst hbatch
      by_cases hlen : rest.length = 32
      · have h0 : rest.drop 0 = (⟨rest, hlen⟩ : Digest).bytes ++ [] := (List.append_nil rest).symm
        rw [if_pos rfl, if_pos hlen, decode_batch hlen]
        change (Packed.digest >>= _) (rest.drop 0) = _
        rw [Packed.digest_bind (Nat.le_of_eq hlen.symm), Bytes.digestAt_of_drop_eq h0,
          List.drop_eq_nil_of_le (Nat.le_of_eq hlen)]
        rfl
      · rw [if_pos rfl, if_neg hlen, decode, if_pos rfl, dif_neg hlen]
        rfl
    · by_cases hgovernor : action = 2
      · subst hgovernor
        by_cases hlen : rest.length = 36
        · rw [if_neg hbatch, if_pos rfl, if_pos hlen, decode_transferGovernor hlen]
          change (Packed.number >>= _) (rest.drop 0) = _
          simp (disch := omega) only [Packed.number_bind, Packed.identifier_bind, Nat.zero_add,
            Nat.reduceAdd]
          rw [List.drop_eq_nil_of_le (Nat.le_of_eq hlen)]
          rfl
        · rw [if_neg hbatch, if_pos rfl, if_neg hlen, decode, if_neg hbatch, if_pos rfl,
            dif_neg hlen]
          rfl
      · rw [if_neg hbatch, if_neg hgovernor, decode, if_neg hbatch, if_neg hgovernor]
        rfl

theorem exact_format : Packed.Exact decode encode reader IsBody fault where
  isOk_iff := isOk_decode_iff
  encode_of_decode := encode_of_decode
  decode_encode := decode_encode
  refused := refused
  reader_eq := reader_eq

end Governance

/-- The three packed formats are exact: envelopes are all bytes from the length of a header on,
transfers and governance actions those of their lengths with a known action. -/
theorem Packed.formats_exact :
    Packed.Exact Envelope.decode Envelope.encode Envelope.reader (fun raw => 76 ≤ raw.length)
      (fun raw => .tooShort .envelope 76 raw.length) ∧
    Packed.Exact Transfer.decode Transfer.encode Transfer.reader Transfer.IsBody Transfer.fault ∧
    Packed.Exact Governance.decode Governance.encode Governance.reader Governance.IsBody
      Governance.fault :=
  ⟨Envelope.exact_format, Transfer.exact_format, Governance.exact_format⟩

end Waybill
