import Waybill.Event.Json
import Waybill.Proofs.Json.RoundTrip
import Waybill.Proofs.Text.Identifier
/-!
# Events read back

An event is read back from its JSON text. So the pool loses nothing of what it keeps, and events
can be compared by their texts.

## Main results

* `Event.parse?_render`: an event is read back from its text.
* `Event.render_injective`: different events have different texts.
-/

namespace Waybill

namespace Json

/-! ### Leaves -/

@[simp] theorem toDigest?_ofString_text (d : Digest) : toDigest? (ofString d.text) = some d := by
  simp only [ofString, toDigest?, Digest.read_text]
  rfl

@[simp] theorem toBytes?_ofString_text (bs : Bytes) : toBytes? (ofString bs.text) = some bs := by
  simp only [ofString, toBytes?, Bytes.read_text]
  rfl

@[simp] theorem toWord?_ofString_hex (w : Word) : toWord? (ofString w.hex) = some w := by
  simp only [ofString, toWord?, Word.read_hex]
  rfl

@[simp] theorem toIdentifier?_ofString_pretty (p : Identifier) :
    toIdentifier? (ofString p.pretty) = some p := by
  simp only [ofString, toIdentifier?, Identifier.read_pretty]
  rfl

@[simp] theorem toBool?_bool (b : Bool) : toBool? (bool b) = some b := rfl

theorem toNat?_ofNat {n bound : Nat} (h : n < bound) : toNat? bound (ofNat n) = some n := by
  simp only [ofNat, toNat?, decide_eq_true h]
  rfl

@[simp] theorem toUInt32?_ofNat_toNat (n : UInt32) : toUInt32? (ofNat n.toNat) = some n := by
  simp only [toUInt32?, toNat?_ofNat n.toNat_lt, Option.map_some, UInt32.ofNat_toNat]

@[simp] theorem toUInt64?_ofNat_toNat (n : UInt64) : toUInt64? (ofNat n.toNat) = some n := by
  simp only [toUInt64?, toNat?_ofNat n.toNat_lt, Option.map_some, UInt64.ofNat_toNat]

/-! ### Structures -/

theorem keys?_keyed (ms : Fields) : keys? (keyed ms) = some ms := by
  induction ms with
  | nil => rfl
  | cons m ms ih =>
    rw [keyed, List.map_cons, keys?, ih]
    rfl

/-- The fields of a structure are found in the object that is written for it. -/
theorem fields?_record {shape : Shape} {ms : Fields} (hnames : ms.map (·.1) = shape.names)
    (hnodup : shape.names.Nodup) : fields? shape (record ms) = some ms := by
  have hknown : ms.filter (fun m => shape.names.contains m.1) = ms := by
    refine List.filter_eq_self.mpr fun m hm => ?_
    rw [← hnames, List.contains_iff_mem]
    exact List.mem_map_of_mem hm
  have hkeys : keys? (ms.map fun m => (some m.1, m.2)) = some ms := keys?_keyed ms
  rw [record, fields?]
  simp only [hkeys, hknown, hnames, hnodup, bne_self_eq_false, Bool.and_false, decide_true,
    Bool.not_true, Bool.or_false, Bool.false_eq_true, if_false]

@[simp] theorem need_cons_self {α : Type} (name : String) (v : Json) (fs : Fields)
    (read : Json → Option α) : Fields.need ((name, v) :: fs) name read = read v := by
  simp only [Fields.need, Fields.get?, List.find?_cons, beq_self_eq_true, Option.map_some,
    Option.bind_some]

theorem need_cons_of_ne {α : Type} {other name : String} (h : other ≠ name) (v : Json)
    (fs : Fields) (read : Json → Option α) :
    Fields.need ((other, v) :: fs) name read = Fields.need fs name read := by
  have hne : (other == name) = false := beq_false_of_ne h
  simp only [Fields.need, Fields.get?, List.find?_cons, hne]

end Json

/-! ### Payloads -/

open Json

@[simp] theorem Dispatch.ofJson?_toJson (d : Dispatch) : Dispatch.ofJson? d.toJson = some d := by
  have hfields : d.toJson.fields? shape = some _ := fields?_record rfl (by decide)
  simp +decide [Dispatch.ofJson?, hfields, need_cons_of_ne]

@[simp] theorem RootUpdate.ofJson?_toJson (u : RootUpdate) :
    RootUpdate.ofJson? u.toJson = some u := by
  have hfields : u.toJson.fields? shape = some _ := fields?_record rfl (by decide)
  simp +decide [RootUpdate.ofJson?, hfields, need_cons_of_ne]

@[simp] theorem Processing.ofJson?_toJson (p : Processing) :
    Processing.ofJson? p.toJson = some p := by
  have hfields : p.toJson.fields? shape = some _ := fields?_record rfl (by decide)
  simp +decide [Processing.ofJson?, hfields, need_cons_of_ne]

@[simp] theorem Send.ofJson?_toJson (s : Send) : Send.ofJson? s.toJson = some s := by
  have hfields : s.toJson.fields? shape = some _ := fields?_record rfl (by decide)
  simp +decide [Send.ofJson?, hfields, need_cons_of_ne]

@[simp] theorem Receipt.ofJson?_toJson (r : Receipt) : Receipt.ofJson? r.toJson = some r := by
  have hfields : r.toJson.fields? shape = some _ := fields?_record rfl (by decide)
  simp +decide [Receipt.ofJson?, hfields, need_cons_of_ne]

/-! ### Events -/

namespace Event

theorem Kind.ofJson?_name (k : Kind) : Kind.ofJson? (.ofString k.name) = some k := by
  cases k <;> rfl

theorem Data.ofPayload?_payload (d : Data) : Data.ofPayload? d.kind d.payload = some d := by
  cases d <;> simp only [Data.kind, Data.payload, Data.ofPayload?, Dispatch.ofJson?_toJson,
    RootUpdate.ofJson?_toJson, Processing.ofJson?_toJson, Send.ofJson?_toJson,
    Receipt.ofJson?_toJson, Option.map_some]

@[simp] theorem Data.ofJson?_toJson (d : Data) : Data.ofJson? d.toJson = some d := by
  have hkeys : keys? (keyed [("kind", .ofString d.kind.name), ("payload", d.payload)]) =
      some [("kind", .ofString d.kind.name), ("payload", d.payload)] := keys?_keyed _
  have hjson : d.toJson =
      .object (keyed [("kind", .ofString d.kind.name), ("payload", d.payload)]) := rfl
  rw [hjson, Data.ofJson?, hkeys]
  simp +decide only [Option.bind_eq_bind, Option.bind_some, List.filter_cons_of_pos,
    List.filter_nil, Kind.ofJson?_name, Data.ofPayload?_payload]

@[simp] theorem ofJson?_toJson (e : Event) : ofJson? e.toJson = some e := by
  have hfields : e.toJson.fields? shape = some _ := fields?_record rfl (by decide)
  simp +decide [Event.ofJson?, hfields, need_cons_of_ne]

theorem Data.plain_payload (d : Data) : Plain d.payload := by
  cases d <;>
    exact .record (by simp only [List.forall_mem_cons, List.not_mem_nil, false_implies,
      implies_true, Plain.ofString, Plain.ofNat, Plain.bool, and_self])

theorem plain_toJson (e : Event) : Plain e.toJson := by
  have hdata : Plain e.data.toJson := by
    refine .record ?_
    simp only [List.forall_mem_cons, List.not_mem_nil, false_implies, implies_true,
      Plain.ofString, Data.plain_payload, and_self]
  refine .record ?_
  simp only [List.forall_mem_cons, List.not_mem_nil, false_implies, implies_true, Plain.ofString,
    Plain.ofNat, hdata, and_self]

/-- An event is read back from its text. -/
@[simp] theorem parse?_render (e : Event) : parse? e.render = some e := by
  rw [parse?, render, parseAs_render e.plain_toJson, Option.bind_some, ofJson?_toJson]

/-- Different events have different texts. -/
theorem render_injective {a b : Event} (h : a.render = b.render) : a = b := by
  have hr : parse? a.render = some b := h ▸ parse?_render b
  rw [parse?_render] at hr
  exact Option.some.inj hr

end Event

end Waybill
