import Waybill.Pending.Basic
import Waybill.Proofs.Event.RoundTrip
/-!
# Lookups and their places in the pool

A lookup is what the pool is asked for: the values that an event and a message have in common. Its
place in the pool, a bucket and a key, spells these values, and different lookups have different
places. What is kept at a place is read back as the events that were put there.

## Main definitions

* `Pending.Lookup`: the five kinds of lookups with their values.
* `Pending.Lookup.place`: the bucket and the key under which a lookup is answered.
* `Pending.Lookup.entry?`: what is kept for a lookup when the given events wait for it.

## Main results

* `Pending.Lookup.place_injective`: no two lookups share a place.
* `Pending.parseList?_renderList`: a list of texts is read back from its text.
* `Pending.texts_lose_nothing`: events are read back from their texts, also out of lists of texts.
-/

namespace Waybill.Pending

/-! ### Lists of texts -/

/-- A list of texts is read back from its text. -/
@[simp] theorem parseList?_renderList (values : List String) :
    parseList? (renderList values) = some values := by
  have hplain : ∀ v ∈ values.map Json.ofString, Json.Plain v := by
    intro v hv
    obtain ⟨s, -, rfl⟩ := List.mem_map.mp hv
    exact .ofString s
  have hread : Json.readAll Json.toString? (values.map .ofString) = some values := by
    induction values with
    | nil => rfl
    | cons s values ih =>
      have := ih fun v hv => hplain v (List.mem_cons_of_mem _ hv)
      simp only [List.map_cons, Json.readAll, this, Json.ofString, Json.toString?, Option.map_some]
  rw [parseList?, renderList, Json.parse_render_array hplain, Option.bind_some]
  exact hread

@[simp] theorem parseAll?_map_render (es : List Event) :
    parseAll? (es.map Event.render) = some es := by
  induction es with
  | nil => rfl
  | cons e es ih => simp only [List.map_cons, parseAll?, Event.parse?_render, ih, Option.map_some]

/-- Nothing of an event is lost in its text. It is read back from the text by itself, and from the
place of the text in a list of whatever texts that was written as one. All events whose texts make
up a list are read back in their order. So events are told apart by their texts. -/
theorem texts_lose_nothing :
    (∀ e : Event, Event.parse? e.render = some e) ∧
      (∀ (before : List String) (e : Event) (after : List String),
        (parseList? (renderList (before ++ e.render :: after))).bind
          (fun texts => texts[before.length]?.bind Event.parse?) = some e) ∧
      (∀ es : List Event,
        (parseList? (renderList (es.map Event.render))).bind parseAll? = some es) ∧
      ∀ d e : Event, d.render = e.render ↔ d = e := by
  refine ⟨Event.parse?_render, fun before e after => ?_, fun es => ?_, fun d e =>
    ⟨Event.render_injective, congrArg Event.render⟩⟩
  · have hplace : (before ++ e.render :: after)[before.length]? = some e.render := by
      rw [List.getElem?_append_right (Nat.le_refl _), Nat.sub_self, List.getElem?_cons_zero]
    rw [parseList?_renderList, Option.bind_some, hplace, Option.bind_some, Event.parse?_render]
  · rw [parseList?_renderList, Option.bind_some, parseAll?_map_render]

/-! ### Keys -/

/-- The first of two parts with a semicolon between them is determined. -/
theorem append_semicolon_inj {a b as bs : List Char} (ha : ';' ∉ a) (hb : ';' ∉ b)
    (h : a ++ ';' :: as = b ++ ';' :: bs) : a = b ∧ as = bs := by
  induction a generalizing b with
  | nil =>
    cases b with
    | nil => exact ⟨rfl, (List.cons.inj h).2⟩
    | cons c b =>
      obtain ⟨rfl, -⟩ := List.cons.inj h
      exact absurd List.mem_cons_self hb
  | cons c a ih =>
    cases b with
    | nil =>
      obtain ⟨rfl, -⟩ := List.cons.inj h
      exact absurd List.mem_cons_self ha
    | cons d b =>
      obtain ⟨rfl, htail⟩ := List.cons.inj h
      obtain ⟨rfl, hrest⟩ := ih (fun hc => ha (List.mem_cons_of_mem c hc))
        (fun hc => hb (List.mem_cons_of_mem c hc)) htail
      exact ⟨rfl, hrest⟩

theorem semicolon_not_mem_decimalChars (n : Nat) : ';' ∉ Text.decimalChars n := by
  intro h
  obtain ⟨d, hd, hc⟩ := Text.mem_decimalChars h
  have all : ∀ d : Fin 10, ';' ≠ Nat.digitChar d := by decide
  exact all ⟨d, hd⟩ hc

theorem semicolon_not_mem_chars (p : Identifier) : ';' ∉ p.chars := by
  have marked : ∀ {shown digits : List Char}, Identifier.SameDigits shown digits →
      ';' ∉ '0' :: 'x' :: shown := by
    intro shown digits h hmem
    simp only [List.mem_cons, Char.reduceEq, false_or] at hmem
    induction h with
    | nil => simp at hmem
    | cons hn hc _ ih =>
      rcases List.mem_cons.mp hmem with rfl | hmem
      · have all : ∀ n : Fin 16, ';' ≠ Hex.digit n ∧ ';' ≠ (Hex.digit n).toUpper := by decide
        rcases hc with hc | hc
        · exact (all ⟨_, hn⟩).1 hc
        · exact (all ⟨_, hn⟩).2 hc
      · exact ih hmem
  rw [Identifier.chars]
  cases p.address? with
  | none => exact marked (Identifier.sameDigits_refl fun d hd => Hex.mem_encode hd)
  | some a => exact marked (Identifier.sameDigits_checksumCase (fun d hd => Hex.mem_encode hd) _)

/-- Two parts are determined by the key that is made of them. -/
theorem joinKey_two_inj {a b a' b' : List Char} (ha : ';' ∉ a) (ha' : ';' ∉ a')
    (h : joinKey [a, b] = joinKey [a', b']) : a = a' ∧ b = b' := by
  have hchars := String.ofList_injective h
  simp only [List.intersperse_cons_cons, List.intersperse_singleton, List.flatten_cons, List.flatten_nil,
    List.append_nil, List.singleton_append] at hchars
  exact append_semicolon_inj ha ha' hchars

/-- The first part and the key of the others are determined by the key that is made of them. -/
theorem joinKey_more_inj {a a' b b' : List Char} {parts parts' : List (List Char)} (ha : ';' ∉ a)
    (ha' : ';' ∉ a') (h : joinKey (a :: b :: parts) = joinKey (a' :: b' :: parts')) :
    a = a' ∧ joinKey (b :: parts) = joinKey (b' :: parts') := by
  have hchars := String.ofList_injective h
  simp only [List.intersperse_cons_cons, List.flatten_cons, List.singleton_append] at hchars
  obtain ⟨rfl, hrest⟩ := append_semicolon_inj ha ha' hchars
  exact ⟨rfl, congrArg String.ofList hrest⟩

/-! ### Lookups -/

/-- What the pool is asked for. -/
inductive Lookup where
  /-- The sending of a transfer with these values. -/
  | send (destination : UInt32) (recipient : Identifier) (amount : Word) (block : UInt64)
  /-- The updates of a root at its home. -/
  | update (origin : UInt32) (root : Digest)
  /-- The updates of a root in the replicas of its home. -/
  | relay (origin : UInt32) (root : Digest)
  /-- The receipt of the tokens of a message. -/
  | receive (origin nonce destination : UInt32)
  /-- The processing of a message. -/
  | process (hash : Digest)
deriving DecidableEq

namespace Lookup

/-- The slot of a lookup. -/
def slot : Lookup → Slot
  | send destination recipient amount block => .send destination recipient amount block
  | update origin root => .update origin root
  | relay origin root => .relay origin root
  | receive origin nonce destination => .receive origin nonce destination
  | process hash => .process hash

/-- The bucket and the key under which a lookup is answered. -/
def place (l : Lookup) : String × String := (l.slot.bucket.name, l.slot.key)

/-- The lookup that an event answers. A dispatch answers none. -/
def ofEvent? (e : Event) : Option Lookup :=
  match e.data with
  | .dispatch _ => none
  | .homeUpdate u => some (update u.homeDomain u.oldRoot)
  | .replicaUpdate u => some (relay u.homeDomain u.oldRoot)
  | .process p => some (process p.messageHash)
  | .bridgeSend s => some (send s.toDomain s.toId s.amount e.block)
  | .bridgeReceive r => some (receive r.origin r.nonce e.domain)

theorem slot_ofEvent? (e : Event) : Slot.ofEvent? e = (ofEvent? e).map slot := by
  rw [Slot.ofEvent?, ofEvent?]
  cases e.data <;> rfl

/-- Whether all events that answer a lookup are kept, not only the last one. -/
def keepsAll : Lookup → Bool
  | update _ _ | relay _ _ => true
  | _ => false

/-- What is kept for a lookup when the given events wait for it. -/
def entry? (l : Lookup) (es : List Event) : Option String :=
  match es with
  | [] => none
  | e :: es => some (if l.keepsAll then renderList ((e :: es).map Event.render) else e.render)

theorem bucket_name_injective {a b : Bucket} (h : a.name = b.name) : a = b := by
  cases a <;> cases b <;> first | rfl | exact absurd h (by decide)

theorem decimal32_inj {a b : UInt32} (h : Text.decimalChars a.toNat = Text.decimalChars b.toNat) :
    a = b :=
  UInt32.toNat_inj.mp (Text.decimalChars_injective h)

theorem rootKey_injective {o o' : UInt32} {r r' : Digest}
    (h : Slot.rootKey o r = Slot.rootKey o' r') : o = o' ∧ r = r' := by
  obtain ⟨ho, hr⟩ := joinKey_two_inj (semicolon_not_mem_decimalChars _)
    (semicolon_not_mem_decimalChars _) h
  exact ⟨decimal32_inj ho, Digest.text_injective (congrArg String.ofList hr)⟩

/-- No two lookups share a slot. -/
theorem slot_injective {l l' : Lookup} (h : l.slot = l'.slot) : l = l' := by
  have hbucket := congrArg Slot.bucket h
  have hkey := congrArg Slot.key h
  cases l with
  | send d p a b =>
    cases l' with
    | send d' p' a' b' =>
      obtain ⟨hd, hkey⟩ := joinKey_more_inj (semicolon_not_mem_decimalChars _)
        (semicolon_not_mem_decimalChars _) hkey
      obtain ⟨hp, hkey⟩ := joinKey_more_inj (semicolon_not_mem_chars _)
        (semicolon_not_mem_chars _) hkey
      obtain ⟨ha, hb⟩ := joinKey_two_inj (semicolon_not_mem_decimalChars _)
        (semicolon_not_mem_decimalChars _) hkey
      rw [decimal32_inj hd, Identifier.pretty_injective (congrArg String.ofList hp),
        BitVec.eq_of_toNat_eq (Text.decimalChars_injective ha),
        UInt64.toNat_inj.mp (Text.decimalChars_injective hb)]
    | _ => cases hbucket
  | update o r =>
    cases l' with
    | update o' r' =>
      obtain ⟨rfl, rfl⟩ := rootKey_injective hkey
      rfl
    | _ => cases hbucket
  | relay o r =>
    cases l' with
    | relay o' r' =>
      obtain ⟨rfl, rfl⟩ := rootKey_injective hkey
      rfl
    | _ => cases hbucket
  | receive o n d =>
    cases l' with
    | receive o' n' d' =>
      obtain ⟨ho, hkey⟩ := joinKey_more_inj (semicolon_not_mem_decimalChars _)
        (semicolon_not_mem_decimalChars _) hkey
      obtain ⟨hn, hd⟩ := joinKey_two_inj (semicolon_not_mem_decimalChars _)
        (semicolon_not_mem_decimalChars _) hkey
      rw [decimal32_inj ho, decimal32_inj hn, decimal32_inj hd]
    | _ => cases hbucket
  | process h =>
    cases l' with
    | process h' => rw [Digest.text_injective hkey]
    | _ => cases hbucket

/-- No two lookups share a place. -/
theorem place_injective {l l' : Lookup} (h : l.place = l'.place) : l = l' := by
  refine slot_injective ?_
  have hbucket := bucket_name_injective (congrArg Prod.fst h)
  have hkey : l.slot.key = l'.slot.key := congrArg Prod.snd h
  cases hl : l.slot
  cases hl' : l'.slot
  simp_all

/-! ### The events that answer a lookup -/

section Events

variable {e : Event}

theorem ofEvent?_eq_update {origin : UInt32} {root : Digest} :
    ofEvent? e = some (.update origin root) ↔
      ∃ u, e.data = .homeUpdate u ∧ u.homeDomain = origin ∧ u.oldRoot = root := by
  rw [ofEvent?]
  cases e.data <;> simp

theorem ofEvent?_eq_relay {origin : UInt32} {root : Digest} :
    ofEvent? e = some (.relay origin root) ↔
      ∃ u, e.data = .replicaUpdate u ∧ u.homeDomain = origin ∧ u.oldRoot = root := by
  rw [ofEvent?]
  cases e.data <;> simp

theorem ofEvent?_eq_receive {origin nonce destination : UInt32} :
    ofEvent? e = some (.receive origin nonce destination) ↔
      ∃ r, e.data = .bridgeReceive r ∧ r.origin = origin ∧ r.nonce = nonce ∧
        e.domain = destination := by
  rw [ofEvent?]
  cases e.data <;> simp

theorem ofEvent?_eq_process {hash : Digest} : ofEvent? e = some (.process hash) ↔
    ∃ p, e.data = .process p ∧ p.messageHash = hash := by
  rw [ofEvent?]
  cases e.data <;> simp

theorem ofEvent?_eq_send {destination : UInt32} {recipient : Identifier} {amount : Word}
    {block : UInt64} : ofEvent? e = some (.send destination recipient amount block) ↔
      ∃ s, e.data = .bridgeSend s ∧ s.toDomain = destination ∧ s.toId = recipient ∧
        s.amount = amount ∧ e.block = block := by
  rw [ofEvent?]
  cases e.data <;> simp

end Events

end Lookup

end Waybill.Pending
