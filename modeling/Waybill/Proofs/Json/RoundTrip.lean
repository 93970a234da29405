import Waybill.Json.Reader
import Waybill.Proofs.Json.Tokens
/-!
# Written values read back

Values made of natural numbers, texts, truth values and objects are read back from their texts,
whatever they are read for: what is expected only matters for arrays. Lists of such values are read
back where anything is expected.

The bound on the number of steps is met because every step of reading a value uses up a character
of it.

## Main definitions

* `Json.Plain`: values of which no part is an array and every number is a natural number.

## Main results

* `Json.parseAs_render`: a plain value is read back from its text, whatever is expected.
* `Json.parse_render_array`: a list of plain values is read back from its text.
-/

namespace Waybill.Json

/-- Values of which no part is an array and every number is a natural number. -/
inductive Plain : Json → Prop
  | null : Plain null
  | bool (b : Bool) : Plain (bool b)
  | ofNat (n : Nat) : Plain (ofNat n)
  | ofString (s : String) : Plain (ofString s)
  | record {members : List (String × Json)} (h : ∀ m ∈ members, Plain m.2) :
      Plain (record members)

/-- A value is read back from its written form, whatever is expected and whatever follows it. -/
def ReadsBack (v : Json) : Prop :=
  ∀ (e : Expected) (rest : List Char) (steps : Nat), EndsValue rest → (write v).length ≤ steps →
    readValue steps e (write v ++ rest) = some (v, rest)

theorem skipBlanks_cons {c : Char} (h : isBlank c = false) (cs : List Char) :
    skipBlanks (c :: cs) = c :: cs := by
  rw [skipBlanks, List.dropWhile_cons, h]
  rfl

/-- No mark of a structure is a blank. -/
theorem skipBlanks_mark {c : Char} (h : c ∈ ['"', ':', ',', '[', ']', '\x7b', '\x7d'])
    (cs : List Char) : skipBlanks (c :: cs) = c :: cs := by
  refine skipBlanks_cons ?_ cs
  simp only [List.mem_cons, List.not_mem_nil, or_false] at h
  rcases h with rfl | rfl | rfl | rfl | rfl | rfl | rfl <;> rfl

/-! ### Leaves -/

theorem readsBack_null : ReadsBack null := by
  intro e rest steps _ hs
  obtain ⟨steps, rfl⟩ : ∃ k, steps = k + 1 := ⟨steps - 1, by simp [write] at hs; omega⟩
  rfl

theorem readsBack_bool (b : Bool) : ReadsBack (bool b) := by
  intro e rest steps _ hs
  obtain ⟨steps, rfl⟩ : ∃ k, steps = k + 1 := ⟨steps - 1, by cases b <;> simp [write] at hs <;> omega⟩
  cases b <;> rfl

theorem writeText_some (s : String) :
    writeText (some s) = '"' :: (s.toList.flatMap escape ++ ['"']) := rfl

theorem readsBack_ofString (s : String) : ReadsBack (ofString s) := by
  intro e rest steps _ hs
  simp only [ofString, write, writeText_some] at hs ⊢
  obtain ⟨steps, rfl⟩ : ∃ k, steps = k + 1 := ⟨steps - 1, by simp at hs; omega⟩
  rw [List.cons_append, List.append_assoc, List.singleton_append, readValue,
    skipBlanks_cons (by rfl)]
  simp only [readText_write, String.ofList_toList, Option.map_some]

theorem readsBack_ofNat (n : Nat) : ReadsBack (ofNat n) := by
  intro e rest steps hr hs
  have hwrite : write (ofNat n) = Text.decimalChars n := rfl
  rw [hwrite] at hs ⊢
  have hread := readNumber_decimal n hr
  cases hn : Text.decimalChars n with
  | nil => exact absurd hn (Text.decimalChars_ne_nil n)
  | cons c cs =>
    obtain ⟨d, hd, hc⟩ := Text.mem_decimalChars (hn ▸ List.mem_cons_self : c ∈ Text.decimalChars n)
    -- The first digit tells the number from every other kind of value.
    have hfirst : isBlank c = false ∧ c ≠ '"' ∧ c ≠ '[' ∧ c ≠ '\x7b' ∧ c ≠ 'n' ∧ c ≠ 't' ∧ c ≠ 'f' := by
      have all : ∀ d : Fin 10, isBlank (Nat.digitChar d) = false ∧ Nat.digitChar d ≠ '"' ∧
          Nat.digitChar d ≠ '[' ∧ Nat.digitChar d ≠ '\x7b' ∧ Nat.digitChar d ≠ 'n' ∧
          Nat.digitChar d ≠ 't' ∧ Nat.digitChar d ≠ 'f' := by decide
      exact hc ▸ all ⟨d, hd⟩
    obtain ⟨hblank, hquote, hbracket, hbrace, hnull, htrue, hfalse⟩ := hfirst
    rw [hn] at hs hread
    obtain ⟨steps, rfl⟩ : ∃ k, steps = k + 1 := ⟨steps - 1, by simp at hs; omega⟩
    rw [List.cons_append] at hread ⊢
    rw [readValue.eq_def]
    simp only [skipBlanks_cons hblank]
    split
    all_goals rename_i heq
    all_goals first
      | (obtain ⟨rfl, -⟩ := List.cons.inj heq; contradiction)
      | skip
    rw [hread]
    rfl

/-! ### Objects -/

/-- The members of an object with their keys. -/
abbrev keyed (members : List (String × Json)) : List (Option String × Json) :=
  members.map fun m => (some m.1, m.2)

theorem endsValue_writeMembers (ms : List (Option String × Json)) (rest : List Char) :
    EndsValue (writeMembers ms ++ rest) := by
  cases ms with
  | nil => exact endsValue_cons (.inr (.inr rfl)) rest
  | cons m ms => exact endsValue_cons (.inl rfl) _

/-- The last member is read back together with the end of its object. -/
theorem readMembers_last {e : Expected} {k : String} {v : Json} {rest : List Char}
    {before : List (Option String × Json)} {steps : Nat}
    (hv : readValue steps (e.member before (some k)) (write v ++ '\x7d' :: rest) =
      some (v, '\x7d' :: rest)) :
    readMembers (steps + 1) e before (writeText (some k) ++ ':' :: (write v ++ '\x7d' :: rest)) =
      some (object ((some k, v) :: before).reverse, rest) := by
  rw [writeText_some, List.cons_append, List.append_assoc, List.singleton_append, readMembers,
    skipBlanks_mark (by decide)]
  simp only [readText_write, String.ofList_toList]
  rw [skipBlanks_mark (by decide)]
  simp only [hv]
  rw [skipBlanks_mark (by decide)]
  rfl

/-- A member before others is read back, and reading goes on with those. -/
theorem readMembers_more {e : Expected} {k : String} {v : Json} {rest : List Char}
    {before : List (Option String × Json)} {steps : Nat}
    (hv : readValue steps (e.member before (some k)) (write v ++ ',' :: rest) =
      some (v, ',' :: rest)) :
    readMembers (steps + 1) e before (writeText (some k) ++ ':' :: (write v ++ ',' :: rest)) =
      readMembers steps e ((some k, v) :: before) rest := by
  rw [writeText_some, List.cons_append, List.append_assoc, List.singleton_append, readMembers,
    skipBlanks_mark (by decide)]
  simp only [readText_write, String.ofList_toList]
  rw [skipBlanks_mark (by decide)]
  simp only [hv]
  rw [skipBlanks_mark (by decide)]
  rfl

/-- Members are read back up to the end of their object. -/
theorem readMembers_write (e : Expected) (rest : List Char) {k : String} {v : Json}
    {members : List (String × Json)} (h : ∀ m ∈ (k, v) :: members, ReadsBack m.2)
    (before : List (Option String × Json)) {steps : Nat}
    (hs : (writeText (some k) ++ ':' :: (write v ++ writeMembers (keyed members))).length ≤ steps) :
    readMembers steps e before
        (writeText (some k) ++ ':' :: (write v ++ (writeMembers (keyed members) ++ rest))) =
      some (object (before.reverse ++ keyed ((k, v) :: members)), rest) := by
  induction members generalizing k v before steps with
  | nil =>
    have hlen : (write v).length + 1 ≤ steps := by
      simp only [List.length_append, List.length_cons] at hs
      omega
    obtain ⟨steps, rfl⟩ : ∃ n, steps = n + 1 := ⟨steps - 1, by omega⟩
    have hv := h (k, v) List.mem_cons_self (e.member before (some k)) ('\x7d' :: rest) steps
      (endsValue_cons (.inr (.inr rfl)) rest) (by simpa using hlen)
    exact (readMembers_last hv).trans (by rw [List.reverse_cons]; rfl)
  | cons m members ih =>
    obtain ⟨j, w⟩ := m
    have hmore : writeMembers (keyed ((j, w) :: members)) ++ rest =
        ',' :: (writeText (some j) ++ ':' :: (write w ++ (writeMembers (keyed members) ++ rest))) := by
      simp only [keyed, List.map_cons, writeMembers, List.cons_append, List.append_assoc]
    have hlen : (write v).length + 1 ≤ steps ∧
        (writeText (some j) ++ ':' :: (write w ++ writeMembers (keyed members))).length + 1 ≤
          steps := by
      simp only [List.length_append, List.length_cons, keyed, List.map_cons, writeMembers] at hs ⊢
      omega
    obtain ⟨steps, rfl⟩ : ∃ n, steps = n + 1 := ⟨steps - 1, by omega⟩
    have hv := h (k, v) List.mem_cons_self (e.member before (some k))
      (writeMembers (keyed ((j, w) :: members)) ++ rest) steps (endsValue_writeMembers _ rest)
      (by simpa using hlen.1)
    rw [hmore] at hv ⊢
    rw [readMembers_more hv,
      ih (fun m hm => h m (List.mem_cons_of_mem _ hm)) ((some k, v) :: before) (by simpa using hlen.2)]
    simp only [keyed, List.map_cons, List.reverse_cons, List.append_assoc, List.singleton_append]

theorem readsBack_record {members : List (String × Json)} (h : ∀ m ∈ members, ReadsBack m.2) :
    ReadsBack (record members) := by
  intro e rest steps _ hs
  cases members with
  | nil =>
    obtain ⟨steps, rfl⟩ : ∃ n, steps = n + 1 := ⟨steps - 1, by simp [record, write] at hs; omega⟩
    rfl
  | cons m members =>
    obtain ⟨k, v⟩ := m
    have hwrite : write (record ((k, v) :: members)) =
        '\x7b' :: (writeText (some k) ++ ':' :: (write v ++ writeMembers (keyed members))) := by
      simp only [record, List.map_cons, write]
    rw [hwrite] at hs ⊢
    obtain ⟨steps, rfl⟩ : ∃ n, steps = n + 1 := ⟨steps - 1, by simp at hs; omega⟩
    have hlen : (writeText (some k) ++ ':' :: (write v ++ writeMembers (keyed members))).length ≤
        steps := by
      simpa using hs
    have hmembers := readMembers_write e rest h [] hlen
    simp only [writeText_some, List.cons_append, List.append_assoc] at hmembers ⊢
    rw [readValue, skipBlanks_mark (by decide)]
    simp only
    rw [skipBlanks_mark (by decide)]
    exact hmembers

/-- A plain value is read back, whatever is expected and whatever follows it. -/
theorem Plain.readsBack {v : Json} (h : Plain v) : ReadsBack v := by
  induction h with
  | null => exact readsBack_null
  | bool b => exact readsBack_bool b
  | ofNat n => exact readsBack_ofNat n
  | ofString s => exact readsBack_ofString s
  | record _ ih => exact readsBack_record ih

/-! ### Lists -/

theorem endsValue_writeItems (vs : List Json) (rest : List Char) :
    EndsValue (writeItems vs ++ rest) := by
  cases vs with
  | nil => exact endsValue_cons (.inr (.inl rfl)) rest
  | cons v vs => exact endsValue_cons (.inl rfl) _

/-- Items are read back up to the end of their array. -/
theorem readItems_write (rest : List Char) {v : Json} {vs : List Json}
    (h : ∀ w ∈ v :: vs, ReadsBack w) (before : List Json) {steps : Nat}
    (hs : (write v ++ writeItems vs).length ≤ steps) :
    readItems steps .anything before (write v ++ (writeItems vs ++ rest)) =
      some (array (before.reverse ++ v :: vs), rest) := by
  induction vs generalizing v before steps with
  | nil =>
    have hlen : (write v).length + 1 ≤ steps := by simpa [writeItems] using hs
    obtain ⟨steps, rfl⟩ : ∃ n, steps = n + 1 := ⟨steps - 1, by omega⟩
    have hv := h v List.mem_cons_self (Expected.anything.item before) (writeItems [] ++ rest) steps
      (endsValue_writeItems _ rest) (by omega)
    have hend : skipBlanks (writeItems [] ++ rest) = ']' :: rest := rfl
    rw [readItems, hv]
    simp only [hend, List.reverse_cons]
  | cons w vs ih =>
    have hmore : writeItems (w :: vs) ++ rest = ',' :: (write w ++ (writeItems vs ++ rest)) := by
      simp only [writeItems, List.cons_append, List.append_assoc]
    have hlen : (write v).length + 1 ≤ steps ∧
        (write w ++ writeItems vs).length + 1 ≤ steps := by
      simp only [List.length_append, List.length_cons, writeItems] at hs ⊢
      omega
    obtain ⟨steps, rfl⟩ : ∃ n, steps = n + 1 := ⟨steps - 1, by omega⟩
    have hv := h v List.mem_cons_self (Expected.anything.item before)
      (writeItems (w :: vs) ++ rest) steps (endsValue_writeItems _ rest) (by omega)
    rw [readItems, hv]
    simp only
    rw [hmore, skipBlanks_mark (by decide)]
    simp only [Expected.isFilled, Bool.false_eq_true, if_false]
    rw [ih (fun u hu => h u (List.mem_cons_of_mem _ hu)) (v :: before) (by omega)]
    simp only [List.reverse_cons, List.append_assoc, List.singleton_append]

/-- The first character of a plain value is neither a blank nor the end of an array. -/
theorem Plain.head {v : Json} (h : Plain v) :
    ∃ c cs, write v = c :: cs ∧ isBlank c = false ∧ c ≠ ']' := by
  cases h with
  | null => exact ⟨'n', _, rfl, by decide⟩
  | bool b => cases b <;> exact ⟨_, _, rfl, by decide⟩
  | ofNat n =>
    have hwrite : write (Json.ofNat n) = Text.decimalChars n := rfl
    rw [hwrite]
    cases hn : Text.decimalChars n with
    | nil => exact absurd hn (Text.decimalChars_ne_nil n)
    | cons c cs =>
      obtain ⟨d, hd, rfl⟩ := Text.mem_decimalChars (hn ▸ List.mem_cons_self : c ∈ Text.decimalChars n)
      have all : ∀ d : Fin 10, isBlank (Nat.digitChar d) = false ∧ Nat.digitChar d ≠ ']' := by
        decide
      exact ⟨_, cs, rfl, all ⟨d, hd⟩⟩
  | ofString s => exact ⟨'"', _, rfl, by decide⟩
  | @record members _ =>
    cases members with
    | nil => exact ⟨'\x7b', _, rfl, by decide⟩
    | cons m members =>
      obtain ⟨k, v⟩ := m
      exact ⟨'\x7b', _, rfl, by decide⟩

/-! ### Whole texts -/

/-- A plain value is read back from its text, whatever is expected. -/
theorem parseAs_render {v : Json} (h : Plain v) (e : Expected) :
    parseAs e v.render = some v := by
  have hread := h.readsBack e [] (2 * v.write.length + 2) endsValue_nil (by omega)
  rw [List.append_nil] at hread
  rw [parseAs, render, String.toList_ofList]
  simp only [hread]
  rfl

/-- A list of plain values is read back from its text. -/
theorem parse_render_array {vs : List Json} (h : ∀ v ∈ vs, Plain v) :
    parse (array vs).render = some (array vs) := by
  rw [parse, parseAs, render, String.toList_ofList]
  cases vs with
  | nil => rfl
  | cons v vs =>
    have hwrite : write (array (v :: vs)) = '[' :: (write v ++ writeItems vs) := by
      simp only [write]
    have hlen : (write v ++ writeItems vs).length ≤
        2 * ('[' :: (write v ++ writeItems vs)).length + 1 := by
      simp
      omega
    have hitems := readItems_write [] (fun w hw => (h w hw).readsBack) [] hlen
    rw [List.append_nil] at hitems
    obtain ⟨c, cs, hhead, hblank, hclose⟩ := (h v List.mem_cons_self).head
    have hread : readValue (2 * (write (array (v :: vs))).length + 2) .anything
        (write (array (v :: vs))) = some (array (v :: vs), []) := by
      rw [hwrite, readValue, skipBlanks_mark (by decide)]
      simp only [hhead, List.cons_append, skipBlanks_cons hblank] at hitems ⊢
      split
      case h_1 tail heq => exact absurd (List.cons.inj heq).1 hclose
      case h_2 => exact hitems
    simp only [hread]
    rfl

end Waybill.Json
