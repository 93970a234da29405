import Waybill.Proofs.Ordered.Map
import Waybill.Proofs.Store.Reading
/-!
# Databases and the stores in memory

The same calls to both kinds of stores get the same answers, as long as the numbers in them are
those of columns and the engine of the database can hold their texts. The tables mirror the stores
in memory: their rows are those of the records, and pending rows have the values of the pool. Where
an answer depends on the order of the rows, it is the same up to order, or in either case a record
that was asked for. A call that an engine cannot hold is refused and leaves no trace in the tables.

## Main definitions

* `Call.Fits`: the numbers in a call are those of columns.
* `Call.Agree`: two answers to a call agree.
* `Tables.Mirrors`: the tables hold what the stores in memory hold.
* `Engine.Manual.AnswersLike`: a call gets agreeing answers, or is refused by both kinds of stores.
* `Engine.Manual.RefusesCall`: the engine does not accept the statement for a call.

## Main results

* `Tables.Mirrors.follows`: what is carried out for a call keeps the tables mirroring.
* `Engine.Manual.answers_like_memory`: after any calls the next one is answered alike, or not
  accepted.
-/

namespace Waybill

/-- The record of a message that was just dispatched. -/
def Sample.record : Record :=
  ⟨1, 2, 5, "root", "hash", "0x0", "0x", 7, 100, 0, 0, 0, 0, none, none, 0, 0, "sender",
    "recipient", none, none, false, none, none, none, "0x0", "0x0", "0x0", "0x0", "0x0", false,
    false, false, false, false, 0⟩

namespace Backend

variable {σ : Type} (b : Backend σ)

/-- What the stores have become after some calls, whatever was answered. -/
def after (cs : List Call) (s : σ) : σ := cs.foldl (fun s c => (b.answer s c).2) s

/-- The calls among some that are not refused. -/
def answered : List Call → σ → List Call
  | [], _ => []
  | c :: cs, s =>
    if (b.answer s c).1.isOk then c :: answered cs (b.answer s c).2
    else answered cs (b.answer s c).2

end Backend

/-! ### Answers that agree -/

namespace Call

/-- The numbers in a call are those of columns. -/
def Fits : Call → Prop
  | insert r | update r => r.Fits
  | page limit offset => limit.toNat < 2 ^ 63 ∧ offset.toNat < 2 ^ 63
  | _ => True

/-- Two searches among some records both miss, or both hit a record that was searched for. If only
one was, it is the same. -/
def Singly (p : Record → Bool) (rs : List Record) : Option Record → Option Record → Prop
  | none, none => ∀ r ∈ rs, p r = false
  | some r, some s =>
    (r ∈ rs ∧ p r = true) ∧ (s ∈ rs ∧ p s = true) ∧ ((rs.filter p).length = 1 → r = s)
  | _, _ => False

/-- Two answers to a call agree, where the given records are stored: they are equal, but the records
of a root may come in any order, and of several records for the same values any may be found. -/
def Agree (rs : List Record) : (c : Call) → c.Answer → c.Answer → Prop
  | byRoot _ _, as, bs => as.Perm bs
  | bySend d p a b, r?, s? => Singly (bySend d p a b).selects rs r? s?
  | byNonce o n d, r?, s? => Singly (byNonce o n d).selects rs r? s?
  | insert _, a, b | update _, a, b | byHash _, a, b | page _ _, a, b | put _ _ _, a, b
  | get _ _, a, b | has _ _, a, b => a = b

/-- Two ways of finding one of the records that are searched for. -/
theorem singly_of_finds {p : Record → Bool} {rs : List Record} {r? s? : Option Record}
    (hr : Finds p rs r?) (hs : Finds p rs s?) : Singly p rs r? s? := by
  cases r? with
  | none =>
    cases s? with
    | none => exact hr
    | some s => exact absurd hs.2 (by simp [hr s hs.1])
  | some r =>
    cases s? with
    | none => exact absurd hr.2 (by simp [hs r hr.1])
    | some s =>
      refine ⟨hr, hs, fun hone => ?_⟩
      obtain ⟨x, hx⟩ := List.length_eq_one_iff.mp hone
      have hrx : r ∈ rs.filter p := List.mem_filter.mpr hr
      have hsx : s ∈ rs.filter p := List.mem_filter.mpr hs
      rw [hx, List.mem_singleton] at hrx hsx
      rw [hrx, hsx]

end Call

/-! ### Tables that mirror memory -/

namespace Tables

/-- The tables hold what the stores in memory hold, and the numbers of all records fit. -/
structure Mirrors (t : Tables) (m : Memory) : Prop where
  keeps : t.Keeps m.records.values
  keyed : m.records.KeyedBy Record.messageHash
  fits : ∀ r ∈ m.records.values, r.Fits
  pending : ∀ row, row ∈ t.pending ↔ m.pool.find? row.place = some row.value

/-- What comes back for a call gives an answer that agrees with that of memory, and what is left
mirrors what is left in memory. -/
structure Follows (t' : Tables) (m : Memory) (c : Call) (r : c.statement.Result) : Prop where
  mirrors : t'.Mirrors (m.answer c).2
  agree : ∃ a b, (m.answer c).1 = .ok a ∧ c.ofResult r = .ok b ∧ c.Agree m.records.values a b

theorem mirrors_empty : Tables.empty.Mirrors .empty := by
  refine ⟨.refl _, fun _ _ h => ?_, fun r hr => ?_, fun row => ?_⟩
  · simp [Memory.empty] at h
  · simp [Memory.empty, SortedMap.values, SortedMap.empty] at hr
  · simp [Tables.empty, Memory.empty]

namespace Mirrors

variable {t t' : Tables} {m : Memory} (h : t.Mirrors m)
include h

/-- A hash is in the table if a record is stored under it. -/
theorem mem_messageHash_iff {hash : String} :
    hash ∈ t.messages.map Row.messageHash ↔ m.records.contains hash = true := by
  rw [(h.keeps.map _).mem_iff, List.map_map, List.mem_map, SortedMap.contains,
    Option.isSome_iff_exists]
  refine exists_congr fun r => ?_
  rw [h.keyed.mem_values_iff]
  constructor
  · rintro ⟨hr, rfl⟩
    exact hr
  · intro hr
    obtain rfl := h.keyed _ _ hr
    exact ⟨hr, rfl⟩

/-! #### Calls that write -/

/-- Storing a record under its hash, in the table and in memory. -/
theorem store {r : Record} (hr : r.Fits) (hpending : t'.pending = t.pending)
    (hmessages : t'.messages.Perm
      (Row.ofRecord r :: t.messages.filter fun row => row.messageHash ≠ r.messageHash)) :
    t'.Mirrors { m with records := m.records.insert r.messageHash r } := by
  have hperm := h.keyed.values_insert_perm r
  refine ⟨hmessages.trans ?_, h.keyed.insert r, fun s hs => ?_, hpending ▸ h.pending⟩
  · have hrows : (t.messages.filter fun row => row.messageHash ≠ r.messageHash).Perm
        ((m.records.values.filter fun s => s.messageHash ≠ r.messageHash).map Row.ofRecord) := by
      refine (h.keeps.filter _).trans (.of_eq ?_)
      rw [List.filter_map]
      rfl
    exact (hrows.cons _).trans (hperm.map Row.ofRecord).symm
  · rcases List.mem_cons.mp (hperm.mem_iff.mp hs) with rfl | hs
    · exact hr
    · exact h.fits s (List.mem_of_mem_filter hs)

theorem insert {r : Record} (hr : r.Fits)
    (hc : t.Carries (Call.insert r).statement () t') : t'.Follows m (.insert r) () := by
  obtain ⟨hnew, hmessages, hpending⟩ := hc
  have hanswer : m.answer (.insert r) =
      (.ok (), { m with records := m.records.insert r.messageHash r }) :=
    if_neg (mt h.mem_messageHash_iff.mpr hnew)
  refine ⟨?_, (), (), by rw [hanswer], rfl, rfl⟩
  rw [hanswer]
  refine h.store hr hpending ?_
  rwa [List.filter_eq_self.mpr fun row hrow => ?_]
  have hother : row.messageHash ≠ r.messageHash := fun heq =>
    hnew (List.mem_map.mpr ⟨row, hrow, heq⟩)
  simpa using hother

theorem update {r : Record} (hr : r.Fits)
    (hc : t.Carries (Call.update r).statement () t') : t'.Follows m (.update r) () :=
  ⟨h.store hr hc.2 hc.1, (), (), rfl, rfl, rfl⟩

theorem put {bucket key value : String}
    (hc : t.Carries (Call.put bucket key value).statement () t') :
    t'.Follows m (.put bucket key value) () := by
  obtain ⟨hmessages, hrows⟩ := hc
  refine ⟨⟨?_, h.keyed, h.fits, fun row => ?_⟩, (), (), rfl, rfl, rfl⟩
  · exact (List.Perm.of_eq hmessages).trans h.keeps
  · change _ ↔ (m.pool.insert (bucket, key) value).find? row.place = some row.value
    rw [hrows.mem_iff, List.mem_cons, List.mem_filter, h.pending, SortedMap.find?_insert,
      decide_eq_true_iff]
    by_cases hplace : row.place = (bucket, key)
    · obtain ⟨b, k, v⟩ := row
      obtain ⟨rfl, rfl⟩ := Prod.mk.inj hplace
      simp [PendingRow.place, eq_comm]
    · have hne : row ≠ ⟨bucket, key, value⟩ := fun heq => hplace (heq ▸ rfl)
      have hother : row.place ≠ PendingRow.place ⟨bucket, key, value⟩ := hplace
      simp [hne, hplace, hother]

/-! #### Calls that only read -/

theorem byHash (hkeyed : t.Keyed) {hash : Digest} {row? : Option Row}
    (hc : t.Carries (Call.byHash hash).statement row? t') : t'.Follows m (.byHash hash) row? := by
  obtain ⟨rfl, rfl⟩ := h.keeps.byHash hkeyed hc
  refine ⟨h, _, _, rfl, (finds_find? _ _).readOption h.fits, ?_⟩
  refine (Finds.eq_find? (h.keeps.distinct hkeyed) ?_ : m.records.find? hash.text = _)
  cases hfind : m.records.find? hash.text with
  | none =>
    intro r hr
    refine beq_eq_false_iff_ne.mpr fun heq => ?_
    rw [h.keyed.mem_values_iff, heq, hfind] at hr
    cases hr
  | some r =>
    have hhash := h.keyed _ _ hfind
    exact ⟨h.keyed.mem_values_iff.mpr (hhash ▸ hfind), beq_iff_eq.mpr hhash⟩

theorem byRoot {origin : UInt32} {root : Digest} {rows : List Row}
    (hc : t.Carries (Call.byRoot origin root).statement rows t') :
    t'.Follows m (.byRoot origin root) rows := by
  obtain ⟨rfl, found, rfl, hperm⟩ := h.keeps.byRoot hc
  refine ⟨h, _, _, rfl, Row.readAll_map_iff.mpr ⟨fun r hr => ?_, rfl⟩, hperm.symm⟩
  exact h.fits r (List.mem_of_mem_filter (hperm.mem_iff.mp hr))

theorem bySend {destination : UInt32} {recipient : Identifier} {amount : Word} {block : UInt64}
    {row? : Option Row}
    (hc : t.Carries (Call.bySend destination recipient amount block).statement row? t') :
    t'.Follows m (.bySend destination recipient amount block) row? := by
  obtain ⟨rfl, r?, rfl, hfinds⟩ :=
    h.keeps.one hc (Call.bySend destination recipient amount block).filters_ofRecord
  exact ⟨h, _, _, rfl, hfinds.readOption h.fits,
    Call.singly_of_finds (finds_find? _ _) hfinds⟩

theorem byNonce {origin nonce destination : UInt32} {row? : Option Row}
    (hc : t.Carries (Call.byNonce origin nonce destination).statement row? t') :
    t'.Follows m (.byNonce origin nonce destination) row? := by
  obtain ⟨rfl, r?, rfl, hfinds⟩ :=
    h.keeps.one hc (Call.byNonce origin nonce destination).filters_ofRecord
  exact ⟨h, _, _, rfl, hfinds.readOption h.fits,
    Call.singly_of_finds (finds_find? _ _) hfinds⟩

theorem page {limit offset : UInt64} {rows : List Row}
    (hc : t.Carries (Call.page limit offset).statement rows t') :
    t'.Follows m (.page limit offset) rows := by
  have horder : InOrder (m.records.values.map Row.ofRecord) :=
    List.pairwise_map.mpr h.keyed.pairwise_values
  obtain ⟨rfl, rfl⟩ := h.keeps.page (.refl _) horder hc
  refine ⟨h, _, _, rfl, Row.readAll_map_iff.mpr ⟨fun r hr => ?_, rfl⟩, rfl⟩
  exact h.fits r (List.mem_of_mem_drop (List.mem_of_mem_take hr))

theorem get {bucket key : String} {row? : Option PendingRow}
    (hc : t.Carries (Call.get bucket key).statement row? t') :
    t'.Follows m (.get bucket key) row? := by
  obtain ⟨hfinds, rfl⟩ := hc
  refine ⟨h, _, _, rfl, rfl, ?_⟩
  change m.pool.find? (bucket, key) = row?.map (·.value)
  cases row? with
  | none =>
    rw [Option.map_none, Option.eq_none_iff_forall_not_mem]
    intro value hvalue
    have hunder := hfinds ⟨bucket, key, value⟩ ((h.pending _).mpr hvalue)
    simp [PendingRow.isUnder] at hunder
  | some row =>
    rw [← PendingRow.isUnder_iff.mp hfinds.2]
    exact (h.pending row).mp hfinds.1

theorem has {bucket key : String} {n : Nat}
    (hc : t.Carries (Call.has bucket key).statement n t') :
    t'.Follows m (.has bucket key) n := by
  obtain ⟨rfl, rfl⟩ := hc
  refine ⟨h, _, _, rfl, rfl, ?_⟩
  change m.pool.contains (bucket, key) = decide _
  rw [Bool.eq_iff_iff, decide_eq_true_iff, List.countP_pos_iff, SortedMap.contains,
    Option.isSome_iff_exists]
  constructor
  · rintro ⟨value, hvalue⟩
    exact ⟨⟨bucket, key, value⟩, (h.pending _).mpr hvalue, PendingRow.isUnder_iff.mpr rfl⟩
  · rintro ⟨row, hrow, hunder⟩
    exact ⟨row.value, PendingRow.isUnder_iff.mp hunder ▸ (h.pending row).mp hrow⟩

/-! #### Any call -/

/-- What is carried out for a call agrees with the answer from memory, and the tables go on
mirroring. -/
theorem follows (hkeyed : t.Keyed) {c : Call} (hfits : c.Fits) {r : c.statement.Result}
    (hc : t.Carries c.statement r t') : t'.Follows m c r := by
  cases c with
  | insert r => exact h.insert hfits hc
  | update r => exact h.update hfits hc
  | byHash hash => exact h.byHash hkeyed hc
  | byRoot origin root => exact h.byRoot hc
  | bySend destination recipient amount block => exact h.bySend hc
  | byNonce origin nonce destination => exact h.byNonce hc
  | page limit offset => exact h.page hc
  | put bucket key value => exact h.put hc
  | get bucket key => exact h.get hc
  | has bucket key => exact h.has hc

/-- No more than a record whose hash is taken has to be refused, and memory refuses it too. -/
theorem forbids {c : Call} (hfits : c.Fits) {f : Failure} (hc : t.Forbids c.statement f) :
    ∃ r, c = .insert r ∧ m.records.contains r.messageHash = true ∧
      m.answer c = (.error (.alreadyStored r.messageHash), m) ∧ f = .uniqueViolation := by
  cases c with
  | insert r =>
    have hstored := h.mem_messageHash_iff.mp hc.1
    exact ⟨r, rfl, hstored, if_pos hstored, hc.2⟩
  | page limit offset =>
    obtain ⟨hlimit, hoffset⟩ := hfits
    exact absurd hc (not_or.mpr ⟨Nat.not_le.mpr hlimit, Nat.not_le.mpr hoffset⟩)
  | _ => exact hc.elim

end Mirrors

end Tables

/-! ### Calls to a documented engine -/

namespace Engine.Manual

variable {σ : Type} {E : Engine σ} (D : E.Manual)

/-- A call gets agreeing answers from both kinds of stores, or it adds a hash that is stored
already, and both refuse it and keep what they have. -/
def AnswersLike (s : σ) (m : Memory) (c : Call) : Prop :=
  (∃ a b, (m.answer c).1 = .ok a ∧ (E.gateway.answer s c).1 = .ok b ∧
    c.Agree m.records.values a b) ∨
  ∃ r, c = .insert r ∧ m.records.contains r.messageHash = true ∧
    m.answer c = (.error (.alreadyStored r.messageHash), m) ∧
    (E.gateway.answer s c).1 = .error .uniqueViolation ∧
    ∀ t, D.Has s t → D.Has (E.gateway.answer s c).2 t

/-- The engine does not accept the statement for a call: the call fails, and the tables stay. -/
def RefusesCall (s : σ) (c : Call) : Prop :=
  ¬ D.Accepts c.statement ∧ (∃ f, (E.gateway.answer s c).1 = .error f) ∧
    ∀ t, D.Has s t → D.Has (E.gateway.answer s c).2 t

/-- A state has tables that mirror the stores in memory. -/
def Mirrors (s : σ) (m : Memory) : Prop := ∃ t, D.Has s t ∧ t.Mirrors m

variable {D} {s : σ} {m : Memory}

/-- A call is answered alike and keeps the tables mirroring, or it is not accepted, and then memory
without the call is still mirrored. -/
theorem Mirrors.step (h : D.Mirrors s m) {c : Call} (hfits : c.Fits) :
    (D.AnswersLike s m c ∧ D.Mirrors (E.gateway.answer s c).2 (m.answer c).2) ∨
      D.RefusesCall s c ∧ D.Mirrors (E.gateway.answer s c).2 m := by
  obtain ⟨t, ht, hm⟩ := h
  rcases D.answer_cases ht c with ⟨r, t', hcarries, ht', hanswer⟩ | ⟨f, hanswer, hrun, ht', hwhy⟩
  · obtain ⟨hmirrors, a, b, ha, hb, hagree⟩ := hm.follows (D.keyed ht) hfits hcarries
    exact .inl ⟨.inl ⟨a, b, ha, hanswer.trans hb, hagree⟩, t', ht', hmirrors⟩
  · have hstays : ∀ t, D.Has s t → D.Has (E.gateway.answer s c).2 t := fun t ht =>
      (D.failed ht hrun).1
    by_cases haccepts : D.Accepts c.statement
    · obtain ⟨r, rfl, hstored, hmemory, rfl⟩ := hm.forbids hfits (hwhy haccepts)
      refine .inl ⟨.inr ⟨r, rfl, hstored, hmemory, hanswer, hstays⟩, t, ht', ?_⟩
      rwa [hmemory]
    · exact .inr ⟨⟨haccepts, ⟨f, hanswer⟩, hstays⟩, t, ht', hm⟩

/-- Memory that gets the calls that were answered stays mirrored. -/
theorem Mirrors.after_answered (h : D.Mirrors s m) {cs : List Call} (hfits : ∀ c ∈ cs, c.Fits) :
    D.Mirrors (E.gateway.after cs s) (Memory.backend.after (E.gateway.answered cs s) m) := by
  induction cs generalizing s m with
  | nil => exact h
  | cons c cs ih =>
    rw [List.forall_mem_cons] at hfits
    rw [Backend.answered]
    rcases h.step hfits.1 with ⟨halike, hnext⟩ | ⟨⟨-, ⟨f, hanswer⟩, -⟩, hnext⟩
    · rcases halike with ⟨a, b, -, hanswer, -⟩ | ⟨r, rfl, -, hmemory, hanswer, -⟩
      · rw [hanswer]
        exact ih hnext hfits.2
      · rw [hmemory] at hnext
        rw [hanswer]
        exact ih hnext hfits.2
    · rw [hanswer]
      exact ih hnext hfits.2

/-- As long as all calls are accepted, memory that gets the same calls stays mirrored. -/
theorem Mirrors.after (h : D.Mirrors s m) {cs : List Call} (hfits : ∀ c ∈ cs, c.Fits)
    (haccepts : ∀ c ∈ cs, D.Accepts c.statement) :
    D.Mirrors (E.gateway.after cs s) (Memory.backend.after cs m) := by
  induction cs generalizing s m with
  | nil => exact h
  | cons c cs ih =>
    rw [List.forall_mem_cons] at hfits haccepts
    rcases h.step hfits.1 with ⟨-, hnext⟩ | ⟨⟨hnot, -⟩, -⟩
    · exact ih hnext hfits.2 haccepts.2
    · exact absurd haccepts.1 hnot

/-- Over a documented engine whose tables are empty, calls are answered as over empty stores in
memory, as long as their numbers are those of columns. Whatever the calls before were, the next one
gets agreeing answers or is refused by both kinds of stores, unless the engine does not accept it;
then it leaves no trace. Where the engine accepts all calls, it is so for all of them. -/
theorem answers_like_memory (D : E.Manual) (h : D.Has s .empty) (cs : List Call) (c : Call)
    (hfits : ∀ d ∈ c :: cs, d.Fits) :
    (D.AnswersLike (E.gateway.after cs s)
        (Memory.backend.after (E.gateway.answered cs s) .empty) c ∨
      D.RefusesCall (E.gateway.after cs s) c) ∧
    ((∀ d ∈ c :: cs, D.Accepts d.statement) →
      D.AnswersLike (E.gateway.after cs s) (Memory.backend.after cs .empty) c) := by
  have hempty : D.Mirrors s .empty := ⟨.empty, h, Tables.mirrors_empty⟩
  rw [List.forall_mem_cons] at hfits
  refine ⟨?_, fun haccepts => ?_⟩
  · exact ((hempty.after_answered hfits.2).step hfits.1).imp And.left And.left
  · rw [List.forall_mem_cons] at haccepts
    rcases (hempty.after hfits.2 haccepts.2).step hfits.1 with ⟨halike, -⟩ | ⟨⟨hnot, -⟩, -⟩
    · exact halike
    · exact absurd haccepts.1 hnot

end Engine.Manual

/-- Lists that cannot hold a text with a null character. -/
def Sample.engine : Engine Database :=
  Database.engine.holding fun texts => texts.all fun text => !text.toList.contains '\x00'

/-- What is documented of such lists. -/
def Sample.manual : Sample.engine.Manual := Database.manual.holding _

/-- A record with a null character is added after another one, which is then added again. The call
that cannot be held is refused and left out, the last one gets agreeing answers. -/
theorem Engine.Manual.answers_like_memory_again :
    let foul := { Sample.record with messageHash := "other", body := "\x00" }
    let calls := [Call.insert Sample.record, .insert foul]
    let b := Sample.engine.gateway
    Sample.manual.Has .migrated .empty ∧
      (∀ d ∈ Call.insert Sample.record :: calls, d.Fits) ∧
      ¬ Sample.manual.Accepts (Call.insert foul).statement ∧
      b.answered calls .migrated = [.insert Sample.record] ∧
      Sample.manual.AnswersLike (b.after calls .migrated)
        (Memory.backend.after [.insert Sample.record] .empty) (.insert Sample.record) := by
  intro foul calls b
  have hrecord : Sample.record.Fits := by simp [Record.Fits, Record.numbers, Sample.record]
  have hfits : ∀ d ∈ Call.insert Sample.record :: calls, d.Fits := by
    simp only [calls, List.forall_mem_cons]
    exact ⟨hrecord, hrecord, hrecord, List.forall_mem_nil _⟩
  have hanswered : b.answered calls .migrated = [.insert Sample.record] := by decide +kernel
  have hfoul : ¬ Sample.manual.Accepts (Call.insert foul).statement := fun h =>
    absurd h.2 (by decide +kernel)
  refine ⟨Database.has_migrated, hfits, hfoul, hanswered, ?_⟩
  rcases (answers_like_memory Sample.manual Database.has_migrated calls _ hfits).1 with h | h
  · rwa [hanswered] at h
  · exact absurd ⟨trivial, by decide +kernel⟩ h.1

end Waybill
