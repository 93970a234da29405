import Mathlib.Data.List.Perm.Basic
import Waybill.Proofs.Census
import Waybill.Proofs.Store.Database
import Waybill.Proofs.Store.Selection
/-!
# What the gateway gives back

The table of messages has the rows of some records, each under a hash of its own. Whatever the engine
of the database is, as long as it does what is documented, questions find the right rows, and so
their answers are the records asked for as soon as each of these rows can be read. One row that
cannot be read takes every answer with it that it belongs to.

## Main definitions

* `Tables.Keeps`: the records whose rows are in the table.
* `Engine.ReadsBack`: all questions are answered with the records that were stored.

## Main results

* `Engine.Manual.readsBack_iff`: the records are read back if and only if all of them fit.
-/

namespace Waybill

/-! ### Rows of records -/

namespace Row

variable {r r' : Record} {rs rs' : List Record}

theorem read_ofRecord_iff : (ofRecord r).read = .ok r' ↔ r.Fits ∧ r' = r := by
  rw [← toRecord_ofRecord_iff, read]
  cases (ofRecord r).toRecord <;> simp [Except.mapError]

/-- Rows are read if the numbers of their records fit, and give the records. -/
theorem readAll_map_iff :
    readAll (rs.map ofRecord) = .ok rs' ↔ (∀ r ∈ rs, r.Fits) ∧ rs' = rs := by
  induction rs generalizing rs' with
  | nil => simp [readAll, eq_comm]
  | cons r rs ih =>
    constructor
    · intro h
      rw [List.map_cons, readAll] at h
      cases hr : (ofRecord r).read with
      | error f => rw [hr] at h; cases h
      | ok r' =>
        cases hrs : readAll (rs.map ofRecord) with
        | error f => rw [hr, hrs] at h; cases h
        | ok rs'' =>
          rw [hr, hrs] at h
          obtain ⟨hfits, rfl⟩ := read_ofRecord_iff.mp hr
          obtain ⟨hall, rfl⟩ := ih.mp hrs
          exact ⟨List.forall_mem_cons.mpr ⟨hfits, hall⟩, (Except.ok.inj h).symm⟩
    · rintro ⟨hfits, rfl⟩
      rw [List.forall_mem_cons] at hfits
      rw [List.map_cons, readAll, read_ofRecord_iff.mpr ⟨hfits.1, rfl⟩, ih.mpr ⟨hfits.2, rfl⟩]
      rfl

/-- A row that may be missing is read if the numbers of its record fit. -/
theorem readOption_map_iff {r? r?' : Option Record} : readOption (r?.map ofRecord) = .ok r?' ↔
    (∀ r, r? = some r → r.Fits) ∧ r?' = r? := by
  cases r? with
  | none => simp [readOption, eq_comm]
  | some r =>
    rw [Option.map_some, readOption]
    constructor
    · intro h
      cases hr : (ofRecord r).read with
      | error f => rw [hr] at h; cases h
      | ok r' =>
        rw [hr] at h
        obtain ⟨hfits, rfl⟩ := read_ofRecord_iff.mp hr
        exact ⟨by rintro _ ⟨⟩; exact hfits, (Except.ok.inj h).symm⟩
    · rintro ⟨hfits, rfl⟩
      rw [read_ofRecord_iff.mpr ⟨hfits r rfl, rfl⟩]
      rfl

end Row

/-! ### Tables of the rows of records -/

/-- Elements in another order are the images of elements in another order. -/
theorem exists_map_of_perm {α β : Type} {f : α → β} {ys : List β} {xs : List α}
    (h : ys.Perm (xs.map f)) : ∃ xs' : List α, ys = xs'.map f ∧ xs'.Perm xs := by
  have hcomp : Relation.Comp (fun ys xs => ys = xs.map f) List.Perm ys xs := by
    rwa [List.eq_map_comp_perm]
  exact hcomp

namespace Tables

/-- The table of messages has the rows of these records. -/
def Keeps (t : Tables) (rs : List Record) : Prop := t.messages.Perm (rs.map Row.ofRecord)

variable {t : Tables} {rs : List Record}

theorem Keeps.distinct (h : t.Keeps rs) (hkeyed : t.Keyed) :
    (rs.map Record.messageHash).Nodup := by
  have hnodup := ((h.map Row.messageHash).nodup_iff).mp hkeyed.messages
  rwa [List.map_map] at hnodup

/-- The row that is found is that of a record that is found. -/
theorem Keeps.finds (h : t.Keeps rs) {p : Row → Bool} {row? : Option Row}
    (hfinds : Finds p t.messages row?) :
    ∃ r?, row? = r?.map Row.ofRecord ∧ Finds (p ∘ Row.ofRecord) rs r? := by
  cases row? with
  | none =>
    exact ⟨none, rfl, fun r hr => hfinds _ (h.mem_iff.mpr (List.mem_map_of_mem hr))⟩
  | some row =>
    obtain ⟨r, hr, rfl⟩ := List.mem_map.mp (h.mem_iff.mp hfinds.1)
    exact ⟨some r, rfl, hr, hfinds.2⟩

/-- The rows that are found are those of the records that are found. -/
theorem Keeps.exists_filter (h : t.Keeps rs) {p : Row → Bool} {rows : List Row}
    (hrows : rows.Perm (t.messages.filter p)) :
    ∃ rs' : List Record, rows = rs'.map Row.ofRecord ∧
      rs'.Perm (rs.filter (p ∘ Row.ofRecord)) := by
  refine exists_map_of_perm (hrows.trans ?_)
  rw [← List.filter_map]
  exact h.filter p

/-- Rows can be put in order in one way only. -/
theorem InOrder.eq {rows rows' : List Row} (h : InOrder rows) (h' : InOrder rows')
    (hperm : rows.Perm rows') : rows = rows' := by
  refine hperm.eq_of_pairwise (fun a b _ _ hab hba => ?_) h h'
  rw [OrderedKey.before_asymm hab] at hba
  cases hba

end Tables

/-- The row of a record that is found is read if the numbers of all records fit. -/
theorem Finds.readOption {p : Record → Bool} {rs : List Record} {r? : Option Record}
    (h : Finds p rs r?) (hfits : ∀ r ∈ rs, r.Fits) :
    Row.readOption (r?.map Row.ofRecord) = .ok r? := by
  refine Row.readOption_map_iff.mpr ⟨fun r hsome => ?_, rfl⟩
  subst hsome
  exact hfits r h.1

/-- There is only one record to be found if what is looked for tells the records apart. -/
theorem Finds.eq_find? {κ : Type} [DecidableEq κ] {key : Record → κ} {rs : List Record} {k : κ}
    (hdistinct : (rs.map key).Nodup) {r? : Option Record}
    (h : Finds (fun r => key r == k) rs r?) : r? = rs.find? fun r => key r == k := by
  have hfirst := finds_find? (fun r => key r == k) rs
  cases hfind : rs.find? fun r => key r == k with
  | none =>
    rw [hfind] at hfirst
    cases r? with
    | none => rfl
    | some r => exact absurd h.2 (by simp [hfirst r h.1])
  | some r =>
    rw [hfind] at hfirst
    cases r? with
    | none => exact absurd hfirst.2 (by simp [h r hfirst.1])
    | some r' =>
      have hsame : key r' = key r := (beq_iff_eq.mp h.2).trans (beq_iff_eq.mp hfirst.2).symm
      rw [List.inj_on_of_nodup_map hdistinct h.1 hfirst.1 hsame]

/-! ### Answers to questions -/

namespace Tables.Keeps

variable {t t' : Tables} {rs : List Record}

/-- The row that is found by a filter is that of a record that is searched for. -/
theorem one (h : t.Keeps rs) {filter : Row.Filter} {row? : Option Row}
    (hc : t.Carries (.one filter) row? t') {p : Record → Bool}
    (hp : ∀ r, filter.passes (Row.ofRecord r) = p r) :
    t' = t ∧ ∃ r?, row? = r?.map Row.ofRecord ∧ Finds p rs r? := by
  obtain ⟨hfinds, rfl⟩ := hc
  obtain ⟨r?, rfl, hr⟩ := h.finds hfinds
  refine ⟨rfl, r?, rfl, ?_⟩
  rwa [← funext hp]

/-- The row of a hash is that of the record with this hash. -/
theorem byHash (h : t.Keeps rs) (hkeyed : t.Keyed) {hash : Digest} {row? : Option Row}
    (hc : t.Carries (Call.byHash hash).statement row? t') :
    t' = t ∧ row? = (rs.find? fun r => r.messageHash == hash.text).map Row.ofRecord := by
  obtain ⟨rfl, r?, rfl, hr⟩ := h.one hc (Call.byHash hash).filters_ofRecord
  exact ⟨rfl, congrArg _ (Finds.eq_find? (h.distinct hkeyed) hr)⟩

/-- The rows of a root are those of the records of the root. -/
theorem byRoot (h : t.Keeps rs) {origin : UInt32} {root : Digest} {rows : List Row}
    (hc : t.Carries (Call.byRoot origin root).statement rows t') :
    t' = t ∧ ∃ found : List Record, rows = found.map Row.ofRecord ∧
      found.Perm (rs.filter fun r => r.origin == origin && r.root == root.text) := by
  obtain ⟨hrows, rfl⟩ := hc
  obtain ⟨found, rfl, hperm⟩ := h.exists_filter hrows
  refine ⟨rfl, found, rfl, hperm.trans (.of_eq ?_)⟩
  exact List.filter_congr fun r _ => (Call.byRoot origin root).filters_ofRecord r

/-- A page has the rows of a piece of the records, once these are in the order of their hashes. -/
theorem page (h : t.Keeps rs) {all : List Record} (hall : all.Perm rs)
    (horder : InOrder (all.map Row.ofRecord)) {limit offset : UInt64} {rows : List Row}
    (hc : t.Carries (Call.page limit offset).statement rows t') :
    t' = t ∧ rows = ((all.drop offset.toNat).take limit.toNat).map Row.ofRecord := by
  obtain ⟨⟨sorted, hsorted, hinOrder, rfl⟩, rfl⟩ := hc
  have hperm : sorted.Perm (all.map Row.ofRecord) :=
    hsorted.trans (h.trans (hall.map Row.ofRecord).symm)
  rw [hinOrder.eq horder hperm, List.map_take, List.map_drop]
  exact ⟨rfl, rfl⟩

/-- The records can be put in the order of their hashes. -/
theorem exists_inOrder (h : t.Keeps rs) (hkeyed : t.Keyed) :
    ∃ all : List Record, all.Perm rs ∧ InOrder (all.map Row.ofRecord) := by
  obtain ⟨all, hall, hperm⟩ := exists_map_of_perm ((Row.sortByHash_perm t.messages).trans h)
  exact ⟨all, hperm, hall ▸ Row.inOrder_sortByHash hkeyed.messages⟩

end Tables.Keeps

/-- A question for records. -/
def Call.IsQuestion : Call → Prop
  | .byHash _ | .byRoot _ _ | .bySend _ _ _ _ | .byNonce _ _ _ | .page _ _ => True
  | _ => False

namespace Engine

/-- Questions are answered with the records that were stored: by a hash, by a root, page by page,
and counting all of them. -/
structure ReadsBack {σ : Type} (E : Engine σ) (s : σ) (rs : List Record) : Prop where
  byHash : ∀ hash, (E.gateway.answer s (.byHash hash)).1 =
    .ok (rs.find? fun r => r.messageHash == hash.text)
  byRoot : ∀ origin root, ∃ found : List Record,
    (E.gateway.answer s (.byRoot origin root)).1 = .ok found ∧
      found.Perm (rs.filter fun r => r.origin == origin && r.root == root.text)
  pages : ∃ all : List Record, all.Perm rs ∧ ∀ limit offset : UInt64, limit.toNat < 2 ^ 63 →
    offset.toNat < 2 ^ 63 → (E.gateway.answer s (.page limit offset)).1 =
      .ok ((all.drop offset.toNat).take limit.toNat)
  census : ∀ known (batch : UInt64), rs.length < 2 ^ 63 → batch.toNat < 2 ^ 63 →
    ∃ all : List Record, all.Perm rs ∧ ((Census.take known batch).run E.gateway s).result =
      .ok ((Census.ofDomains known).addAll all)

namespace Manual

variable {σ : Type} {E : Engine σ} (D : E.Manual)
  (haccepts : ∀ c : Call, c.IsQuestion → D.Accepts c.statement) {s : σ} {t : Tables}
  {rs : List Record} (h : D.Has s t) (hkeeps : t.Keeps rs)
include haccepts h

/-- A question is carried out. -/
theorem asked {c : Call} (hc : c.IsQuestion) (hallowed : ∀ f, ¬ t.Forbids c.statement f) :
    ∃ r t', t.Carries c.statement r t' ∧ D.Has (E.gateway.answer s c).2 t' ∧
      (E.gateway.answer s c).1 = c.ofResult r := by
  rcases D.answer_cases h c with hcarried | ⟨f, -, -, -, hforbids⟩
  · exact hcarried
  · exact absurd (hforbids (haccepts c hc)) (hallowed f)

include hkeeps

theorem asked_byRoot (origin : UInt32) (root : Digest) : ∃ found : List Record,
    found.Perm (rs.filter fun r => r.origin == origin && r.root == root.text) ∧
      (E.gateway.answer s (.byRoot origin root)).1 = Row.readAll (found.map Row.ofRecord) := by
  obtain ⟨rows, t', hcarries, -, hanswer⟩ :=
    D.asked haccepts h (c := .byRoot origin root) trivial fun _ => id
  obtain ⟨-, found, rfl, hperm⟩ := hkeeps.byRoot hcarries
  exact ⟨found, hperm, hanswer⟩

/-- Pages are pieces of the records in the order of their hashes, as long as these fit. -/
theorem pages (hfits : ∀ r ∈ rs, r.Fits) {all : List Record} (hall : all.Perm rs)
    (horder : Tables.InOrder (all.map Row.ofRecord)) :
    E.gateway.Pages (D.Has · t) (2 ^ 63) all := by
  intro s limit offset hs hlimit hoffset
  obtain ⟨rows, t', hcarries, hhas, hanswer⟩ :=
    D.asked haccepts hs (c := .page limit offset) trivial
      fun _ (hbounds : _ ∨ _) => by omega
  obtain ⟨rfl, rfl⟩ := hkeeps.page hall horder hcarries
  refine ⟨_, hhas, Prod.ext (hanswer.trans (Row.readAll_map_iff.mpr ⟨fun r hr => ?_, rfl⟩)) rfl⟩
  exact hfits r (hall.mem_iff.mp (List.mem_of_mem_drop (List.mem_of_mem_take hr)))

/-- If the numbers of all records fit, the records are read back. -/
theorem readsBack (hfits : ∀ r ∈ rs, r.Fits) : E.ReadsBack s rs := by
  obtain ⟨all, hall, horder⟩ := hkeeps.exists_inOrder (D.keyed h)
  have hpages := D.pages haccepts h hkeeps hfits hall horder
  refine ⟨fun hash => ?_, fun origin root => ?_, ⟨all, hall, fun limit offset hlimit hoffset => ?_⟩,
    fun known batch hlength hbatch => ⟨all, hall, ?_⟩⟩
  · obtain ⟨row?, t', hcarries, -, hanswer⟩ :=
      D.asked haccepts h (c := .byHash hash) trivial fun _ => id
    obtain ⟨-, rfl⟩ := hkeeps.byHash (D.keyed h) hcarries
    exact hanswer.trans ((finds_find? _ rs).readOption hfits)
  · obtain ⟨found, hperm, hanswer⟩ := D.asked_byRoot haccepts h hkeeps origin root
    refine ⟨found, hanswer.trans (Row.readAll_map_iff.mpr ⟨fun r hr => ?_, rfl⟩), hperm⟩
    exact hfits r (List.mem_of_mem_filter (hperm.mem_iff.mp hr))
  · obtain ⟨s', -, hanswer⟩ := hpages s limit offset h hlimit hoffset
    rw [hanswer]
  · obtain ⟨s', -, hrun⟩ := Census.run_take hpages (by decide) (by rwa [hall.length_eq]) h known
      (by omega : max batch.toNat 1 < 2 ^ 63)
    rw [hrun]

/-- The records are read back exactly if the numbers of all of them fit. -/
theorem readsBack_iff (hroots : ∀ r ∈ rs, ∃ root : Digest, r.root = root.text) :
    E.ReadsBack s rs ↔ ∀ r ∈ rs, r.Fits := by
  refine ⟨fun hback r hr => ?_, D.readsBack haccepts h hkeeps⟩
  obtain ⟨root, hroot⟩ := hroots r hr
  obtain ⟨found, hperm, hanswer⟩ := D.asked_byRoot haccepts h hkeeps r.origin root
  obtain ⟨found', hok, -⟩ := hback.byRoot r.origin root
  rw [hanswer, Row.readAll_map_iff] at hok
  exact hok.1 r (hperm.mem_iff.mpr (List.mem_filter.mpr ⟨hr, by simp [hroot]⟩))

end Manual

end Engine

end Waybill
