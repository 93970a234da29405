import Waybill.Proofs.Census
import Waybill.Proofs.Tracker.Agreement
import Waybill.Proofs.Tracker.Confirmation
import Waybill.Proofs.Tracker.Works
/-!
# The census of a tracker

A census counts every stored record with a known state once, whatever the size of the pages, and
reports the known domains beside the origins of what it counted. It asks for pages at the multiples
of their size up to the number of records, so no offset and no count outgrows 64 bits.

## Main definitions

* `Census.count`: how many messages of a domain are in a state.
* `Census.Counts`: a census counts records.

## Main results

* `Census.get_total_addAll`, `Census.count_addAll`, `Census.mem_domains_addAll`,
  `Census.sum_total_addAll`: a census with more records.
* `Census.counts_addAll`: adding records to none counts them.
* `Tracker.census_counts`: the census of a tracker.
-/

namespace Waybill

namespace ByState

theorem get_modify_succ (b : ByState Nat) (s t : State) :
    (b.modify s (· + 1)).get t = b.get t + if s = t then 1 else 0 := by
  split
  · next h => rw [← h, get_modify_self]
  · next h => exact b.get_modify_of_ne (Ne.symm h) _

end ByState

namespace Census

/-- How many messages of a domain are in a state. A domain that is not reported has none. -/
def count (c : Census) (id : UInt32) (s : State) : Nat :=
  ((c.domains.find? id).getD (.all 0)).get s

/-! ### Counting records -/

section Counting

variable (c : Census) (rs : List Record) (id : UInt32) (s : State)

theorem sum_modify_succ (b : ByState Nat) : sum (b.modify s (· + 1)) = sum b + 1 := by
  cases s <;> simp [sum, ByState.toList, State.all, ByState.get, ByState.modify] <;> omega

theorem get_total_add (r : Record) :
    (c.add r).total.get s = c.total.get s + if r.state = s.code then 1 else 0 := by
  rw [add]
  split
  · next h => rw [if_neg (State.ofCode?_eq_none_iff.mp h s), Nat.add_zero]
  · next t h =>
    rw [ByState.get_modify_succ]
    simp only [State.ofCode?_eq_some_iff.mp h, State.code_inj]

theorem count_add (r : Record) :
    (c.add r).count id s = c.count id s + if r.origin = id ∧ r.state = s.code then 1 else 0 := by
  rw [add]
  split
  · next h =>
    rw [if_neg fun hr => State.ofCode?_eq_none_iff.mp h s hr.2, Nat.add_zero]
  · next t h =>
    simp only [State.ofCode?_eq_some_iff.mp h, State.code_inj, count, SortedMap.modify,
      SortedMap.find?_insert]
    by_cases hid : id = r.origin
    · rw [if_pos hid, Option.getD_some, ByState.get_modify_succ, hid]
      simp only [true_and]
    · simp only [if_neg hid, if_neg fun hr : r.origin = id ∧ t = s => hid hr.1.symm, Nat.add_zero]

theorem mem_domains_add (r : Record) :
    id ∈ (c.add r).domains.keys ↔
      id ∈ c.domains.keys ∨ r.origin = id ∧ ∃ s : State, r.state = s.code := by
  rw [add]
  split
  · next h => simp [State.ofCode?_eq_none_iff.mp h]
  · next t h =>
    have hcode : ∃ s : State, r.state = s.code := ⟨t, State.ofCode?_eq_some_iff.mp h⟩
    simp only [SortedMap.mem_keys_iff, SortedMap.contains, SortedMap.modify,
      SortedMap.find?_insert, hcode, and_true]
    by_cases hid : id = r.origin
    · simp [hid]
    · simp [hid, Ne.symm hid]

theorem sum_total_add (r : Record) :
    sum (c.add r).total = sum c.total + if (State.ofCode? r.state).isSome then 1 else 0 := by
  rw [add]
  cases State.ofCode? r.state with
  | none => rfl
  | some t => exact sum_modify_succ t c.total

theorem get_total_addAll :
    (c.addAll rs).total.get s = c.total.get s + rs.countP fun r => r.state == s.code := by
  induction rs generalizing c with
  | nil => rfl
  | cons r rs ih =>
    change ((c.add r).addAll rs).total.get s = _
    rw [ih, get_total_add, List.countP_cons]
    simp only [beq_iff_eq]
    omega

theorem count_addAll : (c.addAll rs).count id s =
    c.count id s + rs.countP fun r => r.origin == id && r.state == s.code := by
  induction rs generalizing c with
  | nil => rfl
  | cons r rs ih =>
    change ((c.add r).addAll rs).count id s = _
    rw [ih, count_add, List.countP_cons]
    simp only [Bool.and_eq_true, beq_iff_eq]
    omega

theorem mem_domains_addAll : id ∈ (c.addAll rs).domains.keys ↔
    id ∈ c.domains.keys ∨ ∃ r ∈ rs, r.origin = id ∧ ∃ s : State, r.state = s.code := by
  induction rs generalizing c with
  | nil => simp [addAll]
  | cons r rs ih =>
    change id ∈ ((c.add r).addAll rs).domains.keys ↔ _
    rw [ih, mem_domains_add, List.exists_mem_cons_iff, or_assoc]

/-- The counts of all states add up to the number of records with a known state. -/
theorem sum_total_addAll : sum (c.addAll rs).total =
    sum c.total + rs.countP fun r => (State.ofCode? r.state).isSome := by
  induction rs generalizing c with
  | nil => rfl
  | cons r rs ih =>
    change sum ((c.add r).addAll rs).total = _
    rw [ih, sum_total_add, List.countP_cons]
    omega

end Counting

/-! ### Before any record -/

theorem find?_domains_ofDomains (ids : List UInt32) (id : UInt32) :
    (ofDomains ids).domains.find? id = if id ∈ ids then some (.all 0) else none :=
  SortedMap.find?_foldl_insert (fun _ => ByState.all 0) ids SortedMap.empty id

theorem count_ofDomains (ids : List UInt32) (id : UInt32) (s : State) :
    (ofDomains ids).count id s = 0 := by
  rw [count, find?_domains_ofDomains]
  split <;> exact ByState.get_all 0 s

theorem mem_domains_ofDomains (ids : List UInt32) (id : UInt32) :
    id ∈ (ofDomains ids).domains.keys ↔ id ∈ ids := by
  rw [SortedMap.mem_keys_iff, SortedMap.contains, find?_domains_ofDomains]
  split <;> simp_all

/-! ### What is counted -/

/-- A census counts each record with a known state once, for all and for its origin, and reports the
known domains and the origins of what it counted. -/
structure Counts (c : Census) (known : List UInt32) (rs : List Record) : Prop where
  total : ∀ s, c.total.get s = rs.countP fun r => r.state == s.code
  origin : ∀ id s, c.count id s = rs.countP fun r => r.origin == id && r.state == s.code
  domains : ∀ id, id ∈ c.domains.keys ↔
    id ∈ known ∨ ∃ r ∈ rs, r.origin = id ∧ ∃ s : State, r.state = s.code
  sum : sum c.total = rs.countP fun r => (State.ofCode? r.state).isSome

theorem counts_addAll (known : List UInt32) (rs : List Record) :
    ((ofDomains known).addAll rs).Counts known rs where
  total s := by rw [get_total_addAll, ofDomains, ByState.get_all, Nat.zero_add]
  origin id s := by rw [count_addAll, count_ofDomains, Nat.zero_add]
  domains id := by rw [mem_domains_addAll, mem_domains_ofDomains]
  sum := by
    rw [sum_total_addAll]
    exact Nat.zero_add _

variable {c : Census} {known : List UInt32} {rs : List Record}

/-- No count is above the number of records. -/
theorem Counts.le_length (h : c.Counts known rs) :
    (∀ s, c.total.get s ≤ rs.length) ∧ (∀ id s, c.count id s ≤ rs.length) ∧
      Census.sum c.total ≤ rs.length := by
  refine ⟨fun s => ?_, fun id s => ?_, ?_⟩
  · rw [h.total]
    exact List.countP_le_length
  · rw [h.origin]
    exact List.countP_le_length
  · rw [h.sum]
    exact List.countP_le_length

/-- Where all states are known, all records are counted. -/
theorem Counts.sum_eq_length (h : c.Counts known rs)
    (hrs : ∀ r ∈ rs, ∃ s : State, r.state = s.code) :
    Census.sum c.total = rs.length := by
  rw [h.sum, List.countP_eq_length]
  intro r hr
  obtain ⟨s, hs⟩ := hrs r hr
  rw [hs, State.ofCode?_code]
  rfl

end Census

namespace Tracker

open Waybill.Task

/-- Stores in memory answer every page with a piece of the list of their records. -/
theorem pages_memory (m : Memory) : Memory.backend.Pages (· = m) (2 ^ 64) m.records.values := by
  rintro _ limit offset rfl - -
  exact ⟨_, rfl, rfl⟩

/-- A tracker with another size of the pages of a scan. -/
def paged (t : Tracker) (size : UInt64) : Tracker :=
  { t with settings := { t.settings with statsBatchSize := size } }

/-- Each record that is ever stored has a known state. -/
theorem Attained.exists_state {net : Network} {m : Memory} (h : Attained net m) {r : Record}
    (hr : r ∈ m.records.values) : ∃ s : State, r.state = s.code := by
  obtain ⟨key, hkey⟩ := SortedMap.mem_values_iff.mp hr
  obtain ⟨msg, rfl⟩ := h.exists_message hkey
  exact ⟨msg.state, rfl⟩

/-- The census of a tracker over stores in memory. Whatever the size of the pages, it ends with the
same counts, and asks for pages up to the one that is not full, at offsets below `2 ^ 64`. Each
stored record with a known state is counted once; of what a tracker ever stores, that is each. The
known domains are the configured ones and those of which the work on a dispatch was begun. -/
theorem census_counts (t : Tracker) {m : Memory} (hsize : m.records.size < 2 ^ 64) :
    (∃ c : Census, c.Counts t.domains m.records.values ∧
      (∀ size : UInt64,
        let every := max size.toNat 1
        let last := m.records.size / every
        (t.paged size).census.run Memory.backend m = ⟨.ok c, m, []⟩ ∧
          ((t.paged size).census.run Memory.backend.logged (m, [])).state.2 =
            Census.pageCalls every 0 (last + 1) ∧
          ∀ i ≤ last, i * every < 2 ^ 64) ∧
      (∀ s, c.total.get s < 2 ^ 64) ∧ (∀ id s, c.count id s < 2 ^ 64) ∧
      Census.sum c.total < 2 ^ 64 ∧
      ∀ net, Attained net m → Census.sum c.total = m.records.size) ∧
    ∀ {σ : Type} {b : Backend σ} {fan : FanOut σ}, (∀ ts s, b.Interleaves ts s (fan ts s)) →
      ∀ (net : Network) (settings : TrackerSettings) (batches : List (List Event)) (s : σ)
        (id : UInt32),
        id ∈ ((Tracker.new net settings).hearAll (toldEach b fan net batches s)).domains ↔
          id ∈ net.ids ∨ ∃ w ∈ worksEach b fan net batches s,
            w.event.kind = .dispatch ∧ w.event.domain = id := by
  refine ⟨?_, fun hfan net settings batches s id => mem_domains_toldEach hfan settings batches s id⟩
  have hlength : m.records.values.length = m.records.size := List.length_map _
  have hcounts := Census.counts_addAll t.domains m.records.values
  obtain ⟨htotal, horigin, hsum⟩ := hcounts.le_length
  rw [hlength] at htotal horigin hsum
  refine ⟨_, hcounts, fun size => ?_, fun s => Nat.lt_of_le_of_lt (htotal s) hsize,
    fun id s => Nat.lt_of_le_of_lt (horigin id s) hsize, Nat.lt_of_le_of_lt hsum hsize,
    fun net hm => ?_⟩
  · intro every last
    have hevery : every < 2 ^ 64 := by
      have := size.toNat_lt
      omega
    obtain ⟨m', hsame, hrun⟩ :=
      Census.run_scan_logged (pages_memory m) (Nat.le_refl _) (by rwa [hlength])
        (by omega : 0 < every) hevery (Nat.zero_le _) rfl (Census.ofDomains t.domains) []
    rw [hlength, hsame] at hrun
    change (t.paged size).census.run Memory.backend.logged (_, []) = _ at hrun
    refine ⟨?_, ?_, fun i hi => ?_⟩
    · rw [Memory.backend.run_logged _ m [], hrun]
      rfl
    · rw [hrun]
      rfl
    · have hlast : i * every ≤ m.records.size :=
        Nat.le_trans (Nat.mul_le_mul_right every hi) (Nat.div_mul_le_self _ _)
      omega
  · rw [hcounts.sum_eq_length fun r hr => hm.exists_state hr, hlength]

/-- Two messages of a root, counted in pages of one record, and a domain that is known from the
dispatch of a message that is reported there. -/
theorem census_counts_sample :
    let t := Tracker.new Sample.network .standard
    let stray := { Sample.dispatch with domain := 3 }
    (∃ c, (t.paged 1).census.run Memory.backend Sample.pair = ⟨.ok c, Sample.pair, []⟩ ∧
      c.count 1 .dispatched = 2 ∧ 2 ∈ c.domains.keys ∧ Census.sum c.total = 2) ∧
    3 ∈ (t.hearAll (toldEach Memory.backend (oneByOne Memory.backend) Sample.network [[stray]]
      Memory.empty)).domains := by
  intro t stray
  have hsize : Sample.pair.records.size = 2 := by decide +kernel
  have hm : Attained Sample.network Sample.pair := by
    have hempty : Attained Sample.network (Stores.inMemory.oneByOne.contents Memory.empty) := .empty
    exact .consumed Stores.inMemory.oneByOne hempty [Sample.dispatch, Sample.companion]
  obtain ⟨⟨c, hcounts, hscan, -, -, -, hsum⟩, hknown⟩ :=
    census_counts t (m := Sample.pair) (by rw [hsize]; decide)
  have haway : 2 ∈ t.domains := mem_domains_new.mpr (by decide)
  refine ⟨⟨c, (hscan 1).1, ?_, (hcounts.domains 2).mpr (.inl haway), ?_⟩, ?_⟩
  · rw [hcounts.origin]
    decide +kernel
  · rw [hsum _ hm, hsize]
  · refine (hknown (Memory.backend.interleaves_inOrder [] (by simp)) _ _ _ _ 3).mpr (.inr ?_)
    exact ⟨⟨stray, _, _⟩, List.mem_append_left _ List.mem_cons_self, rfl, rfl⟩

end Tracker

end Waybill
