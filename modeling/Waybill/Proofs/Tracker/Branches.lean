import Waybill.Proofs.Tracker.Service
import Waybill.Proofs.Ordered.Map
import Waybill.Proofs.Task.Weaving
/-!
# Branches with one write each

Branches that read the pool and then update one record each do not disturb one another, as long as
their records have different hashes: whatever the interleaving, a branch finds the pool as it was,
and each record ends as its branch writes it, or as it was if the branch was cut short. What they
tell on the way is woven from what each of them tells.

## Main definitions

* `Tracker.Stage`: how far a branch has come with its record.
* `Tracker.Underway`: branches and stores in the middle of their work.
* `Tracker.Aftermath`: what the branches leave behind.

## Main results

* `Tracker.Interleaves.underway`: how far such branches come, and what they tell.
* `Tracker.Interleaves.aftermath`: what such branches leave behind.
-/

namespace Waybill.Tracker

open Waybill.Task

variable {faulty : Prop} {old : String → Option Record} {rs : List Record}
  {xss : List (List Signal)} {ts : List (Task Unit)} {m m' : Memory}
  {o : Outcome Memory Failure Unit}

/-- How far a branch has come with the record that it is to write, and what it has yet to tell: it
has yet to write the record, it is over, or it was refused. -/
inductive Stage (faulty : Prop) (old : String → Option Record) (m : Memory) (r : Record) :
    List Signal → Task Unit → Prop
  | ahead {t : Task Unit} {xs : List Signal} (h : Leads m.pool t xs (.ask (.update r) .done))
      (hr : m.records.find? r.messageHash = old r.messageHash) : Stage faulty old m r xs t
  | ended (hr : m.records.find? r.messageHash = some r) : Stage faulty old m r [] (.done ())
  | refused {f : Failure} {xs : List Signal} (h : faulty)
      (hr : m.records.find? r.messageHash = old r.messageHash) : Stage faulty old m r xs (.fail f)

/-- Branches in the middle of their work, each with its record and with what it has yet to tell. -/
structure Underway (faulty : Prop) (old : String → Option Record) (rs : List Record)
    (xss : List (List Signal)) (ts : List (Task Unit)) (m : Memory) : Prop where
  length : ts.length = rs.length
  length_told : xss.length = rs.length
  stage : ∀ {i : Nat} {r : Record} {xs : List Signal} {t : Task Unit}, rs[i]? = some r →
    xss[i]? = some xs → ts[i]? = some t → Stage faulty old m r xs t
  /-- No other record is touched. -/
  frame : ∀ {key}, (∀ r ∈ rs, r.messageHash ≠ key) → m.records.find? key = old key

namespace Stage

variable {r : Record} {xs : List Signal} {t : Task Unit}

/-- A stage depends on the pool and on the record of the branch only. -/
theorem frame (h : Stage faulty old m r xs t) (hpool : m'.pool = m.pool)
    (hr : m'.records.find? r.messageHash = m.records.find? r.messageHash) :
    Stage faulty old m' r xs t := by
  cases h with
  | ahead h hold => exact .ahead (hpool ▸ h) (hr.trans hold)
  | ended hnew => exact .ended (hr.trans hnew)
  | refused h hold => exact .refused h (hr.trans hold)

/-- A record is as it was until it is written, and then nothing is left to be told. -/
theorem find? (h : Stage faulty old m r xs t) :
    m.records.find? r.messageHash = old r.messageHash ∨
      m.records.find? r.messageHash = some r ∧ xs = [] := by
  cases h with
  | ahead h hold => exact .inl hold
  | ended hnew => exact .inr ⟨hnew, rfl⟩
  | refused h hold => exact .inl hold

theorem of_done (h : Stage faulty old m r xs (.done ())) :
    m.records.find? r.messageHash = some r ∧ xs = [] := by
  cases h with
  | ahead hlead => cases hlead
  | ended hnew => exact ⟨hnew, rfl⟩

/-- A branch tells what it has yet to tell, in its order. -/
theorem tell {x : Signal} (h : Stage faulty old m r xs (.tell x t)) :
    ∃ ys, xs = x :: ys ∧ Stage faulty old m r ys t := by
  cases h with
  | ahead h hold =>
    cases h with
    | tell h => exact ⟨_, rfl, .ahead h hold⟩

/-- The next call of a branch changes nothing, or it writes the record of the branch. -/
theorem ask {c : Call} {k : c.Answer → Task Unit} {a : Except Failure c.Answer}
    (h : Stage faulty old m r xs (.ask c k)) (ha : m.Answers faulty c a m') :
    Stage faulty old m' r xs (.resume k a) ∧
      (m' = m ∨ m' = { m with records := m.records.insert r.messageHash r }) := by
  cases h with
  | ahead h hold =>
    rcases ha with heq | ⟨hfaulty, ⟨f, rfl⟩, rfl⟩
    · cases h with
      | here =>
        obtain ⟨rfl, rfl⟩ := Prod.mk.inj heq
        exact ⟨.ended (SortedMap.find?_insert_self _ _ _), .inr rfl⟩
      | get h =>
        obtain ⟨rfl, rfl⟩ := Prod.mk.inj heq
        exact ⟨.ahead h hold, .inl rfl⟩
    · exact ⟨.refused hfaulty hold, .inl rfl⟩

end Stage

namespace Underway

/-- Without branches there is nothing to wait for. -/
theorem nil (faulty : Prop) (m : Memory) : Underway faulty m.records.find? [] [] [] m :=
  ⟨rfl, rfl, by simp, fun _ => rfl⟩

/-- The record of a branch, and what the branch has yet to tell. -/
theorem exists_record (h : Underway faulty old rs xss ts m) {i : Nat} {t : Task Unit}
    (ht : ts[i]? = some t) : ∃ r xs, rs[i]? = some r ∧ xss[i]? = some xs := by
  obtain ⟨hi, -⟩ := List.getElem?_eq_some_iff.mp ht
  have hr : i < rs.length := h.length ▸ hi
  exact ⟨_, _, List.getElem?_eq_getElem hr, List.getElem?_eq_getElem (h.length_told ▸ hr)⟩

/-- The branch of a record, and what the branch has yet to tell. -/
theorem exists_branch (h : Underway faulty old rs xss ts m) {i : Nat} {r : Record}
    (hr : rs[i]? = some r) : ∃ xs t, xss[i]? = some xs ∧ ts[i]? = some t := by
  obtain ⟨hi, -⟩ := List.getElem?_eq_some_iff.mp hr
  exact ⟨_, _, List.getElem?_eq_getElem (h.length_told ▸ hi),
    List.getElem?_eq_getElem (h.length ▸ hi)⟩

/-- One branch goes on, and the others are not disturbed. -/
theorem set (h : Underway faulty old rs xss ts m) (hdistinct : (rs.map Record.messageHash).Nodup)
    {i : Nat} {r : Record} {xs : List Signal} {t t' : Task Unit} (hr : rs[i]? = some r)
    (ht : ts[i]? = some t) (hstage : Stage faulty old m' r xs t') (hpool : m'.pool = m.pool)
    (hframe : ∀ key, key ≠ r.messageHash → m'.records.find? key = m.records.find? key) :
    Underway faulty old rs (xss.set i xs) (ts.set i t') m' := by
  refine ⟨by rw [List.length_set, h.length], by rw [List.length_set, h.length_told],
    fun {j r₁ xs₁ t₁} hr₁ hxs₁ ht₁ => ?_, fun {key} hkey => ?_⟩
  · by_cases hij : i = j
    · subst hij
      obtain rfl : r = r₁ := Option.some.inj (hr.symm.trans hr₁)
      have hi := (List.getElem?_eq_some_iff.mp ht).1
      rw [List.getElem?_set_self hi] at ht₁
      rw [List.getElem?_set_self (by rwa [h.length_told, ← h.length])] at hxs₁
      exact Option.some.inj ht₁ ▸ Option.some.inj hxs₁ ▸ hstage
    · rw [List.getElem?_set_ne hij] at ht₁ hxs₁
      refine (h.stage hr₁ hxs₁ ht₁).frame hpool (hframe _ fun hsame => hij ?_)
      have hlt : j < (rs.map Record.messageHash).length := by
        rw [List.length_map]
        exact (List.getElem?_eq_some_iff.mp hr₁).1
      refine ((List.getElem?_inj hlt hdistinct).mp ?_).symm
      rw [List.getElem?_map, List.getElem?_map, hr, hr₁, Option.map_some, Option.map_some, hsame]
  · rw [hframe key fun hsame => hkey r (List.mem_of_getElem? hr) hsame.symm]
    exact h.frame hkey

/-- A branch tells the next of what it has yet to tell. -/
theorem tell (h : Underway faulty old rs xss ts m) (hdistinct : (rs.map Record.messageHash).Nodup)
    {i : Nat} {x : Signal} {t : Task Unit} (ht : ts[i]? = some (.tell x t)) :
    ∃ xs, xss[i]? = some (x :: xs) ∧ Underway faulty old rs (xss.set i xs) (ts.set i t) m := by
  obtain ⟨r, us, hr, hus⟩ := h.exists_record ht
  obtain ⟨xs, rfl, hstage⟩ := (h.stage hr hus ht).tell
  exact ⟨xs, hus, h.set hdistinct hr ht hstage rfl fun _ _ => rfl⟩

/-- The next call of a branch changes nothing, or it writes the record of the branch. -/
theorem ask (h : Underway faulty old rs xss ts m) (hdistinct : (rs.map Record.messageHash).Nodup)
    {i : Nat} {c : Call} {k : c.Answer → Task Unit} {a : Except Failure c.Answer}
    (ht : ts[i]? = some (.ask c k)) (ha : m.Answers faulty c a m') :
    Underway faulty old rs xss (ts.set i (.resume k a)) m' ∧
      (m' = m ∨ ∃ r ∈ rs, m' = { m with records := m.records.insert r.messageHash r }) := by
  obtain ⟨r, xs, hr, hxs⟩ := h.exists_record ht
  obtain ⟨hstage, hchange⟩ := (h.stage hr hxs ht).ask ha
  refine ⟨?_, hchange.imp_right fun hwritten => ⟨r, List.mem_of_getElem? hr, hwritten⟩⟩
  obtain ⟨hi, rfl⟩ := List.getElem?_eq_some_iff.mp hxs
  rw [← List.set_getElem_self hi]
  rcases hchange with rfl | rfl
  · exact h.set hdistinct hr ht hstage rfl fun _ _ => rfl
  · exact h.set hdistinct hr ht hstage rfl fun key hkey => SortedMap.find?_insert_of_ne _ hkey _

/-- The record of a branch is written or as it was. -/
theorem find? (h : Underway faulty old rs xss ts m) {r : Record} (hr : r ∈ rs) :
    m.records.find? r.messageHash = old r.messageHash ∨
      m.records.find? r.messageHash = some r := by
  obtain ⟨i, hi⟩ := List.getElem?_of_mem hr
  obtain ⟨xs, t, hxs, ht⟩ := h.exists_branch hi
  exact (h.stage hi hxs ht).find?.imp_right And.left

/-- Whatever is stored was stored before, or a branch has written it. -/
theorem old_or_mem (h : Underway faulty old rs xss ts m) {key : String} {r : Record}
    (hr : m.records.find? key = some r) : old key = some r ∨ r ∈ rs := by
  by_cases hkey : ∃ r' ∈ rs, r'.messageHash = key
  · obtain ⟨r', hmem, rfl⟩ := hkey
    rcases h.find? hmem with hold | hnew
    · exact .inl (hold.symm.trans hr)
    · exact .inr (Option.some.inj (hnew.symm.trans hr) ▸ hmem)
  · rw [h.frame fun r' hmem hsame => hkey ⟨r', hmem, hsame⟩] at hr
    exact .inl hr

/-- When all branches are over, a record is written, and nothing is left to be told. -/
theorem written (h : Underway faulty old rs xss ts m) (hover : ∀ t ∈ ts, t = .done ()) {i : Nat}
    {r : Record} {xs : List Signal} (hr : rs[i]? = some r) (hxs : xss[i]? = some xs) :
    m.records.find? r.messageHash = some r ∧ xs = [] := by
  obtain ⟨-, t, -, ht⟩ := h.exists_branch hr
  have hstage := h.stage hr hxs ht
  rw [hover t (List.mem_of_getElem? ht)] at hstage
  exact hstage.of_done

theorem told_all (h : Underway faulty old rs xss ts m) (hover : ∀ t ∈ ts, t = .done ()) :
    ∀ xs ∈ xss, xs = [] := by
  intro xs hxs
  obtain ⟨i, hi⟩ := List.getElem?_of_mem hxs
  have hlt : i < rs.length := h.length_told ▸ (List.getElem?_eq_some_iff.mp hi).1
  exact (h.written hover (List.getElem?_eq_getElem hlt) hi).2

/-- A branch fails only where calls may be refused. -/
theorem faulty_of_fail (h : Underway faulty old rs xss ts m) {f : Failure} (hf : .fail f ∈ ts) :
    faulty := by
  obtain ⟨i, hi⟩ := List.getElem?_of_mem hf
  obtain ⟨r, xs, hr, hxs⟩ := h.exists_record hi
  cases h.stage hr hxs hi with
  | ahead hlead => cases hlead
  | refused hfaulty => exact hfaulty

end Underway

/-- Whatever the interleaving, branches with one write each and records of different hashes leave
the pool alone, tell what is woven from what they have to tell, and end when all of them are over
or when one of them has failed. -/
theorem Interleaves.underway (h : Interleaves faulty ts m o)
    (hdistinct : (rs.map Record.messageHash).Nodup) (hunder : Underway faulty old rs xss ts m) :
    ∃ zss us, Woven xss o.signals zss ∧ Underway faulty old rs zss us o.state ∧
      o.state.pool = m.pool ∧
      (o.result = .ok () ∧ (∀ u ∈ us, u = .done ()) ∨ ∃ f, o.result = .error f ∧ .fail f ∈ us) := by
  induction h generalizing xss with
  | ended hover => exact ⟨xss, _, .stop xss, hunder, rfl, .inl ⟨rfl, hover⟩⟩
  | failed hf => exact ⟨xss, _, .stop xss, hunder, rfl, .inr ⟨_, rfl, hf⟩⟩
  | tell ht _ ih =>
    obtain ⟨xs, hi, hnext⟩ := hunder.tell hdistinct ht
    obtain ⟨zss, us, hwoven, hrest⟩ := ih hnext
    exact ⟨zss, us, .next hi hwoven, hrest⟩
  | ask ht ha _ ih =>
    obtain ⟨hnext, hchange⟩ := hunder.ask hdistinct ht ha
    obtain ⟨zss, us, hwoven, hunder', hpool, hverdict⟩ := ih hnext
    refine ⟨zss, us, hwoven, hunder', hpool.trans ?_, hverdict⟩
    rcases hchange with rfl | ⟨r, -, rfl⟩
    · rfl
    · rfl

/-- What branches with one write each leave behind. -/
structure Aftermath (faulty : Prop) (old : String → Option Record) (rs : List Record)
    (pool : SortedMap (String × String) String) (o : Outcome Memory Failure Unit) : Prop where
  pool : o.state.pool = pool
  frame : ∀ {key}, (∀ r ∈ rs, r.messageHash ≠ key) → o.state.records.find? key = old key
  /-- Every record is written or as it was. -/
  each : ∀ {r}, r ∈ rs → o.state.records.find? r.messageHash = old r.messageHash ∨
    o.state.records.find? r.messageHash = some r
  /-- Only where calls may be refused the branches fail. Else all records are written. -/
  verdict : (o.result = .ok () ∧ ∀ r ∈ rs, o.state.records.find? r.messageHash = some r) ∨
    faulty ∧ ∃ f, o.result = .error f

/-- What branches leave behind that are over or were broken off. -/
theorem Underway.aftermath (h : Underway faulty old rs xss ts o.state)
    (hverdict : o.result = .ok () ∧ (∀ t ∈ ts, t = .done ()) ∨
      ∃ f, o.result = .error f ∧ .fail f ∈ ts) :
    Aftermath faulty old rs o.state.pool o := by
  refine ⟨rfl, h.frame, h.find?, hverdict.imp (fun hdone => ⟨hdone.1, fun r hr => ?_⟩) ?_⟩
  · obtain ⟨i, hi⟩ := List.getElem?_of_mem hr
    obtain ⟨xs, t, hxs, ht⟩ := h.exists_branch hi
    exact (h.written hdone.2 hi hxs).1
  · exact fun ⟨f, hf, hmem⟩ => ⟨h.faulty_of_fail hmem, f, hf⟩

/-- Whatever the interleaving, branches with one write each and records of different hashes leave
the pool and all other records alone, and write their records unless they are cut short. -/
theorem Interleaves.aftermath (h : Interleaves faulty ts m o)
    (hdistinct : (rs.map Record.messageHash).Nodup) (hunder : Underway faulty old rs xss ts m) :
    Aftermath faulty old rs m.pool o := by
  obtain ⟨zss, us, -, hend, hpool, hverdict⟩ := h.underway hdistinct hunder
  exact hpool ▸ hend.aftermath hverdict

end Waybill.Tracker
