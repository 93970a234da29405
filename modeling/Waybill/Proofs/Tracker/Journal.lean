import Waybill.Proofs.Ledger.Growth
import Waybill.Proofs.Tracker.Runs
/-!
# What is stored at every point of a run

A journal keeps what is stored after every single call of a run. Whichever calls are refused, in
whatever batches the events come, and whatever turns the branches of an event take, every entry of
the journal goes on from all entries before it: no message is ever lost, none goes back, and none
loses a mark.

## Main definitions

* `Tracker.Stores.journaled`: stores with a journal of what they hold after every call.
* `Tracker.Growing`: what is stored goes on from entry to entry.

## Main results

* `Tracker.Stores.growing_of_writesLast`, `Tracker.Stores.growing_of_interleaves`: work with one
  write at its end, and branches of such work, keep a journal growing.
* `Tracker.journal_grows`: any two entries of the journal of a run.
-/

namespace Waybill

/-- The record of a message of a root, as it goes on with an event, goes on from the one that is
stored. -/
theorem Ledger.Depicts.goesOn_goneOn {net : Network} {L : Ledger} {m : Memory} {k : Message.Mark}
    {e : Event} (h : L.Depicts net m) {r : Record} (hr : r ∈ L.goneOn net k e) :
    r.GoesOn net r ∧ ∀ r₀, m.records.find? r.messageHash = some r₀ → r₀.GoesOn net r := by
  obtain ⟨j, hj, -, rfl⟩ := Ledger.mem_goneOn.mp hr
  refine ⟨(Journey.Within.refl net _).goesOn_record, fun r₀ hr₀ => ?_⟩
  rw [Journey.messageHash_record, Journey.key_goOn, h.find?, hj, Option.map_some,
    Option.some.injEq] at hr₀
  exact hr₀ ▸ (j.within_goOn net k e _).goesOn_record

namespace Tracker

open Waybill.Task

variable {σ α : Type} {net : Network} {m m' : Memory} {ms : List Memory}

/-- Stores with a journal of what they hold after every call, the latest first. -/
def Stores.journaled (v : Stores σ) : Stores (σ × List Memory) where
  backend := ⟨fun s c => ((v.backend.answer s.1 c).1, (v.backend.answer s.1 c).2,
    v.contents (v.backend.answer s.1 c).2 :: s.2)⟩
  contents s := v.contents s.1
  Steady s := v.Steady s.1
  answers s c := v.answers s.1 c
  steady_answer c h := v.steady_answer c h

/-- What is stored goes on from entry to entry of a journal, the latest first. -/
def Growing (net : Network) (ms : List Memory) : Prop :=
  ms.Pairwise fun later earlier => earlier.GoesOn net later

theorem Growing.push (h : Growing net (m :: ms)) (hgo : m.GoesOn net m')
    (hself : m'.GoesOn net m') : Growing net (m' :: m' :: ms) := by
  obtain ⟨hlast, hrest⟩ := List.pairwise_cons.mp h
  have hall : ∀ p ∈ ms, p.GoesOn net m' := fun p hp => (hlast p hp).trans hgo
  exact List.pairwise_cons.mpr ⟨List.forall_mem_cons.mpr ⟨hself, hall⟩,
    List.pairwise_cons.mpr ⟨hall, hrest⟩⟩

namespace Stores

variable (v : Stores σ)

/-- What is stored, and before it all that was stored. -/
def past (s : σ × List Memory) : List Memory := v.contents s.1 :: s.2

/-- A call keeps a journal growing if what is stored goes on with it. -/
theorem growing_answer {s s' : σ × List Memory} {c : Call} {r : Except Failure c.Answer}
    (heq : v.journaled.backend.answer s c = (r, s')) (hpast : Growing net (v.past s))
    (hgo : (v.contents s.1).GoesOn net (v.contents s'.1))
    (hself : (v.contents s'.1).GoesOn net (v.contents s'.1)) : Growing net (v.past s') := by
  obtain rfl : (v.journaled.backend.answer s c).2 = s' := congrArg Prod.snd heq
  exact hpast.push hgo hself

/-- Work whose only write comes last keeps a journal growing, if what is stored goes on with the
write. -/
theorem growing_of_writesLast {t : Task α} {xs : List Signal} {a : α}
    (h : t.WritesLast m xs a m') (hself : m.GoesOn net m) (hgo : m.GoesOn net m')
    (hself' : m'.GoesOn net m') {s : σ × List Memory} (hs : v.contents s.1 = m)
    (hpast : Growing net (v.past s)) :
    Growing net (v.past (t.run v.journaled.backend s).state) := by
  induction h generalizing s with
  | done a => exact hpast
  | tell _ ih => exact ih hgo hself' hs hpast
  | read hc _ ih =>
    rw [run]
    rcases v.journaled.answer_cases hs hc with ⟨s', heq, hs', -⟩ | ⟨f, s', heq, -, hs'⟩
    · rw [heq]
      exact ih hgo hself' hs'
        (v.growing_answer heq hpast (hs ▸ hs'.symm ▸ hself) (hs'.symm ▸ hself))
    · rw [heq]
      exact v.growing_answer heq hpast (hs ▸ hs'.symm ▸ hself) (hs'.symm ▸ hself)
  | write hc hk =>
    rw [run]
    rcases v.journaled.answer_cases hs hc with ⟨s', heq, hs', -⟩ | ⟨f, s', heq, -, hs'⟩
    · rw [heq]
      simp only [hk, run_telling]
      exact v.growing_answer heq hpast (hs ▸ hs'.symm ▸ hgo) (hs'.symm ▸ hself')
    · rw [heq]
      exact v.growing_answer heq hpast (hs ▸ hs'.symm ▸ hself) (hs'.symm ▸ hself)

/-- Branches with one write each keep a journal growing, if their records go on from those in their
places. -/
theorem growing_of_interleaves {ts : List (Task Unit)} {s : σ × List Memory}
    {o : Outcome (σ × List Memory) Failure Unit} (h : v.journaled.backend.Interleaves ts s o)
    {old : String → Option Record} {rs : List Record} {xss : List (List Signal)}
    (hdistinct : (rs.map Record.messageHash).Nodup)
    (hunder : Underway True old rs xss ts (v.contents s.1)) (hpast : Growing net (v.past s))
    (hold : ∀ {key r}, old key = some r → r.GoesOn net r)
    (hnew : ∀ r ∈ rs, r.GoesOn net r ∧ ∀ r₀, old r.messageHash = some r₀ → r₀.GoesOn net r) :
    Growing net (v.past o.state) := by
  -- whatever the branches have come to, all records that are stored can be read
  have hself {xss : List (List Signal)} {ts : List (Task Unit)} {m : Memory}
      (hunder : Underway True old rs xss ts m) : m.GoesOn net m := by
    intro key r hr
    refine ⟨r, hr, ?_⟩
    rcases hunder.old_or_mem hr with hr | hr
    · exact hold hr
    · exact (hnew r hr).1
  induction h generalizing xss with
  | ended _ => exact hpast
  | failed _ => exact hpast
  | tell ht _ ih =>
    obtain ⟨xs, -, hnext⟩ := hunder.tell hdistinct ht
    exact ih hnext hpast
  | @ask ts s o i c k ht _ ih =>
    obtain ⟨hnext, hchange⟩ := hunder.ask hdistinct ht
      ((v.journaled.answers s c).mono fun _ => trivial)
    refine ih hnext (v.growing_answer rfl hpast ?_ (hself hnext))
    rcases hchange with heq | ⟨r, hr, heq⟩
    · exact heq.symm ▸ hself hunder
    · have hwritten := (hself hunder).insert (r := r) fun r₀ hr₀ => by
        rcases hunder.find? hr with hsame | hthere
        · exact (hnew r hr).2 r₀ (hsame.symm.trans hr₀)
        · obtain rfl := Option.some.inj (hthere.symm.trans hr₀)
          exact (hnew r hr).1
      exact heq.symm ▸ hwritten

/-! ### Events and batches -/

section Runs

variable {fan : FanOut (σ × List Memory)}
  (hfan : ∀ ts s, v.journaled.backend.Interleaves ts s (fan ts s)) {s : σ × List Memory}
include hfan

theorem growing_perform {L : Ledger} (hs : L.Depicts net (v.contents s.1))
    (hpast : Growing net (v.past s)) (e : Event) :
    Growing net (v.past (perform v.journaled.backend fan net e s).state) := by
  rw [perform]
  rcases hs.branches e with ⟨m', -, hrun, hm'⟩ | ⟨k, ts, pool, -, -, hrun, hpool, hts⟩
  · have hopening := v.growing_of_writesLast (.tell (x := .consumed e.kind) hrun) hs.goesOn_self
      ((L.step_moves net e).goesOn hs hm') hm'.goesOn_self rfl hpast
    rcases v.journaled.run_of_writesLast (.tell (x := .consumed e.kind) hrun) rfl with
      ⟨hr, hm, -⟩ | ⟨-, ⟨f, hr⟩, -, -⟩
    · have hnone : (([] : List Record).map Record.messageHash).Nodup := List.nodup_nil
      have hfanned := v.growing_of_interleaves (hfan [] _) hnone (.nil True _) hopening
        (fun hr => (hm ▸ hm').goesOn_record hr) (by simp)
      simp only [hr]
      exact hfanned
    · simp only [hr]
      exact hopening
  · have hself : Memory.GoesOn net { v.contents s.1 with pool } { v.contents s.1 with pool } :=
      fun key r hr => hs.goesOn_self key r hr
    have hopening := v.growing_of_writesLast (.tell (x := .consumed e.kind) hrun) hs.goesOn_self
      (fun key r hr => hs.goesOn_self key r hr) hself rfl hpast
    rcases v.journaled.run_of_writesLast (.tell (x := .consumed e.kind) hrun) rfl with
      ⟨hr, hm, -⟩ | ⟨-, ⟨f, hr⟩, -, -⟩
    · have hfanned := v.growing_of_interleaves (hfan ts _) (L.nodup_goneOn net k e)
        (hm.symm ▸ hts True) hopening hs.goesOn_record fun r hr => hs.goesOn_goneOn hr
      simp only [hr]
      exact hfanned
    · simp only [hr]
      exact hopening

/-- A batch keeps a journal growing. -/
theorem growing_consume {L : Ledger} (hs : L.Depicts net (v.contents s.1))
    (hpast : Growing net (v.past s)) (es : List Event) :
    Growing net (v.past (consume v.journaled.backend fan net es s).state) := by
  induction es generalizing L s with
  | nil => exact hpast
  | cons e es ih =>
    have hnext := v.growing_perform hfan hs hpast e
    rw [consume]
    split
    · obtain ⟨L', hs'⟩ := (v.journaled.withFan fan hfan).exists_depicts_perform hs e
      exact ih hs' hnext
    · exact hnext

end Runs

end Stores

/-- Whichever calls are refused, whatever becomes of the batches, and whatever turns the branches of
an event take: from empty stores, of any two points of a run all that is stored at the earlier one
is still stored at the later one, and has gone on. -/
theorem journal_grows (v : Stores σ) {fan : FanOut (σ × List Memory)}
    (hfan : ∀ ts s, v.journaled.backend.Interleaves ts s (fan ts s)) (net : Network)
    (batches : List (List Event)) {s : σ} (hempty : v.contents s = Memory.empty) :
    (consumeEach v.journaled.backend fan net batches (s, [])).2.Pairwise
      fun later earlier => earlier.GoesOn net later := by
  have hrun : ∀ {s : σ × List Memory} {L : Ledger}, L.Depicts net (v.contents s.1) →
      Growing net (v.past s) →
      Growing net (v.past (consumeEach v.journaled.backend fan net batches s)) := by
    induction batches with
    | nil => exact fun _ hpast => hpast
    | cons es batches ih =>
      intro s L hs hpast
      obtain ⟨L', hs'⟩ := (v.journaled.withFan fan hfan).consumeEach_depicts hs [es]
      exact ih hs' (v.growing_consume hfan hs hpast es)
  have hstart : Ledger.empty.Depicts net (v.contents s) := hempty ▸ Ledger.depicts_empty net
  exact (List.pairwise_cons.mp (hrun (s := (s, [])) hstart (List.pairwise_singleton _ _))).2

set_option maxRecDepth 2000 in
/-- A batch that is broken off at the pool, one of a message that is known by then, and the first
one again. -/
theorem journal_grows_sample :
    let v := Stores.faltering
    let fan := oneByOne v.journaled.backend
    let broken := [Sample.dispatch, Sample.update, Sample.relay]
    let start := ((Memory.empty, some 8), [])
    (∃ r, (consume v.journaled.backend fan Sample.network broken start).result = .error r) ∧
      (consumeEach v.journaled.backend fan Sample.network [broken, [Sample.process], broken]
        start).2.Pairwise fun later earlier => earlier.GoesOn Sample.network later :=
  ⟨⟨_, rfl⟩, journal_grows _ (Backend.interleaves_inOrder _ [] (by simp)) Sample.network _ rfl⟩

end Tracker

end Waybill
