import Waybill.Proofs.Tracker.Branches
import Waybill.Proofs.Tracker.Handlers
/-!
# Trackers take the steps of their ledgers

Over the stores of a service that stand for a ledger, the work on an event either ends well, and
the stores stand for the next ledger, or it was broken off by a refused call, and they stand for a
ledger on which the event has at most a part of its effect. Batches follow.

## Main definitions

* `Ledger.goneOn`: the records of the messages of a root as they go on with an event.
* `Ledger.halfway`: a message of the root as its record tells.
* `Tracker.Course`: the course that the work on one event takes.

## Main results

* `Tracker.Course.of_branches`: the branches of an event, whatever their interleaving.
* `Tracker.Service.perform_course`, `Tracker.Service.perform_cases`: the work on one event.
* `Tracker.Service.consume_cases`: the work on a batch.
-/

namespace Waybill

open Waybill.Pending Waybill.Task Message

namespace Ledger

variable {net : Network} {L : Ledger} {m : Memory} {e : Event} {k : Mark}

/-- The records of the messages of a root as they go on with an event. -/
def goneOn (net : Network) (L : Ledger) (k : Mark) (e : Event) : List Record :=
  (L.journeys.values.filter fun j => j.answers net k e).map fun j =>
    (j.goOn net k e (L.stock.keep e)).record net

theorem mem_goneOn {r : Record} : r ∈ L.goneOn net k e ↔
    ∃ j, L.journeys.find? j.key = some j ∧ j.answers net k e = true ∧
      (j.goOn net k e (L.stock.keep e)).record net = r := by
  simp only [goneOn, List.mem_map, List.mem_filter, L.mem_values_iff, and_assoc]

/-- The messages of a ledger have different hashes. -/
theorem nodup_keys (L : Ledger) : (L.journeys.values.map Journey.key).Nodup := by
  have hkeys : L.journeys.values.map Journey.key = L.journeys.keys := by
    rw [SortedMap.values, SortedMap.keys, List.map_map]
    refine List.map_congr_left fun d hd => ?_
    exact L.keyed (SortedMap.find?_eq_some_iff.mpr hd)
  rw [hkeys]
  exact L.journeys.nodup_keys

/-- So have those of a root. -/
theorem nodup_keys_answering (net : Network) (L : Ledger) (k : Mark) (e : Event) :
    ((L.journeys.values.filter fun j => j.answers net k e).map Journey.key).Nodup :=
  L.nodup_keys.sublist (List.filter_sublist.map _)

theorem nodup_goneOn (net : Network) (L : Ledger) (k : Mark) (e : Event) :
    ((L.goneOn net k e).map Record.messageHash).Nodup := by
  have hkeys : (L.goneOn net k e).map Record.messageHash =
      (L.journeys.values.filter fun j => j.answers net k e).map Journey.key := by
    rw [goneOn, List.map_map]
    refine List.map_congr_left fun j _ => ?_
    exact (Journey.messageHash_record net _).trans (j.key_goOn net k e _)
  rw [hkeys]
  exact L.nodup_keys_answering net k e

/-- The branches of an event of a root at their beginning. -/
theorem underway (net : Network) (L : Ledger) (faulty : Prop) (m : Memory)
    {pool : SortedMap (String × String) String} (hpool : (L.stock.keep e).ShownBy pool)
    {step : Message → Event → Message × Bool} (hstep : ∀ m, step m e = m.take k e) :
    Tracker.Underway faulty m.records.find? (L.goneOn net k e) (L.spreadSignals net k e)
      (((L.journeys.values.filter fun j => j.answers net k e).map (Journey.record net)).map
        (Tracker.branch net k.state step e)) { m with pool } := by
  refine ⟨by simp only [goneOn, List.length_map], by simp only [goneOn, spreadSignals,
    List.length_map], fun {i r xs t} hr hxs ht => ?_, fun _ => rfl⟩
  rw [goneOn, List.getElem?_map, Option.map_eq_some_iff] at hr
  obtain ⟨j, hj, rfl⟩ := hr
  rw [spreadSignals, List.getElem?_map, hj, Option.map_some, Option.some.injEq] at hxs
  rw [List.getElem?_map, List.getElem?_map, hj, Option.map_some, Option.map_some,
    Option.some.injEq] at ht
  subst hxs ht
  exact .ahead (leads_branch net hpool j k hstep) rfl

/-- Stores in which every record is that of its message gone on in its own way. -/
theorem Depicts.revise (h : L.Depicts net m) {f : Journey → Journey}
    (hf : ∀ j, (f j).key = j.key) {m' : Memory} (hpool : (L.stock.keep e).ShownBy m'.pool)
    (hframe : ∀ {key}, (∀ r ∈ L.goneOn net k e, r.messageHash ≠ key) →
      m'.records.find? key = m.records.find? key)
    (hsome : ∀ j, L.journeys.find? j.key = some j → j.answers net k e = true →
      m'.records.find? j.key = some ((f j).record net))
    (hother : ∀ j, j.answers net k e = false → f j = j) :
    ((L.keep e).revise f hf).Depicts net m' := by
  refine ⟨SortedMap.ext_find? fun key => ?_, hpool⟩
  rw [Ledger.revise, SortedMap.find?_map, SortedMap.find?_map, Ledger.keep]
  -- a key that no message of the root has is left alone
  have hrest : (∀ j, L.journeys.find? key = some j → j.answers net k e = false) →
      m'.records.find? key = (L.journeys.find? key).map (Journey.record net) := by
    intro hno
    rw [← h.find?]
    refine hframe fun r hr hkey => ?_
    obtain ⟨j, hj, hans, rfl⟩ := mem_goneOn.mp hr
    rw [Journey.messageHash_record, Journey.key_goOn] at hkey
    have hfalse := hno j (hkey ▸ hj)
    rw [hans] at hfalse
    cases hfalse
  cases hj : L.journeys.find? key with
  | none =>
    rw [hrest (by simp [hj]), hj]
    rfl
  | some j =>
    cases hans : j.answers net k e with
    | true =>
      have hkey := L.keyed hj
      subst hkey
      exact hsome j hj hans
    | false =>
      rw [hrest, hj, Option.map_some, Option.map_some, Option.map_some, hother j hans]
      intro i hi
      rw [hj] at hi
      exact Option.some.inj hi ▸ hans

theorem record_mem_goneOn {j : Journey} (hj : L.journeys.find? j.key = some j)
    (hans : j.answers net k e = true) :
    (j.goOn net k e (L.stock.keep e)).record net ∈ L.goneOn net k e :=
  mem_goneOn.mpr ⟨j, hj, hans, rfl⟩

/-- A message of the root as its record tells: gone on, or as it was. -/
def halfway (net : Network) (L : Ledger) (k : Mark) (e : Event) (m : Memory) (j : Journey) :
    Journey :=
  if j.answers net k e = true ∧
      m.records.find? j.key = some ((j.goOn net k e (L.stock.keep e)).record net) then
    j.goOn net k e (L.stock.keep e)
  else j

theorem key_halfway (j : Journey) : (L.halfway net k e m j).key = j.key := by
  rw [halfway]
  split
  · exact j.key_goOn net k e _
  · rfl

theorem halfway_of_not_answers {j : Journey} (h : j.answers net k e = false) :
    L.halfway net k e m j = j :=
  if_neg fun hgone => by simp [h] at hgone

/-- Stores in which every record of the root is as it was or as its message has gone on stand for a
part of the effect of the event. -/
theorem Depicts.partial_of_each (h : L.Depicts net m) (hmark : e.mark? = some k)
    (hroot : k.isOfRoot = true) {m' : Memory} (hpool : (L.stock.keep e).ShownBy m'.pool)
    (hframe : ∀ {key}, (∀ r ∈ L.goneOn net k e, r.messageHash ≠ key) →
      m'.records.find? key = m.records.find? key)
    (heach : ∀ {r}, r ∈ L.goneOn net k e →
      m'.records.find? r.messageHash = m.records.find? r.messageHash ∨
        m'.records.find? r.messageHash = some r) :
    ∃ L', L.Partial net e L' ∧ L'.Depicts net m' := by
  refine ⟨(L.keep e).revise (L.halfway net k e m') key_halfway, .some hmark hroot rfl fun key => ?_,
    h.revise key_halfway hpool hframe (fun j hj hans => ?_) fun _ => halfway_of_not_answers⟩
  · rw [step_of_mark net L hmark, if_pos hroot, spread, Ledger.revise, Ledger.revise,
      SortedMap.find?_map, SortedMap.find?_map, Ledger.keep]
    cases hj : L.journeys.find? key with
    | none => exact .inl rfl
    | some j =>
      rw [Option.map_some, Option.map_some, halfway]
      split
      · next hgone => exact .inr (by rw [if_pos hgone.1])
      · exact .inl rfl
  · rw [halfway]
    split
    · next hgone => exact hgone.2
    · next hstays =>
      have hcases := heach (record_mem_goneOn hj hans)
      rw [Journey.messageHash_record, Journey.key_goOn, h.find?, hj] at hcases
      exact hcases.resolve_right fun hnew => hstays ⟨hans, hnew⟩

/-- What the branches of an event of a root leave behind: all messages of the root have gone on,
or, if the branches were cut short, some of them. -/
theorem Depicts.aftermath (h : L.Depicts net m) (hmark : e.mark? = some k)
    (hroot : k.isOfRoot = true) {faulty : Prop} {pool : SortedMap (String × String) String}
    (hpool : (L.stock.keep e).ShownBy pool) {o : Outcome Memory Failure Unit}
    (ho : Tracker.Aftermath faulty m.records.find? (L.goneOn net k e) pool o) :
    (o.result = .ok () ∧ (L.step net e).Depicts net o.state) ∨
      faulty ∧ (∃ f, o.result = .error f) ∧
        ∃ L', L.Partial net e L' ∧ L'.Depicts net o.state := by
  have hpool' : (L.stock.keep e).ShownBy o.state.pool := ho.pool ▸ hpool
  rcases ho.verdict with ⟨hok, hwritten⟩ | ⟨hfaulty, herror⟩
  · refine .inl ⟨hok, ?_⟩
    rw [step_of_mark net L hmark, if_pos hroot]
    refine h.revise _ hpool' ho.frame (fun j hj hans => ?_) fun j hans => by simp [hans]
    rw [if_pos hans, ← hwritten _ (record_mem_goneOn hj hans), Journey.messageHash_record,
      Journey.key_goOn]
  · exact .inr ⟨hfaulty, herror, h.partial_of_each hmark hroot hpool' ho.frame ho.each⟩

/-- The work on an event up to its branches is all of its effect, unless the event is one of a
root. Then it hands the event to the pool and leaves a branch for each message of the root. -/
theorem Depicts.branches (h : L.Depicts net m) (e : Event) :
    (∃ m', (∀ k, e.mark? = some k → k.isOfRoot = false) ∧
      WritesLast m (Tracker.branches net e) (L.openingSignals net e) [] m' ∧
      (L.step net e).Depicts net m') ∨
    (∃ k ts pool, e.mark? = some k ∧ k.isOfRoot = true ∧
      WritesLast m (Tracker.branches net e) (L.openingSignals net e) ts { m with pool } ∧
      (L.stock.keep e).ShownBy pool ∧ ∀ faulty, Tracker.Underway faulty m.records.find?
        (L.goneOn net k e) (L.spreadSignals net k e) ts { m with pool }) := by
  have hsingle {L' : Ledger} {t : Task Unit} {xs : List Signal}
      (hmark : ∀ k, e.mark? = some k → k.isOfRoot = false)
      (ht : ∃ m', L'.Depicts net m' ∧ WritesLast m t xs () m') :
      ∃ m', (∀ k, e.mark? = some k → k.isOfRoot = false) ∧
        WritesLast m (t.bind fun _ => Task.done ([] : List (Task Unit))) xs [] m' ∧
        L'.Depicts net m' := by
    obtain ⟨m', hm', hrun⟩ := ht
    have hdone := hrun.bind_telling (f := fun _ => Task.done ([] : List (Task Unit))) [] rfl
    rw [List.append_nil] at hdone
    exact ⟨m', hmark, hdone, hm'⟩
  rw [Tracker.branches, step, openingSignals]
  cases he : e.data with
  | dispatch d => exact .inl (hsingle (by simp [Event.mark?, he]) (h.onDispatch e d))
  | process p =>
    exact .inl (hsingle (by simp [Event.mark?, he, Mark.isOfRoot]) (h.onProcess he))
  | bridgeSend s =>
    exact .inl (hsingle (by simp [Event.mark?, he, Mark.isOfRoot]) (h.onSend he))
  | bridgeReceive r =>
    exact .inl (hsingle (by simp [Event.mark?, he, Mark.isOfRoot]) (h.onReceive he))
  | homeUpdate u =>
    obtain ⟨pool, hpool, hrun⟩ := h.onRoot (.inl ⟨he, rfl⟩) .updated Message.update
    exact .inr ⟨.updated, _, pool, by rw [Event.mark?, he], rfl, hrun, hpool,
      fun faulty => L.underway net faulty m hpool fun _ => rfl⟩
  | replicaUpdate u =>
    obtain ⟨pool, hpool, hrun⟩ := h.onRoot (.inr ⟨he, rfl⟩) .relayed Message.relay
    exact .inr ⟨.relayed, _, pool, by rw [Event.mark?, he], rfl, hrun, hpool,
      fun faulty => L.underway net faulty m hpool fun _ => rfl⟩

end Ledger

namespace Tracker

theorem Interleaves.nil {faulty : Prop} {m : Memory} {o : Outcome Memory Failure Unit}
    (h : Interleaves faulty [] m o) : o = ⟨.ok (), m, []⟩ := by
  cases h with
  | ended => rfl
  | failed hf => cases hf
  | tell ht => simp at ht
  | ask ht => simp at ht

/-- The courses that the work on an event can take over stores that stand for a ledger. -/
inductive Course (faulty : Prop) (net : Network) (L : Ledger) (m : Memory) (e : Event) :
    Outcome Memory Failure Unit → Prop
  /-- There are no branches, and all is done. -/
  | single {m' : Memory} (hmark : ∀ k, e.mark? = some k → k.isOfRoot = false)
      (h : (L.step net e).Depicts net m') :
      Course faulty net L m e ⟨.ok (), m', .consumed e.kind :: L.openingSignals net e⟩
  /-- A call was refused before anything was written. -/
  | refused {f : Failure} {xs : List Signal} (h : faulty)
      (hxs : xs <+: .consumed e.kind :: L.openingSignals net e) :
      Course faulty net L m e ⟨.error f, m, xs⟩
  /-- The event was handed to the pool, and its branches are over or were broken off. -/
  | spread {k : Mark} {o : Outcome Memory Failure Unit} {ys : List Signal}
      {zss : List (List Signal)} {us : List (Task Unit)} (hmark : e.mark? = some k)
      (hroot : k.isOfRoot = true) (hpool : (L.stock.keep e).ShownBy o.state.pool)
      (hunder : Underway faulty m.records.find? (L.goneOn net k e) zss us o.state)
      (hverdict : o.result = .ok () ∧ (∀ u ∈ us, u = .done ()) ∨
        ∃ f, o.result = .error f ∧ .fail f ∈ us)
      (hsignals : o.signals = .consumed e.kind :: L.openingSignals net e ++ ys)
      (hwoven : Woven (L.spreadSignals net k e) ys zss) : Course faulty net L m e o

/-- On every course the step of the ledger is taken, or a call was refused and a part of the step at
most was taken. -/
theorem Course.effect {faulty : Prop} {net : Network} {L : Ledger} {m : Memory} {e : Event}
    {o : Outcome Memory Failure Unit} (h : Course faulty net L m e o) (hm : L.Depicts net m) :
    (o.result = .ok () ∧ (L.step net e).Depicts net o.state) ∨
      (faulty ∧ (∃ f, o.result = .error f) ∧
        ∃ L', L.Partial net e L' ∧ L'.Depicts net o.state) := by
  cases h with
  | single _ h => exact .inl ⟨rfl, h⟩
  | refused hfaulty _ => exact .inr ⟨hfaulty, ⟨_, rfl⟩, L, .nothing, hm⟩
  | spread hmark hroot hpool hunder hverdict =>
    exact hm.aftermath hmark hroot hpool (hunder.aftermath hverdict)

/-- Over stores that stand for a ledger the work on an event comes to its branches, and whatever
their interleaving, it takes one of its courses. -/
theorem Course.of_branches (faulty : Prop) {net : Network} {L : Ledger} {m : Memory}
    (hm : L.Depicts net m) (e : Event) :
    ∃ ts m', WritesLast m (branches net e) (L.openingSignals net e) ts m' ∧
      ∀ {o}, Interleaves faulty ts m' o →
        Course faulty net L m e (o.after (.consumed e.kind :: L.openingSignals net e)) := by
  rcases hm.branches e with ⟨m', hmark, hrun, hm'⟩ | ⟨k, ts, pool, hmark, hroot, hrun, hpool, hts⟩
  · refine ⟨[], m', hrun, fun {o} ho => ?_⟩
    obtain rfl := ho.nil
    rw [Outcome.after, List.append_nil]
    exact .single hmark hm'
  · refine ⟨ts, _, hrun, fun {o} ho => ?_⟩
    obtain ⟨zss, us, hwoven, hunder, hend, hverdict⟩ :=
      ho.underway (L.nodup_goneOn net k e) (hts _)
    exact .spread hmark hroot (hend ▸ hpool) hunder hverdict rfl hwoven

namespace Service

variable {σ : Type} (v : Service σ) {net : Network} {L : Ledger} {s : σ}

/-- The course that the work on an event takes. -/
theorem perform_course (hs : L.Depicts net (v.contents s)) (e : Event) :
    Course (¬ v.Steady s) net L (v.contents s) e
      ((perform v.backend v.fan net e s).mapState v.contents) := by
  have hsteady := v.steady_run (.tell (.consumed e.kind) (branches net e)) (s := s)
  have hfan := v.interleaves (s := ((Task.tell (.consumed e.kind) (branches net e)).run
    v.backend s).state)
  obtain ⟨ts, m', hrun, hcourse⟩ := Course.of_branches (¬ v.Steady s) hs e
  rw [perform]
  -- whatever comes before the branches is done to its end, or it leaves everything as it was
  rcases v.run_of_writesLast (.tell (x := .consumed e.kind) hrun) rfl with
    ⟨hr, hm, hsignals⟩ | ⟨hfaulty, ⟨f, hr⟩, hm, hsignals⟩
  · simp only [hr]
    rw [Outcome.mapState_after, hsignals]
    exact hcourse (hm ▸ (hfan ts).mono (mt hsteady))
  · simp only [hr]
    rw [Outcome.mapState, hm]
    exact .refused hfaulty hsignals

/-- The work on an event takes the step of the ledger, or a call was refused and a part of the
step at most was taken. -/
theorem perform_cases (hs : L.Depicts net (v.contents s)) (e : Event) :
    ((perform v.backend v.fan net e s).result = .ok () ∧
      (L.step net e).Depicts net (v.contents (perform v.backend v.fan net e s).state)) ∨
    (¬ v.Steady s ∧ (∃ f, (perform v.backend v.fan net e s).result = .error f) ∧
      ∃ L', L.Partial net e L' ∧
        L'.Depicts net (v.contents (perform v.backend v.fan net e s).state)) :=
  (v.perform_course hs e).effect hs

theorem steady_perform {net : Network} (e : Event) (h : v.Steady s) :
    v.Steady (perform v.backend v.fan net e s).state := by
  have hsteady := v.steady_run (.tell (.consumed e.kind) (branches net e)) h
  rw [perform]
  split
  · exact v.steady_fan _ hsteady
  · exact hsteady

/-- Work on a batch takes the steps of the ledger, or a call was refused: then the steps up to
some event were taken, and of that one a part at most. -/
theorem consume_cases (hs : L.Depicts net (v.contents s)) (es : List Event) :
    ((consume v.backend v.fan net es s).result = .ok () ∧
      (L.steps net es).Depicts net (v.contents (consume v.backend v.fan net es s).state)) ∨
    (¬ v.Steady s ∧ ∃ ds e rest L', es = ds ++ e :: rest ∧
      (∃ f, (consume v.backend v.fan net es s).result = .error ⟨e, f⟩) ∧
      (L.steps net ds).Partial net e L' ∧
      L'.Depicts net (v.contents (consume v.backend v.fan net es s).state)) := by
  induction es generalizing L s with
  | nil => exact .inl ⟨rfl, hs⟩
  | cons e es ih =>
    rw [consume]
    rcases v.perform_cases hs e with ⟨hok, hnext⟩ | ⟨hfaulty, ⟨f, hf⟩, L', hpart, hm⟩
    · simp only [hok]
      rcases ih hnext with hdone | ⟨hfaulty, ds, d, rest, L', rfl, hf, hpart, hm⟩
      · exact .inl hdone
      · exact .inr ⟨fun hst => hfaulty (v.steady_perform e hst), e :: ds, d, rest, L', rfl, hf,
          hpart, hm⟩
    · simp only [hf]
      exact .inr ⟨hfaulty, [], e, es, L', rfl, ⟨f, rfl⟩, hpart, hm⟩

theorem steady_consume {net : Network} (es : List Event) (h : v.Steady s) :
    v.Steady (consume v.backend v.fan net es s).state := by
  induction es generalizing s with
  | nil => exact h
  | cons e es ih =>
    rw [consume]
    split
    · exact ih (v.steady_perform e h)
    · exact v.steady_perform e h

end Service

end Tracker

end Waybill
