import Waybill.Proofs.Tracker.Runs
import Waybill.Proofs.Tracker.Telling
/-!
# Notices trace the states of messages

What observers are told about a message while events are worked on climbs from the state in which
its record was to that in which it is then. If a call is refused, the climb may break off and the
record be as it was. So over a whole run in which no call is refused the notices of a stored message
begin with its dispatch and end with its state, and transitions are counted as they are noticed.

## Main definitions

* `Tracker.Tells`: what is told leads from what is stored to what is stored then.
* `Tracker.Course.Climbs`: what is told of a message while an event is worked on.
* `Tracker.Traces`: notices from the dispatch of a message to the state of its record.

## Main results

* `Tracker.Course.climbs`: the work on an event tells of a climb, or of the beginning of one.
* `Tracker.Service.tells_consumeAll`: what is told over batches.
* `Tracker.notices_trace_states`: what is told of the messages that are stored after a run.
-/

namespace Waybill

open Waybill.Pending Message

namespace Tracker

/-- What is told leads all messages from where they stood to where they stand then, and transitions
are counted as they are noticed. -/
structure Tells (net : Network) (m : Memory) (xs : List Signal) (m' : Memory) : Prop where
  climb : ∀ hash,
    Climb net hash (m.standing net hash) (Signal.noticesOf hash xs) (m'.standing net hash)
  balanced : Signal.Balanced xs

theorem Tells.refl (net : Network) (m : Memory) : Tells net m [] m :=
  ⟨fun _ => .stay _, Signal.balanced_nil⟩

theorem Tells.trans {net : Network} {m m' m'' : Memory} {xs ys : List Signal}
    (h : Tells net m xs m') (h' : Tells net m' ys m'') : Tells net m (xs ++ ys) m'' := by
  refine ⟨fun hash => ?_, h.balanced.append h'.balanced⟩
  rw [Signal.noticesOf_append]
  exact (h.climb hash).append (h'.climb hash)

/-! ### The work on an event -/

namespace Course

variable {faulty : Prop} {net : Network} {L : Ledger} {m : Memory} {e : Event}
  {o : Outcome Memory Failure Unit}

/-- The notices of a hash that are sent while an event is worked on are those of a climb to where
the message stands after the event. If the climb breaks off, a call was refused, and the record of
the message is as it was. -/
def Climbs (net : Network) (L : Ledger) (m : Memory) (e : Event) (o : Outcome Memory Failure Unit)
    (hash : Digest) (told : List Notice) : Prop :=
  ∃ ns, Climb net hash (L.standing net hash) (told ++ ns) ((L.step net e).standing net hash) ∧
    (ns = [] ∧ o.state.standing net hash = (L.step net e).standing net hash ∨
      (∃ f, o.result = .error f) ∧
        o.state.records.find? hash.text = m.records.find? hash.text)

/-- What is told of a message of a root. -/
theorem climbs_branch {k : Mark} {ys : List Signal} {zss : List (List Signal)}
    {us : List (Task Unit)} (hmark : e.mark? = some k) (hroot : k.isOfRoot = true)
    (hunder : Underway faulty m.records.find? (L.goneOn net k e) zss us o.state)
    (hverdict : o.result = .ok () ∧ (∀ u ∈ us, u = .done ()) ∨
      ∃ f, o.result = .error f ∧ .fail f ∈ us)
    (hwoven : Woven (L.spreadSignals net k e) ys zss) {j : Journey}
    (hj : L.journeys.find? j.key = some j) (hans : j.answers net k e = true) :
    Climbs net L m e o j.dispatch.messageHash (Signal.noticesOf j.dispatch.messageHash ys) := by
  have hmem : j ∈ L.journeys.values.filter fun j => j.answers net k e :=
    List.mem_filter.mpr ⟨(L.mem_values_iff).mpr hj, hans⟩
  obtain ⟨i, hi⟩ := List.getElem?_of_mem hmem
  have hr : (L.goneOn net k e)[i]? = some ((j.goOn net k e (L.stock.keep e)).record net) := by
    rw [Ledger.goneOn, List.getElem?_map, hi, Option.map_some]
  have hkey : ((j.goOn net k e (L.stock.keep e)).record net).messageHash =
      j.dispatch.messageHash.text := j.key_goOn net k e _
  obtain ⟨zs, hzs, heq⟩ := Ledger.noticesOf_branch hroot hwoven hi
  have hclimb := Ledger.climb_told hmark hroot hj hans
  rw [heq] at hclimb
  refine ⟨_, hclimb, ?_⟩
  -- a branch that has written its record has told all that it had to tell
  have hdone (hwritten : o.state.records.find? j.dispatch.messageHash.text =
        some ((j.goOn net k e (L.stock.keep e)).record net) ∧ zs = []) :
      Signal.noticesOf j.dispatch.messageHash zs = [] ∧
        o.state.standing net j.dispatch.messageHash =
          (L.step net e).standing net j.dispatch.messageHash := by
    obtain ⟨hnew, rfl⟩ := hwritten
    refine ⟨rfl, ?_⟩
    rw [Journey.standing_eq hnew, Ledger.standing_step_of_root hmark hroot, ← Journey.key, hj,
      Option.map_some, if_pos hans]
  rcases hverdict with ⟨-, hover⟩ | ⟨f, hf, -⟩
  · exact .inl (hdone (hkey ▸ hunder.written hover hr hzs))
  · obtain ⟨-, u, -, hu⟩ := hunder.exists_branch hr
    rcases (hunder.stage hr hzs hu).find? with hold | hnew
    · exact .inr ⟨⟨f, hf⟩, hkey ▸ hold⟩
    · exact .inl (hdone (hkey ▸ hnew))

/-- What is told while an event is worked on. -/
theorem climbs (h : Course faulty net L m e o) (hm : L.Depicts net m) (hash : Digest) :
    Climbs net L m e o hash (Signal.noticesOf hash o.signals) := by
  cases h with
  | single hmark hm' =>
    refine ⟨[], ?_, .inl ⟨rfl, hm'.standing hash⟩⟩
    rw [List.append_nil]
    exact L.climb_opening hmark
  | @refused f xs _ hxs =>
    obtain ⟨ys, heq⟩ := hxs
    obtain ⟨ns, hclimb⟩ := L.exists_climb_step net e hash
    have hsplit : Signal.noticesOf hash (L.openingSignals net e) =
        Signal.noticesOf hash xs ++ Signal.noticesOf hash ys := by
      rw [← Signal.noticesOf_append, heq]
      rfl
    rw [hsplit, List.append_assoc] at hclimb
    exact ⟨_, hclimb, .inr ⟨⟨f, rfl⟩, rfl⟩⟩
  | @spread k o ys zss us hmark hroot hpool hunder hverdict hsignals hwoven =>
    have htold : Signal.noticesOf hash o.signals = Signal.noticesOf hash ys := by
      rw [hsignals, Signal.noticesOf_append, L.openingSignals_of_root hmark hroot]
      exact congrArg (· ++ _) (Signal.noticesOf_storeSignals hash e)
    rw [htold]
    by_cases hmem : ∃ r ∈ L.goneOn net k e, r.messageHash = hash.text
    · obtain ⟨r, hr, hhash⟩ := hmem
      obtain ⟨j, hj, hans, rfl⟩ := Ledger.mem_goneOn.mp hr
      rw [Journey.messageHash_record, Journey.key_goOn] at hhash
      obtain rfl := Digest.text_injective hhash
      exact climbs_branch hmark hroot hunder hverdict hwoven hj hans
    · have hother : ∀ r ∈ L.goneOn net k e, r.messageHash ≠ hash.text :=
        fun r hr hhash => hmem ⟨r, hr, hhash⟩
      rw [Ledger.noticesOf_eq_nil hroot hwoven hother]
      refine ⟨[], ?_, .inl ⟨rfl, ?_⟩⟩
      · rw [Ledger.standing_step_of_not_mem hmark hroot hother]
        exact .stay _
      · rw [Ledger.standing_step_of_not_mem hmark hroot hother, ← hm.standing, Memory.standing,
          Memory.standing, hunder.frame hother]

/-- What is told about an event that was worked on to its end. -/
theorem tells (h : Course faulty net L m e o) (hm : L.Depicts net m) (hok : o.result = .ok ()) :
    Tells net m o.signals o.state := by
  refine ⟨fun hash => ?_, ?_⟩
  · obtain ⟨ns, hclimb, ⟨rfl, hstate⟩ | ⟨⟨f, hf⟩, -⟩⟩ := h.climbs hm hash
    · rwa [List.append_nil, ← hstate, ← hm.standing] at hclimb
    · rw [hok] at hf
      cases hf
  · cases h with
    | single _ _ => exact (L.balanced_opening net e).consumed _
    | refused _ _ => cases hok
    | @spread k o ys zss us _ hroot _ hunder hverdict hsignals hwoven =>
      rcases hverdict with ⟨-, hover⟩ | ⟨f, hf, -⟩
      · have hdone : ∀ zs ∈ zss, zs = [] := by
          intro zs hzs
          obtain ⟨i, hi⟩ := List.getElem?_of_mem hzs
          have hlt : i < (L.goneOn net k e).length :=
            hunder.length_told ▸ (List.getElem?_eq_some_iff.mp hi).1
          exact (hunder.written hover (List.getElem?_eq_getElem hlt) hi).2
        rw [hsignals]
        exact ((L.balanced_opening net e).consumed _).append
          ((Signal.Balanced.flatten fun xs hxs => L.balanced_spread hroot hxs).perm
            (hwoven.perm_of_done hdone))
      · rw [hok] at hf
        cases hf

end Course

/-! ### Runs -/

namespace Service

variable {σ : Type} (v : Service σ) {net : Network} {L : Ledger} {s : σ}

/-- What is told while a batch is handled to its end. -/
theorem tells_consume (hs : L.Depicts net (v.contents s)) {es : List Event}
    (hok : (consume v.backend v.fan net es s).result = .ok ()) :
    Tells net (v.contents s) (consume v.backend v.fan net es s).signals
      (v.contents (consume v.backend v.fan net es s).state) := by
  induction es generalizing L s with
  | nil => exact .refl net _
  | cons e es ih =>
    rcases v.perform_cases hs e with ⟨hdone, hnext⟩ | ⟨-, ⟨f, hf⟩, -⟩
    · have hcons := consume_cons_of_ok hdone es
      rw [hcons] at hok ⊢
      exact ((v.perform_course hs e).tells hs hdone).trans (ih hnext hok)
    · rw [consume_cons_of_error hf] at hok
      cases hok

/-- Where no call is refused, what is told over batches leads all messages from state to state. -/
theorem tells_consumeAll (hs : L.Depicts net (v.contents s)) (hsteady : v.Steady s)
    (batches : List (List Event)) :
    Tells net (v.contents s) (consumeAll v.backend v.fan net batches s).signals
      (v.contents (consumeAll v.backend v.fan net batches s).state) := by
  induction batches generalizing L s with
  | nil => exact .refl net _
  | cons es batches ih =>
    obtain ⟨hok, hnext⟩ := v.consume_depicts hs hsteady es
    rw [consumeAll]
    simp only [hok]
    exact (v.tells_consume hs hok).trans (ih hnext (v.steady_consume es hsteady))

end Service

/-- The notices of a message tell of its dispatch first, then of later and later states, and of
that of its record last. Each carries the message itself in the state of its kind, and an event that
brings it there. -/
structure Traces (net : Network) (ns : List Notice) (r : Record) : Prop where
  first : ∃ n, ns.head? = some n ∧ n.kind = .dispatched
  increasing : ns.Pairwise fun earlier later => earlier.kind.precedes later.kind = true
  last : ∃ n, ns.getLast? = some n ∧ n.kind.code = r.state
  message : ∀ n ∈ ns, r.identity = .ok n.message.identity
  fits : ∀ n ∈ ns, n.Fits net

/-- From empty stores that refuse nothing, over whatever batches: the notices of a stored message
trace its states, and to each state as many transitions are counted as are noticed. -/
theorem notices_trace_states {σ : Type} (v : Service σ) (net : Network)
    (batches : List (List Event)) {s : σ} (hempty : v.contents s = Memory.empty)
    (hsteady : v.Steady s) :
    let o := consumeAll v.backend v.fan net batches s
    (∀ key r, (v.contents o.state).records.find? key = some r →
      ∃ hash : Digest, hash.text = key ∧ Traces net (Signal.noticesOf hash o.signals) r) ∧
    ∀ t, Signal.countMoved t o.signals =
      if t = .dispatched then 0 else (Signal.notices o.signals).countP (·.kind = t) := by
  intro o
  have hstart : Ledger.empty.Depicts net (v.contents s) := hempty ▸ Ledger.depicts_empty net
  obtain ⟨-, hend, -⟩ := v.consumeAll_depicts hstart hsteady batches
  obtain ⟨hclimb, hbalanced⟩ := v.tells_consumeAll hstart hsteady batches
  refine ⟨fun key r hr => ?_, hbalanced⟩
  rw [hend.find?, Option.map_eq_some_iff] at hr
  obtain ⟨j, hj, rfl⟩ := hr
  have hkey := Ledger.keyed _ hj
  subst hkey
  refine ⟨j.dispatch.messageHash, rfl, ?_⟩
  have htrace := hclimb j.dispatch.messageHash
  rw [hstart.standing, hend.standing, Ledger.standing_of_find? hj] at htrace
  have hnone : Ledger.empty.standing net j.dispatch.messageHash = none := rfl
  rw [hnone] at htrace
  obtain ⟨n, ns, hcons, hn⟩ := htrace.exists_cons (by simp)
  refine ⟨⟨n, by rw [hcons, List.head?_cons], hn⟩, htrace.increasing, ?_, fun n hn => ?_,
    fun n hn => (htrace.fits hn).1⟩
  · have hlast := htrace.state_eq_last.symm
    rw [Option.map_none, Option.or_none, Option.map_some, Option.map_eq_some_iff] at hlast
    obtain ⟨n, hn, hstate⟩ := hlast
    exact ⟨n, hn, congrArg State.code hstate⟩
  · rw [htrace.identity.2 n hn]
    exact Record.identity_ofMessage net (j.message net)

/-- A processing and a relay ahead of the dispatch, and an update after it, with branches in
turns. -/
theorem notices_trace_states_sample :
    let v := Stores.inTurns 3
    let o := consumeAll v.backend v.fan Sample.network
      [[Sample.process, Sample.relay], [Sample.dispatch, Sample.update]]
        (Guarded.ofInner Memory.empty)
    (∀ key r, (v.contents o.state).records.find? key = some r →
      ∃ hash : Digest, hash.text = key ∧
        Traces Sample.network (Signal.noticesOf hash o.signals) r) ∧
    ∀ t, Signal.countMoved t o.signals =
      if t = .dispatched then 0 else (Signal.notices o.signals).countP (·.kind = t) :=
  notices_trace_states (Stores.inTurns 3) Sample.network _ rfl rfl

end Tracker

end Waybill
