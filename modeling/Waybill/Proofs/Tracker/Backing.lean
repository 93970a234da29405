import Waybill.Proofs.Ledger.Growth
import Waybill.Proofs.Ledger.Within
import Waybill.Proofs.Tracker.Atomicity
import Waybill.Proofs.Tracker.Notices
/-!
# Notices and what is stored

A message is noticed as it moves on, before its record is written. So what was noticed is stored
once the call has returned, unless the batch was broken off: then the event at which it failed may
have been noticed of a message whose record is as it was. Such a notice is sent again when the batch
is consumed again, and is backed once this is done to the end. Of a state whose notice is backed no
other notice is sent.

## Main definitions

* `Memory.Backs`: the state that a notice tells of is stored, or a later one.
* `Ledger.AsFar`: no message is further on one ledger than on another.

## Main results

* `Tracker.CutAt.climb`: what is told of a batch that is broken off.
* `Tracker.Service.attempt`: a batch that is consumed again.
* `Tracker.notices_backed`: which notices are backed, and which are sent again.
-/

namespace Waybill

open Waybill.Pending Message

/-- A record of the message of a notice is stored, in a state no earlier than the one that the
notice tells of. -/
def Memory.Backs (m : Memory) (n : Notice) : Prop :=
  ∃ r, m.records.find? n.message.hash.text = some r ∧ n.kind.code ≤ r.state

/-! ### Ledgers on which messages are further -/

theorem Journey.Within.rank_le {net : Network} {j j' : Journey} (h : j.Within net j') :
    (j.message net).state.rank ≤ (j'.message net).state.rank :=
  Seen.rank_furthest_le fun k hk => by
    rw [History.has_seen] at hk ⊢
    exact h.heard k hk

namespace Ledger

variable {net : Network} {L L' L'' : Ledger} {m : Memory} {e : Event}

/-- A notice is backed by stores that stand for a ledger if its message has come as far on it. -/
theorem Depicts.backs_iff (h : L.Depicts net m) (n : Notice) :
    m.Backs n ↔ CameTo (L.standing net n.message.hash) n.kind := by
  rw [Memory.Backs, h.find?, Ledger.standing]
  cases L.journeys.find? n.message.hash.text with
  | none => simp [CameTo]
  | some j =>
    rw [Option.map_some, Option.map_some, cameTo_some]
    constructor
    · rintro ⟨r, hr, hle⟩
      obtain rfl := Option.some.inj hr
      exact State.code_le_code_iff.mp hle
    · exact fun hle => ⟨_, rfl, State.code_le_code_iff.mpr hle⟩

/-- Every message has come as far on the other ledger. -/
def AsFar (net : Network) (L L' : Ledger) : Prop :=
  ∀ hash t, CameTo (L.standing net hash) t → CameTo (L'.standing net hash) t

theorem AsFar.trans (h : L.AsFar net L') (h' : L'.AsFar net L'') : L.AsFar net L'' :=
  fun hash t ht => h' hash t (h hash t ht)

theorem asFar_of_journeys (h : ∀ {key j}, L.journeys.find? key = some j →
    ∃ j', L'.journeys.find? key = some j' ∧ j.Within net j') : L.AsFar net L' := by
  rintro hash t ⟨s, hs, hle⟩
  rw [standing, Option.map_eq_some_iff] at hs
  obtain ⟨j, hj, rfl⟩ := hs
  obtain ⟨j', hj', hwithin⟩ := h hj
  rw [standing, hj', Option.map_some, cameTo_some]
  exact Nat.le_trans hle hwithin.rank_le

theorem Within.asFar (h : L.Within net L') : L.AsFar net L' := by
  refine asFar_of_journeys fun {key j} hj => ?_
  rcases h.journeys key with ⟨hnone, -⟩ | ⟨i, j', hi, hj', hwithin⟩
  · rw [hj] at hnone
    cases hnone
  · obtain rfl := Option.some.inj (hj.symm.trans hi)
    exact ⟨j', hj', hwithin⟩

/-- No message goes back when an event moves a ledger. -/
theorem Moves.asFar (h : L.Moves net e L') : L.AsFar net L' :=
  asFar_of_journeys h.exists_within

theorem asFar_steps (net : Network) (L : Ledger) (es : List Event) :
    L.AsFar net (L.steps net es) :=
  steps_keep (fun _ hmoves hfar => AsFar.trans hfar hmoves.asFar) fun _ _ ht => ht

/-- The steps up to an event and its own are taken on the way to those of a batch. -/
theorem asFar_steps_of_prefix {ds es : List Event} (h : ds ++ [e] <+: es) :
    ((L.steps net ds).step net e).AsFar net (L.steps net es) := by
  obtain ⟨rest, rfl⟩ := h
  rw [steps_append, steps_append]
  exact asFar_steps net _ rest

end Ledger

namespace Tracker

variable {σ : Type}

/-! ### No message goes back -/

namespace Service

variable (v : Service σ) {net : Network} {L : Ledger} {s : σ}

/-- No message goes back in a batch. -/
theorem consume_asFar (hs : L.Depicts net (v.contents s)) (es : List Event) :
    ∃ L' : Ledger, L'.Depicts net (v.contents (consume v.backend v.fan net es s).state) ∧
      L.AsFar net L' :=
  v.consume_keeps (fun _ hmoves hfar => Ledger.AsFar.trans hfar hmoves.asFar) hs fun _ _ ht => ht

theorem consumeEach_asFar (hs : L.Depicts net (v.contents s)) (batches : List (List Event)) :
    ∃ L' : Ledger, L'.Depicts net (v.contents (consumeEach v.backend v.fan net batches s)) ∧
      L.AsFar net L' :=
  v.consumeEach_keeps (fun hmoves hfar => Ledger.AsFar.trans hfar hmoves.asFar) hs
    (fun _ _ ht => ht) batches

/-- What is backed stays backed. -/
theorem backs_consumeEach (hs : L.Depicts net (v.contents s)) {n : Notice}
    (hn : (v.contents s).Backs n) (batches : List (List Event)) :
    (v.contents (consumeEach v.backend v.fan net batches s)).Backs n := by
  obtain ⟨L', hs', hfar⟩ := v.consumeEach_asFar hs batches
  exact (hs'.backs_iff n).mpr (hfar _ _ ((hs.backs_iff n).mp hn))

end Service

/-! ### What is told of a batch -/

section Batches

variable {v : Service σ} {net : Network} {L : Ledger} {es ds rest : List Event} {s : σ}
  {r : Rejection}

/-- What is told of the events before a cut. -/
theorem CutAt.climb_before (h : CutAt v.backend v.fan net es s r ds rest)
    (hs : L.Depicts net (v.contents s)) (hash : Digest) :
    Climb net hash (L.standing net hash)
      (Signal.noticesOf hash (consume v.backend v.fan net ds s).signals)
      ((L.steps net ds).standing net hash) := by
  have hclimb := (v.tells_consume hs h.before).climb hash
  rwa [hs.standing, (h.depicts hs).standing] at hclimb

/-- What is told of a batch that is broken off is a beginning of what would be told of the events
up to the one at which it failed. -/
theorem CutAt.climb (h : CutAt v.backend v.fan net es s r ds rest)
    (hs : L.Depicts net (v.contents s)) (hash : Digest) :
    ∃ ns, Climb net hash (L.standing net hash)
      (Signal.noticesOf hash (consume v.backend v.fan net es s).signals ++ ns)
      (((L.steps net ds).step net r.event).standing net hash) := by
  obtain ⟨ns, hlast, -⟩ := (v.perform_course (h.depicts hs) r.event).climbs (h.depicts hs) hash
  refine ⟨ns, ?_⟩
  rw [h.signals, Signal.noticesOf_append, List.append_assoc]
  exact (h.climb_before hs hash).append hlast

/-- Whatever becomes of a batch, the notices of a hash are those of a climb. -/
theorem Service.exists_climb_consume (v : Service σ) {s : σ} (hs : L.Depicts net (v.contents s))
    (es : List Event) (hash : Digest) : ∃ ns t, Climb net hash (L.standing net hash)
      (Signal.noticesOf hash (consume v.backend v.fan net es s).signals ++ ns) t := by
  cases hr : (consume v.backend v.fan net es s).result with
  | ok =>
    have hclimb := (v.tells_consume hs hr).climb hash
    rw [hs.standing, ← List.append_nil (Signal.noticesOf hash _)] at hclimb
    exact ⟨[], _, hclimb⟩
  | error r =>
    obtain ⟨ds, rest, hcut⟩ := exists_cutAt hr
    obtain ⟨ns, hclimb⟩ := hcut.climb hs hash
    exact ⟨ns, _, hclimb⟩

/-- What was told of a batch to its end is backed. -/
theorem Service.backs_of_ok (v : Service σ) {s : σ} (hs : L.Depicts net (v.contents s))
    (hok : (consume v.backend v.fan net es s).result = .ok ()) {n : Notice}
    (hn : n ∈ Signal.notices (consume v.backend v.fan net es s).signals) :
    (v.contents (consume v.backend v.fan net es s).state).Backs n := by
  obtain ⟨L', hm, -⟩ := v.consume_asFar hs es
  have hclimb := (v.tells_consume hs hok).climb n.message.hash
  rw [hm.backs_iff, ← hm.standing]
  exact hclimb.cameTo (Signal.mem_noticesOf.mpr ⟨hn, rfl⟩)

/-- What was told of a batch that was broken off is backed, or was told of the event at which it
failed, and the record of the message is as it was before the event. -/
theorem CutAt.backs_or (h : CutAt v.backend v.fan net es s r ds rest)
    (hs : L.Depicts net (v.contents s)) {n : Notice}
    (hn : n ∈ Signal.notices (consume v.backend v.fan net es s).signals) :
    (v.contents (consume v.backend v.fan net es s).state).Backs n ∨
      n ∈ Signal.notices
          (perform v.backend v.fan net r.event (consume v.backend v.fan net ds s).state).signals ∧
        (v.contents (consume v.backend v.fan net es s).state).records.find? n.message.hash.text =
          (v.contents (consume v.backend v.fan net ds s).state).records.find?
            n.message.hash.text := by
  obtain ⟨L', hm, -⟩ := v.consume_asFar hs es
  obtain ⟨ns, hlast, hend⟩ :=
    (v.perform_course (h.depicts hs) r.event).climbs (h.depicts hs) n.message.hash
  rw [Outcome.mapState, ← h.state] at hend
  rcases hend with ⟨rfl, hstands⟩ | ⟨-, hsame⟩
  · -- the record is that of the message gone on
    obtain ⟨ns, hclimb⟩ := h.climb hs n.message.hash
    rw [hm.backs_iff, ← hm.standing, hstands]
    exact .inl (hclimb.cameTo (List.mem_append_left _ (Signal.mem_noticesOf.mpr ⟨hn, rfl⟩)))
  · rw [h.signals, Signal.notices_append, List.mem_append] at hn
    rcases hn with hn | hn
    · refine .inl ?_
      have hcame := (h.climb_before hs n.message.hash).cameTo
        (Signal.mem_noticesOf.mpr ⟨hn, rfl⟩)
      rw [← (h.depicts hs).backs_iff, Memory.Backs, ← hsame] at hcame
      exact hcame
    · exact .inr ⟨hn, hsame⟩

end Batches

/-! ### A batch that is consumed again -/

namespace Service

variable (v : Service σ) {net : Network} {L : Ledger} {s : σ}

/-- An attempt at a batch that failed at an event comes to the end of the batch, or past the event,
or it leaves no less than there was before the event. -/
theorem attempt {K : Ledger} {ds : List Event} {e : Event}
    (hs : L.Depicts net (v.contents s)) (hknows : K.Knows ds)
    (hbefore : K.Within net L ∨ (K.step net e).AsFar net L) (rest : List Event) :
    let o := consume v.backend v.fan net (ds ++ e :: rest) s
    ∃ L', L'.Depicts net (v.contents o.state) ∧
      ((∃ r, o.result = .error r) ∧ K.Within net L' ∨ (K.step net e).AsFar net L') := by
  intro o
  rcases hbefore with hwithin | hfar
  · -- until it comes to the event, an attempt works on events again whose dispatches are known
    have hpast {es : List Event} (hes : ds ++ [e] <+: es) :
        (K.step net e).AsFar net (L.steps net es) :=
      ((hwithin.trans ((hwithin.knows hknows).within_steps net)).step e).asFar.trans
        (Ledger.asFar_steps_of_prefix hes)
    rcases v.consume_cases hs (ds ++ e :: rest) with
      ⟨-, hm⟩ | ⟨-, ds', e', rest', L', hsplit, ⟨f, hf⟩, hpart, hm⟩
    · exact ⟨_, hm, .inr (hpast ⟨rest, by rw [List.append_assoc, List.singleton_append]⟩)⟩
    · have hds' : ds' <+: ds ++ e :: rest := ⟨e' :: rest', hsplit.symm⟩
      by_cases hlength : ds'.length ≤ ds.length
      · obtain ⟨us, rfl⟩ := List.prefix_of_prefix_length_le hds' (List.prefix_append ds _) hlength
        have hdispatched := hwithin.knows fun d hd => hknows d (List.mem_append_left us hd)
        have hagain := hwithin.trans (hdispatched.within_steps net)
        exact ⟨L', hm, .inl ⟨⟨_, hf⟩, hagain.trans hpart.within⟩⟩
      · have hde : ds ++ [e] <+: ds ++ e :: rest :=
          ⟨rest, by rw [List.append_assoc, List.singleton_append]⟩
        have hlonger : (ds ++ [e]).length ≤ ds'.length := by
          rw [List.length_append, List.length_singleton]
          omega
        exact ⟨L', hm, .inr ((hpast (List.prefix_of_prefix_length_le hde hds' hlonger)).trans
          hpart.moves.asFar)⟩
  · obtain ⟨L', hm, hfar'⟩ := v.consume_asFar hs (ds ++ e :: rest)
    exact ⟨L', hm, .inr (hfar.trans hfar')⟩

/-- Once a batch that failed at an event was attempted again, without anything in between, the
messages are past the event, or there is no less than there was before it. -/
theorem attempts {K : Ledger} {ds rest : List Event} {e : Event}
    (hs : L.Depicts net (v.contents s)) (hknows : K.Knows ds) (hwithin : K.Within net L) (n : Nat) :
    ∃ L', L'.Depicts net (v.contents (consumeEach v.backend v.fan net
        (List.replicate n (ds ++ e :: rest)) s)) ∧
      (K.Within net L' ∨ (K.step net e).AsFar net L') := by
  have hstart : K.Within net L ∨ (K.step net e).AsFar net L := .inl hwithin
  clear hwithin
  induction n generalizing L s with
  | zero => exact ⟨L, hs, hstart⟩
  | succ n ih =>
    obtain ⟨L', hs', hnext⟩ := v.attempt hs hknows hstart rest
    exact ih hs' (hnext.imp_left And.right)

/-- What was told of a batch that was broken off is backed once the batch is consumed again and
comes to its end. -/
theorem backs_of_retry {batch ds rest : List Event} {r : Rejection}
    (h : CutAt v.backend v.fan net batch s r ds rest) (hs : L.Depicts net (v.contents s))
    {n : Notice} (hn : n ∈ Signal.notices (consume v.backend v.fan net batch s).signals) (k : Nat)
    (hok : (consume v.backend v.fan net batch (consumeEach v.backend v.fan net
      (List.replicate k batch) (consume v.backend v.fan net batch s).state)).result = .ok ()) :
    (v.contents (consume v.backend v.fan net batch (consumeEach v.backend v.fan net
      (List.replicate k batch) (consume v.backend v.fan net batch s).state)).state).Backs n := by
  have hknows := L.knows_steps net ds
  obtain ⟨ns, hclimb⟩ := h.climb hs n.message.hash
  have hcame := hclimb.cameTo (List.mem_append_left ns (Signal.mem_noticesOf.mpr ⟨hn, rfl⟩))
  rcases (v.perform_course (h.depicts hs) r.event).effect (h.depicts hs) with
    ⟨hdone, -⟩ | ⟨-, -, L', hpart, hm⟩
  · rw [Outcome.mapState, h.failed] at hdone
    cases hdone
  · rw [Outcome.mapState, ← h.state] at hm
    rw [h.split] at hm hok ⊢
    obtain ⟨L'', hm'', hthere⟩ := v.attempts hm hknows hpart.within k
    obtain ⟨F, hF, ⟨⟨q, hq⟩, -⟩ | hfar⟩ := v.attempt hm'' hknows hthere rest
    · rw [hok] at hq
      cases hq
    · exact (hF.backs_iff n).mpr (hfar _ _ hcame)

end Service

/-- A notice was sent at the event at which a batch failed, and the record of its message is as it
was before the event. -/
def Premature (v : Service σ) (net : Network) (batch : List Event) (s : σ) (n : Notice) : Prop :=
  ∃ r ds rest, (consume v.backend v.fan net batch s).result = .error r ∧
    CutAt v.backend v.fan net batch s r ds rest ∧
      let past := (consume v.backend v.fan net ds s).state
      n ∈ Signal.notices (perform v.backend v.fan net r.event past).signals ∧
        (v.contents (consume v.backend v.fan net batch s).state).records.find? n.message.hash.text =
          (v.contents past).records.find? n.message.hash.text

/-- Whatever was consumed before, and whichever calls are refused, the notices of a message in one
batch tell of later and later states. Once the batch is over, each of them is backed or premature.
If it is backed, it is so at any later time, and no notice of the same message and state is sent any
more. And it is backed as soon as the batch, consumed again as often as it takes, comes to its
end. -/
theorem notices_backed (v : Service σ) (net : Network) (earlier : List (List Event)) {s : σ}
    (hempty : v.contents s = Memory.empty) (batch : List Event) :
    let s := consumeEach v.backend v.fan net earlier s
    let o := consume v.backend v.fan net batch s
    (∀ hash, (Signal.noticesOf hash o.signals).Pairwise fun earlier later =>
      earlier.kind.precedes later.kind = true) ∧
    ∀ n ∈ Signal.notices o.signals,
      ((v.contents o.state).Backs n ∨ Premature v net batch s n) ∧
      ((v.contents o.state).Backs n → ∀ later again,
        let s' := consumeEach v.backend v.fan net later o.state
        (v.contents s').Backs n ∧
          ∀ n' ∈ Signal.notices (consume v.backend v.fan net again s').signals,
            n'.message.hash = n.message.hash → n'.kind ≠ n.kind) ∧
      ∀ k,
        let s' := consumeEach v.backend v.fan net (List.replicate k batch) o.state
        let o' := consume v.backend v.fan net batch s'
        o'.result = .ok () → (v.contents o'.state).Backs n := by
  intro s o
  obtain ⟨L, hs⟩ := v.consumeEach_depicts (hempty ▸ Ledger.depicts_empty net) earlier
  obtain ⟨L', hm, -⟩ := v.consume_asFar hs batch
  refine ⟨fun hash => ?_, fun n hn => ⟨?_, fun hback later again => ?_, fun k => ?_⟩⟩
  · obtain ⟨ns, t, hclimb⟩ := v.exists_climb_consume hs batch hash
    exact (List.pairwise_append.mp hclimb.increasing).1
  · cases hr : o.result with
    | ok => exact .inl (v.backs_of_ok hs hr hn)
    | error r =>
      obtain ⟨ds, rest, hcut⟩ := exists_cutAt hr
      exact (hcut.backs_or hs hn).imp_right fun h => ⟨r, ds, rest, hr, hcut, h⟩
  · have hlater := v.backs_consumeEach hm hback later
    refine ⟨hlater, fun n' hn' hhash => ?_⟩
    obtain ⟨K, hK⟩ := v.consumeEach_depicts hm later
    obtain ⟨ns, t, hclimb⟩ := v.exists_climb_consume hK again n.message.hash
    exact hclimb.kind_ne ((hK.backs_iff n).mp hlater)
      (List.mem_append_left ns (Signal.mem_noticesOf.mpr ⟨hn', hhash⟩))
  · intro t o' hok
    cases hr : o.result with
    | ok =>
      have hagain := v.backs_consumeEach hm (v.backs_of_ok hs hr hn) (List.replicate k batch)
      obtain ⟨K, hK⟩ := v.consumeEach_depicts hm (List.replicate k batch)
      exact v.backs_consumeEach hK hagain [batch]
    | error r =>
      obtain ⟨ds, rest, hcut⟩ := exists_cutAt hr
      exact v.backs_of_retry hcut hs hn k hok

set_option maxRecDepth 2000 in
/-- A dispatch whose record cannot be written at first. -/
theorem notices_backed_sample :
    let v := Stores.faltering.oneByOne
    let net := Sample.network
    let batch := [Sample.dispatch]
    let s := consumeEach v.backend v.fan net [] (Memory.empty, some 6)
    let o := consume v.backend v.fan net batch s
    (∃ r, o.result = .error r) ∧
    (∀ hash, (Signal.noticesOf hash o.signals).Pairwise fun earlier later =>
      earlier.kind.precedes later.kind = true) ∧
    ∀ n ∈ Signal.notices o.signals,
      ((v.contents o.state).Backs n ∨ Premature v net batch s n) ∧
      ((v.contents o.state).Backs n → ∀ later again,
        let s' := consumeEach v.backend v.fan net later o.state
        (v.contents s').Backs n ∧
          ∀ n' ∈ Signal.notices (consume v.backend v.fan net again s').signals,
            n'.message.hash = n.message.hash → n'.kind ≠ n.kind) ∧
      ∀ k,
        let s' := consumeEach v.backend v.fan net (List.replicate k batch) o.state
        let o' := consume v.backend v.fan net batch s'
        o'.result = .ok () → (v.contents o'.state).Backs n :=
  ⟨⟨_, rfl⟩, notices_backed Stores.faltering.oneByOne Sample.network [] rfl [Sample.dispatch]⟩

set_option maxRecDepth 2000 in
/-- A notice may be sent twice, and the first time without a record: the insertion of a dispatched
message is refused, and the batch is consumed again. -/
theorem dispatch_noticed_again :
    let v := Stores.faltering.oneByOne
    let first := consume v.backend v.fan Sample.network [Sample.dispatch] (Memory.empty, some 6)
    let again := consume v.backend v.fan Sample.network [Sample.dispatch] first.state
    ((∃ r, first.result = .error r) ∧ again.result = .ok ()) ∧
      (∃ n ∈ Signal.notices first.signals, ¬ (v.contents first.state).Backs n) ∧
      ¬ ((Signal.noticesOf default (first.signals ++ again.signals)).countP
        (·.kind = .dispatched)) ≤ 1 := by
  refine ⟨⟨⟨_, rfl⟩, rfl⟩, ⟨_, List.mem_cons_self, ?_⟩, ?_⟩
  · rintro ⟨r, hr, -⟩
    cases hr
  · decide

end Tracker

end Waybill
