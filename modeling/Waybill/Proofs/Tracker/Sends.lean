import Waybill.Proofs.Ledger.Reached
import Waybill.Proofs.Ordered.Handing
import Waybill.Proofs.Tracker.History
/-!
# Which message takes which sending

A sending of tokens is known by its values only, and so are the messages that look for one. An event
that is for one message is handed to the first message, in the order of their hashes, that was
dispatched by then and looks for it; if there is none it waits, in place of the one that waited
before it, and every message that looks for it later and to which none is handed takes it. So
sendings with the same values are attributed one to one exactly if no two of them were handed
alike.

## Main definitions

* `Tracker.dispatched`: the first dispatches of all hashes.
* `Tracker.firstFor?`: the message that an event is handed to.
* `Tracker.handings`: the events of a lookup with the messages they were handed to.

## Main results

* `Ledger.heard_of_single`: which event left a mark that is for one message.
* `Tracker.sends_attributed_iff`: when sendings are attributed one to one.
-/

namespace Waybill

open Waybill.Pending Message

namespace Sample

/-- Another sending of the same tokens. -/
def nextSend : Event := { send with tx := companionHash }

end Sample

namespace Tracker

/-- Enters a dispatch under its hash, unless there was one before. -/
def enter (m : SortedMap String (Event × Dispatch)) (e : Event) :
    SortedMap String (Event × Dispatch) :=
  match e.data with
  | .dispatch d => if m.contains d.messageHash.text then m else m.insert d.messageHash.text (e, d)
  | _ => m

/-- The first dispatches of all hashes among events, by the texts of the hashes. -/
def dispatched (es : List Event) : SortedMap String (Event × Dispatch) := es.foldl enter .empty

/-- The hash of the message that an event of a lookup is handed to: the first one, in the order of
hashes, that was dispatched before and looks for it. -/
def firstFor? (net : Network) (l : Lookup) (past : List Event) : Option String :=
  ((dispatched past).values.find? fun p => (created net p.1 p.2).lookup? l.mark = some l).map
    fun p => p.2.messageHash.text

/-- The events of a lookup, each with the hash of the message that it is handed to if there is
one, when others came before. -/
def handings (net : Network) (l : Lookup) : List Event → List Event → List (Option String × Event)
  | _, [] => []
  | past, e :: es =>
    if Lookup.ofEvent? e = some l then
      (firstFor? net l past, e) :: handings net l (past ++ [e]) es
    else handings net l (past ++ [e]) es

theorem map_snd_handings (net : Network) (l : Lookup) (past es : List Event) :
    (handings net l past es).map Prod.snd = es.filter fun e => Lookup.ofEvent? e = some l := by
  induction es generalizing past with
  | nil => rfl
  | cons e es ih =>
    rw [handings]
    split
    · next he => rw [List.map_cons, ih, List.filter_cons_of_pos (by simpa using he)]
    · next he => rw [ih, List.filter_cons_of_neg (by simpa using he)]

end Tracker

/-! ### Events that are for one message -/

namespace Ledger

open Tracker (enter dispatched firstFor? handings created)
open Handing (last kept)

variable {net : Network} {L : Ledger} {j : Journey} {l : Lookup} {past es : List Event}
  {hash : Digest}

/-- The dispatches from which the messages of a ledger went on. -/
def starts (L : Ledger) : SortedMap String (Event × Dispatch) :=
  L.journeys.map fun j => (j.start, j.dispatch)

theorem starts_step (net : Network) (L : Ledger) (e : Event) :
    (L.step net e).starts = enter L.starts e := by
  cases hdata : e.data with
  | dispatch d =>
    have hcontains : L.starts.contains d.messageHash.text =
        L.journeys.contains d.messageHash.text := by
      rw [starts, SortedMap.contains, SortedMap.find?_map, Option.isSome_map, SortedMap.contains]
    rw [step, hdata, enter, hdata]
    dsimp only
    rw [hcontains, begin]
    split
    · rfl
    · exact (SortedMap.insert_map _ _ _ _).symm
  | _ =>
    have hsame : (L.step net e).starts = L.starts := by
      refine SortedMap.ext_find? fun key => ?_
      rw [starts, starts, SortedMap.find?_map, SortedMap.find?_map]
      cases (L.step_moves net e).fate key with
      | same hfate => rw [hfate]
      | went hj _ _ _ hfate =>
        rw [hfate, hj, Option.map_some, Option.map_some, Journey.start_goOn,
          Journey.dispatch_goOn]
      | began he _ _ _ => cases hdata.symm.trans he
    rw [hsame, enter, hdata]

theorem starts_steps (net : Network) (L : Ledger) (es : List Event) :
    (L.steps net es).starts = es.foldl enter L.starts := by
  induction es generalizing L with
  | nil => rfl
  | cons e es ih => exact (ih (L.step net e)).trans (by rw [starts_step, List.foldl_cons])

theorem starts_steps_empty (net : Network) (es : List Event) :
    (empty.steps net es).starts = dispatched es :=
  starts_steps net empty es

/-- The message that an event is for is the one that it is handed to. -/
theorem addressee?_eq_firstFor? (net : Network) (past : List Event) {e : Event}
    (he : Lookup.ofEvent? e = some l) :
    ((empty.steps net past).addressee? net l.mark e).map Journey.key = firstFor? net l past := by
  have hanswers (j : Journey) : j.answers net l.mark e =
      decide ((created net j.start j.dispatch).lookup? l.mark = some l) := by
    rw [Journey.answers, he]
    rfl
  rw [firstFor?, ← starts_steps_empty net, starts, SortedMap.values_map, List.find?_map,
    Option.map_map, addressee?]
  simp only [hanswers]
  rfl

/-- An event of a lookup for one message reaches a message that looks for it exactly if it is
handed to it. -/
theorem reaches_of_single (hl : l.keepsAll = false) (hadmits : (j.base net).admits l.mark = true)
    (hlookup : (j.base net).lookup? l.mark = some l)
    (hj : ((empty.steps net past).steps net es).journeys.find? hash.text = some j) (e : Event) :
    (((empty.steps net past).journeys.find? hash.text).any
        ((empty.steps net past).reaches net l.mark e)) = true ↔
      Lookup.ofEvent? e = some l ∧ firstFor? net l past = some hash.text := by
  have hroot : l.mark.isOfRoot = false := l.keepsAll_eq_isOfRoot ▸ hl
  have hbase {i : Journey} (hi : (empty.steps net past).journeys.find? hash.text = some i) :
      i.base net = j.base net := by
    obtain ⟨j', hj', hbase⟩ := exists_steps net hi es
    rw [← hbase, Option.some.inj (hj'.symm.trans hj)]
  rw [Option.any_eq_true]
  constructor
  · rintro ⟨i, hi, hreach⟩
    obtain ⟨hconcerns, haddr⟩ := reaches_iff.mp hreach
    have he : Lookup.ofEvent? e = some l := by
      rw [← hconcerns.lookup, hbase hi, hlookup]
    rw [hroot, addressee?_eq_firstFor? net _ he, keyed _ hi] at haddr
    exact ⟨he, by simpa using haddr⟩
  · rintro ⟨he, hfirst⟩
    have haddr := addressee?_eq_firstFor? net past he
    rw [hfirst, Option.map_eq_some_iff] at haddr
    obtain ⟨i, haddr, hkey⟩ := haddr
    have hi := (addressee?_eq_some net haddr).1
    rw [hkey] at hi
    refine ⟨i, hi, reaches_iff.mpr ⟨⟨?_, ?_, heeds_of_not_isOfRoot hroot _ _⟩, .inr ?_⟩⟩
    · rw [hbase hi, hadmits]
    · rw [hbase hi, hlookup, he]
    · rw [haddr, Option.map_some]

/-- The events for one message that reach it directly are those that are handed to it. -/
theorem direct_of_single (past : List Event) (hl : l.keepsAll = false)
    (hadmits : (j.base net).admits l.mark = true) (hlookup : (j.base net).lookup? l.mark = some l)
    (hj : (empty.steps net (past ++ es)).journeys.find? hash.text = some j) :
    (direct net hash.text l.mark (empty.steps net past) es).getLast? =
      last (handings net l past es) (some hash.text) := by
  rw [last]
  congr 1
  induction es generalizing past with
  | nil => rfl
  | cons e es ih =>
    have hsplit : past ++ e :: es = (past ++ [e]) ++ es := by simp
    have hnext := ih (past ++ [e]) (hsplit ▸ hj)
    rw [steps_append] at hnext hj
    have hreach := reaches_of_single hl hadmits hlookup hj e
    rw [direct, handings]
    change (if _ then e :: direct net hash.text l.mark ((empty.steps net past).steps net [e]) es
      else direct net hash.text l.mark ((empty.steps net past).steps net [e]) es) = _
    rw [hnext]
    by_cases he : Lookup.ofEvent? e = some l
    · by_cases hfirst : firstFor? net l past = some hash.text
      · rw [if_pos (hreach.mpr ⟨he, hfirst⟩), if_pos he,
          List.filter_cons_of_pos (by simpa using hfirst), List.map_cons]
      · rw [if_neg fun h => hfirst (hreach.mp h).2, if_pos he,
          List.filter_cons_of_neg (by simpa using hfirst)]
    · rw [if_neg fun h => he (hreach.mp h).1, if_neg he]

/-- An event of a lookup for one message waits if it is for none, in place of the one that waited
before. -/
theorem held_step_of_single (net : Network) (L : Ledger) (hl : l.keepsAll = false) (e : Event) :
    (L.step net e).stock.held l =
      if Lookup.ofEvent? e = some l ∧ L.addressee? net l.mark e = none then [e]
      else L.stock.held l := by
  by_cases he : Lookup.ofEvent? e = some l
  · have hmark := Lookup.mark_of_ofEvent? he
    have hroot : l.mark.isOfRoot = false := l.keepsAll_eq_isOfRoot ▸ hl
    rw [step_of_mark net L hmark, hroot, if_neg (by decide), deliver]
    cases L.addressee? net l.mark e with
    | none =>
      rw [if_pos ⟨he, rfl⟩]
      dsimp only [keep]
      rw [Stock.held_keep_of_eq he, Lookup.arrange, hl, if_neg (by decide)]
    | some j =>
      rw [if_neg fun h => by simp at h]
      dsimp only
      split <;> rfl
  · rw [if_neg fun h => he h.1]
    rcases (L.step_moves net e).stock with hstock | hstock
    · rw [hstock]
    · rw [hstock, Stock.held_keep_of_ne he]

/-- What waits for one message is the last event that was handed to none. -/
theorem getLast?_held_of_single (net : Network) (hl : l.keepsAll = false) (past es : List Event) :
    ((empty.steps net (past ++ es)).stock.held l).getLast? =
      (last (handings net l past es) none).or
        ((empty.steps net past).stock.held l).getLast? := by
  induction es generalizing past with
  | nil => rw [List.append_nil]; rfl
  | cons e es ih =>
    have hsplit : past ++ e :: es = (past ++ [e]) ++ es := by simp
    have hstep : (empty.steps net (past ++ [e])).stock.held l =
        if Lookup.ofEvent? e = some l ∧ firstFor? net l past = none then [e]
        else (empty.steps net past).stock.held l := by
      rw [steps_append]
      refine (held_step_of_single net _ hl e).trans (ite_congr (propext ?_) (fun _ => rfl)
        fun _ => rfl)
      refine and_congr_right fun he => ?_
      rw [← addressee?_eq_firstFor? net _ he, Option.map_eq_none_iff]
    rw [hsplit, ih, hstep, handings]
    by_cases he : Lookup.ofEvent? e = some l
    · by_cases hfirst : firstFor? net l past = none
      · rw [if_pos ⟨he, hfirst⟩, if_pos he, Handing.last_cons, if_pos hfirst, Option.or_assoc]
        rfl
      · rw [if_neg fun h => hfirst h.2, if_pos he, Handing.last_cons, if_neg hfirst]
    · rw [if_neg fun h => he h.1, if_neg he]

/-- The mark of a message that is left by events for one message is of the last one that was handed
to it, or else of the last one that was handed to none. -/
theorem heard_of_single (hl : l.keepsAll = false) (hadmits : (j.base net).admits l.mark = true)
    (hlookup : (j.base net).lookup? l.mark = some l)
    (hj : (empty.steps net es).journeys.find? hash.text = some j) :
    j.heard l.mark = kept (handings net l [] es) hash.text := by
  have hroot : l.mark.isOfRoot = false := l.keepsAll_eq_isOfRoot ▸ hl
  have hheeds : ((empty.steps net es).stock.held l).filter ((j.base net).heeds l.mark) =
      (empty.steps net es).stock.held l :=
    List.filter_eq_self.mpr fun e _ => heeds_of_not_isOfRoot hroot _ e
  have hdirect : (direct net hash.text l.mark empty es).getLast? =
    last (handings net l [] es) (some hash.text) := direct_of_single [] hl hadmits hlookup hj
  have hheld : ((empty.steps net es).stock.held l).getLast? =
      last (handings net l [] es) none :=
    (getLast?_held_of_single net hl [] es).trans (Option.or_none)
  rw [heard_steps_empty hj, pending?, if_pos hadmits, hlookup, Option.elim_some, hheeds, hdirect,
    hheld, kept]

/-- An event is handed only to messages that look for it. -/
theorem exists_of_handings (net : Network) (l : Lookup) (past es : List Event)
    {p : Option String × Event} (hp : p ∈ handings net l past es) {key : String}
    (hkey : p.1 = some key) :
    ∃ j, (empty.steps net (past ++ es)).journeys.find? j.key = some j ∧ j.key = key ∧
      (j.base net).lookup? l.mark = some l := by
  induction es generalizing past with
  | nil => cases hp
  | cons e es ih =>
    have hsplit : past ++ e :: es = (past ++ [e]) ++ es := by simp
    rw [handings] at hp
    split at hp
    · next he =>
      rcases List.mem_cons.mp hp with rfl | hp
      · have haddr := (addressee?_eq_firstFor? net past he).trans hkey
        rw [Option.map_eq_some_iff] at haddr
        obtain ⟨i, haddr, rfl⟩ := haddr
        obtain ⟨hi, hans⟩ := addressee?_eq_some net haddr
        obtain ⟨j, hj, hbase⟩ := exists_steps net hi (e :: es)
        rw [← steps_append] at hj
        have hkey : j.key = i.key := keyed _ hj
        refine ⟨j, hkey ▸ hj, hkey, ?_⟩
        rw [hbase, ← he]
        exact of_decide_eq_true hans
      · rw [hsplit]
        exact ih (past ++ [e]) hp
    · rw [hsplit]
      exact ih (past ++ [e]) hp

/-- The messages that look for the events of a lookup. -/
def seekers (net : Network) (L : Ledger) (l : Lookup) : List Journey :=
  L.journeys.values.filter fun j => (j.base net).lookup? l.mark = some l

theorem mem_seekers : j ∈ L.seekers net l ↔
    L.journeys.find? j.key = some j ∧ (j.base net).lookup? l.mark = some l := by
  rw [seekers, List.mem_filter, L.mem_values_iff, decide_eq_true_iff]

/-- When as many messages look for the sendings with some values as there are such sendings, all
of them with different transactions, these are attributed one to one exactly if no two of them were
handed alike. -/
theorem perm_heard_iff (hl : l.mark = .sent)
    (htx : ((es.filter fun e => Lookup.ofEvent? e = some l).map fun e => e.tx.text).Nodup)
    (hlength : ((empty.steps net es).seekers net l).length =
      (es.filter fun e => Lookup.ofEvent? e = some l).length) :
    (((empty.steps net es).seekers net l).map fun j => (j.heard .sent).map fun e => e.tx.text).Perm
        ((es.filter fun e => Lookup.ofEvent? e = some l).map fun e => some e.tx.text) ↔
      ((handings net l [] es).map Prod.fst).Nodup := by
  have hkeeps : l.keepsAll = false := by rw [l.keepsAll_eq_isOfRoot, hl]; rfl
  have hsends := Tracker.map_snd_handings net l [] es
  rw [← hsends, List.map_map] at htx ⊢
  rw [← hsends, List.length_map] at hlength
  have hkeys : (((empty.steps net es).seekers net l).map Journey.key).Nodup :=
    (nodup_keys _).sublist (List.filter_sublist.map _)
  have hheard : ((empty.steps net es).seekers net l).map (fun j =>
      (j.heard .sent).map fun e => e.tx.text) =
        (((empty.steps net es).seekers net l).map Journey.key).map fun key =>
          (kept (handings net l [] es) key).map fun e => e.tx.text := by
    rw [List.map_map]
    refine List.map_congr_left fun j hj => ?_
    obtain ⟨hfind, hlookup⟩ := mem_seekers.mp hj
    have hadmits : (j.base net).admits l.mark = true := by
      rw [hl] at hlookup ⊢
      exact admits_sent_of_lookup? hlookup
    have hmark := heard_of_single hkeeps hadmits hlookup hfind
    rw [hl] at hmark
    rw [hmark]
    rfl
  rw [hheard]
  refine Handing.perm_kept_iff hkeys (by rwa [List.length_map]) (fun p hp key hkey => ?_) htx
  obtain ⟨j, hj, rfl, hlookup⟩ := exists_of_handings net l [] es hp hkey
  exact List.mem_map_of_mem (mem_seekers.mpr ⟨hj, hlookup⟩)

/-- The messages that look for the events of a lookup are as many as the first dispatches of
such messages. -/
theorem length_seekers (net : Network) (l : Lookup) (es : List Event) :
    ((empty.steps net es).seekers net l).length =
      ((dispatched es).values.filter fun p =>
        (created net p.1 p.2).lookup? l.mark = some l).length := by
  rw [← starts_steps_empty net, starts, SortedMap.values_map, List.filter_map, List.length_map]
  rfl

variable {m : Memory} {destination : UInt32} {recipient : Identifier} {amount : Word}
  {block : UInt64}

/-- The records of transfers with some values are those of the messages that look for the sendings
with these values. -/
theorem Depicts.transfers (h : L.Depicts net m) :
    m.records.values.filter
        (Record.isOfSend destination recipient.pretty amount.decimal block) =
      (L.seekers net (.send destination recipient amount block)).map (Journey.record net) := by
  let e : Event := ⟨0, block, 0, default, 0,
    .bridgeSend ⟨.zero, .zero, destination, recipient, amount, false⟩⟩
  rw [h.values, List.filter_map, seekers]
  congr 2
  funext j
  exact j.isOfSend_record net (e := e) rfl

/-- There are as many records of transfers with some values as such transfers were dispatched. -/
theorem Depicts.length_transfers (h : (empty.steps net es).Depicts net m) :
    (m.records.values.filter
        (Record.isOfSend destination recipient.pretty amount.decimal block)).length =
      ((dispatched es).values.filter fun p => (created net p.1 p.2).lookup? .sent =
        some (.send destination recipient amount block)).length := by
  rw [h.transfers, List.length_map, length_seekers]
  rfl

/-- The transfers with some values, when there are as many as sendings with these values, have each
their own one exactly if no two sendings were handed alike. -/
theorem Depicts.attributed_iff (h : (empty.steps net es).Depicts net m) :
    let l := Lookup.send destination recipient amount block
    let sends := es.filter fun e => Lookup.ofEvent? e = some l
    let stored := m.records.values.filter
      (Record.isOfSend destination recipient.pretty amount.decimal block)
    (sends.map Event.tx).Nodup → stored.length = sends.length →
    ((∀ r ∈ stored, r.sent = true) ∧
        (stored.map Record.tx).Perm (sends.map fun e => some e.tx.text) ↔
      ((handings net l [] es).map Prod.fst).Nodup) := by
  intro l sends stored htx hlength
  have hstored : stored = ((empty.steps net es).seekers net l).map (Journey.record net) :=
    h.transfers
  have htexts : (sends.map fun e => e.tx.text).Nodup := by
    have hmap := htx.map fun _ _ => Digest.text_injective
    rwa [List.map_map] at hmap
  rw [hstored, List.length_map] at hlength
  rw [← perm_heard_iff rfl htexts hlength, hstored, List.map_map]
  -- a message that heard a sending has its transaction
  have hsame (hsent : ∀ j ∈ (empty.steps net es).seekers net l, (j.heard .sent).isSome = true) :
      ((empty.steps net es).seekers net l).map (Record.tx ∘ Journey.record net) =
        ((empty.steps net es).seekers net l).map fun j =>
          (j.heard .sent).map fun e => e.tx.text := by
    refine List.map_congr_left fun j hj => ?_
    obtain ⟨e, he⟩ := Option.isSome_iff_exists.mp (hsent j hj)
    change (((j.heard .sent).map Event.tx).or (j.base net).tx).map (·.text) = _
    rw [he]
    rfl
  have hflags : (∀ r ∈ ((empty.steps net es).seekers net l).map (Journey.record net),
      r.sent = true) ↔ ∀ j ∈ (empty.steps net es).seekers net l,
        (j.heard .sent).isSome = true := by
    rw [List.forall_mem_map]
    rfl
  rw [hflags]
  constructor
  · rintro ⟨hsent, hperm⟩
    rwa [hsame hsent] at hperm
  · intro hperm
    have hsent : ∀ j ∈ (empty.steps net es).seekers net l, (j.heard .sent).isSome = true := by
      intro j hj
      obtain ⟨e, -, he⟩ := List.mem_map.mp (hperm.mem_iff.mp (List.mem_map_of_mem hj))
      rw [← Option.isSome_map, ← he, Option.isSome_some]
    exact ⟨hsent, (hsame hsent).symm ▸ hperm⟩

end Ledger

namespace Tracker

variable {σ : Type}

/-- After any events among which there are as many sendings with some values, all of different
transactions, as transfers with these values were dispatched, every one of these transfers has its
own sending exactly if no two sendings were handed alike: to the same message, or to none. -/
theorem sends_attributed_iff (v : Service σ) (net : Network) (batches : List (List Event)) {s : σ}
    (hempty : v.contents s = Memory.empty) (hsteady : v.Steady s) (destination : UInt32)
    (recipient : Identifier) (amount : Word) (block : UInt64) :
    let l := Lookup.send destination recipient amount block
    let sends := batches.flatten.filter fun e => Lookup.ofEvent? e = some l
    let stored := (v.contents
      (consumeAll v.backend v.fan net batches s).state).records.values.filter
        (Record.isOfSend destination recipient.pretty amount.decimal block)
    (sends.map Event.tx).Nodup → stored.length = sends.length →
    ((∀ r ∈ stored, r.sent = true) ∧
        (stored.map Record.tx).Perm (sends.map fun e => some e.tx.text) ↔
      ((handings net l [] batches.flatten).map Prod.fst).Nodup) := by
  obtain ⟨-, hdepicts, -⟩ :=
    v.consumeAll_depicts (hempty ▸ Ledger.depicts_empty net) hsteady batches
  exact hdepicts.attributed_iff

/-- The first of two equal sendings comes before both transfers, and the second one when the
transfer with the greater hash was dispatched. -/
theorem sends_attributed_iff_sample :
    let v := Stores.inMemory.oneByOne
    let batches := [[Sample.send, Sample.companion], [Sample.nextSend, Sample.dispatch]]
    let stored := (v.contents (consumeAll v.backend v.fan Sample.network batches
      Memory.empty).state).records.values.filter
        (Record.isOfSend 2 Identifier.zero.pretty (0 : Word).decimal 7)
    (∀ r ∈ stored, r.sent = true) ∧ (stored.map Record.tx).Perm
      [some Sample.send.tx.text, some Sample.nextSend.tx.text] := by
  intro v batches stored
  obtain ⟨-, hdepicts, -⟩ :=
    v.consumeAll_depicts (s := Memory.empty) (Ledger.depicts_empty Sample.network) trivial batches
  have hlength : stored.length = 2 := hdepicts.length_transfers.trans (by decide +kernel)
  exact (sends_attributed_iff v Sample.network batches (s := Memory.empty) rfl trivial 2 .zero 0 7
    (by decide) hlength).mpr (by decide +kernel)

/-- Two equal sendings come before both transfers. -/
theorem earlier_send_is_lost :
    let v := Stores.inMemory.oneByOne
    let batches := [[Sample.send, Sample.nextSend, Sample.dispatch, Sample.companion]]
    let sends := batches.flatten.filter fun e => Lookup.ofEvent? e = some (.send 2 .zero 0 7)
    let stored := (v.contents (consumeAll v.backend v.fan Sample.network batches
      Memory.empty).state).records.values.filter
        (Record.isOfSend 2 Identifier.zero.pretty (0 : Word).decimal 7)
    (sends.map Event.tx).Nodup ∧ stored.length = sends.length ∧
      ¬ ((∀ r ∈ stored, r.sent = true) ∧
        (stored.map Record.tx).Perm (sends.map fun e => some e.tx.text)) := by
  intro v batches sends stored
  obtain ⟨-, hdepicts, -⟩ :=
    v.consumeAll_depicts (s := Memory.empty) (Ledger.depicts_empty Sample.network) trivial batches
  have htx : (sends.map Event.tx).Nodup := by decide
  have hlength : stored.length = sends.length :=
    hdepicts.length_transfers.trans (by decide +kernel)
  have hattributed := hdepicts.attributed_iff htx hlength
  refine ⟨htx, hlength, mt hattributed.mp ?_⟩
  decide +kernel

end Tracker

end Waybill
