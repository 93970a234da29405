import Waybill.Proofs.Pending.Access
import Waybill.Proofs.Task.Bookkeeping
import Waybill.Proofs.Tracker.Works
import Waybill.Signal.Tally
/-!
# How many events are buffered

An event that is handed to the pool is counted as buffered. As a rule it is also written then. An
update or a relay that waits in the list of its root already is counted without being written. So
what is counted of a kind is what is written for it, and such repetitions beside.

## Main definitions

* `Call.isPutFor`: whether a call writes an entry for events of a kind.
* `Event.waitsIn`: an event is in a list of the pool already.
* `Event.Handed`: what may become of an event that is handed to the pool.
* `Tracker.Work.writes`, `Tracker.Work.repeats`: the work on an event wrote to the pool, or left the
  event out that waited already.

## Main results

* `Pending.books_store`: handing an event to the pool.
* `Tracker.handed_perform`: the work on an event.
* `Tracker.buffered_counts`: what is counted and what is written over batches.
* `Tracker.update_twice`: an update that comes twice.
-/

namespace Waybill

open Waybill.Pending Waybill.Task

/-- The bucket in which the events of a kind wait. A dispatch never does. -/
def Event.Kind.bucket? : Event.Kind → Option Bucket
  | dispatch => none
  | homeUpdate => some .update
  | replicaUpdate => some .relay
  | process => some .process
  | bridgeSend => some .send
  | bridgeReceive => some .receive

/-- Whether a call writes an entry for events of a kind. -/
def Call.isPutFor (kind : Event.Kind) : Call → Bool
  | .put bucket _ _ => kind.bucket?.map Bucket.name == some bucket
  | _ => false

/-- The texts in the list of a slot. -/
def Pending.Slot.textsAmong (slot : Slot) (entries : Entries) : List String :=
  ((entries slot.bucket.name slot.key).bind parseList?).getD []

/-- Whether an event is in the list of its lookup already. -/
def Event.waitsIn (e : Event) (entries : Entries) : Bool :=
  match Lookup.ofEvent? e with
  | none => false
  | some l => l.keepsAll && (l.slot.textsAmong entries).contains e.render

/-- Whether a signal tells that an event was handed to the pool. -/
def Signal.isBuffered : Signal → Bool
  | buffered _ => true
  | _ => false

/-! ### Kinds and their entries -/

theorem Event.Kind.bucket?_ofEvent? {e : Event} {l : Lookup} (h : Lookup.ofEvent? e = some l) :
    e.kind.bucket? = some l.slot.bucket := by
  rw [Lookup.ofEvent?] at h
  rw [Event.kind]
  cases hdata : e.data <;> rw [hdata] at h <;> cases h <;> rfl

theorem Event.Kind.bucket?_inj {k k' : Event.Kind} {bucket : Bucket} (h : k.bucket? = some bucket)
    (h' : k'.bucket? = some bucket) : k = k' := by
  rw [← h'] at h
  cases k <;> cases k' <;> first | rfl | cases h

/-- A write to the slot of an event is one for events of its kind. -/
theorem Call.isPutFor_put {e : Event} {l : Lookup} (h : Lookup.ofEvent? e = some l)
    (kind : Event.Kind) (value : String) :
    (Call.put l.slot.bucket.name l.slot.key value).isPutFor kind = decide (kind = e.kind) := by
  have hbucket := Event.Kind.bucket?_ofEvent? h
  rw [Bool.eq_iff_iff, isPutFor, beq_iff_eq, decide_eq_true_iff, Option.map_eq_some_iff]
  constructor
  · rintro ⟨bucket, hkind, hname⟩
    rw [Lookup.bucket_name_injective hname] at hkind
    exact Event.Kind.bucket?_inj hkind hbucket
  · rintro rfl
    exact ⟨_, hbucket, rfl⟩

theorem Call.isPutFor_of_not_isPut {c : Call} (h : c.isPut = false) (kind : Event.Kind) :
    c.isPutFor kind = false := by
  cases c <;> first | rfl | cases h

theorem Signal.IsAside.not_isBuffered {e : Event} {x : Signal} (h : x.IsAside e) :
    x.isBuffered = false := by
  cases x <;> first | rfl | exact h.elim

/-! ### What may become of an event -/

/-- Calls and signals that have nothing to do with handing an event to the pool. -/
structure Idle (cs : List Call) (xs : List Signal) : Prop where
  calls : ∀ c ∈ cs, c.isPut = false
  signals : ∀ x ∈ xs, x.isBuffered = false

namespace Idle

variable {cs cs' : List Call} {xs xs' : List Signal}

theorem nil : Idle [] [] := ⟨List.forall_mem_nil _, List.forall_mem_nil _⟩

theorem append (h : Idle cs xs) (h' : Idle cs' xs') : Idle (cs ++ cs') (xs ++ xs') :=
  ⟨List.forall_mem_append.mpr ⟨h.calls, h'.calls⟩,
    List.forall_mem_append.mpr ⟨h.signals, h'.signals⟩⟩

theorem countP_isPutFor (h : Idle cs xs) (kind : Event.Kind) :
    cs.countP (Call.isPutFor kind) = 0 :=
  List.countP_eq_zero.mpr fun c hc => by simp [Call.isPutFor_of_not_isPut (h.calls c hc)]

theorem any_isPut (h : Idle cs xs) : cs.any Call.isPut = false :=
  List.any_eq_false.mpr fun c hc => by simp [h.calls c hc]

theorem countBuffered (h : Idle cs xs) (kind : Event.Kind) : Signal.countBuffered kind xs = 0 := by
  refine List.countP_eq_zero.mpr fun x hx => ?_
  have hx := h.signals x hx
  cases x <;> first | exact Bool.false_ne_true | cases hx

end Idle

/-- What may become of an event. It is written to the pool and counted, or counted without being
written as it waits there already, or neither written nor counted. -/
inductive Event.Handed (e : Event) (again succeeds : Bool) (cs : List Call)
    (xs : List Signal) : Prop
  | written (hagain : again = false) (hany : cs.any Call.isPut = true)
      (hcs : ∀ kind, cs.countP (Call.isPutFor kind) = if kind = e.kind then 1 else 0)
      (hxs : ∀ kind, Signal.countBuffered kind xs = if kind = e.kind then 1 else 0)
  | repeated (hagain : again = true) (hok : succeeds = true) (hcs : Idle cs [])
      (hxs : ∀ kind, Signal.countBuffered kind xs = if kind = e.kind then 1 else 0)
  | left (h : (succeeds && again) = false) (hidle : Idle cs xs)

namespace Event.Handed

variable {e : Event} {again succeeds : Bool} {cs cs' : List Call} {xs xs' : List Signal}

/-- Whatever else is done before and after it does not matter. -/
theorem amid (h : e.Handed again succeeds cs xs) {cs₁ cs₂ : List Call} {xs₁ xs₂ : List Signal}
    (h₁ : Idle cs₁ xs₁) (h₂ : Idle cs₂ xs₂) :
    e.Handed again succeeds (cs₁ ++ cs ++ cs₂) (xs₁ ++ xs ++ xs₂) := by
  have hsignals : ∀ kind, Signal.countBuffered kind (xs₁ ++ xs ++ xs₂) =
      Signal.countBuffered kind xs := fun kind => by
    have hfirst := h₁.countBuffered kind
    have hlast := h₂.countBuffered kind
    simp only [Signal.countBuffered, List.countP_append] at *
    omega
  cases h with
  | written hagain hany hcs hxs =>
    refine .written hagain ?_ (fun kind => ?_) fun kind => ?_
    · simp [List.any_append, hany]
    · rw [List.countP_append, List.countP_append, h₁.countP_isPutFor, h₂.countP_isPutFor, hcs,
        Nat.zero_add, Nat.add_zero]
    · rw [hsignals, hxs]
  | repeated hagain hok hcs hxs =>
    refine .repeated hagain hok ⟨?_, List.forall_mem_nil _⟩ fun kind => by rw [hsignals, hxs]
    simp only [List.forall_mem_append]
    exact ⟨⟨h₁.calls, hcs.calls⟩, h₂.calls⟩
  | left hno hidle => exact .left hno ((h₁.append hidle).append h₂)

theorem after (h : e.Handed again succeeds cs' xs') (hidle : Idle cs xs) :
    e.Handed again succeeds (cs ++ cs') (xs ++ xs') := by
  simpa only [List.append_nil] using h.amid hidle .nil

/-- An event that is left out for a failure. -/
theorem left_of_fails (hidle : Idle cs xs) : e.Handed again false cs xs :=
  .left (Bool.false_and again) hidle

end Event.Handed

/-! ### Handing an event to the pool -/

namespace Pending

variable {e : Event} {l : Lookup}

theorem countBuffered_singleton (kind kind' : Event.Kind) :
    Signal.countBuffered kind [.buffered kind'] = if kind = kind' then 1 else 0 := by
  simp only [Signal.countBuffered, List.countP_singleton, beq_iff_eq, @eq_comm _ kind' kind]

/-- An event that is written is counted, unless the write is refused. -/
theorem books_put (h : Lookup.ofEvent? e = some l) (value : String) (entries : Entries) :
    ((put l.slot value).bind fun _ => signal (.buffered e.kind)).Books entries
      fun cs xs a? => e.Handed false a?.isSome cs xs := by
  refine ⟨.left_of_fails .nil, fun _ _ _ _ => .written rfl rfl (fun kind => ?_) fun kind => ?_⟩
  · rw [List.countP_singleton, Call.isPutFor_put h]
    simp only [decide_eq_true_eq]
  · exact countBuffered_singleton kind e.kind

/-- The texts that are read are those in the list of the slot. -/
theorem books_listed (slot : Slot) (entries : Entries) :
    (listed slot).Books entries fun cs xs texts? =>
      Idle cs xs ∧ ∀ texts, texts? = some texts → texts = slot.textsAmong entries := by
  have hget : Idle [.get slot.bucket.name slot.key] [] :=
    ⟨fun c hc => by rw [List.mem_singleton.mp hc]; rfl, List.forall_mem_nil _⟩
  refine ⟨⟨.nil, nofun⟩, fun raw? hraw _ _ => ?_⟩
  rw [Slot.textsAmong, ← (hraw : raw? = entries slot.bucket.name slot.key)]
  cases raw? with
  | none => exact ⟨hget, fun _ h => (Option.some.inj h).symm⟩
  | some raw =>
    rw [Option.bind_some]
    change (readable slot (parseList? raw)).Books _ _
    cases parseList? raw with
    | none => exact ⟨hget, nofun⟩
    | some texts => exact ⟨hget, fun _ h => (Option.some.inj h).symm⟩

/-- An event that is appended to a list is written and counted, or only counted if it is in the list
already, unless a call is refused. -/
theorem books_appendUnique (h : Lookup.ofEvent? e = some l) (entries : Entries) :
    ((appendUnique l.slot e.render).bind fun _ => signal (.buffered e.kind)).Books entries
      fun cs xs a? =>
        e.Handed ((l.slot.textsAmong entries).contains e.render) a?.isSome cs xs := by
  have hasked : ∀ {cs xs}, Idle cs xs → Idle (.has l.slot.bucket.name l.slot.key :: cs) xs :=
    fun hidle => ⟨List.forall_mem_cons.mpr ⟨rfl, hidle.calls⟩, hidle.signals⟩
  refine ⟨.left_of_fails .nil, fun there hthere entries' hkeeps => ?_⟩
  obtain rfl := hkeeps rfl
  cases there with
  | false =>
    have hnone : entries' l.slot.bucket.name l.slot.key = none :=
      Option.isNone_iff_eq_none.mp (Option.isSome_eq_false_iff.mp hthere.symm)
    rw [Slot.textsAmong, hnone]
    exact (books_put h _ entries').mono fun cs xs a? hput => hput.after (hasked .nil)
  | true =>
    change (((listed l.slot).bind _).bind _).Books _ _
    rw [Task.bind_assoc]
    refine (books_listed l.slot entries').bind
      (fun cs xs hlisted => .left_of_fails (hasked hlisted.1)) fun cs xs texts hlisted last => ?_
    obtain ⟨hidle, htexts⟩ := hlisted
    rw [← htexts texts rfl]
    cases hin : texts.contains e.render with
    | true =>
      rw [if_pos rfl]
      refine .after (.repeated rfl rfl .nil fun kind => ?_) (hasked hidle)
      exact countBuffered_singleton kind e.kind
    | false =>
      rw [if_neg Bool.false_ne_true]
      exact (books_put h _ last).mono fun cs' xs' a? hput => hput.after (hasked hidle)

/-- What may become of an event that is handed to the pool. -/
theorem books_store (e : Event) (entries : Entries) :
    (store e).Books entries fun cs xs a? => e.Handed (e.waitsIn entries) a?.isSome cs xs := by
  rw [store, Lookup.slot_ofEvent?, Event.waitsIn]
  cases h : Lookup.ofEvent? e with
  | none => exact .left rfl .nil
  | some l =>
    have hroot := books_appendUnique h entries
    have hsingle := books_put h e.render entries
    cases l with
    | update origin root => exact hroot
    | relay origin root => exact hroot
    | send destination recipient amount block => exact hsingle
    | receive origin nonce destination => exact hsingle
    | process hash => exact hsingle

/-- An event that is in the list of its lookup is counted, and nothing is written. -/
theorem run_store_again {e : Event} {l : Lookup} (h : Lookup.ofEvent? e = some l)
    (hl : l.keepsAll = true) {m : Memory} {texts : List String}
    (hentry : m.pool.find? l.place = some (renderList texts)) (hin : texts.contains e.render = true)
    (log : List Call) :
    (store e).run Memory.backend.logged (m, log) =
      ⟨.ok (), (m, log ++ [.has l.slot.bucket.name l.slot.key] ++
        [.get l.slot.bucket.name l.slot.key]), [.buffered e.kind]⟩ := by
  have hhas : Memory.backend.answer m (.has l.slot.bucket.name l.slot.key) = (.ok true, m) := by
    have hthere : m.pool.contains l.place = true := by rw [SortedMap.contains, hentry]; rfl
    exact congrArg (fun there => (Except.ok there, m)) hthere
  have hget : Memory.backend.answer m (.get l.slot.bucket.name l.slot.key) =
      (.ok (some (renderList texts)), m) :=
    congrArg (fun raw? => (Except.ok raw?, m)) hentry
  have hstore : ((appendUnique l.slot e.render).bind fun _ => signal (.buffered e.kind)).run
      Memory.backend.logged (m, log) = ⟨.ok (), (m, log ++ [.has l.slot.bucket.name l.slot.key] ++
        [.get l.slot.bucket.name l.slot.key]), [.buffered e.kind]⟩ := by
    change Task.run _ (.ask (.has _ _) _) _ = _
    rw [Task.run, Backend.logged_answer_of_ok hhas]
    change Task.run _ (.ask (.get _ _) _) _ = _
    rw [Task.run, Backend.logged_answer_of_ok hget]
    change (((readable l.slot (parseList? (renderList texts))).bind fun values =>
      if values.contains e.render then .done () else _).bind _).run _ _ = _
    rw [parseList?_renderList]
    change ((if texts.contains e.render then Task.done () else _).bind _).run _ _ = _
    rw [if_pos hin]
    rfl
  rw [store, Lookup.slot_ofEvent?, h]
  cases l with
  | update origin root => exact hstore
  | relay origin root => exact hstore
  | _ => cases hl

end Pending

namespace Tracker

/-- The pool of stores that answer as those in memory or refuse. -/
theorem Stores.readsPool {σ : Type} (v : Stores σ) :
    v.backend.ReadsPool fun s => (v.contents s).entries := by
  have hanswer : ∀ {s s' : σ} {c : Call} {a : c.Answer}, v.backend.answer s c = (.ok a, s') →
      Memory.backend.answer (v.contents s) c = (.ok a, v.contents s') := by
    intro s s' c a h
    have hans := v.answers s c
    rw [h] at hans
    rcases hans with heq | ⟨-, ⟨f, hf⟩, -⟩
    · exact heq.symm
    · cases hf
  exact ⟨fun h => Memory.readsPool.reads (hanswer h), fun h => Memory.readsPool.keeps (hanswer h)⟩

variable {α : Type} {Q : α → Prop} {e : Event}

theorem waitsIn_of_single (hupdate : e.kind ≠ .homeUpdate) (hrelay : e.kind ≠ .replicaUpdate)
    (entries : Entries) : e.waitsIn entries = false := by
  rw [Event.waitsIn, Lookup.ofEvent?]
  rw [Event.kind] at hupdate hrelay
  cases hdata : e.data with
  | homeUpdate u => exact (hupdate (by rw [hdata]; rfl)).elim
  | replicaUpdate u => exact (hrelay (by rw [hdata]; rfl)).elim
  | _ => rfl

/-- What may become of an event in a task that hands it over. -/
theorem HandsOver.books {t : Task α} (h : HandsOver e Q t) (entries : Entries) :
    t.Books entries fun cs xs a? => e.Handed (e.waitsIn entries) a?.isSome cs xs := by
  induction h with
  | store _ =>
    refine (books_store e entries).bind (fun _ _ hhanded => hhanded) fun cs xs _ hhanded _ => ?_
    simpa only [Task.Books, List.append_nil, Option.isSome_some] using hhanded
  | fail f => exact .left_of_fails .nil
  | @ask c k hc _ ih =>
    have hasked : Idle [c] [] :=
      ⟨fun d hd => by rwa [List.mem_singleton.mp hd], List.forall_mem_nil _⟩
    refine ⟨.left_of_fails .nil, fun a _ entries' hkeeps => ?_⟩
    rw [hkeeps hc]
    exact (ih a).mono fun cs xs _ hhanded => hhanded.after hasked
  | aside hupdate hrelay h =>
    rw [waitsIn_of_single hupdate hrelay]
    exact (h.books entries).mono fun cs xs a? ⟨hcs, hxs⟩ =>
      .left (Bool.and_false _) ⟨hcs, fun x hx => (hxs x hx).not_isBuffered⟩

/-! ### The work on an event -/

variable {σ : Type} {b : Backend σ} {entries : σ → Entries} (net : Network)

/-- Whether the work on an event comes to its branches. -/
def opens (b : Backend σ) (net : Network) (e : Event) (s : σ) : Bool :=
  ((branches net e).run b s).result.toOption.isSome

/-- What becomes of an event in the work on it. -/
theorem handed_perform (hb : b.ReadsPool entries) {fan : FanOut (σ × List Call)}
    (hfan : ∀ ts s, b.logged.Interleaves ts s (fan ts s)) (e : Event) (s : σ) (log : List Call) :
    ∃ cs, (perform b.logged fan net e (s, log)).state.2 = log ++ cs ∧
      e.Handed (e.waitsIn (entries s)) (opens b net e s) cs
        (perform b.logged fan net e (s, log)).signals := by
  have hopens : opens b net e s =
      ((branches net e).run b.logged (s, log)).result.toOption.isSome := by
    rw [opens, b.run_logged _ s log]
  obtain ⟨cs, hlog, hhanded⟩ := ((handsOver_branches net e).books (entries s)).run_logged hb log
  have hconsumed : Idle [] [.consumed e.kind] :=
    ⟨List.forall_mem_nil _, fun x hx => by rw [List.mem_singleton.mp hx]; rfl⟩
  have hopening := hhanded.after hconsumed
  rw [← hopens] at hopening
  rw [perform]
  split
  · next ts hts =>
    have hsettling : Settling ts :=
      ((handsOver_branches net e).confined.run b.logged (s, log)).2 ts hts
    have hinter := hfan ts ((branches net e).run b.logged (s, log)).state
    obtain ⟨ds, hds, hquiet⟩ := hinter.log hsettling
    have hidle : Idle ds (fan ts ((branches net e).run b.logged (s, log)).state).signals :=
      ⟨hquiet, fun x hx => ((hinter.told hsettling x hx).isAside e).not_isBuffered⟩
    refine ⟨cs ++ ds, ?_, ?_⟩
    · rw [← List.append_assoc, ← hlog]
      exact hds
    · exact hopening.amid .nil hidle
  · exact ⟨cs, hlog, hopening⟩

/-! ### Over batches -/

section Batches

variable (b) (entries)

/-- The calls that were answered in a work. -/
def Work.calls (w : Work (σ × List Call)) : List Call :=
  w.outcome.state.2.drop w.before.2.length

/-- Whether a work wrote to the pool. -/
def Work.writes (w : Work (σ × List Call)) : Bool := w.calls.any Call.isPut

/-- Whether a work handed its event over and left it out, as it was in the list of its root
already. -/
def Work.repeats (w : Work (σ × List Call)) : Bool :=
  opens b net w.event w.before.1 && w.event.waitsIn (entries w.before.1)

end Batches

variable {net} {fan : FanOut (σ × List Call)}

section Works

variable {w : Work (σ × List Call)} (hb : b.ReadsPool entries)
  (hfan : ∀ ts s, b.logged.Interleaves ts s (fan ts s))
  (hw : w.outcome = perform b.logged fan net w.event w.before)
include hb hfan hw

theorem handed_work : w.outcome.state.2 = w.before.2 ++ w.calls ∧
    w.event.Handed (w.event.waitsIn (entries w.before.1)) (opens b net w.event w.before.1)
      w.calls w.outcome.signals := by
  obtain ⟨cs, hlog, hhanded⟩ := handed_perform net hb hfan w.event w.before.1 w.before.2
  have hcalls : w.calls = cs := by
    rw [Work.calls, hw]
    exact hlog ▸ List.drop_left
  rw [hcalls, hw]
  exact ⟨hlog, hhanded⟩

/-- A work writes for no kind but that of its event, and not more than once. -/
theorem countP_calls (kind : Event.Kind) : w.calls.countP (Call.isPutFor kind) =
    if w.event.kind == kind && w.writes then 1 else 0 := by
  rcases (handed_work hb hfan hw).2 with ⟨-, hany, hcs, -⟩ | ⟨-, -, hidle, -⟩ | ⟨-, hidle⟩
  · rw [hcs, Work.writes, hany, Bool.and_true]
    simp only [beq_iff_eq, @eq_comm _ kind]
  · rw [hidle.countP_isPutFor, Work.writes, hidle.any_isPut, Bool.and_false]
    rfl
  · rw [hidle.countP_isPutFor, Work.writes, hidle.any_isPut, Bool.and_false]
    rfl

/-- A work counts its event if it is written or left out. -/
theorem countBuffered_work (kind : Event.Kind) :
    Signal.countBuffered kind w.outcome.signals =
      w.calls.countP (Call.isPutFor kind) +
        if w.event.kind == kind && w.repeats b entries net then 1 else 0 := by
  rcases (handed_work hb hfan hw).2 with ⟨hagain, -, hcs, hxs⟩ | ⟨hagain, hok, hidle, hxs⟩ |
    ⟨hno, hidle⟩
  · rw [hcs, hxs, Work.repeats, hagain, Bool.and_false, Bool.and_false]
    rfl
  · rw [hidle.countP_isPutFor, hxs, Work.repeats, hagain, hok, Nat.zero_add]
    simp only [Bool.and_true, beq_iff_eq, @eq_comm _ kind]
  · rw [hidle.countP_isPutFor, hidle.countBuffered, Work.repeats, hno, Bool.and_false]
    rfl

end Works

/-- Where each list counts one for each of two properties of what it is made of, all lists count how
often these hold. -/
theorem countP_flatMap_eq {β γ : Type} {q : γ → Bool} {f : β → List γ} {p p' : β → Bool} {ws : List β}
    (h : ∀ w ∈ ws, (f w).countP q = (if p w then 1 else 0) + if p' w then 1 else 0) :
    (ws.flatMap f).countP q = ws.countP p + ws.countP p' := by
  induction ws with
  | nil => rfl
  | cons w ws ih =>
    obtain ⟨hw, hws⟩ := List.forall_mem_cons.mp h
    rw [List.flatMap_cons, List.countP_append, hw, ih hws, List.countP_cons, List.countP_cons]
    omega

/-- Over batches that may be broken off, as the log of the calls shows, what is written for a kind
is one entry for each work on an event of the kind that wrote at all. What is counted as buffered is
that, and each work that left its event out as it waited already. So it is what is written exactly
if there was no such work, as is always the case but for updates and relays. -/
theorem buffered_counts (hb : b.ReadsPool entries)
    (hfan : ∀ ts s, b.logged.Interleaves ts s (fan ts s)) (net : Network)
    (batches : List (List Event)) (s : σ) (kind : Event.Kind) :
    let ws := worksEach b.logged fan net batches (s, [])
    let writes := (consumeEach b.logged fan net batches (s, [])).2.countP (Call.isPutFor kind)
    let counted := Signal.countBuffered kind (toldEach b.logged fan net batches (s, []))
    writes = ws.countP (fun w => w.event.kind == kind && w.writes) ∧
      counted = writes + ws.countP (fun w => w.event.kind == kind && w.repeats b entries net) ∧
      (counted = writes ↔ ∀ w ∈ ws, w.event.kind = kind → w.repeats b entries net = false) ∧
      (kind ≠ .homeUpdate → kind ≠ .replicaUpdate → counted = writes) := by
  intro ws writes counted
  have hwork : ∀ w ∈ ws, w.outcome = perform b.logged fan net w.event w.before :=
    fun w hw => outcome_of_mem_worksEach hw
  have hwrites : writes = ws.countP fun w => w.event.kind == kind && w.writes := by
    have hgrows : ∀ w : Work (σ × List Call),
        w.outcome = perform b.logged fan net w.event w.before →
          w.outcome.state.2.countP (Call.isPutFor kind) =
            w.before.2.countP (Call.isPutFor kind) +
              if w.event.kind == kind && w.writes then 1 else 0 := fun w hw => by
      rw [(handed_work hb hfan hw).1, List.countP_append, countP_calls hb hfan hw]
    have hcount := consumeEach_countP (f := fun s => s.2.countP (Call.isPutFor kind)) hgrows batches
      (s, [])
    exact hcount.trans (Nat.zero_add _)
  have hcounted : counted = writes +
      ws.countP fun w => w.event.kind == kind && w.repeats b entries net := by
    rw [hwrites]
    simp only [counted, toldEach_eq]
    exact countP_flatMap_eq fun w hw => by
      rw [← countP_calls hb hfan (hwork w hw)]
      exact countBuffered_work hb hfan (hwork w hw) kind
  have hexact : counted = writes ↔
      ∀ w ∈ ws, w.event.kind = kind → w.repeats b entries net = false := by
    rw [hcounted, Nat.add_eq_left, List.countP_eq_zero]
    simp only [Bool.and_eq_true, beq_iff_eq, not_and, Bool.not_eq_true]
  refine ⟨hwrites, hcounted, hexact, fun hupdate hrelay => hexact.mpr fun w _ hkind => ?_⟩
  rw [← hkind] at hupdate hrelay
  rw [Work.repeats, waitsIn_of_single hupdate hrelay, Bool.and_false]

/-- The processing of a message that is not stored comes three times. The pool refuses to take it,
then it takes it twice. -/
theorem buffered_counts_sample :
    let b := Stores.faltering.backend
    let fan := oneByOne b.logged
    let batches := [[Sample.process], [Sample.process], [Sample.process]]
    let start : Memory × Option Nat := (Memory.empty, some 1)
    (consumeEach b.logged fan Sample.network batches (start, [])).2.countP
        (Call.isPutFor .process) = 2 ∧
      Signal.countBuffered .process
        (toldEach b.logged fan Sample.network batches (start, [])) = 2 := by
  intro b fan batches start
  have hfan : ∀ ts s, b.logged.Interleaves ts s (fan ts s) :=
    b.logged.interleaves_inOrder [] (by simp)
  obtain ⟨hwrites, -, -, hsingle⟩ := buffered_counts Stores.faltering.readsPool hfan Sample.network
    batches start .process
  have hwrote : (worksEach b.logged fan Sample.network batches (start, [])).countP
      (fun w => w.event.kind == .process && w.writes) = 2 := by decide +kernel
  rw [hwrote] at hwrites
  exact ⟨hwrites, (hsingle (by decide) (by decide)).trans hwrites⟩

/-! ### An update that comes again -/

section Again

variable (net : Network) {e : Event} {u : RootUpdate}

/-- An update that waits already is counted, and nothing is written. -/
theorem consume_update_again (hdata : e.data = .homeUpdate u)
    {pool : SortedMap (String × String) String} {texts : List String}
    (hentry : pool.find? (Lookup.update u.homeDomain u.oldRoot).place = some (renderList texts))
    (hin : texts.contains e.render = true) (log : List Call) :
    let b := Memory.backend.logged
    let key := Slot.rootKey u.homeDomain u.oldRoot
    consume b (oneByOne b) net [e] (⟨SortedMap.empty, pool⟩, log) =
      ⟨.ok (), (⟨SortedMap.empty, pool⟩,
          log ++ [.byRoot u.homeDomain u.oldRoot] ++ [.has "update" key] ++ [.get "update" key]),
        [.consumed e.kind, .buffered e.kind]⟩ := by
  intro b key
  have hlookup : Lookup.ofEvent? e = some (.update u.homeDomain u.oldRoot) := by
    rw [Lookup.ofEvent?, hdata]
  have hopening : (Task.tell (.consumed e.kind) (branches net e)).run b
      (⟨SortedMap.empty, pool⟩, log) =
        ⟨.ok [], (⟨SortedMap.empty, pool⟩,
          log ++ [.byRoot u.homeDomain u.oldRoot] ++ [.has "update" key] ++ [.get "update" key]),
          [.consumed e.kind, .buffered e.kind]⟩ := by
    rw [branches, hdata]
    change (((store e).bind fun _ => .done []).run b
      (⟨SortedMap.empty, pool⟩, log ++ [.byRoot u.homeDomain u.oldRoot])).after _ = _
    rw [Task.run_bind, run_store_again hlookup rfl hentry hin]
    rfl
  simp only [consume, perform, hopening]
  rfl

/-- An update that is consumed twice is written once and counted twice. -/
theorem update_twice (hdata : e.data = .homeUpdate u) :
    let b := Memory.backend.logged
    let batches := [[e], [e]]
    (consumeEach b (oneByOne b) net batches (Memory.empty, [])).2.countP
        (Call.isPutFor .homeUpdate) = 1 ∧
      Signal.countBuffered .homeUpdate
        (toldEach b (oneByOne b) net batches (Memory.empty, [])) = 2 := by
  intro b batches
  let l : Lookup := .update u.homeDomain u.oldRoot
  let pool : SortedMap (String × String) String :=
    SortedMap.empty.insert l.place (renderList [e.render])
  have hfirst : consume b (oneByOne b) net [e] (Memory.empty, []) =
      ⟨.ok (), (⟨SortedMap.empty, pool⟩, [.byRoot u.homeDomain u.oldRoot, .has "update" l.slot.key,
          .put "update" l.slot.key (renderList [e.render])]),
        [.consumed e.kind, .buffered e.kind]⟩ := by
    obtain ⟨domain, block, timestamp, tx, gasUsed, data⟩ := e
    obtain rfl := hdata
    rfl
  have hentry : pool.find? l.place = some (renderList [e.render]) :=
    SortedMap.find?_insert_self _ _ _
  have hagain := consume_update_again net hdata hentry List.elem_cons_self
  have hkind : e.kind = .homeUpdate := by rw [Event.kind, hdata]; rfl
  rw [toldEach, toldEach, toldEach, consumeEach, List.foldl_cons, List.foldl_cons, List.foldl_nil,
    hfirst, hagain, hkind]
  exact ⟨rfl, rfl⟩

end Again

/-- An update comes twice. -/
theorem repetition_is_counted :
    let b := Memory.backend.logged
    let batches := [[Sample.update], [Sample.update]]
    (consumeEach b (oneByOne b) Sample.network batches (Memory.empty, [])).2.countP
        (Call.isPutFor .homeUpdate) = 1 ∧
      Signal.countBuffered .homeUpdate
        (toldEach b (oneByOne b) Sample.network batches (Memory.empty, [])) = 2 :=
  update_twice Sample.network rfl

end Tracker

end Waybill
