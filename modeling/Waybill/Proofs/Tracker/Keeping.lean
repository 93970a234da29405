import Waybill.Proofs.Message.Reload
import Waybill.Proofs.Tracker.Looking
import Waybill.Proofs.Tracker.Runs
/-!
# What the work on events keeps

Whatever the stores are, and whatever network their records were stored under, the work on events
takes messages up from records, changes them by transitions, and stores what comes of it. So if all
records are of some kind from which the network of the moment takes up messages of some other kind,
if transitions keep these messages and their records are of the first kind again, then all records
go on being so, and the work never fails by itself. Only a sending may come upon a message that is
no transfer: what is found for it is to be known before.

## Main definitions

* `Tracker.keeping`: the contract of the work on events.
* `Tracker.Keeping`: messages and their records under a network.
* `Tracker.Keeper`: stores of which something holds keep to the contract.
* `Tracker.Awaits`: what holds of stores while a record is on its way into them.
* `Tracker.FindsTransfer`: what is found for a sending is a transfer.

## Main results

* `Tracker.Keeping.meets_branches`: the work on an event keeps to the contract.
* `Tracker.Keeper.perform`: what holds of the stores holds after the work on an event.
-/

namespace Waybill

open Waybill.Pending Waybill.Task Message

namespace Tracker

/-- Only such records and entries of the events are stored and found. Insertions and sendings have
their own rules. -/
def keeping (H : Event → Prop) (R : Record → Prop) : Contract where
  Proper
    | .insert _ | .page _ _ | .bySend _ _ _ _ => False
    | .update r => R r
    | .put bucket key value => IsEntry H bucket key value
    | _ => True
  Sound
    | .byHash _, r? | .byNonce _ _ _, r? => ∀ r, r? = some r → R r
    | .byRoot _ _, rs => ∀ r ∈ rs, R r
    | .get bucket key, value? => ∀ value, value? = some value → IsEntry H bucket key value
    | _, _ => True

/-- Dispatches give such messages and transitions keep them. Their records are such records, and
from such records such messages are taken up. -/
structure Keeping (net : Network) (H : Event → Prop) (R : Record → Prop) (G : Message → Prop) :
    Prop where
  created : ∀ {e d}, H e → e.data = .dispatch d → G (created net e d)
  lasting : Lasting H G
  loads : ∀ {r}, R r → ∃ m, G m ∧ Message.ofRecord net r = .ok m
  saves : ∀ {m}, G m → R (.ofMessage net m)

/-- Of a record a transfer is taken up. -/
def LoadsTransfer (net : Network) (G : Message → Prop) (r : Record) : Prop :=
  ∃ m, (G m ∧ m.isTransfer = true) ∧ Message.ofRecord net r = .ok m

section Tasks

variable {net : Network} {H : Event → Prop} {R : Record → Prop} {G : Message → Prop}
  {E : Failure → Prop}

/-- Whoever only looks into the pool keeps to the contract of the work on events. -/
theorem meets_keeping {α : Type} {t : Task α} {Q : α → Prop} (h : t.Meets (looking H) E Q) :
    t.Meets (keeping H R) E Q :=
  h.weaken (fun c hc => by cases c <;> first | exact hc.elim | trivial)
    fun c a hc ha => by cases c <;> first | exact hc.elim | exact ha

/-! ### Handing events to the pool -/

section Pool

variable {l : Lookup} {e : Event}

/-- Setting the entry of a lookup is proper. -/
theorem meets_put {value : String} {es : List Event} (hentry : l.entry? es = some value)
    (hes : ∀ e ∈ es, H e ∧ Lookup.ofEvent? e = some l) :
    (put l.slot value).Meets (keeping H R) E fun _ => True :=
  ⟨⟨l, es, rfl, hentry, hes⟩, fun _ _ => trivial⟩

/-- Appending an event to the list of its lookup keeps the entry one of events. -/
theorem meets_appendUnique (he : H e) (hl : Lookup.ofEvent? e = some l) (hall : l.keepsAll = true) :
    (appendUnique l.slot e.render).Meets (keeping H R) E fun _ => True := by
  -- whatever waited before, the new text is that of one event more
  have hput : ∀ es : List Event, (∀ d ∈ es, H d ∧ Lookup.ofEvent? d = some l) →
      (put l.slot (renderList (es.map Event.render ++ [e.render]))).Meets (keeping H R) E
        fun _ => True := by
    intro es hes
    have hentry : l.entry? (es ++ [e]) =
        some (renderList (es.map Event.render ++ [e.render])) := by
      cases es <;> simp [Lookup.entry?, hall]
    refine meets_put hentry fun d hd => ?_
    rcases List.mem_append.mp hd with hd | hd
    · exact hes d hd
    · obtain rfl := List.mem_singleton.mp hd
      exact ⟨he, hl⟩
  refine (meets_call trivial).bind fun present _ => ?_
  cases present with
  | false => exact hput [] (by simp)
  | true =>
    refine (meets_keeping (meets_listed hall)).bind fun values hvalues => ?_
    obtain ⟨es, rfl, hes⟩ := hvalues
    split
    · trivial
    · exact hput es hes

/-- An event is handed to the pool under its own lookup. -/
theorem meets_store (he : H e) : (Pending.store e).Meets (keeping H R) E fun _ => True := by
  rw [Pending.store, Lookup.slot_ofEvent?]
  cases hl : Lookup.ofEvent? e with
  | none => trivial
  | some l =>
    have hkept : (if l.keepsAll then appendUnique l.slot e.render else put l.slot e.render).Meets
        (keeping H R) E fun _ => True := by
      split
      · next hall => exact meets_appendUnique he hl hall
      · next hlast =>
        have hentry : l.entry? [e] = some e.render := by simp [Lookup.entry?, hlast]
        refine meets_put hentry fun d hd => ?_
        obtain rfl := List.mem_singleton.mp hd
        exact ⟨he, hl⟩
    have htold := hkept.bind (f := fun _ => signal (.buffered e.kind)) (R := fun _ => True)
      fun _ _ => trivial
    cases l <;> exact htold

end Pool

/-! ### Handling events -/

namespace Keeping

variable (k : Keeping net H R G) {e : Event}
include k

theorem meets_settle {m : Message} (hm : G m) :
    (settle net m).Meets (keeping H R) E fun _ => True :=
  (meets_keeping (meets_catchUp k.lasting hm)).bind fun _ hm' =>
    ⟨k.saves hm', fun _ _ => trivial⟩

/-- Applying an event to a message and settling it. -/
theorem meets_goOn {m : Message} (hm : G m) {i : Mark} (he : H e) (hi : e.mark? = some i) :
    ((announce i.state e (m.take i e)).bind (settle net)).Meets (keeping H R) E fun _ => True :=
  (meets_announce i.state e (k.lasting hm he hi)).bind fun _ hm' => k.meets_settle hm'

theorem meets_branch {i : Mark} (he : H e) (hi : e.mark? = some i)
    {step : Message → Event → Message × Bool} (hstep : ∀ m, step m e = m.take i e) {r : Record}
    (hr : R r) : (branch net i.state step e r).Meets (keeping H R) E fun _ => True := by
  obtain ⟨m, hm, hload⟩ := k.loads hr
  rw [branch, load, hload]
  change ((announce i.state e (step m e)).bind (settle net)).Meets (keeping H R) E _
  rw [hstep]
  exact k.meets_goOn hm he hi

theorem meets_onRoot {i : Mark} {d : RootUpdate} (he : H e) (hi : e.mark? = some i)
    {step : Message → Event → Message × Bool} (hstep : ∀ m, step m e = m.take i e) :
    (onRoot net i.state step e d).Meets (keeping H R) E fun ts =>
      ∀ t ∈ ts, t.Meets (keeping H R) E fun _ => True := by
  refine (meets_call trivial).bind fun rs hrs => (meets_store he).bind fun _ _ t ht => ?_
  obtain ⟨r, hr, rfl⟩ := List.mem_map.mp ht
  exact k.meets_branch he hi hstep (hrs r hr)

omit k in
/-- The work on an event with the record that is found for it, if there is one. -/
theorem meets_deliver {G' : Message → Prop} (he : H e) {r? : Option Record}
    (hr : ∀ r, r? = some r → ∃ m, G' m ∧ Message.ofRecord net r = .ok m)
    {f : Option Message → Task Unit} (hnone : f none = Pending.store e)
    (hsome : ∀ m, G' m → (f (some m)).Meets (keeping H R) E fun _ => True) :
    ((loadOption net r?).bind f).Meets (keeping H R) E fun _ => True := by
  cases r? with
  | none =>
    rw [loadOption, Task.bind, hnone]
    exact meets_store he
  | some r =>
    obtain ⟨m, hm, hload⟩ := hr r rfl
    rw [loadOption, load, hload]
    exact hsome m hm

theorem meets_onProcess {p : Processing} (he : H e) (hdata : e.data = .process p) :
    (onProcess net e p).Meets (keeping H R) E fun _ => True := by
  have hi : e.mark? = some .processed := by rw [Event.mark?, hdata]
  refine (meets_call trivial).bind fun r? hr => ?_
  exact meets_deliver he (fun r h => k.loads (hr r h)) rfl fun m hm => k.meets_goOn hm he hi

theorem meets_onReceive {r : Receipt} (he : H e) (hdata : e.data = .bridgeReceive r) :
    (onReceive net e r).Meets (keeping H R) E fun _ => True := by
  have hi : e.mark? = some .received := by rw [Event.mark?, hdata]
  refine (meets_call trivial).bind fun r? hr => ?_
  refine meets_deliver he (fun r h => k.loads (hr r h)) rfl fun m hm => ?_
  dsimp only
  split
  · exact k.meets_goOn hm he hi
  · trivial

/-- The work on a sending once a record was looked for, if a transfer is taken up from it. -/
theorem meets_found {s : Send} (he : H e) (hdata : e.data = .bridgeSend s) {r? : Option Record}
    (hr : ∀ r, r? = some r → LoadsTransfer net G r) :
    ((loadOption net r?).bind fun m? =>
      match m? with
      | some m =>
        match m.attachSend? e s with
        | some m => settle net m
        | none => Task.fail (.notTransfer m.hash)
      | none => Pending.store e).Meets (keeping H R) E fun _ => True := by
  have hi : e.mark? = some .sent := by rw [Event.mark?, hdata]
  refine meets_deliver he hr rfl fun m hm => ?_
  simp only [attachSend?_eq hm.2 hdata]
  exact k.meets_settle (k.lasting hm.1 he hi)

/-- The work on an event that is neither a dispatch nor a sending keeps to the contract, and so do
its branches. -/
theorem meets_branches (he : H e) (hdispatch : ∀ d, e.data ≠ .dispatch d)
    (hsend : ∀ s, e.data ≠ .bridgeSend s) :
    (branches net e).Meets (keeping H R) E fun ts =>
      ∀ t ∈ ts, t.Meets (keeping H R) E fun _ => True := by
  have hnone {t : Task Unit} (h : t.Meets (keeping H R) E fun _ => True) :
      (t.bind fun _ => .done []).Meets (keeping H R) E fun ts : List (Task Unit) =>
        ∀ t ∈ ts, t.Meets (keeping H R) E fun _ => True :=
    h.bind fun _ _ => nofun
  rw [branches]
  split
  · next d hdata => exact absurd hdata (hdispatch d)
  · next d hdata =>
    exact k.meets_onRoot he (i := .updated) (by rw [Event.mark?, hdata]) fun _ => rfl
  · next d hdata =>
    exact k.meets_onRoot he (i := .relayed) (by rw [Event.mark?, hdata]) fun _ => rfl
  · next hdata => exact hnone (k.meets_onProcess he hdata)
  · next s hdata => exact absurd hdata (hsend s)
  · next hdata => exact hnone (k.meets_onReceive he hdata)

end Keeping

end Tasks

/-! ### Stores that keep to the contract -/

/-- Something that holds of stores while the record of a message is on its way into them: it keeps
what is to hold, looking into the pool does not change it, and such a record may be inserted. -/
structure Awaits {σ : Type} (b : Backend σ) (H : Event → Prop) (R : Record → Prop) (P : σ → Prop)
    (E : Failure → Prop) (Q : σ → Prop) : Prop where
  kept : ∀ {s}, Q s → P s
  looking : b.Honours (looking H) Q E
  insert : ∀ {s r}, Q s → R r → P (b.answer s (.insert r)).2 ∧
    ∀ f, (b.answer s (.insert r)).1 = .error f → E f

/-- Stores of which something holds keep to the contract, and a record may be inserted whose hash
was not found. Looking for a sending keeps what holds of them. -/
structure Keeper {σ : Type} (b : Backend σ) (H : Event → Prop) (R : Record → Prop) (P : σ → Prop)
    (E : Failure → Prop) : Prop where
  honours : b.Honours (keeping H R) P E
  missing : ∀ {s hash}, P s → (b.answer s (.byHash hash)).1 = .ok none →
    ∃ Q : σ → Prop, Q (b.answer s (.byHash hash)).2 ∧
      Awaits b H (fun r => R r ∧ r.messageHash = hash.text) P E Q
  bySend : ∀ {s} destination recipient amount block, P s →
    P (b.answer s (.bySend destination recipient amount block)).2 ∧
      ∀ f, (b.answer s (.bySend destination recipient amount block)).1 = .error f → E f

/-- If an event is a sending, what is found for it in stores is a record from which a transfer is
taken up, or nothing. -/
def FindsTransfer {σ : Type} (b : Backend σ) (net : Network) (G : Message → Prop) (e : Event)
    (s : σ) : Prop :=
  ∀ d, e.data = .bridgeSend d → ∀ r,
    (b.answer s (.bySend d.toDomain d.toId d.amount e.block)).1 = .ok (some r) →
      LoadsTransfer net G r

section Runs

variable {σ : Type} {b : Backend σ} {net : Network} {H : Event → Prop} {R : Record → Prop}
  {G : Message → Prop} {P : σ → Prop} {E : Failure → Prop} {e : Event} {s : σ}

/-- Transitions keep the hash of a message. -/
theorem lasting_hash (hlasting : Lasting H G) (hash : Digest) :
    Lasting H fun m => G m ∧ m.hash = hash := by
  rintro m k e ⟨hm, rfl⟩ he hk
  exact ⟨hlasting hm he hk, congrArg (·.1.hash) (m.face_take k e)⟩

namespace Keeper

/-- A message that was just dispatched catches up and is inserted. -/
theorem insertion (c : Keeper b H R P E) (k : Keeping net H R G) {m : Message} (hm : G m)
    (hs : P s) (hnone : (b.answer s (.byHash m.hash)).1 = .ok none) :
    (((catchUp m).bind fun m => Task.call (.insert (.ofMessage net m))).run b
      (b.answer s (.byHash m.hash)).2).Leaves P E fun _ => True := by
  obtain ⟨Q, hmissing, hawaits⟩ := c.missing hs hnone
  -- catching up changes neither what is awaited nor the hash
  obtain ⟨hstill, hok, herror⟩ := hawaits.looking.run
    (meets_catchUp (lasting_hash k.lasting m.hash) ⟨hm, rfl⟩) hmissing
  refine leaves_bind ⟨hawaits.kept hstill, hok, herror⟩ fun m' hm' => ?_
  have hinsert := hawaits.insert hstill ⟨k.saves hm'.1, congrArg Digest.text hm'.2⟩
  exact leaves_ask hinsert.1 hinsert.2 fun _ _ => leaves_done hinsert.1 trivial

/-- The work on a dispatch. -/
theorem onDispatch (c : Keeper b H R P E) (k : Keeping net H R G) {d : Dispatch} (he : H e)
    (hdata : e.data = .dispatch d) (hs : P s) :
    ((onDispatch net e d).run b s).Leaves P E fun _ => True := by
  obtain ⟨hkept, -, herror⟩ := c.honours s (.byHash d.messageHash) hs trivial
  change ((Task.run b (Task.ask (.byHash d.messageHash) _) s).after _).Leaves P E _
  refine (leaves_ask hkept herror fun r? hr => ?_).after _
  cases r? with
  | some _ => exact leaves_done hkept trivial
  | none => exact (c.insertion k (k.created he hdata) hs hr).after _

/-- The work on a sending for which a transfer is found, or nothing. -/
theorem onSend (c : Keeper b H R P E) (k : Keeping net H R G) {d : Send} (he : H e)
    (hdata : e.data = .bridgeSend d) (hs : P s) (hfinds : FindsTransfer b net G e s) :
    ((onSend net e d).run b s).Leaves P E fun _ => True := by
  obtain ⟨hkept, herror⟩ := c.bySend d.toDomain d.toId d.amount e.block hs
  refine leaves_ask hkept herror fun r? hr => c.honours.run ?_ hkept
  refine k.meets_found he hdata fun r hfound => hfinds d hdata r ?_
  rw [hr, hfound]

/-- The work on an event up to its branches. -/
theorem run_branches (c : Keeper b H R P E) (k : Keeping net H R G) (he : H e) (hs : P s)
    (hfinds : FindsTransfer b net G e s) :
    ((branches net e).run b s).Leaves P E fun ts =>
      ∀ t ∈ ts, t.Meets (keeping H R) E fun _ => True := by
  have hnone {t : Task Unit} (h : (t.run b s).Leaves P E fun _ => True) :
      ((t.bind fun _ => .done []).run b s).Leaves P E fun ts : List (Task Unit) =>
        ∀ t ∈ ts, t.Meets (keeping H R) E fun _ => True :=
    leaves_bind h fun _ _ => leaves_done h.state nofun
  cases hdata : e.data with
  | dispatch d =>
    rw [branches, hdata]
    exact hnone (c.onDispatch k he hdata hs)
  | bridgeSend d =>
    rw [branches, hdata]
    exact hnone (c.onSend k he hdata hs hfinds)
  | _ => exact c.honours.run (k.meets_branches he (by simp [hdata]) (by simp [hdata])) hs

variable {fan : FanOut σ} (hfan : ∀ ts s, b.Interleaves ts s (fan ts s))
include hfan

/-- What holds of the stores holds after the work on an event. -/
theorem perform (c : Keeper b H R P E) (k : Keeping net H R G) (he : H e) (hs : P s)
    (hfinds : FindsTransfer b net G e s) :
    (perform b fan net e s).Leaves P E fun _ => True := by
  obtain ⟨hstate, hok, herror⟩ := c.run_branches k he hs hfinds
  simp only [Tracker.perform, Task.run, Outcome.after]
  cases hr : ((branches net e).run b s).result with
  | error f => exact Outcome.leaves_error hstate (herror f hr)
  | ok ts => exact (c.honours.interleaves (hfan ts _) (hok ts hr) hstate).after _

end Keeper

end Runs

end Tracker

end Waybill
