import Waybill.Proofs.Task.Interleaving
/-!
# Contracts between tasks and stores

A contract says which calls are proper and which answers to a call are sound. A task meets it if all
its calls are proper as long as the answers are sound. Stores honour it if proper calls keep what
holds of them and get sound answers. Then what holds of the stores goes on holding, however tasks
that meet the contract are worked off in turns.

## Main definitions

* `Contract`: proper calls and sound answers.
* `Task.Meets`: a task meets a contract, and ends with such values and failures.
* `Outcome.Leaves`: what holds at the end of a run.
* `Backend.Honours`: stores of which something holds honour a contract.

## Main results

* `Task.Meets.bind`: tasks that meet a contract one after another.
* `Backend.Honours.run`, `Backend.Honours.interleaves`: what holds of the stores goes on holding.
-/

namespace Waybill

/-- Which calls are proper, and which answers to a call are sound. -/
structure Contract where
  Proper : Call → Prop
  Sound : (c : Call) → c.Answer → Prop

variable {σ α β : Type} {C : Contract} {E : Failure → Prop}

namespace Task

/-- As long as the answers are sound, the calls of a task are proper, a value that it ends with is
as given, and so is a failure. -/
def Meets (C : Contract) (E : Failure → Prop) (Q : α → Prop) : Task α → Prop
  | done a => Q a
  | fail f => E f
  | tell _ t => Meets C E Q t
  | ask c k => C.Proper c ∧ ∀ a, C.Sound c a → Meets C E Q (k a)

variable {Q : α → Prop} {R : β → Prop}

/-- A contract may be met that allows more calls and promises more of the answers. -/
theorem Meets.weaken {C' : Contract} {t : Task α} (h : t.Meets C E Q)
    (hproper : ∀ c, C.Proper c → C'.Proper c)
    (hsound : ∀ c a, C.Proper c → C'.Sound c a → C.Sound c a) : t.Meets C' E Q := by
  induction t with
  | done a => exact h
  | fail f => exact h
  | tell x t ih => exact ih h
  | ask c k ih =>
    exact ⟨hproper c h.1, fun a ha => ih a (h.2 a (hsound c a h.1 ha))⟩

/-- A task goes on with the value of another one. -/
theorem Meets.bind {t : Task α} {f : α → Task β} (h : t.Meets C E Q)
    (hf : ∀ a, Q a → (f a).Meets C E R) : (t.bind f).Meets C E R := by
  induction t with
  | done a => exact hf a h
  | fail f => exact h
  | tell x t ih => exact ih h
  | ask c k ih => exact ⟨h.1, fun a ha => ih a (h.2 a ha)⟩

/-- A call by itself ends with a sound answer. -/
theorem meets_call {c : Call} (h : C.Proper c) : (call c).Meets C E (C.Sound c) :=
  ⟨h, fun _ ha => ha⟩

/-- A task that goes on after an answer to a proper call. -/
theorem Meets.resume {k : β → Task α} {r : Except Failure β}
    (hok : ∀ a, r = .ok a → (k a).Meets C E Q) (herror : ∀ f, r = .error f → E f) :
    (Task.resume k r).Meets C E Q := by
  cases r with
  | ok a => exact hok a rfl
  | error f => exact herror f rfl

end Task

/-! ### Runs over stores -/

/-- Something holds of the stores at the end, and a value or a failure is as given. -/
structure Outcome.Leaves {ε : Type} (o : Outcome σ ε α) (P : σ → Prop) (E : ε → Prop)
    (Q : α → Prop) : Prop where
  state : P o.state
  ok : ∀ a, o.result = .ok a → Q a
  error : ∀ f, o.result = .error f → E f

section Leaves

variable {b : Backend σ} {P : σ → Prop} {Q : α → Prop} {R : β → Prop} {s : σ}

theorem Outcome.Leaves.after {ε : Type} {E : ε → Prop} {o : Outcome σ ε α} (h : o.Leaves P E Q)
    (xs : List Signal) : (o.after xs).Leaves P E Q :=
  ⟨h.state, h.ok, h.error⟩

theorem Outcome.leaves_ok {ε : Type} {E : ε → Prop} {a : α} {xs : List Signal} (hs : P s)
    (ha : Q a) : (⟨.ok a, s, xs⟩ : Outcome σ ε α).Leaves P E Q :=
  ⟨hs, fun _ h => Except.ok.inj h ▸ ha, fun _ h => by cases h⟩

theorem Outcome.leaves_error {ε : Type} {E : ε → Prop} {f : ε} {xs : List Signal} (hs : P s)
    (hf : E f) : (⟨.error f, s, xs⟩ : Outcome σ ε α).Leaves P E Q :=
  ⟨hs, fun _ h => (by cases h), fun _ h => Except.error.inj h ▸ hf⟩

theorem Task.leaves_done {a : α} (hs : P s) (ha : Q a) : ((done a).run b s).Leaves P E Q :=
  Outcome.leaves_ok hs ha

theorem Task.leaves_ask {c : Call} {k : c.Answer → Task α} (hkept : P (b.answer s c).2)
    (herror : ∀ f, (b.answer s c).1 = .error f → E f)
    (hok : ∀ a, (b.answer s c).1 = .ok a → ((k a).run b (b.answer s c).2).Leaves P E Q) :
    ((ask c k).run b s).Leaves P E Q := by
  rw [run]
  revert hkept herror hok
  obtain ⟨r, s'⟩ := b.answer s c
  intro hkept herror hok
  cases r with
  | ok a => exact hok a rfl
  | error e => exact Outcome.leaves_error hkept (herror e rfl)

/-- A task leaves the stores in order if its beginning does and what comes then. -/
theorem Task.leaves_bind {t : Task α} {f : α → Task β} (h : (t.run b s).Leaves P E Q)
    (hf : ∀ a, Q a → ((f a).run b (t.run b s).state).Leaves P E R) :
    ((t.bind f).run b s).Leaves P E R := by
  rw [run_bind]
  cases hr : (t.run b s).result with
  | ok a => exact (hf a (h.ok a hr)).after _
  | error e => exact Outcome.leaves_error h.state (h.error e hr)

end Leaves

namespace Backend

/-- A proper call to stores of which something holds keeps it, and its answer is sound or a failure
as given. -/
def Honours (b : Backend σ) (C : Contract) (P : σ → Prop) (E : Failure → Prop) : Prop :=
  ∀ s c, P s → C.Proper c → P (b.answer s c).2 ∧
    (∀ a, (b.answer s c).1 = .ok a → C.Sound c a) ∧ ∀ f, (b.answer s c).1 = .error f → E f

variable {b : Backend σ} {P : σ → Prop} {Q : α → Prop} {s s' : σ}

/-- A call keeps to the contract if it gets a sound answer. -/
theorem honours_of_ok {c : Call} {a : c.Answer} (h : b.answer s c = (.ok a, s')) (hs : P s')
    (ha : C.Sound c a) : P (b.answer s c).2 ∧ (∀ a, (b.answer s c).1 = .ok a → C.Sound c a) ∧
      ∀ f, (b.answer s c).1 = .error f → E f := by
  rw [h]
  exact ⟨hs, fun _ h => Except.ok.inj h ▸ ha, fun _ h => by cases h⟩

/-- A task that meets a contract keeps what holds of the stores. -/
theorem Honours.run (hb : b.Honours C P E) {t : Task α} (ht : t.Meets C E Q) (hs : P s) :
    (t.run b s).Leaves P E Q := by
  induction t generalizing s with
  | done a => exact Task.leaves_done hs ht
  | fail f => exact Outcome.leaves_error hs ht
  | tell x t ih => exact (ih ht hs).after [x]
  | ask c k ih =>
    obtain ⟨hkept, hok, herror⟩ := hb s c hs ht.1
    exact Task.leaves_ask hkept herror fun a ha => ih a (ht.2 a (hok a ha)) hkept

/-- Tasks that meet a contract keep what holds of the stores when they are worked off in turns. -/
theorem Honours.interleaves (hb : b.Honours C P E) {ts : List (Task Unit)}
    {o : Outcome σ Failure Unit} (h : b.Interleaves ts s o)
    (hts : ∀ t ∈ ts, t.Meets C E fun _ => True) (hs : P s) : o.Leaves P E fun _ => True := by
  induction h with
  | ended _ => exact Outcome.leaves_ok hs trivial
  | failed hfail => exact Outcome.leaves_error hs (hts _ hfail)
  | tell ht _ ih =>
    have hmeets := hts _ (List.mem_of_getElem? ht)
    refine (ih (fun u hu => ?_) hs).after _
    rcases List.mem_or_eq_of_mem_set hu with hu | rfl
    · exact hts u hu
    · exact hmeets
  | @ask ts s o i c k ht _ ih =>
    have hmeets := hts _ (List.mem_of_getElem? ht)
    obtain ⟨hkept, hok, herror⟩ := hb s c hs hmeets.1
    refine ih (fun u hu => ?_) hkept
    rcases List.mem_or_eq_of_mem_set hu with hu | rfl
    · exact hts u hu
    · exact Task.Meets.resume (fun a ha => hmeets.2 a (hok a ha)) herror

end Backend

end Waybill
