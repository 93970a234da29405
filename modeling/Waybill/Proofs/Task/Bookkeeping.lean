import Waybill.Proofs.Task.Conduct
import Waybill.Store.Database
import Waybill.Store.Memory
/-!
# What a task books

What a run makes of the pool shows in the calls that were answered and in the signals that were
told. A condition on both is shown on the tree of a task: any call may be refused, questions for
records may be answered in any way, and what is read of the pool is what is in it as long as nothing
is written.

## Main definitions

* `Backend.ReadsPool`: questions for the pool are answered from its entries.
* `Task.Books`: however a task ends, a condition holds of its calls, its signals and its value.

## Main results

* `Task.Books.mono`, `Task.Books.bind`, `Task.Confined.books`: conditions on tasks.
* `Task.Books.run_logged`: the condition holds of a run.
* `Memory.readsPool`, `Database.readsPool`: the pools of the stores.
-/

namespace Waybill

/-- The entries of a pool by bucket and key. -/
abbrev Pending.Entries := String → String → Option String

/-- What is answered to a question for the pool is what is in it. -/
def Call.ReadsFrom (entries : Pending.Entries) : (c : Call) → c.Answer → Prop
  | .get bucket key, raw? => raw? = entries bucket key
  | .has bucket key, there => there = (entries bucket key).isSome
  | _, _ => True

variable {σ α β : Type}

/-- Where a question for the pool is answered, it is answered from its entries, and no answer other
than that to a write changes them. -/
structure Backend.ReadsPool (b : Backend σ) (entries : σ → Pending.Entries) : Prop where
  reads : ∀ {s s' c a}, b.answer s c = (.ok a, s') → c.ReadsFrom (entries s) a
  keeps : ∀ {s s' c a}, b.answer s c = (.ok a, s') → c.isPut = false → entries s' = entries s

namespace Task

/-- However a task ends over some entries, a condition holds of the calls that were answered, the
signals that were told and the value, if there is one. -/
def Books : Task α → Pending.Entries → (List Call → List Signal → Option α → Prop) → Prop
  | done a, _, P => P [] [] (some a)
  | fail _, _, P => P [] [] none
  | tell x t, entries, P => t.Books entries fun cs xs a? => P cs (x :: xs) a?
  | ask c k, entries, P => P [] [] none ∧ ∀ a, c.ReadsFrom entries a →
      ∀ entries', (c.isPut = false → entries' = entries) →
        (k a).Books entries' fun cs xs a? => P (c :: cs) xs a?

variable {t : Task α} {entries : Pending.Entries} {P P' : List Call → List Signal → Option α → Prop}

theorem Books.mono (h : t.Books entries P) (hP : ∀ cs xs a?, P cs xs a? → P' cs xs a?) :
    t.Books entries P' := by
  induction t generalizing entries P P' with
  | done a => exact hP _ _ _ h
  | fail f => exact hP _ _ _ h
  | tell x t ih => exact ih h fun cs xs a? => hP cs (x :: xs) a?
  | ask c k ih =>
    exact ⟨hP _ _ _ h.1, fun a ha entries' hkeeps =>
      ih a (h.2 a ha entries' hkeeps) fun cs xs a? => hP (c :: cs) xs a?⟩

/-- A task goes on with the value of another one, over whatever that one left of the entries. -/
theorem Books.bind {f : α → Task β} {R : List Call → List Signal → Option β → Prop}
    (h : t.Books entries P) (hnone : ∀ cs xs, P cs xs none → R cs xs none)
    (hsome : ∀ cs xs a, P cs xs (some a) →
      ∀ entries', (f a).Books entries' fun cs' xs' r => R (cs ++ cs') (xs ++ xs') r) :
    (t.bind f).Books entries R := by
  induction t generalizing entries P R with
  | done a => exact hsome [] [] a h entries
  | fail f => exact hnone [] [] h
  | tell x t ih =>
    exact ih h (fun cs xs => hnone cs (x :: xs)) fun cs xs => hsome cs (x :: xs)
  | ask c k ih =>
    exact ⟨hnone [] [] h.1, fun a ha entries' hkeeps =>
      ih a (h.2 a ha entries' hkeeps) (fun cs => hnone (c :: cs)) fun cs => hsome (c :: cs)⟩

/-- A confined task books nothing else. -/
theorem Confined.books {S : Signal → Prop} {A : Call → Prop} {Q : α → Prop}
    (h : t.Confined S A Q) (entries : Pending.Entries) :
    t.Books entries fun cs xs _ => (∀ c ∈ cs, A c) ∧ ∀ x ∈ xs, S x := by
  induction t generalizing entries with
  | done a => exact ⟨List.forall_mem_nil _, List.forall_mem_nil _⟩
  | fail f => exact ⟨List.forall_mem_nil _, List.forall_mem_nil _⟩
  | tell x t ih =>
    exact (ih h.2 entries).mono fun cs xs _ ⟨hcs, hxs⟩ =>
      ⟨hcs, List.forall_mem_cons.mpr ⟨h.1, hxs⟩⟩
  | ask c k ih =>
    exact ⟨⟨List.forall_mem_nil _, List.forall_mem_nil _⟩, fun a _ entries' _ =>
      (ih a (h.2 a) entries').mono fun cs xs _ ⟨hcs, hxs⟩ =>
        ⟨List.forall_mem_cons.mpr ⟨h.1, hcs⟩, hxs⟩⟩

/-- What a task books, holds of its run. -/
theorem Books.run_logged {b : Backend σ} {entries : σ → Pending.Entries}
    (hb : b.ReadsPool entries) {s : σ} (h : t.Books (entries s) P) (log : List Call) :
    ∃ cs, (t.run b.logged (s, log)).state.2 = log ++ cs ∧
      P cs (t.run b.logged (s, log)).signals (t.run b.logged (s, log)).result.toOption := by
  induction t generalizing s log P with
  | done a => exact ⟨[], (List.append_nil log).symm, h⟩
  | fail f => exact ⟨[], (List.append_nil log).symm, h⟩
  | tell x t ih => exact ih h log
  | ask c k ih =>
    rcases hc : b.answer s c with ⟨f | a, s'⟩
    · rw [Task.run, Backend.logged_answer_of_error hc]
      exact ⟨[], (List.append_nil log).symm, h.1⟩
    · rw [Task.run, Backend.logged_answer_of_ok hc]
      obtain ⟨cs, hlog, hP⟩ :=
        ih a (h.2 a (hb.reads hc) (entries s') (hb.keeps hc)) (log ++ [c])
      exact ⟨c :: cs, by rw [hlog, List.append_assoc, List.singleton_append], hP⟩

end Task

/-! ### The pools of stores -/

/-- The entries of a pool in memory. -/
def Memory.entries (m : Memory) : Pending.Entries := fun bucket key => m.pool.find? (bucket, key)

theorem Memory.readsPool : Memory.backend.ReadsPool Memory.entries where
  reads {s s' c a} h := by
    cases c <;> first | trivial | cases h; rfl
  keeps {s s' c a} h hput := by
    cases c with
    | insert r =>
      simp only [Memory.backend, Memory.answer] at h
      split at h <;> cases h
      rfl
    | put _ _ _ => cases hput
    | _ => cases h; rfl

/-- A call that a gateway answers was carried out by its engine. -/
theorem Engine.exists_run_of_answer {E : Engine σ} {s s' : σ} {c : Call} {a : c.Answer}
    (h : E.gateway.answer s c = (.ok a, s')) :
    ∃ r, E.run s c.statement = (.ok r, s') ∧ c.ofResult r = .ok a := by
  change ((E.run s c.statement).1.bind c.ofResult, (E.run s c.statement).2) = _ at h
  revert h
  rcases E.run s c.statement with ⟨f | r, s''⟩
  · rintro ⟨⟩
  · intro h
    obtain ⟨hanswer, rfl⟩ := Prod.mk.inj h
    exact ⟨r, rfl, hanswer⟩

/-- The entries of the table of pending events. -/
def Database.entries (db : Database) : Pending.Entries := fun bucket key =>
  db.pending.bind fun rows => (rows.find? (PendingRow.isUnder bucket key)).map (·.value)

namespace Database

variable {db db' : Database}

/-- A question to the table of messages changes nothing. -/
theorem eq_of_ask {f : List Row → Except Failure α} {a : α} (h : db.ask f = (.ok a, db')) :
    db' = db := by
  rw [ask] at h
  split at h
  · cases h
  · exact (congrArg Prod.snd h).symm

/-- A question to the table of pending events is answered from its rows, and changes nothing. -/
theorem eq_of_askPending {f : List PendingRow → α} {a : α}
    (h : db.askPending f = (.ok a, db')) :
    (∃ rows, db.pending = some rows ∧ a = f rows) ∧ db' = db := by
  rw [askPending] at h
  split at h
  · cases h
  · next rows hrows =>
    cases h
    exact ⟨⟨rows, hrows, rfl⟩, rfl⟩

/-- A statement that is carried out leaves the table of pending events as it is, unless it is one
to store a row there. -/
theorem pending_run {st : Statement} {r : st.Result} (h : db.run st = (.ok r, db'))
    (hput : ∀ row, st ≠ .upsertPending row) : db'.pending = db.pending := by
  cases st with
  | insert row =>
    simp only [run] at h
    split at h
    · cases h
    · split at h <;> cases h
      rfl
  | upsert row =>
    simp only [run] at h
    split at h <;> cases h
    rfl
  | page limit offset =>
    simp only [run] at h
    split at h
    · cases h
    · rw [eq_of_ask h]
  | upsertPending row => exact absurd rfl (hput row)
  | onePending _ _ => rw [(eq_of_askPending h).2]
  | countPending _ _ => rw [(eq_of_askPending h).2]
  | _ => rw [eq_of_ask h]

theorem readsPool : backend.ReadsPool entries where
  reads {db db' c a} h := by
    obtain ⟨r, hrun, hanswer⟩ := Engine.exists_run_of_answer h
    cases c with
    | get bucket key =>
      obtain ⟨⟨rows, hrows, rfl⟩, -⟩ := eq_of_askPending hrun
      obtain rfl := Except.ok.inj hanswer
      simp only [Call.ReadsFrom, entries, hrows, Option.bind_some]
    | has bucket key =>
      obtain ⟨⟨rows, hrows, rfl⟩, -⟩ := eq_of_askPending hrun
      obtain rfl := Except.ok.inj hanswer
      simp only [Call.ReadsFrom, entries, hrows, Option.bind_some, Option.isSome_map,
        List.isSome_find?]
      rw [Bool.eq_iff_iff, decide_eq_true_iff, List.countP_pos_iff, List.any_eq_true]
    | _ => trivial
  keeps {db db' c a} h hput := by
    obtain ⟨r, hrun, -⟩ := Engine.exists_run_of_answer h
    have hpending : db'.pending = db.pending := by
      refine pending_run hrun fun row heq => ?_
      cases c with
      | put _ _ _ => cases hput
      | _ => cases heq
    funext bucket key
    rw [entries, entries, hpending]

end Database

end Waybill
