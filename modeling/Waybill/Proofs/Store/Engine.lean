import Waybill.Ordered.Key
import Waybill.Store.Engine
/-!
# What is documented of an engine

The engine of a database is not part of this library. What is known of it is what a statement may
answer on the tables that a state has, and which tables it leaves: keys are unique; an addition is
refused if its key is taken; where one row is asked for, any row may be found that fits; rows come in
any order, but pages in that of the bytes of their hashes; a statement that fails changes no table.
There may be texts that an engine cannot hold, so it need not accept every statement; whatever it
accepts, it carries out. An answer may depend on more than the tables, and reading may change what
it depends on.

## Main definitions

* `Statement.texts`: the texts in a statement.
* `Tables`: the rows of both tables.
* `Tables.Carries`: what a statement may answer, and which tables it leaves.
* `Engine.Manual`: what is documented of an engine.
* `Engine.Manual.holding`: it is also documented of an engine that holds fewer texts.

## Main results

* `Engine.Manual.answer_cases`: what the gateway over a documented engine does with a call.
-/

namespace Waybill

/-- Of the elements that have a property one is found, if there are any. -/
def Finds {α : Type} (p : α → Bool) (xs : List α) : Option α → Prop
  | none => ∀ x ∈ xs, p x = false
  | some x => x ∈ xs ∧ p x = true

theorem finds_find? {α : Type} (p : α → Bool) (xs : List α) : Finds p xs (xs.find? p) := by
  cases h : xs.find? p with
  | none => simpa [Finds] using h
  | some x => exact ⟨List.mem_of_find?_eq_some h, List.find?_some h⟩

theorem PendingRow.isUnder_iff {bucket key : String} {row : PendingRow} :
    isUnder bucket key row = true ↔ row.place = (bucket, key) := by
  rw [isUnder, Bool.and_eq_true, beq_iff_eq, beq_iff_eq, place, Prod.mk.injEq]

/-- The texts in the columns of a row. -/
def Row.texts (row : Row) : List String :=
  [row.messageHash, row.root, row.leafIndex, row.body, row.internalSender, row.internalRecipient,
    row.gasAtDispatch, row.gasAtUpdate, row.gasAtRelay, row.gasAtReceive, row.gasAtProcess] ++
  [row.sender, row.tx, row.recipient, row.amount, row.detailsHash, row.tokenId].filterMap id

/-- The texts that rows are asked for by. -/
def Row.Filter.texts : Row.Filter → List String
  | hash text | root _ text => [text]
  | send _ recipient amount _ => [recipient, amount]
  | nonce _ _ _ => []

/-- The texts in a statement. -/
def Statement.texts : Statement → List String
  | insert row | upsert row => row.texts
  | one filter | all filter => filter.texts
  | page _ _ | count => []
  | upsertPending row => [row.bucket, row.key, row.value]
  | onePending bucket key | countPending bucket key => [bucket, key]

/-- The rows of the two tables, in an order that does not matter. -/
structure Tables where
  messages : List Row
  pending : List PendingRow

namespace Tables

/-- Tables without any row. -/
def empty : Tables := ⟨[], []⟩

/-- Different rows of a table have different keys. -/
structure Keyed (t : Tables) : Prop where
  messages : (t.messages.map Row.messageHash).Nodup
  pending : (t.pending.map PendingRow.place).Nodup

/-- Rows are in the order of the bytes of their hashes. -/
def InOrder (rows : List Row) : Prop :=
  rows.Pairwise fun a b => OrderedKey.before a.messageHash b.messageHash = true

/-- What may come back for a statement, and which tables are left by it. -/
def Carries (t : Tables) : (st : Statement) → st.Result → Tables → Prop
  | .insert row, _, t' => row.messageHash ∉ t.messages.map Row.messageHash ∧
      t'.messages.Perm (row :: t.messages) ∧ t'.pending = t.pending
  | .upsert row, _, t' =>
      t'.messages.Perm (row :: t.messages.filter fun r => r.messageHash ≠ row.messageHash) ∧
        t'.pending = t.pending
  | .one filter, row?, t' => Finds filter.passes t.messages row? ∧ t' = t
  | .all filter, rows, t' => rows.Perm (t.messages.filter filter.passes) ∧ t' = t
  | .page limit offset, rows, t' => (∃ all, all.Perm t.messages ∧ InOrder all ∧
      rows = (all.drop offset.toNat).take limit.toNat) ∧ t' = t
  | .count, n, t' => n = t.messages.length ∧ t' = t
  | .upsertPending row, _, t' => t'.messages = t.messages ∧
      t'.pending.Perm (row :: t.pending.filter fun r => r.place ≠ row.place)
  | .onePending bucket key, row?, t' =>
      Finds (PendingRow.isUnder bucket key) t.pending row? ∧ t' = t
  | .countPending bucket key, n, t' =>
      n = t.pending.countP (PendingRow.isUnder bucket key) ∧ t' = t

/-- What no engine carries out on these tables: adding a row whose key is taken, and a page beyond
what a column can count. -/
def Forbids (t : Tables) : Statement → Failure → Prop
  | .insert row, f => row.messageHash ∈ t.messages.map Row.messageHash ∧ f = .uniqueViolation
  | .page limit offset, _ => 2 ^ 63 ≤ limit.toNat ∨ 2 ^ 63 ≤ offset.toNat
  | _, _ => False

end Tables

namespace Engine

/-- What is documented of an engine: which tables a state has, which texts it can hold, and what
statements do. -/
structure Manual {σ : Type} (E : Engine σ) where
  /-- A state has these tables. -/
  Has : σ → Tables → Prop
  /-- The engine can hold these texts in one statement. -/
  Holds : List String → Prop
  keyed : ∀ {s t}, Has s t → t.Keyed
  /-- What comes back is right, and so are the tables that are left. -/
  carried : ∀ {s t st r}, Has s t → (E.run s st).1 = .ok r →
    ∃ t', Has (E.run s st).2 t' ∧ t.Carries st r t'
  /-- A statement that fails changes no table. If its texts can be held, it fails only where it has
  to. -/
  failed : ∀ {s t st f}, Has s t → (E.run s st).1 = .error f →
    Has (E.run s st).2 t ∧ (Holds st.texts → t.Forbids st f)

namespace Manual

variable {σ : Type} {E : Engine σ} (D : E.Manual) {s : σ} {t : Tables}

/-- The engine can hold the texts of a statement. -/
def Accepts (st : Statement) : Prop := D.Holds st.texts

/-- A failure with which the engine refuses a statement that it does not accept. -/
def Refuses (f : Failure) : Prop := ∃ s st, ¬ D.Accepts st ∧ (E.run s st).1 = .error f

/-- What a call comes to: its statement is carried out and the answer made of what comes back, or
the statement fails, which it does only where it has to or is not accepted. -/
theorem answer_cases (h : D.Has s t) (c : Call) :
    (∃ r t', t.Carries c.statement r t' ∧ D.Has (E.gateway.answer s c).2 t' ∧
      (E.gateway.answer s c).1 = c.ofResult r) ∨
    ∃ f, (E.gateway.answer s c).1 = .error f ∧ (E.run s c.statement).1 = .error f ∧
      D.Has (E.gateway.answer s c).2 t ∧ (D.Accepts c.statement → t.Forbids c.statement f) := by
  have hanswer : (E.gateway.answer s c).1 = (E.run s c.statement).1.bind c.ofResult := rfl
  have hstate : (E.gateway.answer s c).2 = (E.run s c.statement).2 := rfl
  rw [hanswer, hstate]
  cases hrun : (E.run s c.statement).1 with
  | ok r =>
    obtain ⟨t', ht', hcarries⟩ := D.carried h hrun
    exact .inl ⟨r, t', hcarries, ht', rfl⟩
  | error f =>
    obtain ⟨hkept, hforbids⟩ := D.failed h hrun
    exact .inr ⟨f, rfl, rfl, hkept, hforbids⟩

end Manual

/-! ### Engines that hold fewer texts -/

variable {σ : Type}

/-- An engine that refuses statements unless their texts are such. -/
def holding (E : Engine σ) (holds : List String → Bool) : Engine σ where
  run s st := if holds st.texts then E.run s st else (.error .database, s)

/-- What is documented of an engine is documented of it when it holds fewer texts. -/
def Manual.holding {E : Engine σ} (D : E.Manual) (holds : List String → Bool) :
    (E.holding holds).Manual where
  Has := D.Has
  Holds texts := D.Holds texts ∧ holds texts = true
  keyed := D.keyed
  carried {s t st r} h hrun := by
    by_cases hholds : holds st.texts = true
    · simp only [Engine.holding, if_pos hholds] at hrun ⊢
      exact D.carried h hrun
    · simp only [Engine.holding, if_neg hholds] at hrun
      cases hrun
  failed {s t st f} h hrun := by
    by_cases hholds : holds st.texts = true
    · simp only [Engine.holding, if_pos hholds] at hrun ⊢
      exact ⟨(D.failed h hrun).1, fun haccepts => (D.failed h hrun).2 haccepts.1⟩
    · simp only [Engine.holding, if_neg hholds]
      exact ⟨h, fun haccepts => absurd haccepts.2 hholds⟩

end Engine

end Waybill
