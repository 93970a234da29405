import Mathlib.Logic.Hydra
import Mathlib.Logic.Relation
import Waybill.Tracker.Stand
import Waybill.Proofs.Task.Interleaving
/-!
# Branches on their way

Branches that share their stores go on one move at a time, and nothing is said about which of them
is next. A branch tells a signal, makes a call that is no update, or comes to its update. Then it
waits for leave, which is given as long as fewer updates than a bound are under way, and the update
is carried out later. However the moves follow one another, they come to an end, no branch waits
forever, and all that becomes of the stores is that of some interleaving of the branches.

## Main definitions

* `Tracker.Stand.Next`: a move of one branch.
* `Tracker.Scene`: branches with their stores and all that was told.
* `Tracker.Scene.Next`, `Tracker.Scene.Leads`: a move of any one of the branches, and many moves.

## Main results

* `Tracker.Scene.Leads.writing_le`: never more updates are under way than the bound allows.
* `Tracker.Scene.wellFounded_next`: moves come to an end.
* `Tracker.Scene.exists_next`: as long as no branch has failed, one of them can go on.
* `Tracker.Scene.Leads.interleaves`: moves are an interleaving.
-/

namespace Waybill.Tracker

variable {σ : Type}

/-! ### One branch -/

namespace Stand

/-- An update is under way. -/
def isWriting : Stand → Bool
  | writing _ _ => true
  | _ => false

/-- A move of one branch over stores: its stand, the stores and what is told. Whether an update may
begin is said from outside. -/
inductive Next (b : Backend σ) (leave : Prop) (s : σ) : Stand → Stand → σ → List Signal → Prop
  | tell (x : Signal) (t : Task Unit) : Next b leave s (.ready (.tell x t)) (.ready t) s [x]
  | read {c : Call} (k : c.Answer → Task Unit) (hc : Guarded.isUpdate c = false) :
      Next b leave s (.ready (.ask c k)) (.ready (.resume k (b.answer s c).1)) (b.answer s c).2 []
  | wait {c : Call} (k : c.Answer → Task Unit) (hc : Guarded.isUpdate c = true) :
      Next b leave s (.ready (.ask c k)) (.waiting c k) s []
  | begin {c : Call} (k : c.Answer → Task Unit) (h : leave) :
      Next b leave s (.waiting c k) (.writing c k) s []
  | write {c : Call} (k : c.Answer → Task Unit) :
      Next b leave s (.writing c k) (.ready (.resume k (b.answer s c).1)) (b.answer s c).2 []
  | finish : Next b leave s (.ready (.done ())) .finished s []

/-- A stand is one move further than another, whatever is stored. -/
def Further (b : Backend σ) (st' st : Stand) : Prop :=
  ∃ s s' xs, st.Next b True s st' s' xs

variable {b : Backend σ}

theorem Next.further {leave : Prop} {s s' : σ} {st st' : Stand} {xs : List Signal}
    (h : st.Next b leave s st' s' xs) : st'.Further b st := by
  cases h with
  | tell x t => exact ⟨s, s, [x], .tell x t⟩
  | read k hc => exact ⟨s, _, [], .read k hc⟩
  | wait k hc => exact ⟨s, s, [], .wait k hc⟩
  | begin k _ => exact ⟨s, s, [], .begin k trivial⟩
  | write k => exact ⟨s, _, [], .write k⟩
  | finish => exact ⟨s, s, [], .finish⟩

/-- An update is under way after a move only if there was leave to begin it. -/
theorem Next.leave {leave : Prop} {s s' : σ} {st st' : Stand} {xs : List Signal}
    (h : st.Next b leave s st' s' xs) (hwriting : st'.isWriting = true) : leave := by
  cases h with
  | begin k h => exact h
  | _ => cases hwriting

theorem acc_of_next {st : Stand} (h : ∀ {s s' : σ} {st' : Stand} {xs : List Signal},
    st.Next b True s st' s' xs → Acc (Further b) st') : Acc (Further b) st :=
  ⟨st, fun _ ⟨_, _, _, hnext⟩ => h hnext⟩

theorem acc_finished : Acc (Further b) .finished :=
  acc_of_next fun hnext => by cases hnext

theorem acc_resume {α : Type} {k : α → Task Unit} (h : ∀ a, Acc (Further b) (.ready (k a)))
    (r : Except Failure α) : Acc (Further b) (.ready (.resume k r)) := by
  cases r with
  | ok a => exact h a
  | error f => exact acc_of_next fun hnext => by cases hnext

theorem acc_writing {c : Call} {k : c.Answer → Task Unit}
    (h : ∀ a, Acc (Further b) (.ready (k a))) : Acc (Further b) (.writing c k) := by
  refine acc_of_next fun hnext => ?_
  cases hnext
  exact acc_resume h _

theorem acc_waiting {c : Call} {k : c.Answer → Task Unit}
    (h : ∀ a, Acc (Further b) (.ready (k a))) : Acc (Further b) (.waiting c k) := by
  refine acc_of_next fun hnext => ?_
  cases hnext
  exact acc_writing h

theorem acc_ready (t : Task Unit) : Acc (Further b) (.ready t) := by
  induction t with
  | done a =>
    refine acc_of_next fun hnext => ?_
    cases hnext
    exact acc_finished
  | fail f => exact acc_of_next fun hnext => by cases hnext
  | tell x t ih =>
    refine acc_of_next fun hnext => ?_
    cases hnext
    exact ih
  | ask c k ih =>
    refine acc_of_next fun hnext => ?_
    cases hnext with
    | read _ _ => exact acc_resume ih _
    | wait _ _ => exact acc_waiting ih

/-- A branch makes finitely many moves, whatever is answered to it. -/
theorem wellFounded_further (b : Backend σ) : WellFounded (Further b) := by
  refine ⟨fun st => ?_⟩
  cases st with
  | ready t => exact acc_ready t
  | waiting c k => exact acc_waiting fun a => acc_ready (k a)
  | writing c k => exact acc_writing fun a => acc_ready (k a)
  | finished => exact acc_finished

/-- A move is a signal or a call of what is left of the branch, or nothing. -/
theorem Next.interleaves {leave : Prop} {s s' : σ} {st st' : Stand} {xs : List Signal}
    (h : st.Next b leave s st' s' xs) {ts : List (Task Unit)} {i : Nat}
    (hi : ts[i]? = some st.rest) {o : Outcome σ Failure Unit}
    (ho : b.Interleaves (ts.set i st'.rest) s' o) : b.Interleaves ts s (o.after xs) := by
  cases h with
  | tell x t => exact .tell hi ho
  | read k hc => exact .ask hi ho
  | write k => exact .ask hi ho
  | wait k hc => rwa [rest, Task.set_of_getElem? (t := .ask _ k) hi] at ho
  | begin k _ => rwa [rest, Task.set_of_getElem? (t := .ask _ k) hi] at ho
  | finish => rwa [rest, Task.set_of_getElem? (t := .done ()) hi] at ho

end Stand

/-! ### Many branches -/

/-- Branches on their way: where each of them stands, what is stored, and what was told so far. -/
structure Scene (σ : Type) where
  stands : List Stand
  store : σ
  signals : List Signal

namespace Scene

/-- Branches at their beginning. -/
def start (ts : List (Task Unit)) (s : σ) (xs : List Signal) : Scene σ := ⟨ts.map .ready, s, xs⟩

/-- How many updates are under way. -/
def writing (sc : Scene σ) : Nat := sc.stands.countP Stand.isWriting

/-- What is left to do. -/
def tasks (sc : Scene σ) : List (Task Unit) := sc.stands.map Stand.rest

/-- All branches are over. -/
def IsOver (sc : Scene σ) : Prop := ∀ st ∈ sc.stands, st = .finished

/-- A branch has failed. -/
def HasFailed (sc : Scene σ) : Prop := ∃ f, .ready (.fail f) ∈ sc.stands

/-- A move of any one of the branches, with less than `limit` updates under way if it begins one. -/
def Next (b : Backend σ) (limit : Nat) (sc sc' : Scene σ) : Prop :=
  ∃ i st st' s xs, sc.stands[i]? = some st ∧ st.Next b (sc.writing < limit) sc.store st' s xs ∧
    sc' = ⟨sc.stands.set i st', s, sc.signals ++ xs⟩

/-- One scene comes from another by moves of branches. -/
def Leads (b : Backend σ) (limit : Nat) : Scene σ → Scene σ → Prop :=
  Relation.ReflTransGen (Next b limit)

variable {b : Backend σ} {limit : Nat} {sc sc' : Scene σ}

/-! ### How many updates are under way -/

theorem writing_start (ts : List (Task Unit)) (s : σ) (xs : List Signal) :
    (start ts s xs).writing = 0 := by
  rw [writing, start, List.countP_map]
  exact List.countP_eq_zero.mpr fun t _ => Bool.false_ne_true

theorem Next.writing_le (h : sc.Next b limit sc') (hle : sc.writing ≤ limit) :
    sc'.writing ≤ limit := by
  obtain ⟨i, st, st', s, xs, hi, hnext, rfl⟩ := h
  obtain ⟨hlt, rfl⟩ := List.getElem?_eq_some_iff.mp hi
  change (sc.stands.set i st').countP Stand.isWriting ≤ limit
  rw [List.countP_set hlt]
  change sc.writing - _ + _ ≤ limit
  by_cases hwriting : st'.isWriting = true
  · have hleave := hnext.leave hwriting
    rw [if_pos hwriting]
    omega
  · rw [if_neg hwriting]
    omega

/-- Never more updates are under way than the bound allows. -/
theorem Leads.writing_le (h : sc.Leads b limit sc') (hle : sc.writing ≤ limit) :
    sc'.writing ≤ limit := by
  induction h with
  | refl => exact hle
  | tail _ hnext ih => exact hnext.writing_le ih

/-! ### Moves come to an end -/

/-- In a move one stand is replaced by one that is further. -/
theorem Next.cutExpand (h : sc.Next b limit sc') :
    Relation.CutExpand (Stand.Further b) (sc'.stands : Multiset Stand) sc.stands := by
  obtain ⟨i, st, st', s, xs, hi, hnext, rfl⟩ := h
  obtain ⟨hlt, rfl⟩ := List.getElem?_eq_some_iff.mp hi
  have hset : (sc.stands.set i st' : Multiset Stand) = {st'} + ↑(sc.stands.eraseIdx i) :=
    Multiset.coe_eq_coe.mpr (List.set_perm_cons_eraseIdx hlt st')
  have hold : (sc.stands : Multiset Stand) = {sc.stands[i]} + ↑(sc.stands.eraseIdx i) :=
    Multiset.coe_eq_coe.mpr (List.getElem_cons_eraseIdx_perm hlt).symm
  rw [hset, hold]
  exact Relation.cutExpand_single_add hnext.further _

/-- Moves come to an end, in whatever order. -/
theorem wellFounded_next (b : Backend σ) (limit : Nat) :
    WellFounded fun sc' sc : Scene σ => sc.Next b limit sc' :=
  Subrelation.wf Next.cutExpand
    (InvImage.wf (fun sc : Scene σ => (sc.stands : Multiset Stand))
      (Stand.wellFounded_further b).cutExpand)

/-- As long as branches are under way and none has failed, one of them can go on: an update that is
under way can be carried out, and if there is none, one may begin. -/
theorem exists_next (hlimit : 0 < limit) (hfine : ¬ sc.HasFailed) (hover : ¬ sc.IsOver) :
    ∃ sc', sc.Next b limit sc' := by
  have hmove {st st' : Stand} {s : σ} {xs : List Signal} (hmem : st ∈ sc.stands)
      (hnext : st.Next b (sc.writing < limit) sc.store st' s xs) : ∃ sc', sc.Next b limit sc' := by
    obtain ⟨i, hi⟩ := List.getElem?_of_mem hmem
    exact ⟨_, i, st, st', s, xs, hi, hnext, rfl⟩
  by_cases hwriting : sc.writing = 0
  · have hleave : sc.writing < limit := hwriting ▸ hlimit
    obtain ⟨st, hmem, hst⟩ : ∃ st ∈ sc.stands, st ≠ .finished := by simpa [IsOver] using hover
    cases st with
    | ready t =>
      cases t with
      | done a => exact hmove hmem .finish
      | fail f => exact absurd ⟨f, hmem⟩ hfine
      | tell x t => exact hmove hmem (.tell x t)
      | ask c k =>
        cases hc : Guarded.isUpdate c with
        | true => exact hmove hmem (.wait k hc)
        | false => exact hmove hmem (.read k hc)
    | waiting c k => exact hmove hmem (.begin k hleave)
    | writing c k => exact hmove hmem (.write k)
    | finished => exact absurd rfl hst
  · obtain ⟨st, hmem, hst⟩ := List.countP_pos_iff.mp (Nat.pos_of_ne_zero hwriting)
    cases st with
    | writing c k => exact hmove hmem (.write k)
    | _ => cases hst

/-! ### Moves are an interleaving -/

/-- A move is a part of an interleaving. -/
theorem Next.interleaves (h : sc.Next b limit sc') :
    ∃ xs, sc'.signals = sc.signals ++ xs ∧ ∀ o, b.Interleaves sc'.tasks sc'.store o →
      b.Interleaves sc.tasks sc.store (o.after xs) := by
  obtain ⟨i, st, st', s, xs, hi, hnext, rfl⟩ := h
  refine ⟨xs, rfl, fun o ho => hnext.interleaves (i := i) ?_ ?_⟩
  · rw [tasks, List.getElem?_map, hi, Option.map_some]
  · rwa [tasks, List.map_set] at ho

/-- Moves are an interleaving: what was told in them is told first. -/
theorem Leads.interleaves (h : sc.Leads b limit sc') :
    ∃ xs, sc'.signals = sc.signals ++ xs ∧ ∀ o, b.Interleaves sc'.tasks sc'.store o →
      b.Interleaves sc.tasks sc.store (o.after xs) := by
  induction h using Relation.ReflTransGen.head_induction_on with
  | refl => exact ⟨[], (List.append_nil _).symm, fun o ho => ho⟩
  | head hnext _ ih =>
    obtain ⟨ys, hys, hrest⟩ := ih
    obtain ⟨xs, hxs, hfirst⟩ := hnext.interleaves
    refine ⟨xs ++ ys, by rw [hys, hxs, List.append_assoc], fun o ho => ?_⟩
    rw [← Outcome.after_after]
    exact hfirst _ (hrest o ho)

/-- Branches that are over were interleaved. -/
theorem Leads.interleaves_of_isOver (h : sc.Leads b limit sc') (hover : sc'.IsOver) :
    ∃ xs, sc'.signals = sc.signals ++ xs ∧
      b.Interleaves sc.tasks sc.store ⟨.ok (), sc'.store, xs⟩ := by
  obtain ⟨xs, hxs, hrest⟩ := h.interleaves
  have hdone : ∀ t ∈ sc'.tasks, t = .done () := by
    rw [tasks, List.forall_mem_map]
    intro st hst
    rw [hover st hst]
    rfl
  have hend := hrest _ (.ended hdone)
  rw [Outcome.after, List.append_nil] at hend
  exact ⟨xs, hxs, hend⟩

/-- If a branch has failed, the interleaving may be broken off. -/
theorem Leads.interleaves_of_hasFailed (h : sc.Leads b limit sc') (hfailed : sc'.HasFailed) :
    ∃ xs f, b.Interleaves sc.tasks sc.store ⟨.error f, sc'.store, xs⟩ := by
  obtain ⟨f, hf⟩ := hfailed
  obtain ⟨xs, -, hrest⟩ := h.interleaves
  exact ⟨_, f, hrest _ (.failed (List.mem_map.mpr ⟨_, hf, rfl⟩))⟩

end Scene

end Waybill.Tracker
