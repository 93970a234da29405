import Waybill.Census
import Waybill.Proofs.Task.Conduct
/-!
# The census counts all stored messages

Stores answer the pages of a scan with pieces of a fixed list. As long as the list is shorter than
what a page may be asked for, the scan reads each record of it once, and ends behind the last one.

## Main definitions

* `Backend.Pages`: the pages of stores are pieces of a list.
* `Census.pageCalls`: the calls for pages from an offset on.

## Main results

* `Census.run_scan_logged`: what a scan counts, and the pages that it asks for.
* `Census.run_take`: the census counts the records of the list.
-/

namespace Waybill

/-- As long as something holds of the stores, pages with bounds below a limit are pieces of a list,
and reading them keeps it. -/
def Backend.Pages {σ : Type} (b : Backend σ) (P : σ → Prop) (bound : Nat) (rs : List Record) :
    Prop :=
  ∀ s (limit offset : UInt64), P s → limit.toNat < bound → offset.toNat < bound →
    ∃ s', P s' ∧
      b.answer s (.page limit offset) = (.ok ((rs.drop offset.toNat).take limit.toNat), s')

namespace Census

theorem addAll_append (c : Census) (rs rs' : List Record) :
    c.addAll (rs ++ rs') = (c.addAll rs).addAll rs' :=
  List.foldl_append

variable {σ : Type} {b : Backend σ} {P : σ → Prop} {bound : Nat} {rs : List Record}

/-- The calls for pages from an offset on. -/
def pageCalls (size offset count : Nat) : List Call :=
  (List.range count).map fun i => .page (UInt64.ofNat size) (UInt64.ofNat (offset + i * size))

theorem pageCalls_succ (size offset count : Nat) : pageCalls size offset (count + 1) =
    .page (UInt64.ofNat size) (UInt64.ofNat offset) :: pageCalls size (offset + size) count := by
  simp only [pageCalls, List.range_succ_eq_map, List.map_cons, List.map_map, Nat.zero_mul,
    Nat.add_zero]
  congr 1
  refine List.map_congr_left fun i _ => ?_
  simp only [Function.comp_apply, Nat.succ_mul]
  congr 2
  omega

section Scan

variable (hpages : b.Pages P bound rs) (hbound : bound ≤ 2 ^ 64) (hrs : rs.length < bound)
include hpages hbound hrs

/-- A scan counts what comes from its offset on. It asks for pages up to the one that is not full. -/
theorem run_scan_logged {size : Nat} (positive : 0 < size) (hsize : size < bound) {offset : Nat}
    (hoffset : offset ≤ rs.length) {s : σ} (hs : P s) (c : Census) (log : List Call) :
    ∃ s', P s' ∧ (scan size positive offset c).run b.logged (s, log) =
      ⟨.ok (c.addAll (rs.drop offset)),
        (s', log ++ pageCalls size offset ((rs.length - offset) / size + 1)), []⟩ := by
  have htoNat : ∀ {n : Nat}, n < bound → (UInt64.ofNat n).toNat = n := fun hn =>
    UInt64.toNat_ofNat_of_lt' (Nat.lt_of_lt_of_le hn hbound)
  obtain ⟨s₁, hs₁, hpage⟩ := hpages s (.ofNat size) (.ofNat offset) hs (by rwa [htoNat hsize])
    (by rw [htoNat (by omega)]; omega)
  rw [htoNat hsize, htoNat (by omega)] at hpage
  rw [scan, Task.run, Backend.logged_answer_of_ok hpage]
  dsimp only
  have hlength : ((rs.drop offset).take size).length = min size (rs.length - offset) := by simp
  by_cases hlast : ((rs.drop offset).take size).length < size
  · -- the last page holds all that is left
    have hcount : (rs.length - offset) / size = 0 := Nat.div_eq_of_lt (by omega)
    rw [if_pos hlast, List.take_of_length_le (by rw [List.length_drop]; omega), hcount,
      pageCalls_succ]
    exact ⟨s₁, hs₁, rfl⟩
  · have hcount : (rs.length - offset) / size = (rs.length - (offset + size)) / size + 1 := by
      rw [Nat.div_eq_sub_div positive (by omega), Nat.sub_sub]
    obtain ⟨s₂, hs₂, hrest⟩ := run_scan_logged positive hsize (by omega : offset + size ≤ rs.length)
      hs₁ (c.addAll ((rs.drop offset).take size))
      (log ++ [.page (UInt64.ofNat size) (UInt64.ofNat offset)])
    refine ⟨s₂, hs₂, ?_⟩
    rw [if_neg hlast, if_pos (by omega), hrest, ← addAll_append, ← List.drop_drop,
      List.take_append_drop, hcount, pageCalls_succ size offset, List.append_assoc,
      List.singleton_append]
termination_by rs.length - offset

/-- A scan counts what comes from its offset on. -/
theorem run_scan {size : Nat} (positive : 0 < size) (hsize : size < bound) {offset : Nat}
    (hoffset : offset ≤ rs.length) {s : σ} (hs : P s) (c : Census) :
    ∃ s', P s' ∧
      (scan size positive offset c).run b s = ⟨.ok (c.addAll (rs.drop offset)), s', []⟩ := by
  obtain ⟨s', hs', hrun⟩ := run_scan_logged hpages hbound hrs positive hsize hoffset hs c []
  exact ⟨s', hs', by rw [b.run_logged _ s [], hrun]⟩

end Scan

/-- The census counts all records of the list. -/
theorem run_take (hpages : b.Pages P bound rs) (hbound : bound ≤ 2 ^ 64) (hrs : rs.length < bound)
    {s : σ} (hs : P s) (known : List UInt32) {batch : UInt64} (hbatch : max batch.toNat 1 < bound) :
    ∃ s', P s' ∧ (take known batch).run b s = ⟨.ok ((ofDomains known).addAll rs), s', []⟩ :=
  run_scan hpages hbound hrs _ hbatch (Nat.zero_le _) hs _

end Census

end Waybill
