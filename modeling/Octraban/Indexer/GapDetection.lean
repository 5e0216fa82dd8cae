import Mathlib.Algebra.Ring.Int.Defs
import Mathlib.Data.Nat.Cast.Basic
import Octraban.Core.MaximalRuns
import Octraban.Indexer.RepairSweeps

/-! reconciliation.ts and predictiveGapDetector.js: gaps in the ledgers, found ledger by ledger or between neighbours. -/
namespace Octraban.GapDetection
open RepairSweeps MaximalRuns

/-! ### reconciliation.ts -/

/-- The loop of `findLedgerGaps` over the sequences that are left. -/
def scan (indexedSet : Finset ℤ) (maxLedger : ℤ) : Option ℤ → List ℤ → List (ℤ × ℤ)
  | none, [] => []
  | some gapStart, [] => [(gapStart, maxLedger)]
  | none, seq :: rest => if seq ∉ indexedSet then scan indexedSet maxLedger (some seq) rest else scan indexedSet maxLedger none rest
  | some gapStart, seq :: rest =>
    if seq ∉ indexedSet then scan indexedSet maxLedger (some gapStart) rest
    else (gapStart, seq - 1) :: scan indexedSet maxLedger none rest

variable {s : Tables} {indexedSet : Finset ℤ} {minLedger maxLedger start stop q : ℤ}

theorem series_of_lt (empty : stop < start) : series start stop = [] := by
  have none_left : (stop + 1 - start).toNat = 0 := by omega
  rw [series, none_left]
  rfl

theorem series_cons (some_left : start ≤ stop) : series start stop = start :: series (start + 1) stop := by
  have count : (stop + 1 - start).toNat = (stop + 1 - (start + 1)).toNat + 1 := by omega
  rw [series, count, List.range_succ_eq_map, List.map_cons, List.map_map, series]
  congr 1
  · simp
  · refine List.map_congr_left fun i _ => ?_
    simp only [Function.comp_apply, Nat.succ_eq_add_one]
    omega

theorem mem_missing : q ∈ (series start stop).filter (fun seq => seq ∉ indexedSet) ↔
    start ≤ q ∧ q ≤ stop ∧ q ∉ indexedSet := by
  rw [List.mem_filter, mem_series, decide_eq_true_eq, and_assoc]

/-! ### The three ways to the runs -/

/-- A range that is open is closed by whatever does not continue it. -/
theorem group_eq_cons {gapStart prev : ℤ} {sequences : List ℤ} (apart : ∀ q ∈ sequences, prev + 1 < q) :
    group gapStart prev sequences = (gapStart, prev) :: ranges sequences := by
  cases sequences with
  | nil => rfl
  | cons seq rest =>
    have beyond := apart seq List.mem_cons_self
    rw [group, if_neg (by omega), ranges]

/-- The loop over all sequences groups those that are missing; `count` are left. -/
theorem scan_eq (count : ℕ) : ∀ start, (stop + 1 - start).toNat = count → start ≤ stop + 1 →
    scan indexedSet stop none (series start stop) = ranges ((series start stop).filter fun seq => seq ∉ indexedSet) ∧
    ∀ gapStart, scan indexedSet stop (some gapStart) (series start stop) =
      group gapStart (start - 1) ((series start stop).filter fun seq => seq ∉ indexedSet) := by
  induction count with
  | zero =>
    intro start left inside
    obtain rfl : start = stop + 1 := by omega
    rw [series_of_lt (by omega)]
    refine ⟨rfl, fun gapStart => ?_⟩
    rw [scan, List.filter_nil, group, add_sub_cancel_right]
  | succ count ih =>
    intro start left inside
    obtain ⟨closed, opened⟩ := ih (start + 1) (by omega) (by omega)
    rw [add_sub_cancel_right] at opened
    rw [series_cons (by omega)]
    by_cases missing : start ∉ indexedSet
    · rw [List.filter_cons_of_pos (p := fun seq => decide (seq ∉ indexedSet)) (decide_eq_true missing)]
      constructor
      · rw [scan, if_pos missing, opened, ranges]
      · intro gapStart
        rw [scan, if_pos missing, opened, group, if_pos (by omega)]
    · rw [List.filter_cons_of_neg (p := fun seq => decide (seq ∉ indexedSet)) (by simpa using missing)]
      constructor
      · rw [scan, if_neg missing, closed]
      · intro gapStart
        rw [scan, if_neg missing, closed, group_eq_cons]
        intro q member
        have beyond := (mem_missing.mp member).1
        omega

end Octraban.GapDetection
