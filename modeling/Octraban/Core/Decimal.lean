import Mathlib.Data.Int.Log
import Mathlib.Data.Rat.Floor

/-! Decimal arithmetic of a limited precision: a result is rounded to its first significant
digits, halves away from zero. -/
namespace Decimal

/-- The place value of the last digit that is kept. -/
def unit (precision : Nat) (x : ℚ) : ℚ := 10 ^ (Int.log 10 |x| + 1 - precision)

def round (precision : Nat) (x : ℚ) : ℚ :=
  let magnitude := ⌊|x| / unit precision x + 1 / 2⌋ * unit precision x
  if x < 0 then -magnitude else magnitude

def plus (precision : Nat) (x y : ℚ) : ℚ := round precision (x + y)

def minus (precision : Nat) (x y : ℚ) : ℚ := round precision (x - y)

/-- What rounding adds to a number. -/
def error (precision : Nat) (x : ℚ) : ℚ := round precision x - x

/-- The number has a numeral with that many significant digits. -/
def Fits (precision : Nat) (x : ℚ) : Prop := ∃ n e : ℤ, |n| < 10 ^ precision ∧ x = n * 10 ^ e

variable {precision : Nat} {x y : ℚ}

theorem plus_eq (precision : Nat) (x y : ℚ) : plus precision x y = x + y + error precision (x + y) :=
  (add_sub_cancel (x + y) _).symm

theorem minus_eq (precision : Nat) (x y : ℚ) : minus precision x y = x - y + error precision (x - y) :=
  (add_sub_cancel (x - y) _).symm

theorem unit_pos (precision : Nat) (x : ℚ) : 0 < unit precision x := zpow_pos (by norm_num) _

/-- The digits of a number that fits are on the places that are kept. -/
theorem exists_abs_eq_mul_unit (fits : Fits precision x) : ∃ m : ℤ, |x| = m * unit precision x := by
  obtain ⟨n, e, bound, named⟩ := fits
  have power : (0 : ℚ) < 10 ^ e := zpow_pos (by norm_num) e
  have magnitude : |x| = |n| * 10 ^ e := by
    rw [named, abs_mul, abs_of_pos power, Int.cast_abs]
  rcases eq_or_ne n 0 with zero | nonzero
  · refine ⟨0, ?_⟩
    rw [magnitude, zero]
    simp
  · have positive : 0 < |x| := by
      rw [magnitude]
      exact mul_pos (by exact_mod_cast abs_pos.mpr nonzero) power
    have low : Int.log 10 |x| < precision + e := by
      refine (Int.lt_zpow_iff_log_lt (by decide) positive).mp ?_
      calc |x| = |n| * 10 ^ e := magnitude
        _ < 10 ^ precision * 10 ^ e := by
          refine mul_lt_mul_of_pos_right ?_ power
          exact_mod_cast bound
        _ = ((10 : Nat) : ℚ) ^ (precision + e) := by
          rw [Nat.cast_ofNat, zpow_add₀ (by norm_num), zpow_natCast]
    obtain ⟨places, shift⟩ := Int.eq_ofNat_of_zero_le (a := e - (Int.log 10 |x| + 1 - precision)) (by omega)
    refine ⟨|n| * 10 ^ places, ?_⟩
    have split : (10 : ℚ) ^ e = 10 ^ places * unit precision x := by
      rw [unit, ← zpow_natCast, ← shift, ← zpow_add₀ (by norm_num)]
      congr 1
      ring
    rw [magnitude, split]
    push_cast
    ring

theorem round_of_fits (fits : Fits precision x) : round precision x = x := by
  obtain ⟨m, whole⟩ := exists_abs_eq_mul_unit fits
  have places : ⌊|x| / unit precision x + 1 / 2⌋ = m := by
    rw [whole, mul_div_assoc, div_self (unit_pos precision x).ne', mul_one, Int.floor_intCast_add]
    norm_num
  unfold round
  rw [places]
  dsimp only
  rw [← whole]
  split
  · rename_i negative
    rw [abs_of_neg negative, neg_neg]
  · rename_i nonnegative
    exact abs_of_nonneg (not_lt.mp nonnegative)

theorem error_of_fits (fits : Fits precision x) : error precision x = 0 := sub_eq_zero.mpr (round_of_fits fits)

/-- The exact sums on the way when numbers are added up from the left. -/
def sums (precision : Nat) (sum : ℚ) : List ℚ → List ℚ
  | [] => []
  | x :: rest => (sum + x) :: sums precision (plus precision sum x) rest

theorem foldl_plus (precision : Nat) (sum : ℚ) (numbers : List ℚ) :
    numbers.foldl (plus precision) sum =
      sum + numbers.sum + ((sums precision sum numbers).map (error precision)).sum := by
  induction numbers generalizing sum with
  | nil => simp [sums]
  | cons x rest ih =>
    rw [List.foldl_cons, ih, List.sum_cons, sums, List.map_cons, List.sum_cons, plus_eq precision sum x]
    ring

end Decimal
