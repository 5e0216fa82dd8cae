import Octraban.Core.BigInt

/-! Doubles are multiples of 2^-1074: their difference tells which one is greater. -/
namespace JavaScript

/-- The least positive double. -/
def least : ℚ := 2 ^ (-1074 : ℤ)

def Multiple (x : ℚ) : Prop := ∃ k : ℤ, x = k * least

/-- A double that is not negative. -/
def Number.Magnitude : Number → Prop
  | finite x => 0 ≤ x ∧ Multiple x
  | infinite negative => negative = false
  | nan => False

/-- The place of such a double in their order. -/
def Number.size : Number → WithTop ℚ
  | finite x => x
  | _ => ⊤

theorem least_pos : 0 < least := zpow_pos (by decide) _

theorem Multiple.neg {x : ℚ} (multiple : Multiple x) : Multiple (-x) := by
  obtain ⟨k, rfl⟩ := multiple
  exact ⟨-k, by push_cast; ring⟩

theorem Multiple.add {x y : ℚ} (left : Multiple x) (right : Multiple y) : Multiple (x + y) := by
  obtain ⟨k, rfl⟩ := left
  obtain ⟨l, rfl⟩ := right
  exact ⟨k + l, by push_cast; ring⟩

/-- A multiple is zero or at least the least double. -/
theorem Multiple.le_abs {x : ℚ} (multiple : Multiple x) (nonzero : x ≠ 0) : least ≤ |x| := by
  obtain ⟨k, rfl⟩ := multiple
  have one : (1 : ℚ) ≤ |(k : ℚ)| := by
    have integer : k ≠ 0 := by
      rintro rfl
      exact nonzero (by rw [Int.cast_zero, zero_mul])
    exact_mod_cast Int.one_le_abs integer
  rw [abs_mul, abs_of_pos least_pos]
  exact le_mul_of_one_le_left least_pos.le one

/-- A rational rounds to a multiple, and to zero only if it is less than the least double. -/
theorem roundRat_multiple (x : ℚ) : ∃ magnitude : ℚ, 0 ≤ magnitude ∧ Multiple magnitude ∧
    (least ≤ |x| → 0 < magnitude) ∧
    roundRat x = if magnitude < 2 ^ 1024 then .finite (if x < 0 then -magnitude else magnitude) else .infinite (x < 0) := by
  set exponent := max (Int.log 2 |x|) (-1022) with exponent_eq
  set unit : ℚ := 2 ^ (exponent - 52) with unit_eq
  have unit_positive : 0 < unit := zpow_pos (by decide) _
  have low_nonneg : 0 ≤ ⌊|x| / unit⌋ := Int.floor_nonneg.mpr (by positivity)
  have unit_multiple (n : ℤ) : Multiple (n * unit) := by
    obtain ⟨e, above⟩ := Int.eq_ofNat_of_zero_le (show 0 ≤ exponent + 1022 by omega)
    refine ⟨n * 2 ^ e, ?_⟩
    have parts : exponent - 52 = (e : ℤ) + (-1074) := by omega
    have scaled : unit = 2 ^ e * least := by rw [unit_eq, parts, zpow_add₀ (by decide), zpow_natCast, least]
    rw [scaled]
    push_cast
    ring
  have unit_le (large : least ≤ |x|) : unit ≤ |x| := by
    have positive : 0 < |x| := lt_of_lt_of_le least_pos large
    rcases le_total (Int.log 2 |x|) (-1022) with small | normal
    · rw [unit_eq, exponent_eq, max_eq_right small]
      exact large
    · rw [unit_eq, exponent_eq, max_eq_left normal]
      calc (2 : ℚ) ^ (Int.log 2 |x| - 52) ≤ 2 ^ Int.log 2 |x| := zpow_le_zpow_right₀ (by decide) (by omega)
        _ ≤ |x| := by exact_mod_cast Int.zpow_log_le_self (by decide) positive
  set rest := |x| / unit - ⌊|x| / unit⌋
  set steps := if 1 / 2 < rest ∨ (rest = 1 / 2 ∧ ⌊|x| / unit⌋ % 2 = 1) then ⌊|x| / unit⌋ + 1 else ⌊|x| / unit⌋ with steps_eq
  have low_le : ⌊|x| / unit⌋ ≤ steps := by
    rw [steps_eq]
    split <;> omega
  refine ⟨steps * unit, ?_, unit_multiple steps, fun large => ?_, ?_⟩
  · have nonneg : (0 : ℚ) ≤ steps := by exact_mod_cast low_nonneg.trans low_le
    positivity
  · have one : 1 ≤ ⌊|x| / unit⌋ := Int.le_floor.mpr (by rw [Int.cast_one, one_le_div unit_positive]; exact unit_le large)
    have positive : (0 : ℚ) < steps := by exact_mod_cast lt_of_lt_of_le one low_le
    positivity
  · rw [steps_eq, roundRat]

theorem magnitude_roundRat {x : ℚ} (nonneg : 0 ≤ x) : (roundRat x).Magnitude := by
  obtain ⟨magnitude, positive, multiple, -, rounds⟩ := roundRat_multiple x
  rw [rounds, if_neg (not_lt.mpr nonneg)]
  split
  · exact ⟨positive, multiple⟩
  · exact decide_eq_false (not_lt.mpr nonneg)

theorem Number.Magnitude.add {a b : Number} (left : a.Magnitude) (right : b.Magnitude) : (a.add b).Magnitude := by
  cases a with
  | nan => cases left
  | infinite negative =>
    cases left
    cases b with
    | nan => cases right
    | infinite other =>
      cases right
      rfl
    | finite y => rfl
  | finite x =>
    cases b with
    | nan => cases right
    | infinite other => exact right
    | finite y => exact magnitude_roundRat (add_nonneg left.1 right.1)

theorem lt_size_iff {a b : Number} (left : a.Magnitude) (right : b.Magnitude) : a.size < b.size ↔ a.lt b = true := by
  have le_iff {a b : Number} (left : a.Magnitude) (right : b.Magnitude) : a.size ≤ b.size ↔ a.le b = true := by
    cases a with
    | nan => cases left
    | infinite negative =>
      cases left
      cases b with
      | nan => cases right
      | infinite other =>
        cases right
        exact iff_of_true le_rfl rfl
      | finite y => exact iff_of_false (by simp [Number.size]) Bool.false_ne_true
    | finite x =>
      cases b with
      | nan => cases right
      | infinite other =>
        cases right
        exact iff_of_true le_top rfl
      | finite y => exact WithTop.coe_le_coe.trans decide_eq_true_iff.symm
  rw [Number.lt, lt_iff_le_not_ge, le_iff left right, le_iff right left]
  simp

/-- `b - a` is positive just where b is greater. -/
theorem le_size_iff {a b : Number} (left : a.Magnitude) (right : b.Magnitude) :
    b.size ≤ a.size ↔ b.sub a = .nan ∨ (b.sub a).le (.finite 0) = true := by
  cases a with
  | nan => cases left
  | infinite negative =>
    cases left
    refine iff_of_true le_top ?_
    cases b with
    | nan => cases right
    | infinite other =>
      cases right
      exact .inl rfl
    | finite y => exact .inr rfl
  | finite x =>
    cases b with
    | nan => cases right
    | infinite other =>
      cases right
      refine iff_of_false (by simp [Number.size]) ?_
      rintro (same | less)
      · cases same
      · cases less
    | finite y =>
      have multiple : Multiple (y + -x) := right.2.add left.2.neg
      have sizes : (Number.finite y).size ≤ (Number.finite x).size ↔ y ≤ x := WithTop.coe_le_coe
      rw [sizes, Number.sub, Number.neg, Number.add]
      obtain ⟨magnitude, nonneg, -, positive, rounds⟩ := roundRat_multiple (y + -x)
      rcases lt_trichotomy y x with less | rfl | greater
      · have negative : y + -x < 0 := by linarith
        refine iff_of_true less.le (.inr ?_)
        rw [rounds, if_pos negative, decide_eq_true negative]
        split
        · exact decide_eq_true (neg_nonpos.mpr nonneg)
        · rfl
      · rw [add_neg_cancel, roundRat_zero]
        exact iff_of_true le_rfl (.inr rfl)
      · have not_negative : ¬ y + -x < 0 := by linarith
        refine iff_of_false (not_le.mpr greater) ?_
        rw [rounds, if_neg not_negative, decide_eq_false not_negative]
        have above := positive (multiple.le_abs (by linarith))
        split
        · rintro (same | below)
          · cases same
          · exact absurd (of_decide_eq_true below) (not_le.mpr above)
        · rintro (same | below)
          · cases same
          · cases below

end JavaScript
