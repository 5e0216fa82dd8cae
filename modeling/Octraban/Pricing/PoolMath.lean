import Octraban.Core.JavaScript

/-! The exact swap prices of dex/pool-math.ts, on BigInts: what an input yields of a constant-product pool, and what
an output costs. -/
namespace Octraban.PoolMath
open JavaScript

def BPS : ℤ := 10000

/-- `BPS - BigInt(Math.round(feeBps))`; only an infinity or NaN is no integer then. -/
def feeFactor (feeBps : Number) : Option ℤ :=
  match feeBps.round with
  | .finite rounded => some (BPS - ⌊rounded⌋)
  | _ => none

/-- Division of BigInts, without a value where it throws. -/
def divide (numerator denominator : ℤ) : Option ℤ :=
  if denominator = 0 then none else some (numerator.tdiv denominator)

def getAmountOut (amountIn reserveIn reserveOut : ℤ) (feeBps : Number) : Option ℤ :=
  if amountIn ≤ 0 ∨ reserveIn ≤ 0 ∨ reserveOut ≤ 0 then some 0
  else (feeFactor feeBps).bind fun feeFactor =>
    let amountInWithFee := amountIn * feeFactor
    let numerator := amountInWithFee * reserveOut
    let denominator := reserveIn * BPS + amountInWithFee
    divide numerator denominator

def getAmountIn (amountOut reserveIn reserveOut : ℤ) (feeBps : Number) : Option ℤ :=
  if amountOut ≤ 0 ∨ reserveIn ≤ 0 ∨ reserveOut ≤ 0 then some 0
  -- drains the pool
  else if reserveOut ≤ amountOut then some 0
  else (feeFactor feeBps).bind fun feeFactor =>
    let numerator := reserveIn * amountOut * BPS
    let denominator := (reserveOut - amountOut) * feeFactor
    (divide numerator denominator).map (· + 1)

/-- A pool with liquidity on both sides, and what is left of 10000 basis points after its fee. -/
structure Pool where
  reserveIn : ℤ
  reserveOut : ℤ
  factor : ℤ
  in_pos : 0 < reserveIn
  out_pos : 0 < reserveOut
  factor_pos : 0 < factor
  factor_le : factor ≤ BPS

namespace Pool
variable (pool : Pool)

/-- What an input yields. -/
def yield (amountIn : ℤ) : ℤ := amountIn * pool.factor * pool.reserveOut / (pool.reserveIn * BPS + amountIn * pool.factor)

/-- An input pays for an output when `cost` is at most the input times `worth`. -/
def cost (amountOut : ℤ) : ℤ := pool.reserveIn * amountOut * BPS

def worth (amountOut : ℤ) : ℤ := (pool.reserveOut - amountOut) * pool.factor

def quote (amountOut : ℤ) : ℤ := pool.cost amountOut / pool.worth amountOut + 1

variable {pool} {a b amountIn amountOut : ℤ}

theorem grown_pos (some : 0 ≤ amountIn) : 0 < pool.reserveIn * BPS + amountIn * pool.factor := by
  have held : 0 < pool.reserveIn * BPS := mul_pos pool.in_pos (by decide)
  have added : 0 ≤ amountIn * pool.factor := mul_nonneg some pool.factor_pos.le
  exact add_pos_of_pos_of_nonneg held added

/-- The adjunction between the two prices: an input yields an output iff it is worth its cost. -/
theorem le_yield_iff (given : 0 ≤ amountIn) :
    amountOut ≤ pool.yield amountIn ↔ pool.cost amountOut ≤ amountIn * pool.worth amountOut := by
  rw [yield, Int.le_ediv_iff_mul_le (grown_pos given), cost, worth]
  constructor
  · intro taken
    linarith
  · intro paid
    linarith

theorem worth_nonneg (kept : amountOut ≤ pool.reserveOut) : 0 ≤ pool.worth amountOut :=
  mul_nonneg (sub_nonneg.mpr kept) pool.factor_pos.le

theorem worth_pos (kept : amountOut < pool.reserveOut) : 0 < pool.worth amountOut :=
  mul_pos (sub_pos.mpr kept) pool.factor_pos

theorem yield_lt (given : 0 ≤ amountIn) : pool.yield amountIn < pool.reserveOut := by
  by_contra drained
  have paid := (le_yield_iff given).mp (not_lt.mp drained)
  rw [cost, worth, sub_self, zero_mul, mul_zero] at paid
  have dear : 0 < pool.reserveIn * pool.reserveOut * BPS := mul_pos (mul_pos pool.in_pos pool.out_pos) (by decide)
  exact absurd paid (not_le.mpr dear)

theorem yield_mono (given : 0 ≤ a) (more : a ≤ b) : pool.yield a ≤ pool.yield b := by
  apply (le_yield_iff (given.trans more)).mpr
  calc pool.cost (pool.yield a)
      ≤ a * pool.worth (pool.yield a) := (le_yield_iff given).mp le_rfl
    _ ≤ b * pool.worth (pool.yield a) := mul_le_mul_of_nonneg_right more (worth_nonneg (yield_lt given).le)

/-- The fee stays in the pool, and what is cut off by the division, too. -/
theorem product_le (given : 0 ≤ amountIn) :
    pool.reserveIn * pool.reserveOut ≤ (pool.reserveIn + amountIn) * (pool.reserveOut - pool.yield amountIn) := by
  have paid : pool.reserveIn * pool.yield amountIn * BPS ≤ amountIn * (pool.reserveOut - pool.yield amountIn) * BPS := by
    calc pool.cost (pool.yield amountIn)
        ≤ amountIn * pool.worth (pool.yield amountIn) := (le_yield_iff given).mp le_rfl
      _ = amountIn * (pool.reserveOut - pool.yield amountIn) * pool.factor := (mul_assoc ..).symm
      _ ≤ amountIn * (pool.reserveOut - pool.yield amountIn) * BPS := by
        apply mul_le_mul_of_nonneg_left pool.factor_le
        exact mul_nonneg given (sub_nonneg.mpr (yield_lt given).le)
  have unscaled := le_of_mul_le_mul_right paid (by decide : (0 : ℤ) < BPS)
  linarith

theorem cost_nonneg (wanted : 0 ≤ amountOut) : 0 ≤ pool.cost amountOut :=
  mul_nonneg (mul_nonneg pool.in_pos.le wanted) (by decide)

theorem quote_pos (wanted : 0 ≤ amountOut) (kept : amountOut < pool.reserveOut) : 0 < pool.quote amountOut :=
  Int.lt_add_one_of_le (Int.ediv_nonneg (cost_nonneg wanted) (worth_pos kept).le)

theorem le_yield_quote (wanted : 0 ≤ amountOut) (kept : amountOut < pool.reserveOut) :
    amountOut ≤ pool.yield (pool.quote amountOut) := by
  apply (le_yield_iff (quote_pos wanted kept).le).mpr
  exact (Int.lt_ediv_add_one_mul_self _ (worth_pos kept)).le

/-- The quote is at most one unit more than is needed. -/
theorem yield_lt_of_lt (kept : amountOut < pool.reserveOut) (given : 0 ≤ amountIn)
    (less : amountIn < pool.quote amountOut - 1) : pool.yield amountIn < amountOut := by
  rw [← not_le, le_yield_iff given, not_le]
  calc amountIn * pool.worth amountOut
      < (pool.quote amountOut - 1) * pool.worth amountOut := mul_lt_mul_of_pos_right less (worth_pos kept)
    _ = pool.cost amountOut / pool.worth amountOut * pool.worth amountOut := by rw [quote, add_sub_cancel_right]
    _ ≤ pool.cost amountOut := Int.ediv_mul_le _ (worth_pos kept).ne'

end Pool

/-! ### The code's prices -/

variable {reserveIn reserveOut fee amountIn amountOut : ℤ}

theorem feeFactor_intCast (fee : ℤ) : feeFactor (.finite fee) = some (BPS - fee) := by
  have whole : ⌊(fee : ℚ) + 1 / 2⌋ = fee := by
    rw [Int.floor_intCast_add]
    norm_num
  simp only [feeFactor, Number.round, whole, Int.floor_intCast]

theorem divide_eq {numerator denominator : ℤ} (num : 0 ≤ numerator) (pos : 0 < denominator) :
    divide numerator denominator = some (numerator / denominator) := by
  rw [divide, if_neg pos.ne', Int.tdiv_eq_ediv_of_nonneg num]

theorem getAmountOut_eq (pool : Pool) (given : 0 < amountIn) :
    getAmountOut amountIn pool.reserveIn pool.reserveOut (.finite (BPS - pool.factor : ℤ)) = some (pool.yield amountIn) := by
  have regular : ¬(amountIn ≤ 0 ∨ pool.reserveIn ≤ 0 ∨ pool.reserveOut ≤ 0) := by
    simp only [not_or, not_le]
    exact ⟨given, pool.in_pos, pool.out_pos⟩
  have nonneg : 0 ≤ amountIn * pool.factor * pool.reserveOut :=
    mul_nonneg (mul_nonneg given.le pool.factor_pos.le) pool.out_pos.le
  rw [getAmountOut, if_neg regular, feeFactor_intCast, sub_sub_cancel, Option.bind_some]
  exact divide_eq nonneg (Pool.grown_pos given.le)

theorem getAmountIn_eq (pool : Pool) (wanted : 0 < amountOut) (kept : amountOut < pool.reserveOut) :
    getAmountIn amountOut pool.reserveIn pool.reserveOut (.finite (BPS - pool.factor : ℤ)) = some (pool.quote amountOut) := by
  have regular : ¬(amountOut ≤ 0 ∨ pool.reserveIn ≤ 0 ∨ pool.reserveOut ≤ 0) := by
    simp only [not_or, not_le]
    exact ⟨wanted, pool.in_pos, pool.out_pos⟩
  rw [getAmountIn, if_neg regular, if_neg kept.not_ge, feeFactor_intCast, sub_sub_cancel, Option.bind_some]
  have division : divide (pool.cost amountOut) (pool.worth amountOut) = some (pool.cost amountOut / pool.worth amountOut) :=
    divide_eq (Pool.cost_nonneg wanted.le) (Pool.worth_pos kept)
  exact congrArg (Option.map (· + 1)) division

theorem exists_pool (in_pos : 0 < reserveIn) (out_pos : 0 < reserveOut) (free : 0 ≤ fee) (part : fee < BPS) :
    ∃ pool : Pool, pool.reserveIn = reserveIn ∧ pool.reserveOut = reserveOut ∧ BPS - pool.factor = fee :=
  let pool : Pool := ⟨reserveIn, reserveOut, BPS - fee, in_pos, out_pos, sub_pos.mpr part, sub_le_self _ free⟩
  ⟨pool, rfl, rfl, sub_sub_cancel _ _⟩

/-- The quoted input yields the output, inputs more than one unit below it do not; and no input takes all of the
reserve, a greater one yields no less, and no swap lowers the product of the reserves. -/
theorem swap_prices (in_pos : 0 < reserveIn) (out_pos : 0 < reserveOut) (free : 0 ≤ fee) (part : fee < BPS) :
    (∀ amountOut, 0 < amountOut → amountOut < reserveOut →
      ∃ x, getAmountIn amountOut reserveIn reserveOut (.finite fee) = some x ∧
        (∃ received, getAmountOut x reserveIn reserveOut (.finite fee) = some received ∧ amountOut ≤ received) ∧
        ∀ less < x - 1, ∃ received, getAmountOut less reserveIn reserveOut (.finite fee) = some received ∧
          received < amountOut) ∧
    ∀ amountIn, 0 < amountIn → ∃ received, getAmountOut amountIn reserveIn reserveOut (.finite fee) = some received ∧
      received < reserveOut ∧ reserveIn * reserveOut ≤ (reserveIn + amountIn) * (reserveOut - received) ∧
      ∀ more, amountIn ≤ more → ∃ greater, getAmountOut more reserveIn reserveOut (.finite fee) = some greater ∧
        received ≤ greater := by
  obtain ⟨pool, rfl, rfl, rfl⟩ := exists_pool in_pos out_pos free part
  refine ⟨fun amountOut wanted kept => ⟨_, getAmountIn_eq pool wanted kept, ?_, fun less below => ?_⟩, ?_⟩
  · exact ⟨_, getAmountOut_eq pool (Pool.quote_pos wanted.le kept), Pool.le_yield_quote wanted.le kept⟩
  · by_cases given : 0 < less
    · exact ⟨_, getAmountOut_eq pool given, Pool.yield_lt_of_lt kept given.le below⟩
    · refine ⟨0, ?_, wanted⟩
      rw [getAmountOut, if_pos (.inl (not_lt.mp given))]
  · intro amountIn given
    refine ⟨_, getAmountOut_eq pool given, Pool.yield_lt given.le, Pool.product_le given.le, fun more le => ?_⟩
    exact ⟨_, getAmountOut_eq pool (given.trans_le le), Pool.yield_mono given.le le⟩

/-- At 30 basis points 600 of a reserve of 3000 cost 250.75 of the other, which is rounded up. -/
theorem swap_prices_thirty : getAmountIn 600 1000 3000 (.finite (30 : ℤ)) = some 251 ∧
    getAmountOut 251 1000 3000 (.finite (30 : ℤ)) = some 600 ∧
    ∀ less < (250 : ℤ), ∃ received, getAmountOut less 1000 3000 (.finite (30 : ℤ)) = some received ∧
      received < 600 := by
  obtain ⟨x, quoted, ⟨received, yielded, enough⟩, least⟩ :=
    (swap_prices (by decide : (0 : ℤ) < 1000) (by decide : (0 : ℤ) < 3000) (by decide : (0 : ℤ) ≤ 30) (by decide)).1 600
      (by decide) (by decide)
  have price : getAmountIn 600 1000 3000 (.finite (30 : ℤ)) = some 251 := by decide +kernel
  cases price.symm.trans quoted
  exact ⟨price, by decide +kernel, least⟩

end Octraban.PoolMath
