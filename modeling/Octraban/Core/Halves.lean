import Mathlib.Data.Int.Bitwise
import Mathlib.Tactic.Ring

/-! Integers of two words: the bit operations on BigInts that take them apart and put them
together again. -/
namespace JavaScript

/-- `BigInt.asIntN(width, n)` -/
def asIntN (width : Nat) (n : Int) : Int := (BitVec.ofInt width n).toInt

variable {width low : Nat}

/-- A mask of ones takes the remainder. -/
theorem land_mask {n : Int} (nonneg : 0 ≤ n) : n.land (2 ^ width - 1 : Nat) = n % 2 ^ width := by
  obtain ⟨m, rfl⟩ := Int.eq_ofNat_of_zero_le nonneg
  exact congrArg Int.ofNat (Nat.and_two_pow_sub_one_eq_mod m width)

theorem ldiff_low (m : Nat) (small : low < 2 ^ width) :
    (2 ^ width * m + (2 ^ width - 1)).ldiff low = 2 ^ width * m + (2 ^ width - (low + 1)) := by
  have ones : 2 ^ width - 1 < 2 ^ width := Nat.sub_lt (Nat.two_pow_pos width) Nat.one_pos
  have rest : 2 ^ width - (low + 1) < 2 ^ width := Nat.sub_lt (Nat.two_pow_pos width) (Nat.succ_pos low)
  apply Nat.eq_of_testBit_eq
  intro i
  rw [Nat.testBit_ldiff, Nat.testBit_two_pow_mul_add m ones, Nat.testBit_two_pow_mul_add m rest,
    Nat.testBit_two_pow_sub_one, Nat.testBit_two_pow_sub_succ small]
  by_cases inside : i < width
  · rw [if_pos inside, if_pos inside]
  · have zero : low.testBit i = false :=
      Nat.testBit_lt_two_pow (small.trans_le (Nat.pow_le_pow_right (by decide) (Nat.not_lt.mp inside)))
    rw [if_neg inside, if_neg inside, zero, Bool.not_false, Bool.and_true]

/-- A word below a shifted number adds to it, for the negative ones as well. -/
theorem lor_shiftLeft (high : Int) (small : low < 2 ^ width) :
    (high <<< width).lor low = high * 2 ^ width + low := by
  rw [Int.shiftLeft_eq]
  cases high with
  | ofNat m =>
    have joined : m * 2 ^ width ||| low = m * 2 ^ width + low := by
      rw [← Nat.shiftLeft_eq, Nat.shiftLeft_add_eq_or_of_lt small]
    exact congrArg Int.ofNat joined
  | negSucc m =>
    have below : Int.negSucc m * 2 ^ width = Int.negSucc (2 ^ width * m + (2 ^ width - 1)) := by
      have positive := Nat.two_pow_pos width
      rw [Int.negSucc_eq, Int.negSucc_eq]
      push_cast [Nat.cast_sub (Nat.one_le_two_pow : 1 ≤ 2 ^ width)]
      ring
    rw [below]
    refine (congrArg Int.negSucc (ldiff_low m small)).trans ?_
    rw [Int.negSucc_eq, Int.negSucc_eq]
    push_cast [Nat.cast_sub (Nat.one_le_two_pow : 1 ≤ 2 ^ width), Nat.cast_sub (small : low + 1 ≤ 2 ^ width)]
    ring

end JavaScript
