import Mathlib.Order.Basic
import Mathlib.Tactic.Common

/-! Lower case of the basic alphabet. -/
namespace Letters

variable {c : Char}

theorem toLower_of_not_capital (other : ¬ (65 ≤ c.toNat ∧ c.toNat ≤ 90)) : c.toLower = c := by
  delta Char.toLower
  apply dif_neg
  exact fun capital => other ⟨UInt32.le_iff_toNat_le.mp capital.1, UInt32.le_iff_toNat_le.mp capital.2⟩

/-- What holds of the capital letters, one by one, and of all that are their own lower case, holds of every character. -/
theorem forall_of_capitals {p : Char → Char → Prop} (capitals : ∀ n < 91, 65 ≤ n → p (Char.ofNat n) (Char.ofNat n).toLower)
    (others : ∀ c : Char, ¬ (65 ≤ c.toNat ∧ c.toNat ≤ 90) → p c c) (c : Char) : p c c.toLower := by
  by_cases capital : 65 ≤ c.toNat ∧ c.toNat ≤ 90
  · have letter := capitals c.toNat (Nat.lt_succ_of_le capital.2) capital.1
    rwa [Char.ofNat_toNat] at letter
  · rw [toLower_of_not_capital capital]
    exact others c capital

theorem toLower_toLower (c : Char) : c.toLower.toLower = c.toLower := by
  refine forall_of_capitals (p := fun _ lower => lower.toLower = lower) (by decide) ?_ c
  exact fun c other => toLower_of_not_capital other

end Letters
