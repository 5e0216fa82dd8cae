import Mathlib.Algebra.Order.Archimedean.Basic
import Octraban.Core.Doubles

/-! Rounding to doubles keeps the order and leaves a double as it is. -/
namespace JavaScript
namespace Rounding

/-- The integer nearest to a rational, ties to even. -/
def nearest (r : ℚ) : ℤ := if 1 / 2 < r - ⌊r⌋ ∨ (r - ⌊r⌋ = 1 / 2 ∧ ⌊r⌋ % 2 = 1) then ⌊r⌋ + 1 else ⌊r⌋

def exponent (x : ℚ) : ℤ := max (Int.log 2 x) (-1022)

/-- The unit in the last place of what is rounded. -/
def unit (x : ℚ) : ℚ := 2 ^ (exponent x - 52)

/-- What a positive rational rounds to, before the overflow. -/
def rounded (x : ℚ) : ℚ := nearest (x / unit x) * unit x

variable {x y r : ℚ} {n : ℤ}

theorem roundRat_eq (x : ℚ) : roundRat x =
    if rounded |x| < 2 ^ 1024 then .finite (if x < 0 then -rounded |x| else rounded |x|) else .infinite (x < 0) := rfl

theorem unit_pos (x : ℚ) : 0 < unit x := zpow_pos (by decide) _

/-! ### The nearest integer -/

theorem nearest_bounds (r : ℚ) : ⌊r⌋ ≤ nearest r ∧ nearest r ≤ ⌊r⌋ + 1 := by
  unfold nearest
  split <;> omega

theorem nearest_mono (le : x ≤ y) : nearest x ≤ nearest y := by
  rcases (Int.floor_le_floor le).lt_or_eq with less | same
  · have lower := (nearest_bounds y).1
    have upper := (nearest_bounds x).2
    omega
  · unfold nearest
    rw [same]
    split
    · rename_i up
      have closer : x - ⌊y⌋ ≤ y - ⌊y⌋ := sub_le_sub_right le _
      rw [if_pos]
      rcases up with above | ⟨half, odd⟩
      · exact .inl (above.trans_le closer)
      · rcases closer.lt_or_eq with above | tie
        · exact .inl (half ▸ above)
        · exact .inr ⟨tie ▸ half, odd⟩
    · split <;> omega

theorem nearest_intCast (n : ℤ) : nearest n = n := by
  rw [nearest, Int.floor_intCast, sub_self, if_neg (by norm_num)]

/-! ### Between powers of two -/

theorem le_exponent (x : ℚ) : Int.log 2 x ≤ exponent x ∧ -1022 ≤ exponent x := by
  rw [exponent]
  omega

theorem lt_exponent (positive : 0 < x) : x < 2 ^ (exponent x + 1) := by
  have most := (le_exponent x).1
  have less := (Int.lt_zpow_iff_log_lt (b := 2) (x := exponent x + 1) (by decide) positive).mpr (by omega)
  exact_mod_cast less

theorem exponent_le {e : ℤ} (positive : 0 < x) (small : x < 2 ^ (e + 1)) (normal : -1022 ≤ e) : exponent x ≤ e := by
  have log := (Int.lt_zpow_iff_log_lt (b := 2) (by decide) positive).mp (by exact_mod_cast small)
  rw [exponent]
  omega

theorem exponent_mono (positive : 0 < x) (le : x ≤ y) : exponent x ≤ exponent y :=
  exponent_le positive (le.trans_lt (lt_exponent (positive.trans_le le))) (le_exponent y).2

theorem exponent_zpow {e : ℤ} (normal : -1022 ≤ e) : exponent (2 ^ e) = e := by
  have log : Int.log 2 ((2 : ℚ) ^ e) = e := by exact_mod_cast Int.log_zpow (R := ℚ) (b := 2) (by decide) e
  rw [exponent, log]
  exact max_eq_left normal

theorem zpow_mul_unit (x : ℚ) (k : ℤ) : (2 : ℚ) ^ k * unit x = 2 ^ (exponent x + (k - 52)) := by
  rw [unit, ← zpow_add₀ (by decide)]
  congr 1
  omega

theorem rounded_zero : rounded 0 = 0 := by
  rw [rounded, zero_div, ← Int.cast_zero, nearest_intCast, Int.cast_zero, zero_mul]

theorem nearest_le (positive : 0 < x) : nearest (x / unit x) ≤ 2 ^ 53 := by
  have below : x / unit x ≤ ((2 ^ 53 : ℤ) : ℚ) := by
    rw [div_le_iff₀ (unit_pos x)]
    have top := zpow_mul_unit x 53
    norm_num at top ⊢
    rw [top]
    exact (lt_exponent positive).le
  exact (nearest_mono below).trans (nearest_intCast _).le

/-- What is below a power of two rounds to at most this power. -/
theorem rounded_le (positive : 0 < x) : rounded x ≤ 2 ^ (exponent x + 1) := by
  have top := zpow_mul_unit x 53
  norm_num at top
  rw [rounded, ← top]
  refine mul_le_mul_of_nonneg_right ?_ (unit_pos x).le
  exact_mod_cast nearest_le positive

theorem le_rounded (positive : 0 < x) (normal : -1022 < exponent x) : 2 ^ exponent x ≤ rounded x := by
  have log : Int.log 2 x = exponent x := by
    rw [exponent] at normal ⊢
    omega
  have low : (2 : ℚ) ^ exponent x ≤ x := log ▸ by exact_mod_cast Int.zpow_log_le_self (by decide) positive
  have bottom := zpow_mul_unit x 52
  rw [sub_self, add_zero] at bottom
  have least : ((2 ^ 52 : ℤ) : ℚ) ≤ x / unit x := by
    rw [le_div_iff₀ (unit_pos x)]
    norm_num at bottom ⊢
    rw [bottom]
    exact low
  have many := (nearest_intCast _).ge.trans (nearest_mono least)
  rw [rounded, ← bottom]
  refine mul_le_mul_of_nonneg_right ?_ (unit_pos x).le
  exact_mod_cast many

theorem rounded_nonneg (nonneg : 0 ≤ x) : 0 ≤ rounded x := by
  have zero := nearest_mono (div_nonneg nonneg (unit_pos x).le)
  rw [← Int.cast_zero, nearest_intCast] at zero
  exact mul_nonneg (by exact_mod_cast zero) (unit_pos x).le

theorem rounded_mono (nonneg : 0 ≤ x) (le : x ≤ y) : rounded x ≤ rounded y := by
  rcases nonneg.lt_or_eq with positive | rfl
  · rcases (exponent_mono positive le).lt_or_eq with less | same
    · calc rounded x ≤ 2 ^ (exponent x + 1) := rounded_le positive
        _ ≤ 2 ^ exponent y := zpow_le_zpow_right₀ (by decide) (by omega)
        _ ≤ rounded y := le_rounded (positive.trans_le le) ((le_exponent x).2.trans_lt less)
    · have units : unit x = unit y := by rw [unit, unit, same]
      rw [rounded, rounded, units]
      refine mul_le_mul_of_nonneg_right ?_ (unit_pos y).le
      exact_mod_cast nearest_mono (div_le_div_of_nonneg_right le (unit_pos y).le)
  · rw [rounded_zero]
    exact rounded_nonneg le

/-! ### Doubles -/

theorem rounded_of_multiple (multiple : x = n * unit x) : rounded x = x := by
  have quotient : x / unit x = n := by
    rw [div_eq_iff (unit_pos x).ne']
    exact multiple
  rw [rounded, quotient, nearest_intCast]
  exact multiple.symm

theorem rounded_rounded (nonneg : 0 ≤ x) : rounded (rounded x) = rounded x := by
  rcases nonneg.lt_or_eq with positive | rfl
  · rcases (rounded_nonneg nonneg).lt_or_eq with some | none
    · rcases (nearest_le positive).lt_or_eq with less | top
      · -- the unit of the result is not above that of the argument
        have small : rounded x < 2 ^ (exponent x + 1) := by
          have power := zpow_mul_unit x 53
          norm_num at power
          rw [rounded, ← power]
          refine mul_lt_mul_of_pos_right ?_ (unit_pos x)
          exact_mod_cast less
        have finer := exponent_le some small (le_exponent x).2
        refine rounded_of_multiple (n := nearest (x / unit x) * 2 ^ (exponent x - exponent (rounded x)).toNat) ?_
        push_cast
        rw [mul_assoc, ← zpow_natCast, Int.toNat_of_nonneg (by omega), zpow_mul_unit]
        rw [rounded, unit]
        congr 2
        omega
      · have power : rounded x = 2 ^ (exponent x + 1) := by
          have power := zpow_mul_unit x 53
          norm_num at power
          rw [rounded, top, ← power]
          norm_num
        have normal := (le_exponent x).2
        rw [power]
        refine rounded_of_multiple (n := 2 ^ 52) ?_
        have whole := zpow_mul_unit (2 ^ (exponent x + 1)) 52
        rw [exponent_zpow (by omega), sub_self, add_zero] at whole
        norm_num at whole ⊢
        exact whole.symm
    · rw [← none, rounded_zero]
  · rw [rounded_zero, rounded_zero]

end Rounding

open Rounding

/-- A number that is a double. -/
def Number.Double (a : Number) : Prop := ∀ x, a = .finite x → roundRat x = .finite x

theorem roundRat_of_rounded (fixed : rounded |x| = |x|) (small : |x| < 2 ^ 1024) : roundRat x = .finite x := by
  rw [roundRat_eq, fixed, if_pos small]
  congr 1
  split
  · rename_i negative
    rw [abs_of_neg negative, neg_neg]
  · rename_i nonneg
    exact abs_of_nonneg (not_lt.mp nonneg)

theorem double_roundRat (x : ℚ) : (roundRat x).Double := by
  intro y same
  rw [roundRat_eq] at same
  split at same
  · rename_i small
    have nonneg := rounded_nonneg (abs_nonneg x)
    have size : |y| = rounded |x| := by
      rw [← Number.finite.inj same]
      split
      · rw [abs_neg, abs_of_nonneg nonneg]
      · exact abs_of_nonneg nonneg
    rw [← size] at small
    exact roundRat_of_rounded (by rw [size]; exact rounded_rounded (abs_nonneg x)) small
  · cases same

theorem Number.Double.multiple (double : (finite x).Double) : Multiple x := by
  obtain ⟨magnitude, -, multiple, -, rounds⟩ := roundRat_multiple x
  have same := double x rfl
  rw [same] at rounds
  split at rounds
  · rw [Number.finite.inj rounds]
    split
    · exact multiple.neg
    · exact multiple
  · cases rounds

theorem Number.Double.add (a b : Number) : (a.add b).Double := by
  intro z same
  rcases a with _ | other | x
  · cases same
  · rcases b with _ | negative | y
    · cases same
    · rw [Number.add] at same
      split at same <;> cases same
    · cases same
  · rcases b with _ | negative | y
    · cases same
    · cases same
    · exact double_roundRat (x + y) z same

theorem roundRat_of_nonneg (nonneg : 0 ≤ x) :
    roundRat x = if rounded x < 2 ^ 1024 then .finite (rounded x) else .infinite false := by
  rw [roundRat_eq, abs_of_nonneg nonneg, if_neg (not_lt.mpr nonneg), decide_eq_false (not_lt.mpr nonneg)]

theorem roundRat_of_neg (negative : x < 0) :
    roundRat x = if rounded (-x) < 2 ^ 1024 then .finite (-rounded (-x)) else .infinite true := by
  rw [roundRat_eq, abs_of_neg negative, if_pos negative, decide_eq_true negative]

theorem roundRat_mono (le : x ≤ y) : (roundRat x).le (roundRat y) = true := by
  rcases lt_or_ge x 0 with negative | nonneg
  · rw [roundRat_of_neg negative]
    have below := rounded_nonneg (neg_nonneg.mpr negative.le)
    rcases lt_or_ge y 0 with both | above
    · have order := rounded_mono (neg_nonneg.mpr both.le) (neg_le_neg le)
      rw [roundRat_of_neg both]
      split
      · rename_i small
        rw [if_pos (order.trans_lt small)]
        exact decide_eq_true (neg_le_neg order)
      · split <;> rfl
    · have above := rounded_nonneg above
      rw [roundRat_of_nonneg ‹_›]
      split <;> split
      · exact decide_eq_true ((neg_nonpos.mpr below).trans above)
      · rfl
      · rfl
      · rfl
  · have order := rounded_mono nonneg le
    rw [roundRat_of_nonneg nonneg, roundRat_of_nonneg (nonneg.trans le)]
    split
    · split
      · exact decide_eq_true order
      · rfl
    · rename_i large
      rw [if_neg fun small => large (order.trans_lt small)]
      rfl

/-! ### Adding the same number again and again -/

/-- The value is among a number, this number and the step, and so on, while they do not exceed `stop`. -/
inductive Hits (stop step value : Number) : Number → Prop where
  | here : value.le stop = true → Hits stop step value value
  | next {v : Number} : v.le stop = true → Hits stop step value (v.add step) → Hits stop step value v

/-- Some of the numbers exceeds `stop`, or is not a number. -/
inductive Leaves (stop step : Number) : Number → Prop where
  | now {v : Number} : v.le stop = false → Leaves stop step v
  | later {v : Number} : Leaves stop step (v.add step) → Leaves stop step v

/-- The step does not lead up, or a double that it does not change is in the way. -/
def Stalls (stop step start : Number) : Prop :=
  start.le stop = true ∧ start.add step ≠ .nan ∧
    (step.le (.finite 0) = true ∨ ∃ u : Number, start.le u = true ∧ u.le stop = true ∧ u.add step = u)

section
variable {stop step start value v : Number} {q : ℚ}

/-- Numbers with a property that the step keeps, and which keeps them from exceeding `stop`, do not leave. -/
theorem not_leaves {P : Number → Prop} (stays : ∀ v, P v → v.le stop = true ∧ P (v.add step)) (starts : P v) :
    ¬ Leaves stop step v := by
  intro leaves
  induction leaves with
  | now out => exact Bool.false_ne_true (out.symm.trans (stays _ starts).1)
  | later _ ih => exact ih (stays _ starts).2

theorem Number.infinite_true_le {a : Number} : (infinite true).le a = true ↔ a ≠ nan := by
  cases a <;> simp [Number.le]

theorem Number.le_infinite_false {a : Number} : a.le (infinite false) = true ↔ a ≠ nan := by
  rcases a with _ | (_ | _) | _ <;> simp [Number.le]

theorem Number.infinite_false_le {a : Number} : (infinite false).le a = true ↔ a = infinite false := by
  rcases a with _ | (_ | _) | _ <;> simp [Number.le]

theorem Number.le_infinite_true {a : Number} : a.le (infinite true) = true ↔ a = infinite true := by
  rcases a with _ | (_ | _) | _ <;> simp [Number.le]

theorem Number.ne_nan_of_le {a b : Number} (le : a.le b = true) : a ≠ nan ∧ b ≠ nan := by
  constructor
  · rintro rfl
    exact Bool.false_ne_true le
  · rintro rfl
    cases a <;> exact Bool.false_ne_true le

theorem Number.le_trans {a b c : Number} (first : a.le b = true) (second : b.le c = true) : a.le c = true := by
  have proper := (ne_nan_of_le second).2
  rcases a with _ | (_ | _) | x
  · exact absurd rfl (ne_nan_of_le first).1
  · exact infinite_false_le.mp first ▸ second
  · exact infinite_true_le.mpr proper
  · rcases b with _ | (_ | _) | y
    · exact absurd rfl (ne_nan_of_le first).2
    · rw [infinite_false_le.mp second]
      rfl
    · exact absurd (le_infinite_true.mp first) (fun same => nomatch same)
    · rcases c with _ | (_ | _) | z
      · exact absurd rfl proper
      · rfl
      · exact absurd (le_infinite_true.mp second) (fun same => nomatch same)
      · exact decide_eq_true ((of_decide_eq_true first).trans (of_decide_eq_true second))

theorem Number.le_refl {a : Number} (proper : a ≠ .nan) : a.le a = true := by
  cases a with
  | nan => exact absurd rfl proper
  | infinite negative => cases negative <;> rfl
  | finite x => exact decide_eq_true le_rfl

theorem roundRat_ne_nan (x : ℚ) : roundRat x ≠ .nan := by
  rw [roundRat_eq]
  split <;> exact fun same => nomatch same

theorem Number.add_ne_nan {a : Number} (proper : a ≠ .nan) (q : ℚ) : a.add (.finite q) ≠ .nan := by
  cases a with
  | nan => exact absurd rfl proper
  | infinite negative => exact fun same => nomatch same
  | finite x => exact roundRat_ne_nan _

theorem Number.add_mono {a b : Number} (le : a.le b = true) (q : ℚ) :
    (a.add (.finite q)).le (b.add (.finite q)) = true := by
  obtain ⟨left, right⟩ := ne_nan_of_le le
  rcases a with _ | (_ | _) | x
  · exact absurd rfl left
  · rw [infinite_false_le.mp le]
    rfl
  · exact infinite_true_le.mpr (add_ne_nan right q)
  · rcases b with _ | (_ | _) | y
    · exact absurd rfl right
    · exact le_infinite_false.mpr (add_ne_nan left q)
    · exact absurd (le_infinite_true.mp le) (fun same => nomatch same)
    · exact roundRat_mono (add_le_add_left (of_decide_eq_true le) q)

/-- A step that does not lead up. -/
theorem Number.add_le {a : Number} (double : a.Double) (proper : a ≠ nan) (down : q ≤ 0) :
    (a.add (.finite q)).le a = true := by
  cases a with
  | nan => exact absurd rfl proper
  | infinite negative => exact le_refl proper
  | finite x =>
    have less := roundRat_mono (add_le_of_nonpos_right down : x + q ≤ x)
    have same := double x rfl
    rw [same] at less
    exact less

/-! The three kinds of a step. -/

theorem Number.add_infinite {a : Number} {negative : Bool} (proper : a.add (.infinite negative) ≠ nan) :
    a.add (.infinite negative) = .infinite negative := by
  cases a with
  | nan => exact absurd rfl proper
  | infinite other =>
    by_cases same : other = negative
    · rw [add, if_pos same, same]
    · exact absurd (if_neg same) proper
  | finite x => rfl

theorem Number.infinite_add (negative : Bool) : (infinite negative).add (.infinite negative) = .infinite negative :=
  if_pos rfl

theorem not_leaves_of_stalls (double : start.Double) (stalls : Stalls stop step start) : ¬ Leaves stop step start := by
  obtain ⟨inside, proper, way⟩ := stalls
  cases step with
  | nan => cases start <;> exact absurd rfl proper
  | infinite negative =>
    have stays : (Number.infinite negative).le stop = true := by
      cases negative with
      | true => exact Number.infinite_true_le.mpr (Number.ne_nan_of_le inside).2
      | false =>
        rcases way with down | ⟨u, above, below, fixed⟩
        · exact absurd down Bool.false_ne_true
        · have top := Number.add_infinite (fixed ▸ (Number.ne_nan_of_le above).2)
          exact top.symm.trans fixed ▸ below
    refine not_leaves (P := fun v => v = start ∨ v = .infinite negative) ?_ (.inl rfl)
    rintro v (rfl | rfl)
    · exact ⟨inside, .inr (Number.add_infinite proper)⟩
    · exact ⟨stays, .inr (Number.infinite_add negative)⟩
  | finite q =>
    rcases way with down | ⟨u, above, below, fixed⟩
    · refine not_leaves (P := fun v => v.Double ∧ v.le start = true) ?_
        ⟨double, Number.le_refl (Number.ne_nan_of_le inside).1⟩
      rintro v ⟨double, below⟩
      have less := Number.add_le double (Number.ne_nan_of_le below).1 (of_decide_eq_true down)
      exact ⟨Number.le_trans below inside, Number.Double.add v _, Number.le_trans less below⟩
    · refine not_leaves (P := fun v => v.le u = true) ?_ above
      intro v less
      exact ⟨Number.le_trans less below, fixed ▸ Number.add_mono less q⟩

/-- Doubles that differ are a unit apart, so a step that changes every one of them passes any bound. -/
theorem leaves_of_step {b y : ℚ} (up : 0 < q)
    (moves : ∀ y : ℚ, y ≤ b → x ≤ y → (Number.finite y).add (.finite q) ≠ .finite y) (double : (Number.finite y).Double) (above : x ≤ y) (k : ℕ) (enough : b < y + k * least) :
    Leaves (.finite b) (.finite q) (.finite y) := by
  induction k generalizing y with
  | zero =>
    rw [Nat.cast_zero, zero_mul] at enough
    exact .now (decide_eq_false (not_le.mpr (by linarith)))
  | succ k ih =>
    rcases lt_or_ge b y with out | inside
    · exact .now (decide_eq_false (not_le.mpr out))
    · have same := double y rfl
      have less := roundRat_mono (le_add_of_nonneg_right up.le : y ≤ y + q)
      have moved := moves y inside above
      have next : (Number.finite y).add (.finite q) = roundRat (y + q) := rfl
      rw [same] at less
      refine .later ?_
      rw [next] at moved ⊢
      cases sum : roundRat (y + q) with
      | nan => exact absurd sum (roundRat_ne_nan _)
      | infinite negative =>
        rw [sum] at less
        cases negative with
        | true => exact absurd (Number.le_infinite_true.mp less) (fun same => nomatch same)
        | false => exact .now rfl
      | finite z =>
        rw [sum] at less moved
        have le : y ≤ z := of_decide_eq_true less
        have ne : z ≠ y := fun same => moved (same ▸ rfl)
        have doubleNext : (Number.finite z).Double := sum ▸ double_roundRat (y + q)
        have difference := doubleNext.multiple.add double.multiple.neg
        rw [← sub_eq_add_neg] at difference
        have apart := difference.le_abs (sub_ne_zero.mpr ne)
        rw [abs_of_nonneg (sub_nonneg.mpr le)] at apart
        refine ih doubleNext (above.trans le) ?_
        push_cast at enough
        linarith

theorem leaves_of_not_stalls (double : start.Double) (moves : ¬ Stalls stop step start) : Leaves stop step start := by
  by_contra never
  have inside : start.le stop = true := Bool.eq_true_of_not_eq_false fun out => never (.now out)
  have proper : start.add step ≠ .nan := fun same => never (.later (.now (same ▸ rfl)))
  have fixed (u : Number) (above : start.le u = true) (below : u.le stop = true) : u.add step ≠ u :=
    fun same => moves ⟨inside, proper, .inr ⟨u, above, below, same⟩⟩
  have up : step.le (.finite 0) ≠ true := fun down => moves ⟨inside, proper, .inl down⟩
  obtain ⟨left, right⟩ := Number.ne_nan_of_le inside
  rcases step with _ | (_ | _) | q
  · cases start <;> exact proper rfl
  · have sum := Number.add_infinite proper
    have below : (Number.infinite false).le stop = true :=
      Bool.eq_true_of_not_eq_false fun out => never (.later (.now (by rw [sum]; exact out)))
    exact fixed (.infinite false) (Number.le_infinite_false.mpr left) below rfl
  · exact up rfl
  · have positive : 0 < q := not_le.mp fun down => up (decide_eq_true down)
    rcases start with _ | negative | x
    · exact left rfl
    · exact fixed _ (Number.le_refl left) inside rfl
    · rcases stop with _ | (_ | _) | b
      · exact right rfl
      · exact fixed (.infinite false) rfl rfl rfl
      · exact Bool.false_ne_true inside
      · obtain ⟨k, enough⟩ := exists_nat_gt ((b - x) / least)
        rw [div_lt_iff₀ least_pos] at enough
        exact never (leaves_of_step (x := x) positive
          (fun y below above => fixed (.finite y) (decide_eq_true above) (decide_eq_true below)) double le_rfl k (by linarith))

theorem leaves_iff (double : start.Double) : Leaves stop step start ↔ ¬ Stalls stop step start :=
  ⟨fun leaves stalls => not_leaves_of_stalls double stalls leaves, leaves_of_not_stalls double⟩

end

end JavaScript
