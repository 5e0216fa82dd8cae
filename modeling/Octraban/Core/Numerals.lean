import Mathlib.Data.List.DropRight
import Mathlib.Data.Nat.Digits.Lemmas
import Octraban.Core.BigInt

/-! Numerals with a point: what `padStart` and the removal of final zeros do to the number
that the digits after the point stand for. -/
namespace JavaScript

/-- The number a text denotes when it is read as a decimal, exactly. -/
def rational (text : String) : Option ℚ :=
  let (sign, magnitude) := readSign text.toList
  (decimalLiteral magnitude).map fun x => sign * x

/-- What digits after the point stand for. -/
def fraction (digits : List Char) : ℚ := value digits / 10 ^ digits.length

/-- `digits.replace(/0+$/, '')` -/
def stripZeros (digits : List Char) : List Char := digits.rdropWhile (· == '0')

theorem value_append_append (high low : List Char) :
    value (high ++ low) = value high * 10 ^ low.length + value low := by
  induction low using List.reverseRecOn with
  | nil => simp [value]
  | append_singleton low digit ih =>
    rw [← List.append_assoc, value_append, value_append, ih, List.length_append, List.length_singleton, pow_succ]
    ring

theorem value_zeros (count : Nat) : value (List.replicate count '0') = 0 := by
  induction count with
  | zero => rfl
  | succ count ih =>
    rw [List.replicate_succ', value_append, ih]
    rfl

theorem value_leftpad (length : Nat) (digits : List Char) : value (digits.leftpad length '0') = value digits := by
  rw [List.leftpad, value_append_append, value_zeros, Nat.zero_mul, Nat.zero_add]

theorem fraction_stripZeros (digits : List Char) : fraction (stripZeros digits) = fraction digits := by
  induction digits using List.reverseRecOn with
  | nil => rfl
  | append_singleton digits digit ih =>
    by_cases zero : digit = '0'
    · rw [zero, stripZeros, List.rdropWhile_concat_pos _ _ _ rfl, ← stripZeros, ih, fraction, fraction, value_append]
      have place : (10 : ℚ) ^ digits.length ≠ 0 := pow_ne_zero _ (by norm_num)
      rw [List.length_append, List.length_singleton, pow_succ]
      push_cast
      field_simp
      simp
    · rw [stripZeros, List.rdropWhile_concat_neg _ _ _ (by simpa using zero)]

theorem stripZeros_last {digits : List Char} {last : Char}
    (ends : (stripZeros digits).getLast? = some last) : last ≠ '0' := by
  have some_digit : stripZeros digits ≠ [] := by
    intro empty
    rw [empty] at ends
    cases ends
  have kept := List.rdropWhile_last_not (· == '0') digits some_digit
  rw [List.getLast?_eq_some_getLast some_digit] at ends
  rw [← Option.some.inj ends]
  exact fun zero => kept (beq_iff_eq.mpr zero)

theorem mem_of_mem_stripZeros {digits : List Char} {c : Char} (member : c ∈ stripZeros digits) : c ∈ digits :=
  (List.rdropWhile_prefix _ _).subset member

theorem length_decimal_le_iff {places : Nat} (positive : 0 < places) (n : Nat) :
    (decimal n).length ≤ places ↔ n < 10 ^ places := by
  rw [decimal]
  split
  · rename_i zero
    rw [zero]
    exact ⟨fun _ => pow_pos (by decide) _, fun _ => positive⟩
  · rw [List.length_map, List.length_reverse, Nat.digits_length_le_iff (by decide)]

/-- The literal of a whole part and a fraction. -/
theorem decimalLiteral_point {whole digits : List Char} (some_digit : whole ≠ [])
    (front : ∀ c ∈ whole, c.isDigit = true) (back : ∀ c ∈ digits, c.isDigit = true) :
    decimalLiteral (whole ++ '.' :: digits) = some (value whole + fraction digits) := by
  have stops : '.'.isDigit = false := rfl
  have first : (whole ++ '.' :: digits).takeWhile Char.isDigit = whole := by
    rw [List.takeWhile_append_of_pos front, List.takeWhile_cons_of_neg (by simp [stops]), List.append_nil]
  have point : (whole ++ '.' :: digits).dropWhile Char.isDigit = '.' :: digits := by
    rw [List.dropWhile_append_of_pos front, List.dropWhile_cons_of_neg (by simp [stops])]
  have all : digits.takeWhile Char.isDigit = digits := List.takeWhile_eq_self_iff.mpr back
  have none_left : digits.dropWhile Char.isDigit = [] := List.dropWhile_eq_nil_iff.mpr back
  have place : (10 : ℚ) ^ digits.length ≠ 0 := pow_ne_zero _ (by norm_num)
  simp only [decimalLiteral, first, point, all, none_left]
  rw [if_neg (by simp [some_digit]), value_append_append, fraction, zpow_neg, zpow_natCast]
  congr 1
  push_cast
  field_simp

/-- A sign between the digits of the fraction. -/
theorem decimalLiteral_sign {whole zeros : List Char} (some_digit : whole ≠ [])
    (front : ∀ c ∈ whole, c.isDigit = true) (padding : ∀ c ∈ zeros, c.isDigit = true) (digits : List Char) :
    decimalLiteral (whole ++ '.' :: (zeros ++ '-' :: digits)) = none := by
  have first : (whole ++ '.' :: (zeros ++ '-' :: digits)).takeWhile Char.isDigit = whole := by
    rw [List.takeWhile_append_of_pos front, List.takeWhile_cons_of_neg (by decide), List.append_nil]
  have point : (whole ++ '.' :: (zeros ++ '-' :: digits)).dropWhile Char.isDigit = '.' :: (zeros ++ '-' :: digits) := by
    rw [List.dropWhile_append_of_pos front, List.dropWhile_cons_of_neg (by decide)]
  have dash : (zeros ++ '-' :: digits).dropWhile Char.isDigit = '-' :: digits := by
    rw [List.dropWhile_append_of_pos padding, List.dropWhile_cons_of_neg (by decide)]
  simp only [decimalLiteral, first, point, dash]
  simp [some_digit]

end JavaScript
