import Octraban.Core.JavaScript

/-! `BigInt(text)` and `String(bigint)`, and where they agree with the same texts as doubles. -/
namespace JavaScript

def trimmed (text : String) : List Char :=
  ((text.toList.dropWhile isWhitespace).reverse.dropWhile isWhitespace).reverse

def radixInteger (radix : Nat) (text : List Char) : Option Int :=
  match text.mapM hexDigit with
  | some (digit :: digits) =>
    if (digit :: digits).all (· < radix) then
      some ((digit :: digits).foldl (fun n digit => radix * n + digit) 0 : Nat)
    else none
  | _ => none

/-- An optional sign and digits. -/
def integerLiteral (text : List Char) : Option Int :=
  let (sign, digits) := readSign text
  if digits ≠ [] ∧ digits.all Char.isDigit then some (sign * value digits) else none

/-- `BigInt(text)`, without a value where it throws. -/
def bigInt (text : String) : Option Int :=
  match trimmed text with
  | [] => some 0
  | '0' :: 'x' :: digits | '0' :: 'X' :: digits => radixInteger 16 digits
  | '0' :: 'o' :: digits | '0' :: 'O' :: digits => radixInteger 8 digits
  | '0' :: 'b' :: digits | '0' :: 'B' :: digits => radixInteger 2 digits
  | literal => integerLiteral literal

/-- `String(bigint)` -/
def bigIntText (n : Int) : String :=
  String.ofList (if n < 0 then '-' :: decimal n.natAbs else decimal n.natAbs)

theorem decimal_ne_nil (n : Nat) : decimal n ≠ [] := by
  unfold decimal
  split
  · exact List.cons_ne_nil _ _
  · rename_i positive
    simp [positive, Nat.digits_ne_nil_iff_ne_zero]

theorem trimmed_ofList {text : List Char} (solid : ∀ c ∈ text, isWhitespace c = false) :
    trimmed (String.ofList text) = text := by
  have reversed : ∀ c ∈ text.reverse, isWhitespace c = false :=
    fun c member => solid c (List.mem_reverse.mp member)
  rw [trimmed, String.toList_ofList, dropWhile_whitespace solid, dropWhile_whitespace reversed,
    List.reverse_reverse]

theorem integerLiteral_digits {digits : List Char} (some_digit : digits ≠ []) (all : digits.all Char.isDigit = true) :
    integerLiteral digits = some (value digits : Int) := by
  rw [integerLiteral, readSign_digits all]
  simpa [some_digit] using all

theorem integerLiteral_negative {digits : List Char} (some_digit : digits ≠ [])
    (all : digits.all Char.isDigit = true) : integerLiteral ('-' :: digits) = some (-(value digits : Int)) := by
  have sign : readSign ('-' :: digits) = (-1, digits) := rfl
  rw [integerLiteral, sign]
  simpa [some_digit] using all

/-- A literal without the prefix of another base. -/
def Plain (literal : List Char) : Prop :=
  literal ≠ [] ∧ ∀ mark digits, literal = '0' :: mark :: digits → mark ∉ ['x', 'X', 'o', 'O', 'b', 'B']

theorem bigInt_of_plain {text : String} (plain : Plain (trimmed text)) :
    bigInt text = integerLiteral (trimmed text) := by
  have marked {mark : Char} {digits : List Char} (same : trimmed text = '0' :: mark :: digits)
      (listed : mark ∈ ['x', 'X', 'o', 'O', 'b', 'B']) : False := plain.2 mark digits same listed
  unfold bigInt
  split
  · rename_i same
    exact absurd same plain.1
  · rename_i digits same
    exact (marked same (by decide)).elim
  · rename_i digits same
    exact (marked same (by decide)).elim
  · rename_i digits same
    exact (marked same (by decide)).elim
  · rename_i digits same
    exact (marked same (by decide)).elim
  · rename_i digits same
    exact (marked same (by decide)).elim
  · rename_i digits same
    exact (marked same (by decide)).elim
  · rfl

theorem number_of_plain {text : String} (plain : Plain (trimmed text)) : number text =
    if (readSign (trimmed text)).2 = "Infinity".toList then .infinite ((readSign (trimmed text)).1 < 0)
    else match decimalLiteral (readSign (trimmed text)).2 with
      | some x => roundRat ((readSign (trimmed text)).1 * x)
      | none => .nan := by
  have marked {mark : Char} {digits : List Char} (same : trimmed text = '0' :: mark :: digits)
      (listed : mark ∈ ['x', 'X', 'o', 'O', 'b', 'B']) : False := plain.2 mark digits same listed
  unfold number
  rw [← trimmed]
  split
  · rename_i same
    exact absurd same plain.1
  · rename_i digits same
    exact (marked same (by decide)).elim
  · rename_i digits same
    exact (marked same (by decide)).elim
  · rename_i digits same
    exact (marked same (by decide)).elim
  · rename_i digits same
    exact (marked same (by decide)).elim
  · rename_i digits same
    exact (marked same (by decide)).elim
  · rename_i digits same
    exact (marked same (by decide)).elim
  · rfl

theorem plain_or_prefixed (literal : List Char) : Plain literal ∨ literal = [] ∨
    ∃ mark digits, literal = '0' :: mark :: digits ∧ mark ∈ ['x', 'X', 'o', 'O', 'b', 'B'] := by
  by_cases empty : literal = []
  · exact .inr (.inl empty)
  · by_cases marked : ∃ mark digits, literal = '0' :: mark :: digits ∧ mark ∈ ['x', 'X', 'o', 'O', 'b', 'B']
    · exact .inr (.inr marked)
    · exact .inl ⟨empty, fun mark digits same listed => marked ⟨mark, digits, same, listed⟩⟩

/-- A literal whose second character is no letter is read as decimal. -/
theorem bigInt_literal {text : List Char} (solid : ∀ c ∈ text, isWhitespace c = false) (nonempty : text ≠ [])
    (plain : ∀ first mark rest, text = first :: mark :: rest → mark.isDigit = true) :
    bigInt (String.ofList text) = integerLiteral text := by
  have unmarked : Plain (trimmed (String.ofList text)) := by
    rw [trimmed_ofList solid]
    refine ⟨nonempty, fun mark digits same listed => ?_⟩
    have digit := plain _ _ _ same
    simp only [List.mem_cons, List.not_mem_nil, or_false] at listed
    rcases listed with rfl | rfl | rfl | rfl | rfl | rfl <;> cases digit
  rw [bigInt_of_plain unmarked, trimmed_ofList solid]

theorem bigInt_bigIntText (n : Int) : bigInt (bigIntText n) = some n := by
  have digits : ∀ c ∈ decimal n.natAbs, c.isDigit = true := fun c => isDigit_of_mem_decimal
  have all : (decimal n.natAbs).all Char.isDigit = true := List.all_eq_true.mpr digits
  have solid : ∀ c ∈ decimal n.natAbs, isWhitespace c = false :=
    fun c member => isWhitespace_of_isDigit (digits c member)
  unfold bigIntText
  split
  · rename_i negative
    rw [bigInt_literal, integerLiteral_negative (decimal_ne_nil _) all, value_decimal]
    · congr 1
      omega
    · intro c member
      rcases List.mem_cons.mp member with rfl | member
      · decide
      · exact solid c member
    · exact List.cons_ne_nil _ _
    · intro first mark rest split
      exact digits mark ((List.cons.inj split).2 ▸ List.mem_cons_self)
  · rename_i nonneg
    rw [bigInt_literal solid (decimal_ne_nil _), integerLiteral_digits (decimal_ne_nil _) all, value_decimal]
    · congr 1
      omega
    · intro first mark rest split
      exact digits mark (split ▸ List.mem_cons_of_mem _ List.mem_cons_self)

theorem radixLiteral_eq {radix : Nat} {text : List Char} {n : Int} (read : radixInteger radix text = some n) :
    radixLiteral radix text = roundRat n := by
  rw [radixInteger] at read
  rw [radixLiteral]
  cases parsed : text.mapM hexDigit with
  | none => rw [parsed] at read; cases read
  | some digits =>
    cases digits with
    | nil => rw [parsed] at read; cases read
    | cons digit digits =>
      rw [parsed] at read
      dsimp only at read ⊢
      by_cases small : (digit :: digits).all (· < radix) = true
      · rw [if_pos small] at read ⊢
        obtain rfl := Option.some.inj read
        rfl
      · rw [if_neg small] at read
        cases read

theorem decimalLiteral_digits {digits : List Char} (some_digit : digits ≠ [])
    (all : digits.all Char.isDigit = true) : decimalLiteral digits = some (value digits : ℚ) := by
  have whole : digits.takeWhile Char.isDigit = digits :=
    List.takeWhile_eq_self_iff.mpr (List.all_eq_true.mp all)
  have rest : digits.dropWhile Char.isDigit = [] :=
    List.dropWhile_eq_nil_iff.mpr (List.all_eq_true.mp all)
  unfold decimalLiteral
  simp [whole, rest, some_digit]

theorem roundRat_zero : roundRat 0 = .finite 0 := by norm_num [roundRat]

/-- A literal that is no other number is none of its digits either. -/
theorem readSign_of_integer {text : List Char} {n : Int} (read : integerLiteral text = some n) :
    (readSign text).2 ≠ [] ∧ (readSign text).2.all Char.isDigit = true ∧
      n = (readSign text).1 * value (readSign text).2 := by
  unfold integerLiteral at read
  split at read
  rename_i sign digits signed
  rw [signed]
  split at read
  · rename_i proper
    exact ⟨proper.1, proper.2, (Option.some.inj read).symm⟩
  · cases read

/-- What BigInt reads, Number reads as the double nearest to it. -/
theorem number_of_bigInt {text : String} {n : Int} (read : bigInt text = some n) : number text = roundRat n := by
  rcases plain_or_prefixed (trimmed text) with plain | empty | ⟨mark, digits, same, listed⟩
  · rw [bigInt_of_plain plain] at read
    obtain ⟨some_digit, all, rfl⟩ := readSign_of_integer read
    have notInfinity : (readSign (trimmed text)).2 ≠ "Infinity".toList := by
      intro same
      rw [same] at all
      exact absurd all (by decide)
    rw [number_of_plain plain, if_neg notInfinity, decimalLiteral_digits some_digit all]
    push_cast
    rfl
  · rw [bigInt, empty] at read
    obtain rfl := Option.some.inj read
    rw [number, ← trimmed, empty, Int.cast_zero, roundRat_zero]
  · rw [bigInt, same] at read
    rw [number, ← trimmed, same]
    simp only [List.mem_cons, List.not_mem_nil, or_false] at listed
    rcases listed with rfl | rfl | rfl | rfl | rfl | rfl
    · exact radixLiteral_eq read
    · exact radixLiteral_eq read
    · exact radixLiteral_eq read
    · exact radixLiteral_eq read
    · exact radixLiteral_eq read
    · exact radixLiteral_eq read

/-- Integers below 2^53 are doubles. -/
theorem roundRat_natCast {n : Nat} (small : n < 2 ^ 53) : roundRat n = .finite n := by
  obtain rfl | positive := Nat.eq_zero_or_pos n
  · rw [Nat.cast_zero, roundRat_zero]
  · have nonneg : (0 : ℚ) ≤ n := Nat.cast_nonneg n
    have log : Int.log 2 (n : ℚ) = (Nat.log 2 n : Int) := Int.log_natCast 2 n
    have log_le : Nat.log 2 n ≤ 52 := Nat.le_of_lt_succ (Nat.log_lt_of_lt_pow (by omega) small)
    have exponent : max (Int.log 2 |(n : ℚ)|) (-1022) - 52 = -((52 - Nat.log 2 n : Nat) : Int) := by
      rw [abs_of_nonneg nonneg, log]
      omega
    have whole : |(n : ℚ)| / 2 ^ (-((52 - Nat.log 2 n : Nat) : Int)) =
        ((n * 2 ^ (52 - Nat.log 2 n) : Nat) : ℤ) := by
      rw [abs_of_nonneg nonneg, zpow_neg, div_inv_eq_mul, zpow_natCast]
      push_cast
      rfl
    unfold roundRat
    rw [exponent]
    dsimp only
    rw [whole]
    have scaled : (((n * 2 ^ (52 - Nat.log 2 n) : Nat) : ℤ) : ℚ) * 2 ^ (-((52 - Nat.log 2 n : Nat) : Int)) = n := by
      rw [zpow_neg, zpow_natCast]
      push_cast
      exact mul_inv_cancel_right₀ (pow_ne_zero _ (by decide)) _
    have bounded : (n : ℚ) < 2 ^ 1024 :=
      calc (n : ℚ) < 2 ^ 53 := by exact_mod_cast small
        _ ≤ 2 ^ 1024 := pow_le_pow_right₀ (by decide) (by decide)
    simp only [Int.floor_intCast, sub_self]
    have noRest : ¬ ((1 / 2 : ℚ) < 0 ∨ (0 : ℚ) = 1 / 2 ∧ ((n * 2 ^ (52 - Nat.log 2 n) : Nat) : ℤ) % 2 = 1) := by
      norm_num
    rw [if_neg noRest, scaled, if_pos bounded, if_neg (not_lt.mpr nonneg)]

theorem text_natCast (n : Nat) : (Number.finite n).text = bigIntText n := by
  have nonneg : ¬ (n : ℤ) < 0 := by omega
  have integer : ((n : ℚ).den = 1) ∧ (n : ℚ).num = n := ⟨Rat.den_natCast n, Rat.num_natCast n⟩
  rw [Number.text, if_pos integer.1, integer.2, if_neg nonneg, bigIntText, if_neg nonneg]

end JavaScript
