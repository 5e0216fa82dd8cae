import Mathlib.Data.List.TakeWhile
import Mathlib.Tactic.IntervalCases
import Mathlib.Data.Int.Log
import Mathlib.Data.Nat.Digits.Defs
import Mathlib.Data.Rat.Floor
import Mathlib.Tactic.Positivity

/-! JavaScript strings and numbers, as far as the modelled code uses them: splitting and
joining, `Number` of a text, `parseInt` with radix 10, and the operators on 32 bits. -/
namespace JavaScript

def isWhitespace (c : Char) : Bool :=
  c.toNat ∈ [0x9, 0xA, 0xB, 0xC, 0xD, 0x20, 0xA0, 0x1680, 0x2028, 0x2029, 0x202F, 0x205F, 0x3000, 0xFEFF] ||
    (0x2000 ≤ c.toNat && c.toNat ≤ 0x200A)

def split (text : String) (separator : Char) : List String :=
  (text.toList.splitOn separator).map String.ofList

def trim (text : String) : String :=
  String.ofList ((text.toList.dropWhile isWhitespace).reverse.dropWhile isWhitespace).reverse

/-- The code units of a text. -/
def utf16 (text : String) : List Nat :=
  text.toList.flatMap fun c =>
    if c.toNat < 0x10000 then [c.toNat]
    else [0xD800 + (c.toNat - 0x10000) / 0x400, 0xDC00 + (c.toNat - 0x10000) % 0x400]

def length (text : String) : Nat := (utf16 text).length

/-- The number a row of decimal digits stands for. -/
def value (digits : List Char) : Nat := digits.foldl (fun n digit => 10 * n + (digit.toNat - '0'.toNat)) 0

/-- The double nearest to a natural number, ties to even; nothing for an overflow to infinity. -/
def roundDouble (n : Nat) : Option Nat :=
  if n < 2 ^ 53 then some n
  else
    let unit := 2 ^ (Nat.log 2 n - 52)
    let low := n / unit
    let rest := n % unit
    let up := unit < 2 * rest || (unit = 2 * rest && low % 2 = 1)
    let rounded := (if up then low + 1 else low) * unit
    if rounded < 2 ^ 1024 then some rounded else none

def roundInt (x : Int) : Option Int := (roundDouble x.natAbs).map fun n : Nat => x.sign * n

def readSign : List Char → Int × List Char
  | '-' :: rest => (-1, rest)
  | '+' :: rest => (1, rest)
  | text => (1, text)

/-- Nothing stands for NaN and the infinities. -/
def parseInt (text : String) : Option Int :=
  let (sign, rest) := readSign (text.toList.dropWhile isWhitespace)
  let digits := rest.takeWhile Char.isDigit
  if digits.isEmpty then none else (roundDouble (value digits)).map fun n : Nat => sign * n

/-- NaN and the infinities count as 0. -/
def toInt32 (number : Option Int) : BitVec 32 := number.elim 0 (BitVec.ofInt 32)

/-- A shift looks at five bits of its count. -/
def shiftCount (number : Option Int) : Nat := (toInt32 number).toNat % 32

/-- There is one zero: nothing here tells -0 from it. -/
inductive Number where
  | nan
  | infinite (negative : Bool)
  | finite (value : ℚ)
  deriving DecidableEq

/-- The double nearest to a rational, ties to even. -/
def roundRat (x : ℚ) : Number :=
  let unit : ℚ := 2 ^ (max (Int.log 2 |x|) (-1022) - 52)
  let low := ⌊|x| / unit⌋
  let rest := |x| / unit - low
  let rounded := (if 1 / 2 < rest ∨ (rest = 1 / 2 ∧ low % 2 = 1) then low + 1 else low) * unit
  if rounded < 2 ^ 1024 then .finite (if x < 0 then -rounded else rounded) else .infinite (x < 0)

/-- Arithmetic with an increasing function. -/
def Number.apply (f : ℚ → ℚ) : Number → Number
  | finite x => roundRat (f x)
  | x => x

def Number.negative : Number → Bool
  | nan => false
  | infinite negative => negative
  | finite x => x < 0

def Number.isFinite : Number → Bool
  | finite _ => true
  | _ => false

def Number.add : Number → Number → Number
  | finite x, finite y => roundRat (x + y)
  | nan, _ | _, nan => nan
  | infinite a, infinite b => if a = b then infinite a else nan
  | infinite a, finite _ | finite _, infinite a => infinite a

def Number.neg : Number → Number
  | finite x => finite (-x)
  | infinite negative => infinite !negative
  | nan => nan

def Number.sub (a b : Number) : Number := a.add b.neg

def Number.mul : Number → Number → Number
  | finite x, finite y => roundRat (x * y)
  | nan, _ | _, nan => nan
  | infinite a, y | y, infinite a => if y = finite 0 then nan else infinite (a ^^ y.negative)

/-- The one zero divides as the positive one. -/
def Number.div : Number → Number → Number
  | finite x, finite y => if y ≠ 0 then roundRat (x / y) else if x = 0 then nan else infinite (x < 0)
  | nan, _ | _, nan | infinite _, infinite _ => nan
  | infinite a, y => infinite (a ^^ y.negative)
  | finite _, infinite _ => finite 0

/-- Comparison with NaN is false. -/
def Number.le : Number → Number → Bool
  | finite x, finite y => x ≤ y
  | nan, _ | _, nan => false
  | infinite true, _ | _, infinite false => true
  | infinite false, _ | _, infinite true => false

def Number.lt (a b : Number) : Bool := a.le b && !b.le a

/-- `Math.max` -/
def Number.max (a b : Number) : Number :=
  if a = nan ∨ b = nan then nan else if a.le b then b else a

/-- `Math.min` -/
def Number.min (a b : Number) : Number :=
  if a = nan ∨ b = nan then nan else if a.le b then a else b

/-- `Math.floor` -/
def Number.floor : Number → Number
  | finite x => finite ⌊x⌋
  | x => x

/-- `Math.round`: halves go up. -/
def Number.round : Number → Number
  | finite x => finite ⌊x + 1 / 2⌋
  | x => x

/-- What holds of every double. -/
def Number.InRange : Number → Prop
  | finite x => |x| ≤ 2 ^ 1024
  | _ => True

/-- Digits, a fraction and an exponent. -/
def decimalLiteral (text : List Char) : Option ℚ :=
  let whole := text.takeWhile Char.isDigit
  let (fraction, rest) := match text.dropWhile Char.isDigit with
    | '.' :: rest => (rest.takeWhile Char.isDigit, rest.dropWhile Char.isDigit)
    | rest => ([], rest)
  let mantissa : ℚ := value (whole ++ fraction)
  if whole.isEmpty && fraction.isEmpty then none
  else
    match rest with
    | [] => some (mantissa * 10 ^ (-fraction.length : Int))
    | mark :: exponent =>
      let (sign, digits) := readSign exponent
      if (mark = 'e' ∨ mark = 'E') ∧ digits ≠ [] ∧ digits.all Char.isDigit then
        some (mantissa * 10 ^ (sign * value digits - fraction.length))
      else none

def hexDigit (c : Char) : Option Nat :=
  if c.isDigit then some (c.toNat - '0'.toNat)
  else if 'a' ≤ c ∧ c ≤ 'f' then some (c.toNat - 'a'.toNat + 10)
  else if 'A' ≤ c ∧ c ≤ 'F' then some (c.toNat - 'A'.toNat + 10)
  else none

/-- The digits after 0x, 0o or 0b. -/
def radixLiteral (radix : Nat) (text : List Char) : Number :=
  match text.mapM hexDigit with
  | some (digit :: digits) =>
    if (digit :: digits).all (· < radix) then
      roundRat ((digit :: digits).foldl (fun n digit => radix * n + digit) 0 : Nat)
    else .nan
  | _ => .nan

/-- `Number(text)` -/
def number (text : String) : Number :=
  match ((text.toList.dropWhile isWhitespace).reverse.dropWhile isWhitespace).reverse with
  | [] => .finite 0
  | '0' :: 'x' :: digits | '0' :: 'X' :: digits => radixLiteral 16 digits
  | '0' :: 'o' :: digits | '0' :: 'O' :: digits => radixLiteral 8 digits
  | '0' :: 'b' :: digits | '0' :: 'B' :: digits => radixLiteral 2 digits
  | trimmed =>
    let (sign, magnitude) := readSign trimmed
    if magnitude = "Infinity".toList then .infinite (sign < 0)
    else
      match decimalLiteral magnitude with
      | some x => roundRat (sign * x)
      | none => .nan

/-- `parseFloat`: the longest decimal literal the text starts with. -/
def parseFloat (text : String) : Number :=
  let (sign, magnitude) := readSign (text.toList.dropWhile isWhitespace)
  if "Infinity".toList.isPrefixOf magnitude then .infinite (sign < 0)
  else
    match magnitude.inits.reverse.findSome? decimalLiteral with
    | some x => roundRat (sign * x)
    | none => .nan

def decimal (n : Nat) : List Char := if n = 0 then ['0'] else (Nat.digits 10 n).reverse.map Nat.digitChar

/-- `String(number)`, with all digits of what is no integer or beyond 2^53, where
JavaScript prints the shortest ones that read back. -/
def Number.text : Number → String
  | nan => "NaN"
  | infinite negative => if negative then "-Infinity" else "Infinity"
  | finite x =>
    if x.den = 1 then
      if x.num < 0 then String.ofList ('-' :: decimal x.num.natAbs) else String.ofList (decimal x.num.natAbs)
    else
      let (sign, magnitude) := if x < 0 then (['-'], -x) else ([], x)
      let places := Nat.log 2 x.den
      let fraction := decimal ((magnitude - ⌊magnitude⌋) * 10 ^ places).num.natAbs
      String.ofList (sign ++ decimal ⌊magnitude⌋.natAbs ++ '.' ::
        List.replicate (places - fraction.length) '0' ++ fraction)

theorem shiftCount_lt (number : Option Int) : shiftCount number < 32 := Nat.mod_lt _ (by decide)

theorem roundDouble_of_lt {n : Nat} (small : n < 2 ^ 53) : roundDouble n = some n := if_pos small

theorem roundInt_of_lt {x : Int} (small : x.natAbs < 2 ^ 53) : roundInt x = some x := by
  rw [roundInt, roundDouble_of_lt small, Option.map_some, Int.sign_mul_natAbs]

/-- Rounding moves a number by at most one unit in its last place. -/
theorem roundRat_magnitude (x : ℚ) : ∃ magnitude : ℚ, 0 ≤ magnitude ∧
    magnitude ≤ |x| + 2 ^ (max (Int.log 2 |x|) (-1022) - 52) ∧
    roundRat x = if magnitude < 2 ^ 1024 then .finite (if x < 0 then -magnitude else magnitude)
      else .infinite (x < 0) := by
  set unit : ℚ := 2 ^ (max (Int.log 2 |x|) (-1022) - 52) with named
  have unit_positive : 0 < unit := zpow_pos (by decide) _
  have low_nonneg : (0 : ℚ) ≤ ⌊|x| / unit⌋ := by exact_mod_cast Int.floor_nonneg.mpr (by positivity)
  have low_le : ⌊|x| / unit⌋ * unit ≤ |x| := (le_div_iff₀ unit_positive).mp (Int.floor_le _)
  refine ⟨_, ?_, ?_, rfl⟩
  · split
    · push_cast
      positivity
    · positivity
  · split
    · push_cast
      linarith
    · linarith

/-- A number between two powers of two rounds to the multiple of the unit that is nearer than half of it. -/
theorem roundRat_of_near {x : ℚ} {m : ℕ} {e : ℤ} (normal : -1022 ≤ e) (finite : e < 1000) (low : 2 ^ e ≤ x) (high : x < 2 ^ (e + 1))
    (near : |x / 2 ^ (e - 52) - m| < 1 / 2) :
    roundRat x = .finite (m * 2 ^ (e - 52)) := by
  have positive : 0 < x := lt_of_lt_of_le (zpow_pos (by decide) e) low
  have exponent : max (Int.log 2 |x|) (-1022) = e := by
    rw [abs_of_pos positive]
    have least : e ≤ Int.log 2 x := (Int.zpow_le_iff_le_log (by decide) positive).mp (by exact_mod_cast low)
    have most : Int.log 2 x < e + 1 := (Int.lt_zpow_iff_log_lt (by decide) positive).mp (by exact_mod_cast high)
    omega
  obtain ⟨above, below⟩ := abs_lt.mp near
  have unit : (0 : ℚ) < 2 ^ (e - 52) := zpow_pos (by decide) _
  have small : m * (2 : ℚ) ^ (e - 52) < 2 ^ 1024 :=
    calc m * (2 : ℚ) ^ (e - 52) ≤ (x / 2 ^ (e - 52) + 1 / 2) * 2 ^ (e - 52) := mul_le_mul_of_nonneg_right (by linarith) unit.le
      _ = x + 2 ^ (e - 52) / 2 := by rw [add_mul, div_mul_cancel₀ _ unit.ne']; ring
      _ < 2 ^ (e + 1) + 2 ^ (e + 1) := by
        have less : (2 : ℚ) ^ (e - 52) ≤ 2 ^ (e + 1) := zpow_le_zpow_right₀ (by decide) (by omega)
        linarith
      _ = 2 ^ (e + 2) := by rw [← two_mul, ← zpow_one_add₀ (by decide)]; congr 1; omega
      _ ≤ 2 ^ ((1024 : ℕ) : ℤ) := zpow_le_zpow_right₀ (by decide) (by omega)
      _ = 2 ^ 1024 := zpow_natCast 2 1024
  have rounded : (if 1 / 2 < x / 2 ^ (e - 52) - ⌊x / 2 ^ (e - 52)⌋ ∨
      (x / 2 ^ (e - 52) - ⌊x / 2 ^ (e - 52)⌋ = 1 / 2 ∧ ⌊x / 2 ^ (e - 52)⌋ % 2 = 1)
        then ⌊x / 2 ^ (e - 52)⌋ + 1 else ⌊x / 2 ^ (e - 52)⌋) = m := by
    rcases le_or_gt (m : ℚ) (x / 2 ^ (e - 52)) with up | down
    · have floor : ⌊x / 2 ^ (e - 52)⌋ = m := Int.floor_eq_iff.mpr ⟨by exact_mod_cast up, by push_cast; linarith⟩
      rw [floor]
      refine if_neg ?_
      push_cast
      rintro (more | ⟨half, -⟩)
      · linarith
      · linarith
    · have floor : ⌊x / 2 ^ (e - 52)⌋ = m - 1 := Int.floor_eq_iff.mpr ⟨by push_cast; linarith, by push_cast; linarith⟩
      rw [floor, if_pos, Int.sub_add_cancel]
      left
      push_cast
      linarith
  unfold roundRat
  rw [exponent, abs_of_pos positive]
  dsimp only
  rw [rounded, if_neg (not_lt.mpr positive.le)]
  exact if_pos small

theorem normal_small : (2 : ℚ) ^ (-1022 : Int) ≤ 1 / 200 :=
  calc (2 : ℚ) ^ (-1022 : Int) ≤ 2 ^ (-8 : Int) := zpow_le_zpow_right₀ (by decide) (by decide)
    _ ≤ 1 / 200 := by norm_num

/-- The double nearest to a positive number is at most twice it. -/
theorem roundRat_le {x : ℚ} (low : 2 ^ (-1022 : Int) ≤ x) (high : 2 * x < 2 ^ 1024) :
    ∃ rounded, roundRat x = .finite rounded ∧ rounded ≤ 2 * x := by
  have positive : 0 < x := lt_of_lt_of_le (zpow_pos (by decide) _) low
  obtain ⟨magnitude, -, bound, rounds⟩ := roundRat_magnitude x
  have exponent : max (Int.log 2 |x|) (-1022) = Int.log 2 x := by
    rw [abs_of_pos positive]
    exact max_eq_left ((Int.zpow_le_iff_le_log (by decide) positive).mp (by exact_mod_cast low))
  have unit_le : (2 : ℚ) ^ (Int.log 2 x - 52) ≤ x :=
    calc (2 : ℚ) ^ (Int.log 2 x - 52) ≤ 2 ^ Int.log 2 x := zpow_le_zpow_right₀ (by decide) (by omega)
      _ ≤ x := by exact_mod_cast Int.zpow_log_le_self (by decide) positive
  rw [exponent, abs_of_pos positive] at bound
  have bounded : magnitude ≤ 2 * x := by linarith
  refine ⟨magnitude, ?_, bounded⟩
  rw [rounds, if_pos (lt_of_le_of_lt bounded high), if_neg (not_lt.mpr positive.le)]

theorem le_of_finite_le {x y : ℚ} {a : Number} (less : y ≤ x) (bound : (Number.finite x).le a = true) :
    (Number.finite y).le a = true := by
  cases a with
  | nan => exact bound
  | infinite negative =>
    cases negative
    · rfl
    · exact bound
  | finite value => exact decide_eq_true (less.trans (of_decide_eq_true bound))

theorem le_min {x : ℚ} {a b : Number} (left : (Number.finite x).le a = true)
    (right : (Number.finite x).le b = true) : (Number.finite x).le (a.min b) = true := by
  have proper : ¬ (a = .nan ∨ b = .nan) := by
    rintro (rfl | rfl)
    · cases left
    · cases right
  rw [Number.min, if_neg proper]
  split
  · exact left
  · exact right

theorem le_max_left {x : ℚ} {a b : Number} (bound : (Number.finite x).le a = true) (proper : b ≠ .nan) :
    (Number.finite x).le (a.max b) = true := by
  have number : ¬ (a = .nan ∨ b = .nan) := by
    rintro (rfl | rfl)
    · cases bound
    · exact proper rfl
  rw [Number.max, if_neg number]
  split
  · rename_i less
    cases a with
    | nan => cases bound
    | finite y => exact le_of_finite_le (of_decide_eq_true bound) less
    | infinite negative =>
      cases negative
      · cases b with
        | infinite other => cases other <;> trivial
        | nan | finite _ => cases less
      · cases bound
  · exact bound

theorem le_max_right {x : ℚ} {a b : Number} (bound : (Number.finite x).le b = true) (proper : a ≠ .nan) :
    (Number.finite x).le (a.max b) = true := by
  have number : ¬ (a = .nan ∨ b = .nan) := by
    rintro (rfl | rfl)
    · exact proper rfl
    · cases bound
  rw [Number.max, if_neg number]
  split
  · exact bound
  · rename_i greater
    cases a with
    | nan => exact absurd rfl proper
    | infinite negative =>
      cases negative
      · rfl
      · cases b with
        | nan => cases bound
        | infinite _ | finite _ => exact absurd rfl greater
    | finite y =>
      cases b with
      | nan => cases bound
      | infinite negative =>
        cases negative
        · exact absurd rfl greater
        · cases bound
      | finite z =>
        have less : z < y := by simpa [Number.le] using greater
        exact decide_eq_true ((of_decide_eq_true bound).trans less.le)

/-- The double nearest to a positive number is hardly less than it. -/
theorem le_roundRat {x y : ℚ} (low : 2 ^ (-1022 : Int) ≤ x) (less : y ≤ 15 / 16 * x) :
    (Number.finite y).le (roundRat x) = true := by
  have positive : 0 < x := lt_of_lt_of_le (zpow_pos (by decide) _) low
  have exponent : max (Int.log 2 |x|) (-1022) = Int.log 2 x := by
    rw [abs_of_pos positive]
    exact max_eq_left ((Int.zpow_le_iff_le_log (by decide) positive).mp (by exact_mod_cast low))
  unfold roundRat
  rw [exponent, abs_of_pos positive]
  set unit : ℚ := 2 ^ (Int.log 2 x - 52) with named
  have unit_positive : 0 < unit := zpow_pos (by decide) _
  have unit_le : unit ≤ x / 16 :=
    calc unit ≤ 2 ^ (Int.log 2 x - 4) := zpow_le_zpow_right₀ (by decide) (by omega)
      _ = 2 ^ Int.log 2 x / 16 := by rw [zpow_sub₀ (by decide)]; norm_num
      _ ≤ x / 16 := by
        have := Int.zpow_log_le_self (b := 2) (by decide) positive
        gcongr
        exact_mod_cast this
  have floor_lt : x < (⌊x / unit⌋ + 1) * unit := (div_lt_iff₀ unit_positive).mp (Int.lt_floor_add_one _)
  have rounded_ge : y ≤ (if 1 / 2 < x / unit - ⌊x / unit⌋ ∨ (x / unit - ⌊x / unit⌋ = 1 / 2 ∧ ⌊x / unit⌋ % 2 = 1)
      then ⌊x / unit⌋ + 1 else ⌊x / unit⌋ : ℤ) * unit := by
    split
    · push_cast
      linarith
    · linarith
  have finish (rounded : ℚ) (ge : y ≤ rounded) : (Number.finite y).le (if rounded < 2 ^ 1024
      then .finite (if x < 0 then -rounded else rounded) else .infinite (x < 0)) = true := by
    split
    · rw [if_neg (not_lt.mpr positive.le)]
      exact decide_eq_true ge
    · rw [decide_eq_false (not_lt.mpr positive.le)]
      rfl
  exact finish _ rounded_ge

/-- An integer with a double of its own stays below what is rounded above it. -/
theorem natCast_le_roundRat {n : Nat} {x : ℚ} (small : n < 2 ^ 53) (one : 1 ≤ x) (less : n ≤ x) :
    (Number.finite n).le (roundRat x) = true := by
  have positive : 0 < x := lt_of_lt_of_le one_pos one
  have exponent_nonneg : 0 ≤ Int.log 2 x :=
    (Int.zpow_le_iff_le_log (by decide) positive).mp (by simpa using one)
  unfold roundRat
  rw [abs_of_pos positive, max_eq_left (exponent_nonneg.trans' (by decide))]
  set unit : ℚ := 2 ^ (Int.log 2 x - 52) with named
  have unit_positive : 0 < unit := zpow_pos (by decide) _
  have low_ge : (n : ℚ) ≤ ⌊x / unit⌋ * unit := by
    rcases le_or_gt (Int.log 2 x) 52 with fine | coarse
    · -- the integer is a multiple of the unit
      obtain ⟨scale, exact⟩ := Int.eq_ofNat_of_zero_le (sub_nonneg.mpr fine)
      have units : (n : ℚ) / unit = (n * 2 ^ scale : Nat) := by
        have inverse : unit⁻¹ = 2 ^ scale := by
          rw [named, ← zpow_neg, neg_sub, exact]
          exact zpow_natCast 2 scale
        rw [div_eq_mul_inv, inverse]
        push_cast
        rfl
      have whole : ((n * 2 ^ scale : Nat) : Int) ≤ ⌊x / unit⌋ := by
        rw [Int.le_floor, Int.cast_natCast, ← units]
        exact div_le_div_of_nonneg_right less unit_positive.le
      rw [← div_le_iff₀ unit_positive, units]
      exact_mod_cast whole
    · have whole : (2 : Int) ^ 52 ≤ ⌊x / unit⌋ := by
        rw [Int.le_floor, le_div_iff₀ unit_positive]
        have top := Int.zpow_log_le_self (b := 2) (by decide) positive
        calc (((2 : Int) ^ 52 : Int) : ℚ) * unit = 2 ^ Int.log 2 x := by
              rw [named, zpow_sub₀ (by decide)]
              norm_num
              ring
          _ ≤ x := by exact_mod_cast top
      have large : (2 : ℚ) ≤ unit := by
        calc (2 : ℚ) = 2 ^ (1 : Int) := by norm_num
          _ ≤ unit := zpow_le_zpow_right₀ (by decide) (by omega)
      calc (n : ℚ) ≤ 2 ^ 52 * 2 := by exact_mod_cast small.le
        _ ≤ ⌊x / unit⌋ * unit := by
          apply mul_le_mul _ large (by norm_num) ((by positivity : (0 : ℚ) ≤ 2 ^ 52).trans _)
          · exact_mod_cast whole
          · exact_mod_cast whole
  have rounded_ge : (n : ℚ) ≤ (if 1 / 2 < x / unit - ⌊x / unit⌋ ∨ (x / unit - ⌊x / unit⌋ = 1 / 2 ∧
      ⌊x / unit⌋ % 2 = 1) then ⌊x / unit⌋ + 1 else ⌊x / unit⌋ : ℤ) * unit := by
    split
    · push_cast
      linarith
    · exact low_ge
  have finish (rounded : ℚ) (ge : (n : ℚ) ≤ rounded) : (Number.finite n).le (if rounded < 2 ^ 1024
      then .finite (if x < 0 then -rounded else rounded) else .infinite (x < 0)) = true := by
    split
    · rw [if_neg (not_lt.mpr positive.le)]
      exact decide_eq_true ge
    · rw [decide_eq_false (not_lt.mpr positive.le)]
      rfl
  exact finish _ rounded_ge

/-- Rounding a number below a power of two adds at most a unit of that power. -/
theorem roundRat_le_add {x : ℚ} {k : Nat} (nonneg : 0 ≤ x) (small : x < 2 ^ k) (room : k ≤ 1000) :
    ∃ rounded, roundRat x = .finite rounded ∧ 0 ≤ rounded ∧ rounded ≤ x + 2 ^ ((k : Int) - 52) := by
  obtain ⟨magnitude, least, bound, rounds⟩ := roundRat_magnitude x
  rw [abs_of_nonneg nonneg] at bound
  have exponent : max (Int.log 2 x) (-1022) ≤ k := by
    refine max_le ?_ (by omega)
    rcases nonneg.eq_or_lt with zero | positive
    · rw [← zero, Int.log_zero_right]
      omega
    · have top := Int.zpow_log_le_self (b := 2) (by decide) positive
      have below : (2 : ℚ) ^ Int.log 2 x < 2 ^ (k : Int) := lt_of_le_of_lt (by exact_mod_cast top) (by simpa using small)
      exact ((zpow_lt_zpow_iff_right₀ (by norm_num)).mp below).le
  have unit_le : (2 : ℚ) ^ (max (Int.log 2 x) (-1022) - 52) ≤ 2 ^ ((k : Int) - 52) :=
    zpow_le_zpow_right₀ (by decide) (by omega)
  have most : magnitude ≤ x + 2 ^ ((k : Int) - 52) := by linarith
  have finite : magnitude < 2 ^ 1024 := by
    have unit_small : (2 : ℚ) ^ ((k : Int) - 52) ≤ 2 ^ k := by
      rw [← zpow_natCast]
      exact zpow_le_zpow_right₀ (by decide) (by omega)
    calc magnitude ≤ x + 2 ^ ((k : Int) - 52) := most
      _ < 2 ^ k + 2 ^ k := by linarith
      _ = 2 ^ (k + 1) := by ring
      _ ≤ 2 ^ 1024 := pow_le_pow_right₀ (by decide) (by omega)
  refine ⟨magnitude, ?_, least, most⟩
  rw [rounds, if_pos finite, if_neg (not_lt.mpr nonneg)]

theorem inRange_roundRat (x : ℚ) : (roundRat x).InRange := by
  obtain ⟨magnitude, nonneg, -, rounds⟩ := roundRat_magnitude x
  rw [rounds]
  split
  · rename_i small
    change |if x < 0 then -magnitude else magnitude| ≤ 2 ^ 1024
    split
    · rw [abs_neg, abs_of_nonneg nonneg]
      exact small.le
    · rw [abs_of_nonneg nonneg]
      exact small.le
  · trivial

theorem inRange_mul (a b : Number) : (a.mul b).InRange := by
  unfold Number.mul
  split
  · exact inRange_roundRat _
  all_goals first | trivial | (split <;> trivial)

theorem abs_round_le {x : ℚ} {n : ℤ} (bounded : |x| ≤ n) : |((⌊x + 1 / 2⌋ : ℤ) : ℚ)| ≤ n := by
  obtain ⟨low, high⟩ := abs_le.mp bounded
  have above : ⌊x + 1 / 2⌋ < n + 1 := Int.floor_lt.mpr (by push_cast; linarith)
  have below : -n ≤ ⌊x + 1 / 2⌋ := Int.le_floor.mpr (by push_cast; linarith)
  exact abs_le.mpr ⟨by exact_mod_cast below, by exact_mod_cast Int.lt_add_one_iff.mp above⟩

theorem inRange_round {a : Number} (inRange : a.InRange) : a.round.InRange := by
  cases a with
  | finite x =>
    have rounded := abs_round_le (x := x) (n := 2 ^ 1024)
    rw [Int.cast_pow, Int.cast_ofNat] at rounded
    exact rounded inRange
  | nan => trivial
  | infinite negative => trivial

theorem digit_bounds {c : Char} (digit : c.isDigit = true) : 48 ≤ c.toNat ∧ c.toNat ≤ 57 := by
  simp only [Char.isDigit, Bool.and_eq_true, decide_eq_true_eq] at digit
  exact ⟨UInt32.le_iff_toNat_le.mp digit.1, UInt32.le_iff_toNat_le.mp digit.2⟩

theorem lt_of_hexDigit {c : Char} {v : Nat} (digit : hexDigit c = some v) : c.toNat < 103 := by
  rw [hexDigit] at digit
  split at digit
  · rename_i decimal
    have := digit_bounds decimal
    omega
  · split at digit
    · rename_i letter
      have top : c.toNat ≤ 102 := letter.2
      omega
    · split at digit
      · rename_i letter
        have top : c.toNat ≤ 70 := letter.2
        omega
      · cases digit

theorem isWhitespace_of_capital {c : Char} (capital : 'A' ≤ c ∧ c ≤ 'Z') : isWhitespace c = false := by
  have low : 65 ≤ c.toNat := UInt32.le_iff_toNat_le.mp capital.1
  have high : c.toNat ≤ 90 := UInt32.le_iff_toNat_le.mp capital.2
  unfold isWhitespace
  generalize c.toNat = code at low high
  interval_cases code <;> rfl

theorem isWhitespace_of_isDigit {c : Char} (digit : c.isDigit = true) : isWhitespace c = false := by
  obtain ⟨low, high⟩ := digit_bounds digit
  unfold isWhitespace
  generalize c.toNat = code at low high
  interval_cases code <;> rfl

theorem dropWhile_whitespace {text : List Char} (solid : ∀ c ∈ text, isWhitespace c = false) :
    text.dropWhile isWhitespace = text := by
  cases text with
  | nil => rfl
  | cons c rest => rw [List.dropWhile_cons_of_neg (by simp [solid c List.mem_cons_self])]

theorem trim_eq {text : String} (solid : ∀ c ∈ text.toList, isWhitespace c = false) : trim text = text := by
  have reversed : ∀ c ∈ text.toList.reverse, isWhitespace c = false :=
    fun c member => solid c (List.mem_reverse.mp member)
  rw [trim, dropWhile_whitespace solid, dropWhile_whitespace reversed, List.reverse_reverse, String.ofList_toList]

theorem readSign_digits {digits : List Char} (all : digits.all Char.isDigit = true) :
    readSign digits = (1, digits) := by
  unfold readSign
  split
  · contradiction
  · contradiction
  · rfl

theorem parseInt_digits {digits : List Char} (some_digit : digits ≠ [])
    (all : digits.all Char.isDigit = true) (small : value digits < 2 ^ 53) :
    parseInt (String.ofList digits) = some (value digits : Int) := by
  have whole : digits.takeWhile Char.isDigit = digits :=
    List.takeWhile_eq_self_iff.mpr (List.all_eq_true.mp all)
  have kept : digits.dropWhile isWhitespace = digits := by
    cases digits with
    | nil => rfl
    | cons digit digits =>
      have first : digit.isDigit = true := List.all_eq_true.mp all digit List.mem_cons_self
      exact List.dropWhile_cons_of_neg (by simp [isWhitespace_of_isDigit first])
  simp only [parseInt, String.toList_ofList, kept, readSign_digits all, whole, roundDouble_of_lt small]
  simp [some_digit]

/-- The next octet below the ones read so far. -/
theorem shift_or_octet {n octet : Nat} (room : n < 2 ^ 24) (byte : octet < 256) :
    BitVec.ofNat 32 n <<< 8 ||| BitVec.ofNat 32 octet = BitVec.ofNat 32 (n * 256 + octet) := by
  apply BitVec.eq_of_toNat_eq
  rw [BitVec.toNat_or, BitVec.toNat_shiftLeft, BitVec.toNat_ofNat, BitVec.toNat_ofNat, BitVec.toNat_ofNat,
    Nat.mod_eq_of_lt (by omega), Nat.mod_eq_of_lt (b := 2 ^ 32) (a := octet) (by omega),
    Nat.mod_eq_of_lt (a := n * 256 + octet) (by omega), Nat.shiftLeft_eq, Nat.mod_eq_of_lt (by omega),
    ← Nat.shiftLeft_eq, ← Nat.shiftLeft_add_eq_or_of_lt (by omega), Nat.shiftLeft_eq]

/-- `~((1 << count) - 1)` keeps all but the lowest bits. -/
theorem getLsbD_highMask {count i : Nat} (small : count < 32) (inside : i < 32) :
    (~~~((1#32 <<< count) - 1#32)).getLsbD i = decide (count ≤ i) := by
  have ones : (1#32 <<< count) - 1#32 = BitVec.ofNat 32 (2 ^ count - 1) := by
    have positive : 1 ≤ 2 ^ count := Nat.one_le_two_pow
    have bounded : 2 ^ count < 2 ^ 32 := Nat.pow_lt_pow_right (by decide) small
    apply BitVec.eq_of_toNat_eq
    rw [BitVec.toNat_sub, BitVec.toNat_shiftLeft]
    simp only [BitVec.toNat_ofNat, Nat.shiftLeft_eq]
    omega
  rw [BitVec.getLsbD_not, ones, BitVec.getLsbD_ofNat, Nat.testBit_two_pow_sub_one, decide_eq_true inside,
    Bool.true_and, Bool.true_and, ← decide_not]
  simp only [Nat.not_lt]

/-- Masked numbers are equal when they agree on the bits the mask keeps. -/
theorem and_highMask_eq_iff {x y : BitVec 32} {count : Nat} (small : count < 32) :
    x &&& ~~~((1#32 <<< count) - 1#32) = y &&& ~~~((1#32 <<< count) - 1#32) ↔
      ∀ i < 32 - count, x.getMsbD i = y.getMsbD i := by
  constructor
  · intro same i high
    have bit := congrArg (fun z : BitVec 32 => z.getLsbD (31 - i)) same
    simp only [BitVec.getLsbD_and] at bit
    rw [getLsbD_highMask small (by omega), decide_eq_true (by omega), Bool.and_true, Bool.and_true] at bit
    rw [BitVec.getMsbD_eq_getLsbD, BitVec.getMsbD_eq_getLsbD]
    exact congrArg _ bit
  · intro agree
    apply BitVec.eq_of_getLsbD_eq
    intro i inside
    rw [BitVec.getLsbD_and, BitVec.getLsbD_and, getLsbD_highMask small inside]
    by_cases high : count ≤ i
    · have bit := agree (31 - i) (by omega)
      rw [BitVec.getMsbD_eq_getLsbD, BitVec.getMsbD_eq_getLsbD, decide_eq_true (by omega), Bool.true_and,
        Bool.true_and, show 32 - 1 - (31 - i) = i by omega] at bit
      rw [bit]
    · rw [decide_eq_false high, Bool.and_false, Bool.and_false]

theorem value_append (digits : List Char) (digit : Char) :
    value (digits ++ [digit]) = 10 * value digits + (digit.toNat - '0'.toNat) := by
  simp [value, List.foldl_append]

theorem value_reverse {digits : List Nat} (small : ∀ digit ∈ digits, digit < 10) :
    value (digits.reverse.map Nat.digitChar) = Nat.ofDigits 10 digits := by
  induction digits with
  | nil => rfl
  | cons digit digits ih =>
    have first : (Nat.digitChar digit).toNat - '0'.toNat = digit := by
      have bound : digit < 10 := small digit List.mem_cons_self
      interval_cases digit <;> rfl
    rw [List.reverse_cons, List.map_append, List.map_singleton, value_append,
      ih fun other member => small other (List.mem_cons_of_mem _ member), first, Nat.ofDigits_cons]
    omega

/-- A numeral reads back. -/
theorem value_decimal (n : Nat) : value (decimal n) = n := by
  unfold decimal
  split
  · rename_i zero
    rw [zero]
    rfl
  · rw [value_reverse fun digit member => Nat.digits_lt_base (by decide) member, Nat.ofDigits_digits]

theorem isDigit_of_mem_decimal {n : Nat} {c : Char} (member : c ∈ decimal n) : c.isDigit = true := by
  unfold decimal at member
  split at member
  · rw [List.mem_singleton.mp member]
    rfl
  · obtain ⟨digit, inside, rfl⟩ := List.mem_map.mp member
    have small : digit < 10 := Nat.digits_lt_base (by decide) (List.mem_reverse.mp inside)
    interval_cases digit <;> rfl

theorem notMem_decimal {c : Char} (other : c.isDigit = false) (n : Nat) : c ∉ decimal n := by
  intro member
  exact Bool.false_ne_true (other.symm.trans (isDigit_of_mem_decimal member))

theorem decimal_inj {m n : Nat} (same : decimal m = decimal n) : m = n := by
  rw [← value_decimal m, same, value_decimal]

/-- Texts before a mark that they do not have. -/
theorem append_cons_inj {A : Type} {c : A} {x y u v : List A} (left : c ∉ x) (right : c ∉ y)
    (same : x ++ c :: u = y ++ c :: v) : x = y ∧ u = v := by
  induction x generalizing y with
  | nil =>
    cases y with
    | nil => exact ⟨rfl, (List.cons.inj same).2⟩
    | cons d y => exact absurd ((List.cons.inj same).1 ▸ List.mem_cons_self) right
  | cons d x ih =>
    cases y with
    | nil => exact absurd ((List.cons.inj same).1 ▸ List.mem_cons_self) left
    | cons e y =>
      obtain ⟨rfl, rest⟩ := List.cons.inj same
      obtain ⟨rfl, ends⟩ := ih (fun member => left (List.mem_cons_of_mem _ member))
        (fun member => right (List.mem_cons_of_mem _ member)) rest
      exact ⟨rfl, ends⟩

/-- The last field of a joined text, when it holds no separator. -/
theorem lastField_inj {separator : Char} {a b c d : List Char} (plain : separator ∉ b ∧ separator ∉ d)
    (same : a ++ [separator] ++ b = c ++ [separator] ++ d) : a = c ∧ b = d := by
  have reversed := congrArg List.reverse same
  simp only [List.reverse_append, List.reverse_cons, List.append_assoc, List.singleton_append] at reversed
  obtain ⟨last, front⟩ := append_cons_inj (List.mem_reverse.not.mpr plain.1) (List.mem_reverse.not.mpr plain.2) reversed
  exact ⟨List.reverse_inj.mp front, List.reverse_inj.mp last⟩

/-- A name and a number, joined by a colon. -/
theorem append_decimal_inj {a b : String} {m n : ℕ}
    (same : a ++ ":" ++ String.ofList (decimal m) = b ++ ":" ++ String.ofList (decimal n)) : a = b ∧ m = n := by
  have texts := String.toList_inj.mpr same
  simp only [String.toList_append, String.toList_ofList] at texts
  obtain ⟨names, digits⟩ := lastField_inj ⟨notMem_decimal rfl m, notMem_decimal rfl n⟩ texts
  exact ⟨String.toList_inj.mp names, decimal_inj digits⟩

/-- Only a natural number is written as a row of digits. -/
theorem eq_of_text_eq_decimal {x : Number} {n : Nat} (same : x.text = String.ofList (decimal n)) :
    x = .finite n := by
  have digits (c : Char) (member : c ∈ x.text.toList) : c.isDigit = true := by
    rw [same, String.toList_ofList] at member
    exact isDigit_of_mem_decimal member
  cases x with
  | nan => exact absurd (digits 'N' (by decide)) (by decide)
  | infinite negative =>
    cases negative with
    | true => exact absurd (digits 'I' (by decide)) (by decide)
    | false => exact absurd (digits 'I' (by decide)) (by decide)
  | finite x =>
    by_cases whole : x.den = 1
    · by_cases negative : x.num < 0
      · rw [Number.text, if_pos whole, if_pos negative, String.toList_ofList] at digits
        exact absurd (digits '-' List.mem_cons_self) (by decide)
      · rw [Number.text, if_pos whole, if_neg negative, String.ofList_inj] at same
        have magnitude : x.num.natAbs = n := decimal_inj same
        rw [← Rat.coe_int_num_of_den_eq_one whole, ← magnitude, ← Int.cast_natCast,
          Int.natAbs_of_nonneg (not_lt.mp negative)]
    · simp only [Number.text, if_neg whole, String.toList_ofList] at digits
      exact absurd (digits '.' (by simp)) (by decide)

end JavaScript
