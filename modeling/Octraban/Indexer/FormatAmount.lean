import Octraban.Core.Numerals

/-! Amounts as text: `formatAmount` of the indexer and the function of the same name that the
decoded arguments go through. -/
namespace Octraban.FormatAmount

open JavaScript

/-- `formatAmount(raw, decimals)` of the indexer, `raw` as `String(raw)`; nothing where `BigInt` throws. -/
def formatAmount (raw : String) (decimals : Nat) : Option String := do
  let rawBig ← bigInt ((split raw '.').headD "")
  let divisor : Int := 10 ^ decimals
  let neg := decide (rawBig < 0)
  let abs := if neg then -rawBig else rawBig
  let whole := abs.tdiv divisor
  let frac := abs.tmod divisor
  let fracStr := stripZeros ((bigIntText frac).toList.leftpad decimals '0')
  let magnitude :=
    if 0 < fracStr.length then (bigIntText whole).toList ++ '.' :: fracStr else (bigIntText whole).toList
  some (String.ofList (if neg then '-' :: magnitude else magnitude))

/-- `formatAmount` of `args-decoder.ts`. `power decimals` is `BigInt(10 ** decimals)` as the engine
computes it in doubles; nothing where it throws for an infinite power. -/
def decoderFormatAmount (power : Nat → Option Nat) (raw : Int) (decimals : Nat) : Option String :=
  if decimals = 0 then some (bigIntText raw)
  else do
    let divisor ← power decimals
    if divisor = 0 then none
    else
      let whole := raw.tdiv divisor
      let frac := raw.tmod divisor
      let fracStr := (bigIntText frac).toList.leftpad decimals '0'
      some (String.ofList ((bigIntText whole).toList ++ '.' :: fracStr))

/-- The text is the exact amount, with no zero and no point at the end of a fraction. -/
structure Exact (raw : Int) (decimals : Nat) (text : String) : Prop where
  amount : ∃ x, rational text = some x ∧ x * 10 ^ decimals = raw
  stripped : '.' ∈ text.toList → ∀ last, text.toList.getLast? = some last → last ≠ '0' ∧ last ≠ '.'

/-- Both functions answer, the first exactly and the second with the same number. -/
def Agree (power : Nat → Option Nat) (raw : Int) (decimals : Nat) : Prop :=
  ∃ text other, formatAmount (bigIntText raw) decimals = some text ∧ Exact raw decimals text ∧
    decoderFormatAmount power raw decimals = some other ∧ rational other = rational text

/-- No decimals; or the power is right and no negative amount has a fraction; or the amount is
not negative and below both the power the engine computes and the exact one. -/
def Representable (power : Nat → Option Nat) (raw : Int) (decimals : Nat) : Prop :=
  decimals = 0 ∨ (power decimals = some (10 ^ decimals) ∧ (0 ≤ raw ∨ (10 ^ decimals : Int) ∣ raw)) ∨
    ∃ divisor : Nat, power decimals = some divisor ∧ 0 ≤ raw ∧ raw < divisor ∧ raw < 10 ^ decimals

variable {power : Nat → Option Nat} {raw : Int} {decimals : Nat}

theorem isDigit_decimal (n : Nat) : ∀ c ∈ decimal n, c.isDigit = true := fun _ => isDigit_of_mem_decimal

theorem isDigit_leftpad (places n : Nat) : ∀ c ∈ (decimal n).leftpad places '0', c.isDigit = true := by
  intro c member
  rcases List.mem_append.mp member with padding | digit
  · rw [(List.mem_replicate.mp padding).2]
    rfl
  · exact isDigit_of_mem_decimal digit

theorem toList_bigIntText_natCast (n : Nat) : (bigIntText n).toList = decimal n := by
  rw [bigIntText, if_neg (by omega), String.toList_ofList, Int.natAbs_natCast]

theorem toList_bigIntText_neg {n : Nat} (positive : 0 < n) : (bigIntText (-n)).toList = '-' :: decimal n := by
  rw [bigIntText, if_pos (by omega), String.toList_ofList, Int.natAbs_neg, Int.natAbs_natCast]

/-- An integer has no point, so nothing of it is cut off. -/
theorem headD_split_bigIntText (n : Int) : (split (bigIntText n) '.').headD "" = bigIntText n := by
  have pointless : ∀ c ∈ (bigIntText n).toList, (c == '.') = false := by
    have digits (c : Char) (member : c ∈ decimal n.natAbs) : (c == '.') = false := by
      refine beq_false_of_ne fun point => ?_
      have digit := isDigit_of_mem_decimal member
      rw [point] at digit
      cases digit
    rw [bigIntText, String.toList_ofList]
    split
    · intro c member
      rcases List.mem_cons.mp member with rfl | member
      · decide
      · exact digits c member
    · exact digits
  rw [split, List.splitOn, List.splitOnP_eq_singleton pointless, List.map_singleton, String.ofList_toList]
  rfl

theorem readSign_of_digit {digit : Char} {rest : List Char} (first : digit.isDigit = true) :
    readSign (digit :: rest) = (1, digit :: rest) := by
  rw [readSign]
  · intro tail same
    rw [(List.cons.inj same).1] at first
    cases first
  · intro tail same
    rw [(List.cons.inj same).1] at first
    cases first

/-- What is read of a magnitude with and without a sign in front. -/
theorem rational_magnitude {magnitude : List Char} {x : ℚ} {digit : Char} {rest : List Char}
    (starts : magnitude = digit :: rest) (first : digit.isDigit = true) (read : decimalLiteral magnitude = some x) :
    rational (String.ofList magnitude) = some x ∧ rational (String.ofList ('-' :: magnitude)) = some (-x) := by
  have plain : readSign magnitude = (1, magnitude) := by
    rw [starts, readSign_of_digit first]
  constructor
  · simp [rational, plain, read]
  · simp [rational, readSign, read]

theorem exists_decimal_eq_cons (n : Nat) : ∃ digit rest, decimal n = digit :: rest ∧ digit.isDigit = true := by
  cases same : decimal n with
  | nil => exact absurd same (decimal_ne_nil n)
  | cons digit rest => exact ⟨digit, rest, rfl, isDigit_of_mem_decimal (same ▸ List.mem_cons_self)⟩

theorem rational_decimal (n : Nat) :
    rational (String.ofList (decimal n)) = some (n : ℚ) ∧
      rational (String.ofList ('-' :: decimal n)) = some (-(n : ℚ)) := by
  obtain ⟨digit, rest, same, first⟩ := exists_decimal_eq_cons n
  have read := decimalLiteral_digits (decimal_ne_nil n) (List.all_eq_true.mpr (isDigit_decimal n))
  rw [value_decimal] at read
  exact rational_magnitude same first read

theorem rational_point (n : Nat) {digits : List Char} (back : ∀ c ∈ digits, c.isDigit = true) :
    rational (String.ofList (decimal n ++ '.' :: digits)) = some (n + fraction digits) ∧
      rational (String.ofList ('-' :: (decimal n ++ '.' :: digits))) = some (-(n + fraction digits)) := by
  obtain ⟨digit, rest, same, first⟩ := exists_decimal_eq_cons n
  have read := decimalLiteral_point (decimal_ne_nil n) (isDigit_decimal n) back
  rw [value_decimal] at read
  have starts : decimal n ++ '.' :: digits = digit :: (rest ++ '.' :: digits) := by
    rw [same, List.cons_append]
  exact rational_magnitude starts first read

theorem length_leftpad (places n : Nat) (some_place : 0 < places) :
    ((decimal n).leftpad places '0').length = if n < 10 ^ places then places else (decimal n).length := by
  have fits := length_decimal_le_iff some_place n
  rw [List.length_leftpad]
  split
  · rename_i small
    exact Nat.max_eq_left (fits.mpr small)
  · rename_i large
    exact Nat.max_eq_right (Nat.le_of_not_le (mt fits.mp large))

theorem fraction_leftpad {n places : Nat} (small : n < 10 ^ places) :
    fraction ((decimal n).leftpad places '0') = n / 10 ^ places := by
  rw [fraction, value_leftpad, value_decimal]
  obtain rfl | some_place := Nat.eq_zero_or_pos places
  · obtain rfl : n = 0 := by simpa using small
    simp
  · rw [length_leftpad places n some_place, if_pos small]

theorem fraction_leftpad_lt_one {n places : Nat} (some_place : 0 < places) :
    fraction ((decimal n).leftpad places '0') < 1 := by
  have bound : n < 10 ^ ((decimal n).leftpad places '0').length := by
    refine (length_decimal_le_iff ?_ n).mp ?_
    · rw [List.length_leftpad]
      omega
    · rw [List.length_leftpad]
      omega
  rw [fraction, value_leftpad, value_decimal, div_lt_one (pow_pos (by norm_num) _)]
  exact_mod_cast bound

/-- Whole part and rest of a division, put together again. -/
theorem div_add_mod_div (n places : Nat) :
    ((n / 10 ^ places : Nat) : ℚ) + ((n % 10 ^ places : Nat) : ℚ) / 10 ^ places = n / 10 ^ places := by
  have place : (10 : ℚ) ^ places ≠ 0 := pow_ne_zero _ (by norm_num)
  have whole : ((10 ^ places * (n / 10 ^ places) + n % 10 ^ places : Nat) : ℚ) = n := by
    rw [Nat.div_add_mod]
  push_cast at whole
  field_simp
  rw [mul_comm]
  exact whole

/-- The text without its sign. -/
theorem exists_magnitude (n places : Nat) : ∃ magnitude : List Char,
    (∀ negative : Bool, formatAmount (bigIntText (if negative then -n else n)) places =
      some (String.ofList (if decide ((if negative then -n else n : Int) < 0) then '-' :: magnitude else magnitude))) ∧
    rational (String.ofList magnitude) = some (n / 10 ^ places : ℚ) ∧
    rational (String.ofList ('-' :: magnitude)) = some (-(n / 10 ^ places : ℚ)) ∧
    ('.' ∈ magnitude → ∀ last, magnitude.getLast? = some last → last ≠ '0' ∧ last ≠ '.') := by
  have power : ((10 : Int) ^ places) = ((10 ^ places : Nat) : Int) := by push_cast; rfl
  have whole : (n : Int).tdiv (10 ^ places) = ((n / 10 ^ places : Nat) : Int) := by
    rw [power, Int.tdiv_eq_ediv_of_nonneg (by omega)]
    rfl
  have rest : (n : Int).tmod (10 ^ places) = ((n % 10 ^ places : Nat) : Int) := by
    rw [power, Int.tmod_eq_emod_of_nonneg (by omega)]
    rfl
  set digits := stripZeros ((decimal (n % 10 ^ places)).leftpad places '0') with listed
  have part : fraction digits = ((n % 10 ^ places : Nat) : ℚ) / 10 ^ places := by
    rw [fraction_stripZeros, fraction_leftpad (Nat.mod_lt _ (pow_pos (by decide) _))]
  have back : ∀ c ∈ digits, c.isDigit = true :=
    fun c member => isDigit_leftpad places _ c (mem_of_mem_stripZeros member)
  refine ⟨if 0 < digits.length then decimal (n / 10 ^ places) ++ '.' :: digits else decimal (n / 10 ^ places),
    fun negative => ?_, ?_⟩
  · have magnitude : (if decide ((if negative then -n else n : Int) < 0) = true then
        -(if negative then -n else n : Int) else (if negative then -n else n)) = n := by
      cases negative with
      | false => simp
      | true => by_cases zero : n = 0 <;> simp [zero]
    rw [formatAmount, headD_split_bigIntText, bigInt_bigIntText]
    simp only [Option.bind_eq_bind, Option.bind_some]
    rw [magnitude, whole, rest, toList_bigIntText_natCast, toList_bigIntText_natCast]
  · by_cases some_digit : 0 < digits.length
    · rw [if_pos some_digit, ← div_add_mod_div, ← part]
      refine ⟨(rational_point _ back).1, (rational_point _ back).2, fun _ last ends => ?_⟩
      have end_digits : digits.getLast? = some last := by
        rw [List.getLast?_append, List.getLast?_cons] at ends
        cases same : digits.getLast? with
        | none => rw [List.getLast?_eq_none_iff] at same; simp [same] at some_digit
        | some digit => simpa [same] using ends
      refine ⟨stripZeros_last end_digits, ?_⟩
      rintro rfl
      exact absurd (back '.' (List.mem_of_getLast? end_digits)) (by decide)
    · have empty : digits = [] := List.length_eq_zero_iff.mp (by omega)
      have zero : ((n % 10 ^ places : Nat) : ℚ) / 10 ^ places = 0 := by
        rw [← part, empty]
        simp [fraction, value]
      rw [if_neg some_digit, ← div_add_mod_div, zero, add_zero]
      refine ⟨(rational_decimal _).1, (rational_decimal _).2, fun point => ?_⟩
      exact absurd (isDigit_decimal _ '.' point) (by decide)

/-- The indexer's text is right for every amount. -/
theorem formatAmount_exact (raw : Int) (decimals : Nat) : ∃ text, formatAmount (bigIntText raw) decimals = some text ∧
    rational text = some (raw / 10 ^ decimals : ℚ) ∧ Exact raw decimals text := by
  obtain ⟨magnitude, text, plain, signed, stripped⟩ := exists_magnitude raw.natAbs decimals
  have place : (10 : ℚ) ^ decimals ≠ 0 := pow_ne_zero _ (by norm_num)
  rcases lt_or_ge raw 0 with negative | nonneg
  · have same : -(raw.natAbs : Int) = raw := by omega
    have cast : -((raw.natAbs : ℚ) / 10 ^ decimals) = raw / 10 ^ decimals := by
      rw [← neg_div, ← Int.cast_natCast, ← Int.cast_neg, same]
    have formatted := text true
    rw [if_pos rfl, same, decide_eq_true negative, if_pos rfl] at formatted
    rw [cast] at signed
    refine ⟨_, formatted, signed, ⟨_, signed, div_mul_cancel₀ _ place⟩, fun point last ends => ?_⟩
    rw [String.toList_ofList] at point ends
    cases magnitude with
    | nil => simp at point
    | cons first rest =>
      refine stripped ?_ last (by simpa using ends)
      simpa using point
  · have same : (raw.natAbs : Int) = raw := by omega
    have cast : (raw.natAbs : ℚ) / 10 ^ decimals = raw / 10 ^ decimals := by
      rw [← Int.cast_natCast, same]
    have formatted := text false
    rw [if_neg Bool.false_ne_true, same, decide_eq_false (not_lt.mpr nonneg), if_neg Bool.false_ne_true] at formatted
    rw [cast] at plain
    refine ⟨_, formatted, plain, ⟨_, plain, div_mul_cancel₀ _ place⟩, ?_⟩
    rw [String.toList_ofList]
    exact stripped

section Decoder

variable {divisor n : Nat} (some_place : decimals ≠ 0) (computed : power decimals = some divisor)
  (positive : 0 < divisor)
include some_place computed positive

theorem decoder_text (raw : Int) : decoderFormatAmount power raw decimals =
    some (String.ofList ((bigIntText (raw.tdiv divisor)).toList ++
      '.' :: (bigIntText (raw.tmod divisor)).toList.leftpad decimals '0')) := by
  rw [decoderFormatAmount, if_neg some_place, computed]
  exact if_neg positive.ne'

theorem decoder_natCast (n : Nat) : ∃ text, decoderFormatAmount power n decimals = some text ∧
    rational text = some ((n / divisor : Nat) + fraction ((decimal (n % divisor)).leftpad decimals '0')) := by
  refine ⟨_, decoder_text some_place computed positive n, ?_⟩
  have whole : (n : Int).tdiv divisor = ((n / divisor : Nat) : Int) := rfl
  have rest : (n : Int).tmod divisor = ((n % divisor : Nat) : Int) := rfl
  rw [whole, rest, toList_bigIntText_natCast, toList_bigIntText_natCast]
  exact (rational_point _ (isDigit_leftpad _ _)).1

/-- A rest keeps its own sign, in the middle of the text. -/
theorem decoder_neg (some_amount : 0 < n) : ∃ text, decoderFormatAmount power (-n) decimals = some text ∧
    rational text = if divisor ∣ n then some (-((n / divisor : Nat) : ℚ)) else none := by
  refine ⟨_, decoder_text some_place computed positive (-n), ?_⟩
  have whole : (-n : Int).tdiv divisor = -((n / divisor : Nat) : Int) := by
    rw [Int.neg_tdiv]
    rfl
  have rest : (-n : Int).tmod divisor = -((n % divisor : Nat) : Int) := by
    rw [Int.neg_tmod]
    rfl
  rw [whole, rest]
  by_cases divides : divisor ∣ n
  · have zero : n % divisor = 0 := Nat.mod_eq_zero_of_dvd divides
    have magnitude : 0 < n / divisor := Nat.div_pos (Nat.le_of_dvd some_amount divides) positive
    have nothing : fraction ((decimal 0).leftpad decimals '0') = 0 := by
      rw [fraction_leftpad (pow_pos (by decide) _)]
      simp
    have minus : (bigIntText (-((0 : Nat) : Int))).toList = decimal 0 := by decide
    have read := (rational_point (n / divisor) (isDigit_leftpad decimals 0)).2
    rw [if_pos divides, zero, minus, toList_bigIntText_neg magnitude, List.cons_append, read, nothing, add_zero]
  · have some_rest : 0 < n % divisor := Nat.pos_of_ne_zero fun zero => divides (Nat.dvd_of_mod_eq_zero zero)
    have padding : ∀ c ∈ List.replicate (decimals - ('-' :: decimal (n % divisor)).length) '0', c.isDigit = true := by
      intro c member
      rw [(List.mem_replicate.mp member).2]
      rfl
    have unread := decimalLiteral_sign (decimal_ne_nil (n / divisor)) (isDigit_decimal _) padding
      (decimal (n % divisor))
    rw [if_neg divides, toList_bigIntText_neg some_rest, List.leftpad]
    obtain zero | magnitude := Nat.eq_zero_or_pos (n / divisor)
    · rw [zero] at unread ⊢
      have none_in_front : (bigIntText (-((0 : Nat) : Int))).toList = decimal 0 := by decide
      have plain : readSign (decimal 0 ++ '.' :: (List.replicate
          (decimals - ('-' :: decimal (n % divisor)).length) '0' ++ '-' :: decimal (n % divisor))) =
          (1, decimal 0 ++ '.' :: (List.replicate
          (decimals - ('-' :: decimal (n % divisor)).length) '0' ++ '-' :: decimal (n % divisor))) := rfl
      rw [none_in_front]
      simp only [rational, String.toList_ofList]
      rw [plain]
      simp only [unread, Option.map_none]
    · rw [toList_bigIntText_neg magnitude, List.cons_append]
      simp only [rational, String.toList_ofList, readSign, unread, Option.map_none]

end Decoder

/-- A whole part and the digits of the rest, read with the power the amount is meant in. -/
theorem whole_add_fraction_eq_iff {n divisor : Nat} (some_place : decimals ≠ 0) (positive : 0 < divisor) :
    ((n / divisor : Nat) + fraction ((decimal (n % divisor)).leftpad decimals '0') : ℚ) = n / 10 ^ decimals ↔
      divisor = 10 ^ decimals ∨ n < divisor ∧ n < 10 ^ decimals := by
  have place : (0 : ℚ) < 10 ^ decimals := pow_pos (by norm_num) _
  have split : divisor * (n / divisor) + n % divisor = n := Nat.div_add_mod n divisor
  have cast : (divisor * (n / divisor : Nat) + (n % divisor : Nat) : ℚ) = n := by exact_mod_cast split
  have below : n % divisor < divisor := Nat.mod_lt n positive
  by_cases small : n % divisor < 10 ^ decimals
  · rw [fraction_leftpad small, ← cast]
    constructor
    · intro same
      field_simp at same
      have product : ((n / divisor : Nat) : ℚ) * (10 ^ decimals - divisor) = 0 := by linarith
      rcases mul_eq_zero.mp product with zero | equal
      · have none_whole : n / divisor = 0 := by exact_mod_cast zero
        rw [none_whole, Nat.mul_zero, Nat.zero_add] at split
        exact .inr ⟨split ▸ below, split ▸ small⟩
      · left
        have power : (divisor : ℚ) = 10 ^ decimals := by linarith
        exact_mod_cast power
    · rintro (rfl | ⟨less, -⟩)
      · push_cast
        field_simp
      · rw [Nat.div_eq_of_lt less]
        simp
  · have one := fraction_leftpad_lt_one (n := n % divisor) (Nat.pos_of_ne_zero some_place)
    have large : 10 ^ decimals ≤ n % divisor := not_lt.mp small
    constructor
    · intro same
      exfalso
      rw [eq_div_iff place.ne'] at same
      have rest : (10 : ℚ) ^ decimals ≤ (n % divisor : Nat) := by exact_mod_cast large
      have power : (10 : ℚ) ^ decimals ≤ divisor := by exact_mod_cast large.trans below.le
      have whole : (0 : ℚ) ≤ (n / divisor : Nat) := Nat.cast_nonneg _
      have scaled : ((n / divisor : Nat) : ℚ) * 10 ^ decimals ≤ (n / divisor : Nat) * divisor :=
        mul_le_mul_of_nonneg_left power whole
      have short : fraction ((decimal (n % divisor)).leftpad decimals '0') * 10 ^ decimals < 1 * 10 ^ decimals :=
        mul_lt_mul_of_pos_right one place
      linarith
    · rintro (rfl | ⟨less, short⟩)
      · omega
      · rw [Nat.mod_eq_of_lt less] at large
        omega

/-- A negative amount is read as itself when it is whole. -/
theorem read_neg_iff {n divisor : Nat} (some_place : decimals ≠ 0) (computed : power decimals = some divisor)
    (positive : 0 < divisor) (some_amount : 0 < n) :
    (∃ other, decoderFormatAmount power (-n) decimals = some other ∧
      rational other = some ((-n : Int) / 10 ^ decimals : ℚ)) ↔ divisor = 10 ^ decimals ∧ 10 ^ decimals ∣ n := by
  obtain ⟨other, second, denoted⟩ := decoder_neg some_place computed positive some_amount
  have place : (0 : ℚ) < 10 ^ decimals := pow_pos (by norm_num) _
  have answered : (∃ other, decoderFormatAmount power (-n) decimals = some other ∧
      rational other = some ((-n : Int) / 10 ^ decimals : ℚ)) ↔
      rational other = some ((-n : Int) / 10 ^ decimals : ℚ) := by
    simp [second]
  rw [answered, denoted]
  by_cases divides : divisor ∣ n
  · obtain ⟨whole, rfl⟩ := divides
    have some_whole : (whole : ℚ) ≠ 0 := by
      rintro zero
      rw [show whole = 0 by exact_mod_cast zero] at some_amount
      omega
    rw [if_pos (dvd_mul_right _ _), Nat.mul_div_cancel_left whole positive, Option.some.injEq]
    push_cast
    constructor
    · intro same
      field_simp at same
      have power : (divisor : ℚ) = 10 ^ decimals := by linarith
      have exact_power : divisor = 10 ^ decimals := by exact_mod_cast power
      exact ⟨exact_power, exact_power ▸ dvd_mul_right _ _⟩
    · rintro ⟨rfl, -⟩
      push_cast
      field_simp
  · rw [if_neg divides]
    refine iff_of_false (fun impossible => by cases impossible) ?_
    rintro ⟨rfl, divides'⟩
    exact divides divides'

/-- The two texts denote one number exactly for the amounts the second function can write. -/
theorem formats_agree_iff (power : Nat → Option Nat) (raw : Int) (decimals : Nat) :
    Agree power raw decimals ↔ Representable power raw decimals := by
  obtain ⟨text, formatted, read, exact_text⟩ := formatAmount_exact raw decimals
  have agree : Agree power raw decimals ↔
      ∃ other, decoderFormatAmount power raw decimals = some other ∧ rational other = some (raw / 10 ^ decimals : ℚ) := by
    constructor
    · rintro ⟨_, other, first, -, second, same⟩
      obtain rfl := Option.some.inj (formatted.symm.trans first)
      exact ⟨other, second, same.trans read⟩
    · rintro ⟨other, second, same⟩
      exact ⟨text, other, formatted, exact_text, second, same.trans read.symm⟩
  rw [agree, Representable]
  by_cases none_places : decimals = 0
  · refine iff_of_true ⟨bigIntText raw, by rw [decoderFormatAmount, if_pos none_places], ?_⟩ (.inl none_places)
    rw [none_places, pow_zero, div_one]
    rcases lt_or_ge raw 0 with negative | nonneg
    · rw [bigIntText, if_pos negative, (rational_decimal _).2, ← Int.cast_natCast, Int.ofNat_natAbs_of_nonpos negative.le]
      simp
    · rw [bigIntText, if_neg (not_lt.mpr nonneg), (rational_decimal _).1, ← Int.cast_natCast, Int.natAbs_of_nonneg nonneg]
  · cases computed : power decimals with
    | none => simp [decoderFormatAmount, none_places, computed]
    | some divisor =>
      have known : (decimals = 0 ∨ some divisor = some (10 ^ decimals) ∧ (0 ≤ raw ∨ (10 ^ decimals : Int) ∣ raw) ∨
          ∃ other : Nat, some divisor = some other ∧ 0 ≤ raw ∧ raw < other ∧ raw < 10 ^ decimals) ↔
          divisor = 10 ^ decimals ∧ (0 ≤ raw ∨ (10 ^ decimals : Int) ∣ raw) ∨
            0 ≤ raw ∧ raw < divisor ∧ raw < 10 ^ decimals := by
        simp [none_places]
      rw [known]
      have power_pos : (0 : Nat) < 10 ^ decimals := pow_pos (by decide) _
      obtain rfl | positive := Nat.eq_zero_or_pos divisor
      · refine iff_of_false ?_ ?_
        · rintro ⟨other, second, -⟩
          rw [decoderFormatAmount, if_neg none_places, computed] at second
          cases second
        · rintro (⟨same, -⟩ | ⟨nonneg, less, -⟩)
          · exact power_pos.ne same
          · omega
      · rcases lt_or_ge raw 0 with negative | nonneg
        · obtain ⟨n, rfl⟩ : ∃ n : Nat, raw = -n := ⟨raw.natAbs, by omega⟩
          have some_amount : 0 < n := by omega
          rw [read_neg_iff none_places computed positive some_amount]
          have divides : (10 ^ decimals : Int) ∣ -n ↔ 10 ^ decimals ∣ n := by
            rw [Int.dvd_neg]
            exact_mod_cast Int.natCast_dvd_natCast
          rw [divides]
          constructor
          · rintro ⟨rfl, whole⟩
            exact .inl ⟨rfl, .inr whole⟩
          · rintro (⟨rfl, nonneg | whole⟩ | ⟨nonneg, -⟩)
            · omega
            · exact ⟨rfl, whole⟩
            · omega
        · obtain ⟨n, rfl⟩ := Int.eq_ofNat_of_zero_le nonneg
          obtain ⟨other, second, denoted⟩ := decoder_natCast none_places computed positive n
          have answered : (∃ other, decoderFormatAmount power n decimals = some other ∧
              rational other = some ((n : Int) / 10 ^ decimals : ℚ)) ↔
              ((n / divisor : Nat) + fraction ((decimal (n % divisor)).leftpad decimals '0') : ℚ) = n / 10 ^ decimals := by
            simp [second, denoted]
          rw [answered, whole_add_fraction_eq_iff none_places positive]
          have less : (n : Int) < 10 ^ decimals ↔ n < 10 ^ decimals := by exact_mod_cast Int.ofNat_lt
          rw [less, Int.ofNat_lt]
          simp

/-- Half a unit below zero comes out with its sign after the point. -/
theorem negative_fraction_unread : ¬ Agree (fun decimals => roundDouble (10 ^ decimals)) (-5000000) 7 := by
  rintro ⟨text, other, formatted, exact_text, second, same⟩
  obtain ⟨x, read, -⟩ := exact_text.amount
  have written : decoderFormatAmount (fun decimals => roundDouble (10 ^ decimals)) (-5000000) 7 =
      some "0.-5000000" := by decide
  obtain rfl := Option.some.inj (written.symm.trans second)
  have unread : rational "0.-5000000" = none := by decide
  rw [unread, read] at same
  cases same

end Octraban.FormatAmount
