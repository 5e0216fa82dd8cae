import Octraban.Core.Partial
import Octraban.Webhooks.SsrfGuard

/-! The block list of ssrf-guard.ts, by address and by the texts that spell one. -/
namespace Octraban.SsrfGuard
open JavaScript AllowList

deriving instance DecidableEq for AllowList.Address, AllowList.Block

/-- A mapped address is its IPv4 address. -/
def unmapped (bits : BitVec 128) : Address :=
  if bits.toNat / 2 ^ 32 = 0xffff then .v4 (BitVec.ofNat 32 bits.toNat) else .v6 bits

/-- What a text denotes that `net` takes for an address; a zone is no part of it. -/
def denoted (text : String) : Option Address :=
  match parseV4 text with
  | some bits => some (.v4 bits)
  | none => if isIPv6 text then (parseV6 ((split text '%').headD "")).map unmapped else none

/-- The ranges that the module lists. -/
def listedRanges : List String :=
  ["0.0.0.0/8", "10.0.0.0/8", "100.64.0.0/10", "127.0.0.0/8", "169.254.0.0/16", "172.16.0.0/12", "192.0.0.0/24",
    "192.168.0.0/16", "198.18.0.0/15", "198.51.100.0/24", "203.0.113.0/24", "224.0.0.0/4", "240.0.0.0/4",
    "255.255.255.255/32", "::", "::1", "fe80::/10", "fc00::/7", "fd00:ec2::254", "ff00::/8"]

def Listed (address : Address) : Prop :=
  ∃ entry ∈ listedRanges, ∃ block, parseBlock entry = some block ∧ block.Contains address

def Zoned (text : String) : Prop := '%' ∈ text.toList

instance (text : String) : Decidable (Zoned text) := inferInstanceAs (Decidable (_ ∈ _))

/-- A listed address is recognized without a zone, ::, ::1 and the mapped ones in their shortest form. -/
def Recognized (text : String) : Address → Prop
  | .v4 _ => (parseV4 text).isSome ∨ (ipv4Mapped (toLowerCase text)).isSome
  | .v6 bits => ¬ Zoned text ∧ (bits = 0 → text = "::") ∧ (bits = 1 → text = "::1")

/-- The first group of an address. -/
def firstGroup (bits : BitVec 128) : Nat := bits.toNat / 2 ^ 112

/-- The first group is 00ff or from 0ff0 to 0fff: two letters f come first once its zeros are left out. -/
def Shortened (bits : BitVec 128) : Prop :=
  firstGroup bits = 0xff ∨ 0xff0 ≤ firstGroup bits ∧ firstGroup bits ≤ 0xfff

/-- The text has them left out, and no zone. -/
def Bare (text : String) : Prop := ¬ Zoned text ∧ ['f', 'f'].isPrefixOf (toLowerCase text).toList

/-- Both texts are recognized where the address is listed, and equally bare where that matters. -/
def SameSpelling (s t : String) (address : Address) : Prop :=
  (Listed address → Recognized s address ∧ Recognized t address) ∧
    match address with
    | .v4 _ => True
    | .v6 bits => Shortened bits → (Bare s ↔ Bare t)

variable {text : String} {bits : BitVec 128} {groups : List Nat} {c : Char} {v : Nat}

/-! ## Groups -/

def hexChar (v : Nat) : Char := "0123456789abcdef".toList.getD v '0'

theorem toLower_of_hexDigit (digit : hexDigit c = some v) : v < 16 ∧ c.toLower = hexChar v := by
  have each : ∀ n < 103, ∀ v ∈ hexDigit (Char.ofNat n), v < 16 ∧ (Char.ofNat n).toLower = hexChar v := by decide
  have same : Char.ofNat c.toNat = c := Char.ofNat_toNat c
  have here := each c.toNat (lt_of_hexDigit digit) v
  rw [same] at here
  exact here digit

theorem mapM_hexDigit {characters : List Char} {digits : List Nat} (read : characters.mapM hexDigit = some digits) :
    characters.map Char.toLower = digits.map hexChar ∧ ∀ v ∈ digits, v < 16 := by
  induction characters generalizing digits with
  | nil =>
    obtain rfl := Option.some.inj read
    simp
  | cons c rest ih =>
    rw [List.mapM_cons] at read
    simp only [Option.bind_eq_bind, Option.bind_eq_some_iff, Option.pure_def, Option.some_inj] at read
    obtain ⟨v, first, others, later, rfl⟩ := read
    obtain ⟨lowered, small⟩ := ih later
    obtain ⟨bound, lower⟩ := toLower_of_hexDigit first
    exact ⟨by rw [List.map_cons, List.map_cons, lowered, lower], List.forall_mem_cons.mpr ⟨bound, small⟩⟩

/-- The number of a row of hexadecimal digits. -/
def hexNumber (digits : List Nat) : Nat := digits.foldl (fun n digit => 16 * n + digit) 0

theorem hexNumber_lt {digits : List Nat} (small : ∀ v ∈ digits, v < 16) (short : digits.length ≤ 4) :
    hexNumber digits < 2 ^ 16 := by
  have bounded (n : Nat) : digits.foldl (fun n digit => 16 * n + digit) n + 1 ≤ (n + 1) * 16 ^ digits.length := by
    clear short
    induction digits generalizing n with
    | nil => simp
    | cons v rest ih =>
      obtain ⟨bound, small⟩ := List.forall_mem_cons.mp small
      have later := ih small (16 * n + v)
      rw [List.foldl_cons, List.length_cons, Nat.pow_succ]
      have grown : (16 * n + v + 1) * 16 ^ rest.length ≤ ((n + 1) * 16) * 16 ^ rest.length :=
        Nat.mul_le_mul_right _ (by omega)
      calc _ ≤ (16 * n + v + 1) * 16 ^ rest.length := later
        _ ≤ ((n + 1) * 16) * 16 ^ rest.length := grown
        _ = (n + 1) * (16 ^ rest.length * 16) := by ring
  have whole := bounded 0
  have most : 16 ^ digits.length ≤ 16 ^ 4 := Nat.pow_le_pow_right (by decide) short
  rw [hexNumber]
  omega

/-- One to four digits, and the number they stand for. -/
theorem parseGroup_eq_some {characters : List Char} {group : Nat} (read : parseGroup characters = some group) :
    ∃ digits : List Nat, characters.mapM hexDigit = some digits ∧ digits.length ≤ 4 ∧ group = hexNumber digits ∧
      group < 2 ^ 16 ∧ characters.length ≤ 4 ∧ characters ≠ [] := by
  rw [parseGroup] at read
  split at read
  · cases read
  · rename_i size
    obtain ⟨digits, spelled, rfl⟩ := Option.map_eq_some_iff.mp read
    obtain ⟨lowered, small⟩ := mapM_hexDigit spelled
    have lengths := congrArg List.length lowered
    rw [List.length_map, List.length_map] at lengths
    have short : digits.length ≤ 4 := by omega
    refine ⟨digits, spelled, short, rfl, hexNumber_lt small short, by omega, ?_⟩
    rintro rfl
    simp at size

theorem isHex_of_parseGroup {characters : List Char} {group : Nat} (read : parseGroup characters = some group) :
    ∀ c ∈ characters, isHex c = true := by
  obtain ⟨digits, spelled, -⟩ := parseGroup_eq_some read
  intro c member
  obtain ⟨v, -, digit⟩ := Partial.exists_of_forall₂ (Partial.mapM_eq_some_iff.mp spelled) member
  rw [isHex, digit]
  rfl

theorem parseV4_bound (bits : BitVec 32) : bits.toNat / 2 ^ 16 < 2 ^ 16 ∧ bits.toNat % 2 ^ 16 < 2 ^ 16 := by
  have := bits.isLt
  omega

/-- The groups of a row of parts, each below 2^16; the first is that of the first part. -/
theorem parseGroups_cons {part : List Char} {parts : List (List Char)} (more : parts ≠ [])
    (read : parseGroups (part :: parts) = some groups) :
    ∃ group rest, parseGroup part = some group ∧ parseGroups parts = some rest ∧ groups = group :: rest := by
  cases parts with
  | nil => exact absurd rfl more
  | cons next parts =>
    rw [parseGroups.eq_3 _ _ (List.cons_ne_nil next parts)] at read
    simp only [Option.bind_eq_bind, Option.bind_eq_some_iff, Option.some_inj] at read
    obtain ⟨group, first, rest, later, rfl⟩ := read
    exact ⟨group, rest, first, later, rfl⟩

theorem parseGroups_lt {parts : List (List Char)} (read : parseGroups parts = some groups) : ∀ g ∈ groups, g < 2 ^ 16 := by
  induction parts generalizing groups with
  | nil =>
    obtain rfl := Option.some.inj read
    simp
  | cons part parts ih =>
    cases parts with
    | nil =>
      rw [parseGroups] at read
      cases dotted : parseV4 (String.ofList part) with
      | some bits =>
        rw [dotted] at read
        obtain rfl := Option.some.inj read
        simpa using parseV4_bound bits
      | none =>
        rw [dotted] at read
        obtain ⟨group, single, rfl⟩ := Option.map_eq_some_iff.mp read
        obtain ⟨-, -, -, -, bound, -⟩ := parseGroup_eq_some single
        simpa using bound
    | cons next parts =>
      obtain ⟨group, rest, first, later, rfl⟩ := parseGroups_cons (List.cons_ne_nil _ _) read
      obtain ⟨-, -, -, -, bound, -⟩ := parseGroup_eq_some first
      exact List.forall_mem_cons.mpr ⟨bound, ih later⟩

theorem mapM_parseGroup_lt {parts : List (List Char)} (read : parts.mapM parseGroup = some groups) :
    ∀ g ∈ groups, g < 2 ^ 16 := by
  have related := Partial.mapM_eq_some_iff.mp read
  refine (Partial.forall_iff_of_forall₂ (P := fun _ => True) related fun part group first => ?_).mpr fun _ _ => trivial
  obtain ⟨-, -, -, -, bound, -⟩ := parseGroup_eq_some first
  exact iff_of_true bound trivial

/-- Groups below 2^16 put together keep the first one on top. -/
theorem groups_foldl (small : ∀ g ∈ groups, g < 2 ^ 16) (n : Nat) :
    ∃ low < 2 ^ (16 * groups.length), groups.foldl (fun n group => n * 2 ^ 16 + group) n =
      n * 2 ^ (16 * groups.length) + low := by
  induction groups generalizing n with
  | nil => exact ⟨0, by simp, by simp⟩
  | cons group rest ih =>
    obtain ⟨bound, small⟩ := List.forall_mem_cons.mp small
    obtain ⟨low, less, whole⟩ := ih small (n * 2 ^ 16 + group)
    have size : 2 ^ (16 * (group :: rest).length) = 2 ^ 16 * 2 ^ (16 * rest.length) := by
      rw [List.length_cons, ← Nat.pow_add]
      congr 1
      omega
    refine ⟨group * 2 ^ (16 * rest.length) + low, ?_, ?_⟩
    · have room : (group + 1) * 2 ^ (16 * rest.length) ≤ 2 ^ 16 * 2 ^ (16 * rest.length) :=
        Nat.mul_le_mul_right _ bound
      rw [size]
      calc _ < group * 2 ^ (16 * rest.length) + 2 ^ (16 * rest.length) := Nat.add_lt_add_left less _
        _ = (group + 1) * 2 ^ (16 * rest.length) := by ring
        _ ≤ _ := room
    · rw [List.foldl_cons, whole, size]
      ring

theorem firstGroup_ofNat {group : Nat} {rest : List Nat} (small : ∀ g ∈ group :: rest, g < 2 ^ 16)
    (eight : (group :: rest).length = 8) :
    firstGroup (BitVec.ofNat 128 ((group :: rest).foldl (fun n group => n * 2 ^ 16 + group) 0)) = group := by
  obtain ⟨bound, small⟩ := List.forall_mem_cons.mp small
  obtain ⟨low, less, whole⟩ := groups_foldl small (0 * 2 ^ 16 + group)
  have seven : rest.length = 7 := by simpa using eight
  rw [seven] at less whole
  rw [List.foldl_cons, whole, firstGroup, BitVec.toNat_ofNat, Nat.zero_mul, Nat.zero_add, Nat.mod_eq_of_lt (by omega)]
  omega

/-! ## The text of an address -/

theorem cutElision_eq_some {characters before after : List Char} (cut : cutElision characters = some (before, after)) :
    characters = before ++ ':' :: ':' :: after := by
  induction characters generalizing before with
  | nil => cases cut
  | cons c rest ih =>
    rw [cutElision.eq_def] at cut
    split at cut
    · rename_i first
      obtain ⟨rfl, rfl⟩ := List.cons_eq_cons.mp first
      obtain ⟨rfl, rfl⟩ := Prod.mk.inj (Option.some.inj cut)
      rfl
    · rename_i first
      obtain ⟨rfl, rfl⟩ := List.cons_eq_cons.mp first
      obtain ⟨⟨before', after'⟩, later, same⟩ := Option.map_eq_some_iff.mp cut
      obtain ⟨rfl, rfl⟩ := Prod.mk.inj same
      rw [ih later]
      rfl
    · cases cut

/-- The characters of a text that is split are separators, or stand in a part. -/
theorem mem_splitOn {characters : List Char} {separator : Char} (member : c ∈ characters) :
    c = separator ∨ ∃ part ∈ characters.splitOn separator, c ∈ part := by
  induction characters with
  | nil => cases member
  | cons d rest ih =>
    rw [List.splitOn_cons_eq_if_modifyHead]
    by_cases separates : d = separator
    · rw [if_pos (by simpa using separates)]
      rcases List.mem_cons.mp member with rfl | later
      · exact .inl separates
      · exact (ih later).imp_right fun ⟨part, inside, holds⟩ => ⟨part, List.mem_cons_of_mem _ inside, holds⟩
    · rw [if_neg (by simpa using separates)]
      cases parts : rest.splitOn separator with
      | nil => exact absurd parts (List.splitOn_ne_nil separator rest)
      | cons head tail =>
        rw [parts] at ih
        rw [List.modifyHead_cons]
        rcases List.mem_cons.mp member with rfl | later
        · exact .inr ⟨c :: head, List.mem_cons_self, List.mem_cons_self⟩
        · refine (ih later).imp_right fun ⟨part, inside, holds⟩ => ?_
          rcases List.mem_cons.mp inside with rfl | behind
          · exact ⟨d :: part, List.mem_cons_self, List.mem_cons_of_mem _ holds⟩
          · exact ⟨part, List.mem_cons_of_mem _ behind, holds⟩

/-- What an address may be made of. -/
def isAddressChar (c : Char) : Bool := isHex c || c = ':' || c = '.'

/-- Four decimal numerals and the points between them. -/
theorem parts_of_parseV4 {text : String} {bits : BitVec 32} (read : parseV4 text = some bits) :
    (text.toList.splitOn '.').length = 4 ∧ ∀ part ∈ text.toList.splitOn '.', part ≠ [] ∧ part.all Char.isDigit = true := by
  rw [parseV4] at read
  split at read
  · rename_i a b d e octets
    have size := congrArg List.length octets
    rw [split, List.length_map, List.length_map] at size
    refine ⟨size, fun part member => ?_⟩
    have parsed : parseNumeral 255 (String.ofList part) ∈ (split text '.').map (parseNumeral 255) :=
      List.mem_map_of_mem (List.mem_map_of_mem member)
    have numeral : (parseNumeral 255 (String.ofList part)).isSome = true := by
      rw [octets] at parsed
      simp only [List.mem_cons, List.not_mem_nil, or_false] at parsed
      rcases parsed with same | same | same | same <;> simp [same]
    rw [parseNumeral] at numeral
    split at numeral
    · rename_i digits
      rw [String.toList_ofList] at digits
      exact ⟨digits.1, digits.2.1⟩
    · cases numeral
  · cases read

theorem isAddressChar_of_parseV4 {text : String} {bits : BitVec 32} (read : parseV4 text = some bits) :
    ∀ c ∈ text.toList, isAddressChar c = true := by
  obtain ⟨-, digits⟩ := parts_of_parseV4 read
  intro c member
  rcases @mem_splitOn c _ '.' member with rfl | ⟨part, inside, holds⟩
  · rfl
  · have digit : c.isDigit = true := List.all_eq_true.mp (digits part inside).2 c holds
    simp [isAddressChar, isHex, hexDigit, digit]

theorem isAddressChar_of_parseGroup {characters : List Char} {group : Nat} (read : parseGroup characters = some group) :
    ∀ c ∈ characters, isAddressChar c = true :=
  fun c member => by simp [isAddressChar, isHex_of_parseGroup read c member]

theorem isAddressChar_of_parseGroups {parts : List (List Char)} (read : parseGroups parts = some groups) :
    ∀ part ∈ parts, ∀ c ∈ part, isAddressChar c = true := by
  induction parts generalizing groups with
  | nil => simp
  | cons part parts ih =>
    cases parts with
    | nil =>
      rw [parseGroups] at read
      simp only [List.mem_singleton, forall_eq]
      cases dotted : parseV4 (String.ofList part) with
      | some bits => simpa using isAddressChar_of_parseV4 dotted
      | none =>
        rw [dotted] at read
        obtain ⟨group, single, -⟩ := Option.map_eq_some_iff.mp read
        exact isAddressChar_of_parseGroup single
    | cons next parts =>
      obtain ⟨group, rest, first, later, rfl⟩ := parseGroups_cons (List.cons_ne_nil _ _) read
      exact List.forall_mem_cons.mpr ⟨isAddressChar_of_parseGroup first, ih later⟩

theorem isAddressChar_of_splitOn {characters : List Char}
    (parts : ∀ part ∈ characters.splitOn ':', ∀ c ∈ part, isAddressChar c = true) :
    ∀ c ∈ characters, isAddressChar c = true := by
  intro c member
  rcases @mem_splitOn c _ ':' member with rfl | ⟨part, inside, holds⟩
  · rfl
  · exact parts part inside c holds

/-- The groups in front of the colons that stand for zeros, and those behind them. -/
def highGroups (before : List Char) : Option (List Nat) :=
  if before.isEmpty then some [] else (before.splitOn ':').mapM parseGroup

def lowGroups (after : List Char) : Option (List Nat) :=
  if after.isEmpty then some [] else parseGroups (after.splitOn ':')

def assemble (groups : List Nat) : BitVec 128 := BitVec.ofNat 128 (groups.foldl (fun n group => n * 2 ^ 16 + group) 0)

/-- The two ways in which an accepted text gives eight groups. -/
theorem parseV6_cases (read : parseV6 text = some bits) : ∃ groups : List Nat, groups.length = 8 ∧ bits = assemble groups ∧
    (cutElision text.toList = none ∧ parseGroups (text.toList.splitOn ':') = some groups ∨
      ∃ before after high low, cutElision text.toList = some (before, after) ∧ highGroups before = some high ∧
        lowGroups after = some low ∧ high.length + low.length < 8 ∧
        groups = high ++ List.replicate (8 - high.length - low.length) 0 ++ low) := by
  have whole : ((cutElision text.toList).elim (parseGroups (text.toList.splitOn ':')) fun cut =>
      (highGroups cut.1).bind fun high => (lowGroups cut.2).bind fun low =>
        if high.length + low.length < 8 then some (high ++ List.replicate (8 - high.length - low.length) 0 ++ low)
        else none).bind (fun groups => if groups.length = 8 then some (assemble groups) else none) = some bits := by
    rw [← read, parseV6]
    cases cut : cutElision text.toList with
    | none => rfl
    | some pair =>
      simp only [highGroups, lowGroups, Option.elim_some, Option.bind_eq_bind, Option.bind_assoc]
      split
      · rw [Option.bind_some]
        split
        · simp only [Option.bind_some]
          split <;> rfl
        · refine congrArg _ (funext fun low => ?_)
          split <;> rfl
      · refine congrArg _ (funext fun high => ?_)
        split
        · simp only [Option.bind_some]
          split <;> rfl
        · refine congrArg _ (funext fun low => ?_)
          split <;> rfl
  obtain ⟨groups, parsed, sized⟩ := Option.bind_eq_some_iff.mp whole
  split at sized
  · rename_i eight
    refine ⟨groups, eight, (Option.some.inj sized).symm, ?_⟩
    cases cut : cutElision text.toList with
    | none =>
      rw [cut] at parsed
      exact .inl ⟨rfl, parsed⟩
    | some sides =>
      obtain ⟨before, after⟩ := sides
      rw [cut] at parsed
      obtain ⟨high, left, parsed⟩ := Option.bind_eq_some_iff.mp parsed
      obtain ⟨low, right, parsed⟩ := Option.bind_eq_some_iff.mp parsed
      split at parsed
      · rename_i room
        exact .inr ⟨before, after, high, low, rfl, left, right, room, (Option.some.inj parsed).symm⟩
      · cases parsed
  · cases sized

/-- The first of the parts between colons. -/
theorem first_part (characters : List Char) : ∃ first, characters = first ∧ characters.splitOn ':' = [first] ∨
    ∃ rest, characters = first ++ ':' :: rest ∧ characters.splitOn ':' = first :: rest.splitOn ':' := by
  by_cases colon : ':' ∈ characters
  · obtain ⟨first, rest, split, fresh⟩ := List.eq_append_cons_of_mem colon
    refine ⟨first, .inr ⟨rest, split, ?_⟩⟩
    rw [split, List.splitOn_append_cons_self_of_not_mem fresh]
  · exact ⟨characters, .inl ⟨rfl, List.splitOn_eq_singleton colon⟩⟩

theorem groups_lt {before after : List Char} {high low : List Nat} (left : highGroups before = some high)
    (right : lowGroups after = some low) (zeros : Nat) : ∀ g ∈ high ++ List.replicate zeros 0 ++ low, g < 2 ^ 16 := by
  have high_lt : ∀ g ∈ high, g < 2 ^ 16 := by
    rw [highGroups] at left
    split at left
    · obtain rfl := Option.some.inj left
      simp
    · exact mapM_parseGroup_lt left
  have low_lt : ∀ g ∈ low, g < 2 ^ 16 := by
    rw [lowGroups] at right
    split at right
    · obtain rfl := Option.some.inj right
      simp
    · exact parseGroups_lt right
  simp only [List.mem_append, List.mem_replicate]
  rintro g ((inside | ⟨-, rfl⟩) | inside)
  · exact high_lt g inside
  · decide
  · exact low_lt g inside

/-- No other characters are in an accepted text. -/
theorem isAddressChar_of_parseV6 (read : parseV6 text = some bits) : ∀ c ∈ text.toList, isAddressChar c = true := by
  obtain ⟨groups, -, -, ⟨-, parsed⟩ | ⟨before, after, high, low, cut, left, right, -, -⟩⟩ := parseV6_cases read
  · exact isAddressChar_of_splitOn (isAddressChar_of_parseGroups parsed)
  · have in_before : ∀ c ∈ before, isAddressChar c = true := by
      rw [highGroups] at left
      split at left
      · rename_i empty
        rw [List.isEmpty_iff.mp empty]
        simp
      · refine isAddressChar_of_splitOn fun part member => ?_
        obtain ⟨group, -, single⟩ := Partial.exists_of_forall₂ (Partial.mapM_eq_some_iff.mp left) member
        exact isAddressChar_of_parseGroup single
    have in_after : ∀ c ∈ after, isAddressChar c = true := by
      rw [lowGroups] at right
      split at right
      · rename_i empty
        rw [List.isEmpty_iff.mp empty]
        simp
      · exact isAddressChar_of_splitOn (isAddressChar_of_parseGroups right)
    rw [cutElision_eq_some cut]
    simp only [List.mem_append, List.mem_cons]
    rintro c (inside | rfl | rfl | inside)
    · exact in_before c inside
    · rfl
    · rfl
    · exact in_after c inside

/-- How an accepted text begins: up to four digits, which are the first group, and a colon. -/
theorem firstGroup_of_parseV6 (read : parseV6 text = some bits) : ∃ (first rest : List Char) (digits : List Nat),
    text.toList = first ++ ':' :: rest ∧ first.mapM hexDigit = some digits ∧ digits.length ≤ 4 ∧
      firstGroup bits = hexNumber digits := by
  obtain ⟨groups, eight, rfl, ⟨-, parsed⟩ | ⟨before, after, high, low, cut, left, right, room, rfl⟩⟩ := parseV6_cases read
  · obtain ⟨first, ⟨-, single⟩ | ⟨rest, whole, parts⟩⟩ := first_part text.toList
    · rw [single, parseGroups] at parsed
      split at parsed
      · obtain rfl := Option.some.inj parsed
        cases eight
      · obtain ⟨group, -, rfl⟩ := Option.map_eq_some_iff.mp parsed
        cases eight
    · rw [parts] at parsed
      obtain ⟨group, others, single, later, rfl⟩ := parseGroups_cons (List.splitOn_ne_nil ':' rest) parsed
      obtain ⟨digits, spelled, short, rfl, bound, -⟩ := parseGroup_eq_some single
      have small : ∀ g ∈ hexNumber digits :: others, g < 2 ^ 16 := List.forall_mem_cons.mpr ⟨bound, parseGroups_lt later⟩
      exact ⟨first, rest, digits, whole, spelled, short, firstGroup_ofNat small eight⟩
  · have small := groups_lt left right (8 - high.length - low.length)
    have whole := cutElision_eq_some cut
    rw [highGroups] at left
    split at left
    · rename_i empty
      obtain rfl := List.isEmpty_iff.mp empty
      obtain rfl := Option.some.inj left
      obtain ⟨zeros, count⟩ : ∃ zeros, 8 - low.length = zeros + 1 := ⟨8 - low.length - 1, by simp at room; omega⟩
      refine ⟨[], ':' :: after, [], whole, rfl, by simp, ?_⟩
      simp only [List.length_nil, Nat.sub_zero, List.nil_append, count, List.replicate_succ, List.cons_append] at small eight ⊢
      exact firstGroup_ofNat small eight
    · rename_i some_before
      obtain ⟨first, parts⟩ := first_part before
      have cut_before : ∃ behind others, before ++ ':' :: ':' :: after = first ++ ':' :: behind ∧
          before.splitOn ':' = first :: others := by
        rcases parts with ⟨same, single⟩ | ⟨rest, same, split⟩
        · exact ⟨':' :: after, [], by rw [same], single⟩
        · exact ⟨rest ++ ':' :: ':' :: after, _, by rw [same, List.append_assoc]; rfl, split⟩
      obtain ⟨behind, others, same, split⟩ := cut_before
      rw [split, List.mapM_cons] at left
      simp only [Option.bind_eq_bind, Option.bind_eq_some_iff, Option.pure_def, Option.some_inj] at left
      obtain ⟨group, single, tail, -, rfl⟩ := left
      obtain ⟨digits, spelled, short, rfl, -, -⟩ := parseGroup_eq_some single
      refine ⟨first, behind, digits, whole.trans same, spelled, short, ?_⟩
      simp only [List.cons_append] at small eight ⊢
      exact firstGroup_ofNat small eight

/-! ## The checks of an address without a zone -/

theorem hexChar_facts : ∀ v < 16, (hexChar v = 'f' ↔ v = 15) ∧ (hexChar v = 'e' ↔ v = 14) ∧
    (['8', '9', 'a', 'b'].contains (hexChar v) = true ↔ 8 ≤ v ∧ v ≤ 11) ∧
    (['c', 'd'].contains (hexChar v) = true ↔ 12 ≤ v ∧ v ≤ 13) ∧ isHex (hexChar v) = true := by decide

theorem isLinkLocal_iff {characters : List Char} : isLinkLocal characters = true ↔
    ∃ a b rest, characters = 'f' :: 'e' :: a :: b :: ':' :: rest ∧ ['8', '9', 'a', 'b'].contains a = true ∧ isHex b = true := by
  constructor
  · intro found
    rw [isLinkLocal.eq_def] at found
    split at found
    · exact ⟨_, _, _, rfl, Bool.and_eq_true_iff.mp found⟩
    · cases found
  · rintro ⟨a, b, rest, rfl, both⟩
    exact Bool.and_eq_true_iff.mpr both

theorem isUniqueLocal_iff {characters : List Char} : isUniqueLocal characters = true ↔
    ∃ a b c rest, characters = 'f' :: a :: b :: c :: ':' :: rest ∧ ['c', 'd'].contains a = true ∧ isHex b = true ∧
      isHex c = true := by
  constructor
  · intro found
    rw [isUniqueLocal.eq_def] at found
    split at found
    · obtain ⟨left, last⟩ := Bool.and_eq_true_iff.mp found
      exact ⟨_, _, _, _, rfl, (Bool.and_eq_true_iff.mp left).1, (Bool.and_eq_true_iff.mp left).2, last⟩
    · cases found
  · rintro ⟨a, b, c, rest, rfl, first, second, third⟩
    exact Bool.and_eq_true_iff.mpr ⟨Bool.and_eq_true_iff.mpr ⟨first, second⟩, third⟩

section first

variable {digits : List Nat} {more : List Char}

/-- A colon in the fifth place has four digits in front of it. -/
theorem four_digits {w x y z : Char} {rest : List Char} (solid : ':' ∉ [w, x, y, z]) (short : digits.length ≤ 4)
    (same : digits.map hexChar ++ ':' :: more = w :: x :: y :: z :: ':' :: rest) :
    ∃ a b c d, digits = [a, b, c, d] ∧ hexChar a = w ∧ hexChar b = x ∧ hexChar c = y ∧ hexChar d = z := by
  simp only [List.mem_cons, List.not_mem_nil, or_false, not_or] at solid
  obtain ⟨hw, hx, hy, hz⟩ := solid
  match digits with
  | [] => exact absurd (List.cons_eq_cons.mp same).1 hw
  | [a] => exact absurd (List.cons_eq_cons.mp (List.cons_eq_cons.mp same).2).1 hx
  | [a, b] =>
    simp only [List.map_cons, List.map_nil, List.cons_append, List.nil_append, List.cons.injEq] at same
    exact absurd same.2.2.1 hy
  | [a, b, c] =>
    simp only [List.map_cons, List.map_nil, List.cons_append, List.nil_append, List.cons.injEq] at same
    exact absurd same.2.2.2.1 hz
  | [a, b, c, d] =>
    simp only [List.map_cons, List.map_nil, List.cons_append, List.nil_append, List.cons.injEq] at same
    exact ⟨a, b, c, d, rfl, same.1, same.2.1, same.2.2.1, same.2.2.2.1⟩
  | a :: b :: c :: d :: e :: rest =>
    simp only [List.length_cons] at short
    omega

theorem hexNumber_four (a b c d : Nat) : hexNumber [a, b, c, d] = 16 * (16 * (16 * a + b) + c) + d := by
  simp [hexNumber]

/-- A number of 2^12 or more takes four digits. -/
theorem four_of_large (small : ∀ v ∈ digits, v < 16) (short : digits.length ≤ 4) (large : 2 ^ 12 ≤ hexNumber digits) :
    ∃ a b c d, digits = [a, b, c, d] := by
  match digits with
  | [] => simp [hexNumber] at large
  | [a] =>
    have ha := small a (by simp)
    simp [hexNumber] at large
    omega
  | [a, b] =>
    have ha := small a (by simp)
    have hb := small b (by simp)
    simp [hexNumber] at large
    omega
  | [a, b, c] =>
    have ha := small a (by simp)
    have hb := small b (by simp)
    have hc := small c (by simp)
    simp [hexNumber] at large
    omega
  | [a, b, c, d] => exact ⟨a, b, c, d, rfl⟩
  | a :: b :: c :: d :: e :: rest =>
    simp only [List.length_cons] at short
    omega

theorem not_colon {c : Char} (hex : isHex c = true) : ':' ≠ c := by
  rintro rfl
  exact absurd hex (by decide)

theorem isLinkLocal_digits (small : ∀ v ∈ digits, v < 16) (short : digits.length ≤ 4) :
    isLinkLocal (digits.map hexChar ++ ':' :: more) = true ↔ 0xfe80 ≤ hexNumber digits ∧ hexNumber digits ≤ 0xfebf := by
  rw [isLinkLocal_iff]
  constructor
  · rintro ⟨x, y, rest, same, third, fourth⟩
    have hx : ':' ≠ x := by
      rintro rfl
      exact absurd third (by decide)
    obtain ⟨a, b, c, d, rfl, sa, sb, rfl, rfl⟩ := four_digits (by simp [hx, not_colon fourth]) short same
    have ha := (hexChar_facts a (small a (by simp))).1.mp sa
    have hb := (hexChar_facts b (small b (by simp))).2.1.mp sb
    have hc := (hexChar_facts c (small c (by simp))).2.2.1.mp third
    have hd := small d (by simp)
    rw [hexNumber_four]
    omega
  · intro range
    obtain ⟨a, b, c, d, rfl⟩ := four_of_large small short (by omega)
    have hb := small b (by simp)
    have hc := small c (by simp)
    have hd := small d (by simp)
    rw [hexNumber_four] at range
    have sa := (hexChar_facts a (small a (by simp))).1.mpr (by omega)
    have sb := (hexChar_facts b hb).2.1.mpr (by omega)
    have sc := (hexChar_facts c hc).2.2.1.mpr (by omega)
    exact ⟨hexChar c, hexChar d, more, by simp [sa, sb], sc, (hexChar_facts d hd).2.2.2.2⟩

theorem isUniqueLocal_digits (small : ∀ v ∈ digits, v < 16) (short : digits.length ≤ 4) :
    isUniqueLocal (digits.map hexChar ++ ':' :: more) = true ↔ 0xfc00 ≤ hexNumber digits ∧ hexNumber digits ≤ 0xfdff := by
  rw [isUniqueLocal_iff]
  constructor
  · rintro ⟨x, y, z, rest, same, second, third, fourth⟩
    have hx : ':' ≠ x := by
      rintro rfl
      exact absurd second (by decide)
    obtain ⟨a, b, c, d, rfl, sa, rfl, rfl, rfl⟩ :=
      four_digits (by simp [hx, not_colon third, not_colon fourth]) short same
    have ha := (hexChar_facts a (small a (by simp))).1.mp sa
    have hb := (hexChar_facts b (small b (by simp))).2.2.2.1.mp second
    have hc := small c (by simp)
    have hd := small d (by simp)
    rw [hexNumber_four]
    omega
  · intro range
    obtain ⟨a, b, c, d, rfl⟩ := four_of_large small short (by omega)
    have hb := small b (by simp)
    have hc := small c (by simp)
    have hd := small d (by simp)
    rw [hexNumber_four] at range
    have sa := (hexChar_facts a (small a (by simp))).1.mpr (by omega)
    have sb := (hexChar_facts b hb).2.2.2.1.mpr (by omega)
    exact ⟨hexChar b, hexChar c, hexChar d, more, by simp [sa], sb, (hexChar_facts c hc).2.2.2.2, (hexChar_facts d hd).2.2.2.2⟩

/-- Two letters f come first in ff00 and above, and in a shortened group. -/
theorem prefix_digits (small : ∀ v ∈ digits, v < 16) (short : digits.length ≤ 4) :
    (['f', 'f'].isPrefixOf (digits.map hexChar ++ ':' :: more) = true →
      hexNumber digits = 0xff ∨ 0xff0 ≤ hexNumber digits ∧ hexNumber digits ≤ 0xfff ∨ 0xff00 ≤ hexNumber digits) ∧
    (0xff00 ≤ hexNumber digits → ['f', 'f'].isPrefixOf (digits.map hexChar ++ ':' :: more) = true) := by
  constructor
  · intro found
    obtain ⟨rest, same⟩ := List.isPrefixOf_iff_prefix.mp found
    match digits with
    | [] => simp at same
    | [a] => simp at same
    | a :: b :: tail =>
      simp only [List.map_cons, List.cons_append, List.nil_append, List.cons.injEq] at same
      have ha := (hexChar_facts a (small a (by simp))).1.mp same.1.symm
      have hb := (hexChar_facts b (small b (by simp))).1.mp same.2.1.symm
      match tail with
      | [] => simp [hexNumber, ha, hb]
      | [c] =>
        have hc := small c (by simp)
        simp only [hexNumber, List.foldl_cons, List.foldl_nil]
        omega
      | [c, d] =>
        have hc := small c (by simp)
        have hd := small d (by simp)
        rw [hexNumber_four]
        omega
      | c :: d :: e :: more =>
        simp only [List.length_cons] at short
        omega
  · intro large
    obtain ⟨a, b, c, d, rfl⟩ := four_of_large small short (by omega)
    have ha := small a (by simp)
    have hb := small b (by simp)
    have hc := small c (by simp)
    have hd := small d (by simp)
    rw [hexNumber_four] at large
    have sa := (hexChar_facts a ha).1.mpr (by omega)
    have sb := (hexChar_facts b hb).1.mpr (by omega)
    simp [sa, sb]

end first

/-! ## Ranges -/

theorem agree_below_iff {w n : Nat} (x y : BitVec w) (inside : n ≤ w) :
    (∀ i < n, x.getMsbD i = y.getMsbD i) ↔ x.toNat / 2 ^ (w - n) = y.toNat / 2 ^ (w - n) := by
  rw [← Nat.shiftRight_eq_div_pow, ← Nat.shiftRight_eq_div_pow]
  constructor
  · intro agree
    refine Nat.eq_of_testBit_eq fun j => ?_
    rw [Nat.testBit_shiftRight, Nat.testBit_shiftRight]
    by_cases low : w - n + j < w
    · have bit := agree (w - 1 - (w - n + j)) (by omega)
      rw [BitVec.getMsbD_eq_getLsbD, BitVec.getMsbD_eq_getLsbD, show w - 1 - (w - 1 - (w - n + j)) = w - n + j by omega,
        decide_eq_true (by omega), Bool.true_and, Bool.true_and] at bit
      exact bit
    · have out (z : BitVec w) : z.toNat.testBit (w - n + j) = false := BitVec.getLsbD_of_ge z _ (by omega)
      rw [out, out]
  · intro same i less
    have bit := congrArg (fun z => Nat.testBit z (n - 1 - i)) same
    simp only [Nat.testBit_shiftRight] at bit
    rw [show w - n + (n - 1 - i) = w - 1 - i by omega] at bit
    rw [BitVec.getMsbD_eq_getLsbD, BitVec.getMsbD_eq_getLsbD]
    exact congrArg _ bit

/-- The range of the code is the block that its text stands for. -/
def fits (entry : String) : Bool :=
  match parseBlock entry with
  | some ⟨.v4 base, length⟩ => length ≠ 0 && length ≤ 32 && (makeRange entry).mask = mask (some (length : Int)) &&
      (makeRange entry).base = base &&& mask (some (length : Int))
  | _ => false

theorem range_iff {entry : String} (fit : fits entry = true) (bits : BitVec 32) :
    bits &&& (makeRange entry).mask = (makeRange entry).base ↔
      ∃ block, parseBlock entry = some block ∧ block.Contains (.v4 bits) := by
  rw [fits] at fit
  split at fit
  · rename_i base length parsed
    simp only [Bool.and_eq_true, decide_eq_true_eq] at fit
    obtain ⟨⟨⟨some_length, short⟩, mask_eq⟩, base_eq⟩ := fit
    rw [mask_eq, base_eq, parsed, and_mask_eq_iff (by omega)]
    have all : maskedBits length = length := by
      rw [maskedBits, if_neg some_length]
      omega
    simp [Block.Contains, all]
  · cases fit

def listedV4 : List String := listedRanges.take 14

def listedV6 : List String := listedRanges.drop 14

theorem listed_v4_iff (bits : BitVec 32) :
    Listed (.v4 bits) ↔ (BLOCKED_IPV4_RANGES.any fun r => bits &&& r.mask = r.base) = true := by
  have fit : ∀ entry ∈ listedV4, fits entry = true := by decide
  have table : BLOCKED_IPV4_RANGES = listedV4.map makeRange := rfl
  have others : ∀ entry ∈ listedV6, ((parseBlock entry).all fun block => decide (block.address.width = 128)) = true := by
    decide
  have split : listedRanges = listedV4 ++ listedV6 := rfl
  rw [table, List.any_map, List.any_eq_true, Listed, split]
  simp only [List.mem_append, Function.comp, decide_eq_true_eq]
  constructor
  · rintro ⟨entry, inside | inside, block, parsed, contains⟩
    · exact ⟨entry, inside, (range_iff (fit entry inside) bits).mpr ⟨block, parsed, contains⟩⟩
    · have wide := others entry inside
      rw [parsed] at wide
      obtain ⟨base | base, length⟩ := block
      · cases wide
      · cases contains
  · rintro ⟨entry, inside, same⟩
    obtain ⟨block, parsed, contains⟩ := (range_iff (fit entry inside) bits).mp same
    exact ⟨entry, .inl inside, block, parsed, contains⟩

theorem contains_v6_iff {base bits : BitVec 128} {length : Nat} (inside : length ≤ 128) :
    (Block.mk (.v6 base) length).Contains (.v6 bits) ↔ bits.toNat / 2 ^ (128 - length) = base.toNat / 2 ^ (128 - length) :=
  agree_below_iff bits base inside

/-- Which addresses of the wide kind are listed, by their first group. -/
theorem listed_v6_iff (bits : BitVec 128) : Listed (.v6 bits) ↔ bits = 0 ∨ bits = 1 ∨
    (0xfe80 ≤ firstGroup bits ∧ firstGroup bits ≤ 0xfebf) ∨ (0xfc00 ≤ firstGroup bits ∧ firstGroup bits ≤ 0xfdff) ∨
    0xff00 ≤ firstGroup bits := by
  have narrow : ∀ entry ∈ listedV4, ((parseBlock entry).all fun block => decide (block.address.width = 32)) = true := by
    decide
  have blocks : listedV6.map parseBlock = [some ⟨.v6 0, 128⟩, some ⟨.v6 1, 128⟩, 
      some ⟨.v6 (.ofNat 128 (0xfe80 * 2 ^ 112)), 10⟩, some ⟨.v6 (.ofNat 128 (0xfc00 * 2 ^ 112)), 7⟩,
      some ⟨.v6 (.ofNat 128 (0xfd000ec2 * 2 ^ 96 + 0x254)), 128⟩, some ⟨.v6 (.ofNat 128 (0xff00 * 2 ^ 112)), 8⟩] := by
    decide
  have split : listedRanges = listedV4 ++ listedV6 := rfl
  have only : Listed (.v6 bits) ↔ ∃ block : Block, some block ∈ listedV6.map parseBlock ∧ block.Contains (.v6 bits) := by
    rw [Listed, split]
    constructor
    · rintro ⟨entry, inside, block, parsed, contains⟩
      rcases List.mem_append.mp inside with inside | inside
      · have thin := narrow entry inside
        rw [parsed] at thin
        obtain ⟨base | base, length⟩ := block
        · cases contains
        · cases thin
      · exact ⟨block, parsed ▸ List.mem_map_of_mem inside, contains⟩
    · rintro ⟨block, inside, contains⟩
      obtain ⟨entry, listed, parsed⟩ := List.mem_map.mp inside
      exact ⟨entry, List.mem_append_right _ listed, block, parsed, contains⟩
  have bound := bits.isLt
  have zero : bits = 0 ↔ bits.toNat = 0 := BitVec.toNat_inj.symm
  have one : bits = 1 ↔ bits.toNat = 1 := BitVec.toNat_inj.symm
  have base0 : (0 : BitVec 128).toNat = 0 := rfl
  have base1 : (1 : BitVec 128).toNat = 1 := rfl
  rw [only, blocks]
  simp only [List.mem_cons, Option.some.injEq, List.not_mem_nil, or_false, or_and_right, exists_or, exists_eq_left]
  rw [contains_v6_iff (by decide), contains_v6_iff (by decide), contains_v6_iff (by decide), contains_v6_iff (by decide),
    contains_v6_iff (by decide), contains_v6_iff (by decide), zero, one, firstGroup]
  simp only [base0, base1, BitVec.toNat_ofNat]
  omega

/-! ## Mapped addresses -/

theorem eq_of_toLower {d : Char} (plain : d.isLower = false) (lowered : c.toLower = d) : c = d := by
  by_cases upper : 65 ≤ c.toNat ∧ c.toNat ≤ 90
  · have small : ∀ n < 91, 65 ≤ n → (Char.ofNat n).toLower.isLower = true := by decide
    have letter := small c.toNat (by omega) upper.1
    rw [Char.ofNat_toNat, lowered, plain] at letter
    cases letter
  · delta Char.toLower at lowered
    rw [dif_neg] at lowered
    · exact lowered
    · exact fun capital => upper ⟨UInt32.le_iff_toNat_le.mp capital.1, UInt32.le_iff_toNat_le.mp capital.2⟩

/-- Digits and points stay what they are in lower case. -/
theorem map_toLower_eq {characters lowered : List Char} (plain : ∀ c ∈ lowered, c.isLower = false)
    (same : characters.map Char.toLower = lowered) : characters = lowered := by
  induction characters generalizing lowered with
  | nil => exact same
  | cons c rest ih =>
    rw [List.map_cons] at same
    subst same
    obtain ⟨first, plain⟩ := List.forall_mem_cons.mp plain
    have here := eq_of_toLower first rfl
    have later := ih plain rfl
    rw [← here, ← later]

/-- A dotted mapped text, whatever the case of its letters. -/
theorem ipv4Mapped_spelled {rest : String} (mapped : ipv4Mapped (toLowerCase text) = some rest) :
    ∃ group, text.toList = ':' :: ':' :: (group ++ ':' :: rest.toList) ∧ group.map Char.toLower = "ffff".toList ∧
      (rest.toList.splitOn '.').length = 4 ∧ ∀ c ∈ rest.toList, c.isDigit = true ∨ c = '.' := by
  rw [ipv4Mapped] at mapped
  split at mapped
  · rename_i tail spelled
    simp only at mapped
    split at mapped
    · rename_i dotted
      obtain rfl := Option.some.inj mapped
      rw [toLowerCase, String.toList_ofList] at spelled
      simp only [List.map_eq_cons_iff] at spelled
      obtain ⟨c1, _, whole, h1, c2, _, rfl, h2, f1, _, rfl, hf1, f2, _, rfl, hf2, f3, _, rfl, hf3, f4, _, rfl, hf4, c3,
        behind, rfl, h3, same⟩ := spelled
      have numeric : ∀ c ∈ tail, c.isDigit = true ∨ c = '.' := by
        intro c member
        refine (@mem_splitOn c tail '.' member).symm.imp_left fun ⟨part, inside, holds⟩ => ?_
        exact List.all_eq_true.mp (dotted.2 part inside).2 c holds
      have plain : ∀ c ∈ tail, c.isLower = false := by
        intro c member
        rcases numeric c member with digit | rfl
        · have bounds := digit_bounds digit
          have small : ∀ n < 58, (Char.ofNat n).isLower = false := by decide
          have here := small c.toNat (by omega)
          rwa [Char.ofNat_toNat] at here
        · rfl
      rw [String.toList_ofList]
      have behind_eq := map_toLower_eq plain same
      refine ⟨[f1, f2, f3, f4], ?_, ?_, dotted.1, numeric⟩
      · rw [whole, eq_of_toLower (by decide) h1, eq_of_toLower (by decide) h2, eq_of_toLower (by decide) h3, behind_eq]
        rfl
      · simp [hf1, hf2, hf3, hf4]
    · cases mapped
  · cases mapped

theorem mapped_spec {rest : String} (read : parseV6 text = some bits) (mapped : ipv4Mapped (toLowerCase text) = some rest) :
    ∃ v, parseV4 rest = some v ∧ unmapped bits = .v4 v := by
  obtain ⟨group, whole, spelled, four, numeric⟩ := ipv4Mapped_spelled mapped
  have free : ':' ∉ rest.toList := fun colon => absurd (numeric ':' colon) (by decide)
  have cut : cutElision text.toList = some ([], group ++ ':' :: rest.toList) := by
    rw [whole]
    rfl
  obtain ⟨groups, -, rfl, ⟨uncut, -⟩ | ⟨before, after, high, low, cut', left, right, -, rfl⟩⟩ := parseV6_cases read
  · rw [cut] at uncut
    cases uncut
  · rw [cut] at cut'
    obtain ⟨rfl, rfl⟩ := Prod.mk.inj (Option.some.inj cut')
    obtain rfl : [] = high := Option.some.inj left
    have unparted : ':' ∉ group := by
      intro member
      have lowered : Char.toLower ':' ∈ group.map Char.toLower := List.mem_map_of_mem member
      rw [spelled] at lowered
      exact absurd lowered (by decide)
    rw [lowGroups, if_neg (by simp), List.splitOn_append_cons_self_of_not_mem unparted, List.splitOn_eq_singleton free] at right
    obtain ⟨first, others, single, later, rfl⟩ := parseGroups_cons (List.cons_ne_nil _ _) right
    have first_eq : first = 0xffff := by
      obtain ⟨digits, hex, -, rfl, -⟩ := parseGroup_eq_some single
      obtain ⟨lowered, small⟩ := mapM_hexDigit hex
      have letters : digits.map hexChar = ['f', 'f', 'f', 'f'] := by rw [← lowered, spelled]; rfl
      simp only [List.map_eq_cons_iff, List.map_eq_nil_iff] at letters
      obtain ⟨a, _, rfl, sa, b, _, rfl, sb, c, _, rfl, sc, d, _, rfl, sd, rfl⟩ := letters
      have fifteen {v : Nat} (member : v ∈ [a, b, c, d]) (same : hexChar v = 'f') : v = 15 :=
        (hexChar_facts v (small v member)).1.mp same
      rw [fifteen (by simp) sa, fifteen (by simp) sb, fifteen (by simp) sc, fifteen (by simp) sd]
      rfl
    rw [parseGroups] at later
    cases dotted : parseV4 (String.ofList rest.toList) with
    | none =>
      rw [dotted] at later
      obtain ⟨last, hex, -⟩ := Option.map_eq_some_iff.mp later
      have pointless : '.' ∉ rest.toList := fun member => absurd (isHex_of_parseGroup hex '.' member) (by decide)
      rw [List.splitOn_eq_singleton pointless] at four
      cases four
    | some v =>
      rw [dotted] at later
      rw [String.ofList_toList] at dotted
      obtain rfl := Option.some.inj later
      refine ⟨v, dotted, ?_⟩
      have number : (assemble ([] ++ List.replicate (8 - ([] : List Nat).length - [first, v.toNat / 2 ^ 16, v.toNat % 2 ^ 16].length) 0 ++
          [first, v.toNat / 2 ^ 16, v.toNat % 2 ^ 16])).toNat = 0xffff * 2 ^ 32 + v.toNat := by
        have bound := v.isLt
        rw [first_eq, assemble, BitVec.toNat_ofNat]
        simp [List.replicate]
        omega
      have bound := v.isLt
      rw [unmapped, number, if_pos (by omega)]
      congr 1
      apply BitVec.eq_of_toNat_eq
      rw [BitVec.toNat_ofNat]
      omega

/-! ## The answer for a text -/

variable {address : Address}

theorem isBlockedIpv4_iff {ip : String} {v : BitVec 32} (read : parseV4 ip = some v) :
    isBlockedIpv4 ip = true ↔ Listed (.v4 v) := by
  rw [listed_v4_iff, isBlockedIpv4, ipv4ToInt_of_parseV4 read]

theorem unbracket_eq (plain : ∀ c ∈ text.toList, isAddressChar c = true) : unbracket text = text := by
  have unclosed : text.toList.getLast? ≠ some ']' :=
    fun last => absurd (plain ']' (List.mem_of_getLast? last)) (by decide)
  rw [unbracket]
  split
  · rename_i rest spelled
    exact absurd (plain '[' (spelled ▸ List.mem_cons_self)) (by decide)
  · rw [if_neg unclosed, String.ofList_toList]

/-- An address with a zone is let through. -/
theorem isBlockedIpv6_of_zoned (zoned : Zoned text) : isBlockedIpv6 text = false := by
  have inside : text.toList.contains '%' = true := List.contains_iff_mem.mpr zoned
  rw [isBlockedIpv6, if_pos inside]
  decide

theorem eq_of_toLowerCase {spelled : String} (plain : spelled.toList.any Char.isLower = false)
    (lowered : toLowerCase text = spelled) : text = spelled := by
  rw [toLowerCase] at lowered
  have characters := congrArg String.toList lowered
  rw [String.toList_ofList] at characters
  exact String.toList_injective (map_toLower_eq (fun c member => eq_false_of_ne_true (List.any_eq_false.mp plain c member)) characters)

/-- The answer for an address without a zone. -/
theorem isBlockedIpv6_iff (unread : parseV4 text = none) (read : parseV6 text = some bits) (unzoned : ¬ Zoned text) :
    isBlockedIpv6 text = true ↔ Listed (unmapped bits) ∧ Recognized text (unmapped bits) ∨
      ∃ wide, unmapped bits = .v6 wide ∧ Shortened wide ∧ Bare text := by
  have outside : ¬ text.toList.contains '%' = true := fun inside => unzoned (List.contains_iff_mem.mp inside)
  rw [isBlockedIpv6, if_neg outside, unbracket_eq (isAddressChar_of_parseV6 read)]
  have shortest : toLowerCase text = "::" ∨ toLowerCase text = "::1" ↔ text = "::" ∨ text = "::1" := by
    refine or_congr ⟨eq_of_toLowerCase (by decide), ?_⟩ ⟨eq_of_toLowerCase (by decide), ?_⟩
    · rintro rfl
      rfl
    · rintro rfl
      rfl
  by_cases short : text = "::" ∨ text = "::1"
  · rw [if_pos (shortest.mpr short)]
    refine iff_of_true rfl (.inl ?_)
    rcases short with rfl | rfl
    · obtain rfl : 0 = bits := Option.some.inj ((by decide : parseV6 "::" = some 0).symm.trans read)
      exact ⟨(listed_v6_iff 0).mpr (.inl rfl), unzoned, fun _ => rfl, fun impossible => absurd impossible (by decide)⟩
    · obtain rfl : 1 = bits := Option.some.inj ((by decide : parseV6 "::1" = some 1).symm.trans read)
      exact ⟨(listed_v6_iff 1).mpr (.inr (.inl rfl)), unzoned, fun impossible => absurd impossible (by decide), fun _ => rfl⟩
  · rw [if_neg (mt shortest.mp short)]
    cases mapped : ipv4Mapped (toLowerCase text) with
    | some rest =>
      obtain ⟨v, dotted, narrow⟩ := mapped_spec read mapped
      simp only [narrow, isBlockedIpv4_iff dotted, Recognized, mapped]
      simp
    | none =>
      obtain ⟨first, rest, digits, whole, spelled, few, top⟩ := firstGroup_of_parseV6 read
      obtain ⟨lowered, small⟩ := mapM_hexDigit spelled
      have form : (toLowerCase text).toList = digits.map hexChar ++ ':' :: rest.map Char.toLower := by
        rw [toLowerCase, String.toList_ofList, whole, List.map_append, lowered]
        rfl
      have metadata : toLowerCase text = "fd00:ec2::254" → isUniqueLocal (toLowerCase text).toList = true := by
        intro same
        rw [same]
        decide
      have prefixed := @prefix_digits digits (rest.map Char.toLower) small few
      have linkLocal := @isLinkLocal_digits digits (rest.map Char.toLower) small few
      have uniqueLocal := @isUniqueLocal_digits digits (rest.map Char.toLower) small few
      rw [← form, ← top] at prefixed linkLocal uniqueLocal
      have answer : (isLinkLocal (toLowerCase text).toList || isUniqueLocal (toLowerCase text).toList ||
          toLowerCase text = "fd00:ec2::254" || ['f', 'f'].isPrefixOf (toLowerCase text).toList) = true ↔
          (0xfe80 ≤ firstGroup bits ∧ firstGroup bits ≤ 0xfebf) ∨ (0xfc00 ≤ firstGroup bits ∧ firstGroup bits ≤ 0xfdff) ∨
            0xff00 ≤ firstGroup bits ∨ Shortened bits ∧ Bare text := by
        rw [Bool.or_eq_true, Bool.or_eq_true, Bool.or_eq_true, decide_eq_true_eq, linkLocal]
        rw [Bare, Shortened]
        constructor
        · rintro (((range | found) | found) | found)
          · exact .inl range
          · exact .inr (.inl (uniqueLocal.mp found))
          · exact .inr (.inl (uniqueLocal.mp (metadata found)))
          · rcases prefixed.1 found with range | range | range
            · exact .inr (.inr (.inr ⟨.inl range, unzoned, found⟩))
            · exact .inr (.inr (.inr ⟨.inr range, unzoned, found⟩))
            · exact .inr (.inr (.inl range))
        · rintro (range | range | range | ⟨-, -, found⟩)
          · exact .inl (.inl (.inl range))
          · exact .inl (.inl (.inr (uniqueLocal.mpr range)))
          · exact .inr (prefixed.2 range)
          · exact .inr found
      simp only [answer]
      rw [unmapped]
      split
      · rename_i narrow
        have zero : firstGroup bits = 0 := by
          rw [firstGroup]
          omega
        rw [Shortened, Recognized, unread, mapped, zero]
        simp
      · have wide : Recognized text (.v6 bits) ↔ bits ≠ 0 ∧ bits ≠ 1 := by
          rw [not_or] at short
          rw [Recognized]
          simp [unzoned, short.1, short.2]
        rw [wide, listed_v6_iff]
        simp only [Address.v6.injEq, exists_eq_left']
        have apart (range : 0 < firstGroup bits) : bits ≠ 0 ∧ bits ≠ 1 := by
          constructor
          · rintro rfl
            exact absurd range (by decide)
          · rintro rfl
            exact absurd range (by decide)
        constructor
        · rintro (range | range | range | bare)
          · exact .inl ⟨.inr (.inr (.inl range)), apart (by omega)⟩
          · exact .inl ⟨.inr (.inr (.inr (.inl range))), apart (by omega)⟩
          · exact .inl ⟨.inr (.inr (.inr (.inr range))), apart (by omega)⟩
          · exact .inr bare
        · rintro (⟨zero | one | range, other⟩ | bare)
          · exact absurd zero other.1
          · exact absurd one other.2
          · rcases range with range | range | range
            · exact .inl range
            · exact .inr (.inl range)
            · exact .inr (.inr (.inl range))
          · exact .inr (.inr (.inr bare))

theorem zoned_of_parts {addr zone : String} (parts : split text '%' = [addr, zone]) : Zoned text := by
  by_contra outside
  rw [split, List.splitOn_eq_singleton outside] at parts
  cases parts

theorem isBlockedIp_iff (known : denoted text = some address) : isBlockedIp text = true ↔
    Listed address ∧ Recognized text address ∨ ∃ bits, address = .v6 bits ∧ Shortened bits ∧ Bare text := by
  rw [denoted] at known
  split at known
  · rename_i v read
    obtain rfl := Option.some.inj known
    rw [isBlockedIp, isIPv4, read, Option.isSome_some, if_pos rfl, isBlockedIpv4_iff read, Recognized, read]
    simp
  · rename_i unread
    split at known
    · rename_i wide
      rw [isBlockedIp, isIPv4, unread, Option.isSome_none, if_neg Bool.false_ne_true, if_pos wide]
      obtain ⟨bits, read, rfl⟩ := Option.map_eq_some_iff.mp known
      rw [isIPv6] at wide
      split at wide
      · rename_i addr parts
        rw [parts, eq_of_split parts] at read
        refine isBlockedIpv6_iff unread read fun zoned => ?_
        exact absurd (isAddressChar_of_parseV6 read '%' zoned) (by decide)
      · rename_i addr zone parts
        have zoned := zoned_of_parts parts
        rw [isBlockedIpv6_of_zoned zoned]
        refine iff_of_false Bool.false_ne_true ?_
        rintro (⟨-, recognized⟩ | ⟨_, -, -, bare⟩)
        · cases kind : unmapped bits with
          | v6 wide =>
            rw [kind] at recognized
            exact recognized.1 zoned
          | v4 narrow =>
            rw [kind, Recognized, unread] at recognized
            obtain ⟨rest, mapped⟩ := Option.isSome_iff_exists.mp (recognized.resolve_left Bool.false_ne_true)
            obtain ⟨group, whole, letters, -, numeric⟩ := ipv4Mapped_spelled mapped
            rw [Zoned, whole] at zoned
            simp only [List.mem_cons, List.mem_append] at zoned
            rcases zoned with impossible | impossible | inside | impossible | inside
            · cases impossible
            · cases impossible
            · have lowered : Char.toLower '%' ∈ group.map Char.toLower := List.mem_map_of_mem inside
              rw [letters] at lowered
              exact absurd lowered (by decide)
            · cases impossible
            · exact absurd (numeric '%' inside) (by decide)
        · exact bare.1 zoned
      · cases wide
    · cases known

/-- Two texts of one address get the same answer, and yes for a listed address, exactly when they
are spelled the same way where the code looks at the spelling. -/
theorem spelling_iff {s t : String} (first : denoted s = some address) (second : denoted t = some address) :
    isBlockedIp s = isBlockedIp t ∧ (Listed address → isBlockedIp s = true) ↔ SameSpelling s t address := by
  rw [Bool.eq_iff_iff, isBlockedIp_iff first, isBlockedIp_iff second, SameSpelling.eq_def]
  cases address with
  | v4 bits =>
    simp only [reduceCtorEq, false_and, exists_false, or_false, and_true]
    by_cases listed : Listed (.v4 bits)
    · simp only [listed, true_and, true_implies]
      exact ⟨fun ⟨same, here⟩ => ⟨here, same.mp here⟩, fun ⟨here, there⟩ => ⟨iff_of_true here there, here⟩⟩
    · simp [listed]
  | v6 bits =>
    have disjoint (listed : Listed (.v6 bits)) : ¬ Shortened bits := by
      rw [Shortened]
      rcases (listed_v6_iff bits).mp listed with rfl | rfl | range | range | range
      · decide
      · decide
      · omega
      · omega
      · omega
    simp only [Address.v6.injEq, exists_eq_left']
    by_cases listed : Listed (.v6 bits)
    · simp only [listed, disjoint listed, false_and, or_false, true_and, true_implies, false_implies, and_true]
      exact ⟨fun ⟨same, here⟩ => ⟨here, same.mp here⟩, fun ⟨here, there⟩ => ⟨iff_of_true here there, here⟩⟩
    · by_cases short : Shortened bits
      · simp [listed, short]
      · simp [listed, short]

/-- A link-local address in two spellings. -/
def linkLocal : Address := .v6 (.ofNat 128 (0xfe80 * 2 ^ 112 + 1))

theorem linkLocal_spellings : isBlockedIp "fe80::1" = isBlockedIp "FE80:0:0::0001" ∧
    (Listed linkLocal → isBlockedIp "fe80::1" = true) ↔ SameSpelling "fe80::1" "FE80:0:0::0001" linkLocal :=
  spelling_iff (by decide) (by decide)

/-- The loopback address is blocked in one spelling and let through in another. -/
theorem loopback_spellings : ∃ address, denoted "::1" = some address ∧ denoted "0:0:0:0:0:0:0:1" = some address ∧
    Listed address ∧ isBlockedIp "::1" = true ∧ isBlockedIp "0:0:0:0:0:0:0:1" = false := by
  refine ⟨.v6 1, by decide, by decide, (listed_v6_iff 1).mpr (.inr (.inl rfl)), ?_, ?_⟩
  · decide
  · decide

end Octraban.SsrfGuard
