import Octraban.Core.JavaScript

/-! The IP allow-list of apiKeyAuth.js. Every address is read as 32 bits, whatever its
family; what an allow-list is for is stated on parsed addresses and blocks. -/
namespace Octraban.AllowList
open JavaScript

def ipv4ToInt (ip : String) : BitVec 32 :=
  (split ip '.').foldl (fun acc octet => acc <<< 8 ||| toInt32 (parseInt octet)) 0

def mask (length : Option Int) : BitVec 32 :=
  if length = some 0 then 0
  else ~~~((1#32 <<< shiftCount (length.bind fun length => roundInt (32 - length))) - 1#32)

def ipMatchesCidr (ip cidr : String) : Bool :=
  let (range, prefixStr) := match split cidr '/' with
    | range :: prefixStr :: _ => (range, prefixStr)
    | _ => (cidr, "32")
  let mask := mask (parseInt prefixStr)
  ipv4ToInt ip &&& mask = ipv4ToInt range &&& mask

def ipInCidrList (ip : String) (cidrList : List String) : Bool :=
  if cidrList.isEmpty then true else cidrList.any fun cidr => ipMatchesCidr ip cidr

inductive Address where
  | v4 (bits : BitVec 32)
  | v6 (bits : BitVec 128)

def Address.width : Address → Nat
  | v4 _ => 32
  | v6 _ => 128

/-- A decimal numeral without leading zeros, up to `bound`. -/
def parseNumeral (bound : Nat) (text : String) : Option Nat :=
  let digits := text.toList
  if digits ≠ [] ∧ digits.all Char.isDigit ∧ (digits.head? = some '0' → digits.length = 1) ∧
      value digits ≤ bound then
    some (value digits)
  else none

def parseV4 (text : String) : Option (BitVec 32) :=
  match (split text '.').map (parseNumeral 255) with
  | [some a, some b, some c, some d] => some (BitVec.ofNat 32 (((a * 256 + b) * 256 + c) * 256 + d))
  | _ => none

/-- One to four hexadecimal digits. -/
def parseGroup (text : List Char) : Option Nat :=
  if text.length = 0 ∨ 4 < text.length then none
  else (text.mapM hexDigit).map fun digits => digits.foldl (fun n digit => 16 * n + digit) 0

/-- The 16-bit groups of a part of an IPv6 address; the last two may be written as an IPv4 address. -/
def parseGroups : List (List Char) → Option (List Nat)
  | [] => some []
  | [last] =>
    match parseV4 (String.ofList last) with
    | some bits => some [bits.toNat / 2 ^ 16, bits.toNat % 2 ^ 16]
    | none => (parseGroup last).map fun group => [group]
  | text :: texts => do
    let group ← parseGroup text
    let groups ← parseGroups texts
    some (group :: groups)

def cutElision : List Char → Option (List Char × List Char)
  | ':' :: ':' :: rest => some ([], rest)
  | c :: rest => (cutElision rest).map fun (before, after) => (c :: before, after)
  | [] => none

def parseV6 (text : String) : Option (BitVec 128) := do
  let groups ← match cutElision text.toList with
    | none => parseGroups (text.toList.splitOn ':')
    | some (before, after) => do
      let high ← if before.isEmpty then some [] else (before.splitOn ':').mapM parseGroup
      let low ← if after.isEmpty then some [] else parseGroups (after.splitOn ':')
      if high.length + low.length < 8 then
        some (high ++ List.replicate (8 - high.length - low.length) 0 ++ low)
      else none
  if groups.length = 8 then some (BitVec.ofNat 128 (groups.foldl (fun n group => n * 2 ^ 16 + group) 0))
  else none

def parseAddress (text : String) : Option Address :=
  match parseV4 text with
  | some bits => some (.v4 bits)
  | none => (parseV6 text).map .v6

/-- An address, or a block of the addresses that share its first `length` bits. -/
structure Block where
  address : Address
  length : Nat

def parseBlock (entry : String) : Option Block :=
  match split entry '/' with
  | [text] => (parseAddress text).map fun address => ⟨address, address.width⟩
  | [text, lengthText] => do
    let address ← parseAddress text
    let length ← parseNumeral address.width lengthText
    some ⟨address, length⟩
  | _ => none

def Block.Contains : Block → Address → Prop
  | ⟨.v4 base, length⟩, .v4 bits => ∀ i < length, bits.getMsbD i = base.getMsbD i
  | ⟨.v6 base, length⟩, .v6 bits => ∀ i < length, bits.getMsbD i = base.getMsbD i
  | _, _ => False

/-- The client is an address of a block of the list. -/
def Permitted (ip : String) (cidrList : List String) : Prop :=
  ∃ entry ∈ cidrList, ∃ block address, parseBlock entry = some block ∧
    parseAddress ip = some address ∧ block.Contains address

def IsV4Block (entry : String) : Prop := ∃ base length, parseBlock entry = some ⟨.v4 base, length⟩

/-- What an allow-list is for. -/
structure Exact (ip : String) (cidrList : List String) : Prop where
  sound : ipInCidrList ip cidrList = true → Permitted ip cidrList
  complete : (parseV4 ip).isSome → (∀ entry ∈ cidrList, IsV4Block entry) →
    (ipInCidrList ip cidrList = true ↔ Permitted ip cidrList)

/-- The number of bits the mask of a prefix length keeps. -/
def maskedBits (length : Nat) : Nat := if length = 0 then 0 else (length - 1) % 32 + 1

theorem parseInt_numeral {bound n : Nat} {text : String} (parsed : parseNumeral bound text = some n)
    (small : bound < 2 ^ 53) : n ≤ bound ∧ parseInt text = some (n : Int) := by
  simp only [parseNumeral] at parsed
  split at parsed
  · rename_i numeral
    obtain ⟨some_digit, digits, -, bounded⟩ := numeral
    cases parsed
    have read := parseInt_digits some_digit digits (by omega)
    rw [String.ofList_toList] at read
    exact ⟨bounded, read⟩
  · contradiction

theorem toInt32_octet {n : Nat} {text : String} (parsed : parseNumeral 255 text = some n) :
    n < 256 ∧ toInt32 (parseInt text) = BitVec.ofNat 32 n := by
  obtain ⟨bounded, read⟩ := parseInt_numeral parsed (by decide)
  rw [read]
  exact ⟨by omega, BitVec.ofInt_natCast 32 n⟩

/-- The shifts put a well-formed IPv4 address together. -/
theorem ipv4ToInt_of_parseV4 {ip : String} {bits : BitVec 32} (parsed : parseV4 ip = some bits) :
    ipv4ToInt ip = bits := by
  unfold parseV4 at parsed
  split at parsed
  · rename_i a b c d octets
    cases parsed
    simp only [List.map_eq_cons_iff, List.map_eq_nil_iff] at octets
    obtain ⟨first, _, same, ha, second, _, rfl, hb, third, _, rfl, hc, fourth, _, rfl, hd, rfl⟩ := octets
    obtain ⟨la, ra⟩ := toInt32_octet ha
    obtain ⟨lb, rb⟩ := toInt32_octet hb
    obtain ⟨lc, rc⟩ := toInt32_octet hc
    obtain ⟨ld, rd⟩ := toInt32_octet hd
    have shifted : (0 : BitVec 32) <<< 8 ||| BitVec.ofNat 32 a = BitVec.ofNat 32 a := by simp
    simp only [ipv4ToInt, same, List.foldl_cons, List.foldl_nil, ra, rb, rc, rd]
    rw [shifted, shift_or_octet (by omega) lb, shift_or_octet (by omega) lc, shift_or_octet (by omega) ld]
  · contradiction

theorem and_mask_eq_iff {length : Nat} (small : length ≤ 128) (x y : BitVec 32) :
    x &&& mask (some (length : Int)) = y &&& mask (some (length : Int)) ↔
      ∀ i < maskedBits length, x.getMsbD i = y.getMsbD i := by
  by_cases zero : length = 0
  · subst zero
    simp [mask, maskedBits]
  · have count : 32 - shiftCount (roundInt (32 - (length : Int))) = maskedBits length := by
      rw [roundInt_of_lt (by omega), shiftCount, toInt32, Option.elim_some, BitVec.toNat_ofInt, maskedBits,
        if_neg zero]
      omega
    have positive : some (length : Int) ≠ some 0 := by simpa using zero
    rw [mask, if_neg positive, Option.bind_some, and_highMask_eq_iff (shiftCount_lt _), count]

theorem eq_of_split {text part : String} {separator : Char} (whole : split text separator = [part]) :
    part = text := by
  simp only [split, List.map_eq_cons_iff, List.map_eq_nil_iff] at whole
  obtain ⟨characters, _, same, rfl, rfl⟩ := whole
  have joined : [separator].intercalate (text.toList.splitOn separator) = text.toList :=
    List.intercalate_splitOn separator
  rw [same] at joined
  have characters_eq : characters = text.toList := by simpa [List.intercalate] using joined
  rw [characters_eq, String.ofList_toList]

end Octraban.AllowList
