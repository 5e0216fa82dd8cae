import Octraban.Core.BigInt
import Octraban.Core.Halves
import Octraban.Core.Hex
import Octraban.Core.Partial
import Octraban.Core.Properties

/-! The codec of contract arguments: trees of typed inputs, the ScVals they are encoded to, and
the values that these are decoded to. -/
namespace Octraban.ScvalCodec

open CodeUnits Properties
open JavaScript (Number asIntN bigInt bigIntText land_mask)

/-- `string | number` -/
inductive Numeral where
  | text (value : Text)
  | number (value : Number)

inductive ScValInput where
  | void
  | bool (value : Bool)
  | u32 (value : Number)
  | i32 (value : Number)
  | u64 (value : Numeral)
  | i64 (value : Numeral)
  | u128 (value : Text)
  | i128 (value : Text)
  | string (value : Text)
  | symbol (value : Text)
  | address (value : Text)
  | bytes (value : Text)
  | vec (items : List ScValInput)
  | map (entries : List (ScValInput × ScValInput))
  | option (inner : Option ScValInput)

/-- What the encoder makes: 128 bits are two words, and a string is its UTF-8. -/
inductive ScVal (Address : Type) where
  | scvVoid
  | scvBool (b : Bool)
  | scvU32 (u32 : BitVec 32)
  | scvI32 (i32 : BitVec 32)
  | scvU64 (u64 : BitVec 64)
  | scvI64 (i64 : BitVec 64)
  | scvU128 (hi lo : BitVec 64)
  | scvI128 (hi lo : BitVec 64)
  | scvString (str : String)
  | scvSymbol (sym : Text)
  | scvAddress (address : Address)
  | scvBytes (bytes : List UInt8)
  | scvVec (vec : List (ScVal Address))
  | scvMap (map : List (ScVal Address × ScVal Address))

/-- A `ScValValidationError`, or what `BigInt` throws. -/
inductive Failure where
  | validation (message : Text)
  | syntaxError
  | rangeError

/-- What the codec uses of the SDK's addresses; nothing where a function throws. -/
structure Sdk (Address : Type) where
  isValidEd25519PublicKey : Text → Bool
  decodeEd25519PublicKey : Text → Option (List UInt8)
  decodeContract : Text → Option (List UInt8)
  account : List UInt8 → Option Address
  contract : List UInt8 → Option Address
  toString : Address → Text

/-- An address prints as the only key that it can be decoded from. -/
structure Sdk.Lawful {Address : Type} (sdk : Sdk Address) : Prop where
  account : ∀ key raw address, sdk.decodeEd25519PublicKey key = some raw → sdk.account raw = some address →
    sdk.toString address = key
  contract : ∀ key raw address, sdk.decodeContract key = some raw → sdk.contract raw = some address →
    sdk.toString address = key

def integerOf : Number → Option Int
  | .finite x => if x.den = 1 then some x.num else none
  | _ => none

/-- `BigInt(value)` -/
def toBigInt : Numeral → Except Failure Int
  | .text value => match bigInt (String.ofList (scalars value)) with
    | some n => .ok n
    | none => .error .syntaxError
  | .number value => match integerOf value with
    | some n => .ok n
    | none => .error .rangeError

def Numeral.shown : Numeral → Text
  | text value => value
  | number value => units value.text

/-- The check of a width. -/
def checked (low high : Int) (message : Text) (n : Int) : Except Failure Int :=
  if n < low ∨ n > high then .error (.validation message) else .ok n

/-- The check of a width whose values are numbers. -/
def checkedNumber (low high : Int) (message : Text) (value : Number) : Except Failure Int :=
  match integerOf value with
  | some n => checked low high message n
  | none => .error (.validation message)

def u32Parts (value : Number) : Except Failure (BitVec 32) := do
  let n ← checkedNumber 0 0xffffffff (units "u32 value out of range: " ++ units value.text) value
  return .ofInt 32 n

def i32Parts (value : Number) : Except Failure (BitVec 32) := do
  let n ← checkedNumber (-2147483648) 2147483647 (units "i32 value out of range: " ++ units value.text) value
  return .ofInt 32 n

def u64Parts (value : Numeral) : Except Failure (BitVec 64) := do
  let n ← checked 0 18446744073709551615 (units "u64 value out of range: " ++ value.shown) (← toBigInt value)
  return .ofInt 64 n

def i64Parts (value : Numeral) : Except Failure (BitVec 64) := do
  let n ← checked (-9223372036854775808) 9223372036854775807 (units "i64 value out of range: " ++ value.shown)
    (← toBigInt value)
  return .ofInt 64 n

def u128Parts (value : Text) : Except Failure (BitVec 64 × BitVec 64) := do
  let n ← checked 0 (2 ^ 128 - 1) (units "u128 value out of range") (← toBigInt (.text value))
  let hi := n >>> (64 : Nat)
  let lo := n.land 0xffffffffffffffff
  return (.ofInt 64 hi, .ofInt 64 lo)

def i128Parts (value : Text) : Except Failure (BitVec 64 × BitVec 64) := do
  let n ← checked (-2 ^ 127) (2 ^ 127 - 1) (units "i128 value out of range") (← toBigInt (.text value))
  let unsigned := if n < 0 then n + 2 ^ 128 else n
  let hi := unsigned >>> (64 : Nat)
  let lo := unsigned.land 0xffffffffffffffff
  return (.ofInt 64 (asIntN 64 hi), .ofInt 64 lo)

/-- What the `catch` makes of an exception of the SDK. -/
def invalidAddress (val : Text) : Failure := .validation (units "Invalid Stellar address: " ++ val)

variable {Address : Type} (sdk : Sdk Address)

def addressOf (value : Text) : Except Failure Address :=
  let val := trim value
  if (units "G").isPrefixOf val && sdk.isValidEd25519PublicKey val then
    match (sdk.decodeEd25519PublicKey val).bind sdk.account with
    | some address => .ok address
    | none => .error (invalidAddress val)
  else if (units "C").isPrefixOf val then
    match (sdk.decodeContract val).bind sdk.contract with
    | some address => .ok address
    | none => .error (invalidAddress val)
  else .error (.validation (units "Invalid Stellar address (must be G or C prefix): " ++ val))

/-- `value.replace(/^0x/, '')` -/
def hexOf (value : Text) : Text := if (units "0x").isPrefixOf value then value.drop 2 else value

def bytesOf (value : Text) : Except Failure (List UInt8) :=
  let hex := hexOf value
  if !hex.all Hex.isHex then .error (.validation (units "Invalid hex for bytes: " ++ value)) else .ok (Hex.bytes hex)

mutual

def encodeScVal : ScValInput → Except Failure (ScVal Address)
  | .void => .ok .scvVoid
  | .bool value => .ok (.scvBool value)
  | .u32 value => (u32Parts value).map .scvU32
  | .i32 value => (i32Parts value).map .scvI32
  | .u64 value => (u64Parts value).map .scvU64
  | .i64 value => (i64Parts value).map .scvI64
  | .u128 value => (u128Parts value).map fun parts => .scvU128 parts.1 parts.2
  | .i128 value => (i128Parts value).map fun parts => .scvI128 parts.1 parts.2
  | .string value => .ok (.scvString (String.ofList (scalars value)))
  | .symbol value => .ok (.scvSymbol value)
  | .address value => (addressOf sdk value).map .scvAddress
  | .bytes value => (bytesOf value).map .scvBytes
  | .vec items => (encodeItems items).map .scvVec
  | .map entries => (encodeEntries entries).map .scvMap
  | .option none => .ok .scvVoid
  | .option (some inner) => encodeScVal inner

def encodeItems : List ScValInput → Except Failure (List (ScVal Address))
  | [] => .ok []
  | item :: rest => do return (← encodeScVal item) :: (← encodeItems rest)

def encodeEntries : List (ScValInput × ScValInput) → Except Failure (List (ScVal Address × ScVal Address))
  | [] => .ok []
  | (key, value) :: rest => do return (← encodeScVal key, ← encodeScVal value) :: (← encodeEntries rest)

end

/-- What `String` makes of an object whose prototype has been replaced; nothing here depends on it. -/
abbrev Replaced := Value → List (Text × Value) → Option Text

variable (replaced : Replaced)

mutual

/-- `String(value)`; a property `toString` that is no function makes it throw. -/
def string : Value → Option Text
  | .null => some (units "null")
  | .boolean value => some (if value then units "true" else units "false")
  | .number x => some (units x.text)
  | .text text => some text
  | .array items => (joined items).map (List.intercalate (units ","))
  | .object none entries => if entries.any (·.1 = units "toString") then none else some (units "[object Object]")
  | .object (some prototype) entries => replaced prototype entries

/-- The elements as `join` takes them: null is empty there. -/
def joined : List Value → Option (List Text)
  | [] => some []
  | .null :: rest => do return [] :: (← joined rest)
  | item :: rest => do return (← string item) :: (← joined rest)

end

mutual

/-- Nothing when `String` throws. -/
def decodeScVal : ScVal Address → Option Value
  | .scvVoid => some .null
  | .scvBool b => some (.boolean b)
  | .scvU32 u32 => some (.number (.finite u32.toNat))
  | .scvI32 i32 => some (.number (.finite i32.toInt))
  | .scvU64 u64 => some (.text (units (bigIntText u64.toNat)))
  | .scvI64 i64 => some (.text (units (bigIntText i64.toInt)))
  | .scvU128 hi lo => some (.text (units (bigIntText (((hi.toNat : Int) <<< (64 : Nat)).lor lo.toNat))))
  | .scvI128 hi lo =>
    let raw := (hi.toInt <<< (64 : Nat)).lor ((lo.toNat : Int).land 0xffffffffffffffff)
    some (.text (units (bigIntText raw)))
  | .scvString str => some (.text (units str))
  | .scvSymbol sym => some (.text sym)
  | .scvAddress address => some (.text (sdk.toString address))
  | .scvBytes bytes => some (.text (units "0x" ++ Hex.text bytes))
  | .scvVec vec => (decodeItems vec).map .array
  | .scvMap map => (decodeEntries .empty map).map Object.value

def decodeItems : List (ScVal Address) → Option (List Value)
  | [] => some []
  | item :: rest => do return (← decodeScVal item) :: (← decodeItems rest)

/-- The loop over the entries of a map. -/
def decodeEntries (result : Object) : List (ScVal Address × ScVal Address) → Option Object
  | [] => some result
  | (key, val) :: rest => do
    let name ← string replaced (← decodeScVal key)
    let value ← decodeScVal val
    decodeEntries (result.assign name value) rest

end

variable {low high n : Int} {message : Text} {sdk}

theorem checked_eq_ok {k : Int} : checked low high message n = .ok k ↔ (low ≤ n ∧ n ≤ high) ∧ n = k := by
  rw [checked]
  split
  · rename_i outside
    refine iff_of_false (fun impossible => by cases impossible) ?_
    rintro ⟨inside, -⟩
    omega
  · rename_i inside
    rw [Except.ok.injEq]
    exact ⟨fun same => ⟨by omega, same⟩, And.right⟩

theorem checkedNumber_eq_ok {value : Number} {k : Int} : checkedNumber low high message value = .ok k ↔
    integerOf value = some k ∧ low ≤ k ∧ k ≤ high := by
  rw [checkedNumber]
  cases integer : integerOf value with
  | none => exact iff_of_false (fun impossible => by cases impossible) (fun impossible => by cases impossible.1)
  | some n =>
    rw [Option.some_inj]
    refine checked_eq_ok.trans ⟨?_, ?_⟩
    · rintro ⟨inside, rfl⟩
      exact ⟨rfl, inside⟩
    · rintro ⟨rfl, inside⟩
      exact ⟨inside, rfl⟩

theorem bind_eq_ok {α β : Type} {x : Except Failure α} {f : α → Except Failure β} {b : β} :
    (x >>= f) = .ok b ↔ ∃ a, x = .ok a ∧ f a = .ok b := by
  cases x with
  | error failure => exact iff_of_false (fun impossible => by cases impossible) (fun ⟨_, impossible, _⟩ => by cases impossible)
  | ok a =>
    constructor
    · exact fun same => ⟨a, rfl, same⟩
    · rintro ⟨b, same, rest⟩
      cases same
      exact rest

theorem map_eq_ok {α β : Type} {x : Except Failure α} {f : α → β} {b : β} :
    x.map f = .ok b ↔ ∃ a, x = .ok a ∧ f a = b := by
  cases x with
  | error failure => exact iff_of_false (fun impossible => by cases impossible) (fun ⟨_, impossible, _⟩ => by cases impossible)
  | ok a =>
    constructor
    · exact fun same => ⟨a, rfl, Except.ok.inj same⟩
    · rintro ⟨b, same, rfl⟩
      cases same
      rfl

/-- A number in its range is the one that its bits stand for. -/
theorem toNat_ofInt {width : Nat} (nonneg : 0 ≤ n) (bounded : n < 2 ^ width) :
    ((BitVec.ofInt width n).toNat : Int) = n := by
  rw [BitVec.toNat_ofInt, Int.toNat_of_nonneg (Int.emod_nonneg _ (by positivity))]
  exact Int.emod_eq_of_lt nonneg (by exact_mod_cast bounded)

theorem u32Parts_eq {value : Number} {w : BitVec 32} (encoded : u32Parts value = .ok w) :
    integerOf value = some (w.toNat : Int) := by
  obtain ⟨n, inside, same⟩ := bind_eq_ok.mp encoded
  obtain ⟨integer, low, high⟩ := checkedNumber_eq_ok.mp inside
  cases same
  rw [toNat_ofInt low (by omega), integer]

theorem i32Parts_eq {value : Number} {w : BitVec 32} (encoded : i32Parts value = .ok w) :
    integerOf value = some w.toInt := by
  obtain ⟨n, inside, same⟩ := bind_eq_ok.mp encoded
  obtain ⟨integer, low, high⟩ := checkedNumber_eq_ok.mp inside
  cases same
  rw [BitVec.toInt_ofInt, Int.bmod_eq_of_le (by omega) (by omega), integer]

/-- What is made of an integer within its bounds. -/
theorem exists_of_checked {A : Type} {value : Numeral} {low high : Int} {message : Text} {make : Int → A} {made : A}
    (encoded : (do let n ← checked low high message (← toBigInt value); return make n) = Except.ok made) :
    ∃ n, toBigInt value = .ok n ∧ (low ≤ n ∧ n ≤ high) ∧ make n = made := by
  obtain ⟨n, read, rest⟩ := bind_eq_ok.mp encoded
  obtain ⟨k, inside, same⟩ := bind_eq_ok.mp rest
  obtain ⟨bounds, rfl⟩ := checked_eq_ok.mp inside
  exact ⟨n, read, bounds, Except.ok.inj same⟩

theorem u64Parts_eq {value : Numeral} {w : BitVec 64} (encoded : u64Parts value = .ok w) :
    toBigInt value = .ok (w.toNat : Int) := by
  obtain ⟨n, read, ⟨low, high⟩, same⟩ := exists_of_checked encoded
  cases same
  rw [toNat_ofInt low (by omega), read]

theorem i64Parts_eq {value : Numeral} {w : BitVec 64} (encoded : i64Parts value = .ok w) :
    toBigInt value = .ok w.toInt := by
  obtain ⟨n, read, ⟨low, high⟩, same⟩ := exists_of_checked encoded
  cases same
  rw [BitVec.toInt_ofInt, Int.bmod_eq_of_le (by omega) (by omega), read]

/-- The number that two words stand for. -/
theorem u128Parts_eq {value : Text} {hi lo : BitVec 64} (encoded : u128Parts value = .ok (hi, lo)) :
    toBigInt (.text value) = .ok (hi.toNat * 2 ^ 64 + lo.toNat : Int) := by
  obtain ⟨n, read, ⟨low, high⟩, same⟩ := exists_of_checked encoded
  cases same
  have mask : n.land 0xffffffffffffffff = n % 2 ^ 64 := @land_mask 64 n low
  rw [mask, Int.shiftRight_eq_div_pow, read, toNat_ofInt (by omega) (by omega), toNat_ofInt (by omega) (by omega)]
  congr 1
  omega

/-- The same for the numbers with a sign, which the upper word has. -/
theorem i128Parts_eq {value : Text} {hi lo : BitVec 64} (encoded : i128Parts value = .ok (hi, lo)) :
    toBigInt (.text value) = .ok (hi.toInt * 2 ^ 64 + lo.toNat : Int) := by
  obtain ⟨n, read, ⟨low, high⟩, same⟩ := exists_of_checked encoded
  cases same
  set unsigned := if n < 0 then n + 2 ^ 128 else n with unsigned_eq
  have nonneg : 0 ≤ unsigned := by
    rw [unsigned_eq]
    split <;> omega
  have mask : unsigned.land 0xffffffffffffffff = unsigned % 2 ^ 64 := @land_mask 64 unsigned nonneg
  have kept (x : Int) : BitVec.ofInt 64 (asIntN 64 x) = BitVec.ofInt 64 x := BitVec.ofInt_toInt
  rw [mask, Int.shiftRight_eq_div_pow, read, kept, toNat_ofInt (by omega) (by omega), BitVec.toInt_ofInt, Int.bmod_def]
  congr 1
  rw [unsigned_eq]
  split
  · split <;> omega
  · split <;> omega

end Octraban.ScvalCodec
