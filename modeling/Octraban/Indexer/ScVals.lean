import Octraban.Core.BigInt
import Octraban.Core.Hex
import Octraban.Core.Properties

/-! ScVals as the XDR of a transaction has them, the native values that the SDK makes of them, and the texts of
these. -/
namespace Octraban.ScVals
open CodeUnits
open JavaScript (Number bigIntText)

inductive ScAddress where
  | account (ed25519 : List UInt8)
  | contract (contractId : List UInt8)
  deriving DecidableEq

/-- The words of the wide integers are those of their parts; an absent vector or map is optional in the XDR. -/
inductive ScVal where
  | scvBool (b : Bool)
  | scvVoid
  | scvError (type code : ℕ)
  | scvU32 (u32 : BitVec 32)
  | scvI32 (i32 : BitVec 32)
  | scvU64 (u64 : BitVec 64)
  | scvI64 (i64 : BitVec 64)
  | scvTimepoint (timepoint : BitVec 64)
  | scvDuration (duration : BitVec 64)
  | scvU128 (hi lo : BitVec 64)
  | scvI128 (hi lo : BitVec 64)
  | scvU256 (hiHi hiLo loHi loLo : BitVec 64)
  | scvI256 (hiHi hiLo loHi loLo : BitVec 64)
  | scvBytes (bytes : List UInt8)
  | scvString (str : List UInt8)
  | scvSymbol (sym : List UInt8)
  | scvVec (vec : Option (List ScVal))
  | scvMap (map : Option (List (ScVal × ScVal)))
  | scvAddress (address : ScAddress)
  | scvContractInstance (wasm : Option (List UInt8)) (storage : Option (List (ScVal × ScVal)))
  | scvLedgerKeyContractInstance
  | scvLedgerKeyNonce (nonce : BitVec 64)

/-- The items of a vector, and the values of a map. -/
def ScVal.children : ScVal → List ScVal
  | .scvVec (some items) => items
  | .scvMap (some entries) => entries.map Prod.snd
  | _ => []

/-- A value within a value, at any depth; keys are not counted. -/
inductive ScVal.Part : ScVal → ScVal → Prop where
  | self : Part val val
  | child {inner : ScVal} : inner ∈ val.children → Part inner part → Part val part

/-- What `scValToNative` makes; no prototype is replaced in it. -/
inductive Native where
  | undefined
  | null
  | boolean (value : Bool)
  | number (x : Number)
  | bigint (n : ℤ)
  | text (text : Text)
  | bytes (buffer : List UInt8)
  | array (items : List Native)
  | object (entries : List (Text × Native))

/-- What the indexer uses of the SDK and of the platform; nothing where a function throws. -/
structure Sdk where
  /-- `xdr.ScVal.fromXDR(text, 'base64')` -/
  fromXDR : Text → Option ScVal
  /-- `val.toXDR('base64')` -/
  toXDR : ScVal → Text
  scValToNative : ScVal → Option Native
  /-- `Address.fromScVal(val).toString()` -/
  fromScVal : ScVal → Option Text
  encodeEd25519PublicKey : List UInt8 → Text
  encodeContract : List UInt8 → Text
  /-- `buffer.toString()` -/
  utf8 : List UInt8 → Text
  toLowerCase : Text → Text
  /-- `BigInt(10 ** decimals)` -/
  power : ℕ → Option ℕ

section
variable (utf8 : List UInt8 → Text)

mutual

/-- `String(value)`; a property `toString` that is no function makes it throw. -/
def string : Native → Option Text
  | .undefined => some (units "undefined")
  | .null => some (units "null")
  | .boolean value => some (if value then units "true" else units "false")
  | .number x => some (units x.text)
  | .bigint n => some (units (bigIntText n))
  | .text text => some text
  | .bytes buffer => some (utf8 buffer)
  | .array items => (joined items).map (List.intercalate (units ","))
  | .object entries => if entries.any (·.1 = units "toString") then none else some (units "[object Object]")

/-- The elements as `join` takes them. -/
def joined : List Native → Option (List Text)
  | [] => some []
  | .undefined :: rest | .null :: rest => do return [] :: (← joined rest)
  | item :: rest => do return (← string item) :: (← joined rest)

end

end

/-- The symbol of a topic, and the text of any other value. -/
def symbolText (sdk : Sdk) : ScVal → Option Text
  | .scvSymbol sym => some (sdk.utf8 sym)
  | val => do string sdk.utf8 (← sdk.scValToNative val)

mutual

/-- Whether a BigInt is found in a value, at any depth. -/
def Native.hasBigInt : Native → Bool
  | .bigint _ => true
  | .array items => anyItem items
  | .object entries => anyEntry entries
  | _ => false

def anyItem : List Native → Bool
  | [] => false
  | item :: rest => item.hasBigInt || anyItem rest

def anyEntry : List (Text × Native) → Bool
  | [] => false
  | entry :: rest => entry.2.hasBigInt || anyEntry rest

end

/-- What the name of a property finds in a table that is a plain object. -/
inductive Property (V : Type) where
  | own (value : V)
  | inherited
  | undefined

def inheritedNames : List Text := JavaScript.inherited.map units

def property {V : Type} (table : List (String × V)) (name : Text) : Property V :=
  match table.find? fun entry => units entry.1 = name with
  | some entry => .own entry.2
  | none => if name ∈ inheritedNames then .inherited else .undefined

theorem ScVal.sizeOf_child {val inner : ScVal} (member : inner ∈ val.children) : sizeOf inner < sizeOf val := by
  unfold children at member
  split at member
  · have smaller := List.sizeOf_lt_of_mem member
    simp only [ScVal.scvVec.sizeOf_spec, Option.some.sizeOf_spec]
    omega
  · obtain ⟨entry, listed, rfl⟩ := List.mem_map.mp member
    have smaller := List.sizeOf_lt_of_mem listed
    have inside : sizeOf entry.2 < sizeOf entry := by
      cases entry
      simp only [Prod.mk.sizeOf_spec]
      omega
    simp only [ScVal.scvMap.sizeOf_spec, Option.some.sizeOf_spec]
    omega
  · exact nomatch member

/-- Induction over the items and the values of maps. -/
theorem ScVal.child_induction {P : ScVal → Prop} (level : ∀ val, (∀ inner ∈ val.children, P inner) → P val)
    (val : ScVal) : P val := by
  refine level val fun inner member => ?_
  exact child_induction level inner
termination_by sizeOf val
decreasing_by exact sizeOf_child member

theorem ScVal.forall_part_iff {P : ScVal → Prop} {val : ScVal} :
    (∀ part, val.Part part → P part) ↔ P val ∧ ∀ inner ∈ val.children, ∀ part, inner.Part part → P part := by
  constructor
  · intro all
    exact ⟨all val .self, fun inner member part within => all part (.child member within)⟩
  · rintro ⟨here, below⟩ part within
    cases within with
    | self => exact here
    | child member within => exact below _ member part within

/-- What is decided by a value and its items holds throughout iff it does at every part. -/
theorem ScVal.iff_forall_part {P Q : ScVal → Prop} (level : ∀ val, Q val ↔ P val ∧ ∀ inner ∈ val.children, Q inner)
    (val : ScVal) : Q val ↔ ∀ part, val.Part part → P part := by
  induction val using child_induction with
  | level val ih =>
    rw [level, forall_part_iff]
    exact and_congr_right fun _ => forall₂_congr ih

/-- Everything that looking up a name can find. -/
theorem property_cases {V : Type} (table : List (String × V)) (name : Text) :
    (∃ value, property table name = .own value ∧ name ∈ table.map (units ·.1)) ∨
    (property table name = .inherited ∧ name ∉ table.map (units ·.1) ∧ name ∈ inheritedNames) ∨
    (property table name = .undefined ∧ name ∉ table.map (units ·.1) ∧ name ∉ inheritedNames) := by
  unfold property
  cases found : table.find? fun entry => units entry.1 = name with
  | some entry =>
    have same : units entry.1 = name := by simpa using List.find?_some found
    exact .inl ⟨entry.2, rfl, List.mem_map.mpr ⟨entry, List.mem_of_find?_eq_some found, same⟩⟩
  | none =>
    have missing : name ∉ table.map (units ·.1) := by
      simpa using List.find?_eq_none.mp found
    by_cases inherits : name ∈ inheritedNames
    · exact .inr (.inl ⟨if_pos inherits, missing, inherits⟩)
    · exact .inr (.inr ⟨if_neg inherits, missing, inherits⟩)

/-! ### The SDK on fixed inputs -/

/-- Texts of ASCII bytes. -/
def ascii (bytes : List UInt8) : Text := bytes.map fun b => UInt16.ofNat b.toNat

def bytesOf (text : String) : List UInt8 := text.toList.map fun c => UInt8.ofNat c.toNat

/-- `Object.fromEntries` -/
def fromEntries (entries : List (Text × Native)) : Native :=
  .object (JavaScript.ordered Properties.arrayIndex
    (entries.foldl (fun made entry => made.set entry.1 entry.2) OrderedMap.empty).entries)

/-- A platform that knows the texts of some ScVals. -/
def platform (scValToNative : ScVal → Option Native) (texts : List (String × ScVal)) : Sdk where
  fromXDR text := (texts.find? fun entry => units entry.1 = text).map Prod.snd
  toXDR _ := []
  scValToNative := scValToNative
  fromScVal _ := none
  encodeEd25519PublicKey := ascii
  encodeContract := ascii
  utf8 := ascii
  toLowerCase text := text.map lower
  power decimals := some (10 ^ decimals)

mutual

/-- What `scValToNative` does, but for addresses and the values of ledger entries. -/
def nativeOf : ScVal → Option Native
  | .scvBool b => some (.boolean b)
  | .scvVoid => some .null
  | .scvError _ code => some (.object [(units "type", .text (units "contract")), (units "code", .number (.finite code))])
  | .scvU32 u32 => some (.number (.finite u32.toNat))
  | .scvI32 i32 => some (.number (.finite i32.toInt))
  | .scvU64 word | .scvTimepoint word | .scvDuration word => some (.bigint word.toNat)
  | .scvI64 word => some (.bigint word.toInt)
  | .scvU128 hi lo => some (.bigint (hi.toNat * 2 ^ 64 + lo.toNat))
  | .scvI128 hi lo => some (.bigint (hi.toInt * 2 ^ 64 + lo.toNat))
  | .scvU256 hiHi hiLo loHi loLo =>
    some (.bigint (hiHi.toNat * 2 ^ 192 + hiLo.toNat * 2 ^ 128 + loHi.toNat * 2 ^ 64 + loLo.toNat))
  | .scvI256 hiHi hiLo loHi loLo =>
    some (.bigint (hiHi.toInt * 2 ^ 192 + hiLo.toNat * 2 ^ 128 + loHi.toNat * 2 ^ 64 + loLo.toNat))
  | .scvBytes bytes => some (.bytes bytes)
  | .scvString text | .scvSymbol text => some (.text (ascii text))
  | .scvVec none => some (.array [])
  | .scvVec (some items) => (nativesOf items).map .array
  | .scvMap none => some (fromEntries [])
  | .scvMap (some entries) => (pairsOf entries).map fromEntries
  | .scvAddress _ | .scvContractInstance .. | .scvLedgerKeyContractInstance | .scvLedgerKeyNonce _ => some .undefined

def nativesOf : List ScVal → Option (List Native)
  | [] => some []
  | item :: rest => do return (← nativeOf item) :: (← nativesOf rest)

def pairsOf : List (ScVal × ScVal) → Option (List (Text × Native))
  | [] => some []
  | entry :: rest => do
    let name ← string ascii (← nativeOf entry.1)
    let value ← nativeOf entry.2
    return (name, value) :: (← pairsOf rest)

end

def documented : List (String × ScVal) → Sdk := platform nativeOf

end Octraban.ScVals
