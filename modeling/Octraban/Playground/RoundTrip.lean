import Octraban.Playground.ScvalCodec

/-! What contract arguments denote, and the trees that the codec carries through unchanged. -/
namespace Octraban.ScvalCodec

open CodeUnits Properties
open JavaScript (Number arrayIndex bigInt bigIntText land_mask lor_shiftLeft ordered)

inductive Width where
  | u32 | i32 | u64 | i64 | u128 | i128

/-- The value of an input, whatever it was written like. -/
inductive Meaning where
  | void
  | bool (b : Bool)
  | integer (width : Width) (n : Int)
  | string (content : Text)
  | symbol (name : Text)
  | address (key : Text)
  | bytes (digits : Text)
  | vec (items : List Meaning)
  | map (entries : List (Meaning × Meaning))

def numeral : Numeral → Option Int
  | .text value => bigInt (String.ofList (scalars value))
  | .number value => integerOf value

mutual

/-- Nothing for a numeral without a value, and for an option. -/
def denoted : ScValInput → Option Meaning
  | .void => some .void
  | .bool value => some (.bool value)
  | .u32 value => (integerOf value).map (.integer .u32)
  | .i32 value => (integerOf value).map (.integer .i32)
  | .u64 value => (numeral value).map (.integer .u64)
  | .i64 value => (numeral value).map (.integer .i64)
  | .u128 value => (numeral (.text value)).map (.integer .u128)
  | .i128 value => (numeral (.text value)).map (.integer .i128)
  | .string value => some (.string value)
  | .symbol value => some (.symbol value)
  | .address value => some (.address (trim value))
  | .bytes value => some (.bytes ((hexOf value).map lower))
  | .vec items => (denotedItems items).map .vec
  | .map entries => (denotedEntries entries).map .map
  | .option _ => none

def denotedItems : List ScValInput → Option (List Meaning)
  | [] => some []
  | item :: rest => do return (← denoted item) :: (← denotedItems rest)

def denotedEntries : List (ScValInput × ScValInput) → Option (List (Meaning × Meaning))
  | [] => some []
  | (key, value) :: rest => do return (← denoted key, ← denoted value) :: (← denotedEntries rest)

end

def Width.present (n : Int) : Width → Value
  | u32 | i32 => .number (.finite n)
  | u64 | i64 | u128 | i128 => .text (units (bigIntText n))

variable {Address : Type} (sdk : Sdk Address) (replaced : Replaced)

mutual

/-- The value of the language for it: a map is an object with one member for each entry. -/
def present : Meaning → Option Value
  | .void => some .null
  | .bool b => some (.boolean b)
  | .integer width n => some (width.present n)
  | .string text | .symbol text | .address text => some (.text text)
  | .bytes digits => some (.text (units "0x" ++ digits))
  | .vec items => (presentItems items).map .array
  | .map entries => (presentEntries entries).map fun members => .object none (ordered arrayIndex members)

def presentItems : List Meaning → Option (List Value)
  | [] => some []
  | item :: rest => do return (← present item) :: (← presentItems rest)

def presentEntries : List (Meaning × Meaning) → Option (List (Text × Value))
  | [] => some []
  | (key, val) :: rest => do
    let name ← string replaced (← present key)
    let value ← present val
    return (name, value) :: (← presentEntries rest)

end

mutual

/-- What an ScVal stands for. -/
def read : ScVal Address → Meaning
  | .scvVoid => .void
  | .scvBool b => .bool b
  | .scvU32 u32 => .integer .u32 u32.toNat
  | .scvI32 i32 => .integer .i32 i32.toInt
  | .scvU64 u64 => .integer .u64 u64.toNat
  | .scvI64 i64 => .integer .i64 i64.toInt
  | .scvU128 hi lo => .integer .u128 (hi.toNat * 2 ^ 64 + lo.toNat)
  | .scvI128 hi lo => .integer .i128 (hi.toInt * 2 ^ 64 + lo.toNat)
  | .scvString str => .string (units str)
  | .scvSymbol sym => .symbol sym
  | .scvAddress address => .address (sdk.toString address)
  | .scvBytes bytes => .bytes (Hex.text bytes)
  | .scvVec vec => .vec (readItems vec)
  | .scvMap map => .map (readEntries map)

def readItems : List (ScVal Address) → List Meaning
  | [] => []
  | item :: rest => read item :: readItems rest

def readEntries : List (ScVal Address × ScVal Address) → List (Meaning × Meaning)
  | [] => []
  | (key, val) :: rest => (read key, read val) :: readEntries rest

end

/-- The subtrees, the tree itself among them. -/
inductive Part : ScValInput → ScValInput → Prop where
  | self (input : ScValInput) : Part input input
  | item {part item : ScValInput} {items : List ScValInput} (member : item ∈ items) (inside : Part part item) :
      Part part (.vec items)
  | key {part : ScValInput} {entry : ScValInput × ScValInput} {entries : List (ScValInput × ScValInput)}
      (member : entry ∈ entries) (inside : Part part entry.1) : Part part (.map entries)
  | value {part : ScValInput} {entry : ScValInput × ScValInput} {entries : List (ScValInput × ScValInput)}
      (member : entry ∈ entries) (inside : Part part entry.2) : Part part (.map entries)

/-- No node is an option. -/
inductive Plain : ScValInput → Prop where
  | void : Plain .void
  | bool (value : Bool) : Plain (.bool value)
  | u32 (value : Number) : Plain (.u32 value)
  | i32 (value : Number) : Plain (.i32 value)
  | u64 (value : Numeral) : Plain (.u64 value)
  | i64 (value : Numeral) : Plain (.i64 value)
  | u128 (value : Text) : Plain (.u128 value)
  | i128 (value : Text) : Plain (.i128 value)
  | string (value : Text) : Plain (.string value)
  | symbol (value : Text) : Plain (.symbol value)
  | address (value : Text) : Plain (.address value)
  | bytes (value : Text) : Plain (.bytes value)
  | vec (items : List ScValInput) (each : ∀ item ∈ items, Plain item) : Plain (.vec items)
  | map (entries : List (ScValInput × ScValInput)) (keys : ∀ entry ∈ entries, Plain entry.1)
      (values : ∀ entry ∈ entries, Plain entry.2) : Plain (.map entries)

/-- What `String` makes of the value of a key. -/
def keyName (key : ScValInput) : Option Text := ((denoted key).bind (present replaced)).bind (string replaced)

/-- No string has a lone surrogate, no bytes have half a pair, and the names of the keys of a map
exist, differ and are not `__proto__`. -/
inductive Sound : ScValInput → Prop where
  | void : Sound .void
  | bool (value : Bool) : Sound (.bool value)
  | u32 (value : Number) : Sound (.u32 value)
  | i32 (value : Number) : Sound (.i32 value)
  | u64 (value : Numeral) : Sound (.u64 value)
  | i64 (value : Numeral) : Sound (.i64 value)
  | u128 (value : Text) : Sound (.u128 value)
  | i128 (value : Text) : Sound (.i128 value)
  | string (value : Text) (whole : WellFormed value) : Sound (.string value)
  | symbol (value : Text) : Sound (.symbol value)
  | address (value : Text) : Sound (.address value)
  | bytes (value : Text) (even : (hexOf value).length % 2 = 0) : Sound (.bytes value)
  | vec (items : List ScValInput) (each : ∀ item ∈ items, Sound item) : Sound (.vec items)
  | map (entries : List (ScValInput × ScValInput)) (keys : ∀ entry ∈ entries, Sound entry.1)
      (values : ∀ entry ∈ entries, Sound entry.2) (names : List Text)
      (named : entries.mapM (fun entry => keyName replaced entry.1) = some names) (distinct : names.Nodup)
      (allowed : protoKey ∉ names) : Sound (.map entries)

/-- The decoded value is the one that the input denotes. -/
def RoundTrips (input : ScValInput) : Prop :=
  ∃ s value, encodeScVal sdk input = .ok s ∧ decodeScVal sdk replaced s = some value ∧
    (denoted input).bind (present replaced) = some value

/-- The name and the value of an entry's member. -/
def member {α : Type} (strings : Value → Option Text) (shown : α → Option Value) (entry : α × α) : Option (Text × Value) := do
  let name ← strings (← shown entry.1)
  let value ← shown entry.2
  return (name, value)

variable {sdk} {replaced}

theorem numeral_eq {value : Numeral} {n : Int} (same : toBigInt value = .ok n) : numeral value = some n := by
  cases value with
  | text value =>
    rw [toBigInt] at same
    rw [numeral]
    split at same
    · rename_i parsed
      rw [parsed, Except.ok.inj same]
    · cases same
  | number value =>
    rw [toBigInt] at same
    rw [numeral]
    split at same
    · rename_i parsed
      rw [parsed, Except.ok.inj same]
    · cases same

/-- An address prints as the trimmed text that it came from. -/
theorem toString_addressOf (lawful : sdk.Lawful) {value : Text} {address : Address}
    (encoded : addressOf sdk value = .ok address) : sdk.toString address = trim value := by
  rw [addressOf] at encoded
  split at encoded
  · split at encoded
    · rename_i made
      obtain ⟨raw, decoded, account⟩ := Option.bind_eq_some_iff.mp made
      rw [← Except.ok.inj encoded]
      exact lawful.account _ raw _ decoded account
    · cases encoded
  · split at encoded
    · split at encoded
      · rename_i made
        obtain ⟨raw, decoded, contract⟩ := Option.bind_eq_some_iff.mp made
        rw [← Except.ok.inj encoded]
        exact lawful.contract _ raw _ decoded contract
      · cases encoded
    · cases encoded

theorem bytesOf_eq_ok {value : Text} {bytes : List UInt8} : bytesOf value = .ok bytes ↔
    (∀ u ∈ hexOf value, Hex.isHex u = true) ∧ Hex.bytes (hexOf value) = bytes := by
  rw [bytesOf, ← List.all_eq_true]
  cases all : (hexOf value).all Hex.isHex with
  | false => exact iff_of_false (fun impossible => by cases impossible) (fun impossible => by cases impossible.1)
  | true => exact ⟨fun same => ⟨rfl, Except.ok.inj same⟩, fun same => congrArg Except.ok same.2⟩

theorem encodeItems_eq_ok {items : List ScValInput} {vec : List (ScVal Address)} :
    encodeItems sdk items = .ok vec ↔ List.Forall₂ (fun item s => encodeScVal sdk item = .ok s) items vec := by
  induction items generalizing vec with
  | nil =>
    rw [encodeItems, List.forall₂_nil_left_iff, Except.ok.injEq]
    exact eq_comm
  | cons item rest ih =>
    rw [encodeItems, List.forall₂_cons_left_iff]
    simp only [bind_eq_ok, ih]
    constructor
    · rintro ⟨s, first, others, later, same⟩
      exact ⟨s, others, first, later, (Except.ok.inj same).symm⟩
    · rintro ⟨s, others, first, later, rfl⟩
      exact ⟨s, first, others, later, rfl⟩

theorem encodeEntries_eq_ok {entries : List (ScValInput × ScValInput)} {map : List (ScVal Address × ScVal Address)} :
    encodeEntries sdk entries = .ok map ↔ List.Forall₂ (fun entry made =>
      encodeScVal sdk entry.1 = .ok made.1 ∧ encodeScVal sdk entry.2 = .ok made.2) entries map := by
  induction entries generalizing map with
  | nil =>
    rw [encodeEntries, List.forall₂_nil_left_iff, Except.ok.injEq]
    exact eq_comm
  | cons entry rest ih =>
    rw [encodeEntries, List.forall₂_cons_left_iff]
    simp only [bind_eq_ok, ih]
    constructor
    · rintro ⟨key, first, value, second, others, later, same⟩
      exact ⟨(key, value), others, ⟨first, second⟩, later, (Except.ok.inj same).symm⟩
    · rintro ⟨made, others, ⟨first, second⟩, later, rfl⟩
      exact ⟨made.1, first, made.2, second, others, later, rfl⟩

theorem decodeEntries_eq (object : Object) (map : List (ScVal Address × ScVal Address)) :
    decodeEntries sdk replaced object map =
      (map.mapM (member (string replaced) (decodeScVal sdk replaced))).map object.assignAll := by
  induction map generalizing object with
  | nil => rfl
  | cons entry rest ih =>
    rw [decodeEntries, List.mapM_cons, member]
    simp only [ih]
    cases decodeScVal sdk replaced entry.1 with
    | none => rfl
    | some key =>
      simp only [Option.bind_eq_bind, Option.bind_some]
      cases string replaced key with
      | none => rfl
      | some name =>
        cases decodeScVal sdk replaced entry.2 with
        | none => rfl
        | some value =>
          simp only [Option.bind_some, Option.pure_def]
          cases rest.mapM (member (string replaced) (decodeScVal sdk replaced)) with
          | none => rfl
          | some members => rfl

theorem presentEntries_eq (entries : List (Meaning × Meaning)) :
    presentEntries replaced entries = entries.mapM (member (string replaced) (present replaced)) := by
  induction entries with
  | nil => rfl
  | cons entry rest ih =>
    rw [presentEntries, List.mapM_cons, ih, member]
    cases present replaced entry.1 with
    | none => rfl
    | some key =>
      simp only [Option.bind_eq_bind, Option.bind_some]
      cases string replaced key with
      | none => rfl
      | some name =>
        cases present replaced entry.2 with
        | none => rfl
        | some value => rfl

theorem denotedItems_eq (items : List ScValInput) : denotedItems items = items.mapM denoted := by
  induction items with
  | nil => rfl
  | cons item rest ih => rw [denotedItems, List.mapM_cons, ih]

theorem presentItems_eq (items : List Meaning) : presentItems replaced items = items.mapM (present replaced) := by
  induction items with
  | nil => rfl
  | cons item rest ih => rw [presentItems, List.mapM_cons, ih]

theorem decodeItems_eq (vec : List (ScVal Address)) : decodeItems sdk replaced vec = vec.mapM (decodeScVal sdk replaced) := by
  induction vec with
  | nil => rfl
  | cons item rest ih => rw [decodeItems, List.mapM_cons, ih]

theorem readItems_eq (vec : List (ScVal Address)) : readItems sdk vec = vec.map (read sdk) := by
  induction vec with
  | nil => rfl
  | cons item rest ih => rw [readItems, List.map_cons, ih]

/-- The decoder gives the value of what an ScVal stands for. -/
def Faithful (sdk : Sdk Address) (replaced : Replaced) (s : ScVal Address) : Prop :=
  ∃ value, decodeScVal sdk replaced s = some value ∧ present replaced (read sdk s) = some value

/-- What the encoder makes of an input stands for what the input denotes. -/
def Kept (sdk : Sdk Address) (replaced : Replaced) (input : ScValInput) : Prop :=
  ∀ s, encodeScVal sdk input = .ok s → denoted input = some (read sdk s) ∧ Faithful sdk replaced s

variable {items : List ScValInput} {vec : List (ScVal Address)} {entries : List (ScValInput × ScValInput)}
  {map : List (ScVal Address × ScVal Address)}

theorem kept_vec (each : ∀ item ∈ items, Kept sdk replaced item) : Kept sdk replaced (.vec items) := by
  intro s encoded
  rw [encodeScVal] at encoded
  obtain ⟨vec, made, rfl⟩ := map_eq_ok.mp encoded
  rw [encodeItems_eq_ok] at made
  rw [denoted, denotedItems_eq, read, readItems_eq, Faithful, decodeScVal, decodeItems_eq, read, readItems_eq, present,
    presentItems_eq]
  clear encoded
  induction made with
  | nil => exact ⟨rfl, _, rfl, rfl⟩
  | cons first _ ih =>
    obtain ⟨denotes, value, decoded, presented⟩ := each _ List.mem_cons_self _ first
    obtain ⟨others, all, later, shown⟩ := ih fun item inside => each item (List.mem_cons_of_mem _ inside)
    obtain ⟨meanings, denoted_rest, same⟩ := Option.map_eq_some_iff.mp others
    obtain ⟨values, decoded_rest, rfl⟩ := Option.map_eq_some_iff.mp later
    obtain ⟨values', shown_rest, same'⟩ := Option.map_eq_some_iff.mp shown
    cases same
    cases same'
    simp only [List.mapM_cons, List.map_cons, denotes, denoted_rest, decoded, decoded_rest, presented, shown_rest]
    exact ⟨rfl, _, rfl, rfl⟩

theorem decode_eq_present {s : ScVal Address} (faithful : Faithful sdk replaced s) :
    decodeScVal sdk replaced s = present replaced (read sdk s) := by
  obtain ⟨value, decoded, presented⟩ := faithful
  rw [decoded, presented]

theorem denotedEntries_eq_some (keys : ∀ entry ∈ entries, Kept sdk replaced entry.1)
    (values : ∀ entry ∈ entries, Kept sdk replaced entry.2) (encoded : encodeEntries sdk entries = .ok map) :
    denotedEntries entries = some (readEntries sdk map) := by
  rw [encodeEntries_eq_ok] at encoded
  induction encoded with
  | nil => rfl
  | cons first _ ih =>
    rw [denotedEntries, readEntries, (keys _ List.mem_cons_self _ first.1).1, (values _ List.mem_cons_self _ first.2).1,
      ih (fun entry inside => keys entry (List.mem_cons_of_mem _ inside))
        (fun entry inside => values entry (List.mem_cons_of_mem _ inside))]
    rfl

/-- The members that the decoder assigns are those of the object for the map. -/
theorem members_eq (keys : ∀ entry ∈ entries, Kept sdk replaced entry.1)
    (values : ∀ entry ∈ entries, Kept sdk replaced entry.2) (encoded : encodeEntries sdk entries = .ok map) :
    presentEntries replaced (readEntries sdk map) = map.mapM (member (string replaced) (decodeScVal sdk replaced)) := by
  rw [encodeEntries_eq_ok] at encoded
  rw [presentEntries_eq]
  induction encoded with
  | nil => rfl
  | cons first _ ih =>
    rw [readEntries, List.mapM_cons, List.mapM_cons, member, member,
      decode_eq_present (keys _ List.mem_cons_self _ first.1).2, decode_eq_present (values _ List.mem_cons_self _ first.2).2,
      ih (fun entry inside => keys entry (List.mem_cons_of_mem _ inside))
        (fun entry inside => values entry (List.mem_cons_of_mem _ inside))]

/-- The names of the keys are the names of the members. -/
theorem names_iff (keys : ∀ entry ∈ entries, Kept sdk replaced entry.1)
    (values : ∀ entry ∈ entries, Kept sdk replaced entry.2) (encoded : encodeEntries sdk entries = .ok map)
    {names : List Text} : entries.mapM (fun entry => keyName replaced entry.1) = some names ↔
      ∃ members, map.mapM (member (string replaced) (decodeScVal sdk replaced)) = some members ∧
        members.map Prod.fst = names := by
  rw [encodeEntries_eq_ok] at encoded
  induction encoded generalizing names with
  | nil => simp [List.mapM_nil, eq_comm]
  | @cons entry made rest others first _ ih =>
    obtain ⟨denotes, key, decoded, presented⟩ := keys _ List.mem_cons_self _ first.1
    obtain ⟨-, value, decoded', -⟩ := values _ List.mem_cons_self _ first.2
    have later := fun names => @ih (fun entry inside => keys entry (List.mem_cons_of_mem _ inside))
      (fun entry inside => values entry (List.mem_cons_of_mem _ inside)) names
    rw [List.mapM_cons, List.mapM_cons, member, keyName, denotes, decoded, decoded', Option.bind_some, presented,
      Option.bind_some]
    simp only [Option.bind_eq_bind, Option.bind_eq_some_iff, Option.bind_some, Option.pure_def, Option.some_inj, later]
    constructor
    · rintro ⟨name, named, _, ⟨members, all, rfl⟩, rfl⟩
      exact ⟨(name, value) :: members, ⟨(name, value), ⟨name, named, rfl⟩, members, all, rfl⟩, rfl⟩
    · rintro ⟨_, ⟨_, ⟨name, named, rfl⟩, members, all, rfl⟩, rfl⟩
      exact ⟨name, named, _, ⟨members, all, rfl⟩, rfl⟩

theorem decode_map_eq (map : List (ScVal Address × ScVal Address)) : decodeScVal sdk replaced (.scvMap map) =
    (map.mapM (member (string replaced) (decodeScVal sdk replaced))).map fun members =>
      (Object.empty.assignAll members).value := by
  rw [decodeScVal, decodeEntries_eq, Option.map_map]
  rfl

theorem kept_map (keys : ∀ entry ∈ entries, Kept sdk replaced entry.1)
    (values : ∀ entry ∈ entries, Kept sdk replaced entry.2) {names : List Text}
    (named : entries.mapM (fun entry => keyName replaced entry.1) = some names) (distinct : names.Nodup)
    (allowed : protoKey ∉ names) : Kept sdk replaced (.map entries) := by
  intro s encoded
  rw [encodeScVal] at encoded
  obtain ⟨map, made, rfl⟩ := map_eq_ok.mp encoded
  obtain ⟨members, assigned, rfl⟩ := (names_iff keys values made).mp named
  refine ⟨?_, .object none (ordered arrayIndex members), ?_, ?_⟩
  · rw [denoted, denotedEntries_eq_some keys values made]
    rfl
  · rw [decode_map_eq, assigned, Option.map_some, value_assignAll_iff.mpr ⟨distinct, allowed⟩]
  · rw [read, present, members_eq keys values made, assigned]
    rfl

/-- The text of two words, whatever the sign of the upper one. -/
theorem words_eq (high : Int) (low : BitVec 64) : (high <<< (64 : Nat)).lor low.toNat = high * 2 ^ 64 + low.toNat ∧
    (high <<< (64 : Nat)).lor ((low.toNat : Int).land 0xffffffffffffffff) = high * 2 ^ 64 + low.toNat := by
  have joined := lor_shiftLeft high low.isLt
  have masked : (low.toNat : Int).land 0xffffffffffffffff = low.toNat :=
    (@land_mask 64 low.toNat (Int.natCast_nonneg _)).trans (Int.emod_eq_of_lt (Int.natCast_nonneg _) (by exact_mod_cast low.isLt))
  rw [masked]
  exact ⟨joined, joined⟩

theorem kept_of_sound (lawful : sdk.Lawful) {input : ScValInput} (sound : Sound replaced input) : Kept sdk replaced input := by
  induction sound with
  | vec items _ each => exact kept_vec each
  | map entries _ _ names named distinct allowed keys values => exact kept_map keys values named distinct allowed
  | void =>
    rintro s ⟨⟩
    exact ⟨rfl, _, rfl, rfl⟩
  | bool value =>
    rintro s ⟨⟩
    exact ⟨rfl, _, rfl, rfl⟩
  | symbol value =>
    rintro s ⟨⟩
    exact ⟨rfl, _, rfl, rfl⟩
  | string value whole =>
    rintro s ⟨⟩
    rw [denoted, read, units_scalars_iff.mpr whole]
    exact ⟨rfl, _, rfl, rfl⟩
  | u32 value =>
    intro s encoded
    obtain ⟨w, parts, rfl⟩ := map_eq_ok.mp encoded
    rw [denoted, u32Parts_eq parts]
    exact ⟨rfl, _, rfl, rfl⟩
  | i32 value =>
    intro s encoded
    obtain ⟨w, parts, rfl⟩ := map_eq_ok.mp encoded
    rw [denoted, i32Parts_eq parts]
    exact ⟨rfl, _, rfl, rfl⟩
  | u64 value =>
    intro s encoded
    obtain ⟨w, parts, rfl⟩ := map_eq_ok.mp encoded
    rw [denoted, numeral_eq (u64Parts_eq parts)]
    exact ⟨rfl, _, rfl, rfl⟩
  | i64 value =>
    intro s encoded
    obtain ⟨w, parts, rfl⟩ := map_eq_ok.mp encoded
    rw [denoted, numeral_eq (i64Parts_eq parts)]
    exact ⟨rfl, _, rfl, rfl⟩
  | u128 value =>
    intro s encoded
    obtain ⟨⟨hi, lo⟩, parts, rfl⟩ := map_eq_ok.mp encoded
    rw [denoted, numeral_eq (u128Parts_eq parts), Faithful, decodeScVal, (words_eq hi.toNat lo).1]
    exact ⟨rfl, _, rfl, rfl⟩
  | i128 value =>
    intro s encoded
    obtain ⟨⟨hi, lo⟩, parts, rfl⟩ := map_eq_ok.mp encoded
    rw [denoted, numeral_eq (i128Parts_eq parts), Faithful, decodeScVal, (words_eq hi.toInt lo).2]
    exact ⟨rfl, _, rfl, rfl⟩
  | address value =>
    intro s encoded
    obtain ⟨address, made, rfl⟩ := map_eq_ok.mp encoded
    rw [denoted, read, toString_addressOf lawful made]
    exact ⟨rfl, _, rfl, by rw [read, present, toString_addressOf lawful made]⟩
  | bytes value even =>
    intro s encoded
    obtain ⟨bytes, made, rfl⟩ := map_eq_ok.mp encoded
    obtain ⟨hex, rfl⟩ := bytesOf_eq_ok.mp made
    rw [denoted, read, Hex.text_bytes hex even]
    exact ⟨rfl, _, rfl, rfl⟩

theorem Sound.part {part input : ScValInput} (inside : Part part input) (sound : Sound replaced input) :
    Sound replaced part := by
  induction inside with
  | self => exact sound
  | item member _ ih =>
    cases sound with
    | vec _ each => exact ih (each _ member)
  | key member _ ih =>
    cases sound with
    | map _ keys _ _ _ _ _ => exact ih (keys _ member)
  | value member _ ih =>
    cases sound with
    | map _ _ values _ _ _ _ => exact ih (values _ member)

def Accepted (sdk : Sdk Address) (input : ScValInput) : Prop := ∃ s, encodeScVal sdk input = .ok s

theorem accepted_items (accepted : Accepted sdk (.vec items)) : ∀ item ∈ items, Accepted sdk item := by
  obtain ⟨s, encoded⟩ := accepted
  rw [encodeScVal] at encoded
  obtain ⟨vec, made, -⟩ := map_eq_ok.mp encoded
  intro item inside
  obtain ⟨s, -, first⟩ := Partial.exists_of_forall₂ (encodeItems_eq_ok.mp made) inside
  exact ⟨s, first⟩

theorem accepted_entries (accepted : Accepted sdk (.map entries)) :
    ∀ entry ∈ entries, Accepted sdk entry.1 ∧ Accepted sdk entry.2 := by
  obtain ⟨s, encoded⟩ := accepted
  rw [encodeScVal] at encoded
  obtain ⟨map, made, -⟩ := map_eq_ok.mp encoded
  intro entry inside
  obtain ⟨pair, -, first, second⟩ := Partial.exists_of_forall₂ (encodeEntries_eq_ok.mp made) inside
  exact ⟨⟨_, first⟩, ⟨_, second⟩⟩

theorem Accepted.part {part input : ScValInput} (inside : Part part input) (accepted : Accepted sdk input) :
    Accepted sdk part := by
  induction inside with
  | self => exact accepted
  | item member _ ih => exact ih (accepted_items accepted _ member)
  | key member _ ih => exact ih (accepted_entries accepted _ member).1
  | value member _ ih => exact ih (accepted_entries accepted _ member).2

/-- Every part of a sound tree makes the round trip. -/
theorem roundTrips_of_sound (lawful : sdk.Lawful) {input : ScValInput} (sound : Sound replaced input)
    (accepted : Accepted sdk input) : RoundTrips sdk replaced input := by
  obtain ⟨s, encoded⟩ := accepted
  obtain ⟨denotes, value, decoded, presented⟩ := kept_of_sound lawful sound s encoded
  exact ⟨s, value, encoded, decoded, by rw [denotes, Option.bind_some, presented]⟩

/-- A tree whose parts all make the round trip is sound. -/
theorem sound_of_roundTrips (lawful : sdk.Lawful) {input : ScValInput} (plain : Plain input)
    (each : ∀ part, Part part input → RoundTrips sdk replaced part) : Sound replaced input := by
  induction plain with
  | void => exact .void
  | bool value => exact .bool value
  | u32 value => exact .u32 value
  | i32 value => exact .i32 value
  | u64 value => exact .u64 value
  | i64 value => exact .i64 value
  | u128 value => exact .u128 value
  | i128 value => exact .i128 value
  | symbol value => exact .symbol value
  | address value => exact .address value
  | string value =>
    obtain ⟨s, shown, encoded, decoded, presented⟩ := each _ (.self _)
    cases encoded
    rw [← presented] at decoded
    exact .string value (units_scalars_iff.mp (Value.text.inj (Option.some.inj decoded)))
  | bytes value =>
    obtain ⟨s, shown, encoded, decoded, presented⟩ := each _ (.self _)
    obtain ⟨bytes, made, rfl⟩ := map_eq_ok.mp encoded
    obtain ⟨hex, rfl⟩ := bytesOf_eq_ok.mp made
    rw [← presented] at decoded
    have same := List.append_cancel_left (Value.text.inj (Option.some.inj decoded))
    exact .bytes value ((Hex.text_bytes_iff hex).mp same)
  | vec items _ ih => exact .vec items fun item member => ih item member fun part inside => each part (.item member inside)
  | map entries _ _ keys values =>
    have soundKeys := fun entry member => keys entry member fun part inside => each part (.key member inside)
    have soundValues := fun entry member => values entry member fun part inside => each part (.value member inside)
    have keptKeys := fun entry member => kept_of_sound lawful (soundKeys entry member)
    have keptValues := fun entry member => kept_of_sound lawful (soundValues entry member)
    obtain ⟨s, shown, encoded, decoded, presented⟩ := each _ (.self _)
    rw [encodeScVal] at encoded
    obtain ⟨map, made, rfl⟩ := map_eq_ok.mp encoded
    rw [decode_map_eq] at decoded
    obtain ⟨members, assigned, rfl⟩ := Option.map_eq_some_iff.mp decoded
    rw [denoted, denotedEntries_eq_some keptKeys keptValues made, Option.map_some, Option.bind_some, present,
      members_eq keptKeys keptValues made, assigned, Option.map_some, Option.some_inj] at presented
    obtain ⟨distinct, allowed⟩ := value_assignAll_iff.mp presented.symm
    exact .map entries soundKeys soundValues _ ((names_iff keptKeys keptValues made).mpr ⟨members, assigned, rfl⟩)
      distinct allowed

/-- Two trees and all their parts make the round trip and stay apart exactly when both are sound. -/
theorem arguments_survive_iff (lawful : sdk.Lawful) {x y : ScValInput} (plain : Plain x ∧ Plain y)
    (accepted : Accepted sdk x ∧ Accepted sdk y) :
    ((∀ part, Part part x ∨ Part part y → RoundTrips sdk replaced part) ∧
      ∀ a b, Part a x ∨ Part a y → Part b x ∨ Part b y → denoted a ≠ denoted b →
        encodeScVal sdk a ≠ encodeScVal sdk b) ↔ Sound replaced x ∧ Sound replaced y := by
  constructor
  · rintro ⟨each, -⟩
    exact ⟨sound_of_roundTrips lawful plain.1 fun part inside => each part (.inl inside),
      sound_of_roundTrips lawful plain.2 fun part inside => each part (.inr inside)⟩
  · rintro ⟨left, right⟩
    have parts (part : ScValInput) (inside : Part part x ∨ Part part y) : Sound replaced part ∧ Accepted sdk part := by
      rcases inside with inside | inside
      · exact ⟨left.part inside, accepted.1.part inside⟩
      · exact ⟨right.part inside, accepted.2.part inside⟩
    constructor
    · intro part inside
      exact roundTrips_of_sound lawful (parts part inside).1 (parts part inside).2
    · intro a b first second different same
      obtain ⟨soundA, s, encoded⟩ := parts a first
      obtain ⟨soundB, -⟩ := parts b second
      apply different
      rw [(kept_of_sound lawful soundA s encoded).1, (kept_of_sound lawful soundB s (same ▸ encoded)).1]

def zeroKey : Text := units "GAAAAAAAAAAAAAAAAAAAAAAAAAAAAAAAAAAAAAAAAAAAAAAAAAAAAWHF"

/-- The SDK on the key whose bytes are all zero. -/
def zeroSdk : Sdk (List UInt8) where
  isValidEd25519PublicKey key := key == zeroKey
  decodeEd25519PublicKey key := if key = zeroKey then some (.replicate 32 0) else none
  decodeContract _ := none
  account raw := if raw = .replicate 32 0 then some raw else none
  contract _ := none
  toString _ := zeroKey

theorem zeroSdk_lawful : zeroSdk.Lawful := by
  refine ⟨fun key raw address decoded _ => ?_, fun key raw address decoded _ => by cases decoded⟩
  by_cases same : key = zeroKey
  · exact same.symm
  · have rejected : zeroSdk.decodeEd25519PublicKey key = none := if_neg same
    rw [rejected] at decoded
    cases decoded

def transfer : ScValInput :=
  .map [(.symbol (units "owner"), .address zeroKey), (.symbol (units "amount"), .i128 (units "-1"))]

theorem transfer_survives :
    (∀ part, Part part transfer ∨ Part part (.bytes (units "0xAB")) → RoundTrips zeroSdk (fun _ _ => none) part) ∧
      ∀ a b, Part a transfer ∨ Part a (.bytes (units "0xAB")) → Part b transfer ∨ Part b (.bytes (units "0xAB")) →
        denoted a ≠ denoted b → encodeScVal zeroSdk a ≠ encodeScVal zeroSdk b := by
  refine (arguments_survive_iff zeroSdk_lawful ⟨.map _ ?_ ?_, .bytes _⟩ ⟨⟨_, rfl⟩, ⟨_, rfl⟩⟩).mpr
    ⟨.map _ ?_ ?_ [units "owner", units "amount"] rfl (by decide) (by decide), .bytes _ rfl⟩
  · simp only [List.forall_mem_cons]
    exact ⟨.symbol _, .symbol _, by simp⟩
  · simp only [List.forall_mem_cons]
    exact ⟨.address _, .i128 _, by simp⟩
  · simp only [List.forall_mem_cons]
    exact ⟨.symbol _, .symbol _, by simp⟩
  · simp only [List.forall_mem_cons]
    exact ⟨.address _, .i128 _, by simp⟩

/-- Half a pair of digits is lost, and so is an entry whose key has the name of another one. -/
theorem half_pair_lost :
    ¬ RoundTrips zeroSdk (fun _ _ => none) (.bytes (units "abc")) ∧
      denoted (.bytes (units "abc")) ≠ denoted (.bytes (units "ab")) ∧
      encodeScVal zeroSdk (.bytes (units "abc")) = encodeScVal zeroSdk (.bytes (units "ab")) ∧
      ¬ RoundTrips zeroSdk (fun _ _ => none)
        (.map [(.symbol (units "1"), .bool true), (.string (units "1"), .bool false)]) := by
  refine ⟨?_, ?_, rfl, ?_⟩
  · rintro ⟨s, value, encoded, decoded, presented⟩
    cases encoded
    rw [← presented] at decoded
    exact absurd (Value.text.inj (Option.some.inj decoded)) (by decide)
  · intro same
    exact absurd (Meaning.bytes.inj (Option.some.inj same)) (by decide)
  · rintro ⟨s, value, encoded, decoded, presented⟩
    cases encoded
    rw [← presented] at decoded
    have lengths := congrArg List.length (Value.object.inj (Option.some.inj decoded)).2
    exact absurd lengths (by decide)

end Octraban.ScvalCodec
