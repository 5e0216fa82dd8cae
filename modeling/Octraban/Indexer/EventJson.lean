import Octraban.Indexer.Sep41
import Octraban.Indexer.XdrParser

/-! Which decoded values hold a BigInt, that JSON has no text for: the arguments that `scValToJson` converts, and the
events of decoder.ts. -/
namespace Octraban.EventJson
open CodeUnits ScVals Sep41 XdrParser
open Properties (protoKey)

mutual

/-- Whether a BigInt is found in a converted value, at any depth. -/
def hasBigInt : Json → Bool
  | .native value => value.hasBigInt
  | .array items => itemBigInt items
  | .object _ entries => entryBigInt entries
  | _ => false

def itemBigInt : List (String × Json) → Bool
  | [] => false
  | item :: rest => hasBigInt item.2 || itemBigInt rest

def entryBigInt : List (Text × Json) → Bool
  | [] => false
  | entry :: rest => hasBigInt entry.2 || entryBigInt rest

end

/-- Integers of 64 bits and more, timepoints and durations. -/
def isWide : ScVal → Bool
  | .scvU64 _ | .scvI64 _ | .scvTimepoint _ | .scvDuration _ | .scvU128 .. | .scvI128 .. | .scvU256 .. | .scvI256 .. => true
  | _ => false

/-- Values without integers of more than 32 bits. -/
def isNarrow : ScVal → Bool
  | .scvBool _ | .scvVoid | .scvError .. | .scvU32 _ | .scvI32 _ | .scvBytes _ | .scvString _ | .scvSymbol _
  | .scvAddress _ => true
  | _ => false

/-- A member of the native object of a map. -/
def nativePair (sdk : Sdk) (entry : ScVal × ScVal) : Option (Text × Native) := do
  return (← keyText sdk entry.1, ← sdk.scValToNative entry.2)

/-- What the SDK documents of `scValToNative`. Of the values of ledger entries nothing is relied on. -/
structure Lawful (sdk : Sdk) : Prop where
  wide : ∀ val, isWide val = true → ∃ n, sdk.scValToNative val = some (.bigint n)
  narrow : ∀ val value, isNarrow val = true → sdk.scValToNative val = some value → value.hasBigInt = false
  vec : ∀ items, sdk.scValToNative (.scvVec (some items)) = (items.mapM sdk.scValToNative).map .array
  absent : sdk.scValToNative (.scvVec none) = some (.array []) ∧ sdk.scValToNative (.scvMap none) = some (fromEntries [])
  map : ∀ entries, sdk.scValToNative (.scvMap (some entries)) = (entries.mapM (nativePair sdk)).map fromEntries

/-- A value of a ledger entry, as an SDK object. -/
def isLedgerValue : ScVal → Bool
  | .scvContractInstance .. | .scvLedgerKeyContractInstance | .scvLedgerKeyNonce _ => true
  | _ => false

section
variable (sdk : Sdk)

/-- An entry of a map whose key has the text of no later one. -/
def Last (entries : List (ScVal × ScVal)) (before : List (ScVal × ScVal)) (entry : ScVal × ScVal) (name : Text) : Prop :=
  ∃ after, entries = before ++ entry :: after ∧ keyText sdk entry.1 = some name ∧
    ∀ later ∈ after, keyText sdk later.1 ≠ some name

/-- The name makes a property of the object that the entries before have made: `__proto__` does only when no setter is
in its way. -/
def Assigns (before : List (ScVal × ScVal)) (name : Text) : Prop :=
  name = protoKey → ∀ obj, jsonEntries sdk .empty before = some obj → ¬obj.takesPrototype

/-- The native value of an ScVal holds a BigInt. -/
inductive Wide : ScVal → Prop where
  | integer : isWide val = true → Wide val
  | ledger : isLedgerValue val = true → sdk.scValToNative val = some value → value.hasBigInt = true → Wide val
  | item {inner : ScVal} : inner ∈ items → Wide inner → Wide (.scvVec (some items))
  | value : Last sdk entries before entry name → Wide entry.2 → Wide (.scvMap (some entries))

/-- The conversion of an ScVal holds a BigInt: the integers of 64 bits are left to the SDK. -/
inductive Leaks : ScVal → Prop where
  | u64 : Leaks (.scvU64 bits)
  | i64 : Leaks (.scvI64 bits)
  | timepoint : Leaks (.scvTimepoint bits)
  | duration : Leaks (.scvDuration bits)
  | ledger : isLedgerValue val = true → sdk.scValToNative val = some value → value.hasBigInt = true → Leaks val
  | item {inner : ScVal} : inner ∈ items → Leaks inner → Leaks (.scvVec (some items))
  | value : Last sdk entries before entry name → Assigns sdk before name →
      Leaks entry.2 → Leaks (.scvMap (some entries))

end

variable {sdk : Sdk} {entries before xs : List (ScVal × ScVal)} {entry e : ScVal × ScVal} {name : Text} {val : ScVal}

/-! ### The last entry of a name -/

theorem last_concat_of_eq (same : keyText sdk e.1 = some name) :
    Last sdk (xs ++ [e]) before entry name ↔ before = xs ∧ entry = e := by
  constructor
  · rintro ⟨after, split, named, last⟩
    rcases List.eq_nil_or_concat after with rfl | ⟨ys, y, rfl⟩
    · obtain ⟨rfl, final⟩ := List.append_inj' split rfl
      cases final
      exact ⟨rfl, rfl⟩
    · rw [List.concat_eq_append, ← List.cons_append, ← List.append_assoc] at split
      obtain ⟨-, final⟩ := List.append_inj' split rfl
      cases final
      exact absurd same (last e (by simp))
  · rintro ⟨rfl, rfl⟩
    exact ⟨[], rfl, same, fun _ member => nomatch member⟩

theorem last_concat_of_ne (other : keyText sdk e.1 ≠ some name) :
    Last sdk (xs ++ [e]) before entry name ↔ Last sdk xs before entry name := by
  constructor
  · rintro ⟨after, split, named, last⟩
    rcases List.eq_nil_or_concat after with rfl | ⟨ys, y, rfl⟩
    · obtain ⟨-, final⟩ := List.append_inj' split rfl
      cases final
      exact absurd named other
    · rw [List.concat_eq_append, ← List.cons_append, ← List.append_assoc] at split
      obtain ⟨rfl, -⟩ := List.append_inj' split rfl
      exact ⟨ys, rfl, named, fun later member => last later (by simp [member])⟩
  · rintro ⟨after, rfl, named, last⟩
    refine ⟨after ++ [e], by simp, named, fun later member => ?_⟩
    rcases List.mem_append.mp member with old | new
    · exact last later old
    · rw [List.mem_singleton.mp new]
      exact other

/-! ### Native values -/

theorem hasBigInt_array {items : List Native} :
    (Native.array items).hasBigInt = true ↔ ∃ item ∈ items, item.hasBigInt = true := by
  rw [Native.hasBigInt]
  induction items with
  | nil => simp [anyItem]
  | cons item rest ih => simp [anyItem, ih]

theorem hasBigInt_object {members : List (Text × Native)} :
    (Native.object members).hasBigInt = true ↔ ∃ member ∈ members, member.2.hasBigInt = true := by
  rw [Native.hasBigInt]
  induction members with
  | nil => simp [anyEntry]
  | cons member rest ih => simp [anyEntry, ih]

theorem hasBigInt_fromEntries {pairs : List (Text × Native)} : (fromEntries pairs).hasBigInt = true ↔
    ∃ name value, (pairs.foldl (fun made pair => made.set pair.1 pair.2) OrderedMap.empty).get name = some value ∧
      value.hasBigInt = true := by
  rw [fromEntries, hasBigInt_object]
  simp only [(JavaScript.perm_ordered _ _).mem_iff, Prod.exists, OrderedMap.mem_entries]

theorem nativePair_eq_some {pair : Text × Native} : nativePair sdk entry = some pair ↔
    keyText sdk entry.1 = some pair.1 ∧ sdk.scValToNative entry.2 = some pair.2 := by
  obtain ⟨name, value⟩ := pair
  unfold nativePair
  cases keyText sdk entry.1 <;> cases sdk.scValToNative entry.2 <;> simp

/-- What `Object.fromEntries` has under a name: the value of the last entry. -/
theorem get_pairs {pairs : List (Text × Native)} (converted : entries.mapM (nativePair sdk) = some pairs) (name : Text)
    (value : Native) : (pairs.foldl (fun made pair => made.set pair.1 pair.2) OrderedMap.empty).get name = some value ↔
      ∃ before entry, Last sdk entries before entry name ∧ sdk.scValToNative entry.2 = some value := by
  induction entries using List.reverseRecOn generalizing pairs with
  | nil =>
    cases converted
    simp [Last, OrderedMap.get, OrderedMap.empty, OrderedMap.find]
  | append_singleton xs e ih =>
    rw [List.mapM_append] at converted
    obtain ⟨ps, first, converted⟩ := Option.bind_eq_some_iff.mp converted
    obtain ⟨last, final, same⟩ := Option.bind_eq_some_iff.mp converted
    cases same
    obtain ⟨pair, found, same⟩ := Option.bind_eq_some_iff.mp final
    cases same
    obtain ⟨named, native⟩ := nativePair_eq_some.mp found
    rw [List.reverse_singleton, List.foldl_append, List.foldl_cons, List.foldl_nil]
    by_cases here : pair.1 = name
    · subst here
      rw [OrderedMap.get_set_self, ← native]
      simp only [last_concat_of_eq named]
      constructor
      · exact fun same => ⟨xs, e, ⟨rfl, rfl⟩, same⟩
      · rintro ⟨_, _, ⟨rfl, rfl⟩, same⟩
        exact same
    · rw [OrderedMap.get_set_ne (Ne.symm here), ih first]
      have other : keyText sdk e.1 ≠ some name := by simpa [named] using here
      simp only [last_concat_of_ne other]

theorem wide_vec {items : List ScVal} : Wide sdk (.scvVec (some items)) ↔ ∃ item ∈ items, Wide sdk item := by
  constructor
  · intro wide
    cases wide with
    | integer width => cases width
    | ledger kind => cases kind
    | item member wide => exact ⟨_, member, wide⟩
  · rintro ⟨item, member, wide⟩
    exact .item member wide

theorem wide_map : Wide sdk (.scvMap (some entries)) ↔
    ∃ name before entry, Last sdk entries before entry name ∧ Wide sdk entry.2 := by
  constructor
  · intro wide
    cases wide with
    | integer width => cases width
    | ledger kind => cases kind
    | value last wide => exact ⟨_, _, _, last, wide⟩
  · rintro ⟨name, before, entry, last, wide⟩
    exact .value last wide

theorem Last.mem {before : List (ScVal × ScVal)} (last : Last sdk entries before entry name) : entry ∈ entries := by
  obtain ⟨after, rfl, -⟩ := last
  exact List.mem_append_right _ List.mem_cons_self

theorem Last.child {before : List (ScVal × ScVal)} (last : Last sdk entries before entry name) :
    entry.2 ∈ (ScVal.scvMap (some entries)).children :=
  List.mem_map_of_mem last.mem

/-- Which native values hold a BigInt. -/
theorem native_wide_iff (lawful : Lawful sdk) (val : ScVal) :
    ∀ value, sdk.scValToNative val = some value → (value.hasBigInt = true ↔ Wide sdk val) := by
  induction val using ScVal.child_induction with
  | level val ih =>
    intro value converted
    by_cases width : isWide val = true
    · obtain ⟨n, bigint⟩ := lawful.wide val width
      cases bigint.symm.trans converted
      exact iff_of_true rfl (.integer width)
    by_cases narrow : isNarrow val = true
    · rw [lawful.narrow val value narrow converted]
      refine iff_of_false Bool.false_ne_true fun wide => ?_
      cases wide with
      | integer width => contradiction
      | ledger kind => cases val <;> simp_all [isNarrow, isLedgerValue]
      | item | value => cases narrow
    by_cases kind : isLedgerValue val = true
    · refine ⟨.ledger kind converted, fun wide => ?_⟩
      cases wide with
      | integer width => contradiction
      | ledger _ same big =>
        cases same.symm.trans converted
        exact big
      | item | value => cases kind
    -- a vector or a map is left
    match val with
    | .scvVec none =>
      cases lawful.absent.1.symm.trans converted
      refine iff_of_false Bool.false_ne_true fun wide => ?_
      cases wide with
      | integer width => cases width
      | ledger kind => cases kind
    | .scvMap none =>
      cases lawful.absent.2.symm.trans converted
      have empty : (fromEntries []).hasBigInt ≠ true := by
        simp [fromEntries, hasBigInt_object, JavaScript.ordered, OrderedMap.empty]
      refine iff_of_false empty fun wide => ?_
      cases wide with
      | integer width => cases width
      | ledger kind => cases kind
    | .scvVec (some items) =>
      rw [lawful.vec] at converted
      obtain ⟨natives, mapped, rfl⟩ := Option.map_eq_some_iff.mp converted
      have related := Partial.mapM_eq_some_iff.mp mapped
      rw [hasBigInt_array, wide_vec]
      constructor
      · rintro ⟨native, member, big⟩
        obtain ⟨item, listed, same⟩ := Partial.exists_of_forall₂ related.flip member
        exact ⟨item, listed, (ih item listed native same).mp big⟩
      · rintro ⟨item, listed, wide⟩
        obtain ⟨native, member, same⟩ := Partial.exists_of_forall₂ related listed
        exact ⟨native, member, (ih item listed native same).mpr wide⟩
    | .scvMap (some entries) =>
      rw [lawful.map] at converted
      obtain ⟨pairs, mapped, rfl⟩ := Option.map_eq_some_iff.mp converted
      rw [hasBigInt_fromEntries, wide_map]
      refine exists_congr fun name => ?_
      simp only [get_pairs mapped]
      constructor
      · rintro ⟨native, ⟨before, entry, last, same⟩, big⟩
        exact ⟨before, entry, last, (ih entry.2 last.child native same).mp big⟩
      · rintro ⟨before, entry, last, wide⟩
        obtain ⟨pair, -, same⟩ := Partial.exists_of_forall₂ (Partial.mapM_eq_some_iff.mp mapped) last.mem
        have native := (nativePair_eq_some.mp same).2
        exact ⟨pair.2, ⟨before, entry, last, native⟩, (ih entry.2 last.child pair.2 native).mpr wide⟩

/-! ### Converted values -/

theorem hasBigInt_items {items : List (String × Json)} :
    hasBigInt (.array items) = true ↔ ∃ item ∈ items, hasBigInt item.2 = true := by
  rw [hasBigInt]
  induction items with
  | nil => simp [itemBigInt]
  | cons item rest ih => simp [itemBigInt, ih]

theorem hasBigInt_value {obj : Obj} :
    hasBigInt obj.value = true ↔ ∃ name value, obj.own.get name = some value ∧ hasBigInt value = true := by
  have members (entries : List (Text × Json)) :
      entryBigInt entries = true ↔ ∃ entry ∈ entries, hasBigInt entry.2 = true := by
    induction entries with
    | nil => simp [entryBigInt]
    | cons entry rest ih => simp [entryBigInt, ih]
  rw [Obj.value, hasBigInt, members]
  simp only [(JavaScript.perm_ordered _ _).mem_iff, Prod.exists, OrderedMap.mem_entries]

theorem jsonEntries_concat (obj : Obj) : jsonEntries sdk obj (xs ++ [e]) = (jsonEntries sdk obj xs).bind fun made =>
    (keyText sdk e.1).bind fun name => (scValToJson sdk e.2).map fun value => made.assign name value.2 := by
  induction xs generalizing obj with
  | nil =>
    simp only [List.nil_append, jsonEntries, Option.bind_some]
    cases keyText sdk e.1 <;> cases scValToJson sdk e.2 <;> rfl
  | cons x xs ih =>
    simp only [List.cons_append, jsonEntries]
    cases keyText sdk x.1 with
    | none => rfl
    | some name =>
      cases scValToJson sdk x.2 with
      | none => rfl
      | some value => exact ih _

/-- What the object of a map has under a name: the value of the last entry, if it was assigned. -/
theorem get_jsonEntries {made : Obj} (converted : jsonEntries sdk .empty entries = some made) (name : Text) (value : Json) :
    made.own.get name = some value ↔ ∃ before entry, Last sdk entries before entry name ∧ Assigns sdk before name ∧
      ∃ type, scValToJson sdk entry.2 = some (type, value) := by
  induction entries using List.reverseRecOn generalizing made with
  | nil =>
    cases converted
    simp [Last, Obj.empty, OrderedMap.get, OrderedMap.empty, OrderedMap.find]
  | append_singleton xs e ih =>
    rw [jsonEntries_concat] at converted
    obtain ⟨obj, first, converted⟩ := Option.bind_eq_some_iff.mp converted
    obtain ⟨key, named, converted⟩ := Option.bind_eq_some_iff.mp converted
    obtain ⟨⟨type, json⟩, valued, rfl⟩ := Option.map_eq_some_iff.mp converted
    by_cases here : key = name
    · subst here
      simp only [last_concat_of_eq named]
      by_cases proto : key = protoKey ∧ obj.takesPrototype
      · -- the prototype is set, and there is no property of the name
        have absent : obj.own.get key ≠ some value := by
          intro found
          refine proto.2.1 (proto.1 ▸ ?_)
          exact OrderedMap.isSome_get.mp (Option.isSome_iff_exists.mpr ⟨value, found⟩)
        have kept : (obj.assign key json).own = obj.own := by
          rw [Obj.assign, if_pos proto]
          split <;> rfl
        rw [kept]
        refine iff_of_false absent ?_
        rintro ⟨_, _, ⟨rfl, rfl⟩, assigns, -⟩
        exact assigns proto.1 obj first proto.2
      · rw [Obj.assign, if_neg proto, OrderedMap.get_set_self]
        constructor
        · rintro ⟨⟩
          refine ⟨xs, e, ⟨rfl, rfl⟩, fun same other found => ?_, type, valued⟩
          cases first.symm.trans found
          exact fun takes => proto ⟨same, takes⟩
        · rintro ⟨_, _, ⟨rfl, rfl⟩, -, _, same⟩
          cases valued.symm.trans same
          rfl
    · have other : keyText sdk e.1 ≠ some name := by simpa [named] using here
      have kept : (obj.assign key json).own.get name = obj.own.get name := by
        rw [Obj.assign]
        split
        · split <;> rfl
        · exact OrderedMap.get_set_ne (Ne.symm here)
      rw [kept, ih first]
      simp only [last_concat_of_ne other]

theorem leaks_vec {items : List ScVal} : Leaks sdk (.scvVec (some items)) ↔ ∃ item ∈ items, Leaks sdk item := by
  constructor
  · intro leaks
    cases leaks with
    | ledger kind => cases kind
    | item member leaks => exact ⟨_, member, leaks⟩
  · rintro ⟨item, member, leaks⟩
    exact .item member leaks

theorem leaks_map : Leaks sdk (.scvMap (some entries)) ↔
    ∃ name before entry, Last sdk entries before entry name ∧ Assigns sdk before name ∧ Leaks sdk entry.2 := by
  constructor
  · intro leaks
    cases leaks with
    | ledger kind => cases kind
    | value last assigns leaks => exact ⟨_, _, _, last, assigns, leaks⟩
  · rintro ⟨name, before, entry, last, assigns, leaks⟩
    exact .value last assigns leaks

theorem isSome_value {made : Obj} {obj : Obj} (converted : jsonEntries sdk obj entries = some made)
    (member : entry ∈ entries) : ∃ json, scValToJson sdk entry.2 = some json :=
  Option.isSome_iff_exists.mp (jsonEntries_isSome.mp (Option.isSome_iff_exists.mpr ⟨made, converted⟩) entry member).2

theorem jsonItems_forall₂ {items : List ScVal} {jsons : List (String × Json)}
    (converted : jsonItems sdk items = some jsons) :
    List.Forall₂ (fun item json => scValToJson sdk item = some json) items jsons := by
  induction items generalizing jsons with
  | nil =>
    cases converted
    exact .nil
  | cons item rest ih =>
    obtain ⟨json, first, converted⟩ := Option.bind_eq_some_iff.mp converted
    obtain ⟨others, later, same⟩ := Option.bind_eq_some_iff.mp converted
    cases same
    exact .cons first (ih later)

/-- What the default branch makes of the values of each kind. -/
theorem fallback_leaks_iff (lawful : Lawful sdk) {json : String × Json} (left : isFallback val = true)
    (converted : fallback sdk val = some json) : hasBigInt json.2 = true ↔ Leaks sdk val := by
  obtain ⟨value, native, rfl⟩ := Option.map_eq_some_iff.mp converted
  rw [hasBigInt]
  by_cases width : isWide val = true
  · obtain ⟨n, bigint⟩ := lawful.wide val width
    cases bigint.symm.trans native
    refine iff_of_true rfl ?_
    cases val with
    | scvU64 => exact .u64
    | scvI64 => exact .i64
    | scvTimepoint => exact .timepoint
    | scvDuration => exact .duration
    | _ => contradiction
  by_cases narrow : isNarrow val = true
  · rw [lawful.narrow val value narrow native]
    refine iff_of_false Bool.false_ne_true fun leaks => ?_
    cases leaks with
    | ledger kind => cases val <;> simp_all [isNarrow, isLedgerValue]
    | _ => contradiction
  have kind : isLedgerValue val = true := by
    cases val <;> simp_all [isFallback, isWide, isNarrow, isLedgerValue]
  refine ⟨.ledger kind native, fun leaks => ?_⟩
  cases leaks with
  | ledger _ same big =>
    cases same.symm.trans native
    exact big
  | _ => contradiction

/-- Which converted values hold a BigInt. -/
theorem json_leaks_iff (lawful : Lawful sdk) (val : ScVal) :
    ∀ json, scValToJson sdk val = some json → (hasBigInt json.2 = true ↔ Leaks sdk val) := by
  induction val using ScVal.child_induction with
  | level val ih =>
    intro json converted
    match val with
    | .scvVec (some items) =>
      obtain ⟨jsons, mapped, rfl⟩ := Option.map_eq_some_iff.mp converted
      have related := jsonItems_forall₂ mapped
      rw [hasBigInt_items, leaks_vec]
      constructor
      · rintro ⟨json, member, big⟩
        obtain ⟨item, listed, same⟩ := Partial.exists_of_forall₂ related.flip member
        exact ⟨item, listed, (ih item listed json same).mp big⟩
      · rintro ⟨item, listed, leaks⟩
        obtain ⟨json, member, same⟩ := Partial.exists_of_forall₂ related listed
        exact ⟨json, member, (ih item listed json same).mpr leaks⟩
    | .scvMap (some entries) =>
      obtain ⟨made, mapped, rfl⟩ := Option.map_eq_some_iff.mp converted
      rw [hasBigInt_value, leaks_map]
      refine exists_congr fun name => ?_
      simp only [get_jsonEntries mapped]
      constructor
      · rintro ⟨value, ⟨before, entry, last, assigns, type, same⟩, big⟩
        exact ⟨before, entry, last, assigns, (ih entry.2 last.child (type, value) same).mp big⟩
      · rintro ⟨before, entry, last, assigns, leaks⟩
        obtain ⟨json, same⟩ := isSome_value mapped last.mem
        exact ⟨json.2, ⟨before, entry, last, assigns, json.1, same⟩, (ih entry.2 last.child json same).mpr leaks⟩
    | .scvMap none =>
      cases converted
      have empty : hasBigInt Obj.empty.value ≠ true := by
        simp [hasBigInt_value, Obj.empty, OrderedMap.get, OrderedMap.empty, OrderedMap.find]
      refine iff_of_false empty fun leaks => ?_
      cases leaks with
      | ledger kind => cases kind
    | .scvAddress (.account _) | .scvAddress (.contract _) | .scvVec none | .scvI128 .. | .scvU128 .. | .scvI256 ..
    | .scvU256 .. | .scvBytes _ | .scvString _ | .scvSymbol _ | .scvBool _ | .scvVoid =>
      cases converted
      refine iff_of_false Bool.false_ne_true fun leaks => ?_
      cases leaks with
      | ledger kind => cases kind
    | .scvError .. | .scvU32 _ | .scvI32 _ | .scvU64 _ | .scvI64 _ | .scvTimepoint _ | .scvDuration _
    | .scvContractInstance .. | .scvLedgerKeyContractInstance | .scvLedgerKeyNonce _ =>
      rw [scValToJson] at converted
      exact fallback_leaks_iff lawful rfl converted

/-! ### decoder.ts -/

structure DecodedEvent where
  eventType : Text
  topicSymbol : Option Text
  decoded : Native

def knownTypes : List Text :=
  ["transfer", "mint", "burn", "swap", "approve", "clawback", "set_admin", "add_liquidity", "remove_liquidity",
    "session_authorization", "authorize_session", "hot_signer_authorized", "ephemeral_key_auth",
    "authorization_window"].map units

section
variable (sdk : Sdk)

def normalizeEventType (raw : Text) : Text :=
  if sdk.toLowerCase raw ∈ knownTypes then sdk.toLowerCase raw else units "custom"

/-- The text of the first topic. -/
def rawSymbol : List ScVal → Option Text
  | [] => some (units "unknown")
  | val :: _ => do string sdk.utf8 (← sdk.scValToNative val)

/-- The fields of a known event as texts. -/
def flattened (symbol : Text) (parsed : ParsedEvent) : Native :=
  .object ([(units "event", .text symbol), (units "humanReadable", .text parsed.humanReadable)] ++
    parsed.fields.entries.map fun field => (units field.1, .text field.2.formatted))

/-- Event, topics and data as the SDK converts them. -/
def generic (symbol : Text) (topicVals : List ScVal) (data : Text) : Option Native := do
  let dataVal ← sdk.fromXDR data
  let topics ← topicVals.mapM sdk.scValToNative
  let data ← sdk.scValToNative dataVal
  return .object [(units "event", .text symbol), (units "topics", .array topics), (units "data", data)]

def decoded (topics : List Text) (data : Text) (contractName : Option Text) (topicVals : List ScVal) (symbol : Text) :
    Option Native :=
  if symbol ∈ eventNames then
    match parseSep41Event sdk 7 [] topics data contractName with
    | .error _ => none
    | .ok (some parsed) => some (flattened symbol parsed)
    | .ok none => generic sdk symbol topicVals data
  else generic sdk symbol topicVals data

/-- Inside the `try`. -/
def tryDecode (topics : List Text) (data : Text) (contractName : Option Text) : Option DecodedEvent := do
  let topicVals ← topics.mapM sdk.fromXDR
  let symbol ← rawSymbol sdk topicVals
  let decoded ← decoded sdk topics data contractName topicVals symbol
  return ⟨normalizeEventType sdk symbol, some symbol, decoded⟩

/-- What is kept of an event that does not decode. -/
def undecoded (topics : List Text) (data : Text) : DecodedEvent where
  eventType := units "unknown"
  topicSymbol := none
  decoded := .object [(units "raw", .object [(units "topics", .array (topics.map .text)), (units "data", .text data)])]

def decodeEvent (topics : List Text) (data : Text) (contractName : Option Text) : DecodedEvent :=
  (tryDecode sdk topics data contractName).getD (undecoded topics data)

/-- All of the event decodes, it is none of the token standard, and a topic or its data is wide. -/
structure EventLeaks (topics : List Text) (data : Text) (topicVals : List ScVal) (dataVal : ScVal) (symbol : Text) : Prop where
  read : topics.mapM sdk.fromXDR = some topicVals
  readData : sdk.fromXDR data = some dataVal
  natives : ∀ val ∈ dataVal :: topicVals, (sdk.scValToNative val).isSome
  named : rawSymbol sdk topicVals = some symbol
  foreign : symbol ∈ eventNames → ∀ name, topicSymbol sdk topics = some name →
    name ∉ eventNames ∧ name ∉ inheritedNames
  wide : ∃ val ∈ dataVal :: topicVals, Wide sdk val

end

variable {topics : List Text} {data symbol : Text} {contractName : Option Text} {topicVals : List ScVal} {native : Native}

theorem flattened_plain (symbol : Text) (parsed : ParsedEvent) : (flattened symbol parsed).hasBigInt = false := by
  rw [← Bool.not_eq_true, flattened, hasBigInt_object]
  rintro ⟨member, listed, big⟩
  rcases List.mem_append.mp listed with head | field
  · simp only [List.mem_cons, List.not_mem_nil, or_false] at head
    rcases head with rfl | rfl
    · cases big
    · cases big
  · obtain ⟨entry, -, rfl⟩ := List.mem_map.mp field
    cases big

theorem undecoded_plain (topics : List Text) (data : Text) : (undecoded topics data).decoded.hasBigInt = false := by
  have texts : (Native.array (topics.map .text)).hasBigInt = false := by
    rw [← Bool.not_eq_true, hasBigInt_array]
    rintro ⟨item, listed, big⟩
    obtain ⟨text, -, rfl⟩ := List.mem_map.mp listed
    cases big
  have inner : (Native.object [(units "topics", .array (topics.map .text)), (units "data", .text data)]).hasBigInt = false := by
    rw [← Bool.not_eq_true, hasBigInt_object]
    rintro ⟨member, listed, big⟩
    simp only [List.mem_cons, List.not_mem_nil, or_false] at listed
    rcases listed with rfl | rfl
    · rw [texts] at big
      contradiction
    · cases big
  rw [undecoded, ← Bool.not_eq_true, hasBigInt_object]
  rintro ⟨member, listed, big⟩
  cases List.mem_singleton.mp listed
  rw [inner] at big
  contradiction

/-- What the generic path keeps of the topics and the data. -/
theorem generic_leaks_iff (lawful : Lawful sdk) (converted : generic sdk symbol topicVals data = some native) :
    native.hasBigInt = true ↔ ∃ dataVal, sdk.fromXDR data = some dataVal ∧
      (∀ val ∈ dataVal :: topicVals, (sdk.scValToNative val).isSome) ∧
        ∃ val ∈ dataVal :: topicVals, Wide sdk val := by
  obtain ⟨dataVal, found, converted⟩ := Option.bind_eq_some_iff.mp converted
  obtain ⟨topics, mapped, converted⟩ := Option.bind_eq_some_iff.mp converted
  obtain ⟨value, valued, same⟩ := Option.bind_eq_some_iff.mp converted
  cases same
  have natives : ∀ val ∈ dataVal :: topicVals, (sdk.scValToNative val).isSome := by
    refine List.forall_mem_cons.mpr ⟨Option.isSome_iff_exists.mpr ⟨value, valued⟩, ?_⟩
    exact Partial.isSome_mapM_iff.mp (Option.isSome_iff_exists.mpr ⟨topics, mapped⟩)
  have related := Partial.mapM_eq_some_iff.mp mapped
  have each : (∃ item ∈ topics, item.hasBigInt = true) ↔ ∃ val ∈ topicVals, Wide sdk val := by
    constructor
    · rintro ⟨item, member, big⟩
      obtain ⟨val, listed, same⟩ := Partial.exists_of_forall₂ related.flip member
      exact ⟨val, listed, (native_wide_iff lawful val item same).mp big⟩
    · rintro ⟨val, listed, wide⟩
      obtain ⟨item, member, same⟩ := Partial.exists_of_forall₂ related listed
      exact ⟨item, member, (native_wide_iff lawful val item same).mpr wide⟩
  have text : (Native.text symbol).hasBigInt = false := rfl
  simp only [hasBigInt_object, List.exists_mem_cons_iff, List.not_mem_nil, false_and, exists_false, or_false, text,
    Bool.false_eq_true, false_or, hasBigInt_array, each, native_wide_iff lawful dataVal value valued]
  constructor
  · intro wide
    exact ⟨dataVal, found, natives, wide.symm⟩
  · rintro ⟨other, same, -, wide⟩
    cases found.symm.trans same
    exact wide.symm

theorem generic_isSome (symbol : Text) {dataVal : ScVal} (found : sdk.fromXDR data = some dataVal)
    (natives : ∀ val ∈ dataVal :: topicVals, (sdk.scValToNative val).isSome) :
    ∃ native, generic sdk symbol topicVals data = some native := by
  obtain ⟨first, rest⟩ := List.forall_mem_cons.mp natives
  obtain ⟨value, valued⟩ := Option.isSome_iff_exists.mp first
  obtain ⟨topics, mapped⟩ := Option.isSome_iff_exists.mp (Partial.isSome_mapM_iff.mpr rest)
  simp [generic, found, valued, mapped]

/-- The path of an event of the token standard is taken, and keeps texts only; or the generic one is. -/
theorem decoded_cases (converted : decoded sdk topics data contractName topicVals symbol = some native) :
    native.hasBigInt = false ∨ generic sdk symbol topicVals data = some native ∧
      (symbol ∈ eventNames → ∀ name, topicSymbol sdk topics = some name →
        name ∉ eventNames ∧ name ∉ inheritedNames) := by
  unfold decoded at converted
  split at converted
  · split at converted
    · contradiction
    · cases converted
      exact .inl (flattened_plain _ _)
    · rename_i null
      exact .inr ⟨converted, fun _ => parseSep41Event_null_iff.mp null⟩
  · rename_i unknown
    exact .inr ⟨converted, fun known => absurd known unknown⟩

theorem decoded_generic (foreign : symbol ∈ eventNames → ∀ name, topicSymbol sdk topics = some name →
    name ∉ eventNames ∧ name ∉ inheritedNames) :
    decoded sdk topics data contractName topicVals symbol = generic sdk symbol topicVals data := by
  unfold decoded
  split
  · rename_i known
    rw [parseSep41Event_null_iff.mpr (foreign known)]
  · rfl

/-- Which events hold a BigInt. -/
theorem event_leaks_iff (lawful : Lawful sdk) (topics : List Text) (data : Text) (contractName : Option Text) :
    (decodeEvent sdk topics data contractName).decoded.hasBigInt = true ↔
      ∃ topicVals dataVal symbol, EventLeaks sdk topics data topicVals dataVal symbol := by
  constructor
  · intro big
    cases attempt : tryDecode sdk topics data contractName with
    | none =>
      rw [decodeEvent, attempt, Option.getD_none, undecoded_plain] at big
      contradiction
    | some event =>
      rw [decodeEvent, attempt, Option.getD_some] at big
      obtain ⟨topicVals, read, attempt⟩ := Option.bind_eq_some_iff.mp attempt
      obtain ⟨symbol, named, attempt⟩ := Option.bind_eq_some_iff.mp attempt
      obtain ⟨native, converted, same⟩ := Option.bind_eq_some_iff.mp attempt
      cases same
      rcases decoded_cases converted with plain | ⟨converted, foreign⟩
      · rw [plain] at big
        contradiction
      · obtain ⟨dataVal, readData, natives, wide⟩ := (generic_leaks_iff lawful converted).mp big
        exact ⟨topicVals, dataVal, symbol, read, readData, natives, named, foreign, wide⟩
  · rintro ⟨topicVals, dataVal, symbol, leaks⟩
    obtain ⟨native, converted⟩ := generic_isSome symbol leaks.readData leaks.natives
    have path : decoded sdk topics data contractName topicVals symbol = some native :=
      (decoded_generic leaks.foreign).trans converted
    have event : tryDecode sdk topics data contractName = some ⟨normalizeEventType sdk symbol, some symbol, native⟩ := by
      simp [tryDecode, leaks.read, leaks.named, path]
    rw [decodeEvent, event, Option.getD_some]
    exact (generic_leaks_iff lawful converted).mpr ⟨dataVal, leaks.readData, leaks.natives, leaks.wide⟩

/-! ### Fixed inputs -/

theorem nativesOf_eq (items : List ScVal) : nativesOf items = items.mapM nativeOf := by
  induction items with
  | nil => rfl
  | cons item rest ih =>
    rw [nativesOf, ih, List.mapM_cons]

theorem pairsOf_eq (texts : List (String × ScVal)) (entries : List (ScVal × ScVal)) :
    pairsOf entries = entries.mapM (nativePair (documented texts)) := by
  induction entries with
  | nil => rfl
  | cons entry rest ih =>
    have key : keyText (documented texts) entry.1 = (nativeOf entry.1).bind (string ascii) := rfl
    have value : (documented texts).scValToNative entry.2 = nativeOf entry.2 := rfl
    rw [pairsOf, ih, List.mapM_cons, nativePair, key, value]
    cases nativeOf entry.1 with
    | none => rfl
    | some native =>
      rw [Option.bind_some]
      cases named : string ascii native with
      | none => simp [named]
      | some name => cases nativeOf entry.2 <;> simp [named]

theorem documented_lawful (texts : List (String × ScVal)) : Lawful (documented texts) where
  wide val width := by
    cases val with
    | scvU64 | scvI64 | scvTimepoint | scvDuration | scvU128 | scvI128 | scvU256 | scvI256 => exact ⟨_, rfl⟩
    | _ => contradiction
  narrow val value narrow converted := by
    cases val with
    | scvBool | scvVoid | scvError | scvU32 | scvI32 | scvBytes | scvString | scvSymbol | scvAddress =>
      cases converted
      rfl
    | _ => contradiction
  vec items := by
    have same := nativesOf_eq items
    simp only [documented, platform, nativeOf, same]
  absent := ⟨rfl, rfl⟩
  map entries := by
    have same := pairsOf_eq texts entries
    simp only [documented, platform, nativeOf, same]

/-- Topics and data in base64, and what they decode to. -/
def priceTopic : String × ScVal := ("AAAADwAAAAVwcmljZQAAAA==", .scvSymbol (bytesOf "price"))

def mintTopic : String × ScVal := ("AAAADwAAAARtaW50", .scvSymbol (bytesOf "mint"))

def seven : String × ScVal := ("AAAABQAAAAAAAAAH", .scvU64 7)

/-! ### Values for JSON -/

/-- Both conversions are free of BigInts exactly for the values and events that do not leak one. -/
theorem serialisable_iff (lawful : Lawful sdk) :
    (∀ val json, scValToJson sdk val = some json → (hasBigInt json.2 = false ↔ ¬Leaks sdk val)) ∧
    ∀ topics data contractName, (decodeEvent sdk topics data contractName).decoded.hasBigInt = false ↔
      ¬∃ topicVals dataVal symbol, EventLeaks sdk topics data topicVals dataVal symbol := by
  refine ⟨fun val json converted => ?_, fun topics data contractName => ?_⟩
  · rw [← json_leaks_iff lawful val json converted, Bool.not_eq_true]
  · rw [← event_leaks_iff lawful topics data contractName, Bool.not_eq_true]

/-- A pair of an i128 and a u32, and an event of the token standard whose data is a u64. -/
theorem serialisable_pair :
    ¬Leaks (documented []) (.scvVec (some [.scvI128 0 5, .scvU32 1])) ∧
    ¬∃ topicVals dataVal symbol,
      EventLeaks (documented [mintTopic, seven]) [units mintTopic.1] (units seven.1) topicVals dataVal symbol :=
  ⟨((serialisable_iff (documented_lawful [])).1 _ _ rfl).mp rfl,
    ((serialisable_iff (documented_lawful [mintTopic, seven])).2 _ _ none).mp (by decide +kernel)⟩

/-- An argument that is a u64, and an event whose data is one. -/
theorem u64_unserialisable :
    (∃ json, scValToJson (documented []) (.scvU64 7) = some json ∧ hasBigInt json.2 = true) ∧
    (decodeEvent (documented [priceTopic, seven]) [units priceTopic.1] (units seven.1) none).decoded.hasBigInt = true :=
  ⟨⟨_, rfl, rfl⟩, by decide +kernel⟩

end Octraban.EventJson
