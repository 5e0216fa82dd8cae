import Octraban.Indexer.FormatAmount
import Octraban.Indexer.ScVals

/-! sep41-parser.ts: calls and events of the token standard, found by their names in two tables. -/
namespace Octraban.Sep41
open CodeUnits ScVals
open FormatAmount (decoderFormatAmount)

/-- The types that the parameters of the tables have. -/
inductive ParamType where
  | address
  | i128
  | u32
  deriving DecidableEq

structure AbiParam where
  name : String
  type : ParamType
  deriving DecidableEq

structure FunctionDef where
  inputs : List AbiParam
  humanTemplate : String

def SEP41_FUNCTIONS : List (String × FunctionDef) :=
  [("transfer", ⟨[⟨"from", .address⟩, ⟨"to", .address⟩, ⟨"amount", .i128⟩],
      "\x7bfrom|truncate\x7d transferred \x7bamount\x7d \x7btoken\x7d to \x7bto|truncate\x7d"⟩),
    ("transfer_from", ⟨[⟨"spender", .address⟩, ⟨"from", .address⟩, ⟨"to", .address⟩, ⟨"amount", .i128⟩],
      "\x7bspender|truncate\x7d transferred \x7bamount\x7d \x7btoken\x7d from \x7bfrom|truncate\x7d to \x7bto|truncate\x7d"⟩),
    ("approve", ⟨[⟨"from", .address⟩, ⟨"spender", .address⟩, ⟨"amount", .i128⟩, ⟨"expiration_ledger", .u32⟩],
      "\x7bfrom|truncate\x7d approved \x7bspender|truncate\x7d to spend \x7bamount\x7d \x7btoken\x7d " ++
        "(expires ledger \x7bexpiration_ledger\x7d)"⟩),
    ("balance_of", ⟨[⟨"id", .address⟩], "Balance query for \x7bid|truncate\x7d"⟩),
    ("allowance", ⟨[⟨"from", .address⟩, ⟨"spender", .address⟩],
      "Allowance query: \x7bfrom|truncate\x7d → \x7bspender|truncate\x7d"⟩),
    ("decimals", ⟨[], "Query token decimals"⟩),
    ("name", ⟨[], "Query token name"⟩),
    ("symbol", ⟨[], "Query token symbol"⟩),
    ("mint", ⟨[⟨"to", .address⟩, ⟨"amount", .i128⟩], "Minted \x7bamount\x7d \x7btoken\x7d to \x7bto|truncate\x7d"⟩),
    ("burn", ⟨[⟨"from", .address⟩, ⟨"amount", .i128⟩],
      "\x7bfrom|truncate\x7d burned \x7bamount\x7d \x7btoken\x7d"⟩),
    ("burn_from", ⟨[⟨"spender", .address⟩, ⟨"from", .address⟩, ⟨"amount", .i128⟩],
      "\x7bspender|truncate\x7d burned \x7bamount\x7d \x7btoken\x7d from \x7bfrom|truncate\x7d"⟩),
    ("clawback", ⟨[⟨"from", .address⟩, ⟨"amount", .i128⟩],
      "Admin clawed back \x7bamount\x7d \x7btoken\x7d from \x7bfrom|truncate\x7d"⟩),
    ("set_admin", ⟨[⟨"new_admin", .address⟩], "Admin changed to \x7bnew_admin|truncate\x7d"⟩),
    ("admin", ⟨[], "Query token admin"⟩)]

structure EventDef where
  topicParams : List AbiParam
  dataParam : AbiParam
  humanTemplate : String

def SEP41_EVENTS : List (String × EventDef) :=
  [("transfer", ⟨[⟨"from", .address⟩, ⟨"to", .address⟩], ⟨"amount", .i128⟩,
      "Address \x7bfrom|truncate\x7d transferred \x7bamount\x7d \x7btoken\x7d to \x7bto|truncate\x7d"⟩),
    ("mint", ⟨[⟨"admin", .address⟩, ⟨"to", .address⟩], ⟨"amount", .i128⟩,
      "\x7bamount\x7d \x7btoken\x7d minted to \x7bto|truncate\x7d"⟩),
    ("burn", ⟨[⟨"from", .address⟩], ⟨"amount", .i128⟩,
      "\x7bamount\x7d \x7btoken\x7d burned from \x7bfrom|truncate\x7d"⟩),
    ("approve", ⟨[⟨"from", .address⟩, ⟨"spender", .address⟩], ⟨"amount", .i128⟩,
      "\x7bfrom|truncate\x7d approved \x7bspender|truncate\x7d for \x7bamount\x7d \x7btoken\x7d"⟩),
    ("clawback", ⟨[⟨"admin", .address⟩, ⟨"from", .address⟩], ⟨"amount", .i128⟩,
      "CLAWBACK: \x7bamount\x7d \x7btoken\x7d recovered from \x7bfrom|truncate\x7d by authority \x7badmin|truncate\x7d"⟩),
    ("set_admin", ⟨[⟨"new_admin", .address⟩], ⟨"new_admin", .address⟩,
      "Token admin changed to \x7bnew_admin|truncate\x7d"⟩)]

structure DecodedArg where
  raw : Native
  formatted : Text

/-- Texts stand for themselves. -/
def DecodedArg.text (text : Text) : DecodedArg := ⟨.text text, text⟩

abbrev Fields := OrderedMap String DecodedArg

section
variable (sdk : Sdk)

/-- An amount that is no BigInt has no division, and the method `toString` of null does not exist. -/
def formatAmount (raw : Native) (decimals : ℕ) : Option Text :=
  match raw with
  | .bigint n => (decoderFormatAmount sdk.power n decimals).map units
  | .undefined | .null => none
  | raw => if decimals = 0 then string sdk.utf8 raw else none

/-- The branch of a type, inside the `try`. -/
def decodeTyped (val : ScVal) (decimals : ℕ) : ParamType → Option DecodedArg
  | .i128 => do
    let raw ← sdk.scValToNative val
    return ⟨raw, ← formatAmount sdk raw decimals⟩
  | .u32 => do
    let raw ← sdk.scValToNative val
    return ⟨raw, ← string sdk.utf8 raw⟩
  | .address =>
    match sdk.fromScVal val with
    | some raw => some (.text raw)
    | none => do return .text (← string sdk.utf8 (← sdk.scValToNative val))

def decodeScVal (val : ScVal) (param : AbiParam) (decimals : ℕ) : DecodedArg :=
  (decodeTyped sdk val decimals param.type).getD (.text (sdk.toXDR val))

/-- Parameters without an argument are passed over. -/
def decodeTypedArgs (params : List AbiParam) (rawArgs : List ScVal) (decimals : ℕ) : Fields :=
  (params.zip rawArgs).foldl (fun result arg => result.set arg.1.name (decodeScVal sdk arg.2 arg.1 decimals)) .empty

end

def isNameChar (c : Char) : Bool := c.isAlphanum || c = '_'

/-- What follows the opening brace of a placeholder: its key, its modifier and the rest of the template. -/
def placeholder (template : List Char) : Option (String × Option String × List Char) :=
  let key := template.takeWhile isNameChar
  if key = [] then none
  else match template.dropWhile isNameChar with
    | '\x7d' :: rest => some (.ofList key, none, rest)
    | '|' :: rest =>
      let modifier := rest.takeWhile isNameChar
      if modifier = [] then none
      else match rest.dropWhile isNameChar with
        | '\x7d' :: rest => some (.ofList key, some (.ofList modifier), rest)
        | _ => none
    | _ => none

def truncate (display : Text) : Text := display.take 6 ++ units "…" ++ display.drop (display.length - 4)

def fill (args : Fields) (tokenSymbol : Text) (key : String) (modifier : Option String) : Text :=
  if key = "token" then tokenSymbol
  else match args.get key with
    | none => []
    | some entry =>
      if modifier = some "truncate" ∧ 12 < entry.formatted.length then truncate entry.formatted else entry.formatted

/-- The fuel bounds the characters of the template. -/
def render (args : Fields) (tokenSymbol : Text) : ℕ → List Char → Text
  | 0, _ | _, [] => []
  | fuel + 1, c :: rest =>
    match if c = '\x7b' then placeholder rest else none with
    | some (key, modifier, rest) => fill args tokenSymbol key modifier ++ render args tokenSymbol fuel rest
    | none => units (.ofList [c]) ++ render args tokenSymbol fuel rest

def renderSep41Template (template : String) (args : Fields) (tokenSymbol : Text) (contractName : Option Text) : Text :=
  let text := render args tokenSymbol template.length template.toList
  match contractName with
  | none | some [] => text
  | some contractName => text ++ units " on " ++ contractName

structure ParsedCall where
  functionName : Text
  args : Fields
  humanReadable : Text

structure ParsedEvent where
  symbol : Text
  fields : Fields
  humanReadable : Text

inductive Thrown where
  | typeError
  deriving DecidableEq

section
variable (sdk : Sdk) (decimals : ℕ) (tokenSymbol : Text)

/-- What the table inherits is no definition and has no `inputs`. -/
def parseSep41Call (fnName : Text) (rawArgs : List ScVal) : Except Thrown (Option ParsedCall) :=
  match property SEP41_FUNCTIONS fnName with
  | .undefined => .ok none
  | .inherited => .error .typeError
  | .own function =>
    let decoded := decodeTypedArgs sdk function.inputs rawArgs decimals
    .ok (some ⟨fnName, decoded, renderSep41Template function.humanTemplate decoded tokenSymbol none⟩)

/-- The symbol of the first topic; nothing where it does not decode. -/
def topicSymbol (topics : List Text) : Option Text := do
  symbolText sdk (← sdk.fromXDR (← topics.head?))

/-- The one value of the decoded arguments, or the text where it does not decode. -/
def decodeField (param : AbiParam) (text : Text) : Option DecodedArg :=
  match sdk.fromXDR text with
  | none => some (.text text)
  | some val => (decodeTypedArgs sdk [param] [val] decimals).entries.head?.map Prod.snd

def setField (fields : Fields) (param : AbiParam) (text : Text) : Fields :=
  match decodeField sdk decimals param text with
  | none => fields
  | some decoded => fields.set param.name decoded

/-- The loop over the topics; those that are missing or empty are passed over. -/
def topicFields (params : List AbiParam) (topics : List Text) : Fields :=
  (params.zip topics.tail).foldl
    (fun fields topic => if topic.2 = [] then fields else setField sdk decimals fields topic.1 topic.2) .empty

/-- Some mint events have the recipient as their only topic. -/
def renameRecipient (symbol : Text) (fields : Fields) : Fields :=
  match fields.get "to", fields.get "admin" with
  | none, some admin => if symbol = units "mint" then (fields.set "to" admin).erase "admin" else fields
  | _, _ => fields

def parseSep41Event (topics : List Text) (data : Text) (contractName : Option Text) : Except Thrown (Option ParsedEvent) :=
  match topicSymbol sdk topics with
  | none => .ok none
  | some symbol => match property SEP41_EVENTS symbol with
    | .undefined => .ok none
    | .inherited => .error .typeError
    | .own event =>
      let fields := renameRecipient symbol (topicFields sdk decimals event.topicParams topics)
      let fields := setField sdk decimals fields event.dataParam data
      .ok (some ⟨symbol, fields, renderSep41Template event.humanTemplate fields tokenSymbol contractName⟩)

/-- A value or null, and null for what is unknown only. -/
def Answers {A : Type} (known : Prop) (result : Except Thrown (Option A)) : Prop :=
  ∃ answer, result = .ok answer ∧ (answer = none ↔ ¬known)

def functionNames : List Text := SEP41_FUNCTIONS.map (units ·.1)

def eventNames : List Text := SEP41_EVENTS.map (units ·.1)

theorem functionNames_own : ∀ name ∈ functionNames, name ∉ inheritedNames := by
  decide +kernel

theorem eventNames_own : ∀ name ∈ eventNames, name ∉ inheritedNames := by
  decide +kernel

variable {sdk decimals tokenSymbol}

theorem not_answers_error {A : Type} {known : Prop} {error : Thrown} :
    ¬Answers known (.error error : Except Thrown (Option A)) := by
  rintro ⟨answer, returned, -⟩
  cases returned

theorem answers_null {A : Type} {known : Prop} (unknown : ¬known) : Answers known (.ok none : Except Thrown (Option A)) :=
  ⟨none, rfl, fun _ => unknown, fun _ => rfl⟩

theorem answers_some {A : Type} {known : Prop} (answer : A) (holds : known) :
    Answers known (.ok (some answer) : Except Thrown (Option A)) :=
  ⟨some answer, rfl, iff_of_false (fun null => nomatch null) (not_not.mpr holds)⟩

theorem call_answers_iff (fnName : Text) (rawArgs : List ScVal) :
    Answers (fnName ∈ functionNames) (parseSep41Call sdk decimals tokenSymbol fnName rawArgs) ↔
      fnName ∉ inheritedNames := by
  unfold parseSep41Call
  rcases property_cases SEP41_FUNCTIONS fnName with
    ⟨function, found, known⟩ | ⟨found, -, inherits⟩ | ⟨found, missing, own⟩
  · rw [found]
    exact iff_of_true (answers_some _ known) (functionNames_own fnName known)
  · rw [found]
    exact iff_of_false not_answers_error (not_not.mpr inherits)
  · rw [found]
    exact iff_of_true (answers_null missing) own

/-- The events that are answered for: those whose first topic decodes to no name that every object has. -/
theorem event_answers_iff (topics : List Text) (data : Text) (contractName : Option Text) :
    Answers (∃ symbol ∈ eventNames, topicSymbol sdk topics = some symbol)
      (parseSep41Event sdk decimals tokenSymbol topics data contractName) ↔
        ∀ symbol, topicSymbol sdk topics = some symbol → symbol ∉ inheritedNames := by
  unfold parseSep41Event
  cases decoded : topicSymbol sdk topics with
  | none => exact iff_of_true (answers_null (by simp)) fun _ absent => nomatch absent
  | some symbol =>
    have same : (∃ name ∈ eventNames, some symbol = some name) ↔ symbol ∈ eventNames := by simp
    have named : (∀ name, some symbol = some name → name ∉ inheritedNames) ↔ symbol ∉ inheritedNames := by simp
    rw [named, Answers, same, ← Answers]
    rcases property_cases SEP41_EVENTS symbol with
      ⟨event, found, known⟩ | ⟨found, -, inherits⟩ | ⟨found, missing, own⟩
    · simp only [found]
      exact iff_of_true (answers_some _ known) (eventNames_own symbol known)
    · simp only [found]
      exact iff_of_false not_answers_error (not_not.mpr inherits)
    · simp only [found]
      exact iff_of_true (answers_null missing) own

/-- Null is returned for a topic that does not decode, and for an unknown name. -/
theorem parseSep41Event_null_iff {topics : List Text} {data : Text} {contractName : Option Text} :
    parseSep41Event sdk decimals tokenSymbol topics data contractName = .ok none ↔
      ∀ symbol, topicSymbol sdk topics = some symbol → symbol ∉ eventNames ∧ symbol ∉ inheritedNames := by
  unfold parseSep41Event
  cases decoded : topicSymbol sdk topics with
  | none => exact iff_of_true rfl fun _ absent => nomatch absent
  | some symbol =>
    simp only [Option.some.injEq, forall_eq']
    rcases property_cases SEP41_EVENTS symbol with
      ⟨event, found, known⟩ | ⟨found, -, inherits⟩ | ⟨found, missing, own⟩
    · rw [found]
      refine iff_of_false (fun same => ?_) fun unknown => unknown.1 known
      cases same
    · rw [found]
      refine iff_of_false (fun same => ?_) fun unknown => unknown.2 inherits
      cases same
    · rw [found]
      exact iff_of_true rfl ⟨missing, own⟩

/-- Both parsers answer for all names but those of properties that every object has. -/
theorem parsers_answer_iff (sdk : Sdk) (decimals : ℕ) (tokenSymbol : Text) :
    (∀ fnName rawArgs, Answers (fnName ∈ functionNames) (parseSep41Call sdk decimals tokenSymbol fnName rawArgs) ↔
      fnName ∉ inheritedNames) ∧
    ∀ topics data contractName, Answers (∃ symbol ∈ eventNames, topicSymbol sdk topics = some symbol)
      (parseSep41Event sdk decimals tokenSymbol topics data contractName) ↔
        ∀ symbol, topicSymbol sdk topics = some symbol → symbol ∉ inheritedNames :=
  ⟨call_answers_iff, event_answers_iff⟩

/-- A topic in base64, and the symbol it decodes to. -/
def constructorTopic : String × ScVal := ("AAAADwAAAAtjb25zdHJ1Y3RvcgA=", .scvSymbol (bytesOf "constructor"))

/-- The functions of every object are no definitions. -/
theorem constructor_throws :
    parseSep41Call (documented []) 7 [] (units "constructor") [] = .error .typeError ∧
    parseSep41Event (documented [constructorTopic]) 7 [] [units constructorTopic.1] [] none = .error .typeError ∧
    ¬∀ sdk decimals tokenSymbol fnName rawArgs,
      Answers (fnName ∈ functionNames) (parseSep41Call sdk decimals tokenSymbol fnName rawArgs) := by
  have inherits : units "constructor" ∈ inheritedNames := by decide +kernel
  refine ⟨rfl, rfl, fun always => ?_⟩
  exact (call_answers_iff _ _).mp (always (documented []) 7 [] (units "constructor") []) inherits

end

end Octraban.Sep41
