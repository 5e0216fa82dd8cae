import Octraban.Core.Halves
import Octraban.Core.Partial
import Octraban.Indexer.ScVals

/-! xdr-parser.ts: the invocation of a transaction envelope with its arguments and its authorization entries. Where an
accessor of an XDR union is called on another arm, it throws: nothing is returned. -/
namespace Octraban.XdrParser
open CodeUnits ScVals
open JavaScript (bigIntText)
open Properties (protoKey arrayIndex)

/-! ### ScVal to JSON -/

/-- The values that `scValToJson` returns. The items of an array are objects with a type and a value; an object has a
prototype where it is not `Object.prototype`. -/
inductive Json where
  | text (text : Text)
  | boolean (value : Bool)
  | null
  | native (value : Native)
  | array (items : List (String × Json))
  | object (prototype : Option Json) (entries : List (Text × Json))

def nativeSetter : Native → Bool
  | .object entries => !entries.any (·.1 = protoKey)
  | .null => false
  | _ => true

/-- Whether the way up from a value reaches the setter of `__proto__`. -/
def Json.setter : Json → Bool
  | .object none entries => !entries.any (·.1 = protoKey)
  | .object (some prototype) entries => !entries.any (·.1 = protoKey) && prototype.setter
  | .null => false
  | .native value => nativeSetter value
  | _ => true

/-- What that setter takes for a prototype. -/
def Json.isPrototype : Json → Bool
  | .object .. | .array _ | .null | .native (.object _) | .native (.array _) | .native (.bytes _) | .native .null => true
  | _ => false

/-- An object in the making. -/
structure Obj where
  prototype : Option Json
  own : OrderedMap Text Json

def Obj.empty : Obj := ⟨none, .empty⟩

/-- Whether an assignment to `__proto__` sets the prototype. -/
def Obj.takesPrototype (obj : Obj) : Prop := protoKey ∉ obj.own.keys ∧ obj.prototype.all Json.setter

instance (obj : Obj) : Decidable obj.takesPrototype := inferInstanceAs (Decidable (_ ∧ _))

/-- `obj[name] = value` -/
def Obj.assign (obj : Obj) (name : Text) (value : Json) : Obj :=
  if name = protoKey ∧ obj.takesPrototype then
    if value.isPrototype then { obj with prototype := some value } else obj
  else { obj with own := obj.own.set name value }

def Obj.value (obj : Obj) : Json := .object obj.prototype (JavaScript.ordered arrayIndex obj.own.entries)

def int128 (hi : ℤ) (lo : BitVec 64) : ℤ := (hi <<< (64 : ℕ)).lor lo.toNat

def int256 (hiHi : ℤ) (hiLo loHi loLo : BitVec 64) : ℤ :=
  (((hiHi <<< (192 : ℕ)).lor ((hiLo.toNat : ℤ) <<< (128 : ℕ))).lor ((loHi.toNat : ℤ) <<< (64 : ℕ))).lor loLo.toNat

def typeName : ScVal → String
  | .scvError .. => "scvError"
  | .scvU32 _ => "scvU32"
  | .scvI32 _ => "scvI32"
  | .scvU64 _ => "scvU64"
  | .scvI64 _ => "scvI64"
  | .scvTimepoint _ => "scvTimepoint"
  | .scvDuration _ => "scvDuration"
  | .scvContractInstance .. => "scvContractInstance"
  | .scvLedgerKeyContractInstance => "scvLedgerKeyContractInstance"
  | .scvLedgerKeyNonce _ => "scvLedgerKeyNonce"
  | _ => ""

section
variable (sdk : Sdk)

def keyText (key : ScVal) : Option Text := do string sdk.utf8 (← sdk.scValToNative key)

/-- The default branch: the SDK's native value. -/
def fallback (val : ScVal) : Option (String × Json) := (sdk.scValToNative val).map fun value => (typeName val, .native value)

mutual

def scValToJson : ScVal → Option (String × Json)
  | .scvAddress (.account ed25519) => some ("address", .text (sdk.encodeEd25519PublicKey ed25519))
  | .scvAddress (.contract contractId) => some ("address", .text (sdk.encodeContract contractId))
  | .scvMap none => some ("map", Obj.empty.value)
  | .scvMap (some entries) => (jsonEntries .empty entries).map fun obj => ("map", obj.value)
  | .scvVec none => some ("vec", .array [])
  | .scvVec (some items) => (jsonItems items).map fun items => ("vec", .array items)
  | .scvI128 hi lo => some ("i128", .text (units (bigIntText (int128 hi.toInt lo))))
  | .scvU128 hi lo => some ("u128", .text (units (bigIntText (int128 hi.toNat lo))))
  | .scvI256 hiHi hiLo loHi loLo => some ("i256", .text (units (bigIntText (int256 hiHi.toInt hiLo loHi loLo))))
  | .scvU256 hiHi hiLo loHi loLo => some ("u256", .text (units (bigIntText (int256 hiHi.toNat hiLo loHi loLo))))
  | .scvBytes bytes => some ("bytes", .text (Hex.text bytes))
  | .scvString str => some ("string", .text (sdk.utf8 str))
  | .scvSymbol sym => some ("symbol", .text (sdk.utf8 sym))
  | .scvBool b => some ("bool", .boolean b)
  | .scvVoid => some ("void", .null)
  | val@(.scvError ..) | val@(.scvU32 _) | val@(.scvI32 _) | val@(.scvU64 _) | val@(.scvI64 _) | val@(.scvTimepoint _)
  | val@(.scvDuration _) | val@(.scvContractInstance ..) | val@.scvLedgerKeyContractInstance
  | val@(.scvLedgerKeyNonce _) => fallback sdk val

def jsonItems : List ScVal → Option (List (String × Json))
  | [] => some []
  | item :: rest => do return (← scValToJson item) :: (← jsonItems rest)

/-- The loop over the entries of a map. -/
def jsonEntries (obj : Obj) : List (ScVal × ScVal) → Option Obj
  | [] => some obj
  | entry :: rest => do
    let name ← keyText sdk entry.1
    let value ← scValToJson entry.2
    jsonEntries (obj.assign name value.2) rest

end

end

/-! ### Envelopes -/

structure InvokeContractArgs where
  contractAddress : ScAddress
  functionName : List UInt8
  args : List ScVal

inductive AuthorizedFunction where
  | contractFn (args : InvokeContractArgs)
  | createContractHostFn

inductive AuthorizedInvocation where
  | mk (function : AuthorizedFunction) (subInvocations : List AuthorizedInvocation)

inductive Credentials where
  | sourceAccount
  | address (address : ScAddress) (nonce : BitVec 64)

structure AuthorizationEntry where
  credentials : Credentials
  rootInvocation : AuthorizedInvocation

inductive HostFunction where
  | invokeContract (args : InvokeContractArgs)
  | createContract
  | uploadContractWasm

/-- The bodies of operations of all other types are not looked at. -/
inductive OperationBody where
  | invokeHostFunction (hostFunction : HostFunction) (auth : List AuthorizationEntry)
  | other

inductive TransactionEnvelope where
  | txV0 (operations : List OperationBody)
  | tx (operations : List OperationBody)
  | txFeeBump (inner : List OperationBody)

def AuthorizedInvocation.function : AuthorizedInvocation → AuthorizedFunction
  | mk function _ => function

def AuthorizedInvocation.subInvocations : AuthorizedInvocation → List AuthorizedInvocation
  | mk _ subInvocations => subInvocations

/-- The accessor of an arm. -/
def contractId : ScAddress → Option (List UInt8)
  | .contract contractId => some contractId
  | .account _ => none

/-- The accessor of an arm. -/
def contractFn : AuthorizedFunction → Option InvokeContractArgs
  | .contractFn args => some args
  | .createContractHostFn => none

structure ParsedArg where
  index : ℕ
  type : String
  value : Json

structure ParsedSubInvocation where
  contractId : Text
  functionName : Text
  args : List ParsedArg

inductive AuthType where
  | account
  | contract
  deriving DecidableEq

structure ParsedAuth where
  type : AuthType
  address : Text
  nonce : Option Text
  subInvocations : List ParsedSubInvocation

structure ParsedInvokeHostFunction where
  contractId : Text
  functionName : Text
  args : List ParsedArg
  auth : List ParsedAuth

section
variable (sdk : Sdk)

def parseArgs (args : List ScVal) : Option (List ParsedArg) :=
  args.zipIdx.mapM fun arg => (scValToJson sdk arg.1).map fun json => ⟨arg.2, json.1, json.2⟩

def scAddressToString : ScAddress → Option Text
  | .account ed25519 => some (sdk.encodeEd25519PublicKey ed25519)
  | addr => (contractId addr).map sdk.encodeContract

def parseSubInvocation (invocation : AuthorizedInvocation) : Option ParsedSubInvocation := do
  let contractFn ← contractFn invocation.function
  let contractId ← contractId contractFn.contractAddress
  let args ← parseArgs sdk contractFn.args
  return ⟨sdk.encodeContract contractId, sdk.utf8 contractFn.functionName, args⟩

/-- Type, address and nonce by the credentials. -/
def credentialsOf : Credentials → Option (AuthType × Text × Option Text)
  | .sourceAccount => some (.account, units "source", none)
  | .address scAddr nonce => do
    let address ← scAddressToString sdk scAddr
    let type := match scAddr with
      | .contract _ => .contract
      | .account _ => .account
    return (type, address, some (units (bigIntText nonce.toInt)))

def parseAuthEntry (entry : AuthorizationEntry) : Option ParsedAuth := do
  let (type, address, nonce) ← credentialsOf sdk entry.credentials
  let (type, address) ← match entry.rootInvocation.function with
    | .contractFn contractFn => do
      let contractId ← contractId contractFn.contractAddress
      some (AuthType.contract, sdk.encodeContract contractId)
    | .createContractHostFn => some (type, address)
  let subInvocations ← entry.rootInvocation.subInvocations.mapM (parseSubInvocation sdk)
  return ⟨type, address, nonce, subInvocations⟩

def parseInvoke (invokeArgs : InvokeContractArgs) (auth : List AuthorizationEntry) : Option ParsedInvokeHostFunction := do
  let contractId ← contractId invokeArgs.contractAddress
  let args ← parseArgs sdk invokeArgs.args
  let auth ← auth.mapM (parseAuthEntry sdk)
  return ⟨sdk.encodeContract contractId, sdk.utf8 invokeArgs.functionName, args, auth⟩

end

def OperationBody.isInvoke : OperationBody → Bool
  | invokeHostFunction .. => true
  | other => false

/-- The contract call of the first operation that invokes a host function. -/
def invocation : TransactionEnvelope → Option (InvokeContractArgs × List AuthorizationEntry)
  | .txFeeBump _ => none
  | .tx ops | .txV0 ops =>
    match ops.find? OperationBody.isInvoke with
    | some (.invokeHostFunction (.invokeContract invokeArgs) auth) => some (invokeArgs, auth)
    | _ => none

/-- Null is a result; nothing is returned where an accessor or a conversion throws. -/
def parseEnvelope (sdk : Sdk) (envelope : TransactionEnvelope) : Option (Option ParsedInvokeHostFunction) :=
  match invocation envelope with
  | none => some none
  | some (invokeArgs, auth) => (parseInvoke sdk invokeArgs auth).map some

def parseInvokeHostFunction (sdk : Sdk) (fromXDR : Text → Option TransactionEnvelope) (envelopeXdr : Text) :
    Option (Option ParsedInvokeHostFunction) :=
  match fromXDR envelopeXdr with
  | none => some none
  | some envelope => parseEnvelope sdk envelope

/-! ### What can be read -/

/-- Whether the default branch takes the value. -/
def isFallback : ScVal → Bool
  | .scvError .. | .scvU32 _ | .scvI32 _ | .scvU64 _ | .scvI64 _ | .scvTimepoint _ | .scvDuration _
  | .scvContractInstance .. | .scvLedgerKeyContractInstance | .scvLedgerKeyNonce _ => true
  | _ => false

section
variable (sdk : Sdk)

/-- The keys of a map have texts, and the SDK converts what is left to it. -/
structure Shown (val : ScVal) : Prop where
  keys : ∀ entries, val = .scvMap (some entries) → ∀ entry ∈ entries, (keyText sdk entry.1).isSome
  native : isFallback val = true → (sdk.scValToNative val).isSome

/-- A value all parts of which are shown. -/
def Legible (val : ScVal) : Prop := ∀ part, val.Part part → Shown sdk part

/-- A call of a contract, not of an account, with legible arguments. -/
structure Callable (call : InvokeContractArgs) : Prop where
  contract : ∃ id, call.contractAddress = .contract id
  args : ∀ arg ∈ call.args, Legible sdk arg

/-- No contract is created right below the root of an authorization entry, and what is called there and by the root
are contracts; the arguments below the root are legible, those of the root itself are not read. -/
structure Readable (entry : AuthorizationEntry) : Prop where
  root : ∀ call, entry.rootInvocation.function = .contractFn call → ∃ id, call.contractAddress = .contract id
  below : ∀ sub ∈ entry.rootInvocation.subInvocations, ∃ call, sub.function = .contractFn call ∧ Callable sdk call

variable {sdk}

theorem jsonItems_isSome {items : List ScVal} :
    (jsonItems sdk items).isSome ↔ ∀ item ∈ items, (scValToJson sdk item).isSome := by
  induction items with
  | nil => simp [jsonItems]
  | cons item rest ih =>
    rw [List.forall_mem_cons, ← ih, jsonItems]
    cases scValToJson sdk item <;> cases jsonItems sdk rest <;> simp

theorem jsonEntries_isSome {obj : Obj} {entries : List (ScVal × ScVal)} : (jsonEntries sdk obj entries).isSome ↔
    ∀ entry ∈ entries, (keyText sdk entry.1).isSome ∧ (scValToJson sdk entry.2).isSome := by
  induction entries generalizing obj with
  | nil => simp [jsonEntries]
  | cons entry rest ih =>
    rw [List.forall_mem_cons, jsonEntries]
    cases keyText sdk entry.1 with
    | none => simp
    | some name =>
      cases scValToJson sdk entry.2 with
      | none => simp
      | some value => simpa using ih

/-- One level of the conversion. -/
theorem scValToJson_level (val : ScVal) :
    (scValToJson sdk val).isSome ↔ Shown sdk val ∧ ∀ inner ∈ val.children, (scValToJson sdk inner).isSome := by
  have leaf (text : isFallback val = false) (whole : val.children = []) (plain : ∀ entries, val ≠ .scvMap (some entries)) :
      Shown sdk val ∧ ∀ inner ∈ val.children, (scValToJson sdk inner).isSome := by
    refine ⟨⟨fun entries same => absurd same (plain entries), fun default => ?_⟩, fun inner member => ?_⟩
    · rw [text] at default
      contradiction
    · rw [whole] at member
      contradiction
  have default (left : isFallback val = true) (whole : val.children = [])
      (plain : ∀ entries, val ≠ .scvMap (some entries)) :
      (fallback sdk val).isSome ↔ Shown sdk val ∧ ∀ inner ∈ val.children, (scValToJson sdk inner).isSome := by
    rw [fallback, Option.isSome_map, whole]
    refine ⟨fun converted => ⟨⟨fun entries same => absurd same (plain entries), fun _ => converted⟩, ?_⟩, ?_⟩
    · exact fun _ member => nomatch member
    · exact fun all => all.1.native left
  cases val with
  | scvVec vec =>
    cases vec with
    | none => exact iff_of_true rfl (leaf rfl rfl (fun _ same => nomatch same))
    | some items =>
      rw [scValToJson, Option.isSome_map, jsonItems_isSome]
      refine ⟨fun all => ⟨⟨fun _ same => ?_, fun default => ?_⟩, all⟩, fun all => all.2⟩
      · cases same
      · cases default
  | scvMap map =>
    cases map with
    | none => exact iff_of_true rfl (leaf rfl rfl (fun _ same => nomatch same))
    | some entries =>
      rw [scValToJson, Option.isSome_map, jsonEntries_isSome]
      constructor
      · intro all
        refine ⟨⟨fun _ same => ?_, fun default => nomatch default⟩, fun inner member => ?_⟩
        · cases same
          exact fun entry member => (all entry member).1
        · obtain ⟨entry, listed, rfl⟩ := List.mem_map.mp member
          exact (all entry listed).2
      · exact fun all entry member => ⟨all.1.keys entries rfl entry member, all.2 entry.2 (List.mem_map_of_mem member)⟩
  | scvAddress address =>
    cases address with
    | account | contract => exact iff_of_true rfl (leaf rfl rfl (fun _ same => nomatch same))
  | scvBool | scvVoid | scvU128 | scvI128 | scvU256 | scvI256 | scvBytes | scvString | scvSymbol =>
    exact iff_of_true rfl (leaf rfl rfl (fun _ same => nomatch same))
  | scvError | scvU32 | scvI32 | scvU64 | scvI64 | scvTimepoint | scvDuration | scvContractInstance
  | scvLedgerKeyContractInstance | scvLedgerKeyNonce =>
    rw [scValToJson]
    exact default rfl rfl (fun _ same => nomatch same)

theorem scValToJson_isSome_iff (val : ScVal) : (scValToJson sdk val).isSome ↔ Legible sdk val :=
  ScVal.iff_forall_part scValToJson_level val

theorem parseArgs_isSome {args : List ScVal} : (parseArgs sdk args).isSome ↔ ∀ arg ∈ args, Legible sdk arg := by
  have values : args.zipIdx.map Prod.fst = args := List.zipIdx_map_fst 0 args
  rw [parseArgs, Partial.isSome_mapM_iff]
  simp only [Option.isSome_map, scValToJson_isSome_iff]
  conv_rhs => rw [← values, List.forall_mem_map]

theorem contractId_isSome {address : ScAddress} : (contractId address).isSome ↔ ∃ id, address = .contract id := by
  cases address <;> simp [contractId]

theorem callable_iff {call : InvokeContractArgs} :
    Callable sdk call ↔ (contractId call.contractAddress).isSome ∧ (parseArgs sdk call.args).isSome := by
  rw [contractId_isSome, parseArgs_isSome]
  exact ⟨fun callable => ⟨callable.contract, callable.args⟩, fun both => ⟨both.1, both.2⟩⟩

theorem parseSubInvocation_isSome {sub : AuthorizedInvocation} :
    (parseSubInvocation sdk sub).isSome ↔ ∃ call, sub.function = .contractFn call ∧ Callable sdk call := by
  unfold parseSubInvocation
  cases sub.function with
  | createContractHostFn => simp [contractFn]
  | contractFn call =>
    simp only [AuthorizedFunction.contractFn.injEq, exists_eq_left', callable_iff, contractFn, Option.bind_eq_bind,
      Option.bind_some]
    cases contractId call.contractAddress <;> cases parseArgs sdk call.args <;> simp

theorem credentialsOf_isSome (sdk : Sdk) (credentials : Credentials) :
    ∃ result, credentialsOf sdk credentials = some result := by
  cases credentials with
  | sourceAccount => exact ⟨_, rfl⟩
  | address address nonce =>
    cases address with
    | account | contract => exact ⟨_, rfl⟩

theorem parseAuthEntry_isSome {entry : AuthorizationEntry} : (parseAuthEntry sdk entry).isSome ↔ Readable sdk entry := by
  obtain ⟨result, credentials⟩ := credentialsOf_isSome sdk entry.credentials
  have below : (entry.rootInvocation.subInvocations.mapM (parseSubInvocation sdk)).isSome ↔
      ∀ sub ∈ entry.rootInvocation.subInvocations, ∃ call, sub.function = .contractFn call ∧ Callable sdk call := by
    rw [Partial.isSome_mapM_iff]
    exact forall₂_congr fun sub _ => parseSubInvocation_isSome
  have readable : Readable sdk entry ↔
      (∀ call, entry.rootInvocation.function = .contractFn call → (contractId call.contractAddress).isSome) ∧
        (entry.rootInvocation.subInvocations.mapM (parseSubInvocation sdk)).isSome := by
    rw [below]
    simp only [contractId_isSome]
    exact ⟨fun readable => ⟨readable.root, readable.below⟩, fun both => ⟨both.1, both.2⟩⟩
  rw [readable, parseAuthEntry, credentials]
  cases entry.rootInvocation.function with
  | createContractHostFn => cases entry.rootInvocation.subInvocations.mapM (parseSubInvocation sdk) <;> simp
  | contractFn call =>
    simp only [AuthorizedFunction.contractFn.injEq, forall_eq']
    cases contractId call.contractAddress <;>
      cases entry.rootInvocation.subInvocations.mapM (parseSubInvocation sdk) <;> simp

theorem parseInvoke_isSome {call : InvokeContractArgs} {auth : List AuthorizationEntry} :
    (parseInvoke sdk call auth).isSome ↔ Callable sdk call ∧ ∀ entry ∈ auth, Readable sdk entry := by
  have entries : (auth.mapM (parseAuthEntry sdk)).isSome ↔ ∀ entry ∈ auth, Readable sdk entry := by
    rw [Partial.isSome_mapM_iff]
    exact forall₂_congr fun entry _ => parseAuthEntry_isSome
  rw [callable_iff, ← entries, parseInvoke]
  cases contractId call.contractAddress <;> cases parseArgs sdk call.args <;>
    cases auth.mapM (parseAuthEntry sdk) <;> simp

end

/-- What is read of an envelope can be read. -/
theorem envelope_decodes_iff (sdk : Sdk) (fromXDR : Text → Option TransactionEnvelope) (envelopeXdr : Text) :
    (parseInvokeHostFunction sdk fromXDR envelopeXdr).isSome ↔
      ∀ envelope ∈ fromXDR envelopeXdr, ∀ call auth, invocation envelope = some (call, auth) →
        Callable sdk call ∧ ∀ entry ∈ auth, Readable sdk entry := by
  unfold parseInvokeHostFunction
  cases fromXDR envelopeXdr with
  | none => simp
  | some envelope =>
    simp only [Option.mem_some_iff, forall_eq', parseEnvelope]
    cases invocation envelope with
    | none => simp
    | some pair =>
      simp only [Option.isSome_map, parseInvoke_isSome, Option.some.injEq]
      constructor
      · rintro readable call auth rfl
        exact readable
      · exact fun all => all pair.1 pair.2 rfl

def token : ScAddress := .contract (List.replicate 32 7)

/-- A transfer of a token, signed for by an address. -/
def transfer : InvokeContractArgs where
  contractAddress := token
  functionName := bytesOf "transfer"
  args := [.scvAddress (.account (List.replicate 32 1)), .scvAddress token, .scvI128 0 5]

/-- A factory is called, and the call creates a contract. -/
def factory : TransactionEnvelope :=
  .tx [.invokeHostFunction (.invokeContract transfer)
    [⟨.sourceAccount, .mk (.contractFn transfer) [.mk .createContractHostFn []]⟩]]

theorem factory_throws : parseEnvelope (documented []) factory = none ∧
    ¬∀ sdk fromXDR envelopeXdr, (parseInvokeHostFunction sdk fromXDR envelopeXdr).isSome := by
  refine ⟨rfl, fun always => ?_⟩
  have decoded := always (documented []) (fun _ => some factory) []
  contradiction

end Octraban.XdrParser
