import Octraban.Core.BigInt
import Octraban.Core.Sorting

/-! Batches of contract calls: validation, conflicts on storage keys and the order that costs
least gas. -/
namespace Octraban.Batch

open JavaScript

/-- A member of the request body: absent, null, a string, or something else with its text. -/
inductive Field where
  | undefined | null
  | string (text : String)
  | other (text : String)
  deriving DecidableEq

def Field.text : Field → String
  | undefined => "undefined"
  | null => "null"
  | string text | other text => text

/-- Name and type are the texts of `name || ''` and `type || ''`. -/
structure Arg where
  name : String
  type : String
  value : Field

structure Condition where
  sourceCallId : Field

structure Loop where
  iterations : Number

/-- A call of the request body; a text is empty and a list is empty where the member is falsy. -/
structure Call where
  id : String
  contractId : String
  functionName : String
  args : List Arg
  condition : Option Condition
  loop : Option Loop
  signerThreshold : Number
  signerWeight : Number

/-- `number || 1` -/
def orOne (number : Number) : Number := if number = .nan ∨ number = .finite 0 then .finite 1 else number

def normalizeCall (call : Call) (index : Nat) : Call :=
  { call with
    id := if call.id = "" then "call-" ++ String.ofList (decimal (index + 1)) else call.id
    signerThreshold := orOne call.signerThreshold
    signerWeight := orOne call.signerWeight }

def normalizeCalls (calls : List Call) : List Call := calls.mapIdx fun index call => normalizeCall call index

inductive Access where
  | read | write | unknown
  deriving DecidableEq

def writePrefixes : List String :=
  ["set", "put", "update", "transfer", "mint", "burn", "approve", "deposit", "withdraw", "stake", "unstake", "bid",
    "list", "delist", "claim", "revoke", "grant", "pause", "unpause"]

def readPrefixes : List String :=
  ["get", "read", "balance", "allowance", "owner", "name", "symbol", "decimals", "metadata", "view", "check"]

/-- One of the texts stands at the start. -/
def startsWithOne (parts : List String) (text : String) : Bool :=
  parts.any fun part => part.toList.isPrefixOf text.toList

def includes (text part : String) : Bool := decide (part.toList <:+: text.toList)

section LowerCase

-- `toLowerCase` of the engine
variable (toLowerCase : String → String)

def inferAccessType (call : Call) : Access :=
  let functionName := toLowerCase call.functionName
  if startsWithOne writePrefixes functionName then .write
  else if startsWithOne readPrefixes functionName then .read
  else .unknown

structure StorageKey where
  contractId : String
  key : String
  accessType : Access
  deriving DecidableEq

def plainTypes : List String := ["address", "bytes", "string", "symbol"]

def storageKey? (call : Call) (arg : Arg) : Option StorageKey :=
  let argName := toLowerCase arg.name
  let argType := toLowerCase arg.type
  if includes argName "key" || includes argName "id" || includes argName "address" || plainTypes.contains argType then
    let key :=
      if plainTypes.contains argType then arg.value.text
      else (if arg.name = "" then argType else arg.name) ++ ":" ++ arg.value.text
    some ⟨call.contractId, argType ++ ":" ++ key, inferAccessType toLowerCase call⟩
  else none

def extractStorageKeys (call : Call) : List StorageKey :=
  match call.args.filterMap (storageKey? toLowerCase call) with
  | [] => [⟨call.contractId, call.functionName, inferAccessType toLowerCase call⟩]
  | keys => keys

inductive ConflictType where
  | writeWrite | readWrite | readRead
  deriving DecidableEq

def conflictTypeFor (callA callB : Call) : ConflictType :=
  let accessA := inferAccessType toLowerCase callA
  let accessB := inferAccessType toLowerCase callB
  if accessA = .write ∧ accessB = .write then .writeWrite
  else if accessA = .write ∨ accessB = .write then .readWrite
  else .readRead

structure Conflict where
  callId : String
  storageKeys : List StorageKey
  conflictingCalls : List (String × ConflictType)
  deriving DecidableEq

def commonKeys (callA callB : Call) : List StorageKey :=
  (extractStorageKeys toLowerCase callA).filter fun keyA =>
    (extractStorageKeys toLowerCase callB).any fun keyB => keyA.contractId = keyB.contractId ∧ keyA.key = keyB.key

/-- What one pair of calls adds to the conflicts. -/
def conflictsOfPair (callA callB : Call) : List Conflict :=
  let common := commonKeys toLowerCase callA callB
  if common.length = 0 then []
  else
    let conflictType := conflictTypeFor toLowerCase callA callB
    [⟨callA.id, common, [(callB.id, conflictType)]⟩, ⟨callB.id, common, [(callA.id, conflictType)]⟩]

/-- The two loops of `detectConflicts`. -/
def conflictsFrom : List Call → List Conflict
  | [] => []
  | callA :: rest => rest.flatMap (conflictsOfPair toLowerCase callA) ++ conflictsFrom rest

def detectConflicts (calls : List Call) : List Conflict := conflictsFrom toLowerCase (normalizeCalls calls)

/-- A write and another access of a common key by the two calls is among the conflicts. -/
def Reported (calls : List Call) (callA callB : String) : Prop :=
  ∃ conflict ∈ detectConflicts toLowerCase calls, conflict.callId = callA ∧
    ∃ kind, (callB, kind) ∈ conflict.conflictingCalls ∧ kind ≠ .readRead

/-- The gas figures of one call. -/
structure Estimate where
  callId : String
  cpuInsns : ℚ
  memBytes : ℚ

/-- The last estimate of an id is the one the map keeps. -/
def costByCall (gasBreakdown : List Estimate) (callId : String) : ℚ :=
  ((gasBreakdown.reverse.find? fun estimate => estimate.callId = callId).map fun estimate =>
    estimate.cpuInsns + estimate.memBytes).getD 0

structure Item where
  call : Call
  index : Nat
  cost : ℚ
  access : Access

def compare (a b : Item) : ℚ :=
  if a.access = .read ∧ b.access ≠ .read then -1
  else if b.access = .read ∧ a.access ≠ .read then 1
  else if a.access = .write ∧ b.access ≠ .write then 1
  else if b.access = .write ∧ a.access ≠ .write then -1
  else if a.cost ≠ b.cost then a.cost - b.cost
  else a.index - b.index

def item (gasBreakdown : List Estimate) (call : Call) (index : Nat) : Item :=
  ⟨call, index, costByCall gasBreakdown call.id, inferAccessType toLowerCase call⟩

def items (calls : List Call) (gasBreakdown : List Estimate) : List Item :=
  (normalizeCalls calls).mapIdx fun index call => item toLowerCase gasBreakdown call index

def optimizeBatchOrder (calls : List Call) (gasBreakdown : List Estimate) : List String :=
  ((items toLowerCase calls gasBreakdown).mergeSort fun a b => compare a b ≤ 0).map fun entry => entry.call.id

structure Error where
  callId : String
  error : String

def argErrors (call : Call) (argIndex : Nat) (arg : Arg) : List Error :=
  let position := String.ofList (decimal argIndex)
  (if arg.name = "" then [⟨call.id, "Argument " ++ position ++ " is missing a name"⟩] else []) ++
    if arg.value = .undefined ∨ arg.value = .null ∨ arg.value = .string "" then
      [⟨call.id, "Argument " ++ (if arg.name = "" then position else arg.name) ++ " is missing a value"⟩]
    else []

/-- What one turn of the loop in `validateBatch` adds. -/
def callErrors (normalizedCalls : List Call) (ids : List String) (call : Call) : List Error :=
  (if ids.contains call.id then [⟨call.id, "Duplicate call id"⟩] else []) ++
  (if call.contractId = "" then [⟨call.id, "Missing contract ID"⟩] else []) ++
  (if call.functionName = "" then [⟨call.id, "Missing function name"⟩] else []) ++
  (call.args.mapIdx (argErrors call)).flatten ++
  (match call.condition with
    | some condition =>
      if normalizedCalls.any fun candidate => .string candidate.id = condition.sourceCallId then []
      else [⟨call.id, "Condition references unknown call " ++ condition.sourceCallId.text⟩]
    | none => []) ++
  (match call.loop with
    | some loop =>
      if !loop.iterations.isFinite || loop.iterations.lt (.finite 1) then
        [⟨call.id, "Loop iterations must be greater than zero"⟩]
      else []
    | none => []) ++
  if (orOne call.signerWeight).lt (orOne call.signerThreshold) then
    [⟨call.id, "Signer threshold exceeds signer weight"⟩]
  else []

def errorsFrom (normalizedCalls : List Call) (ids : List String) : List Call → List Error
  | [] => []
  | call :: rest =>
    callErrors normalizedCalls ids call ++ errorsFrom normalizedCalls (ids ++ [call.id]) rest

structure Validation where
  valid : Bool
  errors : List Error
  conflicts : List Conflict

def validateBatch (calls : List Call) : Validation :=
  let normalizedCalls := normalizeCalls calls
  let errors := errorsFrom normalizedCalls [] normalizedCalls
  ⟨errors.length = 0, errors, detectConflicts toLowerCase normalizedCalls⟩

/-- The order names every call once; a call with a condition comes after the call the condition
names; two calls with a reported write on a common key stay in the order they were given in. -/
def DependenciesKept (calls : List Call) (gasBreakdown : List Estimate) : Prop :=
  let order := optimizeBatchOrder toLowerCase calls gasBreakdown
  order.Perm ((normalizeCalls calls).map Call.id) ∧
  (∀ call ∈ normalizeCalls calls, ∀ condition, call.condition = some condition →
    ∃ source ∈ normalizeCalls calls, condition.sourceCallId = .string source.id ∧
      order.idxOf source.id < order.idxOf call.id) ∧
  ∀ (i j : Nat) (callA callB : Call), i < j → (normalizeCalls calls)[i]? = some callA →
    (normalizeCalls calls)[j]? = some callB → Reported toLowerCase calls callA.id callB.id →
      order.idxOf callA.id < order.idxOf callB.id

end LowerCase

/-- Reads first and writes last. -/
def Access.rank : Access → Nat
  | read => 0
  | unknown => 1
  | write => 2

/-- The smaller access class, then the smaller cost, then the earlier place. -/
def Before (a b : Item) : Prop :=
  a.access.rank < b.access.rank ∨
    a.access.rank = b.access.rank ∧ (a.cost < b.cost ∨ a.cost = b.cost ∧ a.index < b.index)

instance (a b : Item) : Decidable (Before a b) := inferInstanceAs (Decidable (_ ∨ _))

variable {toLowerCase : String → String} {calls : List Call} {gasBreakdown : List Estimate}

theorem compare_neg_iff (a b : Item) : compare a b < 0 ↔ Before a b := by
  have place : ((a.index : ℚ) - b.index < 0) ↔ a.index < b.index := by
    rw [sub_neg]
    exact Nat.cast_lt
  have cheaper : a.cost - b.cost < 0 ↔ a.cost < b.cost := sub_neg
  cases left : a.access <;> cases right : b.access <;> simp [compare, Before, Access.rank, left, right] <;>
    split <;> grind

theorem compare_antisymm (a b : Item) : compare a b = -compare b a := by
  cases left : a.access <;> cases right : b.access <;> simp [compare, left, right] <;> grind

theorem Before.asymm (a b : Item) (first : Before a b) : ¬ Before b a := by
  grind [Before]

theorem Before.total {a b : Item} (apart : a.index ≠ b.index) : Before a b ∨ Before b a := by
  grind [Before]

theorem compare_nonpos_iff (a b : Item) : compare a b ≤ 0 ↔ ¬ Before b a := by
  rw [← compare_neg_iff, compare_antisymm b a, neg_lt_zero, not_lt]

theorem mem_items_iff {entry : Item} : entry ∈ items toLowerCase calls gasBreakdown ↔
    ∃ i call, (normalizeCalls calls)[i]? = some call ∧ entry = item toLowerCase gasBreakdown call i := by
  rw [items, List.mem_mapIdx]
  constructor
  · rintro ⟨i, inside, rfl⟩
    exact ⟨i, _, List.getElem?_eq_getElem inside, rfl⟩
  · rintro ⟨i, call, found, rfl⟩
    obtain ⟨inside, rfl⟩ := List.getElem?_eq_some_iff.mp found
    exact ⟨i, inside, rfl⟩

theorem map_id_items (toLowerCase : String → String) (calls : List Call) (gasBreakdown : List Estimate) :
    (items toLowerCase calls gasBreakdown).map (fun entry => entry.call.id) =
    (normalizeCalls calls).map Call.id := by
  apply List.ext_getElem?
  intro i
  simp only [items, List.getElem?_map, List.getElem?_mapIdx, Option.map_map]
  rfl

/-- Ids are checked against all the earlier ones. -/
theorem nodup_of_errorsFrom {all : List Call} {ids : List String} (none_wrong : errorsFrom all ids calls = []) :
    (calls.map Call.id).Nodup ∧ ∀ call ∈ calls, call.id ∉ ids := by
  induction calls generalizing ids with
  | nil => simp
  | cons call rest ih =>
    rw [errorsFrom, List.append_eq_nil_iff] at none_wrong
    obtain ⟨distinct, fresh⟩ := ih none_wrong.2
    have unseen : call.id ∉ ids := by
      intro seen
      have first := none_wrong.1
      simp [callErrors, seen] at first
    refine ⟨?_, fun other member => ?_⟩
    · rw [List.map_cons, List.nodup_cons]
      refine ⟨?_, distinct⟩
      rintro again
      obtain ⟨other, member, same⟩ := List.mem_map.mp again
      exact fresh other member (by simp [same])
    · rcases List.mem_cons.mp member with rfl | member
      · exact unseen
      · exact fun seen => fresh other member (List.mem_append_left _ seen)

theorem source_of_errorsFrom {all : List Call} {ids : List String} (none_wrong : errorsFrom all ids calls = [])
    {call : Call} (member : call ∈ calls) {condition : Condition} (conditioned : call.condition = some condition) :
    ∃ source ∈ all, condition.sourceCallId = .string source.id := by
  induction calls generalizing ids with
  | nil => cases member
  | cons first rest ih =>
    rw [errorsFrom, List.append_eq_nil_iff] at none_wrong
    rcases List.mem_cons.mp member with rfl | member
    · by_contra missing
      have unknown : (all.any fun candidate => Field.string candidate.id = condition.sourceCallId) = false := by
        refine List.any_eq_false.mpr fun candidate inside same => missing ⟨candidate, inside, ?_⟩
        exact (of_decide_eq_true same).symm
      have errors := none_wrong.1
      simp [callErrors, conditioned, unknown] at errors
    · exact ih none_wrong.2 member

section Accepted

variable (accepted : (validateBatch toLowerCase calls).valid = true)
include accepted

theorem errorsFrom_accepted : errorsFrom (normalizeCalls calls) [] (normalizeCalls calls) = [] :=
  List.length_eq_zero_iff.mp (of_decide_eq_true accepted)

theorem sorted_items : ((items toLowerCase calls gasBreakdown).mergeSort fun a b => compare a b ≤ 0).Pairwise
    Before := by
  apply Sorting.pairwise_of_mergeSort
  · intro a b c first second
    simp only [decide_eq_true_eq, compare_nonpos_iff] at first second ⊢
    grind [Before]
  · intro a b
    simp only [Bool.or_eq_true, decide_eq_true_eq, compare_nonpos_iff]
    grind [Before]
  · intro a left b right other less
    simp only [decide_eq_true_eq, compare_nonpos_iff] at less
    obtain ⟨i, callA, foundA, rfl⟩ := mem_items_iff.mp left
    obtain ⟨j, callB, foundB, rfl⟩ := mem_items_iff.mp right
    refine (Before.total ?_).resolve_right less
    rintro (same : i = j)
    subst same
    obtain rfl := Option.some.inj (foundA.symm.trans foundB)
    exact other rfl
  · refine List.Nodup.of_map (fun entry => entry.call.id) ?_
    rw [map_id_items]
    exact (nodup_of_errorsFrom (errorsFrom_accepted accepted)).1

/-- Two calls stand in the order of their items. -/
theorem idxOf_lt_idxOf_iff {i j : Nat} {callA callB : Call} (foundA : (normalizeCalls calls)[i]? = some callA)
    (foundB : (normalizeCalls calls)[j]? = some callB) :
    (optimizeBatchOrder toLowerCase calls gasBreakdown).idxOf callA.id <
      (optimizeBatchOrder toLowerCase calls gasBreakdown).idxOf callB.id ↔
      Before (item toLowerCase gasBreakdown callA i) (item toLowerCase gasBreakdown callB j) := by
  have distinct : (((items toLowerCase calls gasBreakdown).mergeSort fun a b => compare a b ≤ 0).map
      fun entry => entry.call.id).Nodup := by
    rw [((List.mergeSort_perm _ _).map _).nodup_iff, map_id_items]
    exact (nodup_of_errorsFrom (errorsFrom_accepted accepted)).1
  exact Sorting.idxOf_lt_idxOf_iff Before.asymm (sorted_items accepted) distinct
    (List.mem_mergeSort.mpr (mem_items_iff.mpr ⟨i, callA, foundA, rfl⟩))
    (List.mem_mergeSort.mpr (mem_items_iff.mpr ⟨j, callB, foundB, rfl⟩))

/-- The order is by access class, cost and place alone: a call with a condition comes after its
source, and a conflicting pair stays in order, exactly when these say so. -/
theorem order_of_items (gasBreakdown : List Estimate) :
    (optimizeBatchOrder toLowerCase calls gasBreakdown).Perm ((normalizeCalls calls).map Call.id) ∧
    (∀ (i : Nat) (call : Call) (condition : Condition), (normalizeCalls calls)[i]? = some call →
      call.condition = some condition → ∃ j source, (normalizeCalls calls)[j]? = some source ∧
        condition.sourceCallId = .string source.id ∧
        ((optimizeBatchOrder toLowerCase calls gasBreakdown).idxOf source.id <
          (optimizeBatchOrder toLowerCase calls gasBreakdown).idxOf call.id ↔
          Before (item toLowerCase gasBreakdown source j) (item toLowerCase gasBreakdown call i))) ∧
    ∀ (i j : Nat) (callA callB : Call), i < j → (normalizeCalls calls)[i]? = some callA →
      (normalizeCalls calls)[j]? = some callB → Reported toLowerCase calls callA.id callB.id →
        ((optimizeBatchOrder toLowerCase calls gasBreakdown).idxOf callA.id <
          (optimizeBatchOrder toLowerCase calls gasBreakdown).idxOf callB.id ↔
          Before (item toLowerCase gasBreakdown callA i) (item toLowerCase gasBreakdown callB j)) := by
  refine ⟨?_, fun i call condition found conditioned => ?_, fun i j callA callB _ foundA foundB _ => ?_⟩
  · rw [← map_id_items toLowerCase calls gasBreakdown]
    exact (List.mergeSort_perm _ _).map _
  · obtain ⟨source, member, same⟩ := source_of_errorsFrom (errorsFrom_accepted accepted)
      (List.mem_of_getElem? found) conditioned
    obtain ⟨j, inside⟩ := List.mem_iff_getElem?.mp member
    exact ⟨j, source, inside, same, idxOf_lt_idxOf_iff accepted inside found⟩
  · exact idxOf_lt_idxOf_iff accepted foundA foundB

end Accepted

/-- A transfer, and a reading of the balance that waits for it. -/
def transferThenBalance : List Call :=
  [⟨"write", "C1", "transfer", [⟨"to", "address", .string "GABC"⟩], none, none, .finite 1, .finite 1⟩,
    ⟨"read", "C1", "balance", [⟨"address", "address", .string "GABC"⟩], some ⟨.string "write"⟩, none, .finite 1,
      .finite 1⟩]

def transferThenBalanceGas : List Estimate := [⟨"write", 10, 10⟩, ⟨"read", 1, 1⟩]

theorem transferThenBalance_ordered :
    (optimizeBatchOrder (·.map Char.toLower) transferThenBalance transferThenBalanceGas).Perm ["write", "read"] :=
  (order_of_items (by decide) transferThenBalanceGas).1

/-- The reading comes first. -/
theorem balance_before_transfer : (validateBatch (·.map Char.toLower) transferThenBalance).valid = true ∧
    ¬ DependenciesKept (·.map Char.toLower) transferThenBalance transferThenBalanceGas := by
  have accepted : (validateBatch (·.map Char.toLower) transferThenBalance).valid = true := by decide
  refine ⟨accepted, fun kept => ?_⟩
  have reported : Reported (·.map Char.toLower) transferThenBalance "write" "read" :=
    ⟨⟨"write", [⟨"C1", "address:GABC", .write⟩], [("read", .readWrite)]⟩, by decide +kernel, rfl, .readWrite,
      List.mem_singleton_self _, by decide⟩
  have less := kept.2.2 0 1 _ _ (by decide) rfl rfl reported
  have before := (idxOf_lt_idxOf_iff (i := 0) (j := 1) accepted rfl rfl).mp less
  exact absurd before (by decide +kernel)

end Octraban.Batch
