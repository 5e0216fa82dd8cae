import Octraban.Core.OrderedMap
import Mathlib.Data.Set.Function

/-! stateDiffIndexer.js: what a transaction did to each key of the contract storage, read off its
ledger entry changes. -/
namespace Octraban.StateDiffs
open Ordered

/-- A native value, with what `JSON.stringify` makes of it: it may throw or return `undefined`. -/
inductive Native where
  | bigint (value : Int)
  | value (json : Option (Option String))

/-- What the module takes from the SDK; `none` where the SDK throws. -/
structure Sdk (Address ScVal : Type) where
  scValToNative : ScVal → Option Native
  switchName : ScVal → Option String
  encodeContract : Address → String

inductive Durability where
  | persistent
  | temporary
  deriving DecidableEq

structure LedgerKey (Address ScVal : Type) where
  contract : Address
  key : ScVal
  durability : Durability
  deriving DecidableEq

/-- A ledger entry change. An entry that is not contract data, and a kind the loop does not know,
is one of the others. -/
inductive Change (Address ScVal : Type) where
  | state (key : LedgerKey Address ScVal) (val : ScVal)
  | created (key : LedgerKey Address ScVal) (val : ScVal)
  | updated (key : LedgerKey Address ScVal) (val : ScVal)
  | removed (key : LedgerKey Address ScVal)
  | other

/-- A raw event; one without Soroban metadata has no changed entries. -/
structure Event (Address ScVal : Type) where
  changedEntries : Option (List (Change Address ScVal))
  ledger : Int
  txHash : Option String

inductive Tier where
  | contractInstance
  | persistent
  | temporary
  deriving DecidableEq

inductive ChangeType where
  | created
  | updated
  | removed
  deriving DecidableEq

structure Entry where
  contractId : String
  keyLabel : Option String
  valueLabel : Option String
  tier : Tier
  removed : Bool

structure Diff where
  contract_id : String
  ledger : Int
  tx_hash : Option String
  key : Option String
  tier : Tier
  old_value : Option String
  new_value : Option String
  change_type : ChangeType
  deriving DecidableEq

structure Maps where
  before : OrderedMap String Entry
  after : OrderedMap String Entry

variable {Address ScVal : Type} (sdk : Sdk Address ScVal)

def scValLabel (scVal : ScVal) : Option String :=
  match sdk.scValToNative scVal with
  | some (.bigint value) => some (toString value)
  | some (.value (some label)) => label
  | _ => some ((sdk.switchName scVal).getD "?")

def deriveTier (contractData : LedgerKey Address ScVal) : Tier :=
  if contractData.durability = .temporary then .temporary
  else if sdk.switchName contractData.key = some "scvLedgerKeyContractInstance" then .contractInstance
  else .persistent

def composite (key : LedgerKey Address ScVal) : String :=
  sdk.encodeContract key.contract ++ "::" ++ (scValLabel sdk key.key).getD "undefined"

def entry (key : LedgerKey Address ScVal) (valueLabel : Option String) : Entry where
  contractId := sdk.encodeContract key.contract
  keyLabel := scValLabel sdk key.key
  valueLabel
  tier := deriveTier sdk key
  removed := false

def removedEntry (key : LedgerKey Address ScVal) : Entry where
  contractId := sdk.encodeContract key.contract
  keyLabel := scValLabel sdk key.key
  valueLabel := none
  tier := .persistent
  removed := true

/-- One turn of the loop over the changes. -/
def scan (maps : Maps) : Change Address ScVal → Maps
  | .removed key =>
    { before := maps.before.set (composite sdk key) (entry sdk key (some "(existed)"))
      after := maps.after.set (composite sdk key) (removedEntry sdk key) }
  | .state key val =>
    { maps with before := maps.before.set (composite sdk key) (entry sdk key (scValLabel sdk val)) }
  | .created key val | .updated key val =>
    { maps with after := maps.after.set (composite sdk key) (entry sdk key (scValLabel sdk val)) }
  | .other => maps

def diff (ev : Event Address ScVal) (afterEntry : Entry) (beforeEntry : Option Entry) : Diff where
  contract_id := afterEntry.contractId
  ledger := ev.ledger
  tx_hash := ev.txHash
  key := afterEntry.keyLabel
  tier := afterEntry.tier
  old_value := beforeEntry.bind Entry.valueLabel
  new_value := if afterEntry.removed then none else afterEntry.valueLabel
  change_type := if afterEntry.removed then .removed else if beforeEntry.isSome then .updated else .created

def scanned (changes : List (Change Address ScVal)) : Maps := changes.foldl (scan sdk) ⟨.empty, .empty⟩

def extractStateDiffs (ev : Event Address ScVal) : List Diff :=
  let maps := scanned sdk (ev.changedEntries.getD [])
  maps.after.entries.map fun after => diff ev after.2 (maps.before.get after.1)

/-! ### The values before and after a transaction -/

/-- The values that the changes so far have left, and the keys whose value a state entry has shown
since its last change. -/
structure Progress (Address ScVal : Type) where
  current : LedgerKey Address ScVal → Option ScVal
  shown : LedgerKey Address ScVal → Bool

variable [DecidableEq Address] [DecidableEq ScVal]

/-- A state entry carries the current value, a creation needs that there is none, and an update or
a removal that a state entry has shown it. -/
def Change.Follows (progress : Progress Address ScVal) : Change Address ScVal → Prop
  | .state key val => progress.current key = some val
  | .created key _ => progress.current key = none
  | .updated key _ | .removed key => progress.shown key = true
  | .other => True

def Change.next (progress : Progress Address ScVal) : Change Address ScVal → Progress Address ScVal
  | .state key _ => { progress with shown := Function.update progress.shown key true }
  | .created key val | .updated key val =>
    ⟨Function.update progress.current key (some val), Function.update progress.shown key false⟩
  | .removed key => ⟨Function.update progress.current key none, Function.update progress.shown key false⟩
  | .other => progress

def WellFormed (progress : Progress Address ScVal) : List (Change Address ScVal) → Prop
  | [] => True
  | change :: rest => change.Follows progress ∧ WellFormed (change.next progress) rest

def start (initial : LedgerKey Address ScVal → Option ScVal) : Progress Address ScVal := ⟨initial, fun _ => false⟩

def final (initial : LedgerKey Address ScVal → Option ScVal) (changes : List (Change Address ScVal)) :
    LedgerKey Address ScVal → Option ScVal :=
  (changes.foldl Change.next (start initial)).current

def Change.key : Change Address ScVal → Option (LedgerKey Address ScVal)
  | .state key _ | .created key _ | .updated key _ | .removed key => some key
  | .other => none

/-- The key that a change writes. -/
def Change.writes : Change Address ScVal → Option (LedgerKey Address ScVal)
  | .created key _ | .updated key _ | .removed key => some key
  | _ => none

/-- The key of a state or a removal entry. -/
def Change.reads : Change Address ScVal → Option (LedgerKey Address ScVal)
  | .state key _ | .removed key => some key
  | _ => none

def changeType (before after : Option ScVal) : ChangeType :=
  if after.isNone then .removed else if before.isNone then .created else .updated

/-- A diff that tells the change of a key's value from before the transaction to after it. -/
structure Tells (before after : Option ScVal) (key : LedgerKey Address ScVal) (diff : Diff) : Prop where
  contract_id : diff.contract_id = sdk.encodeContract key.contract
  key : diff.key = scValLabel sdk key.key
  old_value : diff.old_value = before.bind (scValLabel sdk)
  new_value : diff.new_value = after.bind (scValLabel sdk)
  change_type : diff.change_type = changeType before after

/-- Every key that the changes write has exactly one diff, and it tells its net change. -/
def TellsNet (initial : LedgerKey Address ScVal → Option ScVal) (changes : List (Change Address ScVal))
    (diffs : List Diff) : Prop :=
  ∃ keys : List (LedgerKey Address ScVal), keys.Nodup ∧
    (∀ key, key ∈ keys ↔ ∃ change ∈ changes, change.writes = some key) ∧
    List.Forall₂ (fun key => Tells sdk (initial key) (final initial changes key) key) keys diffs

/-- An entry that gives a value's label: a removal has only a word of its own to give. -/
def Change.Gives (before : ScVal) : Change Address ScVal → Prop
  | .state _ val => scValLabel sdk before = scValLabel sdk val
  | .removed _ => scValLabel sdk before = some "(existed)"
  | _ => False

def lastRead (changes : List (Change Address ScVal)) (key : LedgerKey Address ScVal) : Option (Change Address ScVal) :=
  (changes.filter (·.reads = some key)).getLast?

def lastWrite (changes : List (Change Address ScVal)) (key : LedgerKey Address ScVal) : Option (Change Address ScVal) :=
  (changes.filter (·.writes = some key)).getLast?

/-- The last state or removal entry of a key, if it has one, gives its value before the transaction. -/
def Kept (initial : LedgerKey Address ScVal → Option ScVal) (changes : List (Change Address ScVal))
    (key : LedgerKey Address ScVal) : Prop :=
  ∀ change, lastRead changes key = some change → ∃ before, initial key = some before ∧ change.Gives sdk before

variable {initial : LedgerKey Address ScVal → Option ScVal} {past changes : List (Change Address ScVal)}
  {change : Change Address ScVal} {progress : Progress Address ScVal} {key : LedgerKey Address ScVal}
  {val : ScVal}

theorem lastRead_append :
    lastRead (changes ++ [change]) key = if change.reads = some key then some change else lastRead changes key := by
  simp only [lastRead]
  rw [List.getLast?_filter, List.getLast?_filter, List.reverse_append, List.reverse_singleton,
    List.singleton_append, List.find?_cons]
  by_cases reads : change.reads = some key <;> simp [reads]

theorem lastWrite_append :
    lastWrite (changes ++ [change]) key = if change.writes = some key then some change else lastWrite changes key := by
  simp only [lastWrite]
  rw [List.getLast?_filter, List.getLast?_filter, List.reverse_append, List.reverse_singleton,
    List.singleton_append, List.find?_cons]
  by_cases writes : change.writes = some key <;> simp [writes]

theorem isSome_lastWrite : (lastWrite changes key).isSome ↔ ∃ change ∈ changes, change.writes = some key := by
  rw [lastWrite]
  rw [List.getLast?_filter, List.find?_isSome]
  simp

/-! ### What the maps hold -/

/-- What a state or a removal entry puts for its key among the values before. -/
def Change.told : Change Address ScVal → Option String
  | .state _ val => scValLabel sdk val
  | _ => some "(existed)"

def Change.written (key : LedgerKey Address ScVal) : Change Address ScVal → Entry
  | .created _ val | .updated _ val => entry sdk key (scValLabel sdk val)
  | _ => removedEntry sdk key

def mentioned (changes : List (Change Address ScVal)) : Set (LedgerKey Address ScVal) :=
  {key | ∃ change ∈ changes, change.key = some key}

variable {sdk}

omit [DecidableEq Address] [DecidableEq ScVal] in
theorem scanned_append : scanned sdk (changes ++ [change]) = scan sdk (scanned sdk changes) change := by
  simp only [scanned]
  rw [List.foldl_append, List.foldl_cons, List.foldl_nil]

omit [DecidableEq Address] [DecidableEq ScVal] in
theorem mentioned_append_left : mentioned changes ⊆ mentioned (changes ++ [change]) :=
  fun _ ⟨earlier, member, names⟩ => ⟨earlier, List.mem_append_left _ member, names⟩

omit [DecidableEq Address] [DecidableEq ScVal] in
theorem mentioned_of_last (names : change.key = some key) : key ∈ mentioned (changes ++ [change]) :=
  ⟨change, List.mem_append_right _ (List.mem_singleton_self change), names⟩

/-- Over keys that the labels tell apart, the first map holds what the last state or removal entry
of a key tells and the second what the last write left. -/
theorem get_scanned {known : Set (LedgerKey Address ScVal)} (labels : known.InjOn (composite sdk))
    (within : mentioned changes ⊆ known) (key : LedgerKey Address ScVal) (present : key ∈ known) :
    (scanned sdk changes).before.get (composite sdk key) =
        (lastRead changes key).map (fun change => entry sdk key (change.told sdk)) ∧
      (scanned sdk changes).after.get (composite sdk key) = (lastWrite changes key).map (·.written sdk key) := by
  induction changes using List.reverseRecOn with
  | nil => exact ⟨rfl, rfl⟩
  | append_singleton changes change ih =>
    obtain ⟨before, after⟩ := ih (mentioned_append_left.trans within)
    have other {j : LedgerKey Address ScVal} (names : change.key = some j) (different : ¬ j = key) :
        composite sdk key ≠ composite sdk j := fun same =>
      different (labels (within (mentioned_of_last names)) present same.symm)
    rw [scanned_append, lastRead_append, lastWrite_append]
    cases change with
    | other => exact ⟨before, after⟩
    | state j val =>
      refine ⟨?_, after⟩
      by_cases same : j = key
      · subst same
        rw [if_pos (by rfl)]
        exact OrderedMap.get_set_self
      · rw [if_neg (by simpa [Change.reads] using same), ← before]
        exact OrderedMap.get_set_ne (other rfl same)
    | created j val | updated j val =>
      refine ⟨before, ?_⟩
      by_cases same : j = key
      · subst same
        rw [if_pos (by rfl)]
        exact OrderedMap.get_set_self
      · rw [if_neg (by simpa [Change.writes] using same), ← after]
        exact OrderedMap.get_set_ne (other rfl same)
    | removed j =>
      by_cases same : j = key
      · subst same
        rw [if_pos (by rfl), if_pos (by rfl)]
        exact ⟨OrderedMap.get_set_self, OrderedMap.get_set_self⟩
      · rw [if_neg (by simpa [Change.reads] using same), if_neg (by simpa [Change.writes] using same),
          ← before, ← after]
        exact ⟨OrderedMap.get_set_ne (other rfl same), OrderedMap.get_set_ne (other rfl same)⟩

/-- The keys that the changes write, in the order of their first writes. -/
def writtenKeys (changes : List (Change Address ScVal)) : List (LedgerKey Address ScVal) :=
  ofList (changes.filterMap Change.writes)

theorem mem_writtenKeys : key ∈ writtenKeys changes ↔ ∃ change ∈ changes, change.writes = some key := by
  rw [writtenKeys]
  rw [mem_ofList, List.mem_filterMap]

omit [DecidableEq Address] [DecidableEq ScVal] in
theorem key_of_writes (writes : change.writes = some key) : change.key = some key := by
  cases change <;> first | exact writes | cases writes

omit [DecidableEq Address] [DecidableEq ScVal] in
theorem mentioned_of_writes (writes : ∃ change ∈ changes, change.writes = some key) : key ∈ mentioned changes :=
  writes.imp fun _ ⟨member, names⟩ => ⟨member, key_of_writes names⟩

theorem writtenKeys_append : writtenKeys (changes ++ [change]) =
    change.writes.elim (writtenKeys changes) (add (writtenKeys changes)) := by
  simp only [writtenKeys, ofList]
  cases writes : change.writes <;> simp [List.filterMap_append, writes]

theorem keys_scanned (labels : (mentioned changes).InjOn (composite sdk)) :
    (scanned sdk changes).after.keys = (writtenKeys changes).map (composite sdk) := by
  induction changes using List.reverseRecOn with
  | nil => rfl
  | append_singleton changes change ih =>
    have earlier := ih (labels.mono mentioned_append_left)
    have put (key : LedgerKey Address ScVal) (writes : change.writes = some key) :
        add (scanned sdk changes).after.keys (composite sdk key) =
          (add (writtenKeys changes) key).map (composite sdk) := by
      have same : composite sdk key ∈ (writtenKeys changes).map (composite sdk) ↔ key ∈ writtenKeys changes := by
        refine ⟨fun member => ?_, List.mem_map_of_mem⟩
        obtain ⟨j, written, equal⟩ := List.mem_map.mp member
        obtain ⟨first, present, names⟩ := mem_writtenKeys.mp written
        have old : j ∈ mentioned (changes ++ [change]) :=
          mentioned_append_left ⟨first, present, key_of_writes names⟩
        exact labels old (mentioned_of_last (key_of_writes writes)) equal ▸ written
      rw [earlier]
      simp only [add]
      rw [apply_ite (List.map (composite sdk)), List.map_append, if_congr same rfl rfl]
      rfl
    rw [scanned_append, writtenKeys_append]
    cases change with
    | other | state j val => exact earlier
    | created j val | updated j val | removed j => exact OrderedMap.keys_set.trans (put j rfl)

/-- The diff of a key that the changes write. -/
def keyDiff (sdk : Sdk Address ScVal) (ev : Event Address ScVal) (changes : List (Change Address ScVal))
    (key : LedgerKey Address ScVal) : Option Diff :=
  (lastWrite changes key).map fun change =>
    diff ev (change.written sdk key) ((lastRead changes key).map fun change => entry sdk key (change.told sdk))

theorem extractStateDiffs_eq {ev : Event Address ScVal} (given : ev.changedEntries.getD [] = changes)
    (labels : (mentioned changes).InjOn (composite sdk)) :
    (extractStateDiffs sdk ev).map some = (writtenKeys changes).map (keyDiff sdk ev changes) := by
  let of (composite : String) : Option Diff :=
    ((scanned sdk changes).after.get composite).map fun after =>
      diff ev after ((scanned sdk changes).before.get composite)
  calc (extractStateDiffs sdk ev).map some
      = (scanned sdk changes).after.entries.map fun after => of after.1 := by
        rw [extractStateDiffs]
        rw [given, List.map_map]
        refine List.map_congr_left fun after member => ?_
        have found : (scanned sdk changes).after.get after.1 = some after.2 := OrderedMap.mem_entries.mp member
        simp only [Function.comp_apply, of, found, Option.map_some]
    _ = (scanned sdk changes).after.keys.map of := by
        rw [OrderedMap.keys]
        rw [List.map_map]
        rfl
    _ = (writtenKeys changes).map fun key => of (composite sdk key) := by
        rw [keys_scanned labels, List.map_map]
        rfl
    _ = (writtenKeys changes).map (keyDiff sdk ev changes) := by
        refine List.map_congr_left fun key written => ?_
        obtain ⟨before, after⟩ := get_scanned labels subset_rfl key (mentioned_of_writes (mem_writtenKeys.mp written))
        change ((scanned sdk changes).after.get (composite sdk key)).map _ = _
        rw [before, after, Option.map_map]
        rfl

/-! ### What the last entries of a key say about its value -/

/-- The value that a write leaves. -/
def Change.leaves : Change Address ScVal → Option ScVal
  | .created _ val | .updated _ val => some val
  | _ => none

/-- How the changes so far stand to the value of a key. -/
structure Tracked (initial : LedgerKey Address ScVal → Option ScVal) (past : List (Change Address ScVal))
    (progress : Progress Address ScVal) (key : LedgerKey Address ScVal) : Prop where
  unwritten : lastWrite past key = none → progress.current key = initial key
  written : ∀ change, lastWrite past key = some change → change.leaves = progress.current key
  unread : lastRead past key = none → (lastWrite past key).isSome →
    initial key = none ∧ (progress.current key).isSome
  state : ∀ val, lastRead past key = some (.state key val) → (progress.current key).isSome
  shown : progress.shown key = true → ∃ val, lastRead past key = some (.state key val)

theorem tracked_start (key : LedgerKey Address ScVal) : Tracked initial [] (start initial) key where
  unwritten _ := rfl
  written _ written := by cases written
  unread _ written := by cases written
  state _ read := by cases read
  shown shown := by cases shown

theorem lastRead_of_reads (reads : change.reads = some key) : lastRead (past ++ [change]) key = some change :=
  lastRead_append.trans (if_pos reads)

theorem lastRead_of_ne (reads : change.reads ≠ some key) : lastRead (past ++ [change]) key = lastRead past key :=
  lastRead_append.trans (if_neg reads)

theorem lastWrite_of_writes (writes : change.writes = some key) : lastWrite (past ++ [change]) key = some change :=
  lastWrite_append.trans (if_pos writes)

theorem lastWrite_of_ne (writes : change.writes ≠ some key) : lastWrite (past ++ [change]) key = lastWrite past key :=
  lastWrite_append.trans (if_neg writes)

/-- A change leaves every other key alone. -/
theorem Tracked.frame (tracked : Tracked initial past progress key) (other : change.key ≠ some key) :
    Tracked initial (past ++ [change]) (change.next progress) key := by
  have read : lastRead (past ++ [change]) key = lastRead past key :=
    lastRead_of_ne fun reads => other (by cases change <;> first | exact reads | cases reads)
  have write : lastWrite (past ++ [change]) key = lastWrite past key :=
    lastWrite_of_ne fun writes => other (key_of_writes writes)
  have different {j : LedgerKey Address ScVal} (named : change.key = some j) : key ≠ j :=
    fun same => other (same ▸ named)
  have current : (change.next progress).current key = progress.current key := by
    cases change with
    | other | state j val => rfl
    | created j val | updated j val | removed j => exact Function.update_of_ne (different rfl) ..
  have shown : (change.next progress).shown key = progress.shown key := by
    cases change with
    | other => rfl
    | state j val | created j val | updated j val | removed j => exact Function.update_of_ne (different rfl) ..
  constructor <;> simp only [read, write, current, shown]
  · exact tracked.unwritten
  · exact tracked.written
  · exact tracked.unread
  · exact tracked.state
  · exact tracked.shown

/-- A write settles the value; whether an entry has shown one before is up to its kind. -/
theorem tracked_of_writes (writes : change.writes = some key)
    (current : (change.next progress).current key = change.leaves)
    (shown : (change.next progress).shown key = false)
    (unread : lastRead (past ++ [change]) key = none → initial key = none ∧ change.leaves.isSome)
    (state : ∀ val, lastRead (past ++ [change]) key = some (.state key val) → change.leaves.isSome) :
    Tracked initial (past ++ [change]) (change.next progress) key := by
  have write : lastWrite (past ++ [change]) key = some change := lastWrite_of_writes writes
  constructor
  · intro unwritten
    rw [write] at unwritten
    cases unwritten
  · intro last written
    rw [write] at written
    rw [current, Option.some.inj written]
  · intro none _
    exact current ▸ unread none
  · exact fun val read => current ▸ state val read
  · intro holds
    rw [shown] at holds
    cases holds

theorem Tracked.next (tracked : Tracked initial past progress key) (follows : change.Follows progress) :
    Tracked initial (past ++ [change]) (change.next progress) key := by
  by_cases named : change.key = some key
  · cases change with
    | other => cases named
    | state j val =>
      obtain rfl : j = key := Option.some.inj named
      have read : lastRead (past ++ [.state j val]) j = some (.state j val) := lastRead_of_reads rfl
      have write : lastWrite (past ++ [.state j val]) j = lastWrite past j := lastWrite_of_ne nofun
      have holds : progress.current j = some val := follows
      exact {
        unwritten := fun unwritten => tracked.unwritten (write ▸ unwritten)
        written := fun change written => tracked.written change (write ▸ written)
        unread := fun unread => by rw [read] at unread; cases unread
        state := fun _ _ => Option.isSome_of_eq_some holds
        shown := fun _ => ⟨val, read⟩ }
    | created j val =>
      obtain rfl : j = key := Option.some.inj named
      have absent : progress.current j = none := follows
      refine tracked_of_writes rfl (Function.update_self ..) (Function.update_self ..) (fun unread => ?_) fun _ _ => rfl
      have read : lastRead (past ++ [.created j val]) j = lastRead past j := lastRead_of_ne nofun
      rw [read] at unread
      refine ⟨?_, rfl⟩
      cases written : lastWrite past j with
      | none => exact (tracked.unwritten written).symm.trans absent
      | some last =>
        obtain ⟨_, present⟩ := tracked.unread unread (Option.isSome_of_eq_some written)
        rw [absent] at present
        cases present
    | updated j val =>
      obtain rfl : j = key := Option.some.inj named
      obtain ⟨value, shown⟩ := tracked.shown follows
      have read : lastRead (past ++ [.updated j val]) j = lastRead past j := lastRead_of_ne nofun
      refine tracked_of_writes rfl (Function.update_self ..) (Function.update_self ..) (fun unread => ?_) fun _ _ => rfl
      rw [read, shown] at unread
      cases unread
    | removed j =>
      obtain rfl : j = key := Option.some.inj named
      have read : lastRead (past ++ [.removed j]) j = some (.removed j) := lastRead_of_reads rfl
      refine tracked_of_writes rfl (Function.update_self ..) (Function.update_self ..) ?_ fun val state => ?_
      · intro unread
        rw [read] at unread
        cases unread
      · rw [read] at state
        cases state
  · exact tracked.frame named

theorem tracked_of_wellFormed (tracked : Tracked initial past progress key) (wellFormed : WellFormed progress changes) :
    Tracked initial (past ++ changes) (changes.foldl Change.next progress) key := by
  induction changes generalizing past progress with
  | nil =>
    rw [List.append_nil]
    exact tracked
  | cons change rest ih =>
    rw [List.append_cons]
    exact ih (tracked.next wellFormed.1) wellFormed.2

/-! ### The diffs -/

omit [DecidableEq Address] [DecidableEq ScVal] in
theorem diff_written {ev : Event Address ScVal} (before : Option Entry) :
    (diff ev (change.written sdk key) before).contract_id = sdk.encodeContract key.contract ∧
      (diff ev (change.written sdk key) before).key = scValLabel sdk key.key := by
  cases change <;> exact ⟨rfl, rfl⟩

theorem named_of_keyDiff {ev : Event Address ScVal} {diff : Diff} (emits : keyDiff sdk ev changes key = some diff) :
    diff.contract_id = sdk.encodeContract key.contract ∧ diff.key = scValLabel sdk key.key := by
  obtain ⟨change, _, rfl⟩ := Option.map_eq_some_iff.mp emits
  exact diff_written _

/-- In a well-formed list the diff of a key is right in everything but the value before, and in that
too exactly if the last state or removal entry gives it. -/
theorem tells_iff {ev : Event Address ScVal} (tracked : Tracked initial changes progress key)
    (written : lastWrite changes key = some change) :
    (∃ diff, keyDiff sdk ev changes key = some diff ∧ Tells sdk (initial key) (progress.current key) key diff) ↔
      Kept sdk initial changes key := by
  have leaves := tracked.written change written
  have new_value (before : Option Entry) :
      (diff ev (change.written sdk key) before).new_value = (progress.current key).bind (scValLabel sdk) := by
    rw [← leaves]
    cases change <;> rfl
  have removed : (change.written sdk key).removed = (progress.current key).isNone := by
    rw [← leaves]
    cases change <;> rfl
  rw [keyDiff, Kept]
  rw [written, Option.map_some]
  cases read : lastRead changes key with
  | none =>
    obtain ⟨absent, present⟩ := tracked.unread read (Option.isSome_of_eq_some written)
    refine iff_of_true ⟨_, rfl, ?_⟩ (by simp)
    have kept : (progress.current key).isNone = false := by simpa using present
    exact {
      contract_id := (diff_written _).1
      key := (diff_written _).2
      old_value := by rw [absent]; rfl
      new_value := new_value _
      change_type := by
        rw [diff, changeType]
        rw [removed, kept, absent]
        rfl }
  | some last =>
    have reads : last.reads = some key := by
      simpa using (List.mem_filter.mp (List.mem_of_getLast? read)).2
    have gives (before : ScVal) : last.Gives sdk before ↔ last.told sdk = scValLabel sdk before := by
      cases last <;> first | exact eq_comm | cases reads
    have shown : last.told sdk = none → (progress.current key).isNone = false := by
      intro unlabelled
      cases last with
      | state j val =>
        obtain rfl : j = key := Option.some.inj reads
        simpa using tracked.state val read
      | created | updated | removed | other => cases unlabelled
    simp only [Option.map_some, Option.some.injEq, exists_eq_left', forall_eq', gives]
    constructor
    · intro tells
      have told : last.told sdk = (initial key).bind (scValLabel sdk) := tells.old_value
      cases absent : initial key with
      | some before => exact ⟨before, rfl, told.trans (absent ▸ rfl)⟩
      | none =>
        have kept := shown (told.trans (absent ▸ rfl))
        have type := tells.change_type
        rw [diff, changeType] at type
        rw [removed, kept, absent] at type
        cases type
    · intro ⟨before, present, told⟩
      exact {
        contract_id := (diff_written _).1
        key := (diff_written _).2
        old_value := by
          rw [present]
          exact told
        new_value := new_value _
        change_type := by
          rw [diff, changeType]
          rw [removed, present]
          rfl }

/-- Two lists with one entry for each key, related entry by entry. -/
theorem forall₂_of_map_eq {α β : Type} {R : α → β → Prop} {keys : List α} {entries : List β} {entryOf : α → Option β}
    (same : entries.map some = keys.map entryOf) (related : ∀ key ∈ keys, ∃ e, entryOf key = some e ∧ R key e) :
    List.Forall₂ R keys entries := by
  induction keys generalizing entries with
  | nil =>
    rw [List.map_eq_nil_iff.mp same]
    exact .nil
  | cons key keys ih =>
    cases entries with
    | nil => cases same
    | cons e entries =>
      obtain ⟨head, tail⟩ := List.cons_eq_cons.mp same
      obtain ⟨found, first, holds⟩ := related key List.mem_cons_self
      obtain rfl : e = found := Option.some.inj (head.trans first)
      exact .cons holds (ih tail fun key member => related key (List.mem_cons_of_mem _ member))

theorem exists_of_forall₂ {α β : Type} {R : α → β → Prop} {keys : List α} {entries : List β} {k : α}
    (related : List.Forall₂ R keys entries) (member : k ∈ keys) : ∃ e ∈ entries, R k e := by
  induction related with
  | nil => cases member
  | cons holds _ ih =>
    obtain rfl | later := List.mem_cons.mp member
    · exact ⟨_, List.mem_cons_self, holds⟩
    · obtain ⟨e, present, later⟩ := ih later
      exact ⟨e, List.mem_cons_of_mem _ present, later⟩

/-- The diffs tell the net change of every written key exactly if, for each, the last of its state
and removal entries gives the value that it had before the transaction: a later entry overwrites
what an earlier one has put into `before`, and a removal puts "(existed)". -/
theorem stateDiffs_net_iff (ev : Event Address ScVal)
    (labels : (mentioned (ev.changedEntries.getD [])).InjOn (composite sdk))
    (wellFormed : WellFormed (start initial) (ev.changedEntries.getD [])) :
    TellsNet sdk initial (ev.changedEntries.getD []) (extractStateDiffs sdk ev) ↔
      ∀ key, (∃ change ∈ ev.changedEntries.getD [], change.writes = some key) →
        Kept sdk initial (ev.changedEntries.getD []) key := by
  generalize given : ev.changedEntries.getD [] = changes at labels wellFormed ⊢
  have tracked (key : LedgerKey Address ScVal) := tracked_of_wellFormed (tracked_start key) wellFormed
  have emitted := extractStateDiffs_eq given labels
  have kept_iff {key : LedgerKey Address ScVal} (writes : ∃ change ∈ changes, change.writes = some key) :
      (∃ diff, keyDiff sdk ev changes key = some diff ∧ Tells sdk (initial key) (final initial changes key) key diff) ↔
        Kept sdk initial changes key := by
    obtain ⟨change, written⟩ := Option.isSome_iff_exists.mp (isSome_lastWrite.mpr writes)
    exact tells_iff (tracked key) written
  constructor
  · intro ⟨keys, _, written, tells⟩ key writes
    obtain ⟨diff, present, told⟩ := exists_of_forall₂ tells ((written key).mpr writes)
    obtain ⟨j, wrote, emits⟩ := List.mem_map.mp (emitted ▸ List.mem_map_of_mem present)
    have same : j = key := labels (mentioned_of_writes (mem_writtenKeys.mp wrote)) (mentioned_of_writes writes) (by
      obtain ⟨contract_id, label⟩ := named_of_keyDiff emits
      simp only [composite]
      rw [← contract_id, ← label, told.contract_id, told.key])
    exact (kept_iff writes).mp ⟨diff, same ▸ emits, told⟩
  · intro kept
    refine ⟨writtenKeys changes, nodup_ofList, fun key => mem_writtenKeys, ?_⟩
    exact forall₂_of_map_eq emitted fun key member =>
      (kept_iff (mem_writtenKeys.mp member)).mpr (kept key (mem_writtenKeys.mp member))

/-- The SDK over Booleans alone. -/
def booleans : Sdk String Bool where
  scValToNative scVal := some (.value (some (some (if scVal then "true" else "false"))))
  switchName _ := some "scvBool"
  encodeContract address := address

def paused : LedgerKey String Bool := ⟨"CA", true, .persistent⟩

/-- The key holds true and is written once. -/
def oneWrite : Event String Bool := ⟨some [.state paused true, .updated paused false], 7, none⟩

theorem stateDiffs_net_oneWrite :
    TellsNet booleans (fun _ => some true) [.state paused true, .updated paused false]
      (extractStateDiffs booleans oneWrite) := by
  have only {key : LedgerKey String Bool}
      (names : ∃ change ∈ ([.state paused true, .updated paused false] : List (Change String Bool)), change.key = some key) :
      key = paused := by
    obtain ⟨change, member, named⟩ := names
    simp only [List.mem_cons, List.not_mem_nil, or_false] at member
    obtain rfl | rfl := member <;> exact (Option.some.inj named).symm
  have wellFormed : WellFormed (start fun _ => some true) (oneWrite.changedEntries.getD []) :=
    ⟨rfl, rfl, trivial⟩
  refine (stateDiffs_net_iff oneWrite (fun j first k second _ => (only first).trans (only second).symm)
    wellFormed).mpr fun key writes change last => ?_
  obtain rfl : key = paused := only (mentioned_of_writes writes)
  have read : lastRead [.state paused true, .updated paused false] paused = some (.state paused true) := by rfl
  obtain rfl := Option.some.inj (read.symm.trans last)
  exact ⟨true, rfl, rfl⟩

/-- The key holds true and is written twice, and in the end holds true again. -/
def twoWrites : Event String Bool :=
  ⟨some [.state paused true, .updated paused false, .state paused false, .updated paused true], 7, none⟩

theorem stateDiffs_net_twoWrites :
    WellFormed (start fun _ => some true) (twoWrites.changedEntries.getD []) ∧
      (mentioned (twoWrites.changedEntries.getD [])).InjOn (composite booleans) ∧
      (extractStateDiffs booleans twoWrites).map Diff.old_value = [some "false"] ∧
      ¬ TellsNet booleans (fun _ => some true) (twoWrites.changedEntries.getD []) (extractStateDiffs booleans twoWrites) := by
  have only {key : LedgerKey String Bool} (names : key ∈ mentioned (twoWrites.changedEntries.getD [])) : key = paused := by
    obtain ⟨change, member, named⟩ := names
    simp only [twoWrites, Option.getD_some, List.mem_cons, List.not_mem_nil, or_false] at member
    obtain rfl | rfl | rfl | rfl := member <;> exact (Option.some.inj named).symm
  have old : (extractStateDiffs booleans twoWrites).map Diff.old_value = [some "false"] := by decide
  refine ⟨⟨rfl, rfl, rfl, rfl, trivial⟩, fun j first k second _ => (only first).trans (only second).symm,
    old, fun ⟨keys, _, written, tells⟩ => ?_⟩
  have writes : ∃ change ∈ twoWrites.changedEntries.getD [], change.writes = some paused :=
    ⟨.updated paused false, by simp [twoWrites], rfl⟩
  obtain ⟨diff, present, told⟩ := exists_of_forall₂ tells ((written paused).mpr writes)
  have member := List.mem_map_of_mem (f := Diff.old_value) present
  rw [old, List.mem_singleton, told.old_value] at member
  revert member
  decide

end Octraban.StateDiffs
