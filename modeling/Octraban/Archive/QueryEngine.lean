import Octraban.Core.OrderedMap
import Octraban.Core.Replay

/-! query-engine.ts: three queries over the archived changes of a contract, against the replay
of those changes. -/
namespace Octraban.Archive
open Replay

inductive StateOperation where
  | create
  | update
  | delete
  deriving DecidableEq

/-- A row of `contractStateChange`. -/
structure StateChange where
  contractAddress : String
  ledger : Nat
  storageKey : String
  storageKeyHuman : Option String
  valueBefore : Option String
  valueAfter : Option String
  valueHuman : Option String
  operation : StateOperation

structure Entry where
  key : String
  keyHuman : Option String
  value : Option String
  valueHuman : Option String

def slice (items : List α) (start stop : Int) : List α :=
  let place (index : Int) : Nat := (if index < 0 then max 0 (items.length + index) else index).toNat
  (items.take (place stop)).drop (place start)

/-- `findFirst` with the greatest ledger first. -/
def latest (table : List StateChange) (contractAddress key : String) (ledger : Nat) : Option StateChange :=
  (table.filter fun c => c.contractAddress = contractAddress ∧ c.storageKey = key ∧ c.ledger ≤ ledger ∧
    c.operation ≠ .delete).argmax StateChange.ledger

def entry (table : List StateChange) (contractAddress : String) (ledger : Nat) (key : String) : Entry :=
  let latest := latest table contractAddress key ledger
  { key := key
    keyHuman := latest.bind StateChange.storageKeyHuman
    value := latest.bind StateChange.valueAfter
    valueHuman := latest.bind StateChange.valueHuman }

structure KeyChange where
  firstBefore : Option String
  lastAfter : Option String
  lastOp : StateOperation
  keyHuman : Option String

structure Added where
  key : String
  keyHuman : Option String
  value : Option String

structure Updated where
  key : String
  keyHuman : Option String
  valueBefore : Option String
  valueAfter : Option String

structure Deleted where
  key : String
  keyHuman : Option String

structure LedgerDiff where
  contractAddress : String
  fromLedger : Nat
  toLedger : Nat
  added : List Added
  updated : List Updated
  deleted : List Deleted

def merge (c : StateChange) : Option KeyChange → KeyChange
  | none => ⟨c.valueBefore, c.valueAfter, c.operation, c.storageKeyHuman⟩
  | some existing => { existing with lastAfter := c.valueAfter, lastOp := c.operation }

/-- The changes of one key by their ledgers. -/
def history (table : List StateChange) (contractAddress key : String) : List StateChange :=
  (table.filter fun c => c.contractAddress = contractAddress ∧ c.storageKey = key).mergeSort fun first second =>
    first.ledger ≤ second.ledger

def StateChange.written (c : StateChange) : Option String := if c.operation = .delete then none else c.valueAfter

/-- A change fits the value that its key has before it. -/
def StateChange.Fits (c : StateChange) (state : Option String) : Prop :=
  match c.operation with
  | .create => state = none ∧ c.valueBefore = none ∧ c.valueAfter ≠ none
  | .update => state ≠ none ∧ c.valueBefore = state ∧ c.valueAfter ≠ none
  | .delete => state ≠ none ∧ c.valueBefore = state

def Fits : Option String → List StateChange → Prop
  | _, [] => True
  | state, c :: rest => c.Fits state ∧ Fits c.written rest

structure WellFormed (table : List StateChange) (contractAddress : String) : Prop where
  inOrder : ∀ key, InOrder StateChange.ledger (history table contractAddress key)
  fits : ∀ key, Fits none (history table contractAddress key)

def applyDiff (diff : LedgerDiff) (state : String → Option String) (key : String) : Option String :=
  match diff.added.find? fun added => added.key = key with
  | some added => added.value
  | none =>
    match diff.updated.find? fun updated => updated.key = key with
    | some updated => updated.valueAfter
    | none => if (diff.deleted.any fun deleted => deleted.key = key) then none else state key

/-- No change up to the ledger deletes a key for good. -/
def Undeleted (table : List StateChange) (contractAddress : String) (ledger : Nat) : Prop :=
  ∀ key, ∀ c ∈ (upTo StateChange.ledger ledger (history table contractAddress key)).getLast?, c.operation ≠ .delete

/-- In the changes of a key between the ledgers, the first creates it iff the last does. -/
def Settled (table : List StateChange) (contractAddress : String) (fromLedger toLedger : Nat) : Prop :=
  ∀ key, ∀ first ∈ (between StateChange.ledger fromLedger toLedger (history table contractAddress key)).head?,
    ∀ last ∈ (between StateChange.ledger fromLedger toLedger (history table contractAddress key)).getLast?,
      (first.operation = .create ↔ last.operation = .create)

variable {table changes : List StateChange} {contractAddress key : String} {ledger fromLedger toLedger : Nat}
  {state : Option String} {c : StateChange} {keyList : List String} {toLowerCase : String → String}

theorem Fits.append {first second : List StateChange} (fits : Fits state (first ++ second)) :
    Fits state first ∧ Fits (replay StateChange.written state first) second := by
  induction first generalizing state with
  | nil => exact ⟨trivial, fits⟩
  | cons c rest ih =>
    obtain ⟨here, later⟩ := fits
    obtain ⟨before, after⟩ := ih later
    exact ⟨⟨here, before⟩, after⟩

theorem StateChange.Fits.created (fits : c.Fits state) : c.operation = .create ↔ state = none := by
  unfold StateChange.Fits at fits
  cases operation : c.operation with
  | create => simpa [operation] using (operation ▸ fits).1
  | update => simpa [operation] using (operation ▸ fits).1
  | delete => simpa [operation] using (operation ▸ fits).1

theorem StateChange.Fits.deleted (fits : c.Fits state) : c.operation = .delete ↔ c.written = none := by
  unfold StateChange.Fits at fits
  unfold StateChange.written
  cases operation : c.operation with
  | create => simpa [operation] using (operation ▸ fits).2.2
  | update => simpa [operation] using (operation ▸ fits).2.2
  | delete => simp

/-- Only the last change of a key by the time can leave it without a value. -/
theorem Fits.deleted {changes : List StateChange} (fits : Fits state changes) (member : c ∈ changes) :
    c.operation = .delete ↔ c.written = none := by
  induction changes generalizing state with
  | nil => contradiction
  | cons first rest ih =>
    obtain ⟨here, later⟩ := fits
    rcases List.mem_cons.mp member with rfl | member
    · exact here.deleted
    · exact ih later member

/-- What the map of a diff keeps of the changes of one key. -/
def summary (changes : List StateChange) : Option KeyChange :=
  changes.head?.bind fun first => changes.getLast?.map fun last =>
    ⟨first.valueBefore, last.valueAfter, last.operation, first.storageKeyHuman⟩

/-- A diff whose entries tell the state after it, and that has every key it changes. -/
structure Tells (diff : LedgerDiff) (before after : String → Option String) : Prop where
  added : ∀ added ∈ diff.added, after added.key = added.value
  updated : ∀ updated ∈ diff.updated, after updated.key = updated.valueAfter
  deleted : ∀ deleted ∈ diff.deleted, after deleted.key = none
  unlisted : ∀ key, key ∉ diff.added.map Added.key → key ∉ diff.updated.map Updated.key →
    key ∉ diff.deleted.map Deleted.key → after key = before key

theorem Tells.apply {diff : LedgerDiff} {before after : String → Option String} (tells : Tells diff before after) :
    applyDiff diff before = after := by
  funext key
  rw [applyDiff]
  cases isAdded : diff.added.find? fun added => added.key = key with
  | some added =>
    have same : added.key = key := by simpa using List.find?_some isAdded
    rw [← same]
    exact (tells.added added (List.mem_of_find?_eq_some isAdded)).symm
  | none =>
    cases isUpdated : diff.updated.find? fun updated => updated.key = key with
    | some updated =>
      have same : updated.key = key := by simpa using List.find?_some isUpdated
      rw [← same]
      exact (tells.updated updated (List.mem_of_find?_eq_some isUpdated)).symm
    | none =>
      simp only [List.find?_eq_none, decide_eq_true_eq] at isAdded isUpdated
      by_cases isDeleted : ∃ deleted ∈ diff.deleted, deleted.key = key
      · obtain ⟨deleted, member, rfl⟩ := isDeleted
        have listed : (diff.deleted.any fun other => other.key = deleted.key) = true :=
          List.any_eq_true.mpr ⟨deleted, member, decide_eq_true rfl⟩
        simp only [listed, if_true]
        exact (tells.deleted deleted member).symm
      · have absent : (diff.deleted.any fun other => other.key = key) = false := by
          simpa using isDeleted
        simp only [absent, Bool.false_eq_true, if_false]
        refine (tells.unlisted key ?_ ?_ ?_).symm
        · simpa using isAdded
        · simpa using isUpdated
        · simpa using isDeleted

def balance (ledger : Nat) (operation : StateOperation) (valueBefore valueAfter : Option String) : StateChange :=
  ⟨"C", ledger, "balance", none, valueBefore, valueAfter, none, operation⟩

def raised : List StateChange := [balance 1 .create none (some "5"), balance 3 .update (some "5") (some "7")]

end Octraban.Archive
