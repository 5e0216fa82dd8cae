import Octraban.Core.JavaScript
import Octraban.Core.OrderedMap
import Octraban.Core.Upsert

/-! contention.ts: rows of the ledger keys that several transactions of a ledger write. -/
namespace Octraban.Contention
open JavaScript Ordered

structure Tx where
  hash : String
  contractAddress : Option String
  rawXdr : String

/-- The row stands under its id. -/
structure StateContention where
  ledgerSequence : Nat
  contractAddress : String
  stateKey : Option String
  txHashes : List String
  conflictCount : Option Nat
  delayMs : Option Number
  delayLabel : Option String

abbrev Rows := Sql.Table String StateContention

/-- The footprint keys that the SDK reads from an envelope (`none` where it throws), `String` of a
number, and the numbers that the database client takes for an `Int`. -/
structure Environment where
  readWrite : String → Option (List String)
  string : Number → String
  takes : Number → Bool

def DELAY_PER_CONFLICT_MS : Number := roundRat (2 / 5)

/-- `parseFloat(x.toFixed(2))`, where from 10^21 on `toFixed` gives all of the number. -/
def hundredths : Number → Number
  | .finite x => if |x| < 10 ^ 21 then roundRat ((if x < 0 then -1 else 1) * ⌊|x| * 100 + 1 / 2⌋ / 100) else .finite x
  | x => x

def delayOf (conflictCount : Nat) : Number := hundredths ((Number.finite conflictCount).mul DELAY_PER_CONFLICT_MS)

section
variable (env : Environment)

def extractWriteKeys (rawXdr : String) (contractAddress : Option String) : List String :=
  match contractAddress with
  | some address =>
    if rawXdr = "" ∨ address = "" then [] else (env.readWrite rawXdr).getD ["contract:" ++ address]
  | none => []

/-- What is known of a key. -/
structure Touched where
  hashes : List String
  contract : String

def touch (tx : Tx) (keyToTxs : OrderedMap String Touched) (key : String) : OrderedMap String Touched :=
  keyToTxs.update key ⟨[], tx.contractAddress.getD ""⟩ fun touched => { touched with hashes := touched.hashes ++ [tx.hash] }

def keyToTxs (txs : List Tx) : OrderedMap String Touched :=
  txs.foldl (fun known tx => (extractWriteKeys env tx.rawXdr tx.contractAddress).foldl (touch tx) known) OrderedMap.empty

def contended (txs : List Tx) : List (String × Touched) :=
  (keyToTxs env txs).entries.filter fun entry => 1 < entry.2.hashes.length

def shortKey (stateKey : String) : String := String.ofList (stateKey.toList.take 64)

def rowId (ledgerSequence : Nat) (stateKey : String) : String :=
  String.ofList (decimal ledgerSequence) ++ ":" ++ shortKey stateKey

def createRow (ledgerSequence : Nat) (entry : String × Touched) : StateContention where
  ledgerSequence
  contractAddress := entry.2.contract
  stateKey := entry.1
  txHashes := entry.2.hashes
  conflictCount := entry.2.hashes.length
  delayMs := delayOf entry.2.hashes.length
  delayLabel := "Delayed " ++ env.string (delayOf entry.2.hashes.length) ++ "ms due to high traffic on pool state"

def updateRow (entry : String × Touched) (row : StateContention) : StateContention :=
  { row with
    conflictCount := entry.2.hashes.length
    delayMs := delayOf entry.2.hashes.length
    delayLabel := "Delayed " ++ env.string (delayOf entry.2.hashes.length) ++ "ms due to high traffic on pool state"
    txHashes := entry.2.hashes }

def upsertRow (ledgerSequence : Nat) (rows : Rows) (entry : String × Touched) : Rows :=
  rows.upsert (rowId ledgerSequence entry.1) (createRow env ledgerSequence entry) (updateRow env entry)

/-- Whether the client takes both numbers of a row. -/
def accepted (conflictCount : Nat) : Bool := env.takes (.finite conflictCount) && env.takes (delayOf conflictCount)

/-- The loop of upserts, and whether it came to its end. -/
def record (ledgerSequence : Nat) : List (String × Touched) → Rows → Rows × Bool
  | [], rows => (rows, true)
  | entry :: rest, rows =>
    if accepted env entry.2.hashes.length then record ledgerSequence rest (upsertRow env ledgerSequence rows entry)
    else (rows, false)

def detectContention (ledgerSequence : Nat) (txs : List Tx) (rows : Rows) : Rows × Bool :=
  record env ledgerSequence (contended env txs) rows

/-! ### Contended keys -/

/-- The transactions that write a key, by their hashes. -/
def writers (txs : List Tx) (key : String) : List String :=
  ((txs.filter fun tx => key ∈ extractWriteKeys env tx.rawXdr tx.contractAddress).map Tx.hash).dedup

/-- One row for each key that different transactions write, and no other of the ledger. -/
structure Complete (ledgerSequence : Nat) (txs : List Tx) (rows : Rows) : Prop where
  one : ∀ key, 2 ≤ (writers env txs key).length → ∃ id row, rows.lookup id = some row ∧ row.ledgerSequence = ledgerSequence ∧
    row.stateKey = some key ∧ row.conflictCount = some (writers env txs key).length ∧
    ∀ other again, rows.lookup other = some again → again.ledgerSequence = ledgerSequence → again.stateKey = some key → other = id
  only : ∀ id row, rows.lookup id = some row → row.ledgerSequence = ledgerSequence →
    ∃ key, row.stateKey = some key ∧ 2 ≤ (writers env txs key).length

/-- Every write of the ledger, with its transaction. -/
def writes (txs : List Tx) : List (Tx × String) :=
  txs.flatMap fun tx => (extractWriteKeys env tx.rawXdr tx.contractAddress).map fun key => (tx, key)

/-- How often a key is written. -/
def timesWritten (txs : List Tx) (key : String) : Nat := (writes env txs).countP fun write => write.2 = key

/-- The keys that are written more than once, by their first writes. -/
def repeated (txs : List Tx) : List String := (ofList ((writes env txs).map Prod.snd)).filter fun key => 1 < timesWritten env txs key

/-- The rows are as detectContention leaves them. -/
def Written (rows : Rows) : Prop :=
  ∀ id row, rows.lookup id = some row → ∃ key, row.stateKey = some key ∧ id = rowId row.ledgerSequence key

end

variable {env : Environment} {txs : List Tx} {key : String} {ledgerSequence : Nat} {rows : Rows}

/-! ### Keys -/

/-- What one write makes of what is known of its key. -/
def merge (write : Tx × String) (known : Option Touched) : Touched :=
  let touched := known.getD ⟨[], write.1.contractAddress.getD ""⟩
  { touched with hashes := touched.hashes ++ [write.1.hash] }

theorem written_upsertRow (written : Written rows) (entry : String × Touched) : Written (upsertRow env ledgerSequence rows entry) := by
  intro id row found
  by_cases own : id = rowId ledgerSequence entry.1
  · rw [own, upsertRow, Sql.Table.lookup_upsert_self] at found
    obtain rfl := Option.some.inj found
    cases stored : rows.lookup (rowId ledgerSequence entry.1) with
    | none => exact ⟨entry.1, rfl, own⟩
    | some old =>
      obtain ⟨key, known, same⟩ := written _ old stored
      exact ⟨key, known, own.trans same⟩
  · rw [upsertRow, Sql.Table.lookup_upsert_ne own] at found
    exact written id row found

/-- The rows of every run of detectContention are written so. -/
theorem written_detectContention (written : Written rows) : Written (detectContention env ledgerSequence txs rows).1 := by
  have kept (entries : List (String × Touched)) (rows : Rows) (written : Written rows) :
      Written (record env ledgerSequence entries rows).1 := by
    induction entries generalizing rows with
    | nil => exact written
    | cons entry rest ih =>
      rw [record]
      split
      · exact ih _ (written_upsertRow written entry)
      · exact written
  exact kept _ rows written

/-! ### Completeness -/

section
variable (written : Written rows) (fresh : ∀ id row, rows.lookup id = some row → row.ledgerSequence ≠ ledgerSequence)
include written fresh

end

def balanceKey (holder : String) : String :=
  "AAAABgAAAAEREREREREREREREREREREREREREREREREREREREREREQAAABAAAAABAAAAAgAAAA8AAAAHQmFsYW5jZQAAAAASAAAAA" ++ holder ++ "AAAAAQ=="

def senderKey : String := balanceKey "SIiIiIiIiIiIiIiIiIiIiIiIiIiIiIiIiIiIiIiIiIiIi"

def receiverKey : String := balanceKey "TMzMzMzMzMzMzMzMzMzMzMzMzMzMzMzMzMzMzMzMzMzMz"

/-- A client that takes integers of 32 bits; one envelope with two balances in its footprint. -/
def balances : Environment where
  readWrite rawXdr := if rawXdr = "transfer" then some [senderKey, receiverKey] else none
  string := Number.text
  takes
    | .finite x => x.den = 1 ∧ |x| < 2 ^ 31
    | _ => false

end Octraban.Contention
