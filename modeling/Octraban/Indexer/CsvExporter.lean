import Mathlib.Data.Prod.Lex
import Mathlib.Data.String.Basic
import Octraban.Core.Sorting
import Octraban.Core.Value

/-! csv-exporter.ts: the rows that match the filters of a job are written page by page; a page starts after the
last row of the one before. -/
namespace Octraban.CsvExporter
open JavaScript

/-- A row of `transaction` or `event`, with the text that is written for each of its columns. -/
structure Row (I : Type*) where
  id : I
  ledgerSequence : ℤ
  column : String → Option String

/-- Ids are distinct, and those of the schema and of the indexer are not empty. -/
structure Table (I : Type*) (blank : I) where
  rows : List (Row I)
  distinct : (rows.map Row.id).Nodup
  named : ∀ row ∈ rows, row.id ≠ blank

/-- `where`: columns that have a text, and the bounds of ledgerSequence. -/
structure Where where
  equals : List (String × String)
  gte : Option Number
  lte : Option Number

inductive ExportError where
  | accountRequired
  | validation
  deriving DecidableEq

abbrev Line := List (Option String)

def BATCH_SIZE : ℕ := 500

def TX_HEADERS : List String := ["hash", "ledgerSequence", "ledgerCloseTime", "sourceAccount", "contractAddress",
  "functionName", "status", "humanReadable", "feeCharged", "createdAt"]

def EVENT_HEADERS : List String := ["id", "transactionHash", "contractAddress", "eventType", "topics", "data", "decoded",
  "ledgerSequence", "ledgerCloseTime", "createdAt"]

def WALLET_HISTORY_HEADERS : List String := ["type", "hash", "ledgerSequence", "ledgerCloseTime", "contractAddress",
  "functionName", "status", "humanReadable", "feeCharged", "createdAt"]

/-- `if (value) where[column] = String(value)` -/
def equalTo (column : String) (value : Value) : List (String × String) :=
  if value.truthy then [(column, value.string)] else []

/-- A bound that is given. -/
def bound : Value → Option Number
  | .undefined => none
  | value => some value.toNumber

def buildTxWhere (f : Value) : Where where
  equals := equalTo "contractAddress" (f.get "contract") ++ equalTo "sourceAccount" (f.get "account") ++
    equalTo "status" (f.get "status")
  gte := bound (f.get "ledgerMin")
  lte := bound (f.get "ledgerMax")

def buildEventWhere (f : Value) : Where where
  equals := equalTo "contractAddress" (f.get "contract") ++ equalTo "eventType" (f.get "eventType")
  gte := bound (f.get "ledgerMin")
  lte := bound (f.get "ledgerMax")

/-- `String(filters.account ?? '')` -/
def address (filters : Value) : String := ((filters.get "account").orElse (.text "")).string

def walletWhere (filters : Value) : Where where
  equals := [("sourceAccount", address filters)]
  gte := bound (filters.get "ledgerMin")
  lte := bound (filters.get "ledgerMax")

/-- The query takes whole numbers of 32 bits. -/
def isInt : Number → Bool
  | .finite x => x.den = 1 ∧ -2 ^ 31 ≤ x ∧ x < 2 ^ 31
  | _ => false

def Where.accepted (w : Where) : Bool := w.gte.all isInt && w.lte.all isInt

section
variable {I : Type*}

def Where.Matches (w : Where) (row : Row I) : Bool :=
  (w.equals.all fun (column, text) => row.column column = some text) &&
    (w.gte.all fun low => low.le (.finite row.ledgerSequence)) && w.lte.all (Number.le (.finite row.ledgerSequence))

variable [LinearOrder I] {blank : I}

/-- `orderBy: [{ ledgerSequence: 'asc' }, { id: 'asc' }]` -/
def Row.place (row : Row I) : ℤ ×ₗ I := toLex (row.ledgerSequence, row.id)

def Table.matching (table : Table I blank) (w : Where) : List (Row I) :=
  (table.rows.filter w.Matches).mergeSort fun a b => a.place ≤ b.place

/-- The rows after the one that the cursor names. -/
def after (rows : List (Row I)) : Option I → List (Row I)
  | none => rows
  | some cursor => (rows.dropWhile fun row => row.id ≠ cursor).drop 1

/-- With `skip: 1` where there is a cursor. -/
def findMany (table : Table I blank) (w : Where) (cursor : Option I) : Except ExportError (List (Row I)) :=
  if w.accepted then .ok ((after (table.matching w) cursor).take BATCH_SIZE) else .error .validation

/-- The cells of a row under the headers. -/
def rowToCsv (headers : List String) (column : String → Option String) : Line := headers.map column

/-- Nothing stands for a loop that does not end within the iterations given; lines and total are those so far. -/
def stream.loop (fetch : Option I → Except ExportError (List (Row I))) (record : Row I → Line) :
    ℕ → Option I → List Line → ℕ → Option (Except ExportError (List Line × ℕ))
  | 0, _, _, _ => none
  | fuel + 1, cursor, lines, total =>
    match fetch cursor with
    | .error error => some (.error error)
    | .ok rows =>
      if rows = [] then some (.ok (lines, total))
      else
        let lines := lines ++ rows.map record
        let total := total + rows.length
        if rows.length < BATCH_SIZE then some (.ok (lines, total))
        else loop fetch record fuel (rows.getLast?.map Row.id) lines total

/-- An empty cursor is taken for none. -/
def stream (headers : List String) (w : Where) (table : Table I blank) (fuel : ℕ) :
    Option (Except ExportError (List Line × ℕ)) :=
  stream.loop (fun cursor => findMany table w (cursor.filter (· ≠ blank))) (fun row => rowToCsv headers row.column)
    fuel none [headers.map some] 0

def streamTransactions (filters : Value) (table : Table I blank) (fuel : ℕ) :
    Option (Except ExportError (List Line × ℕ)) :=
  stream TX_HEADERS (buildTxWhere filters) table fuel

def streamEvents (filters : Value) (table : Table I blank) (fuel : ℕ) : Option (Except ExportError (List Line × ℕ)) :=
  stream EVENT_HEADERS (buildEventWhere filters) table fuel

/-- `{ type: 'soroban', ...row }` -/
def walletRecord (row : Row I) : Line :=
  rowToCsv WALLET_HISTORY_HEADERS fun column => if column = "type" then some "soroban" else row.column column

/-- The cursor is kept, but no query gets it. -/
def streamWalletHistory (filters : Value) (table : Table I blank) (fuel : ℕ) :
    Option (Except ExportError (List Line × ℕ)) :=
  if address filters = "" then some (.error .accountRequired)
  else stream.loop (fun _ => findMany table (walletWhere filters) none) walletRecord fuel none
    [WALLET_HISTORY_HEADERS.map some] 0

/-- The loop ends, and what it wrote is a line for each matching row, in order. -/
def Exports (run : ℕ → Option (Except ExportError (List Line × ℕ))) (headers : List String) (record : Row I → Line)
    (table : Table I blank) (w : Where) : Prop :=
  ∃ (fuel : ℕ) (rows : List (Row I)), run fuel = some (.ok (headers.map some :: rows.map record, rows.length)) ∧
    rows.Perm (table.rows.filter w.Matches) ∧ rows.Pairwise fun a b => a.place < b.place

/-! ### Pages -/

variable {table : Table I blank} {w : Where} {front todo : List (Row I)} {record : Row I → Line}
  {fetch : Option I → Except ExportError (List (Row I))} {headers : List String}

theorem perm_matching (table : Table I blank) (w : Where) : (table.matching w).Perm (table.rows.filter w.Matches) :=
  List.mergeSort_perm _ _

theorem nodup_matching (table : Table I blank) (w : Where) : ((table.matching w).map Row.id).Nodup :=
  ((perm_matching table w).map Row.id).nodup_iff.mpr (table.distinct.sublist (List.filter_sublist.map Row.id))

theorem named_matching {row : Row I} (member : row ∈ table.matching w) : row.id ≠ blank :=
  table.named row (List.mem_of_mem_filter ((perm_matching table w).mem_iff.mp member))

/-- Rows of one ledger are told apart by their ids. -/
theorem pairwise_matching (table : Table I blank) (w : Where) :
    (table.matching w).Pairwise fun a b => a.place < b.place := by
  have sorted : (table.matching w).Pairwise fun a b => decide (a.place ≤ b.place) = true :=
    List.pairwise_mergeSort
      (fun _ _ _ first second => decide_eq_true ((of_decide_eq_true first).trans (of_decide_eq_true second)))
      (fun a b => by simpa using le_total a.place b.place) _
  have distinct : (table.matching w).Pairwise fun a b => a.id ≠ b.id := List.pairwise_map.mp (nodup_matching table w)
  refine sorted.imp₂ (fun a b le ne => ?_) distinct
  exact lt_of_le_of_ne (of_decide_eq_true le) fun same => ne (congrArg (fun place => (ofLex place).2) same)

/-- The cursor is the last row written. -/
theorem after_getLast? (distinct : ((front ++ todo).map Row.id).Nodup) :
    after (front ++ todo) (front.getLast?.map Row.id) = todo := by
  rcases List.eq_nil_or_concat front with rfl | ⟨init, last, rfl⟩
  · rfl
  · rw [List.concat_eq_append, List.append_assoc, List.singleton_append] at distinct ⊢
    have earlier : ∀ row ∈ init, decide (row.id ≠ last.id) = true := by
      rw [List.map_append, List.map_cons] at distinct
      intro row member
      exact decide_eq_true ((List.nodup_append.mp distinct).2.2 _ (List.mem_map_of_mem member) _ List.mem_cons_self)
    rw [List.getLast?_concat, Option.map_some, after, List.dropWhile_append_of_pos earlier,
      List.dropWhile_cons_of_neg (by simp)]
    rfl

/-- What the queries answer when each goes on after the rows written so far. -/
def Threaded (fetch : Option I → Except ExportError (List (Row I))) (rows : List (Row I)) : Prop :=
  ∀ front todo, rows = front ++ todo → fetch (front.getLast?.map Row.id) = .ok (todo.take BATCH_SIZE)

omit [LinearOrder I] in
/-- The rows still to do bound the iterations. -/
theorem loop_eq {rows : List (Row I)} {fuel : ℕ} {header : Line} (front todo : List (Row I)) (threaded : Threaded fetch rows)
    (split : rows = front ++ todo) (enough : todo.length < fuel) :
    stream.loop fetch record fuel (front.getLast?.map Row.id) (header :: front.map record) front.length =
      some (.ok (header :: rows.map record, rows.length)) := by
  induction fuel generalizing front todo with
  | zero => exact absurd enough (Nat.not_lt_zero _)
  | succ fuel ih =>
    rw [stream.loop, threaded front todo split]
    dsimp only
    split
    · rename_i none
      have done : todo = [] := by
        rcases List.take_eq_nil_iff.mp none with size | done
        · exact absurd size (by decide)
        · exact done
      rw [split, done, List.append_nil]
    · rename_i some
      rw [List.cons_append, ← List.map_append, ← List.length_append]
      split
      · rename_i short
        have last : todo.take BATCH_SIZE = todo := by
          rw [List.length_take] at short
          exact List.take_of_length_le (by omega)
        rw [last, split]
      · rename_i full
        have page : todo.take BATCH_SIZE ≠ [] := some
        have cursor : (todo.take BATCH_SIZE).getLast? = (front ++ todo.take BATCH_SIZE).getLast? := by
          rw [List.getLast?_append, Option.or_of_isSome (List.getLast?_isSome.mpr page)]
        rw [cursor]
        refine ih _ (todo.drop BATCH_SIZE) ?_ ?_
        · rw [List.append_assoc, List.take_append_drop]
          exact split
        · rw [List.length_take] at full
          rw [List.length_drop]
          have size : 0 < BATCH_SIZE := by decide
          omega

theorem threaded_findMany (accepted : w.accepted = true) :
    Threaded (fun cursor => findMany table w (cursor.filter (· ≠ blank))) (table.matching w) := by
  intro front todo split
  have kept : (front.getLast?.map Row.id).filter (· ≠ blank) = front.getLast?.map Row.id := by
    cases last : front.getLast? with
    | none => rfl
    | some row =>
      have member : row ∈ table.matching w := split ▸ List.mem_append_left _ (List.mem_of_getLast? last)
      rw [Option.map_some, Option.filter_some, if_pos (decide_eq_true (named_matching member))]
  have distinct := nodup_matching table w
  dsimp only
  rw [kept, findMany, if_pos accepted]
  rw [split] at distinct ⊢
  rw [after_getLast? distinct]

theorem exports_matching {run : ℕ → Option (Except ExportError (List Line × ℕ))} (fuel : ℕ)
    (written : run fuel = some (.ok (headers.map some :: (table.matching w).map record, (table.matching w).length))) :
    Exports run headers record table w :=
  ⟨fuel, table.matching w, written, perm_matching table w, pairwise_matching table w⟩

theorem not_exports_of_error {run : ℕ → Option (Except ExportError (List Line × ℕ))} (error : ExportError)
    (ends : ∀ fuel, run fuel = none ∨ run fuel = some (.error error)) : ¬ Exports run headers record table w := by
  rintro ⟨fuel, rows, written, -⟩
  rcases ends fuel with never | failed
  · rw [never] at written
    cases written
  · rw [failed] at written
    cases written

omit [LinearOrder I] in
/-- The query is rejected. -/
theorem loop_error {error : ExportError} (rejected : ∀ cursor, fetch cursor = .error error) (fuel : ℕ)
    (cursor : Option I) (lines : List Line) (total : ℕ) :
    stream.loop fetch record fuel cursor lines total = none ∨
      stream.loop fetch record fuel cursor lines total = some (.error error) := by
  cases fuel with
  | zero => exact .inl rfl
  | succ fuel => exact .inr (by rw [stream.loop, rejected])

theorem findMany_rejected (rejected : w.accepted = false) (table : Table I blank) (cursor : Option I) :
    findMany table w cursor = .error .validation := by
  rw [findMany, rejected]
  rfl

theorem exports_stream_iff (headers : List String) (w : Where) (table : Table I blank) :
    Exports (stream headers w table) headers (fun row => rowToCsv headers row.column) table w ↔ w.accepted = true := by
  cases accepted : w.accepted with
  | true =>
    refine iff_of_true (exports_matching ((table.matching w).length + 1) ?_) rfl
    exact loop_eq [] _ (threaded_findMany accepted) rfl (Nat.lt_succ_self _)
  | false =>
    refine iff_of_false (not_exports_of_error .validation fun fuel => ?_) Bool.false_ne_true
    exact loop_error (fun cursor => findMany_rejected accepted table _) fuel _ _ _

omit [LinearOrder I] in
/-- Every query answers the first page. -/
theorem loop_none {page : List (Row I)} (same : ∀ cursor, fetch cursor = .ok page) (full : page.length = BATCH_SIZE)
    (fuel : ℕ) (cursor : Option I) (lines : List Line) (total : ℕ) :
    stream.loop fetch record fuel cursor lines total = none := by
  induction fuel generalizing cursor lines total with
  | zero => rfl
  | succ fuel ih =>
    have nonempty : page ≠ [] := by
      rintro rfl
      exact absurd full (Nat.ne_of_lt (show 0 < BATCH_SIZE by decide))
    rw [stream.loop, same]
    dsimp only
    rw [if_neg nonempty, if_neg (by rw [full]; exact Nat.lt_irrefl _)]
    exact ih _ _ _

theorem matching_length (table : Table I blank) (w : Where) :
    (table.matching w).length = (table.rows.filter w.Matches).length := (perm_matching table w).length_eq

theorem exports_wallet_iff (filters : Value) (table : Table I blank) :
    Exports (streamWalletHistory filters table) WALLET_HISTORY_HEADERS walletRecord table (walletWhere filters) ↔
      address filters ≠ "" ∧ (walletWhere filters).accepted = true ∧
        (table.rows.filter (walletWhere filters).Matches).length < BATCH_SIZE := by
  rw [← matching_length]
  by_cases missing : address filters = ""
  · refine iff_of_false (not_exports_of_error .accountRequired fun fuel => .inr (if_pos missing)) ?_
    exact fun held => held.1 missing
  · have run (fuel) : streamWalletHistory filters table fuel =
        stream.loop (fun _ => findMany table (walletWhere filters) none) walletRecord fuel none
          [WALLET_HISTORY_HEADERS.map some] 0 := if_neg missing
    cases accepted : (walletWhere filters).accepted with
    | false =>
      refine iff_of_false (not_exports_of_error .validation fun fuel => ?_) fun held => Bool.false_ne_true held.2.1
      rw [run]
      exact loop_error (fun _ => findMany_rejected accepted table none) fuel _ _ _
    | true =>
      have page : findMany table (walletWhere filters) none =
          .ok ((table.matching (walletWhere filters)).take BATCH_SIZE) := if_pos accepted
      rcases Nat.lt_or_ge (table.matching (walletWhere filters)).length BATCH_SIZE with few | many
      · refine iff_of_true (exports_matching 1 ?_) ⟨missing, rfl, few⟩
        rw [run, stream.loop, page, List.take_of_length_le few.le]
        dsimp only
        split
        · rename_i empty
          rw [empty]
          rfl
        · rw [Nat.zero_add]
          rfl
      · refine iff_of_false ?_ fun held => absurd held.2.2 (Nat.not_lt.mpr many)
        rintro ⟨fuel, rows, written, -⟩
        have full : ((table.matching (walletWhere filters)).take BATCH_SIZE).length = BATCH_SIZE := by
          rw [List.length_take, Nat.min_eq_left many]
        rw [run, loop_none (fun _ => page) full] at written
        cases written

/-- The other two exports are complete whenever the query takes their bounds, for any number of rows. -/
theorem exports_iff (filters : Value) (table : Table I blank) :
    (Exports (streamTransactions filters table) TX_HEADERS (fun row => rowToCsv TX_HEADERS row.column) table
      (buildTxWhere filters) ↔ (buildTxWhere filters).accepted = true) ∧
    (Exports (streamEvents filters table) EVENT_HEADERS (fun row => rowToCsv EVENT_HEADERS row.column) table
      (buildEventWhere filters) ↔ (buildEventWhere filters).accepted = true) ∧
    (Exports (streamWalletHistory filters table) WALLET_HISTORY_HEADERS walletRecord table (walletWhere filters) ↔
      address filters ≠ "" ∧ (walletWhere filters).accepted = true ∧
        (table.rows.filter (walletWhere filters).Matches).length < BATCH_SIZE) :=
  ⟨exports_stream_iff _ _ _, exports_stream_iff _ _ _, exports_wallet_iff _ _⟩

end

/-! ### A wallet with a full page -/

def transactionOf (n : ℕ) : Row String where
  id := String.ofList ('c' :: decimal n)
  ledgerSequence := n
  column column := if column = "sourceAccount" then some "GA" else none

theorem id_inj {m n : ℕ} (same : (transactionOf m).id = (transactionOf n).id) : m = n :=
  decimal_inj (List.cons.inj (String.ofList_injective same)).2

def wallet : Table String "" where
  rows := (List.range 500).map transactionOf
  distinct := by
    rw [List.map_map]
    exact List.nodup_range.map fun m n same => id_inj same
  named row member := by
    obtain ⟨n, -, rfl⟩ := List.mem_map.mp member
    exact fun empty => List.cons_ne_nil _ _ (String.ofList_injective empty)

def ofAccount : Value := .object [("account", .text "GA")]

theorem matches_transactionOf (n : ℕ) : (walletWhere ofAccount).Matches (transactionOf n) = true := by
  have account : address ofAccount = "GA" := rfl
  have bounds : bound (ofAccount.get "ledgerMin") = none ∧ bound (ofAccount.get "ledgerMax") = none := ⟨rfl, rfl⟩
  simp [Where.Matches, walletWhere, account, bounds, transactionOf]

/-- The first page is written again and again. -/
theorem wallet_export_loops : (walletWhere ofAccount).accepted = true ∧
    (∀ fuel, streamWalletHistory ofAccount wallet fuel = none) ∧
    ¬ Exports (streamWalletHistory ofAccount wallet) WALLET_HISTORY_HEADERS walletRecord wallet (walletWhere ofAccount) := by
  have accepted : (walletWhere ofAccount).accepted = true := rfl
  have all : (wallet.matching (walletWhere ofAccount)).length = BATCH_SIZE := by
    have every : ∀ row ∈ (List.range 500).map transactionOf, (walletWhere ofAccount).Matches row = true :=
      List.forall_mem_map.mpr fun n _ => matches_transactionOf n
    rw [matching_length, wallet, List.filter_eq_self.mpr every, List.length_map, List.length_range]
    rfl
  have full : ((wallet.matching (walletWhere ofAccount)).take BATCH_SIZE).length = BATCH_SIZE := by
    rw [List.length_take, all, Nat.min_self]
  have never (fuel) : streamWalletHistory ofAccount wallet fuel = none :=
    loop_none (fun _ => if_pos accepted) full fuel _ _ _
  refine ⟨accepted, never, ?_⟩
  rintro ⟨fuel, rows, written, -⟩
  rw [never] at written
  cases written

end Octraban.CsvExporter
