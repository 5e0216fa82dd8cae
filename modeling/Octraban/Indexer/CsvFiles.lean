import Octraban.Core.Csv
import Octraban.Indexer.CsvExporter

/-! csv-exporter.ts: the text of the files, and what a reader of quoted cells gets back from them. -/
namespace Octraban.CsvExporter
open JavaScript

/-- Nothing stands for null and undefined; other values come as the text of `JSON.stringify` or `String`. -/
def escapeCsv : Option String → String
  | none => ""
  | some s =>
    if s.toList.contains ',' || s.toList.contains '"' || s.toList.contains '\n' then
      "\"" ++ String.ofList (s.toList.flatMap fun c => if c = '"' then ['"', '"'] else [c]) ++ "\""
    else s

/-- `rowToCsv(headers, row) + '\n'` -/
def rowText (line : Line) : String := ",".intercalate (line.map escapeCsv) ++ "\n"

/-- `HEADERS.join(',') + '\n'` -/
def headerText (headers : List String) : String := ",".intercalate headers ++ "\n"

def fileText (headers : List String) (rows : List Line) : String :=
  headerText headers ++ String.join (rows.map rowText)

inductive ExportType where
  | transactions | events | wallet_history
  deriving DecidableEq

def ExportType.headers : ExportType → List String
  | .transactions => TX_HEADERS
  | .events => EVENT_HEADERS
  | .wallet_history => WALLET_HISTORY_HEADERS

section
variable {I : Type*} [LinearOrder I] {blank : I}

/-- The stream that `runExportJob` chooses. -/
def ExportType.stream (exportType : ExportType) (filters : Value) (table : Table I blank) (fuel : ℕ) :
    Option (Except ExportError (List Line × ℕ)) :=
  match exportType with
  | .transactions => streamTransactions filters table fuel
  | .wallet_history => streamWalletHistory filters table fuel
  | .events => streamEvents filters table fuel
end

/-! ### Reading -/

/-- Cells in double quotes, and records that end with a line feed. -/
def dialect : Csv.Dialect Char := ⟨',', '\n', '"', by decide, by decide, by decide⟩

def readCsv (text : String) : Option (List (List String)) :=
  (Csv.read dialect .start [] [] text.toList).map fun rows => rows.map fun row => row.map String.ofList

/-- What is read of a cell; a missing value reads as an empty text. -/
def cellText (cell : Option String) : String := cell.getD ""

theorem toList_escapeCsv (cell : Option String) :
    (escapeCsv cell).toList = Csv.encode dialect (cellText cell).toList := by
  cases cell with
  | none => rfl
  | some s =>
    have special : (s.toList.contains ',' || s.toList.contains '"' || s.toList.contains '\n') = true ↔
        ∃ c ∈ s.toList, Csv.Special dialect c := by
      simp only [Bool.or_eq_true, List.contains_iff_mem, Csv.Special, dialect]
      constructor
      · rintro ((comma | quote) | newline)
        · exact ⟨_, comma, .inl rfl⟩
        · exact ⟨_, quote, .inr (.inl rfl)⟩
        · exact ⟨_, newline, .inr (.inr rfl)⟩
      · rintro ⟨c, member, rfl | rfl | rfl⟩
        · exact .inl (.inl member)
        · exact .inl (.inr member)
        · exact .inr member
    have doubled : (s.toList.flatMap fun c => if c = '"' then ['"', '"'] else [c]) = Csv.double dialect s.toList := rfl
    rw [escapeCsv, Csv.encode, cellText, Option.getD_some]
    by_cases held : ∃ c ∈ s.toList, Csv.Special dialect c
    · rw [if_pos held, if_pos (special.mpr held), doubled]
      simp [dialect]
    · rw [if_neg held, if_neg fun found => held (special.mp found)]

theorem toList_intercalate (cells : List String) :
    (",".intercalate cells).toList = [','].intercalate (cells.map String.toList) := by
  simp

theorem toList_rowText (line : Line) :
    (rowText line).toList = Csv.encodeRow dialect (line.map fun cell => (cellText cell).toList) := by
  have cells : (line.map escapeCsv).map String.toList =
      (line.map fun cell => (cellText cell).toList).map (Csv.encode dialect) := by
    rw [List.map_map, List.map_map]
    exact List.map_congr_left fun cell _ => toList_escapeCsv cell
  rw [rowText, String.toList_append, toList_intercalate, cells]
  rfl

/-- Names of columns are written as they are. -/
theorem headerText_eq {headers : List String} (plain : ∀ name ∈ headers, escapeCsv (some name) = name) :
    headerText headers = rowText (headers.map some) := by
  have same : (headers.map some).map escapeCsv = headers := by
    rw [List.map_map]
    exact (List.map_congr_left plain).trans (List.map_id headers)
  rw [headerText, rowText, same]

theorem readCsv_fileText {headers : List String} {rows : List Line} (plain : ∀ name ∈ headers, escapeCsv (some name) = name)
    (some_column : headers ≠ []) (nonempty : ∀ row ∈ rows, row ≠ []) :
    readCsv (fileText headers rows) = some (headers :: rows.map (List.map cellText)) := by
  have text : (fileText headers rows).toList =
      ((headers.map some :: rows).map fun line => line.map fun cell => (cellText cell).toList).flatMap
        (Csv.encodeRow dialect) := by
    rw [fileText, headerText_eq plain, String.toList_append, toList_rowText, List.map_cons, List.flatMap_cons]
    congr 1
    rw [String.toList_join, List.flatMap_map, List.flatMap_map]
    exact List.flatMap_congr fun line _ => toList_rowText line
  have cells (line : Line) :
      (line.map fun cell => (cellText cell).toList).map String.ofList = line.map cellText := by
    rw [List.map_map]
    exact List.map_congr_left fun cell _ => String.ofList_toList
  have names : (headers.map some).map cellText = headers := (List.map_map ..).trans (List.map_id headers)
  rw [readCsv, text, Csv.read_rows]
  · rw [Option.map_some, List.map_map, List.map_cons, Function.comp_apply, cells, names]
    congr 2
    exact List.map_congr_left fun line _ => cells line
  · intro row member
    obtain ⟨line, listed, rfl⟩ := List.mem_map.mp member
    rw [ne_eq, List.map_eq_nil_iff]
    rcases List.mem_cons.mp listed with rfl | listed
    · rwa [List.map_eq_nil_iff]
    · exact nonempty line listed

/-! ### The lines of the streams -/

section
variable {I : Type*} {lines : List Line} {total : ℕ}

/-- A stream writes a line for each row that it fetches, and counts them. -/
theorem loop_lines {fetch : Option I → Except ExportError (List (Row I))} {record : Row I → Line} {fuel : ℕ}
    {cursor : Option I} {written : List Line} {count : ℕ}
    (ended : stream.loop fetch record fuel cursor written count = some (.ok (lines, total))) :
    ∃ rows : List (Row I), lines = written ++ rows.map record ∧ total = count + rows.length := by
  induction fuel generalizing cursor written count with
  | zero => cases ended
  | succ fuel ih =>
    rw [stream.loop] at ended
    cases fetched : fetch cursor with
    | error error =>
      rw [fetched] at ended
      cases ended
    | ok rows =>
      rw [fetched] at ended
      dsimp only at ended
      split at ended
      · cases ended
        exact ⟨[], by simp, rfl⟩
      · split at ended
        · cases ended
          exact ⟨rows, rfl, rfl⟩
        · obtain ⟨later, rfl, rfl⟩ := ih ended
          refine ⟨rows ++ later, ?_, ?_⟩
          · rw [List.map_append, List.append_assoc]
          · rw [List.length_append, Nat.add_assoc]

variable [LinearOrder I] {blank : I} {table : Table I blank}

theorem stream_lines {exportType : ExportType} {filters : Value} {fuel : ℕ}
    (ran : exportType.stream filters table fuel = some (.ok (lines, total))) :
    ∃ rows : List Line, lines = exportType.headers.map some :: rows ∧ rows.length = total ∧
      ∀ row ∈ rows, row.length = exportType.headers.length := by
  have written {fetch : Option I → Except ExportError (List (Row I))} {column : Row I → String → Option String}
      {headers : List String}
      (ended : stream.loop fetch (fun row => rowToCsv headers (column row)) fuel none [headers.map some] 0 =
        some (.ok (lines, total))) :
      ∃ rows : List Line, lines = headers.map some :: rows ∧ rows.length = total ∧
        ∀ row ∈ rows, row.length = headers.length := by
    obtain ⟨rows, rfl, rfl⟩ := loop_lines ended
    refine ⟨rows.map fun row => rowToCsv headers (column row), rfl, ?_, ?_⟩
    · rw [List.length_map, Nat.zero_add]
    · intro line member
      obtain ⟨row, _, rfl⟩ := List.mem_map.mp member
      exact List.length_map ..
  cases exportType with
  | transactions => exact written ran
  | events => exact written ran
  | wallet_history =>
    simp only [ExportType.stream, streamWalletHistory] at ran
    split at ran
    · cases ran
    · exact written ran

theorem headers_plain (exportType : ExportType) : ∀ name ∈ exportType.headers, escapeCsv (some name) = name := by
  cases exportType <;> decide

theorem headers_ne_nil (exportType : ExportType) : exportType.headers ≠ [] := by
  cases exportType <;> exact List.cons_ne_nil _ _

/-- What an export has written reads back as its headers and the cells of its rows, whatever is in them, and the job's
count is that of the rows. -/
theorem file_reads_back (exportType : ExportType) (filters : Value) (table : Table I blank) (fuel : ℕ) (lines : List Line)
    (total : ℕ) (ran : exportType.stream filters table fuel = some (.ok (lines, total))) :
    ∃ rows : List Line, lines = exportType.headers.map some :: rows ∧ rows.length = total ∧
      readCsv (fileText exportType.headers rows) = some (exportType.headers :: rows.map (List.map cellText)) := by
  obtain ⟨rows, header, count, width⟩ := stream_lines ran
  refine ⟨rows, header, count, readCsv_fileText (headers_plain exportType) (headers_ne_nil exportType) ?_⟩
  intro row member empty
  have length := width row member
  rw [empty, List.length_nil] at length
  exact headers_ne_nil exportType (List.eq_nil_of_length_eq_zero length.symm)

end

def quotedTransaction : Table String "" where
  rows := [⟨"c1", 7, fun column => if column = "humanReadable" then some "swap, \"a\" for \n b" else none⟩]
  distinct := List.nodup_singleton _
  named row member := by
    rw [List.mem_singleton.mp member]
    decide

theorem matching_quotedTransaction : quotedTransaction.matching (buildTxWhere .undefined) = quotedTransaction.rows :=
  List.mergeSort_singleton _

theorem file_reads_back_quoted : ∃ rows : List Line,
    TX_HEADERS.map some :: quotedTransaction.rows.map (fun row => rowToCsv TX_HEADERS row.column) =
      ExportType.transactions.headers.map some :: rows ∧ rows.length = 1 ∧
    readCsv (fileText ExportType.transactions.headers rows) =
      some (ExportType.transactions.headers :: rows.map (List.map cellText)) := by
  apply file_reads_back .transactions .undefined quotedTransaction 2
  have accepted : (buildTxWhere .undefined).accepted = true := rfl
  have threaded : Threaded _ (quotedTransaction.matching _) := threaded_findMany accepted
  rw [matching_quotedTransaction] at threaded
  exact loop_eq [] _ threaded rfl (by decide)

end Octraban.CsvExporter
