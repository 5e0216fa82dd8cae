import Mathlib.Data.List.Basic

/-! Records of quoted cells: cells that hold a special character are quoted, quotes in them are doubled. Reading gives back
the cells that were written. -/
namespace Csv

structure Dialect (A : Type*) where
  comma : A
  newline : A
  quote : A
  comma_ne_newline : comma ≠ newline
  comma_ne_quote : comma ≠ quote
  newline_ne_quote : newline ≠ quote

/-- Where in a record the reader is: at the start of a cell, within a plain or a quoted one, or after a quote that ends
the cell unless another one follows. -/
inductive Mode where
  | start | plain | quoted | closed
  deriving DecidableEq

variable {A : Type*} [DecidableEq A] (d : Dialect A)

/-- The reader, with the cell and the row that it is in, both last things first. Every record ends with a line end. -/
def read : Mode → List A → List (List A) → List A → Option (List (List (List A)))
  | mode, cell, row, [] => if mode = .start ∧ cell = [] ∧ row = [] then some [] else none
  | mode, cell, row, x :: rest =>
    if mode = .quoted then
      if x = d.quote then read .closed cell row rest else read .quoted (x :: cell) row rest
    else if x = d.comma then read .start [] (cell.reverse :: row) rest
    else if x = d.newline then (read .start [] [] rest).map ((cell.reverse :: row).reverse :: ·)
    else if x = d.quote then
      if mode = .start then read .quoted [] row rest
      else if mode = .closed then read .quoted (x :: cell) row rest
      else none
    else if mode = .closed then none
    else read .plain (x :: cell) row rest

def Special (x : A) : Prop := x = d.comma ∨ x = d.quote ∨ x = d.newline

instance decidableSpecial (x : A) : Decidable (Special d x) := inferInstanceAs (Decidable (_ ∨ _))

def double (cell : List A) : List A := cell.flatMap fun x => if x = d.quote then [d.quote, d.quote] else [x]

def encode (cell : List A) : List A :=
  if ∃ x ∈ cell, Special d x then d.quote :: (double d cell ++ [d.quote]) else cell

def encodeRow (cells : List (List A)) : List A := [d.comma].intercalate (cells.map (encode d)) ++ [d.newline]

variable {d} {mode : Mode} {cell acc rest : List A} {row : List (List A)}

theorem read_comma (other : mode ≠ .quoted) :
    read d mode cell row (d.comma :: rest) = read d .start [] (cell.reverse :: row) rest := by
  rw [read, if_neg other, if_pos rfl]

theorem read_newline (other : mode ≠ .quoted) :
    read d mode cell row (d.newline :: rest) = (read d .start [] [] rest).map ((cell.reverse :: row).reverse :: ·) := by
  rw [read, if_neg other, if_neg d.comma_ne_newline.symm, if_pos rfl]

/-- A quote opens a cell. -/
theorem read_open : read d .start cell row (d.quote :: rest) = read d .quoted [] row rest := by
  rw [read, if_neg Mode.noConfusion, if_neg d.comma_ne_quote.symm, if_neg d.newline_ne_quote.symm, if_pos rfl, if_pos rfl]

/-- Two quotes stand for one. -/
theorem read_twice : read d .quoted cell row (d.quote :: d.quote :: rest) = read d .quoted (d.quote :: cell) row rest := by
  rw [read, if_pos rfl, if_pos rfl, read, if_neg Mode.noConfusion, if_neg d.comma_ne_quote.symm,
    if_neg d.newline_ne_quote.symm, if_pos rfl, if_neg Mode.noConfusion, if_pos rfl]

/-- Characters that are not special make up a plain cell. -/
theorem read_plain (mode : Mode) (acc : List A) (unquoted : mode ≠ .quoted) (unclosed : mode ≠ .closed) (plain : ∀ x ∈ cell, ¬ Special d x) :
    ∃ mode', mode' ≠ .quoted ∧
      ∀ row rest, read d mode acc row (cell ++ rest) = read d mode' (cell.reverse ++ acc) row rest := by
  induction cell generalizing mode acc with
  | nil => exact ⟨mode, unquoted, fun row rest => rfl⟩
  | cons x cell ih =>
    obtain ⟨ordinary, plain⟩ := List.forall_mem_cons.mp plain
    simp only [Special, not_or] at ordinary
    obtain ⟨comma, quote, newline⟩ := ordinary
    obtain ⟨mode', unquoted', reads⟩ := ih .plain (x :: acc) Mode.noConfusion Mode.noConfusion plain
    refine ⟨mode', unquoted', fun row rest => ?_⟩
    rw [List.reverse_cons, List.append_assoc, List.singleton_append, ← reads row rest, List.cons_append, read,
      if_neg unquoted, if_neg comma, if_neg newline, if_neg quote, if_neg unclosed]

theorem read_double (cell acc rest : List A) :
    read d .quoted acc row (double d cell ++ rest) = read d .quoted (cell.reverse ++ acc) row rest := by
  induction cell generalizing acc with
  | nil => rfl
  | cons x cell ih =>
    rw [double, List.flatMap_cons, ← double, List.reverse_cons, List.append_assoc, List.append_assoc,
      List.singleton_append, ← ih (x :: acc)]
    by_cases quote : x = d.quote
    · rw [if_pos quote, quote]
      exact read_twice
    · rw [if_neg quote, List.singleton_append, read, if_pos rfl, if_neg quote]

/-- A cell that was written is read up to its end. -/
theorem read_encode (d : Dialect A) (cell : List A) : ∃ mode, mode ≠ .quoted ∧
    ∀ row rest, read d .start [] row (encode d cell ++ rest) = read d mode cell.reverse row rest := by
  by_cases special : ∃ x ∈ cell, Special d x
  · refine ⟨.closed, Mode.noConfusion, fun row rest => ?_⟩
    rw [encode, if_pos special, List.cons_append, List.append_assoc, read_open, read_double, List.singleton_append,
      List.append_nil, read, if_pos rfl, if_pos rfl]
  · have plain : ∀ x ∈ cell, ¬ Special d x := fun x member held => special ⟨x, member, held⟩
    obtain ⟨mode, unquoted, reads⟩ := read_plain (d := d) .start [] Mode.noConfusion Mode.noConfusion plain
    refine ⟨mode, unquoted, fun row rest => ?_⟩
    rw [encode, if_neg special, reads, List.append_nil]

theorem read_encodeRow (cells : List (List A)) (some_cell : cells ≠ []) (row : List (List A)) (rest : List A) :
    read d .start [] row (encodeRow d cells ++ rest) = (read d .start [] [] rest).map ((row.reverse ++ cells) :: ·) := by
  induction cells generalizing row with
  | nil => exact absurd rfl some_cell
  | cons cell cells ih =>
    obtain ⟨mode, unquoted, reads⟩ := read_encode d cell
    cases cells with
    | nil =>
      simp only [encodeRow, List.map_cons, List.map_nil, List.intercalate_singleton, List.append_assoc, List.singleton_append]
      rw [reads, read_newline unquoted, List.reverse_reverse, List.reverse_cons]
    | cons next cells =>
      have later := ih (List.cons_ne_nil _ _) (cell :: row)
      simp only [encodeRow, List.map_cons, List.intercalate_cons_cons, List.append_assoc, List.cons_append,
        List.nil_append] at later ⊢
      rw [reads, read_comma unquoted, List.reverse_reverse, later, List.reverse_cons, List.append_assoc,
        List.singleton_append]

/-- The rows that were written are the rows that are read. -/
theorem read_rows (rows : List (List (List A))) (nonempty : ∀ row ∈ rows, row ≠ []) :
    read d .start [] [] (rows.flatMap (encodeRow d)) = some rows := by
  induction rows with
  | nil => rfl
  | cons row rows ih =>
    obtain ⟨some_cell, nonempty⟩ := List.forall_mem_cons.mp nonempty
    rw [List.flatMap_cons, read_encodeRow row some_cell, ih nonempty]
    rfl

end Csv
