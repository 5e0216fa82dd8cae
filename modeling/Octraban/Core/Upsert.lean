import Mathlib.Data.List.AList
import Mathlib.Algebra.BigOperators.Group.List.Basic
import Mathlib.Algebra.Ring.Int.Defs
import Mathlib.Data.List.Induction

/-! A table with one row for each key, and INSERT … ON CONFLICT DO UPDATE on it. -/
namespace Sql

abbrev Table (K V : Type*) := AList fun _ : K => V

namespace Table
variable {K V : Type*} [DecidableEq K]

/-- `insert` is the row of a new key, `update` changes the row of a known one. -/
def upsert (t : Table K V) (k : K) (insert : V) (update : V → V) : Table K V :=
  t.insert k ((t.lookup k).elim insert update)

/-- UPDATE with the key in its WHERE clause. -/
def updateRow (t : Table K V) (k : K) (update : V → V) : Table K V :=
  (t.lookup k).elim t fun row => t.insert k (update row)

/-- UPDATE of the rows that a WHERE clause takes. -/
def updateMany (t : Table K V) (takes : V → Bool) (update : V → V) : Table K V where
  entries := t.entries.map (Sigma.map id fun _ row => if takes row then update row else row)
  nodupKeys := t.nodupKeys.map₂ _ _

/-- The sum of a column over the rows whose key counts. -/
def total (counts : K → Bool) (column : V → Int) (t : Table K V) : Int :=
  ((t.entries.filter fun row => counts row.1).map fun row => column row.2).sum

variable {t : Table K V} {j k : K} {insert row : V} {update : V → V}

theorem lookup_upsert_self :
    (t.upsert k insert update).lookup k = some ((t.lookup k).elim insert update) :=
  AList.lookup_insert t

theorem lookup_upsert_ne (other : j ≠ k) : (t.upsert k insert update).lookup j = t.lookup j :=
  AList.lookup_insert_ne other

section
variable {E : Type*} {key : E → K} {value : E → V} {elements : List E} {e : E}

/-- The row of a key that one element has, after all of them are written. -/
theorem lookup_foldl_upsert (t : Table K V) (member : e ∈ elements) (only : ∀ other ∈ elements, key other = key e → other = e) :
    (elements.foldl (fun t e => t.upsert (key e) (value e) fun _ => value e) t).lookup (key e) = some (value e) := by
  induction elements using List.reverseRecOn with
  | nil => cases member
  | append_singleton elements last ih =>
    rw [List.foldl_append, List.foldl_cons, List.foldl_nil]
    by_cases same : key last = key e
    · obtain rfl := only last (List.mem_append_right _ List.mem_cons_self) same
      rw [lookup_upsert_self]
      cases (List.foldl _ t elements).lookup (key last) <;> rfl
    · have earlier : e ∈ elements := by
        rcases List.mem_append.mp member with old | new
        · exact old
        · exact absurd (List.mem_singleton.mp new ▸ rfl) same
      rw [lookup_upsert_ne (Ne.symm same), ih earlier fun other inside => only other (List.mem_append_left _ inside)]

theorem lookup_foldl_upsert_ne (t : Table K V) (others : ∀ e ∈ elements, key e ≠ k) :
    (elements.foldl (fun t e => t.upsert (key e) (value e) fun _ => value e) t).lookup k = t.lookup k := by
  induction elements generalizing t with
  | nil => rfl
  | cons e elements ih =>
    obtain ⟨first, rest⟩ := List.forall_mem_cons.mp others
    rw [List.foldl_cons, ih _ rest, lookup_upsert_ne first.symm]

end

theorem lookup_updateRow_self : (t.updateRow k update).lookup k = (t.lookup k).map update := by
  unfold updateRow
  cases stored : t.lookup k with
  | none => simpa using stored
  | some row => exact AList.lookup_insert t

theorem lookup_updateRow_ne (other : j ≠ k) : (t.updateRow k update).lookup j = t.lookup j := by
  unfold updateRow
  cases t.lookup k with
  | none => rfl
  | some row => exact AList.lookup_insert_ne other

theorem lookup_updateMany {takes : V → Bool} :
    (t.updateMany takes update).lookup k = (t.lookup k).map fun row => if takes row then update row else row :=
  List.dlookup_map₂ k

/-- The entries of a key. -/
theorem entries_filter_key (t : Table K V) (k : K) :
    t.entries.filter (fun entry => entry.1 = k) = ((t.lookup k).map fun row => ⟨k, row⟩).toList := by
  have each (entries : List (Sigma fun _ : K => V)) (nodup : entries.NodupKeys) :
      entries.filter (fun entry => entry.1 = k) = ((entries.dlookup k).map fun row => (⟨k, row⟩ : Sigma fun _ : K => V)).toList := by
    induction entries with
    | nil => rfl
    | cons entry rest ih =>
      obtain ⟨fresh, nodup⟩ := List.nodupKeys_cons.mp nodup
      by_cases same : entry.1 = k
      · subst same
        rw [List.filter_cons_of_pos (by simp), ih nodup, List.dlookup_cons_eq, List.dlookup_eq_none.mpr fresh]
        rfl
      · rw [List.filter_cons_of_neg (by simpa using same), List.dlookup_cons_ne _ _ (Ne.symm same), ih nodup]
  exact each t.entries t.nodupKeys

/-- A key's row is changed by the statements for it, in their order. -/
theorem lookup_foldl_updateRow {E : Type*} {key : E → K} {change : E → V → V} (t : Table K V) (elements : List E) (k : K) :
    (elements.foldl (fun t e => t.updateRow (key e) (change e)) t).lookup k =
      (elements.filter fun e => key e = k).foldl (fun row e => row.map (change e)) (t.lookup k) := by
  induction elements generalizing t with
  | nil => rfl
  | cons e elements ih =>
    rw [List.foldl_cons, ih]
    by_cases same : key e = k
    · rw [List.filter_cons_of_pos (by simpa using same), List.foldl_cons, ← same, lookup_updateRow_self]
    · rw [List.filter_cons_of_neg (by simpa using same), lookup_updateRow_ne (Ne.symm same)]

/-- A loop over some of the rows of a table that updates each by its key. -/
theorem lookup_updateEach {takes : V → Bool} {change : V → V → V} (t : Table K V) (k : K) :
    ((t.entries.filter fun entry => takes entry.2).foldl (fun t entry => t.updateRow entry.1 (change entry.2)) t).lookup k =
      (t.lookup k).map fun row => if takes row then change row row else row := by
  rw [lookup_foldl_updateRow, List.filter_filter]
  have swapped : (t.entries.filter fun entry => decide (entry.1 = k) && takes entry.2) =
      (t.entries.filter fun entry => entry.1 = k).filter fun entry => takes entry.2 := by
    rw [List.filter_filter]
    exact List.filter_congr fun entry _ => Bool.and_comm _ _
  rw [swapped, entries_filter_key]
  cases t.lookup k with
  | none => rfl
  | some row =>
    cases taken : takes row <;> simp [taken]

/-- Writing a row adds its value and takes off the value it replaces. -/
theorem total_insert (counts : K → Bool) (column : V → Int) :
    total counts column (t.insert k row) =
      total counts column t + if counts k then column row - (t.lookup k).elim 0 column else 0 := by
  have entries : (t.insert k row).entries = ⟨k, row⟩ :: t.entries.kerase k := AList.entries_insert
  unfold total
  rw [entries, List.filter_cons]
  by_cases known : k ∈ t
  · obtain ⟨old, before, after, -, split, erased⟩ := List.exists_of_kerase known
    have stored : t.lookup k = some old := by
      apply AList.mem_lookup_iff.mpr
      rw [split]
      exact List.mem_append_right _ List.mem_cons_self
    rw [erased, split, stored, List.filter_append, List.filter_append, List.filter_cons]
    cases counts k with
    | false => simp
    | true =>
      simp
      omega
  · have unknown : t.lookup k = none := AList.lookup_eq_none.mpr known
    rw [List.kerase_of_notMem_keys known, unknown]
    cases counts k with
    | false => simp
    | true =>
      simp
      omega

theorem total_upsert (counts : K → Bool) (column : V → Int) :
    total counts column (t.upsert k insert update) = total counts column t +
      if counts k then (t.lookup k).elim (column insert) (fun row => column (update row) - column row)
      else 0 := by
  rw [upsert, total_insert]
  cases t.lookup k with
  | none => simp
  | some row => rfl

end Table

variable {S C W R : Type*} {run : S → C → S} {write : C → Option W}

/-- A cell that every statement overwrites or leaves alone keeps the last value written. -/
theorem read_foldl_lastWrite (read : S → R) (put : W → R → R)
    (step : ∀ s c, read (run s c) = (write c).elim (read s) fun value => put value (read s))
    (overwrites : ∀ value earlier cell, put value (put earlier cell) = put value cell)
    (s : S) (statements : List C) :
    read (statements.foldl run s) =
      (statements.filterMap write).getLast?.elim (read s) fun value => put value (read s) := by
  induction statements using List.reverseRecOn with
  | nil => rfl
  | append_singleton statements last ih =>
    rw [List.foldl_append, List.foldl_cons, List.foldl_nil, step, ih, List.filterMap_append]
    cases written : write last with
    | none => simp [written]
    | some value =>
      cases (statements.filterMap write).getLast? with
      | none => simp [written]
      | some earlier => simp [written, overwrites]

end Sql
