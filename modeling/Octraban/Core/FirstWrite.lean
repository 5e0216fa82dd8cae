import Octraban.Core.Upsert
import Mathlib.Algebra.BigOperators.Group.Finset.Basic

/-! Rows inserted ON CONFLICT DO NOTHING: of the rows with one key, the first stays. -/
namespace Sql
variable {K V : Type*} [DecidableEq K] (key : V → K) (column : V → Int)

/-- The rows that are the first with their key, where some keys have been seen before. -/
def firsts : List K → List V → List V
  | _, [] => []
  | seen, row :: rows => if key row ∈ seen then firsts seen rows else row :: firsts (key row :: seen) rows

def Table.insertNew (t : Table K V) (row : V) : Table K V := t.upsert (key row) row id

variable {key column} {row : V} {rows others : List V} {seen : List K} {t : Table K V}

theorem firsts_cons_of_mem (known : key row ∈ seen) : firsts key seen (row :: rows) = firsts key seen rows :=
  if_pos known

theorem firsts_cons_of_notMem (new : key row ∉ seen) :
    firsts key seen (row :: rows) = row :: firsts key (key row :: seen) rows :=
  if_neg new

theorem mem_of_mem_firsts (member : row ∈ firsts key seen rows) : row ∈ rows := by
  induction rows generalizing seen with
  | nil => exact member
  | cons first rows ih =>
    by_cases known : key first ∈ seen
    · rw [firsts_cons_of_mem known] at member
      exact List.mem_cons_of_mem _ (ih member)
    · rw [firsts_cons_of_notMem known] at member
      rcases List.mem_cons.mp member with rfl | later
      · exact List.mem_cons_self
      · exact List.mem_cons_of_mem _ (ih later)

/-- What comes later drops no row. -/
theorem mem_firsts_append (member : row ∈ firsts key seen rows) (others : List V) :
    row ∈ firsts key seen (rows ++ others) := by
  induction rows generalizing seen with
  | nil => cases member
  | cons first rows ih =>
    rw [List.cons_append]
    by_cases known : key first ∈ seen
    · rw [firsts_cons_of_mem known] at member ⊢
      exact ih member
    · rw [firsts_cons_of_notMem known, List.mem_cons] at member ⊢
      exact member.imp_right ih

theorem mem_keys_firsts {k : K} : k ∈ (firsts key seen rows).map key ↔ k ∈ rows.map key ∧ k ∉ seen := by
  induction rows generalizing seen with
  | nil => simp [firsts]
  | cons first rows ih =>
    rw [List.map_cons, List.mem_cons]
    by_cases known : key first ∈ seen
    · rw [firsts_cons_of_mem known, ih]
      constructor
      · rintro ⟨later, new⟩
        exact ⟨.inr later, new⟩
      · rintro ⟨rfl | later, new⟩
        · exact absurd known new
        · exact ⟨later, new⟩
    · rw [firsts_cons_of_notMem known, List.map_cons, List.mem_cons, ih, List.mem_cons]
      by_cases same : k = key first
      · subst same
        simp [known]
      · simp [same]

theorem nodup_keys_firsts : ((firsts key seen rows).map key).Nodup := by
  induction rows generalizing seen with
  | nil => exact List.nodup_nil
  | cons first rows ih =>
    by_cases known : key first ∈ seen
    · rw [firsts_cons_of_mem known]
      exact ih
    · rw [firsts_cons_of_notMem known]
      refine List.nodup_cons.mpr ⟨fun again => ?_, ih⟩
      exact (mem_keys_firsts.mp again).2 List.mem_cons_self

theorem firsts_congr {known : List K} (same : ∀ row ∈ rows, key row ∈ seen ↔ key row ∈ known) :
    firsts key seen rows = firsts key known rows := by
  induction rows generalizing seen known with
  | nil => rfl
  | cons row rows ih =>
    have later : ∀ other ∈ rows, key other ∈ seen ↔ key other ∈ known :=
      fun other member => same other (List.mem_cons_of_mem _ member)
    by_cases found : key row ∈ seen
    · rw [firsts_cons_of_mem found, firsts_cons_of_mem ((same row List.mem_cons_self).mp found), ih later]
    · have unknown : key row ∉ known := fun found' => found ((same row List.mem_cons_self).mpr found')
      rw [firsts_cons_of_notMem found, firsts_cons_of_notMem unknown]
      congr 1
      apply ih
      intro other member
      rw [List.mem_cons, List.mem_cons, later other member]

/-- Where rows of one key have one value, only the keys of rows with a value count. -/
theorem sum_firsts_congr (kept : ∀ k ∈ others.map key, k ∈ rows.map key)
    (extra : ∀ row ∈ rows, key row ∈ others.map key ∨ column row = 0)
    (agree : ∀ row ∈ rows, ∀ other ∈ rows ++ others, key row = key other → column row = column other) :
    ((firsts key [] rows).map column).sum = ((firsts key [] others).map column).sum := by
  let value (k : K) : Int := (rows.find? fun row => key row = k).elim 0 column
  have valued : ∀ row ∈ rows ++ others, column row = value (key row) := by
    intro row member
    have stored : key row ∈ rows.map key := by
      rcases List.mem_append.mp member with own | other
      · exact List.mem_map_of_mem own
      · exact kept _ (List.mem_map_of_mem other)
    obtain ⟨first, among, same⟩ := List.mem_map.mp stored
    cases found : rows.find? fun other => key other = key row with
    | none => exact absurd (List.find?_eq_none.mp found first among) (by simp [same])
    | some other =>
      have same : key other = key row := by simpa using List.find?_some found
      simp only [value, found]
      exact (agree other (List.mem_of_find?_eq_some found) row member same).symm
  have sums : ∀ part, (∀ row ∈ part, row ∈ rows ++ others) →
      ((firsts key [] part).map column).sum = ∑ k ∈ (part.map key).toFinset, value k := by
    intro part within
    have keysOnce : ((firsts key [] part).map key).toFinset = (part.map key).toFinset := by
      ext k
      rw [List.mem_toFinset, List.mem_toFinset, mem_keys_firsts]
      simp
    rw [← keysOnce, List.sum_toFinset value nodup_keys_firsts, List.map_map]
    congr 1
    refine List.map_congr_left fun row member => ?_
    exact valued row (within row (mem_of_mem_firsts member))
  rw [sums rows fun _ => List.mem_append_left _, sums others fun _ => List.mem_append_right _]
  symm
  apply Finset.sum_subset
  · intro k member
    exact List.mem_toFinset.mpr (kept k (List.mem_toFinset.mp member))
  · intro k member missing
    obtain ⟨row, among, rfl⟩ := List.mem_map.mp (List.mem_toFinset.mp member)
    rw [← valued row (List.mem_append_left _ among)]
    exact (extra row among).resolve_left fun found => missing (List.mem_toFinset.mpr found)

theorem total_foldl_insertNew (keys : ∀ k, k ∈ seen ↔ k ∈ t) :
    (rows.foldl (Table.insertNew key) t).total (fun _ => true) column =
      t.total (fun _ => true) column + ((firsts key seen rows).map column).sum := by
  induction rows generalizing t seen with
  | nil => simp [firsts]
  | cons row rows ih =>
    have member : ∀ k, k ∈ t.insertNew key row ↔ k = key row ∨ k ∈ t := fun k => AList.mem_insert t
    rw [List.foldl_cons]
    by_cases known : key row ∈ seen
    · have same : ∀ k, k ∈ seen ↔ k ∈ t.insertNew key row := by
        intro k
        rw [member, ← keys]
        constructor
        · exact .inr
        · rintro (rfl | old)
          · exact known
          · exact old
      obtain ⟨old, stored⟩ := Option.isSome_iff_exists.mp (AList.lookup_isSome.mpr ((keys _).mp known))
      rw [ih same, firsts_cons_of_mem known, Table.insertNew, Table.total_upsert, stored]
      simp
    · have grown : ∀ k, k ∈ key row :: seen ↔ k ∈ t.insertNew key row := by
        intro k
        rw [member, List.mem_cons, keys]
      have unknown : t.lookup (key row) = none := AList.lookup_eq_none.mpr fun stored => known ((keys _).mpr stored)
      rw [ih grown, firsts_cons_of_notMem known, Table.insertNew, Table.total_upsert, unknown, List.map_cons,
        List.sum_cons, if_pos rfl, Option.elim_none, Int.add_assoc]

end Sql
