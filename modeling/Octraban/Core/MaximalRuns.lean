import Mathlib.Data.List.Basic
import Mathlib.Data.Int.Order.Basic

/-! The maximal runs of a set of integers: ranges in ascending order, none of which touches the next. -/
namespace MaximalRuns

structure IsRuns (holds : ℤ → Prop) (list : List (ℤ × ℤ)) : Prop where
  nonempty : ∀ range ∈ list, range.1 ≤ range.2
  separated : list.Pairwise fun range later => range.2 + 1 < later.1
  covers : ∀ q, holds q ↔ ∃ range ∈ list, range.1 ≤ q ∧ q ≤ range.2

variable {holds other : ℤ → Prop} {list list' : List (ℤ × ℤ)} {start stop q : ℤ}

theorem IsRuns.congr (runs : IsRuns holds list) (same : ∀ q, holds q ↔ other q) : IsRuns other list where
  nonempty := runs.nonempty
  separated := runs.separated
  covers q := (same q).symm.trans (runs.covers q)

theorem IsRuns.first (runs : IsRuns holds list) (member : range ∈ list) : holds range.1 :=
  (runs.covers range.1).mpr ⟨range, member, le_rfl, runs.nonempty range member⟩

/-- What lies beyond a range, and does not touch it, follows it. -/
theorem IsRuns.cons (runs : IsRuns holds list) (nonempty : start ≤ stop) (beyond : ∀ q, holds q → stop + 1 < q) :
    IsRuns (fun q => (start ≤ q ∧ q ≤ stop) ∨ holds q) ((start, stop) :: list) where
  nonempty := List.forall_mem_cons.mpr ⟨nonempty, runs.nonempty⟩
  separated := List.pairwise_cons.mpr ⟨fun _ member => beyond _ (runs.first member), runs.separated⟩
  covers q := by rw [List.exists_mem_cons_iff, ← runs.covers q]

/-- The runs after the first one are those of what lies beyond it. -/
theorem IsRuns.tail (runs : IsRuns holds ((start, stop) :: list)) : IsRuns (fun q => holds q ∧ stop < q) list := by
  obtain ⟨nonempty, later_nonempty⟩ := List.forall_mem_cons.mp runs.nonempty
  obtain ⟨apart, separated⟩ := List.pairwise_cons.mp runs.separated
  refine ⟨later_nonempty, separated, fun q => ?_⟩
  rw [runs.covers q, List.exists_mem_cons_iff]
  constructor
  · rintro ⟨inside | later, beyond⟩
    · exact absurd inside.2 (not_le.mpr beyond)
    · exact later
  · rintro ⟨range, member, inside⟩
    refine ⟨.inr ⟨range, member, inside⟩, ?_⟩
    have gap := apart range member
    dsimp only at gap
    omega

theorem IsRuns.start_le (runs : IsRuns holds ((start, stop) :: list)) (member : holds q) : start ≤ q := by
  have nonempty : start ≤ stop := runs.nonempty _ List.mem_cons_self
  rcases (List.exists_mem_cons_iff _ _ _).mp ((runs.covers q).mp member) with inside | ⟨range, later, inside⟩
  · exact inside.1
  · have gap : stop + 1 < range.1 := (List.pairwise_cons.mp runs.separated).1 range later
    omega

theorem IsRuns.notMem_after (runs : IsRuns holds ((start, stop) :: list)) : ¬ holds (stop + 1) := by
  intro member
  rcases (List.exists_mem_cons_iff _ _ _).mp ((runs.covers _).mp member) with inside | ⟨range, later, inside⟩
  · exact absurd inside.2 (by omega)
  · have gap : stop + 1 < range.1 := (List.pairwise_cons.mp runs.separated).1 range later
    omega

theorem IsRuns.stop_le (runs : IsRuns holds ((start, stop) :: list)) (runs' : IsRuns holds ((start, stop') :: list')) :
    stop ≤ stop' := by
  by_contra beyond
  have nonempty : start ≤ stop' := runs'.nonempty _ List.mem_cons_self
  apply runs'.notMem_after
  exact (runs.covers _).mpr ⟨(start, stop), List.mem_cons_self, by dsimp only; omega, by dsimp only; omega⟩

/-- A set has its runs once. The induction is on the one list, and the first runs of both begin
and end at the same places. -/
theorem IsRuns.unique (runs : IsRuns holds list) (runs' : IsRuns holds list') : list = list' := by
  induction list generalizing holds list' with
  | nil =>
    cases list' with
    | nil => rfl
    | cons range _ =>
      have member := runs'.first (List.mem_cons_self (a := range))
      simpa using (runs.covers _).mp member
  | cons range list ih =>
    obtain ⟨start, stop⟩ := range
    have first : holds start := runs.first (List.mem_cons_self (a := (start, stop)))
    cases list' with
    | nil => simpa using (runs'.covers _).mp first
    | cons range' list' =>
      obtain ⟨start', stop'⟩ := range'
      have first' : holds start' := runs'.first (List.mem_cons_self (a := (start', stop')))
      obtain rfl : start = start' := le_antisymm (runs.start_le first') (runs'.start_le first)
      obtain rfl : stop = stop' := le_antisymm (runs.stop_le runs') (runs'.stop_le runs)
      rw [ih runs.tail runs'.tail]

end MaximalRuns
