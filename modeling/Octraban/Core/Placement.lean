import Mathlib.Data.List.Basic
import Mathlib.Tactic.Linarith

/-! Positions at which the symbols of a pattern occur in a text in their order, and the gaps between them. -/
namespace Octraban

structure Placement {α : Type*} (text pattern : List α) where
  positions : List ℕ
  increasing : positions.Pairwise (· < ·)
  symbols : positions.map (text[·]?) = pattern.map some

/-- How many symbols stand strictly between one position and the next. -/
def gapsOf : List ℕ → List ℕ
  | i :: j :: rest => (j - i - 1) :: gapsOf (j :: rest)
  | _ => []

namespace Placement
variable {α : Type*} {text pattern : List α} {symbol : α} {positions rest : List ℕ} {first start stop bound : ℕ}

def gaps (p : Placement text pattern) : List ℕ := gapsOf p.positions

/-- The gaps reach from the first position to the last. -/
theorem span (increasing : (first :: rest).Pairwise (· < ·)) :
    (∀ i ∈ first :: rest, i ≤ first + rest.length + (gapsOf (first :: rest)).sum) ∧
      first + rest.length + (gapsOf (first :: rest)).sum ∈ first :: rest := by
  induction rest generalizing first with
  | nil => exact ⟨fun i member => (List.mem_singleton.mp member).le, List.mem_cons_self⟩
  | cons second rest ih =>
    obtain ⟨before, increasing⟩ := List.pairwise_cons.mp increasing
    obtain ⟨bounded, reached⟩ := ih increasing
    have less := before second List.mem_cons_self
    have same : first + (second :: rest).length + (gapsOf (first :: second :: rest)).sum =
        second + rest.length + (gapsOf (second :: rest)).sum := by
      rw [gapsOf, List.sum_cons, List.length_cons]
      omega
    rw [same]
    refine ⟨List.forall_mem_cons.mpr ⟨?_, bounded⟩, List.mem_cons_of_mem _ reached⟩
    omega

theorem sum_le_iff (increasing : (first :: rest).Pairwise (· < ·)) : (gapsOf (first :: rest)).sum ≤ bound ↔
    ∀ i ∈ rest, first + 1 ≤ i ∧ i < first + 1 + rest.length + bound := by
  obtain ⟨bounded, reached⟩ := span increasing
  have before := (List.pairwise_cons.mp increasing).1
  constructor
  · intro small i member
    have low := before i member
    have high := bounded i (List.mem_cons_of_mem _ member)
    omega
  · intro within
    rcases List.mem_cons.mp reached with empty | member
    · omega
    · have high := (within _ member).2
      omega

theorem sublist_drop (increasing : positions.Pairwise (· < ·)) (symbols : positions.map (text[·]?) = pattern.map some)
    (later : ∀ i ∈ positions, start ≤ i) : pattern.Sublist (text.drop start) := by
  induction positions generalizing pattern start with
  | nil =>
    rw [List.map_eq_nil_iff.mp symbols.symm]
    exact List.nil_sublist _
  | cons i positions ih =>
    cases pattern with
    | nil => cases symbols
    | cons symbol pattern =>
      obtain ⟨here, symbols⟩ := List.cons.inj symbols
      obtain ⟨before, increasing⟩ := List.pairwise_cons.mp increasing
      have tail : pattern.Sublist (text.drop (i + 1)) := ih increasing symbols before
      obtain ⟨inside, same⟩ := List.getElem?_eq_some_iff.mp here
      refine List.Sublist.trans ?_ (List.drop_sublist_drop_left text (later i List.mem_cons_self))
      rw [List.drop_eq_getElem_cons inside, same]
      exact tail.cons_cons symbol

theorem exists_of_sublist_drop (sublist : pattern.Sublist (text.drop start)) : ∃ positions : List ℕ,
    positions.Pairwise (· < ·) ∧ positions.map (text[·]?) = pattern.map some ∧ ∀ i ∈ positions, start ≤ i := by
  obtain ⟨indices, same, increasing⟩ := List.sublist_eq_map_getElem sublist
  refine ⟨indices.map fun i : Fin _ => start + i.val, ?_, ?_, ?_⟩
  · exact List.pairwise_map.mpr (increasing.imp fun less => Nat.add_lt_add_left less start)
  · rw [same, List.map_map, List.map_map]
    refine List.map_congr_left fun i _ => ?_
    have inside : start + i.val < text.length := Nat.add_lt_of_lt_sub' (List.length_drop ▸ i.isLt)
    simp [List.getElem?_eq_getElem inside]
  · intro i member
    obtain ⟨index, -, rfl⟩ := List.mem_map.mp member
    exact Nat.le_add_right start index

/-- All gaps together are small where the rest of the pattern follows its first symbol closely. -/
theorem exists_sum_le_iff : (∃ p : Placement text (symbol :: pattern), p.gaps.sum ≤ bound) ↔
    ∃ start, text[start]? = some symbol ∧
      pattern.Sublist ((text.take (start + 1 + pattern.length + bound)).drop (start + 1)) := by
  constructor
  · rintro ⟨⟨positions, increasing, symbols⟩, small⟩
    cases positions with
    | nil => cases symbols
    | cons first rest =>
      obtain ⟨here, symbols⟩ := List.cons.inj symbols
      have within := (sum_le_iff increasing).mp small
      have lengths : rest.length = pattern.length := by simpa using congrArg List.length symbols
      rw [lengths] at within
      refine ⟨first, here, sublist_drop (List.pairwise_cons.mp increasing).2 ?_ fun i member => (within i member).1⟩
      rw [← symbols]
      exact List.map_congr_left fun i member => List.getElem?_take_of_lt (within i member).2
  · rintro ⟨start, here, sublist⟩
    obtain ⟨rest, increasing, symbols, later⟩ := exists_of_sublist_drop sublist
    have lengths : rest.length = pattern.length := by simpa using congrArg List.length symbols
    have inside (i : ℕ) (member : i ∈ rest) : i < start + 1 + pattern.length + bound := by
      have found := symbols ▸ List.mem_map_of_mem (f := ((text.take _)[·]?)) member
      obtain ⟨symbol, -, same⟩ := List.mem_map.mp found
      obtain ⟨bound, -⟩ := List.getElem?_eq_some_iff.mp same.symm
      exact bound.trans_le (List.length_take_le _ _)
    have increasing : (start :: rest).Pairwise (· < ·) := List.pairwise_cons.mpr ⟨later, increasing⟩
    have symbols : rest.map (text[·]?) = pattern.map some := by
      rw [← symbols]
      exact List.map_congr_left fun i member => (List.getElem?_take_of_lt (inside i member)).symm
    refine ⟨⟨start :: rest, increasing, ?_⟩, (sum_le_iff increasing).mpr fun i member => ?_⟩
    · rw [List.map_cons, List.map_cons, here, symbols]
    · rw [lengths]
      exact ⟨later i member, inside i member⟩

end Placement
end Octraban
