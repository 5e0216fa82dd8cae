import Mathlib.Data.List.Nodup

/-! Positions in a list that is sorted by a strict order. -/
namespace Sorting

variable {α β : Type*} [DecidableEq β] {before : α → α → Prop} {name : α → β}

theorem idxOf_cons_pos {x y : β} {rest : List β} (other : y ≠ x) : 0 < (x :: rest).idxOf y := by
  rw [List.idxOf_cons_ne _ other.symm]
  exact Nat.succ_pos _

/-- The earlier of two elements is the smaller one. -/
theorem idxOf_lt_idxOf_iff (asymm : ∀ a b, before a b → ¬ before b a) {items : List α}
    (sorted : items.Pairwise before) (distinct : (items.map name).Nodup) {a b : α} (left : a ∈ items)
    (right : b ∈ items) : (items.map name).idxOf (name a) < (items.map name).idxOf (name b) ↔ before a b := by
  induction items with
  | nil => cases left
  | cons first rest ih =>
    obtain ⟨smallest, sorted⟩ := List.pairwise_cons.mp sorted
    rw [List.map_cons] at distinct ⊢
    obtain ⟨fresh, distinct⟩ := List.nodup_cons.mp distinct
    have other (c : α) (member : c ∈ rest) : name c ≠ name first :=
      fun same => fresh (same ▸ List.mem_map_of_mem member)
    rcases List.mem_cons.mp left with rfl | left_in <;> rcases List.mem_cons.mp right with rfl | right_in
    · exact iff_of_false (Nat.lt_irrefl _) fun less => asymm _ _ less less
    · refine iff_of_true ?_ (smallest b right_in)
      rw [List.idxOf_cons_self]
      exact idxOf_cons_pos (other b right_in)
    · refine iff_of_false ?_ (asymm _ _ (smallest a left_in))
      rw [List.idxOf_cons_self]
      exact Nat.not_lt_zero _
    · rw [List.idxOf_cons_ne _ (other a left_in).symm, List.idxOf_cons_ne _ (other b right_in).symm,
        Nat.succ_lt_succ_iff]
      exact ih sorted distinct left_in right_in

/-- A stable sort by a comparison whose ties the elements' own order breaks. -/
theorem pairwise_of_mergeSort {le : α → α → Bool} (trans : ∀ a b c, le a b = true → le b c = true → le a c = true)
    (total : ∀ a b, (le a b || le b a) = true) {items : List α}
    (strict : ∀ a ∈ items, ∀ b ∈ items, a ≠ b → le a b = true → before a b) (distinct : items.Nodup) :
    (items.mergeSort le).Pairwise before := by
  have sorted := List.pairwise_mergeSort trans total items
  have nodup : (items.mergeSort le).Nodup := (List.mergeSort_perm items le).nodup_iff.mpr distinct
  refine (sorted.and nodup).imp_of_mem ?_
  rintro a b left right ⟨less, other⟩
  exact strict a (List.mem_mergeSort.mp left) b (List.mem_mergeSort.mp right) other less

/-- A stable sort keeps the order of the elements that tie. -/
theorem filter_mergeSort {le : α → α → Bool} (trans : ∀ a b c, le a b = true → le b c = true → le a c = true)
    (total : ∀ a b, (le a b || le b a) = true) {tied : α → Bool}
    (together : ∀ a b, tied a = true → tied b = true → le a b = true) (items : List α) :
    (items.mergeSort le).filter tied = items.filter tied := by
  have ordered : (items.filter tied).Pairwise fun a b => le a b = true := by
    refine List.Pairwise.imp_of_mem (fun left right _ => ?_) (List.pairwise_of_forall (fun _ _ => trivial))
    exact together _ _ (List.of_mem_filter left) (List.of_mem_filter right)
  have kept := (List.sublist_mergeSort trans total ordered List.filter_sublist).filter tied
  rw [List.filter_filter] at kept
  simp only [Bool.and_self] at kept
  exact (kept.eq_of_length ((List.mergeSort_perm items le).filter tied).length_eq.symm).symm

section
variable {A B : Type*} {cmp : A → A → Ordering} [Std.TransCmp cmp]

/-- Elements compare as their images do. -/
theorem transCmp_on (cmp : A → A → Ordering) [Std.TransCmp cmp] (f : B → A) : Std.TransCmp fun a b => cmp (f a) (f b) where
  eq_swap := Std.OrientedCmp.eq_swap
  isLE_trans := Std.TransCmp.isLE_trans

theorem isLE_total (a b : A) : ((cmp a b).isLE || (cmp b a).isLE) = true := by
  have swapped : cmp b a = (cmp a b).swap := Std.OrientedCmp.eq_swap
  rw [swapped]
  cases cmp a b <;> rfl

theorem pairwise_isLE (items : List A) : (items.mergeSort fun a b => (cmp a b).isLE).Pairwise fun a b => (cmp a b).isLE = true :=
  List.pairwise_mergeSort (fun _ _ _ => Std.TransCmp.isLE_trans) isLE_total items

/-- Where only equal elements tie, the order is unique. -/
theorem eq_of_perm_of_pairwise {xs ys : List A} (perm : xs.Perm ys) (left : xs.Pairwise fun a b => (cmp a b).isLE = true)
    (right : ys.Pairwise fun a b => (cmp a b).isLE = true) (ties : ∀ a ∈ xs, ∀ b ∈ xs, cmp a b = .eq → a = b) : xs = ys := by
  refine List.Perm.eq_of_pairwise (fun a b first second before after => ?_) left right perm
  exact ties a first b (perm.mem_iff.mpr second) (Std.OrientedCmp.isLE_antisymm before after)

/-- A sort keeps the order of the elements that tie with one. -/
theorem filter_tied (a : A) (items : List A) :
    (items.mergeSort fun a b => (cmp a b).isLE).filter (fun x => cmp x a = .eq) = items.filter fun x => cmp x a = .eq := by
  refine filter_mergeSort (fun _ _ _ => Std.TransCmp.isLE_trans) isLE_total (fun x y left right => ?_) items
  have before : (cmp x a).isLE = true := by rw [of_decide_eq_true left]; rfl
  have after : (cmp a y).isLE = true := by rw [Std.OrientedCmp.eq_symm (of_decide_eq_true right)]; rfl
  exact Std.TransCmp.isLE_trans before after

/-- A sorted list is known by the rows of elements that tie. -/
theorem eq_of_tied {xs ys : List A} (perm : xs.Perm ys) (left : xs.Pairwise fun a b => (cmp a b).isLE = true)
    (right : ys.Pairwise fun a b => (cmp a b).isLE = true)
    (rows : ∀ a, xs.filter (fun x => cmp x a = .eq) = ys.filter fun x => cmp x a = .eq) : xs = ys := by
  induction xs generalizing ys with
  | nil => exact (List.nil_perm.mp perm).symm
  | cons x xs ih =>
    cases ys with
    | nil => exact absurd perm.symm (List.nil_perm.not.mpr (List.cons_ne_nil _ _))
    | cons y ys =>
      obtain ⟨least, later_left⟩ := List.pairwise_cons.mp left
      obtain ⟨smallest, later_right⟩ := List.pairwise_cons.mp right
      have reflexive (a : A) : cmp a a = .eq := Std.ReflCmp.compare_self
      have self (a : A) : (cmp a a).isLE = true := by
        rw [reflexive]
        rfl
      have before : (cmp x y).isLE = true := by
        rcases List.mem_cons.mp (perm.mem_iff.mpr List.mem_cons_self) with rfl | later
        · exact self _
        · exact least y later
      have after : (cmp y x).isLE = true := by
        rcases List.mem_cons.mp (perm.mem_iff.mp List.mem_cons_self) with rfl | later
        · exact self _
        · exact smallest x later
      have first := rows x
      rw [List.filter_cons_of_pos (by simpa using reflexive x),
        List.filter_cons_of_pos (by simpa using Std.OrientedCmp.isLE_antisymm after before)] at first
      obtain ⟨rfl, -⟩ := List.cons.inj first
      refine congrArg (x :: ·) (ih (List.perm_cons x |>.mp perm) later_left later_right fun a => ?_)
      have row := rows a
      by_cases tied : cmp x a = .eq
      · rw [List.filter_cons_of_pos (by simpa using tied), List.filter_cons_of_pos (by simpa using tied)] at row
        exact (List.cons.inj row).2
      · rwa [List.filter_cons_of_neg (by simpa using tied), List.filter_cons_of_neg (by simpa using tied)] at row

end

end Sorting
