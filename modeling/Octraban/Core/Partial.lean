import Mathlib.Data.List.Forall2

/-! Partial functions that run along a list and stop at the first failure. -/
namespace Partial

variable {α β : Type*} {f : α → Option β} {xs : List α} {ys : List β}

theorem mapM_eq_some_iff : xs.mapM f = some ys ↔ List.Forall₂ (fun x y => f x = some y) xs ys := by
  induction xs generalizing ys with
  | nil =>
    rw [List.mapM_nil, List.forall₂_nil_left_iff]
    exact ⟨fun same => (Option.some.inj same).symm, fun same => same ▸ rfl⟩
  | cons x rest ih =>
    rw [List.mapM_cons, List.forall₂_cons_left_iff]
    simp only [Option.bind_eq_bind, Option.bind_eq_some_iff, Option.pure_def, Option.some_inj, ih]
    constructor
    · rintro ⟨y, first, tail, others, rfl⟩
      exact ⟨y, tail, first, others, rfl⟩
    · rintro ⟨y, tail, first, others, rfl⟩
      exact ⟨y, first, tail, others, rfl⟩

/-- A list comes out as it went in when each of its elements does. -/
theorem mapM_eq_self_iff {f : α → Option α} : xs.mapM f = some xs ↔ ∀ x ∈ xs, f x = some x := by
  rw [mapM_eq_some_iff, List.forall₂_same]

theorem isSome_mapM_iff : (xs.mapM f).isSome ↔ ∀ x ∈ xs, (f x).isSome := by
  induction xs with
  | nil => simp
  | cons x rest ih =>
    rw [List.forall_mem_cons, ← ih, List.mapM_cons]
    cases f x <;> cases rest.mapM f <;> simp

/-- What corresponds on both sides of a list of results. -/
theorem forall_iff_of_forall₂ {R : α → β → Prop} {P : α → Prop} {Q : β → Prop} (related : List.Forall₂ R xs ys)
    (each : ∀ x y, R x y → (Q y ↔ P x)) : (∀ y ∈ ys, Q y) ↔ ∀ x ∈ xs, P x := by
  induction related with
  | nil => simp
  | cons first _ ih => simp only [List.forall_mem_cons, each _ _ first, ih]

theorem exists_of_forall₂ {R : α → β → Prop} (related : List.Forall₂ R xs ys) {x : α} (member : x ∈ xs) :
    ∃ y ∈ ys, R x y := by
  induction related with
  | nil => cases member
  | cons first _ ih =>
    rcases List.mem_cons.mp member with rfl | later
    · exact ⟨_, List.mem_cons_self, first⟩
    · obtain ⟨y, inside, holds⟩ := ih later
      exact ⟨y, List.mem_cons_of_mem _ inside, holds⟩

section
variable {σ : Type*} {step : σ → α → Option σ}

theorem foldlM_cons_eq_some {x : α} {s t : σ} :
    (x :: xs).foldlM step s = some t ↔ ∃ u, step s x = some u ∧ xs.foldlM step u = some t := by
  rw [List.foldlM_cons]
  exact Option.bind_eq_some_iff

/-- A loop comes to its end when no step of it fails. -/
theorem isSome_foldlM_iff {P : α → Prop} (each : ∀ s x, (step s x).isSome ↔ P x) (s : σ) :
    (xs.foldlM step s).isSome ↔ ∀ x ∈ xs, P x := by
  induction xs generalizing s with
  | nil => exact iff_of_true rfl fun x member => nomatch member
  | cons x rest ih =>
    rw [List.foldlM_cons, List.forall_mem_cons, ← each s x]
    cases stepped : step s x with
    | none => exact iff_of_false Bool.false_ne_true fun both => absurd both.1 Bool.false_ne_true
    | some u => exact (ih u).trans (and_iff_right rfl).symm

/-- Each step of a loop that comes to its end is made from some state. -/
theorem exists_of_foldlM {s t : σ} (ran : xs.foldlM step s = some t) {x : α} (member : x ∈ xs) : ∃ u v, step u x = some v := by
  induction xs generalizing s with
  | nil => cases member
  | cons y rest ih =>
    obtain ⟨u, stepped, ran⟩ := foldlM_cons_eq_some.mp ran
    rcases List.mem_cons.mp member with rfl | later
    · exact ⟨s, u, stepped⟩
    · exact ih ran later

end

end Partial
