import Octraban.Core.Transition
import Mathlib.Order.Nat
import Mathlib.Tactic.ByContra

/-! Unending runs of a labelled system: what every state of one satisfies, and what comes about in
the end. -/
namespace Transition.System

structure Trace (M : System S A) where
  states : Nat → S
  labels : Nat → A
  starts : M.initial (states 0)
  steps : ∀ n, M.step (states n) (labels n) = some (states (n + 1))

namespace Trace
variable {M : System S A} {guard : S → A → Prop} {P : S → Prop} {D L : Nat → S → Prop} (trace : M.Trace)

theorem reachableWhen (guarded : ∀ n, guard (trace.states n) (trace.labels n)) (n : Nat) :
    M.ReachableWhen guard (trace.states n) := by
  induction n with
  | zero => exact .initial trace.starts
  | succ n ih => exact ih.step (guarded n) (trace.steps n)

/-- What steps keep from some time on holds for good. -/
theorem stays (keeps : ∀ i, m ≤ i → P (trace.states i) → P (trace.states (i + 1)))
    (holds : P (trace.states m)) (later : m ≤ n) : P (trace.states n) := by
  induction n, later using Nat.le_induction with
  | base => exact holds
  | succ n later ih => exact keeps n later ih

/-- What holds and later does not is lost in some step. -/
theorem lost_between (holds : P (trace.states m)) (later : m ≤ n) (gone : ¬ P (trace.states n)) :
    ∃ i, m ≤ i ∧ P (trace.states i) ∧ ¬ P (trace.states (i + 1)) := by
  by_contra kept
  refine gone (trace.stays (fun i after before => ?_) holds later)
  by_contra ended
  exact kept ⟨i, after, before, ended⟩

/-- Things that each come about, and then stay so, have come about together at some time. -/
theorem all_done (keeps : ∀ k i, D k (trace.states i) → D k (trace.states (i + 1))) (bound : Nat)
    (comes : ∀ k < bound, ∃ m, n ≤ m ∧ D k (trace.states m)) :
    ∃ m, n ≤ m ∧ ∀ k < bound, D k (trace.states m) := by
  induction bound with
  | zero => exact ⟨n, Nat.le_refl _, fun k small => absurd small (Nat.not_lt_zero k)⟩
  | succ bound ih =>
    obtain ⟨i, afterFirst, first⟩ := ih fun k small => comes k (Nat.lt_succ_of_lt small)
    obtain ⟨j, _, last⟩ := comes bound (Nat.lt_succ_self bound)
    refine ⟨max i j, afterFirst.trans (Nat.le_max_left i j), fun k small => ?_⟩
    have stays {i : Nat} (now : D k (trace.states i)) (later : i ≤ max i j) : D k (trace.states (max i j)) :=
      trace.stays (fun i _ => keeps k i) now later
    rcases Nat.lt_succ_iff_lt_or_eq.mp small with smaller | rfl
    · exact stays (first k smaller) (Nat.le_max_left i j)
    · exact trace.stays (fun i _ => keeps k i) last (Nat.le_max_right i j)

/-- When every level is left for the next one in the end, all of them are reached. -/
theorem climbs (raise : ∀ l i, n ≤ i → L l (trace.states i) → ∃ m, i ≤ m ∧ L (l + 1) (trace.states m))
    (start : L 0 (trace.states n)) (l : Nat) : ∃ m, n ≤ m ∧ L l (trace.states m) := by
  induction l with
  | zero => exact ⟨n, Nat.le_refl n, start⟩
  | succ l ih =>
    obtain ⟨i, after, reached⟩ := ih
    obtain ⟨m, later, raised⟩ := raise l i after reached
    exact ⟨m, after.trans later, raised⟩

end Trace
end Transition.System
