import Mathlib.Data.List.Basic
import Mathlib.Order.Bounds.Basic
import Mathlib.Order.MinMax

/-! The edit distance of two lists: how many single edits, each of which inserts, deletes or replaces
one element, lead from the one to the other. Alignments connect it with the recursion that computes it. -/
namespace EditDistance

variable {A : Type*}

inductive Edit : List A → List A → Prop
  | insert (left : List A) (x : A) (right : List A) : Edit (left ++ right) (left ++ x :: right)
  | delete (left : List A) (x : A) (right : List A) : Edit (left ++ x :: right) (left ++ right)
  | replace (left : List A) (x y : A) (right : List A) : Edit (left ++ x :: right) (left ++ y :: right)

/-- So many edits, one after the other. -/
inductive Edits : ℕ → List A → List A → Prop
  | none (a : List A) : Edits 0 a a
  | more (first : Edit a b) (rest : Edits n b c) : Edits (n + 1) a c

/-- The elements of one list against those of the other, in order, at the cost of what differs. -/
inductive Aligned : ℕ → List A → List A → Prop
  | nil : Aligned 0 [] []
  | keep (x : A) (rest : Aligned n a b) : Aligned n (x :: a) (x :: b)
  | replace (x y : A) (rest : Aligned n a b) : Aligned (n + 1) (x :: a) (y :: b)
  | delete (x : A) (rest : Aligned n a b) : Aligned (n + 1) (x :: a) b
  | insert (y : A) (rest : Aligned n a b) : Aligned (n + 1) a (y :: b)

/-- The recursion over both lists. Equal heads are kept. -/
def distance [DecidableEq A] : List A → List A → ℕ
  | [], b => b.length
  | a, [] => a.length
  | x :: a, y :: b =>
    if x = y then distance a b
    else 1 + min (distance (x :: a) b) (min (distance a (y :: b)) (distance a b))

variable {a b c : List A} {m n : ℕ}

/-! ### Edits -/

theorem Edit.symm (edit : Edit a b) : Edit b a := by
  cases edit with
  | insert left x right => exact .delete left x right
  | delete left x right => exact .insert left x right
  | replace left x y right => exact .replace left y x right

theorem Edit.cons (edit : Edit a b) (x : A) : Edit (x :: a) (x :: b) := by
  cases edit with
  | insert left y right => exact .insert (x :: left) y right
  | delete left y right => exact .delete (x :: left) y right
  | replace left y z right => exact .replace (x :: left) y z right

theorem Edit.reverse (edit : Edit a b) : Edit a.reverse b.reverse := by
  cases edit with
  | insert left x right =>
    simpa using Edit.insert right.reverse x left.reverse
  | delete left x right =>
    simpa using Edit.delete right.reverse x left.reverse
  | replace left x y right =>
    simpa using Edit.replace right.reverse x y left.reverse

theorem Edits.one (edit : Edit a b) : Edits 1 a b := .more edit (.none b)

theorem Edits.trans (first : Edits m a b) (second : Edits n b c) : Edits (m + n) a c := by
  induction first with
  | none a =>
    rw [Nat.zero_add]
    exact second
  | more edit _ ih =>
    rw [Nat.add_right_comm]
    exact .more edit (ih second)

theorem Edits.symm (edits : Edits n a b) : Edits n b a := by
  induction edits with
  | none a => exact .none a
  | more edit _ ih => exact ih.trans (.one edit.symm)

theorem Edits.cons (edits : Edits n a b) (x : A) : Edits n (x :: a) (x :: b) := by
  induction edits with
  | none a => exact .none (x :: a)
  | more edit _ ih => exact .more (edit.cons x) ih

theorem Edits.reverse (edits : Edits n a b) : Edits n a.reverse b.reverse := by
  induction edits with
  | none a => exact .none a.reverse
  | more edit _ ih => exact .more edit.reverse ih

theorem edits_reverse_iff : Edits n a.reverse b.reverse ↔ Edits n a b := by
  constructor
  · intro edits
    simpa using edits.reverse
  · exact Edits.reverse

theorem edits_zero_iff : Edits 0 a b ↔ a = b := by
  constructor
  · intro edits
    cases edits
    rfl
  · rintro rfl
    exact .none a

/-! ### Alignments -/

theorem Aligned.refl (a : List A) : Aligned 0 a a := by
  induction a with
  | nil => exact .nil
  | cons x a ih => exact ih.keep x

theorem Aligned.append_left (aligned : Aligned n a b) (left : List A) : Aligned n (left ++ a) (left ++ b) := by
  induction left with
  | nil => exact aligned
  | cons x left ih => exact ih.keep x

theorem Aligned.edits (aligned : Aligned n a b) : Edits n a b := by
  induction aligned with
  | nil => exact .none []
  | keep x _ ih => exact ih.cons x
  | replace x y _ ih => exact .more (.replace [] x y _) (ih.cons y)
  | delete x _ ih => exact .more (.delete [] x _) ih
  | insert y _ ih => exact ih.trans (.one (.insert [] y _))

theorem Edit.aligned (edit : Edit a b) : Aligned 1 a b := by
  cases edit with
  | insert left x right => exact ((Aligned.refl right).insert x).append_left left
  | delete left x right => exact ((Aligned.refl right).delete x).append_left left
  | replace left x y right => exact ((Aligned.refl right).replace x y).append_left left

/-- Induction on an alignment up to the place where it consumes the head of the first list. -/
@[elab_as_elim]
theorem Aligned.consume {y : A} {b : List A} {motive : ℕ → List A → Prop}
    (keep : ∀ n c, Aligned n b c → motive n (y :: c))
    (replace : ∀ n z c, Aligned n b c → motive (n + 1) (z :: c))
    (delete : ∀ n c, Aligned n b c → motive (n + 1) c)
    (insert : ∀ n z c, motive n c → motive (n + 1) (z :: c))
    {n : ℕ} {c : List A} (aligned : Aligned n (y :: b) c) : motive n c := by
  generalize whole : y :: b = a at aligned
  induction aligned with
  | nil => cases whole
  | keep _ rest =>
    cases whole
    exact keep _ _ rest
  | replace _ z rest =>
    cases whole
    exact replace _ z _ rest
  | delete _ rest =>
    cases whole
    exact delete _ _ rest
  | insert z _ ih => exact insert _ z _ (ih whole)

/-- What composes behind two heads composes with them, at a cost where they differ. -/
theorem Aligned.trans_heads {x y : A} (cost : ℕ) (heads : x = y ∨ 1 ≤ cost)
    (tails : ∀ {n c}, Aligned n b c → ∃ k ≤ m + n, Aligned k a c) (second : Aligned n (y :: b) c) :
    ∃ k ≤ m + cost + n, Aligned k (x :: a) c := by
  refine Aligned.consume ?_ ?_ ?_ ?_ second
  · intro n c rest
    obtain ⟨k, bound, aligned⟩ := tails rest
    rcases heads with rfl | differ
    · exact ⟨k, by omega, aligned.keep x⟩
    · exact ⟨k + 1, by omega, aligned.replace x y⟩
  · intro n z c rest
    obtain ⟨k, bound, aligned⟩ := tails rest
    exact ⟨k + 1, by omega, aligned.replace x z⟩
  · intro n c rest
    obtain ⟨k, bound, aligned⟩ := tails rest
    exact ⟨k + 1, by omega, aligned.delete x⟩
  · intro n z c later
    obtain ⟨k, bound, aligned⟩ := later
    exact ⟨k + 1, by omega, aligned.insert z⟩

/-- Two alignments compose: the steps of the second one are taken as those of the first one reach
the elements that they consume. -/
theorem Aligned.trans (first : Aligned m a b) (second : Aligned n b c) : ∃ k ≤ m + n, Aligned k a c := by
  induction first generalizing n c with
  | nil => exact ⟨n, by omega, second⟩
  | delete x _ ih =>
    obtain ⟨k, bound, aligned⟩ := ih second
    exact ⟨k + 1, by omega, aligned.delete x⟩
  | keep x _ ih => exact Aligned.trans_heads 0 (.inl rfl) ih second
  | replace x y _ ih => exact Aligned.trans_heads 1 (.inr le_rfl) ih second
  | insert y _ ih =>
    refine Aligned.consume ?_ ?_ ?_ ?_ second
    · intro n c rest
      obtain ⟨k, bound, aligned⟩ := ih rest
      exact ⟨k + 1, by omega, aligned.insert y⟩
    · intro n z c rest
      obtain ⟨k, bound, aligned⟩ := ih rest
      exact ⟨k + 1, by omega, aligned.insert z⟩
    · intro n c rest
      obtain ⟨k, bound, aligned⟩ := ih rest
      exact ⟨k, by omega, aligned⟩
    · intro n z c later
      obtain ⟨k, bound, aligned⟩ := later
      exact ⟨k + 1, by omega, aligned.insert z⟩

theorem Edits.aligned (edits : Edits n a b) : ∃ k ≤ n, Aligned k a b := by
  induction edits with
  | none a => exact ⟨0, le_rfl, .refl a⟩
  | more edit _ ih =>
    obtain ⟨k, bound, aligned⟩ := ih
    obtain ⟨total, sum, composed⟩ := edit.aligned.trans aligned
    exact ⟨total, by omega, composed⟩

theorem Aligned.tail (aligned : Aligned n (x :: a) (x :: b)) : ∃ k ≤ n, Aligned k a b := by
  cases aligned with
  | keep _ rest => exact ⟨n, le_rfl, rest⟩
  | replace _ _ rest => exact ⟨_, Nat.le_succ _, rest⟩
  | delete _ rest =>
    -- the head of the second list is left for the tail of the first, and can go instead
    obtain ⟨k, bound, aligned⟩ := rest.trans ((Aligned.refl b).delete x)
    exact ⟨k, by omega, aligned⟩
  | insert _ rest =>
    obtain ⟨k, bound, aligned⟩ := ((Aligned.refl a).insert x).trans rest
    exact ⟨k, by omega, aligned⟩

theorem Aligned.length_right_le (aligned : Aligned n a b) : b.length ≤ a.length + n := by
  induction aligned <;> simp only [List.length_nil, List.length_cons] <;> omega

theorem Aligned.length_left_le (aligned : Aligned n a b) : a.length ≤ b.length + n := by
  induction aligned <;> simp only [List.length_nil, List.length_cons] <;> omega

theorem aligned_nil_left (b : List A) : Aligned b.length [] b := by
  induction b with
  | nil => exact .nil
  | cons y b ih => exact ih.insert y

theorem aligned_nil_right (a : List A) : Aligned a.length a [] := by
  induction a with
  | nil => exact .nil
  | cons x a ih => exact ih.delete x

/-! ### The recursion -/

variable [DecidableEq A]

theorem distance_nil_left (b : List A) : distance [] b = b.length := by
  rw [distance]

theorem distance_nil_right (a : List A) : distance a [] = a.length := by
  cases a with
  | nil => rw [distance]
  | cons x a => simp only [distance]

theorem distance_cons (x y : A) (a b : List A) :
    distance (x :: a) (y :: b) = if x = y then distance a b
      else 1 + min (distance (x :: a) b) (min (distance a (y :: b)) (distance a b)) := by
  rw [distance]

theorem aligned_distance (a b : List A) : Aligned (distance a b) a b := by
  induction a, b using distance.induct with
  | case1 b =>
    rw [distance_nil_left]
    exact aligned_nil_left b
  | case2 a _ =>
    rw [distance_nil_right]
    exact aligned_nil_right a
  | case3 a x b kept =>
    rw [distance_cons, if_pos rfl]
    exact kept.keep x
  | case4 x a y b differ inserted deleted replaced =>
    rw [distance_cons, if_neg differ, Nat.add_comm 1]
    rcases min_choice (distance (x :: a) b) (min (distance a (y :: b)) (distance a b)) with least | least
    · rw [least]
      exact inserted.insert y
    · rw [least]
      rcases min_choice (distance a (y :: b)) (distance a b) with least | least
      · rw [least]
        exact deleted.delete x
      · rw [least]
        exact replaced.replace x y

theorem distance_le (aligned : Aligned n a b) : distance a b ≤ n := by
  induction a, b using distance.induct generalizing n with
  | case1 b =>
    rw [distance_nil_left]
    simpa using aligned.length_right_le
  | case2 a _ =>
    rw [distance_nil_right]
    simpa using aligned.length_left_le
  | case3 a x b kept =>
    rw [distance_cons, if_pos rfl]
    obtain ⟨k, bound, rest⟩ := aligned.tail
    exact (kept rest).trans bound
  | case4 x a y b differ inserted deleted replaced =>
    rw [distance_cons, if_neg differ]
    cases aligned with
    | keep => exact absurd rfl differ
    | replace _ _ rest =>
      have bound := replaced rest
      omega
    | delete _ rest =>
      have bound := deleted rest
      omega
    | insert _ rest =>
      have bound := inserted rest
      omega

/-- The recursion computes the least number of edits. -/
theorem isLeast_distance (a b : List A) : IsLeast {n | Edits n a b} (distance a b) := by
  constructor
  · exact (aligned_distance a b).edits
  · intro n edits
    obtain ⟨k, bound, aligned⟩ := edits.aligned
    exact (distance_le aligned).trans bound

theorem distance_reverse (a b : List A) : distance a.reverse b.reverse = distance a b := by
  have same : {n | Edits n a.reverse b.reverse} = {n | Edits n a b} := Set.ext fun n => edits_reverse_iff
  have least := isLeast_distance a.reverse b.reverse
  rw [same] at least
  exact least.unique (isLeast_distance a b)

theorem distance_eq_zero_iff : distance a b = 0 ↔ a = b := by
  rw [← edits_zero_iff]
  constructor
  · intro zero
    have reached := (isLeast_distance a b).1
    rwa [zero] at reached
  · intro edits
    exact Nat.le_zero.mp ((isLeast_distance a b).2 edits)

theorem distance_comm (a b : List A) : distance a b = distance b a := by
  apply le_antisymm
  · exact (isLeast_distance a b).2 (isLeast_distance b a).1.symm
  · exact (isLeast_distance b a).2 (isLeast_distance a b).1.symm

theorem distance_triangle (a b c : List A) : distance a c ≤ distance a b + distance b c :=
  (isLeast_distance a c).2 ((isLeast_distance a b).1.trans (isLeast_distance b c).1)

theorem distance_le_max (a b : List A) : distance a b ≤ max a.length b.length := by
  induction a, b using distance.induct with
  | case1 b =>
    rw [distance_nil_left]
    exact le_max_right _ _
  | case2 a _ =>
    rw [distance_nil_right]
    exact le_max_left _ _
  | case3 a x b kept =>
    rw [distance_cons, if_pos rfl]
    simp only [List.length_cons]
    omega
  | case4 x a y b differ inserted deleted replaced =>
    rw [distance_cons, if_neg differ]
    simp only [List.length_cons] at *
    omega

end EditDistance
