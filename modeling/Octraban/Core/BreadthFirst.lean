import Mathlib.Algebra.BigOperators.Group.List.Basic

/-! Search by layers: walks, queues in the order of their depths, and what a search that has not
met its target has passed. -/
namespace BreadthFirst

variable {A V : Type*}

/-- A walk of so many edges. -/
inductive Walk (edge : A → A → Prop) (start : A) : ℕ → A → Prop where
  | here : Walk edge start 0 start
  | next {n a b} : Walk edge start n a → edge a b → Walk edge start (n + 1) b

/-- A queue in the order of the depths, which differ by one at most. -/
structure Layered (depth : V → ℕ) (queue : List V) : Prop where
  ordered : queue.Pairwise fun v w => depth v ≤ depth w
  narrow : ∀ first ∈ queue.head?, ∀ v ∈ queue, depth v ≤ depth first + 1

variable {edge : A → A → Prop} {start target a b : A} {n k bound : ℕ} {depth : V → ℕ} {current : V} {queue added : List V}

theorem Layered.first_le (layered : Layered depth (current :: queue)) : ∀ v ∈ current :: queue, depth current ≤ depth v := by
  intro v member
  rcases List.mem_cons.mp member with rfl | later
  · exact Nat.le_refl _
  · exact (List.pairwise_cons.mp layered.ordered).1 v later

theorem layered_singleton (depth : V → ℕ) (v : V) : Layered depth [v] where
  ordered := List.pairwise_singleton _ v
  narrow first head w member := by
    cases head
    rw [List.mem_singleton.mp member]
    exact Nat.le_succ _

theorem Layered.tail (layered : Layered depth (current :: queue)) : Layered depth queue where
  ordered := (List.pairwise_cons.mp layered.ordered).2
  narrow first head v member := by
    have near := layered.narrow current rfl v (List.mem_cons_of_mem _ member)
    have after := layered.first_le first (List.mem_cons_of_mem _ (List.mem_of_mem_head? head))
    omega

/-- What the first element leads to goes to the end. -/
theorem Layered.push (layered : Layered depth (current :: queue)) (deeper : ∀ v ∈ added, depth v = depth current + 1) :
    Layered depth (queue ++ added) where
  ordered := by
    refine List.pairwise_append.mpr ⟨layered.tail.ordered, ?_, fun v member w fresh => ?_⟩
    · refine List.Pairwise.imp_of_mem (fun left right _ => ?_) (List.pairwise_of_forall (fun _ _ => trivial))
      exact Nat.le_of_eq ((deeper _ left).trans (deeper _ right).symm)
    · rw [deeper w fresh]
      exact layered.narrow current rfl v (List.mem_cons_of_mem _ member)
  narrow first head v member := by
    have least : depth current ≤ depth first := by
      rcases List.mem_append.mp (List.mem_of_mem_head? head) with old | fresh
      · exact layered.first_le first (List.mem_cons_of_mem _ old)
      · rw [deeper first fresh]
        exact Nat.le_succ _
    have most : depth v ≤ depth current + 1 := by
      rcases List.mem_append.mp member with old | fresh
      · exact layered.narrow current rfl v (List.mem_cons_of_mem _ old)
      · exact Nat.le_of_eq (deeper v fresh)
    omega

/-- Nothing seen leads to the target, and what it leads to is seen or waits. -/
structure Passed (edge : A → A → Prop) (start target : A) (bound : ℕ) (seen waiting : A → ℕ → Prop) : Prop where
  started : seen start 0 ∨ waiting start 0
  onward : ∀ a n, seen a n → ∀ b, edge a b → b ≠ target ∧ (n + 1 < bound → seen b (n + 1) ∨ waiting b (n + 1))

variable {seen waiting : A → ℕ → Prop}

/-- What leads on from what is seen is seen or waits, no later. -/
structure Flood (edge : A → A → Prop) (start : A) (seen waiting : A → ℕ → Prop) : Prop where
  started : seen start 0 ∨ waiting start 0
  walks : ∀ a n, seen a n ∨ waiting a n → Walk edge start n a
  onward : ∀ a n, seen a n → ∀ b, edge a b → ∃ m ≤ n + 1, seen b m ∨ waiting b m

theorem Walk.mono {more : A → A → Prop} (kept : ∀ a b, edge a b → more a b) (walk : Walk edge start n a) : Walk more start n a := by
  induction walk with
  | here => exact .here
  | next _ step ih => exact .next ih (kept _ _ step)

theorem Walk.pos (walk : Walk edge start n a) (apart : a ≠ start) : 0 < n := by
  cases walk with
  | here => exact absurd rfl apart
  | next => exact Nat.succ_pos _

theorem Walk.two_le (walk : Walk edge start n a) (apart : a ≠ start) (far : ¬ edge start a) : 2 ≤ n := by
  cases walk with
  | here => exact absurd rfl apart
  | next walk step =>
    cases walk with
    | here => exact absurd step far
    | next => omega

/-- When nothing waits any more, what walks lead to is seen, as early as the shortest of them. -/
theorem Flood.seen_of_walk (flood : Flood edge start seen waiting) (done : ∀ a n, ¬ waiting a n) (walk : Walk edge start n a) :
    ∃ m ≤ n, seen a m := by
  induction walk with
  | here => exact ⟨0, Nat.le_refl 0, flood.started.resolve_right (done start 0)⟩
  | @next n a b _ step ih =>
    obtain ⟨m, early, known⟩ := ih
    obtain ⟨later, soon, reached⟩ := flood.onward a m known b step
    exact ⟨later, Nat.le_trans soon (Nat.succ_le_succ early), reached.resolve_right (done b later)⟩

/-- What waits for an element that is seen already is dropped. -/
theorem Flood.drop {waiting' : A → ℕ → Prop} {m : ℕ} (flood : Flood edge start seen waiting) (known : seen a m) (early : m ≤ k)
    (rest : ∀ b n, waiting' b n → waiting b n) (kept : ∀ b n, waiting b n → waiting' b n ∨ b = a ∧ n = k) :
    Flood edge start seen waiting' where
  started := by
    rcases flood.started with first | first
    · exact .inl first
    · rcases kept start 0 first with still | ⟨rfl, rfl⟩
      · exact .inr still
      · exact .inl (Nat.le_zero.mp early ▸ known)
  walks b n met := flood.walks b n (met.imp_right (rest b n))
  onward b n old c edge := by
    obtain ⟨later, soon, reached | waits⟩ := flood.onward b n old c edge
    · exact ⟨later, soon, .inl reached⟩
    · rcases kept c later waits with still | ⟨rfl, rfl⟩
      · exact ⟨later, soon, .inr still⟩
      · exact ⟨m, Nat.le_trans early soon, .inl known⟩

/-- An element is seen for the first time, and what it leads to waits. -/
theorem Flood.visit {more : A → A → Prop} {seen' waiting' : A → ℕ → Prop} (flood : Flood edge start seen waiting)
    (waits : waiting a k) (new : ∀ n, ¬ seen a n) (unled : ∀ b, ¬ edge a b)
    (sees : ∀ b n, seen' b n ↔ seen b n ∨ b = a ∧ n = k) (kept : ∀ b n, waiting b n → waiting' b n ∨ b = a ∧ n = k)
    (added : ∀ b n, waiting' b n → waiting b n ∨ more a b ∧ n = k + 1) (grows : ∀ b c, edge b c → more b c)
    (leads : ∀ b c, more b c → edge b c ∨ b = a ∧ waiting' c (k + 1)) : Flood more start seen' waiting' := by
  have passes : ∀ b n, seen b n ∨ waiting b n → seen' b n ∨ waiting' b n := by
    rintro b n (old | waits)
    · exact .inl ((sees b n).mpr (.inl old))
    · exact (kept b n waits).symm.imp_left fun own => (sees b n).mpr (.inr own)
  have walk := (flood.walks a k (.inr waits)).mono grows
  refine ⟨passes start 0 flood.started, ?_, ?_⟩
  · rintro b n (met | met)
    · rcases (sees b n).mp met with old | ⟨rfl, rfl⟩
      · exact (flood.walks b n (.inl old)).mono grows
      · exact walk
    · rcases added b n met with old | ⟨step, rfl⟩
      · exact (flood.walks b n (.inr old)).mono grows
      · exact walk.next step
  · intro b n met c step
    rcases leads b c step with old | ⟨rfl, fresh⟩
    · rcases (sees b n).mp met with seen | ⟨rfl, rfl⟩
      · obtain ⟨later, soon, reached⟩ := flood.onward b n seen c old
        exact ⟨later, soon, passes c later reached⟩
      · exact absurd old (unled c)
    · rcases (sees b n).mp met with seen | ⟨-, rfl⟩
      · exact absurd seen (new n)
      · exact ⟨n + 1, Nat.le_refl _, .inr fresh⟩

/-- One more element is looked at. -/
theorem Passed.advance {seen' waiting' : A → ℕ → Prop} (passed : Passed edge start target bound seen waiting)
    (positive : 0 < bound) (kept : ∀ a n, n < bound → seen a n ∨ waiting a n → seen' a n ∨ waiting' a n)
    (fresh : ∀ a n, seen' a n → seen a n ∨
      ∀ b, edge a b → b ≠ target ∧ (n + 1 < bound → seen' b (n + 1) ∨ waiting' b (n + 1))) :
    Passed edge start target bound seen' waiting' where
  started := kept start 0 positive passed.started
  onward a n known b step := by
    rcases fresh a n known with old | new
    · have onward := passed.onward a n old b step
      exact ⟨onward.1, fun inside => kept b (n + 1) inside (onward.2 inside)⟩
    · exact new b step

/-- All that comes before what waits has been seen. -/
theorem Passed.seen_of_walk (passed : Passed edge start target bound seen waiting) (later : ∀ a n, waiting a n → k ≤ n)
    (walk : Walk edge start n a) (before : n < k) (inside : n < bound) : seen a n := by
  induction walk with
  | here => exact passed.started.resolve_right fun waits => absurd (later start 0 waits) (Nat.not_le_of_lt before)
  | @next n a b walk step ih =>
    have earlier := ih (Nat.lt_of_succ_lt before) (Nat.lt_of_succ_lt inside)
    exact ((passed.onward a n earlier b step).2 inside).resolve_right
      fun waits => absurd (later b (n + 1) waits) (Nat.not_le_of_lt before)

/-- A walk to the target goes on beyond what waits. -/
theorem Passed.lt_of_walk (passed : Passed edge start target bound seen waiting) (later : ∀ a n, waiting a n → k ≤ n)
    (apart : start ≠ target) (walk : Walk edge start n target) (inside : n ≤ bound) : k < n := by
  cases walk with
  | here => exact absurd rfl apart
  | @next n a _ walk step =>
    by_contra short
    have known := passed.seen_of_walk later walk (by omega) inside
    exact (passed.onward a n known target step).1 rfl

end BreadthFirst
