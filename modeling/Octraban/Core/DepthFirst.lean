import Mathlib.Data.Finset.Card

/-! Depth-first search that reports a cycle at every edge back into its own path, with one set of
visited vertices for the whole run. Which vertices are entered and along which path is said by
reachability alone; the cycles reported are read off from that. -/
namespace DepthFirst

/-- What a run has marked and reported so far. -/
structure Progress (V : Type*) where
  visited : List V
  cycles : List (List V)

section Definitions
variable {V : Type*} [DecidableEq V] (adjacent : V → List V)

/-- The part of a path from `v` on. -/
def tailFrom (path : List V) (v : V) : List V := path.drop (path.idxOf v)

/-- One neighbour: a new vertex is visited by `dfs`, a vertex of the path closes a cycle. -/
def look (dfs : Progress V → V → Progress V) (path : List V) (progress : Progress V) (v : V) : Progress V :=
  if v ∉ progress.visited then dfs progress v
  else if v ∈ path then { progress with cycles := progress.cycles ++ [tailFrom path v] }
  else progress

/-- The visit of `v`, entered along `path`; `depth` bounds the recursion. -/
def dfs : (depth : Nat) → (path : List V) → Progress V → V → Progress V
  | 0, _, progress, _ => progress
  | depth + 1, path, progress, v =>
    (adjacent v).foldl (look (dfs depth (path ++ [v])) (path ++ [v]))
      { progress with visited := v :: progress.visited }

/-- Every key in turn that no earlier visit has reached. -/
def run (keys : List V) : Progress V :=
  keys.foldl (fun progress v => if v ∉ progress.visited then dfs adjacent keys.length [] progress v else progress)
    ⟨[], []⟩

/-- A walk from `a` to `b` that stays off `path`. -/
def Reach (path : List V) (a b : V) : Prop :=
  a ∉ path ∧ Relation.ReflTransGen (fun x y => y ∈ adjacent x ∧ y ∉ path) a b

/-- From `path`, with `starts` to look at, the chain to `t` passes through `below`: at each vertex it
takes the first neighbour from which `t` can still be reached off the chain. -/
inductive Enters : (path starts below : List V) → (t : V) → Prop
  | here {path rest : List V} {v : V} : v ∉ path → Enters path (v :: rest) path v
  | inside {path rest below : List V} {v t : V} : v ∉ path →
      Enters (path ++ [v]) (adjacent v) below t → Enters path (v :: rest) below t
  | later {path rest below : List V} {v t : V} : ¬ Reach adjacent path v t →
      Enters path rest below t → Enters path (v :: rest) below t

/-- The cycle that the edge from `t` to `v` closes on the chain to `t`. -/
def Closes (below : List V) (t : V) (cycle : List V) : Prop :=
  ∃ v ∈ adjacent t, v ∈ below ++ [t] ∧ cycle = tailFrom (below ++ [t]) v

/-- The vertices of the path are marked, and off the path nothing is left to look at. -/
structure Settled (path visited : List V) : Prop where
  marked : ∀ v ∈ path, v ∈ visited
  closed : ∀ v ∈ visited, v ∉ path → ∀ w ∈ adjacent v, w ∈ visited

/-- What looking at `starts` from `path` does. -/
structure Explores (path starts : List V) (before after : Progress V) : Prop where
  visited : ∀ t, t ∈ after.visited ↔ t ∈ before.visited ∨ ∃ v ∈ starts, Reach adjacent path v t
  settled : Settled adjacent path after.visited
  cycles : ∀ cycle, cycle ∈ after.cycles ↔ cycle ∈ before.cycles ∨
    (∃ v ∈ starts, v ∈ path ∧ cycle = tailFrom path v) ∨
    ∃ below t, t ∉ before.visited ∧ Enters adjacent path starts below t ∧ Closes adjacent below t cycle

end Definitions

variable {V : Type*} {adjacent : V → List V} {path starts rest below : List V} {v w t : V}

theorem Reach.self (free : v ∉ path) : Reach adjacent path v v := ⟨free, .refl⟩

theorem Reach.off_path (reach : Reach adjacent path v t) : t ∉ path := by
  obtain ⟨free, walk⟩ := reach
  cases walk with
  | refl => exact free
  | tail _ last => exact last.2

theorem Reach.tail (reach : Reach adjacent path v w) (edge : t ∈ adjacent w) (free : t ∉ path) :
    Reach adjacent path v t := ⟨reach.1, reach.2.tail ⟨edge, free⟩⟩

theorem Reach.head (edge : w ∈ adjacent v) (free : v ∉ path) (reach : Reach adjacent path w t) :
    Reach adjacent path v t := ⟨free, .head ⟨edge, reach.1⟩ reach.2⟩

theorem Reach.of_longer (reach : Reach adjacent (path ++ [w]) v t) : Reach adjacent path v t := by
  obtain ⟨free, walk⟩ := reach
  refine ⟨fun member => free (List.mem_append_left _ member), walk.lift id ?_⟩
  exact fun _ _ step => ⟨step.1, fun member => step.2 (List.mem_append_left _ member)⟩

/-- A walk from `v` leaves it for the last time through one of its neighbours. -/
theorem reach_iff (free : v ∉ path) :
    Reach adjacent path v t ↔ t = v ∨ ∃ w ∈ adjacent v, Reach adjacent (path ++ [v]) w t := by
  constructor
  · rintro ⟨-, walk⟩
    induction walk with
    | refl => exact .inl rfl
    | @tail b c _ step ih =>
      by_cases back : c = v
      · exact .inl back
      have fresh : c ∉ path ++ [v] := by simp [step.2, back]
      rcases ih with rfl | ⟨w, edge, reach⟩
      · exact .inr ⟨c, step.1, .self fresh⟩
      · exact .inr ⟨w, edge, reach.tail step.1 fresh⟩
  · rintro (rfl | ⟨w, edge, reach⟩)
    · exact .self free
    · exact .head edge free reach.of_longer

theorem Enters.reach (enters : Enters adjacent path starts below t) :
    ∃ v ∈ starts, Reach adjacent path v t := by
  induction enters with
  | here free => exact ⟨_, List.mem_cons_self, .self free⟩
  | inside free _ ih =>
    obtain ⟨w, edge, reach⟩ := ih
    exact ⟨_, List.mem_cons_self, .head edge free reach.of_longer⟩
  | later _ _ ih =>
    obtain ⟨w, member, reach⟩ := ih
    exact ⟨w, List.mem_cons_of_mem _ member, reach⟩

theorem Enters.off_path (enters : Enters adjacent path starts below t) : t ∉ path := by
  obtain ⟨v, -, reach⟩ := enters.reach
  exact reach.off_path

theorem enters_cons : Enters adjacent path (v :: rest) below t ↔
    Enters adjacent path [v] below t ∨ ¬ Reach adjacent path v t ∧ Enters adjacent path rest below t := by
  constructor
  · intro enters
    cases enters with
    | here free => exact .inl (.here free)
    | inside free inner => exact .inl (.inside free inner)
    | later away enters => exact .inr ⟨away, enters⟩
  · rintro (enters | ⟨away, enters⟩)
    · cases enters with
      | here free => exact .here free
      | inside free inner => exact .inside free inner
      | later _ none => cases none
    · exact .later away enters

theorem enters_one : Enters adjacent path [v] below t ↔
    v ∉ path ∧ (below = path ∧ t = v ∨ Enters adjacent (path ++ [v]) (adjacent v) below t) := by
  constructor
  · intro enters
    cases enters with
    | here free => exact ⟨free, .inl ⟨rfl, rfl⟩⟩
    | inside free inner => exact ⟨free, .inr inner⟩
    | later _ none => cases none
  · rintro ⟨free, ⟨rfl, rfl⟩ | inner⟩
    · exact .here free
    · exact .inside free inner

theorem Enters.nodup (enters : Enters adjacent path starts below t) (nodup : path.Nodup) :
    (below ++ [t]).Nodup := by
  induction enters with
  | here free => exact nodup.append (List.nodup_singleton _) (List.disjoint_singleton.mpr free)
  | inside free _ ih =>
    exact ih (nodup.append (List.nodup_singleton _) (List.disjoint_singleton.mpr free))
  | later _ _ ih => exact ih nodup

/-- Every vertex of the chain leads to its end. -/
theorem Enters.walk (enters : Enters adjacent path starts below t)
    (linked : ∀ u ∈ path, ∀ v ∈ starts, Relation.TransGen (fun a b => b ∈ adjacent a) u v) :
    ∀ u ∈ below, Relation.TransGen (fun a b => b ∈ adjacent a) u t := by
  induction enters with
  | here _ => exact fun u member => linked u member _ List.mem_cons_self
  | @inside path _ _ v _ _ _ ih =>
    refine ih fun u member w edge => ?_
    rcases List.mem_append.mp member with member | member
    · exact (linked u member v List.mem_cons_self).tail edge
    · rw [List.mem_singleton.mp member]
      exact .single edge
  | later _ _ ih => exact ih fun u member w next => linked u member w (List.mem_cons_of_mem _ next)

theorem Settled.reach_mem {visited : List V} (settled : Settled adjacent path visited)
    (known : v ∈ visited) (reach : Reach adjacent path v t) : t ∈ visited := by
  obtain ⟨free, walk⟩ := reach
  have both : t ∈ visited ∧ t ∉ path := by
    induction walk with
    | refl => exact ⟨known, free⟩
    | tail _ step ih => exact ⟨settled.closed _ ih.1 ih.2 _ step.1, step.2⟩
  exact both.1

variable [DecidableEq V] {before after : Progress V} {graph : Finset V} {depth : Nat}

theorem Explores.nil (settled : Settled adjacent path before.visited) :
    Explores adjacent path [] before before where
  visited := by simp
  settled := settled
  cycles := by
    intro cycle
    constructor
    · exact .inl
    · rintro (reported | ⟨v, none, -⟩ | ⟨below, t, -, enters, -⟩)
      · exact reported
      · exact absurd none List.not_mem_nil
      · cases enters

theorem Explores.cons {middle : Progress V} (first : Explores adjacent path [v] before middle)
    (others : Explores adjacent path rest middle after) :
    Explores adjacent path (v :: rest) before after where
  visited := by
    intro t
    rw [others.visited, first.visited, or_assoc]
    simp
  settled := others.settled
  cycles := by
    intro cycle
    rw [others.cycles, first.cycles]
    have unmarked (t : V) : t ∉ middle.visited ↔ t ∉ before.visited ∧ ¬ Reach adjacent path v t := by
      rw [first.visited]
      simp
    have split (below : List V) (t : V) : Enters adjacent path (v :: rest) below t ↔
        Enters adjacent path [v] below t ∨
          ¬ Reach adjacent path v t ∧ Enters adjacent path rest below t := enters_cons
    simp only [unmarked, split, List.mem_cons, List.not_mem_nil, or_false,
      exists_eq_or_imp, exists_eq_left]
    constructor
    · rintro ((old | onPath | ⟨below, t, fresh, enters, closes⟩) | later | ⟨below, t, fresh, enters, closes⟩)
      · exact .inl old
      · exact .inr (.inl (.inl onPath))
      · exact .inr (.inr ⟨below, t, fresh, .inl enters, closes⟩)
      · exact .inr (.inl (.inr later))
      · exact .inr (.inr ⟨below, t, fresh.1, .inr ⟨fresh.2, enters⟩, closes⟩)
    · rintro (old | (onPath | later) | ⟨below, t, fresh, enters | ⟨away, enters⟩, closes⟩)
      · exact .inl (.inl old)
      · exact .inl (.inr (.inl onPath))
      · exact .inr (.inl later)
      · exact .inl (.inr (.inr ⟨below, t, fresh, enters, closes⟩))
      · exact .inr (.inr ⟨below, t, ⟨fresh, away⟩, enters, closes⟩)

theorem tailFrom_split {before after : List V} (fresh : v ∉ before) :
    tailFrom (before ++ v :: after) v = v :: after := by
  have position : (before ++ v :: after).idxOf v = before.length := by
    rw [List.idxOf_append_of_notMem fresh, List.idxOf_cons_self, Nat.add_zero]
  rw [tailFrom, position, List.drop_left]

theorem exists_tailFrom {chain : List V} (member : v ∈ chain) :
    ∃ before after, chain = before ++ v :: after ∧ tailFrom chain v = v :: after := by
  obtain ⟨before, after, split, fresh⟩ := List.eq_append_cons_of_mem member
  exact ⟨before, after, split, split ▸ tailFrom_split fresh⟩

/-- Looking at a list is looking at each of its vertices. -/
theorem explores_foldl {step : Progress V → V → Progress V}
    (each : ∀ v ∈ starts, ∀ progress, Settled adjacent path progress.visited →
      Explores adjacent path [v] progress (step progress v))
    (settled : Settled adjacent path before.visited) :
    Explores adjacent path starts before (starts.foldl step before) := by
  induction starts generalizing before with
  | nil => exact .nil settled
  | cons v rest ih =>
    have first := each v List.mem_cons_self before settled
    refine first.cons (ih (fun w member => each w (List.mem_cons_of_mem _ member)) first.settled)

/-- A vertex that is marked already is left alone; on the path it closes a cycle. -/
theorem explores_known {visit : Progress V → V → Progress V} (known : v ∈ before.visited)
    (settled : Settled adjacent path before.visited) :
    Explores adjacent path [v] before (look visit path before v) := by
  have unmarked : (look visit path before v).visited = before.visited := by
    simp only [look, known, not_true_eq_false, if_false]
    split <;> rfl
  refine ⟨fun t => ?_, unmarked ▸ settled, fun cycle => ?_⟩
  · rw [unmarked]
    constructor
    · exact .inl
    · rintro (old | ⟨w, member, reach⟩)
      · exact old
      · exact settled.reach_mem (List.mem_singleton.mp member ▸ known) reach
  · have none (below : List V) (t : V) (fresh : t ∉ before.visited) :
        ¬ Enters adjacent path [v] below t := by
      intro enters
      obtain ⟨w, member, reach⟩ := enters.reach
      exact fresh (settled.reach_mem (List.mem_singleton.mp member ▸ known) reach)
    simp only [look, known, not_true_eq_false, if_false, List.mem_singleton, exists_eq_left]
    by_cases onPath : v ∈ path
    · rw [if_pos onPath]
      simp only [List.mem_append, List.mem_singleton]
      grind
    · rw [if_neg onPath]
      grind

/-- A new vertex: everything that can be reached from it off the path is entered below it. -/
theorem explores_new (fresh : v ∉ before.visited) (settled : Settled adjacent path before.visited)
    (inner : Explores adjacent (path ++ [v]) (adjacent v)
      { before with visited := v :: before.visited } after) :
    Explores adjacent path [v] before after := by
  have free : v ∉ path := fun member => fresh (settled.marked v member)
  have reached (t : V) : t ∈ after.visited ↔ t ∈ before.visited ∨ Reach adjacent path v t := by
    rw [inner.visited, reach_iff free, List.mem_cons]
    tauto
  refine ⟨by simpa using reached, ⟨fun w member => ?_, fun w member off u edge => ?_⟩, fun cycle => ?_⟩
  · exact (reached w).mpr (.inl (settled.marked w member))
  · by_cases same : w = v
    · subst same
      by_cases onPath : u ∈ path ++ [w]
      · exact inner.settled.marked u onPath
      · exact (inner.visited u).mpr (.inr ⟨u, edge, .self onPath⟩)
    · exact inner.settled.closed w member (by simp [off, same]) u edge
  · rw [inner.cycles]
    simp only [enters_one (v := v), List.mem_singleton, exists_eq_left]
    constructor
    · rintro (old | ⟨w, edge, onPath, closed⟩ | ⟨below, t, new, enters, closes⟩)
      · exact .inl old
      · exact .inr (.inr ⟨path, v, fresh, ⟨free, .inl ⟨rfl, rfl⟩⟩, w, edge, onPath, closed⟩)
      · exact .inr (.inr ⟨below, t, fun old => new (List.mem_cons_of_mem _ old), ⟨free, .inr enters⟩, closes⟩)
    · rintro (old | ⟨onPath, -⟩ | ⟨below, t, new, ⟨-, ⟨rfl, rfl⟩ | enters⟩, closes⟩)
      · exact .inl old
      · exact absurd onPath free
      · exact .inr (.inl closes)
      · refine .inr (.inr ⟨below, t, fun old => ?_, enters, closes⟩)
        rcases List.mem_cons.mp old with rfl | old
        · exact enters.off_path (by simp)
        · exact new old

/-- Enough depth: as many vertices as the graph has off the path. -/
theorem explores_look (within : ∀ v ∈ graph, ∀ w ∈ adjacent v, w ∈ graph)
    (enough : (graph \ path.toFinset).card ≤ depth) (inside : v ∈ graph)
    (settled : Settled adjacent path before.visited) :
    Explores adjacent path [v] before (look (dfs adjacent depth path) path before v) := by
  induction depth generalizing path v before with
  | zero =>
    by_cases known : v ∈ before.visited
    · exact explores_known known settled
    · have free : v ∉ path := fun member => known (settled.marked v member)
      have none := Finset.card_eq_zero.mp (Nat.le_zero.mp enough)
      exact absurd (Finset.mem_sdiff.mpr ⟨inside, by simpa using free⟩) (none ▸ Finset.notMem_empty v)
  | succ depth ih =>
    by_cases known : v ∈ before.visited
    · exact explores_known known settled
    · have free : v ∉ path := fun member => known (settled.marked v member)
      rw [look, if_pos known, dfs]
      refine explores_new known settled (explores_foldl (fun w edge progress stillSettled => ?_) ⟨?_, ?_⟩)
      · refine ih ?_ (within v inside w edge) stillSettled
        have shorter : graph \ (path ++ [v]).toFinset ⊂ graph \ path.toFinset := by
          refine Finset.ssubset_iff_of_subset (fun w member => ?_) |>.mpr ⟨v, ?_, ?_⟩
          · simp only [Finset.mem_sdiff, List.mem_toFinset, List.mem_append, not_or] at member ⊢
            exact ⟨member.1, member.2.1⟩
          · simpa using ⟨inside, free⟩
          · simp
        have := Finset.card_lt_card shorter
        omega
      · intro w member
        rcases List.mem_append.mp member with member | member
        · exact List.mem_cons_of_mem _ (settled.marked w member)
        · exact List.mem_cons.mpr (.inl (List.mem_singleton.mp member))
      · intro w member off u edge
        simp only [List.mem_append, List.mem_singleton, not_or] at off
        have old := (List.mem_cons.mp member).resolve_left off.2
        exact List.mem_cons_of_mem _ (settled.closed w old off.1 u edge)

/-- The cycles of a run over all vertices, by reachability alone. -/
theorem mem_run_cycles {keys cycle : List V} (within : ∀ v ∈ keys, ∀ w ∈ adjacent v, w ∈ keys) :
    cycle ∈ (run adjacent keys).cycles ↔
      ∃ below t, Enters adjacent [] keys below t ∧ Closes adjacent below t cycle := by
  have same : run adjacent keys = keys.foldl (look (dfs adjacent keys.length []) []) ⟨[], []⟩ := by
    unfold run
    congr
  have explores : Explores adjacent [] keys ⟨[], []⟩ (run adjacent keys) := by
    rw [same]
    refine explores_foldl (fun v member progress settled => ?_) ⟨by simp, by simp⟩
    have enough : (keys.toFinset \ ([] : List V).toFinset).card ≤ keys.length := by
      simpa using List.toFinset_card_le keys
    exact explores_look (by simpa using within) enough (by simpa using member) settled
  rw [explores.cycles]
  simp

theorem Enters.on_cycle (enters : Enters adjacent [] starts below t) {cycle : List V}
    (closes : Closes adjacent below t cycle) : ∃ v, Relation.TransGen (fun a b => b ∈ adjacent a) v v := by
  obtain ⟨v, edge, member, -⟩ := closes
  refine ⟨v, ?_⟩
  rcases List.mem_append.mp member with member | member
  · exact (enters.walk (by simp) v member).tail edge
  · rw [List.mem_singleton.mp member] at edge ⊢
    exact .single edge

/-- A graph without cycles has none reported. -/
theorem run_cycles_eq_nil {keys : List V} (within : ∀ v ∈ keys, ∀ w ∈ adjacent v, w ∈ keys)
    (acyclic : ∀ v, ¬ Relation.TransGen (fun a b => b ∈ adjacent a) v v) : (run adjacent keys).cycles = [] := by
  refine List.eq_nil_iff_forall_not_mem.mpr fun cycle member => ?_
  obtain ⟨below, t, enters, closes⟩ := (mem_run_cycles within).mp member
  obtain ⟨v, loop⟩ := enters.on_cycle closes
  exact acyclic v loop

end DepthFirst
