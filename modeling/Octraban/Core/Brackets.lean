import Mathlib.Data.List.Basic

/-! Words of brackets as forests: which bracket encloses which, and at what depth each stands. -/
namespace Brackets

inductive Mark where
  | opening
  | closing
  | plain
  deriving DecidableEq

/-- A well bracketed word. -/
inductive Forest (E : Type*) where
  | nil
  | plain (e : E) (rest : Forest E)
  | pair (opening : E) (inner : Forest E) (closing : E) (rest : Forest E)

variable {E : Type*}

namespace Forest

@[simp] def word : Forest E → List E
  | nil => []
  | plain e rest => e :: rest.word
  | pair opening inner closing rest => opening :: inner.word ++ closing :: rest.word

/-- How many brackets it has. -/
@[simp] def size : Forest E → ℕ
  | nil => 0
  | plain _ rest => rest.size
  | pair _ inner _ rest => inner.size + 1 + rest.size

/-- From each bracket's encloser to it, brackets by the order in which they open; `k` are open or
closed before and `parent` encloses all of the forest. -/
@[simp] def edges : Forest E → Option ℕ → ℕ → List (ℕ × ℕ)
  | nil, _, _ => []
  | plain _ rest, parent, k => rest.edges parent k
  | pair _ inner _ rest, parent, k =>
    (parent.map fun p => (p, k + 1)).toList ++ inner.edges (some (k + 1)) (k + 1) ++ rest.edges parent (k + 1 + inner.size)

/-- What opens, in this order, with its depth. -/
@[simp] def openings : Forest E → ℕ → List (E × ℕ)
  | nil, _ => []
  | plain _ rest, depth => rest.openings depth
  | pair opening inner _ rest, depth => (opening, depth) :: inner.openings (depth + 1) ++ rest.openings depth

/-- Where a bracket opens and where it closes. -/
@[simp] def spans : Forest E → List (ℕ × ℕ)
  | nil => []
  | plain _ rest => rest.spans.map fun span => (span.1 + 1, span.2 + 1)
  | pair _ inner _ rest =>
    (0, inner.word.length + 1) :: inner.spans.map (fun span => (span.1 + 1, span.2 + 1)) ++
      rest.spans.map fun span => (span.1 + (inner.word.length + 2), span.2 + (inner.word.length + 2))

/-- The marks are those of the brackets. -/
@[simp] def Marked (mark : E → Mark) : Forest E → Prop
  | nil => True
  | plain e rest => mark e = .plain ∧ rest.Marked mark
  | pair opening inner closing rest =>
    mark opening = .opening ∧ inner.Marked mark ∧ mark closing = .closing ∧ rest.Marked mark

/-- No bracket opens after one has closed. -/
@[simp] def Straight : Forest E → Prop
  | nil => True
  | plain _ rest => rest.Straight
  | pair _ inner _ rest => inner.Straight ∧ rest.size = 0

end Forest

/-- From each bracket to the one that opens next, for the `n` that open after the first `k`. -/
@[simp] def links : Option ℕ → ℕ → ℕ → List (ℕ × ℕ)
  | _, _, 0 => []
  | previous, k, n + 1 => (previous.map fun p => (p, k + 1)).toList ++ links (some (k + 1)) (k + 1) n

/-- The depth of each mark: a bracket closes at the depth at which it opened. -/
@[simp] def depths : List Mark → ℕ → List ℕ
  | [], _ => []
  | .opening :: rest, depth => depth :: depths rest (depth + 1)
  | .closing :: rest, depth => (depth - 1) :: depths rest (depth - 1)
  | .plain :: rest, depth => depth :: depths rest depth

variable {mark : E → Mark} {forest : Forest E} {parent : Option ℕ} {k n depth : ℕ}

/-! ### Edges -/

/-- One bracket more is linked to the last one. -/
theorem links_succ (previous : Option ℕ) (k n : ℕ) :
    links previous k (n + 1) = links previous k n ++ ((if n = 0 then previous else some (k + n)).map fun p => (p, k + n + 1)).toList := by
  induction n generalizing previous k with
  | zero => exact List.append_nil _
  | succ n ih =>
    rw [links, ih, links, List.append_assoc, if_neg (Nat.succ_ne_zero n)]
    have shifted : (if n = 0 then some (k + 1) else some (k + 1 + n)) = some (k + (n + 1)) := by
      split <;> exact congrArg some (by omega)
    rw [shifted, Nat.add_right_comm k 1 n, Nat.add_assoc k n 1]

theorem mem_links (previous : Option ℕ) {j : ℕ} (after : k < j) (before : j < k + n) : (j, j + 1) ∈ links previous k n := by
  induction n with
  | zero => exact absurd before (Nat.not_lt_of_lt after)
  | succ n ih =>
    rw [links_succ, List.mem_append]
    rcases Nat.lt_or_ge j (k + n) with earlier | last
    · exact .inl (ih earlier)
    · have same : j = k + n := by omega
      have some_open : n ≠ 0 := by omega
      rw [if_neg some_open, same]
      exact .inr List.mem_cons_self

/-- An edge leads from the parent or from a bracket to one that opens later. -/
theorem mem_edges {edge : ℕ × ℕ} (member : edge ∈ forest.edges parent k) :
    (edge.1 ∈ parent ∨ k < edge.1 ∧ edge.1 ≤ k + forest.size) ∧ k < edge.2 ∧ edge.2 ≤ k + forest.size := by
  induction forest generalizing parent k with
  | nil => cases member
  | plain e rest ih => exact ih member
  | pair opening inner closing rest ihInner ihRest =>
    rw [Forest.edges, List.mem_append, List.mem_append] at member
    rw [Forest.size]
    rcases member with (own | inside) | after
    · obtain ⟨p, enclosing, rfl⟩ := Option.map_eq_some_iff.mp (Option.mem_toList.mp own)
      exact ⟨.inl enclosing, Nat.lt_succ_self k, by omega⟩
    · obtain ⟨source, low, high⟩ := ihInner inside
      refine ⟨.inr ?_, by omega, by omega⟩
      rcases source with first | later
      · have same : k + 1 = edge.1 := Option.some.inj first
        omega
      · omega
    · obtain ⟨source, low, high⟩ := ihRest after
      exact ⟨source.imp_right fun _ => by omega, by omega, by omega⟩

theorem length_openings : (forest.openings depth).length = forest.size := by
  induction forest generalizing depth with
  | nil => rfl
  | plain e rest ih => exact ih
  | pair opening inner closing rest ihInner ihRest =>
    rw [Forest.openings, List.cons_append, List.length_cons, List.length_append, ihInner, ihRest, Forest.size]
    omega

theorem edges_eq_nil (none_open : forest.size = 0) : forest.edges parent k = [] := by
  induction forest generalizing parent k with
  | nil => rfl
  | plain e rest ih => exact ih none_open
  | pair opening inner closing rest _ _ =>
    rw [Forest.size] at none_open
    omega

/-- Where no bracket opens after one has closed, each one encloses the next. -/
theorem edges_of_straight (straight : forest.Straight) : forest.edges parent k = links parent k forest.size := by
  induction forest generalizing parent k with
  | nil => rfl
  | plain e rest ih => exact ih straight
  | pair opening inner closing rest ihInner _ =>
    obtain ⟨inside, none_after⟩ := straight
    rw [Forest.edges, edges_eq_nil none_after, List.append_nil, ihInner inside, Forest.size, none_after, Nat.add_zero, links]

/-- Only then. -/
theorem straight_of_links (within : ∀ p ∈ parent, p ≤ k)
    (linked : ∀ j, k < j → j < k + forest.size → (j, j + 1) ∈ forest.edges parent k) : forest.Straight := by
  induction forest generalizing parent k with
  | nil => trivial
  | plain e rest ih => exact ih within linked
  | pair opening inner closing rest ihInner _ =>
    rw [Forest.size] at linked
    have parts (j : ℕ) (after : k < j) (before : j < k + (inner.size + 1 + rest.size)) :
        (j, j + 1) ∈ inner.edges (some (k + 1)) (k + 1) ∨ (j, j + 1) ∈ rest.edges parent (k + 1 + inner.size) := by
      have edge := linked j after before
      rw [Forest.edges, List.append_assoc, List.mem_append, List.mem_append] at edge
      refine edge.resolve_left fun own => ?_
      obtain ⟨p, -, same⟩ := Option.map_eq_some_iff.mp (Option.mem_toList.mp own)
      have target := congrArg Prod.snd same
      dsimp only at target
      omega
    have none_after : rest.size = 0 := by
      by_contra filled
      rcases parts (k + 1 + inner.size) (by omega) (by omega) with inside | later
      · have target := (mem_edges inside).2.2
        omega
      · rcases (mem_edges later).1 with above | beyond
        · have bound := within _ above
          omega
        · omega
    refine ⟨@ihInner (some (k + 1)) (k + 1) (fun p own => ?_) fun j after before => ?_, none_after⟩
    · exact Nat.le_of_eq (Option.some.inj own).symm
    · refine (parts j (by omega) (by omega)).resolve_right fun later => ?_
      rw [edges_eq_nil none_after] at later
      cases later

/-! ### Words -/

theorem size_eq_zero_iff (marked : forest.Marked mark) : forest.size = 0 ↔ ∀ b ∈ forest.word, mark b ≠ .opening := by
  induction forest with
  | nil => exact iff_of_true rfl fun b member => by cases member
  | plain e rest ih =>
    obtain ⟨plain, marked⟩ := marked
    rw [Forest.size, ih marked, Forest.word, List.forall_mem_cons, plain]
    exact (and_iff_right (by decide)).symm
  | pair opening inner closing rest _ _ =>
    refine iff_of_false (by rw [Forest.size]; omega) fun none_open => ?_
    exact none_open opening List.mem_cons_self marked.1

theorem countP_word (marked : forest.Marked mark) : forest.word.countP (fun e => mark e = .opening) = forest.size := by
  induction forest with
  | nil => rfl
  | plain e rest ih =>
    obtain ⟨plain, marked⟩ := marked
    rw [Forest.word, List.countP_cons, ih marked, plain]
    rfl
  | pair opening inner closing rest ihInner ihRest =>
    obtain ⟨opens, inside, closes, after⟩ := marked
    rw [Forest.word, List.cons_append, List.countP_cons, List.countP_append, List.countP_cons, ihInner inside, ihRest after, opens, closes,
      Forest.size]
    simp only [decide_true, if_true, reduceCtorEq, decide_false, Bool.false_eq_true, if_false]
    omega

/-- On the word: nothing opens after something has closed. -/
theorem straight_iff (marked : forest.Marked mark) :
    forest.Straight ↔ forest.word.Pairwise fun a b => mark a = .closing → mark b ≠ .opening := by
  induction forest with
  | nil => exact iff_of_true trivial List.Pairwise.nil
  | plain e rest ih =>
    obtain ⟨plain, marked⟩ := marked
    rw [Forest.Straight, ih marked, Forest.word, List.pairwise_cons, plain]
    exact (and_iff_right fun b _ closed => by cases closed).symm
  | pair opening inner closing rest ihInner _ =>
    obtain ⟨opens, inside, closes, after⟩ := marked
    rw [Forest.Straight, ihInner inside, size_eq_zero_iff after, Forest.word, List.cons_append, List.pairwise_cons, List.pairwise_append,
      List.pairwise_cons, opens, closes]
    constructor
    · rintro ⟨ordered, none_after⟩
      refine ⟨fun b _ closed => (nomatch closed), ordered, ⟨fun b member _ => none_after b member, ?_⟩, fun a _ b member _ => ?_⟩
      · exact List.Pairwise.imp_of_mem (fun _ member _ _ => none_after _ member) (List.pairwise_of_forall fun _ _ => trivial)
      · rcases List.mem_cons.mp member with rfl | later
        · rw [closes]
          decide
        · exact none_after b later
    · rintro ⟨-, ordered, ⟨none_after, -⟩, -⟩
      exact ⟨ordered, fun b member => none_after b member rfl⟩

/-- A forest has one row of marks. -/
theorem map_word_eq {other : E → Mark} (marked : forest.Marked mark) (others : forest.Marked other) :
    forest.word.map mark = forest.word.map other := by
  induction forest with
  | nil => rfl
  | plain e rest ih =>
    rw [Forest.word, List.map_cons, List.map_cons, marked.1, others.1, ih marked.2 others.2]
  | pair opening inner closing rest ihInner ihRest =>
    obtain ⟨opens, inside, closes, after⟩ := marked
    obtain ⟨opens', inside', closes', after'⟩ := others
    rw [Forest.word, List.cons_append, List.map_cons, List.map_cons, List.map_append, List.map_append, List.map_cons, List.map_cons, opens,
      opens', closes, closes', ihInner inside inside', ihRest after after']

/-! ### Depths -/

theorem length_depths (marks : List Mark) (depth : ℕ) : (depths marks depth).length = marks.length := by
  induction marks generalizing depth with
  | nil => rfl
  | cons m marks ih => cases m <;> exact congrArg Nat.succ (ih _)

/-- After a forest the depth is the one before it. -/
theorem depths_word_append (marked : forest.Marked mark) (rest : List Mark) :
    depths (forest.word.map mark ++ rest) depth = depths (forest.word.map mark) depth ++ depths rest depth := by
  induction forest generalizing depth rest with
  | nil => rfl
  | plain e tail ih =>
    obtain ⟨plain, marked⟩ := marked
    rw [Forest.word, List.map_cons, plain, List.cons_append, depths, depths, ih marked, List.cons_append]
  | pair opening inner closing tail ihInner ihTail =>
    obtain ⟨opens, inside, closes, after⟩ := marked
    simp only [Forest.word, List.cons_append, List.map_cons, List.map_append, List.append_assoc, opens, closes, depths, ihInner inside,
      Nat.add_sub_cancel, ihTail after]

theorem depths_pair {opening closing : E} {inner rest : Forest E} (marked : (Forest.pair opening inner closing rest).Marked mark) :
    depths ((Forest.pair opening inner closing rest).word.map mark) depth =
      depth :: (depths (inner.word.map mark) (depth + 1) ++ depth :: depths (rest.word.map mark) depth) := by
  obtain ⟨opens, inside, closes, after⟩ := marked
  simp only [Forest.word, List.cons_append, List.map_cons, List.map_append, opens, closes, depths, depths_word_append inside,
    Nat.add_sub_cancel]

/-- A bracket closes at the depth at which it opened. -/
theorem depths_spans (marked : forest.Marked mark) {span : ℕ × ℕ} (member : span ∈ forest.spans) :
    ∃ d, (depths (forest.word.map mark) depth)[span.1]? = some d ∧ (depths (forest.word.map mark) depth)[span.2]? = some d := by
  induction forest generalizing depth span with
  | nil => cases member
  | plain e rest ih =>
    obtain ⟨plain, marked⟩ := marked
    obtain ⟨inside, listed, rfl⟩ := List.mem_map.mp member
    rw [Forest.word, List.map_cons, plain, depths, List.getElem?_cons_succ, List.getElem?_cons_succ]
    exact ih marked listed
  | pair opening inner closing rest ihInner ihRest =>
    rw [depths_pair marked]
    obtain ⟨-, inside, -, after⟩ := marked
    have width : (depths (inner.word.map mark) (depth + 1)).length = inner.word.length := by rw [length_depths, List.length_map]
    rw [Forest.spans, List.cons_append, List.mem_cons, List.mem_append] at member
    rcases member with rfl | member | member
    · refine ⟨depth, rfl, ?_⟩
      rw [List.getElem?_cons_succ, List.getElem?_append_right (Nat.le_of_eq width), width, Nat.sub_self]
      rfl
    · obtain ⟨within, listed, rfl⟩ := List.mem_map.mp member
      obtain ⟨d, opens, closes⟩ := ihInner inside listed
      refine ⟨d, ?_, ?_⟩
      · rw [List.getElem?_cons_succ, List.getElem?_append_left (List.getElem?_eq_some_iff.mp opens).1, opens]
      · rw [List.getElem?_cons_succ, List.getElem?_append_left (List.getElem?_eq_some_iff.mp closes).1, closes]
    · obtain ⟨within, listed, rfl⟩ := List.mem_map.mp member
      obtain ⟨d, opens, closes⟩ := ihRest after listed
      have shifted (i : ℕ) : (depth :: (depths (inner.word.map mark) (depth + 1) ++ depth :: depths (rest.word.map mark) depth))[
          i + (inner.word.length + 2)]? = (depths (rest.word.map mark) depth)[i]? := by
        rw [show i + (inner.word.length + 2) = (inner.word.length + (i + 1)) + 1 by omega, List.getElem?_cons_succ,
          List.getElem?_append_right (by omega), width, Nat.add_sub_cancel_left, List.getElem?_cons_succ]
      exact ⟨d, (shifted _).trans opens, (shifted _).trans closes⟩

/-- A bracket opens and closes where its span says. -/
theorem marks_spans (marked : forest.Marked mark) {span : ℕ × ℕ} (member : span ∈ forest.spans) :
    (forest.word.map mark)[span.1]? = some .opening ∧ (forest.word.map mark)[span.2]? = some .closing := by
  induction forest generalizing span with
  | nil => cases member
  | plain e rest ih =>
    obtain ⟨inside, listed, rfl⟩ := List.mem_map.mp member
    rw [Forest.word, List.map_cons, List.getElem?_cons_succ, List.getElem?_cons_succ]
    exact ih marked.2 listed
  | pair opening inner closing rest ihInner ihRest =>
    obtain ⟨opens, inside, closes, after⟩ := marked
    have word : (Forest.pair opening inner closing rest).word.map mark =
        .opening :: (inner.word.map mark ++ .closing :: rest.word.map mark) := by
      rw [Forest.word, List.cons_append, List.map_cons, List.map_append, List.map_cons, opens, closes]
    have width : (inner.word.map mark).length = inner.word.length := List.length_map _
    rw [word]
    rw [Forest.spans, List.cons_append, List.mem_cons, List.mem_append] at member
    rcases member with rfl | member | member
    · refine ⟨rfl, ?_⟩
      rw [List.getElem?_cons_succ, List.getElem?_append_right (Nat.le_of_eq width), width, Nat.sub_self]
      rfl
    · obtain ⟨within, listed, rfl⟩ := List.mem_map.mp member
      obtain ⟨first, last⟩ := ihInner inside listed
      rw [List.getElem?_cons_succ, List.getElem?_cons_succ, List.getElem?_append_left (List.getElem?_eq_some_iff.mp first).1,
        List.getElem?_append_left (List.getElem?_eq_some_iff.mp last).1]
      exact ⟨first, last⟩
    · obtain ⟨within, listed, rfl⟩ := List.mem_map.mp member
      have shifted (i : ℕ) : (Mark.opening :: (inner.word.map mark ++ .closing :: rest.word.map mark))[i + (inner.word.length + 2)]? =
          (rest.word.map mark)[i]? := by
        rw [show i + (inner.word.length + 2) = (inner.word.length + (i + 1)) + 1 by omega, List.getElem?_cons_succ,
          List.getElem?_append_right (by omega), width, Nat.add_sub_cancel_left, List.getElem?_cons_succ]
      rw [shifted, shifted]
      exact ihRest after listed

end Brackets
