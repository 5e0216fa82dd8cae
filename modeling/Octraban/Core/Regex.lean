import Mathlib.Data.List.Infix
import Mathlib.Data.List.TakeWhile

/-! Regular expressions that are tried by backtracking, and the replacement of all matches from
left to right. Only classes of single characters are repeated. A position is what the character
before it was, a word character or not, and the text behind it. -/
namespace Regex

/-- `repeated` is greedy; `boundary` stands between a word character and another or none. -/
inductive Pattern (α : Type*) where
  | empty
  | one (p : α → Bool)
  | repeated (p : α → Bool)
  | optional (r : Pattern α)
  | both (r s : Pattern α)
  | either (r s : Pattern α)
  | boundary

variable {α : Type*}

/-- Where a greedy repetition may stop, the longest first. -/
@[simp] def repeatedEnds (isWord p : α → Bool) (before : Bool) : List α → List (Bool × List α)
  | [] => [(before, [])]
  | c :: rest =>
    if p c then repeatedEnds isWord p (isWord c) rest ++ [(before, c :: rest)] else [(before, c :: rest)]

/-- Where a match may end, in the order in which the ends are tried. -/
@[simp] def ends (isWord : α → Bool) : Pattern α → Bool → List α → List (Bool × List α)
  | .empty, before, text => [(before, text)]
  | .one _, _, [] => []
  | .one p, _, c :: rest => if p c then [(isWord c, rest)] else []
  | .repeated p, before, text => repeatedEnds isWord p before text
  | .optional r, before, text => ends isWord r before text ++ [(before, text)]
  | .both r s, before, text => (ends isWord r before text).flatMap fun place => ends isWord s place.1 place.2
  | .either r s, before, text => ends isWord r before text ++ ends isWord s before text
  | .boundary, before, text => if before = (text.head?.any isWord) then [] else [(before, text)]

/-- One or more of a class. -/
def Pattern.some (p : α → Bool) : Pattern α := .both (.one p) (.repeated p)

/-- A row of classes. -/
@[simp] def Pattern.row : List (α → Bool) → Pattern α
  | [] => .empty
  | p :: rest => .both (.one p) (Pattern.row rest)

/-- The alternatives in their order. -/
@[simp] def Pattern.anyOf : List (Pattern α) → Pattern α
  | [] => .empty
  | [r] => r
  | r :: rest => .either r (Pattern.anyOf rest)

/-- Fuel for every character; a match that is found is not empty. -/
def replaceWithin (isWord : α → Bool) (r : Pattern α) (replacement : List α) : Nat → Bool → List α → List α
  | 0, _, text => text
  | _ + 1, _, [] => []
  | fuel + 1, before, c :: rest =>
    match (ends isWord r before (c :: rest)).head? with
    | none => c :: replaceWithin isWord r replacement fuel (isWord c) rest
    | some place => replacement ++ replaceWithin isWord r replacement fuel place.1 place.2

/-- `text.replace(/r/g, replacement)`, for an expression without empty matches. -/
def replaceAll (isWord : α → Bool) (r : Pattern α) (replacement : List α) (before : Bool) (text : List α) : List α :=
  replaceWithin isWord r replacement text.length before text

/-- `/r/.test(text)` -/
@[simp] def test (isWord : α → Bool) (r : Pattern α) : Bool → List α → Bool
  | before, [] => (ends isWord r before []).head?.isSome
  | before, c :: rest => (ends isWord r before (c :: rest)).head?.isSome || test isWord r (isWord c) rest

/-- The expression may match nothing. -/
@[simp] def Pattern.nullable : Pattern α → Bool
  | .empty | .repeated _ | .optional _ | .boundary => true
  | .one _ => false
  | .both r s => r.nullable && s.nullable
  | .either r s => r.nullable || s.nullable

/-- A match may begin with the character. -/
@[simp] def Pattern.starts (c : α) : Pattern α → Bool
  | .empty | .boundary => false
  | .one p | .repeated p => p c
  | .optional r => r.starts c
  | .both r s => r.starts c || (r.nullable && s.starts c)
  | .either r s => r.starts c || s.starts c

/-- No class of the expression has the character. -/
@[simp] def Pattern.avoids (c : α) : Pattern α → Bool
  | .empty | .boundary => true
  | .one p | .repeated p => !p c
  | .optional r => r.avoids c
  | .both r s | .either r s => r.avoids c && s.avoids c

/-- Whether a word character stands in front after some text. -/
@[simp] def wordAfter (isWord : α → Bool) : Bool → List α → Bool
  | before, [] => before
  | _, c :: rest => wordAfter isWord (isWord c) rest

variable {isWord p : α → Bool} {r s : Pattern α} {replacement text u t : List α} {before : Bool} {c q : α}
  {place : Bool × List α}

theorem wordAfter_concat (u : List α) (c : α) : wordAfter isWord before (u ++ [c]) = isWord c := by
  induction u generalizing before with
  | nil => rfl
  | cons d rest ih => exact ih

theorem wordAfter_append (u t : List α) :
    wordAfter isWord before (u ++ t) = wordAfter isWord (wordAfter isWord before u) t := by
  induction u generalizing before with
  | nil => rfl
  | cons c rest ih => exact ih

/-- A repetition takes characters of its class only. -/
theorem consumed_of_mem_repeatedEnds (member : place ∈ repeatedEnds isWord p before text) :
    ∃ consumed, text = consumed ++ place.2 ∧ place.1 = wordAfter isWord before consumed ∧ ∀ c ∈ consumed, p c = true := by
  induction text generalizing before with
  | nil =>
    rw [repeatedEnds, List.mem_singleton] at member
    exact ⟨[], by rw [member]; rfl, by rw [member]; rfl, fun _ impossible => (List.not_mem_nil impossible).elim⟩
  | cons c rest ih =>
    have here (same : place = (before, c :: rest)) : ∃ consumed, c :: rest = consumed ++ place.2 ∧
        place.1 = wordAfter isWord before consumed ∧ ∀ c ∈ consumed, p c = true :=
      ⟨[], by rw [same]; rfl, by rw [same]; rfl, fun _ impossible => (List.not_mem_nil impossible).elim⟩
    rw [repeatedEnds] at member
    split at member
    · rename_i taken
      rcases List.mem_append.mp member with later | stop
      · obtain ⟨consumed, split, after, all⟩ := ih later
        refine ⟨c :: consumed, by rw [List.cons_append, ← split], ?_, ?_⟩
        · rw [wordAfter, after]
        · exact List.forall_mem_cons.mpr ⟨taken, all⟩
      · exact here (List.mem_singleton.mp stop)
    · exact here (List.mem_singleton.mp member)

theorem consumed_of_mem_ends (member : place ∈ ends isWord r before text) :
    ∃ consumed, text = consumed ++ place.2 ∧ place.1 = wordAfter isWord before consumed := by
  induction r generalizing before text place with
  | empty =>
    rw [ends, List.mem_singleton] at member
    exact ⟨[], by rw [member]; rfl, by rw [member]; rfl⟩
  | one p =>
    cases text with
    | nil => cases member
    | cons c rest =>
      rw [ends] at member
      split at member
      · rw [List.mem_singleton] at member
        exact ⟨[c], by rw [member]; rfl, by rw [member]; rfl⟩
      · cases member
  | repeated p =>
    obtain ⟨consumed, split, after, -⟩ := consumed_of_mem_repeatedEnds member
    exact ⟨consumed, split, after⟩
  | optional r ih =>
    rw [ends] at member
    rcases List.mem_append.mp member with taken | stop
    · exact ih taken
    · rw [List.mem_singleton] at stop
      exact ⟨[], by rw [stop]; rfl, by rw [stop]; rfl⟩
  | both r s first second =>
    rw [ends] at member
    obtain ⟨middle, left, right⟩ := List.mem_flatMap.mp member
    obtain ⟨front, split, after⟩ := first left
    obtain ⟨back, split', after'⟩ := second right
    refine ⟨front ++ back, by rw [split, split', List.append_assoc], ?_⟩
    rw [wordAfter_append, ← after, after']
  | either r s first second =>
    rw [ends] at member
    rcases List.mem_append.mp member with left | right
    · exact first left
    · exact second right
  | boundary =>
    rw [ends] at member
    split at member
    · cases member
    · rw [List.mem_singleton] at member
      exact ⟨[], by rw [member]; rfl, by rw [member]; rfl⟩

/-- The second part of an expression matches nowhere in the text. -/
theorem ends_both_eq_nil (unmatched : ∀ (before : Bool) (part : List α), part <:+ text → ends isWord s before part = []) :
    ends isWord (.both r s) before text = [] := by
  refine List.flatMap_eq_nil_iff.mpr fun place member => ?_
  obtain ⟨consumed, split, -⟩ := consumed_of_mem_ends member
  exact unmatched place.1 place.2 ⟨consumed, split.symm⟩

theorem length_lt_of_mem_ends (solid : r.nullable = false) (member : place ∈ ends isWord r before text) :
    place.2.length < text.length := by
  have shorter {r : Pattern α} {before : Bool} {text : List α} {place : Bool × List α}
      (member : place ∈ ends isWord r before text) : place.2.length ≤ text.length := by
    obtain ⟨consumed, split, -⟩ := consumed_of_mem_ends member
    rw [split, List.length_append]
    omega
  induction r generalizing before text place with
  | empty | repeated | optional | boundary => cases solid
  | one p =>
    cases text with
    | nil => cases member
    | cons c rest =>
      rw [ends] at member
      split at member
      · rw [List.mem_singleton.mp member]
        exact Nat.lt_succ_self _
      · cases member
  | both r s first second =>
    rw [ends] at member
    obtain ⟨middle, left, right⟩ := List.mem_flatMap.mp member
    rcases Bool.and_eq_false_iff.mp solid with solid | solid
    · exact Nat.lt_of_le_of_lt (shorter right) (first solid left)
    · exact Nat.lt_of_lt_of_le (second solid right) (shorter left)
  | either r s first second =>
    obtain ⟨left_solid, right_solid⟩ := Bool.or_eq_false_iff.mp solid
    rw [ends] at member
    rcases List.mem_append.mp member with left | right
    · exact first left_solid left
    · exact second right_solid right

/-- What cannot begin with a character stays in front of it. -/
theorem eq_of_mem_ends (foreign : r.starts c = false) (member : place ∈ ends isWord r before (c :: text)) :
    place = (before, c :: text) := by
  induction r generalizing before place with
  | empty => exact List.mem_singleton.mp member
  | one p =>
    rw [ends, if_neg (by simpa [Pattern.starts] using foreign)] at member
    cases member
  | repeated p =>
    rw [ends, repeatedEnds, if_neg (by simpa [Pattern.starts] using foreign)] at member
    exact List.mem_singleton.mp member
  | optional r ih =>
    rw [ends] at member
    rcases List.mem_append.mp member with taken | stop
    · exact ih foreign taken
    · exact List.mem_singleton.mp stop
  | both r s first second =>
    rw [Pattern.starts, Bool.or_eq_false_iff] at foreign
    rw [ends] at member
    obtain ⟨middle, left, right⟩ := List.mem_flatMap.mp member
    have same := first foreign.1 left
    rw [same] at left right
    have blank : r.nullable = true := by
      by_contra solid
      exact Nat.lt_irrefl _ (length_lt_of_mem_ends (by simpa using solid) left)
    exact second (by simpa [blank] using foreign.2) right
  | either r s first second =>
    rw [Pattern.starts, Bool.or_eq_false_iff] at foreign
    rw [ends] at member
    rcases List.mem_append.mp member with left | right
    · exact first foreign.1 left
    · exact second foreign.2 right
  | boundary =>
    rw [ends] at member
    split at member
    · cases member
    · exact List.mem_singleton.mp member

theorem ends_eq_nil (solid : r.nullable = false) (foreign : r.starts c = false) (text : List α) :
    ends isWord r before (c :: text) = [] := by
  refine List.eq_nil_iff_forall_not_mem.mpr fun place member => ?_
  have shorter := length_lt_of_mem_ends solid member
  rw [eq_of_mem_ends foreign member] at shorter
  exact Nat.lt_irrefl _ shorter

/-- Places with more text behind them. -/
def extend (t : List α) (places : List (Bool × List α)) : List (Bool × List α) :=
  places.map fun place => (place.1, place.2 ++ t)

theorem repeatedEnds_append (avoided : p q = false) (u t : List α) :
    repeatedEnds isWord p before (u ++ q :: t) = extend (q :: t) (repeatedEnds isWord p before u) := by
  induction u generalizing before with
  | nil => simp [repeatedEnds, extend, avoided]
  | cons c rest ih =>
    rw [List.cons_append, repeatedEnds, repeatedEnds]
    split
    · rw [ih, extend, extend, List.map_append]
      rfl
    · rfl

/-- A character that no class has ends every match in front of it. -/
theorem ends_append (avoided : r.avoids q = true) (apart : isWord q = false) (u t : List α) :
    ends isWord r before (u ++ q :: t) = extend (q :: t) (ends isWord r before u) := by
  induction r generalizing before u with
  | empty => rfl
  | one p =>
    have rejected : p q = false := by simpa [Pattern.avoids] using avoided
    cases u with
    | nil => simp [ends, extend, rejected]
    | cons c rest =>
      rw [List.cons_append, ends, ends]
      split <;> rfl
  | repeated p => exact repeatedEnds_append (by simpa [Pattern.avoids] using avoided) u t
  | optional r ih =>
    rw [ends, ends, ih avoided, extend, extend, List.map_append]
    rfl
  | both r s first second =>
    obtain ⟨left, right⟩ := Bool.and_eq_true_iff.mp avoided
    rw [ends, ends, first left, extend, extend, List.map_flatMap, List.flatMap_map]
    refine congrArg (fun f => List.flatMap f _) (funext fun place => ?_)
    exact second right place.2
  | either r s first second =>
    obtain ⟨left, right⟩ := Bool.and_eq_true_iff.mp avoided
    rw [ends, ends, first left, second right, extend, extend, extend, List.map_append]
  | boundary =>
    cases u with
    | nil => cases before <;> simp [ends, extend, apart]
    | cons c rest =>
      rw [List.cons_append, ends, ends, List.head?_cons, List.head?_cons]
      split <;> rfl

theorem replaceWithin_eq (solid : r.nullable = false) {fuel other : Nat} (enough : text.length ≤ fuel)
    (enough' : text.length ≤ other) :
    replaceWithin isWord r replacement fuel before text = replaceWithin isWord r replacement other before text := by
  induction fuel generalizing other before text with
  | zero =>
    obtain rfl := List.length_eq_zero_iff.mp (Nat.le_zero.mp enough)
    cases other <;> rfl
  | succ fuel ih =>
    cases text with
    | nil => cases other <;> rfl
    | cons c rest =>
      obtain ⟨other, rfl⟩ := Nat.exists_eq_add_of_le' (Nat.lt_of_lt_of_le (Nat.succ_pos _) enough')
      rw [List.length_cons] at enough enough'
      rw [replaceWithin, replaceWithin]
      cases found : (ends isWord r before (c :: rest)).head? with
      | none => exact congrArg _ (ih (by omega) (by omega))
      | some place =>
        have shorter := length_lt_of_mem_ends solid (List.mem_of_mem_head? found)
        rw [List.length_cons] at shorter
        exact congrArg _ (ih (by omega) (by omega))

@[simp] theorem replaceAll_nil : replaceAll isWord r replacement before [] = [] := rfl

/-- The leftmost position is kept or a match there is replaced. -/
theorem replaceAll_cons (solid : r.nullable = false) (c : α) (rest : List α) :
    replaceAll isWord r replacement before (c :: rest) =
      ((ends isWord r before (c :: rest)).head?.elim (c :: replaceAll isWord r replacement (isWord c) rest)
        fun place => replacement ++ replaceAll isWord r replacement place.1 place.2) := by
  rw [replaceAll, List.length_cons, replaceWithin]
  cases found : (ends isWord r before (c :: rest)).head? with
  | none => rfl
  | some place =>
    have shorter := length_lt_of_mem_ends solid (List.mem_of_mem_head? found)
    rw [List.length_cons] at shorter
    exact congrArg _ (replaceWithin_eq solid (by omega) (le_refl _))

theorem replaceAll_cons_of_foreign (solid : r.nullable = false) (foreign : r.starts c = false) (rest : List α) :
    replaceAll isWord r replacement before (c :: rest) = c :: replaceAll isWord r replacement (isWord c) rest := by
  rw [replaceAll_cons solid, ends_eq_nil solid foreign]
  rfl

/-- A text of which no character begins a match stands as it is. -/
theorem replaceAll_append_of_foreign (solid : r.nullable = false) (foreign : ∀ c ∈ u, r.starts c = false)
    (t : List α) : replaceAll isWord r replacement before (u ++ t) =
      u ++ replaceAll isWord r replacement (wordAfter isWord before u) t := by
  induction u generalizing before with
  | nil => rfl
  | cons c rest ih =>
    rw [List.cons_append, replaceAll_cons_of_foreign solid (foreign c List.mem_cons_self),
      ih fun d member => foreign d (List.mem_cons_of_mem _ member)]
    rfl

/-- No match that begins in the first text reaches into the second, and none is made by it. -/
def Wall (isWord : α → Bool) (r : Pattern α) (u t : List α) : Prop :=
  ∀ (before : Bool) (s : List α), s ≠ [] → s <:+ u → ends isWord r before (s ++ t) = extend t (ends isWord r before s)

theorem Wall.nil (isWord : α → Bool) (r : Pattern α) (u : List α) : Wall isWord r u [] := by
  intro before s _ _
  simp [extend]

theorem Wall.suffix {part : List α} (wall : Wall isWord r u t) (inner : part <:+ u) : Wall isWord r part t :=
  fun before text some_text inside => wall before text some_text (inside.trans inner)

theorem replaceAll_append (solid : r.nullable = false) (wall : Wall isWord r u t) :
    replaceAll isWord r replacement before (u ++ t) =
      replaceAll isWord r replacement before u ++ replaceAll isWord r replacement (wordAfter isWord before u) t := by
  obtain ⟨size, bound⟩ : ∃ size, u.length ≤ size := ⟨_, le_refl _⟩
  induction size generalizing before u with
  | zero =>
    obtain rfl := List.length_eq_zero_iff.mp (Nat.le_zero.mp bound)
    rfl
  | succ size ih =>
    cases u with
    | nil => rfl
    | cons c rest =>
      have here := wall before (c :: rest) (List.cons_ne_nil _ _) (List.suffix_refl _)
      rw [List.cons_append] at here ⊢
      rw [List.length_cons] at bound
      rw [replaceAll_cons solid, replaceAll_cons solid, here, extend, List.head?_map]
      cases found : (ends isWord r before (c :: rest)).head? with
      | none =>
        have later := @ih rest (isWord c) (wall.suffix (List.suffix_cons c rest)) (by omega)
        simp only [Option.map_none, Option.elim_none, later, List.cons_append]
        rfl
      | some place =>
        have member := List.mem_of_mem_head? found
        obtain ⟨consumed, split, after⟩ := consumed_of_mem_ends member
        have shorter := length_lt_of_mem_ends solid member
        rw [List.length_cons] at shorter
        have later := @ih place.2 place.1 (wall.suffix ⟨consumed, split.symm⟩) (by omega)
        have word : wordAfter isWord place.1 place.2 = wordAfter isWord before (c :: rest) := by
          rw [split, wordAfter_append, after]
        simp only [Option.map_some, Option.elim_some, later, word, List.append_assoc]

/-- What is left of a text, and what replaces the rest. -/
theorem mem_of_mem_replaceAll (solid : r.nullable = false) (member : c ∈ replaceAll isWord r replacement before text) :
    c ∈ text ∨ c ∈ replacement := by
  obtain ⟨size, bound⟩ : ∃ size, text.length ≤ size := ⟨_, le_refl _⟩
  induction size generalizing before text with
  | zero =>
    obtain rfl := List.length_eq_zero_iff.mp (Nat.le_zero.mp bound)
    cases member
  | succ size ih =>
    cases text with
    | nil => cases member
    | cons d rest =>
      rw [replaceAll_cons solid] at member
      rw [List.length_cons] at bound
      cases found : (ends isWord r before (d :: rest)).head? with
      | none =>
        rw [found, Option.elim_none] at member
        rcases List.mem_cons.mp member with rfl | later
        · exact .inl List.mem_cons_self
        · exact (ih later (by omega)).imp_left (List.mem_cons_of_mem d)
      | some place =>
        rw [found, Option.elim_some] at member
        have inside := List.mem_of_mem_head? found
        have shorter := length_lt_of_mem_ends solid inside
        rw [List.length_cons] at shorter
        obtain ⟨consumed, split, -⟩ := consumed_of_mem_ends inside
        rcases List.mem_append.mp member with new | later
        · exact .inr new
        · refine (ih later (by omega)).imp_left fun old => ?_
          rw [split]
          exact List.mem_append_right _ old

/-- A text ends as before or in the replacement. -/
theorem getLast?_replaceAll (solid : r.nullable = false) (some_text : text ≠ []) (some_new : replacement ≠ []) :
    (replaceAll isWord r replacement before text).getLast? = text.getLast? ∨
      (replaceAll isWord r replacement before text).getLast? = replacement.getLast? := by
  obtain ⟨size, bound⟩ : ∃ size, text.length ≤ size := ⟨_, le_refl _⟩
  induction size generalizing before text with
  | zero => exact absurd (List.length_eq_zero_iff.mp (Nat.le_zero.mp bound)) some_text
  | succ size ih =>
    cases text with
    | nil => exact absurd rfl some_text
    | cons c rest =>
      rw [replaceAll_cons solid]
      rw [List.length_cons] at bound
      cases found : (ends isWord r before (c :: rest)).head? with
      | none =>
        rw [Option.elim_none]
        cases rest with
        | nil => exact .inl rfl
        | cons d more =>
          have later := @ih (d :: more) (isWord c) (List.cons_ne_nil d more) (by omega)
          rw [List.getLast?_cons, List.getLast?_cons]
          rcases later with same | new
          · left
            rw [same]
          · right
            rw [new, List.getLast?_eq_some_getLast some_new]
            rfl
      | some place =>
        rw [Option.elim_some]
        have inside := List.mem_of_mem_head? found
        have shorter := length_lt_of_mem_ends solid inside
        rw [List.length_cons] at shorter
        obtain ⟨consumed, split, -⟩ := consumed_of_mem_ends inside
        by_cases ended : place.2 = []
        · right
          rw [ended, replaceAll_nil, List.append_nil]
        · have later := @ih place.2 place.1 ended (by omega)
          rw [List.getLast?_append, split, List.getLast?_append]
          rcases later with same | new
          · left
            rw [same, List.getLast?_eq_some_getLast ended]
            rfl
          · right
            rw [new, List.getLast?_eq_some_getLast some_new]
            rfl

/-- Deletion leaves a part of the text. -/
theorem replaceAll_nil_sublist (solid : r.nullable = false) (before : Bool) (text : List α) :
    (replaceAll isWord r [] before text).Sublist text := by
  obtain ⟨size, bound⟩ : ∃ size, text.length ≤ size := ⟨_, le_refl _⟩
  induction size generalizing before text with
  | zero =>
    obtain rfl := List.length_eq_zero_iff.mp (Nat.le_zero.mp bound)
    exact List.Sublist.refl []
  | succ size ih =>
    cases text with
    | nil => exact List.Sublist.refl []
    | cons c rest =>
      rw [replaceAll_cons solid]
      rw [List.length_cons] at bound
      cases found : (ends isWord r before (c :: rest)).head? with
      | none => exact (ih (isWord c) rest (by omega)).cons_cons c
      | some place =>
        have inside := List.mem_of_mem_head? found
        have shorter := length_lt_of_mem_ends solid inside
        rw [List.length_cons] at shorter
        obtain ⟨consumed, split, -⟩ := consumed_of_mem_ends inside
        rw [Option.elim_some, List.nil_append, split]
        exact (ih place.1 place.2 (by omega)).trans (List.sublist_append_right consumed place.2)

/-- A text that holds a match is longer than what is left of it. -/
theorem replaceAll_nil_eq_iff (solid : r.nullable = false) :
    replaceAll isWord r [] before text = text ↔ test isWord r before text = false := by
  induction text generalizing before with
  | nil =>
    refine iff_of_true rfl ?_
    cases found : ends isWord r before [] with
    | nil => rw [test, found]; rfl
    | cons place more =>
      have shorter := length_lt_of_mem_ends solid (found ▸ List.mem_cons_self : place ∈ ends isWord r before [])
      exact absurd shorter (Nat.not_lt_zero _)
  | cons c rest ih =>
    rw [replaceAll_cons solid, test]
    cases found : (ends isWord r before (c :: rest)).head? with
    | none => simp [ih]
    | some place =>
      refine iff_of_false (fun same => ?_) (by simp)
      have shorter := length_lt_of_mem_ends solid (List.mem_of_mem_head? found)
      have kept := (@replaceAll_nil_sublist _ isWord _ solid place.1 place.2).length_le
      rw [Option.elim_some, List.nil_append] at same
      rw [same] at kept
      exact absurd kept (Nat.not_le_of_lt shorter)

/-- A text without a match has none in its end. -/
theorem test_of_append (free : test isWord r before (u ++ t) = false) :
    test isWord r (wordAfter isWord before u) t = false := by
  induction u generalizing before with
  | nil => exact free
  | cons c rest ih =>
    rw [List.cons_append, test, Bool.or_eq_false_iff] at free
    exact ih free.2

/-- A repetition goes to its end where no character of its class begins what follows. -/
theorem ends_repeated_both (solid : s.nullable = false) (apart : ∀ c, p c = true → s.starts c = false) :
    ends isWord (.both (.repeated p) s) before text =
      ends isWord s (wordAfter isWord before (text.takeWhile p)) (text.dropWhile p) := by
  rw [ends, ends]
  induction text generalizing before with
  | nil => simp [repeatedEnds, wordAfter]
  | cons c rest ih =>
    rw [repeatedEnds]
    by_cases taken : p c = true
    · have short := @ends_eq_nil _ isWord _ before _ solid (apart c taken) rest
      rw [if_pos taken, List.flatMap_append, ih, List.takeWhile_cons_of_pos taken, List.dropWhile_cons_of_pos taken,
        List.flatMap_singleton, short, List.append_nil]
      rfl
    · rw [if_neg taken, List.takeWhile_cons_of_neg taken, List.dropWhile_cons_of_neg taken, List.flatMap_singleton]
      rfl

/-- Texts one word and one other character after the next; the last word may be empty. -/
theorem words_induction (isWord : α → Bool) {P : List α → Prop} (last : ∀ run, (∀ c ∈ run, isWord c = true) → P run)
    (more : ∀ run c rest, (∀ c ∈ run, isWord c = true) → isWord c = false →
      (∀ text, text.length ≤ rest.length → P text) → P (run ++ c :: rest)) (text : List α) : P text := by
  obtain ⟨size, bound⟩ : ∃ size, text.length ≤ size := ⟨_, le_refl _⟩
  induction size generalizing text with
  | zero =>
    obtain rfl := List.length_eq_zero_iff.mp (Nat.le_zero.mp bound)
    exact last [] fun _ impossible => (List.not_mem_nil impossible).elim
  | succ size ih =>
    have all : ∀ c ∈ text.takeWhile isWord, isWord c = true := fun c member => List.mem_takeWhile_imp member
    have split := List.takeWhile_append_dropWhile (p := isWord) (l := text)
    cases behind : text.dropWhile isWord with
    | nil =>
      rw [behind, List.append_nil] at split
      exact split ▸ last _ all
    | cons c rest =>
      rw [behind] at split
      have apart : isWord c = false := by
        have some_rest : text.dropWhile isWord ≠ [] := by simp [behind]
        have first := List.head_dropWhile_not isWord some_rest
        simpa [behind] using first
      rw [← split, List.length_append, List.length_cons] at bound
      rw [← split]
      exact more _ c rest all apart fun text short => ih text (by omega)

section words

variable {run rest : List α}

/-- A match at the start of a word begins with word characters. -/
def Pattern.Wordly (isWord : α → Bool) (r : Pattern α) : Prop :=
  r.nullable = false ∧ ∀ c, isWord c = false → r.starts c = false

theorem ends_boundary (wordly : r.Wordly isWord) :
    ends isWord (.both .boundary r) false text = ends isWord r false text := by
  rw [ends, ends]
  cases text with
  | nil =>
    cases found : ends isWord r false [] with
    | nil => simp
    | cons place more =>
      have shorter := length_lt_of_mem_ends wordly.1 (found ▸ List.mem_cons_self : place ∈ ends isWord r false [])
      exact absurd shorter (Nat.not_lt_zero _)
  | cons c rest =>
    cases letter : isWord c with
    | false => simp [letter, ends_eq_nil wordly.1 (wordly.2 c letter)]
    | true => simp [letter]

theorem solid_boundary (wordly : r.Wordly isWord) : (Pattern.both .boundary r).nullable = false := by
  rw [Pattern.nullable, wordly.1, Bool.and_false]

/-- Within a word nothing is replaced. -/
theorem replaceAll_within (wordly : r.Wordly isWord) (all : ∀ c ∈ run, isWord c = true) (rest : List α) :
    replaceAll isWord (.both .boundary r) replacement true (run ++ rest) =
      run ++ replaceAll isWord (.both .boundary r) replacement true rest := by
  induction run with
  | nil => rfl
  | cons c more ih =>
    obtain ⟨letter, all⟩ := List.forall_mem_cons.mp all
    have nothing : ends isWord (.both .boundary r) true (c :: (more ++ rest)) = [] := by
      simp [ends, letter]
    rw [List.cons_append, replaceAll_cons (solid_boundary wordly), nothing, letter, List.cons_append, ← ih all]
    rfl

/-- A word is replaced as a whole with what follows, or it is kept with the character behind it. -/
theorem replaceAll_word (wordly : r.Wordly isWord) (all : ∀ c ∈ run, isWord c = true) (apart : isWord c = false) :
    replaceAll isWord (.both .boundary r) replacement false (run ++ c :: rest) =
      (ends isWord r false (run ++ c :: rest)).head?.elim
        (run ++ c :: replaceAll isWord (.both .boundary r) replacement false rest)
        fun place => replacement ++ replaceAll isWord (.both .boundary r) replacement place.1 place.2 := by
  have solid := solid_boundary wordly
  have behind (before : Bool) : replaceAll isWord (.both .boundary r) replacement before (c :: rest) =
      c :: replaceAll isWord (.both .boundary r) replacement false rest := by
    have foreign : (Pattern.both .boundary r).starts c = false := by
      simp [Pattern.starts, Pattern.nullable, wordly.2 c apart]
    rw [replaceAll_cons_of_foreign solid foreign, apart]
  cases run with
  | nil =>
    rw [List.nil_append, behind, ends_eq_nil wordly.1 (wordly.2 c apart)]
    rfl
  | cons d more =>
    obtain ⟨letter, all⟩ := List.forall_mem_cons.mp all
    rw [List.cons_append, replaceAll_cons solid, ends_boundary wordly, letter,
      replaceAll_within wordly all, behind]
    rfl

/-- The last word is kept where nothing matches within it. -/
theorem replaceAll_last_word (wordly : r.Wordly isWord) (all : ∀ c ∈ run, isWord c = true)
    (unmatched : ends isWord r false run = []) : replaceAll isWord (.both .boundary r) replacement false run = run := by
  cases run with
  | nil => rfl
  | cons d more =>
    obtain ⟨letter, all⟩ := List.forall_mem_cons.mp all
    have rest := @replaceAll_within _ isWord _ replacement _ wordly all []
    rw [List.append_nil] at rest
    rw [replaceAll_cons (solid_boundary wordly), ends_boundary wordly, unmatched, letter, rest]
    simp

end words

end Regex
