import Mathlib.Data.List.Infix

/-! Patterns of LIKE: one wildcard stands for any text, one for any character, and an escape takes the next character as it
is. A term whose special characters are escaped matches itself and nothing else. -/
namespace Like

structure Wildcards (A : Type*) where
  any : A
  one : A
  escape : A
  any_ne_one : any ≠ one
  any_ne_escape : any ≠ escape
  one_ne_escape : one ≠ escape

variable {A : Type*} [DecidableEq A] (w : Wildcards A)

/-- An escape at the end of the pattern matches nothing. -/
def like : List A → List A → Bool
  | [], text => text.isEmpty
  | p :: ps, text =>
    if p = w.any then text.tails.any (like ps)
    else if p = w.escape then
      match ps, text with
      | q :: qs, c :: cs => q = c && like qs cs
      | _, _ => false
    else
      match text with
      | [] => false
      | c :: cs => (p = w.one || p = c) && like ps cs

def Special (x : A) : Prop := x = w.any ∨ x = w.one ∨ x = w.escape

instance decidableSpecial (x : A) : Decidable (Special w x) := inferInstanceAs (Decidable (_ ∨ _))

/-- The special characters are escaped. -/
def escaped (term : List A) : List A := term.flatMap fun x => if Special w x then [w.escape, x] else [x]

variable {w} {ps term text : List A} {x : A}

theorem like_any : like w (w.any :: ps) text = true ↔ ∃ rest, rest <:+ text ∧ like w ps rest = true := by
  rw [like.eq_def]
  dsimp only
  rw [if_pos rfl, List.any_eq_true]
  simp only [List.mem_tails]

theorem like_escape : like w (w.escape :: x :: ps) text = true ↔ ∃ rest, text = x :: rest ∧ like w ps rest = true := by
  rw [like.eq_def]
  dsimp only
  rw [if_neg w.any_ne_escape.symm, if_pos rfl]
  cases text with
  | nil => simp
  | cons c cs =>
    simp only [Bool.and_eq_true, decide_eq_true_eq, List.cons.injEq]
    constructor
    · rintro ⟨rfl, rest⟩
      exact ⟨cs, ⟨rfl, rfl⟩, rest⟩
    · rintro ⟨rest, ⟨rfl, rfl⟩, matched⟩
      exact ⟨rfl, matched⟩

theorem like_plain (plain : ¬ Special w x) :
    like w (x :: ps) text = true ↔ ∃ rest, text = x :: rest ∧ like w ps rest = true := by
  simp only [Special, not_or] at plain
  rw [like.eq_def]
  dsimp only
  rw [if_neg plain.1, if_neg plain.2.2]
  cases text with
  | nil => simp
  | cons c cs =>
    simp only [Bool.and_eq_true, Bool.or_eq_true, decide_eq_true_eq, plain.2.1, false_or, List.cons.injEq]
    constructor
    · rintro ⟨rfl, rest⟩
      exact ⟨cs, ⟨rfl, rfl⟩, rest⟩
    · rintro ⟨rest, ⟨rfl, rfl⟩, matched⟩
      exact ⟨rfl, matched⟩

/-- An escaped term consumes itself. -/
theorem like_escaped (term : List A) : like w (escaped w term ++ ps) text = true ↔
    ∃ rest, text = term ++ rest ∧ like w ps rest = true := by
  induction term generalizing text with
  | nil => simp [escaped]
  | cons x term ih =>
    have first : like w (escaped w (x :: term) ++ ps) text = true ↔
        ∃ rest, text = x :: rest ∧ like w (escaped w term ++ ps) rest = true := by
      rw [escaped, List.flatMap_cons, ← escaped]
      by_cases special : Special w x
      · rw [if_pos special]
        exact like_escape
      · rw [if_neg special]
        exact like_plain special
    rw [first]
    simp only [ih, List.cons_append]
    constructor
    · rintro ⟨_, rfl, rest, rfl, matched⟩
      exact ⟨rest, rfl, matched⟩
    · rintro ⟨rest, rfl, matched⟩
      exact ⟨_, rfl, rest, rfl, matched⟩

/-- Between two wildcards, an escaped term matches exactly the texts that contain it. -/
theorem like_contains : like w (w.any :: (escaped w term ++ [w.any])) text = true ↔ term <:+: text := by
  rw [like_any]
  constructor
  · rintro ⟨rest, ⟨front, rfl⟩, matched⟩
    obtain ⟨back, rfl, _⟩ := (like_escaped term).mp matched
    exact ⟨front, back, List.append_assoc ..⟩
  · rintro ⟨front, back, rfl⟩
    refine ⟨term ++ back, ⟨front, (List.append_assoc ..).symm⟩, ?_⟩
    refine (like_escaped term).mpr ⟨back, rfl, like_any.mpr ⟨[], List.nil_suffix, rfl⟩⟩

end Like
