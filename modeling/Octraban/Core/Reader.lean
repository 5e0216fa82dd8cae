import Octraban.Core.Leb128

/-! Readers of a buffer that move an offset forward, and what they read off an encoding. -/
namespace Octraban

/-- What is read at an offset, and the offset after it; nothing where it throws. -/
abbrev Reader (α : Type) := StateT Nat Option α

namespace Reader
open Leb128 (Holds)
variable {α β : Type} {buffer bytes first second : List UInt8} {p q : Reader α} {x : α} {limit offset : Nat}

def many (p : Reader α) : Nat → Reader (List α)
  | 0 => pure []
  | n + 1 => do
    let x ← p
    (x :: ·) <$> many p n

/-- The reader is right about an encoding wherever it stands before the limit, and goes on behind it. -/
def Reads (buffer : List UInt8) (limit : Nat) (p : Reader α) (bytes : List UInt8) (x : α) : Prop :=
  ∀ offset, Holds buffer offset bytes → offset + bytes.length ≤ limit → p.run offset = some (x, offset + bytes.length)

/-- The reader is right about an encoding, wherever it goes on. -/
def Returns (buffer : List UInt8) (limit : Nat) (p : Reader α) (bytes : List UInt8) (x : α) : Prop :=
  ∀ offset, Holds buffer offset bytes → offset + bytes.length ≤ limit → ∃ next, p.run offset = some (x, next)

namespace Reads

theorem pure (x : α) : Reads buffer limit (pure x) [] x := fun _ _ _ => rfl

theorem returns (reads : Reads buffer limit p bytes x) : Returns buffer limit p bytes x :=
  fun offset holds inside => ⟨_, reads offset holds inside⟩

theorem run_bind {f : α → Reader β} (reads : Reads buffer limit p first x) (holds : Holds buffer offset first)
    (inside : offset + first.length ≤ limit) : (p >>= f).run offset = (f x).run (offset + first.length) := by
  rw [StateT.run_bind, reads offset holds inside]
  rfl

theorem bind {f : α → Reader β} {y : β} (reads : Reads buffer limit p first x)
    (later : Reads buffer limit (f x) second y) : Reads buffer limit (p >>= f) (first ++ second) y := by
  intro offset holds inside
  rw [List.length_append] at inside ⊢
  obtain ⟨here, there⟩ := Holds.append.mp holds
  rw [reads.run_bind here (by omega)]
  exact (later _ there (by omega)).trans (by rw [Nat.add_assoc])

theorem bind_returns {f : α → Reader β} {y : β} (reads : Reads buffer limit p first x)
    (later : Returns buffer limit (f x) second y) : Returns buffer limit (p >>= f) (first ++ second) y := by
  intro offset holds inside
  rw [List.length_append] at inside
  obtain ⟨here, there⟩ := Holds.append.mp holds
  rw [reads.run_bind here (by omega)]
  exact later _ there (by omega)

theorem bind_pure {f : α → Reader β} {y : β} (reads : Reads buffer limit p bytes x) (last : f x = Pure.pure y) :
    Reads buffer limit (p >>= f) bytes y := by
  intro offset holds inside
  rw [reads.run_bind holds inside]
  exact congrArg (fun q : Reader β => q.run (offset + bytes.length)) last

theorem map {f : α → β} (reads : Reads buffer limit p bytes x) : Reads buffer limit (f <$> p) bytes (f x) := by
  intro offset holds inside
  rw [StateT.run_map, reads offset holds inside]
  rfl

theorem many {encode : β → List UInt8} {f : β → α} {items : List β}
    (each : ∀ item ∈ items, Reads buffer limit p (encode item) (f item)) :
    Reads buffer limit (many p items.length) (items.flatMap encode) (items.map f) := by
  induction items with
  | nil => exact Reads.pure []
  | cons item rest ih =>
    have later := ih fun other member => each other (List.mem_cons_of_mem _ member)
    exact bind (f := fun x => (x :: ·) <$> Reader.many p rest.length) (each item List.mem_cons_self) later.map

end Reads

theorem Returns.map {f : α → β} (returns : Returns buffer limit p bytes x) :
    Returns buffer limit (f <$> p) bytes (f x) := by
  intro offset holds inside
  obtain ⟨next, returned⟩ := returns offset holds inside
  exact ⟨next, by rw [StateT.run_map, returned]; rfl⟩

/-- The place at which the last item ends does not matter. -/
theorem Returns.many {encode : β → List UInt8} {f : β → α} {items : List β}
    (last : ∀ item ∈ items, Returns buffer limit p (encode item) (f item))
    (each : ∀ item ∈ items.dropLast, Reads buffer limit p (encode item) (f item)) :
    Returns buffer limit (many p items.length) (items.flatMap encode) (items.map f) := by
  induction items with
  | nil => exact (Reads.pure []).returns
  | cons item rest ih =>
    obtain ⟨here, later⟩ := List.forall_mem_cons.mp last
    cases rest with
    | nil =>
      intro offset holds inside
      rw [List.flatMap_singleton] at holds inside
      obtain ⟨next, returned⟩ := here offset holds inside
      refine ⟨next, ?_⟩
      rw [List.length_singleton, Reader.many, StateT.run_bind, returned]
      rfl
    | cons second rest =>
      obtain ⟨first, others⟩ := List.forall_mem_cons.mp each
      exact first.bind_returns (f := fun x => (x :: ·) <$> Reader.many p (second :: rest).length) (ih later others).map

/-- Whatever the reader returns is so. -/
def Yields (p : Reader α) (P : α → Prop) : Prop := ∀ offset x next, p.run offset = some (x, next) → P x

namespace Yields
variable {P : α → Prop}

theorem pure (holds : P x) : Yields (pure x) P := by
  intro offset y next returned
  cases returned
  exact holds

theorem bind {f : β → Reader α} {p : Reader β} (each : ∀ y, Yields (f y) P) : Yields (p >>= f) P := by
  intro offset x next returned
  rw [StateT.run_bind] at returned
  obtain ⟨⟨y, middle⟩, -, later⟩ := Option.bind_eq_some_iff.mp returned
  exact each y middle x next later

theorem many (yields : Yields p P) (n : Nat) : Yields (many p n) fun xs => ∀ x ∈ xs, P x := by
  induction n with
  | zero => exact Yields.pure fun _ member => nomatch member
  | succ n ih =>
    intro offset xs next returned
    rw [Reader.many, StateT.run_bind] at returned
    obtain ⟨⟨x, middle⟩, first, later⟩ := Option.bind_eq_some_iff.mp returned
    rw [StateT.run_map] at later
    obtain ⟨⟨rest, last⟩, others, same⟩ := Option.map_eq_some_iff.mp later
    cases same
    exact List.forall_mem_cons.mpr ⟨yields offset x middle first, ih middle rest _ others⟩

end Yields
end Reader
end Octraban
