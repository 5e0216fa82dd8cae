import Mathlib.Data.List.Sort
import Octraban.Core.JavaScript
import Octraban.Core.OrderedMap

/-! Objects that are used as maps: the order of their own fields, and the names that every
object inherits. -/
namespace JavaScript
variable {V : Type*}

/-- Names that every object has without owning them. -/
def inherited : List String :=
  ["__proto__", "constructor", "hasOwnProperty", "isPrototypeOf", "propertyIsEnumerable", "toLocaleString",
    "toString", "valueOf", "__defineGetter__", "__defineSetter__", "__lookupGetter__", "__lookupSetter__"]

def arrayIndex (key : String) : Option Nat :=
  let n := value key.toList
  if decimal n = key.toList ∧ n < 2 ^ 32 - 1 then some n else none

/-- The array indices come first, in their order, then the other keys as they were put in. -/
def ownEntries (object : OrderedMap String V) : List (String × V) :=
  let (indices, names) := object.entries.partition fun entry => (arrayIndex entry.1).isSome
  indices.insertionSort (fun a b => (arrayIndex a.1).getD 0 ≤ (arrayIndex b.1).getD 0) ++ names

theorem perm_ownEntries (object : OrderedMap String V) : (ownEntries object).Perm object.entries := by
  unfold ownEntries
  rw [List.partition_eq_filter_filter]
  exact ((List.perm_insertionSort _ _).append_right _).trans (List.filter_append_perm _ _)

variable {K : Type*} {index : K → Option Nat} {entries : List (K × V)}

/-- The order of the own fields for keys of any type, by the array index that a key is. -/
def ordered (index : K → Option Nat) (entries : List (K × V)) : List (K × V) :=
  (entries.filter fun entry => (index entry.1).isSome).insertionSort
    (fun a b => (index a.1).getD 0 ≤ (index b.1).getD 0) ++ entries.filter fun entry => !(index entry.1).isSome

theorem perm_ordered (index : K → Option Nat) (entries : List (K × V)) : (ordered index entries).Perm entries :=
  ((List.perm_insertionSort _ _).append_right _).trans (List.filter_append_perm _ _)

/-- Fields in their order stay in it. -/
theorem ordered_ordered (index : K → Option Nat) (entries : List (K × V)) :
    ordered index (ordered index entries) = ordered index entries := by
  let below (a b : K × V) : Prop := (index a.1).getD 0 ≤ (index b.1).getD 0
  have : Std.Total below := ⟨fun a b => Nat.le_total _ _⟩
  have : IsTrans (K × V) below := ⟨fun a b c => Nat.le_trans⟩
  have sorted := List.pairwise_insertionSort below (entries.filter fun entry => (index entry.1).isSome)
  set indices := (entries.filter fun entry => (index entry.1).isSome).insertionSort below with indices_eq
  have indexed : ∀ entry ∈ indices, (index entry.1).isSome = true := by
    intro entry member
    rw [indices_eq, List.mem_insertionSort] at member
    exact (List.mem_filter.mp member).2
  have named : ∀ entry ∈ entries.filter (fun entry => !(index entry.1).isSome), (index entry.1).isSome = false := by
    intro entry member
    simpa using (List.mem_filter.mp member).2
  have split : ordered index entries = indices ++ entries.filter fun entry => !(index entry.1).isSome := rfl
  rw [split, ordered, List.filter_append, List.filter_append, List.filter_eq_self.mpr indexed,
    List.filter_eq_nil_iff.mpr (fun entry member => by simp [named entry member]), List.append_nil,
    List.filter_eq_nil_iff.mpr (fun entry member => by simp [indexed entry member]), List.nil_append,
    List.filter_eq_self.mpr (fun entry member => by simp [named entry member])]
  exact congrArg (· ++ _) sorted.insertionSort_eq

end JavaScript
