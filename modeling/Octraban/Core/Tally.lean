import Octraban.Core.OrderedMap

/-! A table of counters kept beside a set: one goes up when an element comes in, and down
when it goes, and a counter at zero is removed. -/
namespace Tally

variable {K E : Type*} [DecidableEq K]

def inc (counts : OrderedMap K Nat) (k : K) : OrderedMap K Nat := counts.set k ((counts.get k).getD 0 + 1)

def dec (counts : OrderedMap K Nat) (k : K) : OrderedMap K Nat :=
  let n := (counts.get k).getD 1 - 1
  if n = 0 then counts.erase k else counts.set k n

/-- The elements with key `k`. -/
def having (key : E → K) (k : K) (elements : List E) : List E := elements.filter fun e => key e = k

/-- The counter of a key is the number of its elements, and is there unless that is zero. -/
def Mirrors (counts : OrderedMap K Nat) (key : E → K) (elements : List E) : Prop :=
  ∀ k, counts.get k = if having key k elements = [] then none else some (having key k elements).length

variable {counts : OrderedMap K Nat} {key other : E → K} {elements : List E} {e : E} {k : K}

theorem mirrors_empty : Mirrors .empty key [] := fun _ => rfl

theorem Mirrors.getD (mirrors : Mirrors counts key elements) (k : K) :
    (counts.get k).getD 0 = (having key k elements).length := by
  rw [mirrors k]
  split
  · rename_i none_left
    rw [none_left]
    rfl
  · rfl

theorem Mirrors.congr (mirrors : Mirrors counts key elements) (same : ∀ e ∈ elements, other e = key e) :
    Mirrors counts other elements := by
  intro k
  have filtered : having other k elements = having key k elements :=
    List.filter_congr fun e member => by rw [same e member]
  rw [filtered]
  exact mirrors k

theorem Mirrors.inc (mirrors : Mirrors counts key elements) (e : E) :
    Mirrors (inc counts (key e)) key (elements ++ [e]) := by
  intro k
  have split : having key k (elements ++ [e]) = having key k elements ++ having key k [e] := List.filter_append ..
  by_cases same : k = key e
  · subst same
    have one : having key (key e) [e] = [e] := by simp [having]
    rw [split, one, Tally.inc, OrderedMap.get_set_self, mirrors.getD]
    simp
  · have none_new : having key k [e] = [] := by
      simp only [having, List.filter_eq_nil_iff, List.mem_singleton, decide_eq_true_eq]
      rintro e rfl rfl
      exact same rfl
    rw [split, none_new, List.append_nil, Tally.inc, OrderedMap.get_set_ne same]
    exact mirrors k

variable [DecidableEq E]

theorem having_erase (nodup : elements.Nodup) : having key k (elements.erase e) = (having key k elements).erase e := by
  unfold having
  rw [nodup.erase_eq_filter, (nodup.filter _).erase_eq_filter, List.filter_filter, List.filter_filter]
  exact List.filter_congr fun _ _ => Bool.and_comm _ _

theorem Mirrors.dec (mirrors : Mirrors counts key elements) (nodup : elements.Nodup) (member : e ∈ elements) :
    Mirrors (dec counts (key e)) key (elements.erase e) := by
  intro k
  rw [having_erase nodup]
  have present : e ∈ having key (key e) elements := by simp [having, member]
  have counted : counts.get (key e) = some (having key (key e) elements).length := by
    rw [mirrors (key e), if_neg (List.ne_nil_of_mem present)]
  have fewer : ((having key (key e) elements).erase e).length = (having key (key e) elements).length - 1 :=
    List.length_erase_of_mem present
  by_cases same : k = key e
  · subst same
    simp only [Tally.dec, counted, Option.getD_some, ← fewer]
    by_cases last : (having key (key e) elements).erase e = []
    · rw [if_pos last, if_pos (by rw [last]; rfl), OrderedMap.get_erase, if_pos rfl]
    · rw [if_neg last, if_neg (by rwa [List.length_eq_zero_iff]), OrderedMap.get_set_self]
  · have untouched : (Tally.dec counts (key e)).get k = counts.get k := by
      unfold Tally.dec
      simp only
      split
      · rw [OrderedMap.get_erase, if_neg same]
      · rw [OrderedMap.get_set_ne same]
    have absent : e ∉ having key k elements := by
      simp only [having, List.mem_filter, decide_eq_true_eq]
      rintro ⟨_, rfl⟩
      exact same rfl
    rw [untouched, List.erase_of_not_mem absent]
    exact mirrors k

end Tally
