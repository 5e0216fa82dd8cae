import Mathlib.Data.List.MinMax

/-! One cell of a store, replayed from the changes made to it. A change writes a value or
none, and the changes are in the order of their times. -/
namespace Replay
variable {α T V : Type*} [LinearOrder T] (time : α → T) (written : α → Option V)

def replay (state : Option V) (changes : List α) : Option V := changes.foldl (fun _ change => written change) state

def upTo (t : T) (changes : List α) : List α := changes.filter fun change => time change ≤ t

/-- The changes after `low`, up to `high`. -/
def between (low high : T) (changes : List α) : List α :=
  changes.filter fun change => low < time change ∧ time change ≤ high

def InOrder (changes : List α) : Prop := changes.Pairwise fun first second => time first < time second

variable {time written} {changes rows : List α} {state : Option V} {low high t : T}

end Replay
