import Mathlib.Data.Option.Basic

/-! cache.ts: every process keeps local copies of entries in front of one Redis.
A read trusts an unexpired local copy and otherwise mirrors the Redis entry with
its remaining life. Times are milliseconds. -/
namespace Octraban

structure Entry (V : Type*) where
  payload : V
  expiresAt : Option Nat
  deriving DecidableEq, Repr

/-- `isExpired` negated; Redis drops its entries by the same rule. -/
def Entry.live (entry : Entry V) (now : Nat) : Bool := entry.expiresAt.all fun at_ => now < at_

/-- One cache key: the Redis entry and the `memoryStore` entry of each process. -/
@[ext] structure Cell (P V : Type*) where
  redis : Option (Entry V)
  memoryStore : P → Option (Entry V)

namespace Cell
variable {P V : Type*} [DecidableEq P]

def empty : Cell P V := ⟨none, fun _ => none⟩

def buildExpiry (now ttlSeconds : Nat) : Option Nat :=
  if ttlSeconds = 0 then none else some (now + ttlSeconds * 1000)

/-- The local store of `p` with another entry for the key. -/
def lruSet (cell : Cell P V) (p : P) (entry : Option (Entry V)) : Cell P V :=
  { cell with memoryStore := Function.update cell.memoryStore p entry }

def cacheGet (cell : Cell P V) (p : P) (now : Nat) : Option V × Cell P V :=
  match (cell.memoryStore p).filter fun entry => entry.live now with
  | some copy => (some copy.payload, cell)
  | none =>
    match cell.redis.filter fun entry => entry.live now with
    | some entry => (some entry.payload, cell.lruSet p (some entry))
    | none => (none, cell.lruSet p none)

def cacheSet (cell : Cell P V) (p : P) (now : Nat) (value : V) (ttlSeconds : Nat) : Cell P V :=
  let entry := ⟨value, buildExpiry now ttlSeconds⟩
  { cell.lruSet p (some entry) with redis := some entry }

def cacheDelete (cell : Cell P V) (p : P) : Cell P V :=
  { cell.lruSet p none with redis := none }

/-- What the LRU bound may do to the key at any time. -/
def evict (cell : Cell P V) (p : P) : Cell P V := cell.lruSet p none

/-- `entry` is stored for the key in Redis or in some process. -/
def Copy (cell : Cell P V) (entry : Entry V) : Prop :=
  cell.redis = some entry ∨ ∃ p, cell.memoryStore p = some entry

/-- A read of the key may still return `value`. -/
def Holds (cell : Cell P V) (now : Nat) (value : V) : Prop :=
  ∃ entry, cell.Copy entry ∧ entry.live now ∧ entry.payload = value

/-- A read by `p` sees the Redis entry, from its local copy or directly. -/
def current [DecidableEq V] (cell : Cell P V) (p : P) (now : Nat) : Bool :=
  ((cell.memoryStore p).filter fun entry => entry.live now).all fun entry => cell.redis = some entry

theorem copy_lruSet {cell : Cell P V} {p : P} {new : Option (Entry V)} {entry : Entry V}
    (copy : (cell.lruSet p new).Copy entry) : new = some entry ∨ cell.Copy entry := by
  rcases copy with stored | ⟨q, stored⟩
  · exact .inr (.inl stored)
  · simp only [lruSet, Function.update_apply] at stored
    split at stored
    · exact .inl stored
    · exact .inr (.inr ⟨q, stored⟩)

omit [DecidableEq P] in
theorem copy_of_live {stored : Option (Entry V)} {now : Nat}
    (found : stored.filter (fun entry => entry.live now) = some entry) :
    stored = some entry ∧ entry.live now := Option.filter_eq_some_iff.mp found

theorem cacheGet_cases (cell : Cell P V) (p : P) (now : Nat) :
    (∃ entry, cell.Copy entry ∧ entry.live now ∧ (cell.cacheGet p now).1 = some entry.payload ∧
      ((cell.cacheGet p now).2 = cell ∨ (cell.cacheGet p now).2 = cell.lruSet p (some entry))) ∨
    ((cell.cacheGet p now).1 = none ∧ (cell.cacheGet p now).2 = cell.lruSet p none) := by
  rw [cacheGet]
  split
  · rename_i copy found
    obtain ⟨stored, live⟩ := copy_of_live found
    exact .inl ⟨copy, .inr ⟨p, stored⟩, live, rfl, .inl rfl⟩
  · split
    · rename_i entry found
      obtain ⟨stored, live⟩ := copy_of_live found
      exact .inl ⟨entry, .inl stored, live, rfl, .inr rfl⟩
    · exact .inr ⟨rfl, rfl⟩

theorem cacheGet_holds {cell : Cell P V} {p : P} {now : Nat} {value : V}
    (read : (cell.cacheGet p now).1 = some value) : cell.Holds now value := by
  rcases cell.cacheGet_cases p now with ⟨entry, copy, live, found, -⟩ | ⟨missing, -⟩
  · exact ⟨entry, copy, live, Option.some.inj (found.symm.trans read)⟩
  · cases missing.symm.trans read

@[simp] theorem cacheGet_redis (cell : Cell P V) (p : P) (now : Nat) :
    (cell.cacheGet p now).2.redis = cell.redis := by
  rcases cell.cacheGet_cases p now with ⟨_, _, _, _, same | mirrored⟩ | ⟨_, dropped⟩
  · rw [same]
  · rw [mirrored, lruSet]
  · rw [dropped, lruSet]

theorem cacheGet_of_current [DecidableEq V] {cell : Cell P V} {p : P} {now : Nat}
    (current : cell.current p now = true) : (cell.cacheGet p now).1 =
      (cell.redis.filter fun entry => entry.live now).map Entry.payload := by
  rw [cacheGet]
  split
  · rename_i copy found
    rw [Cell.current, found, Option.all_some, decide_eq_true_eq] at current
    rw [current, Option.filter_some, if_pos (copy_of_live found).2, Option.map_some]
  · split
    · rename_i entry found
      rw [found, Option.map_some]
    · rename_i missing
      rw [missing, Option.map_none]

/-- A read that misses shows that Redis has nothing to read. -/
theorem redis_of_miss {cell : Cell P V} {p : P} {now : Nat} (missed : (cell.cacheGet p now).1 = none)
    (entry : Entry V) (stored : cell.redis = some entry) : entry.live now = false := by
  rw [cacheGet] at missed
  split at missed
  · contradiction
  · split at missed
    · contradiction
    · rename_i expired
      by_contra live
      rw [stored, Option.filter_some, if_pos (Bool.of_not_eq_false live)] at expired
      contradiction

theorem copy_cacheGet {cell : Cell P V} {p : P} {now : Nat} {entry : Entry V}
    (copy : (cell.cacheGet p now).2.Copy entry) : cell.Copy entry := by
  rcases cell.cacheGet_cases p now with ⟨found, stored, -, -, same | mirrored⟩ | ⟨-, dropped⟩
  · rwa [same] at copy
  · rw [mirrored] at copy
    rcases copy_lruSet copy with ⟨⟨⟩⟩ | before
    · exact stored
    · exact before
  · rw [dropped] at copy
    exact (copy_lruSet copy).resolve_left nofun

theorem copy_cacheSet {cell : Cell P V} {p : P} {now ttlSeconds : Nat} {value : V} {entry : Entry V}
    (copy : (cell.cacheSet p now value ttlSeconds).Copy entry) :
    entry = ⟨value, buildExpiry now ttlSeconds⟩ ∨ cell.Copy entry := by
  rcases copy with stored | ⟨q, stored⟩
  · exact .inl (Option.some.inj stored).symm
  · rcases copy_lruSet (show (cell.lruSet p _).Copy entry from .inr ⟨q, stored⟩) with same | before
    · exact .inl (Option.some.inj same).symm
    · exact .inr before

theorem copy_evict {cell : Cell P V} {p : P} {entry : Entry V} (copy : (cell.evict p).Copy entry) :
    cell.Copy entry := (copy_lruSet copy).resolve_left nofun

theorem holds_cacheGet {cell : Cell P V} {p : P} {now : Nat} {value : V}
    (holds : (cell.cacheGet p now).2.Holds later value) : cell.Holds later value := by
  obtain ⟨entry, copy, live, same⟩ := holds
  exact ⟨entry, copy_cacheGet copy, live, same⟩

theorem holds_cacheSet {cell : Cell P V} {p : P} {now ttlSeconds : Nat} {value other : V}
    (holds : (cell.cacheSet p now value ttlSeconds).Holds later other) :
    other = value ∨ cell.Holds later other := by
  obtain ⟨entry, copy, live, same⟩ := holds
  rcases copy_cacheSet copy with rfl | before
  · exact .inl same.symm
  · exact .inr ⟨entry, before, live, same⟩

theorem holds_evict {cell : Cell P V} {p : P} {now : Nat} {value : V}
    (holds : (cell.evict p).Holds now value) : cell.Holds now value := by
  obtain ⟨entry, copy, live, same⟩ := holds
  exact ⟨entry, copy_evict copy, live, same⟩

omit [DecidableEq P] in
/-- Time only takes values away. -/
theorem Holds.earlier {cell : Cell P V} {now later : Nat} {value : V}
    (holds : cell.Holds later value) (passed : now ≤ later) : cell.Holds now value := by
  obtain ⟨entry, copy, live, same⟩ := holds
  refine ⟨entry, copy, ?_, same⟩
  unfold Entry.live at live ⊢
  cases expiry : entry.expiresAt with
  | none => rfl
  | some at_ =>
    rw [expiry, Option.all_some, decide_eq_true_eq] at live
    rw [Option.all_some, decide_eq_true_eq]
    omega

end Cell
end Octraban
