import Octraban.Core.OrderedMap
import Octraban.Core.Transition

/-! cacheLayer.js, the in-process cache: recency is the order of the entries, since an entry that is
read or written is put in again. Times are milliseconds. -/
namespace Octraban.LruCache
open Ordered

structure Entry (V : Type) where
  value : V
  expiresAt : Int
  computeMs : Int
  deriving DecidableEq

structure LRUCache (V : Type) where
  maxSize : Nat
  map : OrderedMap String (Entry V)

inductive Call (V : Type) where
  | get (key : String)
  | set (key : String) (value : V) (ttlMs computeMs : Int)
  | delete (key : String)
  | deletePattern (pattern : String)

variable {V : Type}

namespace LRUCache

def get (cache : LRUCache V) (now : Int) (key : String) : Option (Entry V) × LRUCache V :=
  match cache.map.get key with
  | none => (none, cache)
  | some entry =>
    if now > entry.expiresAt then (none, { cache with map := cache.map.erase key })
    else (some entry, { cache with map := (cache.map.erase key).set key entry })

def set (cache : LRUCache V) (now : Int) (key : String) (value : V) (ttlMs computeMs : Int) : LRUCache V :=
  let map := cache.map.erase key
  let map :=
    if map.keys.length ≥ cache.maxSize then
      -- the first entry in the order of the map
      match map.keys.head? with
      | some first => map.erase first
      | none => map
    else map
  { cache with map := map.set key ⟨value, now + ttlMs, computeMs⟩ }

def delete (cache : LRUCache V) (key : String) : LRUCache V := { cache with map := cache.map.erase key }

/-- `pattern.endsWith("*") ? pattern.slice(0, -1) : null` -/
def prefixOf (pattern : String) : Option (List Char) :=
  if pattern.toList.getLast? = some '*' then some pattern.toList.dropLast else none

/-- `prefix ? key.startsWith(prefix) : key === pattern`; the empty prefix is falsy. -/
def selects (pattern key : String) : Bool :=
  match prefixOf pattern with
  | none | some [] => key = pattern
  | some start => start.isPrefixOf key.toList

def deletePattern (cache : LRUCache V) (pattern : String) : LRUCache V :=
  { cache with map := (cache.map.keys.filter (selects pattern)).foldl OrderedMap.erase cache.map }

/-- The entry that a write of the key pushes out. -/
def evicted (cache : LRUCache V) (key : String) : Option String :=
  if (cache.map.erase key).keys.length ≥ cache.maxSize then (cache.map.erase key).keys.head? else none

def perform (cache : LRUCache V) (now : Int) : Call V → LRUCache V
  | .get key => (cache.get now key).2
  | .set key value ttlMs computeMs => cache.set now key value ttlMs computeMs
  | .delete key => cache.delete key
  | .deletePattern pattern => cache.deletePattern pattern

end LRUCache

/-! ### The reference -/

/-- A call that has been made, and the key that it evicted. -/
structure Event (V : Type) where
  time : Int
  call : Call V
  evicted : Option String

/-- The calls so far, the last one first. -/
abbrev History (V : Type) := List (Event V)

/-- A pattern that ends in a star stands for all keys that go on from there, another one for itself. -/
def Matches (pattern key : String) : Bool :=
  match LRUCache.prefixOf pattern with
  | none => key = pattern
  | some start => start.isPrefixOf key.toList

/-- The last value set for a key, unless it was deleted or evicted since. -/
def kept : History V → String → Option (Entry V)
  | [], _ => none
  | ⟨time, .set other value ttlMs computeMs, evicted⟩ :: past, key =>
    if key = other then some ⟨value, time + ttlMs, computeMs⟩
    else if evicted = some key then none
    else kept past key
  | ⟨_, .delete other, _⟩ :: past, key => if key = other then none else kept past key
  | ⟨_, .deletePattern pattern, _⟩ :: past, key => if Matches pattern key then none else kept past key
  | ⟨_, .get _, _⟩ :: past, key => kept past key

/-- A key is in the cache until it is deleted, evicted or found expired. -/
def present : History V → String → Prop
  | [], _ => False
  | ⟨_, .set other _ _ _, evicted⟩ :: past, key => key = other ∨ (evicted ≠ some key ∧ present past key)
  | ⟨_, .delete other, _⟩ :: past, key => key ≠ other ∧ present past key
  | ⟨_, .deletePattern pattern, _⟩ :: past, key => ¬ Matches pattern key ∧ present past key
  | ⟨time, .get other, _⟩ :: past, key =>
    present past key ∧ ¬ (key = other ∧ ∃ entry, kept past key = some entry ∧ entry.expiresAt < time)

/-- A key is used when it is written and when a read finds it. -/
def Uses (past : History V) (event : Event V) (key : String) : Prop :=
  match event.call with
  | .set other _ _ _ => key = other
  | .get other => key = other ∧ present past key ∧ ∃ entry, kept past key = some entry ∧ event.time ≤ entry.expiresAt
  | _ => False

open Classical in
/-- The number of the call that used a key last. -/
noncomputable def lastUse : History V → String → Nat
  | [], _ => 0
  | event :: past, key => if Uses past event key then past.length + 1 else lastUse past key

structure State (V : Type) where
  cache : LRUCache V
  history : History V

/-- A cache that starts empty, and the calls on it, each with its time. -/
def system (maxSize : Nat) : Transition.System (State V) (Int × Call V) where
  initial s := s = ⟨⟨maxSize, .empty⟩, []⟩
  step s call := some
    { cache := s.cache.perform call.1 call.2
      history := ⟨call.1, call.2, match call.2 with
        | .set key _ _ _ => s.cache.evicted key
        | _ => none⟩ :: s.history }

/-- Not before the last call. -/
def History.Since (history : History V) (now : Int) : Prop := ∀ event ∈ history.head?, event.time ≤ now

/-- Times do not decrease, and the lone star is only used on a cache without other keys. -/
def Proper (s : State V) (call : Int × Call V) : Prop :=
  s.history.Since call.1 ∧ ∀ pattern, call.2 = .deletePattern pattern → pattern = "*" → ∀ key ∈ s.cache.map.keys, key = "*"

/-- The cache is what the reference says: it keeps within its size, a read returns the last value set
unless it was deleted, evicted or has expired, and what a new key pushes out of a full cache is the
key least recently used. -/
structure Refines (s : State V) : Prop where
  size : s.cache.map.keys.length ≤ s.cache.maxSize
  get : ∀ key now, s.history.Since now →
    (s.cache.get now key).1 = (kept s.history key).filter fun entry => now ≤ entry.expiresAt
  keys : ∀ key, key ∈ s.cache.map.keys ↔ present s.history key
  set : ∀ key value now ttlMs computeMs other, other ∈ (s.cache.set now key value ttlMs computeMs).map.keys ↔
    other = key ∨ (present s.history other ∧ s.cache.evicted key ≠ some other)
  evicts : ∀ key victim, s.cache.evicted key = some victim ↔
    ¬ present s.history key ∧ s.cache.map.keys.length = s.cache.maxSize ∧ present s.history victim ∧
      ∀ other, present s.history other → other ≠ victim → lastUse s.history victim < lastUse s.history other

/-! ### What every call keeps -/

/-- The cache beside its history: the entries are the last ones set, in the order of their last uses,
and what is missing was deleted, evicted or found expired. -/
structure Sound (s : State V) : Prop where
  room : 1 ≤ s.cache.maxSize
  size : s.cache.map.keys.length ≤ s.cache.maxSize
  keys : ∀ key, key ∈ s.cache.map.keys ↔ present s.history key
  entries : ∀ key entry, s.cache.map.get key = some entry → kept s.history key = some entry
  expired : ∀ key entry, kept s.history key = some entry → key ∉ s.cache.map.keys →
    ∃ event ∈ s.history.head?, entry.expiresAt < event.time
  byUse : ByUse (lastUse s.history) s.cache.map.keys

variable {s : State V} {event : Event V} {map : OrderedMap String (Entry V)} {key : String}

theorem lastUse_le (history : History V) (key : String) : lastUse history key ≤ history.length := by
  induction history with
  | nil => exact le_refl 0
  | cons event past ih =>
    rw [lastUse]
    split
    · exact le_refl _
    · exact ih.trans (Nat.le_succ _)

theorem lastUse_of_uses {past : History V} (uses : Uses past event key) : lastUse (event :: past) key = past.length + 1 := by
  rw [lastUse, if_pos uses]

theorem lastUse_of_not_uses {past : History V} (unused : ¬ Uses past event key) :
    lastUse (event :: past) key = lastUse past key := by
  rw [lastUse, if_neg unused]

/-- A call that only takes entries out. -/
theorem Sound.drop (sound : Sound s) (stays : String → Bool)
    (keys : map.keys = s.cache.map.keys.filter stays)
    (same : ∀ key entry, map.get key = some entry → s.cache.map.get key = some entry)
    (unused : ∀ key, ¬ Uses s.history event key)
    (left : ∀ key, present (event :: s.history) key ↔ stays key = true ∧ present s.history key)
    (keeps : ∀ key, stays key = true → kept (event :: s.history) key = kept s.history key)
    (gone : ∀ key entry, stays key = false → kept (event :: s.history) key = some entry → entry.expiresAt < event.time)
    (since : s.history.Since event.time) :
    Sound ⟨{ s.cache with map }, event :: s.history⟩ where
  room := sound.room
  size := by
    change map.keys.length ≤ s.cache.maxSize
    rw [keys]
    exact (List.length_filter_le _ _).trans sound.size
  keys key := by
    change key ∈ map.keys ↔ _
    rw [keys, List.mem_filter, left, and_comm, sound.keys]
  entries key entry found := by
    have inside : key ∈ s.cache.map.keys.filter stays :=
      keys ▸ OrderedMap.isSome_get.mp (Option.isSome_of_eq_some found)
    rw [keeps key (List.mem_filter.mp inside).2]
    exact sound.entries key entry (same key entry found)
  expired key entry last missing := by
    refine ⟨event, rfl, ?_⟩
    cases stayed : stays key with
    | false => exact gone key entry stayed last
    | true =>
      have absent : key ∉ s.cache.map.keys := fun member => missing (keys ▸ List.mem_filter.mpr ⟨member, stayed⟩)
      obtain ⟨earlier, first, before⟩ := sound.expired key entry (keeps key stayed ▸ last) absent
      exact Int.lt_of_lt_of_le before (since earlier first)
  byUse := by
    change ByUse _ map.keys
    rw [keys]
    exact ByUse.congr (List.Pairwise.filter _ sound.byUse) fun key _ => lastUse_of_not_uses (unused key)

/-- A call that puts a key last, with the others that stay. -/
theorem Sound.touch {entry : Entry V} (sound : Sound s) (stays : String → Bool)
    (keys : map.keys = (s.cache.map.keys.filter stays).filter (· ≠ key) ++ [key])
    (own : map.get key = some entry)
    (same : ∀ other entry, other ≠ key → map.get other = some entry → s.cache.map.get other = some entry)
    (size : map.keys.length ≤ s.cache.maxSize)
    (uses : ∀ other, Uses s.history event other ↔ other = key)
    (left : ∀ other, present (event :: s.history) other ↔ other = key ∨ (stays other = true ∧ present s.history other))
    (sets : kept (event :: s.history) key = some entry)
    (keeps : ∀ other, other ≠ key → kept (event :: s.history) other = if stays other then kept s.history other else none)
    (since : s.history.Since event.time) :
    Sound ⟨{ s.cache with map }, event :: s.history⟩ where
  room := sound.room
  size := size
  keys other := by
    change other ∈ map.keys ↔ _
    rw [keys, left, List.mem_append, List.mem_filter, List.mem_filter, List.mem_singleton, sound.keys]
    by_cases named : other = key <;> simp [named, and_comm]
  entries other found present := by
    change map.get other = some found at present
    by_cases named : other = key
    · subst named
      rw [sets, ← own, present]
    · have inside : other ∈ (s.cache.map.keys.filter stays).filter (· ≠ key) ++ [key] :=
        keys ▸ OrderedMap.isSome_get.mp (Option.isSome_of_eq_some present)
      have member : other ∈ s.cache.map.keys ∧ stays other = true := by simpa [named] using inside
      rw [keeps other named, if_pos member.2]
      exact sound.entries other found (same other found named present)
  expired other found last missing := by
    change other ∉ map.keys at missing
    refine ⟨event, rfl, ?_⟩
    have named : other ≠ key := fun named => missing (by simp [keys, named])
    rw [keeps other named] at last
    split at last
    · rename_i stayed
      have absent : other ∉ s.cache.map.keys := fun member => missing (by simp [keys, named, stayed, member])
      obtain ⟨earlier, first, before⟩ := sound.expired other found last absent
      exact Int.lt_of_lt_of_le before (since earlier first)
    · cases last
  byUse := by
    change ByUse _ map.keys
    rw [keys]
    apply ByUse.touch (List.Pairwise.filter _ sound.byUse)
    · exact fun other _ named => lastUse_of_not_uses fun used => named ((uses other).mp used)
    · intro other _
      rw [lastUse_of_uses ((uses key).mpr rfl)]
      exact Nat.lt_succ_of_le (lastUse_le s.history other)

theorem get_of_erase {m : OrderedMap String (Entry V)} {other : String} {entry : Entry V}
    (found : (m.erase key).get other = some entry) : m.get other = some entry := by
  rw [OrderedMap.get_erase] at found
  split at found
  · cases found
  · exact found

theorem length_others {keys : List String} (nodup : keys.Nodup) (member : key ∈ keys) :
    (keys.filter (· ≠ key)).length + 1 = keys.length := by
  have removed := List.length_erase_add_one member
  rw [nodup.erase_eq_filter] at removed
  rw [← removed]
  simp only [ne_eq, decide_not, bne]
  rfl

theorem present_iff_get (sound : Sound s) : present s.history key ↔ ∃ entry, s.cache.map.get key = some entry := by
  rw [← sound.keys, ← OrderedMap.isSome_get, Option.isSome_iff_exists]

theorem Sound.get (sound : Sound s) (now : Int) (key : String) (since : s.history.Since now) :
    Sound ⟨(s.cache.get now key).2, ⟨now, .get key, none⟩ :: s.history⟩ := by
  rw [LRUCache.get]
  cases found : s.cache.map.get key with
  | none =>
    have absent : ¬ present s.history key := fun holds => by
      obtain ⟨entry, held⟩ := (present_iff_get sound).mp holds
      rw [found] at held
      cases held
    apply sound.drop (fun _ => true) (by simp) (fun _ _ same => same) _ _ (fun _ _ => rfl) (fun _ _ impossible => by cases impossible) since
    · exact fun other used => absent (used.1 ▸ used.2.1)
    · intro other
      simp only [present, true_and]
      exact ⟨And.left, fun holds => ⟨holds, fun named => absent (named.1 ▸ holds)⟩⟩
  | some entry =>
    have last := sound.entries key entry found
    dsimp only
    split
    · rename_i late
      have only (found : Entry V) (held : kept s.history key = some found) : found.expiresAt < now := by
        rwa [← Option.some.inj (last.symm.trans held)]
      apply sound.drop (· ≠ key) OrderedMap.keys_erase (fun _ _ => get_of_erase) _ _ (fun _ _ => rfl) _ since
      · rintro other ⟨rfl, _, found, held, inTime⟩
        exact Int.not_lt.mpr inTime (only found held)
      · intro other
        simp only [present, decide_eq_true_eq]
        constructor
        · exact fun ⟨holds, timely⟩ => ⟨fun named => timely ⟨named, entry, named ▸ last, late⟩, holds⟩
        · exact fun ⟨different, holds⟩ => ⟨holds, fun named => different named.1⟩
      · intro other value stayed held
        obtain rfl : other = key := by simpa using stayed
        exact only value held
    · rename_i early
      have holds : present s.history key := (present_iff_get sound).mpr ⟨entry, found⟩
      have keys : ((s.cache.map.erase key).set key entry).keys =
          (s.cache.map.keys.filter fun _ => true).filter (· ≠ key) ++ [key] := by
        rw [OrderedMap.keys_set_erase, List.filter_true]
      have inTime : now ≤ entry.expiresAt := Int.not_lt.mp early
      apply sound.touch (fun _ => true) keys OrderedMap.get_set_self _ _ _ _ _ _ since
      · intro other found named held
        rw [OrderedMap.get_set_ne named] at held
        exact get_of_erase held
      · rw [OrderedMap.keys_set_erase, List.length_append, List.length_singleton,
          length_others s.cache.map.nodup_keys ((sound.keys key).mpr holds)]
        exact sound.size
      · intro other
        exact ⟨And.left, fun named => ⟨named, named ▸ holds, entry, named ▸ last, inTime⟩⟩
      · intro other
        simp only [present, true_and]
        constructor
        · exact fun both => .inr both.1
        · intro either
          have there : present s.history other := either.elim (fun named => named ▸ holds) id
          refine ⟨there, ?_⟩
          rintro ⟨rfl, found, held, before⟩
          rw [Option.some.inj (held.symm.trans last)] at before
          exact early before
      · exact last
      · exact fun other _ => (if_pos rfl).symm

/-- The map into which a write puts its key. -/
def opened (cache : LRUCache V) (key : String) : OrderedMap String (Entry V) :=
  (cache.evicted key).elim (cache.map.erase key) (cache.map.erase key).erase

theorem set_eq (cache : LRUCache V) (now : Int) (key : String) (value : V) (ttlMs computeMs : Int) :
    cache.set now key value ttlMs computeMs =
      { cache with map := (opened cache key).set key ⟨value, now + ttlMs, computeMs⟩ } := by
  simp only [LRUCache.set, opened, LRUCache.evicted]
  split
  · cases (cache.map.erase key).keys.head? <;> rfl
  · rfl

theorem keys_opened (cache : LRUCache V) (key : String) : (opened cache key).keys =
    (cache.map.keys.filter fun other => cache.evicted key ≠ some other).filter (· ≠ key) := by
  rw [opened]
  cases cache.evicted key with
  | none => simp [OrderedMap.keys_erase]
  | some victim =>
    change ((cache.map.erase key).erase victim).keys = _
    rw [OrderedMap.keys_erase, OrderedMap.keys_erase, List.filter_comm]
    simp [eq_comm]

theorem get_opened {cache : LRUCache V} {other : String} {entry : Entry V}
    (found : (opened cache key).get other = some entry) : cache.map.get other = some entry := by
  rw [opened] at found
  cases pushed : cache.evicted key with
  | none =>
    rw [pushed] at found
    exact get_of_erase found
  | some victim =>
    rw [pushed] at found
    exact get_of_erase (get_of_erase found)

theorem length_opened (sound : Sound s) (key : String) : (opened s.cache key).keys.length + 1 ≤ s.cache.maxSize := by
  have fits : (s.cache.map.erase key).keys.length ≤ s.cache.maxSize := by
    rw [OrderedMap.keys_erase]
    exact (List.length_filter_le _ _).trans sound.size
  rw [opened, LRUCache.evicted]
  split
  · rename_i full
    cases first : (s.cache.map.erase key).keys.head? with
    | none =>
      rw [List.head?_eq_none_iff.mp first] at full
      exact absurd (sound.room.trans full) (by simp)
    | some victim =>
      change ((s.cache.map.erase key).erase victim).keys.length + 1 ≤ _
      rw [OrderedMap.keys_erase, length_others (OrderedMap.nodup_keys _) (List.mem_of_mem_head? first)]
      exact fits
  · rename_i room
    exact Nat.lt_of_not_ge room

theorem Sound.set (sound : Sound s) (now : Int) (key : String) (value : V) (ttlMs computeMs : Int)
    (since : s.history.Since now) :
    Sound ⟨s.cache.set now key value ttlMs computeMs,
      ⟨now, .set key value ttlMs computeMs, s.cache.evicted key⟩ :: s.history⟩ := by
  have keys : ((opened s.cache key).set key ⟨value, now + ttlMs, computeMs⟩).keys =
      (s.cache.map.keys.filter fun other => s.cache.evicted key ≠ some other).filter (· ≠ key) ++ [key] := by
    rw [OrderedMap.keys_set, keys_opened, add, if_neg (by simp)]
  rw [set_eq]
  apply sound.touch (fun other => s.cache.evicted key ≠ some other) keys OrderedMap.get_set_self _ _ _ _ _ _ since
  · intro other found named held
    rw [OrderedMap.get_set_ne named] at held
    exact get_opened held
  · rw [keys, ← keys_opened, List.length_append, List.length_singleton]
    exact length_opened sound key
  · exact fun other => Iff.rfl
  · intro other
    simp only [present, decide_eq_true_eq]
  · exact if_pos rfl
  · intro other named
    simp only [kept, if_neg named, ne_eq, decide_not, Bool.not_eq_true', decide_eq_false_iff_not, ite_not]

theorem Sound.delete (sound : Sound s) (now : Int) (key : String) (since : s.history.Since now) :
    Sound ⟨s.cache.delete key, ⟨now, .delete key, none⟩ :: s.history⟩ := by
  apply sound.drop (· ≠ key) OrderedMap.keys_erase (fun _ _ => get_of_erase) (fun _ => id) _ _ _ since
  · intro other
    simp only [present, decide_eq_true_eq]
  · intro other stayed
    exact if_neg (by simpa using stayed)
  · intro other entry stayed held
    have gone : kept (⟨now, .delete key, none⟩ :: s.history) other = none := if_pos (by simpa using stayed)
    rw [gone] at held
    cases held

theorem keys_foldl_erase (keys : List String) (m : OrderedMap String (Entry V)) :
    (keys.foldl OrderedMap.erase m).keys = m.keys.filter (· ∉ keys) := by
  induction keys generalizing m with
  | nil => simp
  | cons key keys ih =>
    rw [List.foldl_cons, ih, OrderedMap.keys_erase, List.filter_filter]
    apply List.filter_congr
    simp [Bool.and_comm]

theorem get_foldl_erase {keys : List String} {m : OrderedMap String (Entry V)} {other : String} {entry : Entry V}
    (found : (keys.foldl OrderedMap.erase m).get other = some entry) : m.get other = some entry := by
  induction keys generalizing m with
  | nil => exact found
  | cons key keys ih => exact get_of_erase (ih found)

theorem selects_eq {pattern : String} (spelled : pattern ≠ "*") (key : String) :
    LRUCache.selects pattern key = Matches pattern key := by
  rw [LRUCache.selects, Matches]
  cases start : LRUCache.prefixOf pattern with
  | none => rfl
  | some start' =>
    cases start' with
    | cons first rest => rfl
    | nil =>
      apply absurd _ spelled
      simp only [LRUCache.prefixOf] at start
      split at start
      · rename_i last
        obtain ⟨front, split⟩ := List.getLast?_eq_some_iff.mp last
        rw [split, List.dropLast_concat] at start
        rw [Option.some.inj start, List.nil_append] at split
        exact String.toList_inj.mp split
      · cases start

theorem Sound.deletePattern (sound : Sound s) (now : Int) (pattern : String) (since : s.history.Since now)
    (spelled : pattern = "*" → ∀ key ∈ s.cache.map.keys, key = "*") :
    Sound ⟨s.cache.deletePattern pattern, ⟨now, .deletePattern pattern, none⟩ :: s.history⟩ := by
  have selected (key : String) (member : key ∈ s.cache.map.keys) :
      LRUCache.selects pattern key = Matches pattern key := by
    by_cases star : pattern = "*"
    · rw [star, spelled star key member]
      decide
    · exact selects_eq star key
  have keys : ((s.cache.map.keys.filter (LRUCache.selects pattern)).foldl OrderedMap.erase s.cache.map).keys =
      s.cache.map.keys.filter fun key => !Matches pattern key := by
    rw [keys_foldl_erase]
    apply List.filter_congr
    intro key member
    simp [member, selected key member]
  apply sound.drop (fun key => !Matches pattern key) keys (fun _ _ => get_foldl_erase) (fun _ => id) _ _ _ since
  · intro other
    simp only [present, Bool.not_eq_true', Bool.not_eq_true]
  · intro other stayed
    exact if_neg (by simpa using stayed)
  · intro other entry stayed held
    have gone : kept (⟨now, .deletePattern pattern, none⟩ :: s.history) other = none := if_pos (by simpa using stayed)
    rw [gone] at held
    cases held

theorem step_sound {t : State V} {call : Int × Call V} {maxSize : Nat} (sound : Sound s) (proper : Proper s call)
    (stepped : (system maxSize).step s call = some t) : Sound t := by
  obtain rfl := Option.some.inj stepped
  obtain ⟨now, call⟩ := call
  cases call with
  | get key => exact sound.get now key proper.1
  | set key value ttlMs computeMs => exact sound.set now key value ttlMs computeMs proper.1
  | delete key => exact sound.delete now key proper.1
  | deletePattern pattern => exact sound.deletePattern now pattern proper.1 (proper.2 pattern rfl)

/-! ### The reference is refined -/

theorem Sound.read (sound : Sound s) (now : Int) (key : String) (since : s.history.Since now) :
    (s.cache.get now key).1 = (kept s.history key).filter fun entry => now ≤ entry.expiresAt := by
  rw [LRUCache.get]
  cases found : s.cache.map.get key with
  | none =>
    cases last : kept s.history key with
    | none => rfl
    | some entry =>
      have absent : key ∉ s.cache.map.keys := fun member => by
        rw [← OrderedMap.isSome_get, found] at member
        cases member
      obtain ⟨event, first, before⟩ := sound.expired key entry last absent
      have late : ¬ now ≤ entry.expiresAt := Int.not_le.mpr (Int.lt_of_lt_of_le before (since event first))
      simp [Option.filter, late]
  | some entry =>
    rw [sound.entries key entry found]
    dsimp only
    split
    · rename_i late
      simp [Option.filter, Int.not_le.mpr late]
    · rename_i early
      simp [Option.filter, Int.not_lt.mp early]

theorem Sound.evicts (sound : Sound s) (key victim : String) : s.cache.evicted key = some victim ↔
    ¬ present s.history key ∧ s.cache.map.keys.length = s.cache.maxSize ∧ present s.history victim ∧
      ∀ other, present s.history other → other ≠ victim → lastUse s.history victim < lastUse s.history other := by
  simp only [← sound.keys, LRUCache.evicted, OrderedMap.keys_erase]
  by_cases known : key ∈ s.cache.map.keys
  · have fewer := length_others s.cache.map.nodup_keys known
    have size := sound.size
    rw [if_neg (by omega)]
    exact iff_of_false (fun impossible => by cases impossible) fun others => others.1 known
  · have same : s.cache.map.keys.filter (· ≠ key) = s.cache.map.keys :=
      List.filter_eq_self.mpr fun other member => decide_eq_true fun named => known (named ▸ member)
    rw [same, ← sound.byUse.head_iff]
    split
    · rename_i full
      exact ⟨fun first => ⟨known, le_antisymm sound.size full, first⟩, fun first => first.2.2⟩
    · rename_i space
      exact iff_of_false (fun impossible => by cases impossible) fun others => space others.2.1.ge

theorem Sound.written (sound : Sound s) (key : String) (value : V) (now ttlMs computeMs : Int) (other : String) :
    other ∈ (s.cache.set now key value ttlMs computeMs).map.keys ↔
      other = key ∨ (present s.history other ∧ s.cache.evicted key ≠ some other) := by
  rw [set_eq]
  change other ∈ ((opened s.cache key).set key _).keys ↔ _
  rw [OrderedMap.keys_set, mem_add, keys_opened, List.mem_filter, List.mem_filter, sound.keys]
  by_cases named : other = key <;> simp [named]

/-- In a run at times that do not decrease, in which the lone star is only used on a cache without
other keys, the cache is at every moment what the reference says. -/
theorem lru_refines {maxSize : Nat} (room : 1 ≤ maxSize) (reached : (system maxSize).ReachableWhen Proper s) :
    Refines s := by
  have sound : Sound s := by
    apply reached.invariant _ step_sound
    rintro s rfl
    exact ⟨room, Nat.zero_le _, fun _ => ⟨nofun, nofun⟩, nofun, nofun, List.Pairwise.nil⟩
  exact ⟨sound.size, fun key now => sound.read now key, sound.keys, sound.written, sound.evicts⟩

def empty (maxSize : Nat) : State Nat := ⟨⟨maxSize, .empty⟩, []⟩

/-- With room for one entry, the second key pushes the first one out. -/
theorem lru_refines_replaced :
    ∃ s, (system 1).run (empty 1) [(0, .set "a" 1 1000 0), (5, .set "b" 2 1000 0)] = some s ∧ Refines s := by
  have first : Proper (empty 1) (0, .set "a" 1 1000 0) :=
    ⟨nofun, fun _ impossible => by cases impossible⟩
  refine ⟨_, rfl, lru_refines (le_refl 1) (.step (.step (.initial rfl) first rfl) ⟨?_, ?_⟩ rfl)⟩
  · rintro event ⟨⟩
    decide
  · exact fun _ impossible => by cases impossible

/-- The lone star deletes nothing. -/
theorem lru_refines_star :
    ∃ s, (system 2).run (empty 2) [(0, .set "a" 1 1000 0), (5, .deletePattern "*")] = some s ∧
      (s.cache.get 5 "a").1 = some ⟨1, 1000, 0⟩ ∧ kept s.history "a" = none ∧ ¬ Refines s := by
  refine ⟨_, rfl, by decide, by decide, fun refines => ?_⟩
  have read := refines.get "a" 5 (by rintro event ⟨⟩; decide)
  revert read
  decide

end Octraban.LruCache
