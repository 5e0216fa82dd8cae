import Octraban.Cache
import Octraban.Core.Transition
import Mathlib.Data.List.Basic

/-! cache.ts, with Redis at a distance: every command is a step of its own, and time passes and other
processes act between any two. How long a value written to a key may be read. -/
namespace Octraban.CacheExpiry

/-- The next Redis command of a call. -/
inductive Pending (P K V : Type) where
  | get (p : P) (key : K) (issued : Nat)
  | pttl (p : P) (key : K) (issued : Nat) (payload : V)
  | set (key : K) (payload : V) (ttlSeconds : Nat)
  | ended
  deriving DecidableEq

/-- A value that a `cacheGet` has returned, and when the time to live of its latest `cacheSet` ends. -/
structure Served (K V : Type) where
  key : K
  issued : Nat
  value : V
  deadline : Option Nat
  deriving DecidableEq

structure State (P K V : Type) where
  now : Nat
  cells : K → Cell P V
  calls : List (Pending P K V)
  deadlines : K → V → Option Nat
  served : List (Served K V)

/-- `resume` is the answer to a pending command; it fails when there is no client, too. -/
inductive Act (P K V : Type) where
  | tick (elapsed : Nat)
  | evict (p : P) (key : K)
  | cacheGet (p : P) (key : K)
  | cacheSet (p : P) (key : K) (value : V) (ttlSeconds : Nat)
  | resume (call : Nat) (answered : Bool)

variable {P K V : Type}

/-- Milliseconds left, -1 for no expiry, -2 for no key. -/
def pTTL (redis : Option (Entry V)) (now : Nat) : Int :=
  match redis.filter fun entry => entry.live now with
  | none => -2
  | some entry => entry.expiresAt.elim (-1) fun at_ => (at_ : Int) - now

namespace State
variable [DecidableEq P] [DecidableEq K] [DecidableEq V]

def initial : State P K V := ⟨0, fun _ => .empty, [], fun _ _ => none, []⟩

def setCell (s : State P K V) (key : K) (cell : Cell P V) : State P K V :=
  { s with cells := Function.update s.cells key cell }

/-- `payload` is written to `key` now. -/
def wrote (s : State P K V) (key : K) (payload : V) (ttlSeconds : Nat) : State P K V :=
  { s with deadlines := (Function.update s.deadlines key
      (Function.update (s.deadlines key) payload (Cell.buildExpiry s.now ttlSeconds))) }

def serve (s : State P K V) (key : K) (issued : Nat) (value : V) : State P K V :=
  { s with served := s.served ++ [⟨key, issued, value, s.deadlines key value⟩] }

def awaits (s : State P K V) (pending : Pending P K V) : State P K V :=
  { s with calls := s.calls ++ [pending] }

def goto (s : State P K V) (call : Nat) (pending : Pending P K V) : State P K V :=
  { s with calls := s.calls.set call pending }

/-- `cacheGet` up to its first await. -/
def cacheGet (s : State P K V) (p : P) (key : K) : State P K V :=
  match ((s.cells key).memoryStore p).filter fun entry => entry.live s.now with
  | some copy => s.serve key s.now copy.payload
  | none => (s.setCell key ((s.cells key).lruSet p none)).awaits (.get p key s.now)

/-- `cacheSet` up to its first await. -/
def cacheSet (s : State P K V) (p : P) (key : K) (value : V) (ttlSeconds : Nat) : State P K V :=
  let entry := ⟨value, Cell.buildExpiry s.now ttlSeconds⟩
  ((s.setCell key ((s.cells key).lruSet p (some entry))).wrote key value ttlSeconds).awaits
    (.set key value ttlSeconds)

/-- The answer to GET. -/
def got (s : State P K V) (call : Nat) (p : P) (key : K) (issued : Nat) : State P K V :=
  match (s.cells key).redis.filter fun entry => entry.live s.now with
  | none => s.goto call .ended
  | some entry => s.goto call (.pttl p key issued entry.payload)

/-- The answer to PTTL: the payload read before is mirrored and returned. -/
def mirrored (s : State P K V) (call : Nat) (p : P) (key : K) (issued : Nat) (payload : V) : State P K V :=
  let pttl := pTTL (s.cells key).redis s.now
  let expiresAt := if pttl > 0 then some (s.now + pttl.toNat) else none
  ((s.setCell key ((s.cells key).lruSet p (some ⟨payload, expiresAt⟩))).serve key issued payload).goto call .ended

/-- The answer to SET. -/
def stored (s : State P K V) (call : Nat) (key : K) (payload : V) (ttlSeconds : Nat) : State P K V :=
  let entry := ⟨payload, Cell.buildExpiry s.now ttlSeconds⟩
  ((s.setCell key { s.cells key with redis := some entry }).wrote key payload ttlSeconds).goto call .ended

def step (s : State P K V) : Act P K V → Option (State P K V)
  | .tick elapsed => some { s with now := s.now + elapsed }
  | .evict p key => some (s.setCell key ((s.cells key).evict p))
  | .cacheGet p key => some (s.cacheGet p key)
  | .cacheSet p key value ttlSeconds => some (s.cacheSet p key value ttlSeconds)
  | .resume call answered =>
    match s.calls[call]? with
    | none | some .ended => none
    | some pending =>
      if answered then
        match pending with
        | .get p key issued => some (s.got call p key issued)
        | .pttl p key issued payload => some (s.mirrored call p key issued payload)
        | .set key payload ttlSeconds => some (s.stored call key payload ttlSeconds)
        | .ended => none
      -- null is returned, or nothing
      else some (s.goto call .ended)

end State

def system [DecidableEq P] [DecidableEq K] [DecidableEq V] : Transition.System (State P K V) (Act P K V) where
  initial s := s = .initial
  step := State.step

def positiveTtl (_ : State P K V) : Act P K V → Bool
  | .cacheSet _ _ _ ttlSeconds => 0 < ttlSeconds
  | _ => true

/-- Writing the value now does not bring its deadline forward. -/
def prolongs (s : State P K V) (key : K) (value : V) (ttlSeconds : Nat) : Bool :=
  (s.deadlines key value).all fun deadline => deadline ≤ s.now + ttlSeconds * 1000

/-- The key that Redis is asked about is there, and expires no later than the payload may be read. -/
def answersFor (s : State P K V) (key : K) (payload : V) : Bool :=
  ((s.cells key).redis.filter fun entry => entry.live s.now).any fun entry =>
    entry.expiresAt.any fun at_ => (s.deadlines key payload).any fun deadline => at_ ≤ deadline

def timely (s : State P K V) : Act P K V → Bool
  | .cacheSet _ key value ttlSeconds => prolongs s key value ttlSeconds
  | .resume call true =>
    match s.calls[call]? with
    | some (.pttl _ key _ payload) => answersFor s key payload
    | some (.set key payload ttlSeconds) => prolongs s key payload ttlSeconds
    | _ => true
  | _ => true

/-- No value is returned to a `cacheGet` issued when its latest time to live had ended. -/
def Fresh (s : State P K V) : Prop :=
  ∀ served ∈ s.served, ∃ deadline, served.deadline = some deadline ∧ served.issued < deadline

variable {s t : State P K V} {key : K}

/-- What a call that awaits an answer relies on. -/
def Relies (s : State P K V) : Pending P K V → Prop
  | .get _ _ issued => issued ≤ s.now
  | .pttl _ key issued payload => ∃ deadline, s.deadlines key payload = some deadline ∧ issued < deadline
  | .set _ _ ttlSeconds => 0 < ttlSeconds
  | .ended => True

/-- An entry that expires in time. -/
def Bounded (s : State P K V) (key : K) (entry : Entry V) : Prop :=
  ∃ expiry deadline, entry.expiresAt = some expiry ∧ s.deadlines key entry.payload = some deadline ∧
    expiry ≤ deadline

structure Sound (s : State P K V) : Prop where
  copies : ∀ key entry, (s.cells key).Copy entry → Bounded s key entry
  calls : ∀ pending ∈ s.calls, Relies s pending
  fresh : Fresh s

/-- Deadlines only move on. -/
def Later (s t : State P K V) : Prop :=
  s.now ≤ t.now ∧ ∀ key payload deadline, s.deadlines key payload = some deadline →
    ∃ later, t.deadlines key payload = some later ∧ deadline ≤ later

theorem Later.refl : Later s s := ⟨Nat.le_refl _, fun _ _ deadline stored => ⟨deadline, stored, Nat.le_refl _⟩⟩

theorem Bounded.later {entry : Entry V} (bounded : Bounded s key entry) (later : Later s t) :
    Bounded t key entry := by
  obtain ⟨expiry, deadline, expires, stored, inTime⟩ := bounded
  obtain ⟨new, moved, grows⟩ := later.2 _ _ _ stored
  exact ⟨expiry, new, expires, moved, Nat.le_trans inTime grows⟩

theorem Relies.later {pending : Pending P K V} (relies : Relies s pending) (later : Later s t) :
    Relies t pending := by
  cases pending with
  | get p key issued => exact Nat.le_trans relies later.1
  | pttl p key issued payload =>
    obtain ⟨deadline, stored, inTime⟩ := relies
    obtain ⟨new, moved, grows⟩ := later.2 _ _ _ stored
    exact ⟨new, moved, Nat.lt_of_lt_of_le inTime grows⟩
  | set key payload ttlSeconds => exact relies
  | ended => trivial

/-- While an entry is live, its deadline has not come. -/
theorem Bounded.live {entry : Entry V} (bounded : Bounded s key entry) (live : entry.live s.now = true) :
    ∃ deadline, s.deadlines key entry.payload = some deadline ∧ s.now < deadline := by
  obtain ⟨expiry, deadline, expires, stored, inTime⟩ := bounded
  rw [Entry.live, expires] at live
  exact ⟨deadline, stored, Nat.lt_of_lt_of_le (of_decide_eq_true live) inTime⟩

theorem Sound.goto (sound : Sound s) {call : Nat} {pending : Pending P K V} (relies : Relies s pending) :
    Sound (s.goto call pending) := by
  refine ⟨sound.copies, fun other member => ?_, sound.fresh⟩
  rcases List.mem_or_eq_of_mem_set member with old | rfl
  · exact sound.calls other old
  · exact relies

theorem Sound.got {call issued : Nat} {p : P} (sound : Sound s) (started : issued ≤ s.now) :
    Sound (s.got call p key issued) := by
  unfold State.got
  split
  · exact sound.goto trivial
  · rename_i entry found
    obtain ⟨stored, live⟩ := Cell.copy_of_live found
    obtain ⟨deadline, written, inTime⟩ := (sound.copies key entry (.inl stored)).live live
    exact sound.goto ⟨deadline, written, Nat.lt_of_le_of_lt started inTime⟩

/-- The mirrored copy expires with the Redis key, which is no later than its payload may be read. -/
theorem bounded_mirrored {payload : V} (answers : answersFor s key payload = true) :
    Bounded s key ⟨payload, if pTTL (s.cells key).redis s.now > 0 then
      some (s.now + (pTTL (s.cells key).redis s.now).toNat) else none⟩ := by
  rw [answersFor] at answers
  obtain ⟨entry, found, inTime⟩ := (Option.any_eq_true _ _).mp answers
  obtain ⟨expiry, expires, inTime⟩ := (Option.any_eq_true _ _).mp inTime
  obtain ⟨deadline, written, inTime⟩ := (Option.any_eq_true _ _).mp inTime
  have live := (Cell.copy_of_live found).2
  rw [Entry.live, expires, Option.all_some, decide_eq_true_eq] at live
  have left : pTTL (s.cells key).redis s.now = (expiry : Int) - s.now := by
    rw [pTTL, found]
    dsimp only
    rw [expires, Option.elim_some]
  rw [left, if_pos (by omega)]
  refine ⟨_, deadline, rfl, written, ?_⟩
  have := of_decide_eq_true inTime
  omega

variable [DecidableEq K]

/-- A step that moves deadlines on, and that keeps, puts in or drops entries of one key. -/
theorem Sound.move {cell : Cell P V} (sound : Sound s) (later : Later s t)
    (cells : t.cells = Function.update s.cells key cell)
    (copies : ∀ entry, cell.Copy entry → Bounded t key entry ∨ (s.cells key).Copy entry)
    (calls : ∀ pending ∈ t.calls, pending ∈ s.calls ∨ Relies t pending)
    (served : ∀ served ∈ t.served, served ∈ s.served ∨
      ∃ deadline, served.deadline = some deadline ∧ served.issued < deadline) : Sound t where
  copies other entry copy := by
    rw [cells] at copy
    by_cases same : other = key
    · subst same
      rw [Function.update_self] at copy
      rcases copies entry copy with new | old
      · exact new
      · exact (sound.copies other entry old).later later
    · rw [Function.update_of_ne same] at copy
      exact (sound.copies other entry copy).later later
  calls pending member := by
    rcases calls pending member with old | new
    · exact (sound.calls pending old).later later
    · exact new
  fresh read member := by
    rcases served read member with old | new
    · exact sound.fresh read old
    · exact new

theorem Sound.evict [DecidableEq P] {p : P} (sound : Sound s) : Sound (s.setCell key ((s.cells key).evict p)) :=
  sound.move Later.refl rfl (fun _ copy => .inr (Cell.copy_evict copy)) (fun _ => .inl) fun _ => .inl

theorem Sound.cacheGet [DecidableEq P] {p : P} (sound : Sound s) : Sound (s.cacheGet p key) := by
  unfold State.cacheGet
  split
  · rename_i copy found
    obtain ⟨stored, live⟩ := Cell.copy_of_live found
    refine ⟨sound.copies, sound.calls, fun read member => ?_⟩
    rcases List.mem_append.mp member with old | new
    · exact sound.fresh read old
    · obtain rfl := List.mem_singleton.mp new
      exact (sound.copies key copy (.inr ⟨p, stored⟩)).live live
  · refine sound.move Later.refl rfl (fun entry copy => ?_) (fun pending member => ?_) fun _ => .inl
    · rcases Cell.copy_lruSet copy with none | old
      · cases none
      · exact .inr old
    · rcases List.mem_append.mp member with old | new
      · exact .inl old
      · obtain rfl := List.mem_singleton.mp new
        exact .inr (Nat.le_refl s.now)

/-- Asked for at once, the time to live makes the copy the Redis entry itself, as in `Cell.cacheGet`. -/
theorem mirrored_at_once [DecidableEq P] {p : P} {call issued : Nat} {entry : Entry V}
    (found : (s.cells key).redis.filter (fun entry => entry.live s.now) = some entry) :
    (s.mirrored call p key issued entry.payload).cells key = (s.cells key).lruSet p (some entry) := by
  have left : pTTL (s.cells key).redis s.now = entry.expiresAt.elim (-1) fun at_ => (at_ : Int) - s.now := by
    rw [pTTL, found]
  have live := (Cell.copy_of_live found).2
  have copy : (if pTTL (s.cells key).redis s.now > 0 then
      some (s.now + (pTTL (s.cells key).redis s.now).toNat) else none) = entry.expiresAt := by
    rw [left]
    cases expires : entry.expiresAt with
    | none => rfl
    | some expiry =>
      rw [Entry.live, expires, Option.all_some, decide_eq_true_eq] at live
      rw [Option.elim_some, if_pos (by omega)]
      congr 1
      omega
  have cells : (s.mirrored call p key issued entry.payload).cells key = (s.cells key).lruSet p
      (some ⟨entry.payload, if pTTL (s.cells key).redis s.now > 0 then
        some (s.now + (pTTL (s.cells key).redis s.now).toNat) else none⟩) := Function.update_self ..
  rw [cells, copy]

theorem Sound.mirrored [DecidableEq P] {p : P} {call issued : Nat} {payload : V} (sound : Sound s)
    (answers : answersFor s key payload = true) (relies : Relies s (.pttl p key issued payload)) :
    Sound (s.mirrored call p key issued payload) := by
  refine sound.move Later.refl rfl (fun entry copy => ?_) (fun pending member => ?_) fun read member => ?_
  · rcases Cell.copy_lruSet copy with new | old
    · obtain rfl := Option.some.inj new
      exact .inl (bounded_mirrored answers)
    · exact .inr old
  · rcases List.mem_or_eq_of_mem_set member with old | rfl
    · exact .inl old
    · exact .inr trivial
  · rcases List.mem_append.mp member with old | new
    · exact .inl old
    · obtain rfl := List.mem_singleton.mp new
      exact .inr relies

variable [DecidableEq V]

theorem deadlines_wrote_self (payload : V) {ttlSeconds : Nat} (positive : 0 < ttlSeconds) :
    (s.wrote key payload ttlSeconds).deadlines key payload = some (s.now + ttlSeconds * 1000) := by
  have expires : Cell.buildExpiry s.now ttlSeconds = some (s.now + ttlSeconds * 1000) := if_neg (by omega)
  simp [State.wrote, expires]

theorem deadlines_wrote_ne {other : K} {payload value : V} {ttlSeconds : Nat}
    (differs : ¬ (other = key ∧ value = payload)) :
    (s.wrote key payload ttlSeconds).deadlines other value = s.deadlines other value := by
  unfold State.wrote
  by_cases same : other = key
  · subst same
    have apart : value ≠ payload := fun same => differs ⟨rfl, same⟩
    simp [apart]
  · simp [same]

theorem later_wrote {payload : V} {ttlSeconds : Nat} (positive : 0 < ttlSeconds)
    (moves : prolongs s key payload ttlSeconds = true) : Later s (s.wrote key payload ttlSeconds) := by
  refine ⟨Nat.le_refl _, fun other value deadline stored => ?_⟩
  by_cases same : other = key ∧ value = payload
  · obtain ⟨rfl, rfl⟩ := same
    rw [prolongs, stored] at moves
    exact ⟨_, deadlines_wrote_self value positive, of_decide_eq_true moves⟩
  · exact ⟨deadline, by rw [deadlines_wrote_ne same, stored], Nat.le_refl _⟩

theorem bounded_wrote (payload : V) {ttlSeconds : Nat} (positive : 0 < ttlSeconds) :
    Bounded (s.wrote key payload ttlSeconds) key ⟨payload, Cell.buildExpiry s.now ttlSeconds⟩ :=
  ⟨_, _, if_neg (by omega), deadlines_wrote_self payload positive, Nat.le_refl _⟩

theorem Sound.stored {call ttlSeconds : Nat} {payload : V} (sound : Sound s) (positive : 0 < ttlSeconds)
    (moves : prolongs s key payload ttlSeconds = true) : Sound (s.stored call key payload ttlSeconds) := by
  refine sound.move (later_wrote positive moves) rfl (fun entry copy => ?_) (fun pending member => ?_) fun _ => .inl
  · rcases copy with new | local_
    · obtain rfl := Option.some.inj new
      exact .inl (bounded_wrote payload positive)
    · exact .inr (.inr local_)
  · rcases List.mem_or_eq_of_mem_set member with old | rfl
    · exact .inl old
    · exact .inr trivial

variable [DecidableEq P]

theorem Sound.cacheSet {p : P} {ttlSeconds : Nat} {payload : V} (sound : Sound s) (positive : 0 < ttlSeconds)
    (moves : prolongs s key payload ttlSeconds = true) : Sound (s.cacheSet p key payload ttlSeconds) := by
  refine sound.move (later_wrote positive moves) rfl (fun entry copy => ?_) (fun pending member => ?_) fun _ => .inl
  · rcases Cell.copy_lruSet copy with new | old
    · obtain rfl := Option.some.inj new
      exact .inl (bounded_wrote payload positive)
    · exact .inr old
  · rcases List.mem_append.mp member with old | new
    · exact .inl old
    · obtain rfl := List.mem_singleton.mp new
      exact .inr positive

theorem Sound.step {act : Act P K V} (sound : Sound s) (ttl : positiveTtl s act = true)
    (allowed : timely s act = true) (stepped : s.step act = some t) : Sound t := by
  cases act with
  | tick elapsed =>
    obtain rfl := Option.some.inj stepped
    have later : Later s { s with now := s.now + elapsed } :=
      ⟨Nat.le_add_right _ _, fun _ _ deadline stored => ⟨deadline, stored, Nat.le_refl _⟩⟩
    exact ⟨fun key entry copy => (sound.copies key entry copy).later later,
      fun pending member => (sound.calls pending member).later later, sound.fresh⟩
  | evict p key =>
    obtain rfl := Option.some.inj stepped
    exact sound.evict
  | cacheGet p key =>
    obtain rfl := Option.some.inj stepped
    exact sound.cacheGet
  | cacheSet p key value ttlSeconds =>
    obtain rfl := Option.some.inj stepped
    exact sound.cacheSet (of_decide_eq_true ttl) allowed
  | resume call answered =>
    rw [State.step] at stepped
    cases found : s.calls[call]? with
    | none => rw [found] at stepped; cases stepped
    | some pending =>
      rw [found] at stepped
      have relies := sound.calls pending (List.mem_of_getElem? found)
      cases answered with
      | false =>
        cases pending with
        | ended => cases stepped
        | get p key issued | pttl p key issued payload | set key payload ttlSeconds =>
          obtain rfl := Option.some.inj stepped
          exact sound.goto trivial
      | true =>
        rw [timely, found] at allowed
        cases pending with
        | ended => cases stepped
        | get p key issued =>
          obtain rfl := Option.some.inj stepped
          exact sound.got relies
        | pttl p key issued payload =>
          obtain rfl := Option.some.inj stepped
          exact sound.mirrored allowed relies
        | set key payload ttlSeconds =>
          obtain rfl := Option.some.inj stepped
          exact sound.stored relies allowed

/-- Where the key is still there for PTTL, no value outlives its time to live. -/
theorem fresh_of_timely
    (reached : system.ReachableWhen (fun s act => positiveTtl s act = true ∧ timely s act = true) s) : Fresh s := by
  have sound : Sound s := by
    refine reached.invariant ?_ ?_
    · rintro s rfl
      refine ⟨fun key entry copy => ?_, List.forall_mem_nil _, List.forall_mem_nil _⟩
      rcases copy with none | ⟨_, none⟩
      · cases none
      · cases none
    · rintro s act t sound ⟨ttl, allowed⟩ stepped
      exact sound.step ttl allowed stepped
  exact sound.fresh

abbrev Run := List (Act Nat Nat Nat)

/-- Process 1 reads what process 0 has cached for a second, and mirrors it in time. -/
def mirroredInTime : Run :=
  [.cacheSet 0 7 42 1, .resume 0 true, .tick 600, .cacheGet 1 7, .resume 1 true, .tick 100, .resume 1 true, .tick 200,
    .cacheGet 1 7]

theorem mirrored_in_time_fresh : ∃ s, system.run .initial mirroredInTime = some s ∧
    s.served.map Served.issued = [600, 900] ∧ Fresh s := by
  have issues : (system.run .initial mirroredInTime).map (fun s => s.served.map Served.issued) =
      some [600, 900] := by decide
  obtain ⟨s, executed, issues⟩ := Option.map_eq_some_iff.mp issues
  refine ⟨s, executed, issues, fresh_of_timely ?_⟩
  refine Transition.System.reachableWhen_of_run system .initial mirroredInTime rfl ?_ executed
  refine Transition.System.guarded_of_guardedBy (fun s act => positiveTtl s act && timely s act) ?_ (by decide)
  intro s act both
  exact Bool.and_eq_true_iff.mp both

/-- The key expires between GET and PTTL: the copy of process 1 has no expiry. -/
def mirroredTooLate : Run :=
  [.cacheSet 0 7 42 1, .resume 0 true, .tick 999, .cacheGet 1 7, .resume 1 true, .tick 1, .resume 1 true, .tick 4000,
    .cacheGet 1 7]

theorem expired_value_returned :
    ∃ s : State Nat Nat Nat, system.ReachableWhen (fun s act => positiveTtl s act = true) s ∧ ¬ Fresh s := by
  have late : (system.run .initial mirroredTooLate).map State.served =
      some [⟨7, 999, 42, some 1000⟩, ⟨7, 5000, 42, some 1000⟩] := by decide
  obtain ⟨s, executed, served⟩ := Option.map_eq_some_iff.mp late
  have reached : system.ReachableWhen (fun s act => positiveTtl s act = true) s := by
    refine Transition.System.reachableWhen_of_run system .initial mirroredTooLate rfl ?_ executed
    exact Transition.System.guarded_of_guardedBy positiveTtl (fun _ _ => id) (by decide)
  refine ⟨s, reached, fun fresh => ?_⟩
  obtain ⟨deadline, ends, inTime⟩ := fresh ⟨7, 5000, 42, some 1000⟩ (by rw [served]; simp)
  obtain rfl := Option.some.inj ends
  exact absurd inTime (by decide)

end Octraban.CacheExpiry
