import Octraban.Core.Transition
import Mathlib.Data.List.Basic

/-! Batched delivery of a feed: the queue of one subscription, the timer for a partial batch and the
batch size, of which every call and every timer keeps the value it has read. -/
namespace Octraban.FeedBatches

/-- A timer keeps the subscription its call had read. -/
structure Timer where
  id : Nat
  batchSize : Nat

/-- A call of `deliverMessage` that waits for its subscription; the size is there once the database
has answered. -/
structure Read (M : Type) where
  message : M
  batchSize : Option Nat

structure State (M : Type) where
  /-- The subscription row. -/
  batchSize : Nat
  /-- The waiting calls, the oldest first. -/
  reads : List (Read M)
  queue : List M
  /-- The entry of the map, and the timers that have not fired and are not cleared. -/
  batchTimers : Option Nat
  timers : List Timer
  nextTimer : Nat
  /-- Calls of `deliverSingle` that have not ended. -/
  running : Nat
  /-- All messages put in the queue so far. -/
  accepted : List M
  /-- All batches given to `deliverSingle` so far, each with the batch size of that moment. -/
  handed : List (List M × Nat)
  /-- The last batch left messages behind, and none was accepted since. -/
  leftBehind : Bool

variable {M : Type}

/-- `clearTimeout` of the timer in the map. -/
def State.clearTimeout (s : State M) : State M :=
  match s.batchTimers with
  | some id => { s with timers := s.timers.filter fun timer => timer.id ≠ id }
  | none => s

def deliverSingle (s : State M) (messages : List M) : State M :=
  { s with running := s.running + 1, handed := s.handed ++ [(messages, s.batchSize)] }

def deliverBatch (s : State M) (batchSize : Nat) : State M :=
  if s.queue.isEmpty then s
  else
    let messages := s.queue.take batchSize
    let s := { s with queue := s.queue.drop batchSize, leftBehind := batchSize < s.queue.length }
    let s := { s.clearTimeout with batchTimers := none }
    deliverSingle s messages

def addToBatch (s : State M) (message : M) (batchSize : Nat) : State M :=
  let s := { s with queue := s.queue ++ [message], accepted := s.accepted ++ [message] }
  let s := s.clearTimeout
  if batchSize ≤ s.queue.length then deliverBatch s batchSize
  else
    { s with
      timers := s.timers ++ [⟨s.nextTimer, batchSize⟩]
      batchTimers := some s.nextTimer
      nextTimer := s.nextTimer + 1
      leftBehind := false }

inductive Act (M : Type) where
  /-- `deliverMessage` asks for the subscription. -/
  | call (message : M)
  /-- The database answers one of the waiting calls. -/
  | read (i : Nat)
  /-- The oldest call goes on: the subscription is inactive, its filters do not match or the read failed. -/
  | turnAway
  /-- The oldest call goes on with `addToBatch`. -/
  | accept
  | fire (id : Nat)
  /-- A `deliverSingle` ends. -/
  | finish
  | resize (batchSize : Nat)

def step (s : State M) : Act M → Option (State M)
  | .call message => some { s with reads := s.reads ++ [⟨message, none⟩] }
  | .read i =>
    match s.reads[i]? with
    | some ⟨message, none⟩ => some { s with reads := s.reads.set i ⟨message, some s.batchSize⟩ }
    | _ => none
  | .turnAway =>
    match s.reads with
    | _ :: rest => some { s with reads := rest }
    | [] => none
  | .accept =>
    match s.reads with
    | ⟨message, some batchSize⟩ :: rest => some (addToBatch { s with reads := rest } message batchSize)
    | _ => none
  | .fire id =>
    match s.timers.find? fun timer => timer.id = id with
    | some timer =>
      some (deliverBatch { s with timers := s.timers.filter fun timer => timer.id ≠ id } timer.batchSize)
    | none => none
  | .finish => if 0 < s.running then some { s with running := s.running - 1 } else none
  | .resize batchSize => if 1 < batchSize then some { s with batchSize := batchSize } else none

def empty (batchSize : Nat) : State M := ⟨batchSize, [], [], none, [], 0, 0, [], [], false⟩

def system : Transition.System (State M) (Act M) where
  initial s := ∃ batchSize, 1 < batchSize ∧ s = empty batchSize
  step := step

/-- Every accepted message is handed over once and in order or still waits, no batch is larger than
the batch size was, and what waits while nothing is delivered has a timer that takes all of it. -/
structure Orderly (s : State M) : Prop where
  once : s.handed.flatMap Prod.fst ++ s.queue = s.accepted
  bounded : ∀ batch ∈ s.handed, batch.1.length ≤ batch.2
  pending : s.queue ≠ [] → s.running = 0 → ∃ timer ∈ s.timers, s.queue.length ≤ timer.batchSize

/-- A full batch is taken at no more than the current size; a timer fires when no more than the
current size waits; the only running delivery does not end between a batch that left messages
behind and the next accepted message. -/
def Steady (s : State M) : Act M → Prop
  | .accept => ∀ message batchSize rest, s.reads = ⟨message, some batchSize⟩ :: rest →
      batchSize ≤ s.queue.length + 1 → batchSize ≤ s.batchSize
  | .fire _ => s.queue.length ≤ s.batchSize
  | .finish => s.running = 1 → s.leftBehind = false
  | .call _ | .read _ | .turnAway | .resize _ => True

/-- The timers of a queue: none after a batch, the one in the map after a message. -/
structure Timed (s : State M) : Prop where
  left : s.leftBehind = true → s.queue ≠ []
  timer : (s.timers = [] ∧ (s.queue ≠ [] → s.leftBehind = true)) ∨
    ∃ timer, s.timers = [timer] ∧ s.batchTimers = some timer.id ∧ s.queue ≠ [] ∧
      s.queue.length < timer.batchSize ∧ s.leftBehind = false

structure Consistent (s : State M) : Prop where
  timed : Timed s
  orderly : Orderly s

variable {s t : State M} {act : Act M}

theorem clearTimeout_timers (timed : Timed s) : s.clearTimeout.timers = [] := by
  rw [State.clearTimeout]
  rcases timed.timer with ⟨none_left, -⟩ | ⟨timer, one, entry, -⟩
  · split
    · rw [none_left]
      rfl
    · exact none_left
  · rw [entry]
    simp [one]

theorem clearTimeout_eq (s : State M) : s.clearTimeout = { s with timers := s.clearTimeout.timers } := by
  rw [State.clearTimeout]
  split <;> rfl

/-- What a batch does to a queue that is not empty, whose timers it clears. -/
theorem deliverBatch_eq {batchSize : Nat} (waiting : s.queue ≠ []) (cleared : s.clearTimeout.timers = []) :
    deliverBatch s batchSize =
      { s with
        queue := s.queue.drop batchSize
        batchTimers := none
        timers := []
        running := s.running + 1
        handed := s.handed ++ [(s.queue.take batchSize, s.batchSize)]
        leftBehind := batchSize < s.queue.length } := by
  have some_message : s.queue.isEmpty = false := by
    cases same : s.queue with
    | nil => exact absurd same waiting
    | cons => rfl
  rw [deliverBatch, some_message, if_neg Bool.false_ne_true]
  have timers : ({ s with queue := s.queue.drop batchSize, leftBehind := decide (batchSize < s.queue.length) } :
      State M).clearTimeout.timers = [] := by
    rw [← cleared, State.clearTimeout, State.clearTimeout]
    dsimp only
    split <;> rfl
  dsimp only
  rw [clearTimeout_eq, timers]
  rfl

theorem clearTimeout_of_none (none_left : s.timers = []) : s.clearTimeout.timers = [] := by
  rw [State.clearTimeout]
  split
  · rw [none_left]
    rfl
  · exact none_left

/-- An accepted message waits, with a timer of its own, or fills the batch. -/
theorem addToBatch_eq (timed : Timed s) (message : M) (batchSize : Nat) :
    addToBatch s message batchSize =
      if batchSize ≤ s.queue.length + 1 then
        { s with
          queue := (s.queue ++ [message]).drop batchSize
          batchTimers := none
          timers := []
          running := s.running + 1
          accepted := s.accepted ++ [message]
          handed := s.handed ++ [((s.queue ++ [message]).take batchSize, s.batchSize)]
          leftBehind := batchSize < s.queue.length + 1 }
      else
        { s with
          queue := s.queue ++ [message]
          batchTimers := some s.nextTimer
          timers := [⟨s.nextTimer, batchSize⟩]
          nextTimer := s.nextTimer + 1
          accepted := s.accepted ++ [message]
          leftBehind := false } := by
  have timers : ({ s with queue := s.queue ++ [message], accepted := s.accepted ++ [message] } :
      State M).clearTimeout.timers = [] := by
    rw [← clearTimeout_timers timed, State.clearTimeout, State.clearTimeout]
    dsimp only
    split <;> rfl
  have cleared : ({ s with queue := s.queue ++ [message], accepted := s.accepted ++ [message] } :
      State M).clearTimeout =
      { s with queue := s.queue ++ [message], accepted := s.accepted ++ [message], timers := [] } := by
    rw [clearTimeout_eq, timers]
  simp only [addToBatch, cleared, List.length_append, List.length_singleton]
  split
  · rw [deliverBatch_eq (by simp) (clearTimeout_of_none rfl)]
    simp
  · rfl

/-- Of the timers only the one in the map can fire, and it takes all that waits. -/
theorem fire_eq {id : Nat} (timed : Timed s) (fired : step s (.fire id) = some t) :
    s.queue ≠ [] ∧ t = { s with
      queue := []
      batchTimers := none
      timers := []
      running := s.running + 1
      handed := s.handed ++ [(s.queue, s.batchSize)]
      leftBehind := false } := by
  rw [step] at fired
  rcases timed.timer with ⟨none_left, -⟩ | ⟨timer, one, entry, waiting, less, -⟩
  · rw [none_left] at fired
    cases fired
  · rw [one] at fired
    by_cases named : timer.id = id
    · rw [List.find?_cons_of_pos (by simpa using named)] at fired
      have cleared : [timer].filter (fun timer => timer.id ≠ id) = [] := by simp [named]
      dsimp only at fired
      rw [cleared, deliverBatch_eq (s := { s with timers := [] }) waiting (clearTimeout_of_none rfl)] at fired
      refine ⟨waiting, ?_⟩
      rw [← Option.some.inj fired]
      dsimp only
      rw [List.drop_eq_nil_of_le (Nat.le_of_lt less), List.take_of_length_le (Nat.le_of_lt less), decide_eq_false (by omega)]
    · rw [List.find?_cons_of_neg (by simpa using named)] at fired
      cases fired

theorem timed_addToBatch (timed : Timed s) (message : M) (batchSize : Nat) : Timed (addToBatch s message batchSize) := by
  rw [addToBatch_eq timed]
  split
  · constructor
    · simp
    · refine .inl ⟨rfl, fun rest => ?_⟩
      simpa using rest
  · rename_i partly
    constructor
    · intro impossible
      cases impossible
    · refine .inr ⟨_, rfl, rfl, by simp, ?_, rfl⟩
      simpa using partly

/-- What a step may do: change rows, calls or the number of deliveries, take up a message, or
fire the timer. -/
theorem step_cases (timed : Timed s) (stepped : step s act = some t) :
    (∃ batchSize reads running, t = { s with batchSize := batchSize, reads := reads, running := running } ∧
      (running = s.running ∧ Steady s act ∨ act = .finish ∧ s.running = running + 1)) ∨
    (∃ message batchSize rest, act = .accept ∧ s.reads = ⟨message, some batchSize⟩ :: rest ∧
      t = addToBatch { s with reads := rest } message batchSize) ∨
    ∃ id, act = .fire id ∧ s.queue ≠ [] ∧ t = { s with
      queue := []
      batchTimers := none
      timers := []
      running := s.running + 1
      handed := s.handed ++ [(s.queue, s.batchSize)]
      leftBehind := false } := by
  cases act with
  | call message =>
    cases stepped
    exact .inl ⟨_, _, _, rfl, .inl ⟨rfl, trivial⟩⟩
  | read i =>
    rw [step] at stepped
    split at stepped
    · cases stepped
      exact .inl ⟨_, _, _, rfl, .inl ⟨rfl, trivial⟩⟩
    · cases stepped
  | turnAway =>
    rw [step] at stepped
    split at stepped
    · cases stepped
      exact .inl ⟨_, _, _, rfl, .inl ⟨rfl, trivial⟩⟩
    · cases stepped
  | accept =>
    rw [step] at stepped
    split at stepped
    · rename_i message batchSize rest waiting
      cases stepped
      exact .inr (.inl ⟨message, batchSize, rest, rfl, waiting, rfl⟩)
    · cases stepped
  | fire id => exact .inr (.inr ⟨id, rfl, fire_eq timed stepped⟩)
  | finish =>
    rw [step] at stepped
    split at stepped
    · rename_i some_running
      cases stepped
      exact .inl ⟨_, _, _, rfl, .inr ⟨rfl, by omega⟩⟩
    · cases stepped
  | resize batchSize =>
    rw [step] at stepped
    split at stepped
    · cases stepped
      exact .inl ⟨_, _, _, rfl, .inl ⟨rfl, trivial⟩⟩
    · cases stepped

theorem timed_step (timed : Timed s) (stepped : step s act = some t) : Timed t := by
  rcases step_cases timed stepped with ⟨_, _, _, rfl, -⟩ | ⟨message, batchSize, rest, -, -, rfl⟩ | ⟨-, -, -, rfl⟩
  · exact ⟨timed.left, timed.timer⟩
  · exact timed_addToBatch (s := { s with reads := rest }) ⟨timed.left, timed.timer⟩ message batchSize
  · constructor
    · intro impossible
      cases impossible
    · exact .inl ⟨rfl, fun impossible => absurd rfl impossible⟩

/-- In every run, what is handed over comes in order and without loss. -/
theorem once_step (once : s.handed.flatMap Prod.fst ++ s.queue = s.accepted) (timed : Timed s)
    (stepped : step s act = some t) : t.handed.flatMap Prod.fst ++ t.queue = t.accepted := by
  rcases step_cases timed stepped with ⟨_, _, _, rfl, -⟩ | ⟨message, batchSize, rest, -, -, rfl⟩ | ⟨-, -, -, rfl⟩
  · exact once
  · have timed' : Timed { s with reads := rest } := ⟨timed.left, timed.timer⟩
    rw [addToBatch_eq timed']
    split
    · simp only [List.flatMap_append, List.flatMap_cons, List.flatMap_nil, List.append_nil, List.append_assoc,
        List.take_append_drop]
      rw [← once, List.append_assoc]
    · simp only
      rw [← once, List.append_assoc]
  · simp only [List.flatMap_append, List.flatMap_cons, List.flatMap_nil, List.append_nil]
    exact once

/-- A steady step keeps the deliveries in order. -/
theorem consistent_step (consistent : Consistent s) (steady : Steady s act) (stepped : step s act = some t) :
    Consistent t := by
  have timed := timed_step consistent.timed stepped
  have once := once_step consistent.orderly.once consistent.timed stepped
  rcases step_cases consistent.timed stepped with
    ⟨_, _, running, rfl, deliveries⟩ | ⟨message, batchSize, rest, rfl, waiting, rfl⟩ | ⟨id, rfl, some_message, rfl⟩
  · refine ⟨timed, once, consistent.orderly.bounded, ?_⟩
    intro some_message (none_running : running = 0)
    rcases deliveries with ⟨same, -⟩ | ⟨rfl, one⟩
    · exact consistent.orderly.pending some_message (same ▸ none_running)
    · rcases consistent.timed.timer with ⟨-, left⟩ | ⟨timer, single, -, -, less, -⟩
      · have behind := steady (by omega)
        rw [left some_message] at behind
        cases behind
      · exact ⟨timer, single ▸ List.mem_singleton_self timer, Nat.le_of_lt less⟩
  · have timed' : Timed { s with reads := rest } := ⟨consistent.timed.left, consistent.timed.timer⟩
    have small := steady message batchSize rest waiting
    rw [addToBatch_eq timed'] at timed once ⊢
    split
    · rename_i full
      rw [if_pos full] at timed once
      refine ⟨timed, once, fun batch member => ?_, fun _ impossible => ?_⟩
      · rcases List.mem_append.mp member with old | new
        · exact consistent.orderly.bounded batch old
        · rw [List.mem_singleton.mp new]
          exact Nat.le_trans (List.length_take_le _ _) (small full)
      · cases impossible
    · rename_i partly
      rw [if_neg partly] at timed once
      refine ⟨timed, once, consistent.orderly.bounded, fun _ _ => ?_⟩
      refine ⟨_, List.mem_singleton_self _, ?_⟩
      simp only [List.length_append, List.length_singleton]
      exact Nat.le_of_not_le partly
  · refine ⟨timed, once, fun batch member => ?_, fun impossible => ?_⟩
    · rcases List.mem_append.mp member with old | new
      · exact consistent.orderly.bounded batch old
      · rw [List.mem_singleton.mp new]
        exact steady
    · exact absurd rfl impossible

theorem steady_of_orderly (consistent : Consistent s) (stepped : step s act = some t) (orderly : Orderly t) :
    Steady s act := by
  rcases step_cases consistent.timed stepped with
    ⟨_, _, running, rfl, ⟨-, steady⟩ | ⟨rfl, one⟩⟩ | ⟨message, batchSize, rest, rfl, waiting, rfl⟩ |
      ⟨id, rfl, some_message, rfl⟩
  · exact steady
  · intro last
    by_contra left
    have behind : s.leftBehind = true := by simpa using left
    rcases consistent.timed.timer with ⟨none_left, -⟩ | ⟨-, -, -, -, -, not_behind⟩
    · obtain ⟨timer, member, -⟩ := orderly.pending (consistent.timed.left behind) (by dsimp only; omega)
      rw [none_left] at member
      cases member
    · exact left not_behind
  · intro other size others same full
    obtain ⟨rfl, rfl⟩ : size = batchSize ∧ others = rest := by
      rw [waiting] at same
      cases same
      exact ⟨rfl, rfl⟩
    have timed' : Timed { s with reads := others } := ⟨consistent.timed.left, consistent.timed.timer⟩
    have bounded := orderly.bounded
    rw [addToBatch_eq timed', if_pos full] at bounded
    have last := bounded _ (List.mem_append_right _ (List.mem_singleton_self _))
    simp only [List.length_take, List.length_append, List.length_singleton] at last
    omega
  · exact orderly.bounded _ (List.mem_append_right _ (List.mem_singleton_self _))

theorem consistent_empty (batchSize : Nat) : Consistent (empty batchSize : State M) := by
  constructor
  · exact ⟨fun impossible => (Bool.false_ne_true impossible).elim,
      .inl ⟨rfl, fun impossible => absurd rfl impossible⟩⟩
  · exact ⟨rfl, fun _ impossible => (List.not_mem_nil impossible).elim, fun impossible => absurd rfl impossible⟩

theorem consistent_initial (start : system.initial s) : Consistent s := by
  obtain ⟨batchSize, -, rfl⟩ := start
  exact consistent_empty batchSize

/-- A run delivers everything once, in order and in time throughout iff all its steps are steady. -/
theorem orderly_iff_steady (start : system.initial s) (labels : List (Act M)) :
    system.Along Orderly s labels ↔ system.Guarded Steady s labels :=
  Transition.System.along_iff_guarded (fun consistent => consistent.orderly) consistent_step steady_of_orderly (consistent_initial start)
    labels

/-- One message, taken up with the size of the moment. -/
def deliver (message : String) : List (Act String) := [.call message, .read 0, .accept]

/-- A full batch, and a single message that its timer takes. -/
def twoBatches : List (Act String) := deliver "a" ++ deliver "b" ++ [.finish] ++ deliver "c" ++ [.fire 1, .finish]

def steady (s : State String) : Act String → Bool
  | .accept => s.reads.head?.all fun read => read.batchSize.all fun batchSize =>
      !(batchSize ≤ s.queue.length + 1) || batchSize ≤ s.batchSize
  | .fire _ => s.queue.length ≤ s.batchSize
  | .finish => !(s.running = 1) || !s.leftBehind
  | .call _ | .read _ | .turnAway | .resize _ => true

theorem steady_sound (s : State String) (act : Act String) (checked : steady s act = true) : Steady s act := by
  cases act with
  | accept =>
    rintro message batchSize rest waiting full
    simpa [steady, waiting, full] using checked
  | fire id => simpa [steady, Steady] using checked
  | finish =>
    intro last
    simpa [steady, last] using checked
  | call | read | turnAway | resize => trivial

theorem twoBatches_orderly : system.Along Orderly (empty 2) twoBatches :=
  (orderly_iff_steady ⟨2, by decide, rfl⟩ twoBatches).mpr
    (Transition.System.guarded_of_guardedBy steady steady_sound (by decide))

/-- The size is lowered while two messages wait: the third one fills a batch of two, and the one
that is left has no timer. -/
def loweredSize : List (Act String) := deliver "a" ++ deliver "b" ++ [.resize 2] ++ deliver "c" ++ [.finish]

theorem loweredSize_stuck : ¬ ∀ s : State String, system.Reachable s → Orderly s := by
  intro claim
  have ended : ((system.run (empty 3) loweredSize).any fun s => s.queue == ["c"] && s.running == 0 && s.timers.isEmpty)
      = true := by decide
  obtain ⟨s, executed, final⟩ := (Option.any_eq_true _ _).mp ended
  simp only [Bool.and_eq_true, beq_iff_eq, List.isEmpty_iff] at final
  have reached := Transition.System.reachable_of_run system (empty 3) loweredSize ⟨3, by decide, rfl⟩ executed
  obtain ⟨timer, member, -⟩ := (claim s reached).pending (by simp [final.1.1]) final.1.2
  rw [final.2] at member
  cases member

end Octraban.FeedBatches
