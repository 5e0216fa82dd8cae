import Octraban.Core.Interleaving
import Octraban.Core.Value

/-! publisher.ts: a message is numbered before the insert of its row is awaited, its event
only after. -/
namespace Octraban.Feed
open JavaScript Interleaving

structure FeedMessage where
  channelName : String
  data : Value
  ledgerSequence : Int
  timestamp : Int

/-- A row of `feedMessage`. -/
structure StoredMessage where
  id : String
  channelName : String
  data : Value
  sequence : Int
  indexedAt : Option Int
  ledgerSequence : Option Int
  timestamp : Int

/-- What `'message'` is emitted with. -/
structure MessageEvent extends FeedMessage where
  sequence : Int
  indexedAt : Option Int

/-- `published` lists the events in the order they were emitted, each with the row that its
`publish` returned. -/
structure World where
  sequenceCounter : Int
  feedMessage : List StoredMessage
  published : List (MessageEvent × StoredMessage)

/-- The insert a `publish` awaits. -/
structure Insert where
  message : FeedMessage
  sequence : Int
  indexedAt : Int

/-- The database gives the id. A reply may be lost after the row is in. -/
inductive Reply where
  | stored (id : String)
  | lost (id : String)

def Insert.row (insert : Insert) (id : String) : StoredMessage where
  id := id
  channelName := insert.message.channelName
  data := insert.message.data
  sequence := insert.sequence
  indexedAt := some insert.indexedAt
  ledgerSequence := some insert.message.ledgerSequence
  timestamp := insert.message.timestamp

/-- `publish` up to its await, called at `now`. -/
def publish (w : World) (call : FeedMessage × Int) : Option (World × Option Insert) :=
  let sequence := w.sequenceCounter + 1
  some ({ w with sequenceCounter := sequence }, some ⟨call.1, sequence, call.2⟩)

def emit (w : World) (message : FeedMessage) (storedMessage : StoredMessage) : World :=
  let event : MessageEvent := ⟨message, w.sequenceCounter, storedMessage.indexedAt⟩
  { w with published := w.published ++ [(event, storedMessage)] }

def store (w : World) (row : StoredMessage) : World := { w with feedMessage := w.feedMessage ++ [row] }

def resume (w : World) (insert : Insert) : Reply → Option (World × Option Insert)
  | .stored id => some (emit (store w (insert.row id)) insert.message (insert.row id), none)
  | .lost id => some (store w (insert.row id), none)

/-- `getLastSequence`, which `initializeSequence` awaits. -/
def initializeSequence (w : World) : World :=
  match (w.feedMessage.map StoredMessage.sequence).max? with
  | some sequence => { w with sequenceCounter := sequence }
  | none => w

/-- A rejected insert is an aborted call. -/
def publisher : Program World Insert (FeedMessage × Int) Reply Empty where
  start := publish
  resume := resume
  environment _ event := event.elim

def system : Transition.System (Config World Insert) (Act (FeedMessage × Int) Reply Empty) :=
  publisher.system fun w => ∃ rows, w = initializeSequence ⟨0, rows, []⟩

/-- Sequence numbers identify the messages a client is told of. -/
structure Identifying (w : World) : Prop where
  carried : ∀ p ∈ w.published, p.1.sequence = p.2.sequence
  distinct : w.published.Pairwise fun p q => p.1.sequence ≠ q.1.sequence
  increasing : w.published.Pairwise fun p q => p.1.sequence < q.1.sequence

abbrev Identified (c : Config World Insert) : Prop := Identifying c.world

/-- No other `publish` has begun by the time the insert of one succeeds. -/
def Unovertaken (c : Config World Insert) : Act (FeedMessage × Int) Reply Empty → Prop
  | .resume k (.stored _) => ∀ insert ∈ c.live k, c.world.sequenceCounter = insert.sequence
  | _ => True

/-- The counter is past every number given out, and no number is given out twice. -/
structure Numbered (c : Config World Insert) : Prop where
  identified : Identified c
  past : ∀ p ∈ c.world.published, p.1.sequence ≤ c.world.sequenceCounter
  awaited : ∀ k insert, c.live k = some insert → insert.sequence ≤ c.world.sequenceCounter ∧
    ∀ p ∈ c.world.published, p.1.sequence ≠ insert.sequence
  apart : ∀ j k first second, j ≠ k → c.live j = some first → c.live k = some second →
    first.sequence ≠ second.sequence

variable {c c' : Config World Insert} {k : Nat} {insert : Insert} {a : Act (FeedMessage × Int) Reply Empty}

/-- A call that ends without an event leaves the others as they were. -/
theorem Numbered.drop (numbered : Numbered c) (w : World) (counter : w.sequenceCounter = c.world.sequenceCounter)
    (published : w.published = c.world.published) : Numbered (c.put k w none) := by
  have other : ∀ j insert, (c.put k w none).live j = some insert → c.live j = some insert := by
    intro j insert found
    rcases Config.put_live_some found with ⟨_, ended⟩ | ⟨_, live⟩
    · contradiction
    · exact live
  obtain ⟨⟨carried, distinct, increasing⟩, past, awaited, apart⟩ := numbered
  constructor
  · constructor
    all_goals simpa only [Config.put_world, published]
  · simpa only [Config.put_world, published, counter] using past
  · intro j insert found
    simpa only [Config.put_world, published, counter] using awaited j insert (other j insert found)
  · intro i j first second different foundFirst foundSecond
    exact apart i j first second different (other i first foundFirst) (other j second foundSecond)

theorem Numbered.start (numbered : Numbered c) (message : FeedMessage) (now : Int) :
    Numbered (c.put k { c.world with sequenceCounter := c.world.sequenceCounter + 1 }
      (some ⟨message, c.world.sequenceCounter + 1, now⟩)) := by
  obtain ⟨identified, past, awaited, apart⟩ := numbered
  refine ⟨⟨identified.carried, identified.distinct, identified.increasing⟩, ?_, ?_, ?_⟩
  · intro p member
    have bound := past p member
    simp only [Config.put_world]
    omega
  · intro j insert found
    rcases Config.put_live_some found with ⟨_, started⟩ | ⟨_, live⟩
    · cases started
      refine ⟨Int.le_refl _, fun p member => ?_⟩
      have bound := past p member
      simp only
      omega
    · obtain ⟨bound, unused⟩ := awaited j insert live
      refine ⟨?_, unused⟩
      simp only [Config.put_world]
      omega
  · -- the new number is above all that came before
    have fresh : ∀ j insert, c.live j = some insert → insert.sequence ≠ c.world.sequenceCounter + 1 := by
      intro j insert found
      have bound := (awaited j insert found).1
      omega
    intro i j first second different foundFirst foundSecond
    rcases Config.put_live_some foundFirst with ⟨rfl, started⟩ | ⟨_, liveFirst⟩
    · rw [Config.put_live_ne _ _ _ different.symm] at foundSecond
      cases started
      exact (fresh j second foundSecond).symm
    · rcases Config.put_live_some foundSecond with ⟨_, started⟩ | ⟨_, liveSecond⟩
      · cases started
        exact fresh i first liveFirst
      · exact apart i j first second different liveFirst liveSecond

theorem Numbered.emit (numbered : Numbered c) (found : c.live k = some insert) (id : String)
    (unovertaken : c.world.sequenceCounter = insert.sequence) :
    Numbered (c.put k (emit (store c.world (insert.row id)) insert.message (insert.row id)) none) := by
  obtain ⟨⟨carried, distinct, increasing⟩, past, awaited, apart⟩ := numbered
  obtain ⟨bound, unused⟩ := awaited k insert found
  have below : ∀ p ∈ c.world.published, p.1.sequence < c.world.sequenceCounter := by
    intro p member
    have atMost := past p member
    have other := unused p member
    omega
  constructor
  · constructor
    · intro p member
      rcases List.mem_append.mp member with old | new
      · exact carried p old
      · rw [List.mem_singleton.mp new]
        exact unovertaken
    · refine List.pairwise_append.mpr ⟨distinct, List.pairwise_singleton _ _, fun p old q new => ?_⟩
      rw [List.mem_singleton.mp new]
      exact Int.ne_of_lt (below p old)
    · refine List.pairwise_append.mpr ⟨increasing, List.pairwise_singleton _ _, fun p old q new => ?_⟩
      rw [List.mem_singleton.mp new]
      exact below p old
  · intro p member
    rcases List.mem_append.mp member with old | new
    · exact past p old
    · rw [List.mem_singleton.mp new]
      exact Int.le_refl _
  · intro j other after
    rcases Config.put_live_some after with ⟨_, ended⟩ | ⟨own, live⟩
    · contradiction
    · refine ⟨(awaited j other live).1, fun p member => ?_⟩
      rcases List.mem_append.mp member with old | new
      · exact (awaited j other live).2 p old
      · rw [List.mem_singleton.mp new]
        intro same
        exact apart k j insert other (Ne.symm own) found live (unovertaken.symm.trans same)
  · intro i j first second different foundFirst foundSecond
    rcases Config.put_live_some foundFirst with ⟨_, ended⟩ | ⟨_, liveFirst⟩
    · contradiction
    · rcases Config.put_live_some foundSecond with ⟨_, ended⟩ | ⟨_, liveSecond⟩
      · contradiction
      · exact apart i j first second different liveFirst liveSecond

theorem step_numbered (numbered : Numbered c) (allowed : Unovertaken c a) (stepped : system.step c a = some c') :
    Numbered c' := by
  cases Program.step_cases stepped with
  | start idle started =>
    cases started
    exact numbered.start _ _
  | resume found resumed =>
    rename_i k insert reply w next
    cases reply with
    | stored id =>
      cases resumed
      exact numbered.emit found id (allowed insert found)
    | lost id =>
      cases resumed
      exact numbered.drop _ rfl rfl
  | abort found => exact numbered.drop _ rfl rfl
  | environment moved => exact Empty.elim ‹Empty›

/-- An event carries the number of its row only where nothing has overtaken it. -/
theorem unovertaken_of_identified (stepped : system.step c a = some c') (identified : Identified c') :
    Unovertaken c a := by
  cases Program.step_cases (p := publisher) stepped with
  | resume live resumed =>
    rename_i k insert reply w next
    cases reply with
    | stored id =>
      intro other found
      rw [live] at found
      cases found
      cases resumed
      exact identified.carried _ (List.mem_append_right _ List.mem_cons_self)
    | lost id => trivial
  | start | abort | environment => trivial

theorem initial_numbered (start : system.initial c) : Numbered c := by
  obtain ⟨⟨rows, initialised⟩, idle⟩ := start
  have nothing : c.world.published = [] := by
    rw [initialised]
    unfold initializeSequence
    split <;> rfl
  constructor
  · constructor
    all_goals simp [nothing]
  · simp [nothing]
  · simp [idle]
  · simp [idle]

/-- In every run of `publish` calls the numbers identify the messages throughout iff no insert
succeeds after a later call has begun. -/
theorem identified_iff (start : system.initial c) (labels : List (Act (FeedMessage × Int) Reply Empty)) :
    system.Along Identified c labels ↔ system.Guarded Unovertaken c labels :=
  Transition.System.along_iff_guarded Numbered.identified step_numbered
    (fun _ => unovertaken_of_identified) (initial_numbered start) labels

def message (text : String) : FeedMessage := ⟨"events", .text text, 7, 1000⟩

def idle : Config World Insert := ⟨initializeSequence ⟨0, [], []⟩, fun _ => none⟩

/-- The first insert fails, the next two messages go out one after the other. -/
def inTurn : List (Act (FeedMessage × Int) Reply Empty) :=
  [.start 0 (message "a", 1), .abort 0, .start 0 (message "b", 2), .resume 0 (.stored "row-b"),
    .start 0 (message "c", 3), .resume 0 (.stored "row-c")]

theorem inTurn_identified : system.Along Identified idle inTurn := by
  refine (identified_iff ⟨⟨[], rfl⟩, rfl⟩ inTurn).mpr ?_
  simp [inTurn, idle, Transition.System.Guarded, Unovertaken, system, publisher, Program.system, Program.step,
    publish, resume, emit, store, Config.put, initializeSequence]

/-- Both calls are numbered before the first insert is done. -/
def overlapping : List (Act (FeedMessage × Int) Reply Empty) :=
  [.start 0 (message "a", 1), .start 1 (message "b", 1), .resume 0 (.stored "row-a"), .resume 1 (.stored "row-b")]

theorem overlapping_unidentified : ¬ ∀ c, system.Reachable c → Identified c := by
  intro claim
  have reached := Transition.System.reachable_of_run system idle overlapping ⟨⟨[], rfl⟩, rfl⟩ rfl
  have carried := (claim _ reached).carried _ List.mem_cons_self
  exact absurd carried (by decide)

end Octraban.Feed
