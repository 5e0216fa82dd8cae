import Octraban.Core.Interleaving
import Octraban.Core.JavaScript

/-! deadLetterQueue.js: failed events in one table, retried by runs of `processRetries` that may
overlap, and replayed or resolved by hand. A statement takes effect in one step and returns in
another; it may throw before or after it took effect. A task is aborted when its process dies. -/
namespace Octraban.DeadLetterQueue
open Interleaving

structure Row (E : Type) where
  rawEvent : E
  errorMessage : String
  retryCount : Nat
  maxRetries : Nat
  nextRetryAt : Option Int
  resolved : Bool

/-- A row as a run has read it, with the number of its automatic calls that were counted by then. -/
structure Entry (E : Type) where
  id : Nat
  rawEvent : E
  retryCount : Nat
  maxRetries : Nat
  counted : Nat

/-- A call of the automatic handler, and whether the entry was marked resolved when it began. -/
structure HandlerCall (E : Type) where
  id : Nat
  rawEvent : E
  resolved : Bool

/-- `handled` lists the calls of the automatic handler, `retried` the entries of the failed ones
that were written to the table. -/
structure World (E : Type) where
  now : Int
  dbNow : Int
  nextId : Nat
  rows : Nat → Option (Row E)
  handled : List (HandlerCall E)
  retried : List Nat

inductive Request (E : Type) where
  | enqueue (rawEvent : E) (message : String)
  | processRetries
  | resolve (id : Nat)
  | replay (id : Nat)

/-- What a call awaits. `sent` tells that the statement has taken effect. -/
inductive Task (E : Type) where
  | insert (rawEvent : E) (message : String) (maxRetries : Nat) (nextRetryAt : Option Int)
  | select
  | selected (rows : List (Entry E))
  | handler (entry : Entry E) (rest : List (Entry E))
  | resolving (sent : Bool) (entry : Entry E) (rest : List (Entry E))
  | retrying (sent : Bool) (nextRetryAt : Option Int) (message : String) (entry : Entry E) (rest : List (Entry E))
  | resolve (id : Nat)
  | find (id : Nat)
  | replayHandler (id : Nat) (rawEvent : E)
  | replayed (sent : Bool) (id : Nat)
  | replayFailed (id : Nat) (message : String)

inductive Answer where
  | execute
  | select (ids : List Nat)
  | returned
  | handled (error : Option String)
  | threw (message : String)

inductive Event where
  | clock (now dbNow : Int)

/-! ### The functions -/

/-- What is left of a text after a word, in upper or lower case. -/
def afterWord : List Char → List Char → Option (List Char)
  | [], text => some text
  | letter :: word, c :: text => if c.toLower = letter then afterWord word text else none
  | _ :: _, [] => none

/-- The words with any white space between them. -/
def startsWith : List String → List Char → Bool
  | [], _ => true
  | word :: words, text =>
    (afterWord word.toList text).any fun rest => startsWith words (rest.dropWhile JavaScript.isWhitespace)

def transientErrors : List (List String) :=
  [["timeout"], ["rate", "limit"], ["too", "many", "requests"], ["econnreset"], ["etimedout"], ["network"]]

def isTransientError (errorMessage : String) : Bool :=
  errorMessage.toList.tails.any fun text => transientErrors.any fun words => startsWith words text

def computeNextRetryDelay (retryDelay retryCount : Nat) : Nat := retryDelay * 2 ^ retryCount

/-- `toISOString` throws outside the range of dates. -/
def validDate (ms : Int) : Option Int := if ms.natAbs ≤ 8640000000000000 then some ms else none

variable {E : Type}

namespace World

/-- The calls of the automatic handler for an entry. -/
def calls (w : World E) (id : Nat) : Nat := w.handled.countP (·.id = id)

/-- Those of them that failed and were counted. -/
def counted (w : World E) (id : Nat) : Nat := w.retried.count id

def update (w : World E) (id : Nat) (f : Row E → Row E) : World E :=
  { w with rows := Function.update w.rows id ((w.rows id).map f) }

def insert (w : World E) (rawEvent : E) (message : String) (maxRetries : Nat) (nextRetryAt : Option Int) : World E :=
  { w with
    rows := Function.update w.rows w.nextId (some ⟨rawEvent, message, 0, maxRetries, nextRetryAt, false⟩)
    nextId := w.nextId + 1 }

def markResolved (w : World E) (id : Nat) : World E := w.update id fun row => { row with resolved := true }

def recordRetry (w : World E) (entry : Entry E) (nextRetryAt : Option Int) (message : String) : World E :=
  { w.update entry.id fun row =>
      { row with retryCount := entry.retryCount + 1, nextRetryAt, errorMessage := message } with
    retried := entry.id :: w.retried }

def recordReplay (w : World E) (id : Nat) (message : String) : World E :=
  w.update id fun row => { row with retryCount := row.retryCount + 1, errorMessage := message }

def handle (w : World E) (entry : Entry E) : World E :=
  { w with handled := ⟨entry.id, entry.rawEvent, (w.rows entry.id).any Row.resolved⟩ :: w.handled }

def isDue (w : World E) (row : Row E) : Bool :=
  !row.resolved && row.nextRetryAt.any (· ≤ w.dbNow) && row.retryCount < row.maxRetries

def due (w : World E) : List Nat := (List.range w.nextId).filter fun id => (w.rows id).any w.isDue

def nextRetryAt (w : World E) (id : Nat) : Int := ((w.rows id).bind Row.nextRetryAt).getD 0

/-- The due entries in the order of their dates, the first hundred of them. -/
def Selects (w : World E) (ids : List Nat) : Prop :=
  ids.Nodup ∧ (∀ id ∈ ids, id ∈ w.due) ∧ ids.Pairwise (fun i j => w.nextRetryAt i ≤ w.nextRetryAt j) ∧
    ids.length = min 100 w.due.length ∧
    ∀ id ∈ w.due, id ∉ ids → ∀ earlier ∈ ids, w.nextRetryAt earlier ≤ w.nextRetryAt id

instance (w : World E) (ids : List Nat) : Decidable (w.Selects ids) := by
  unfold Selects
  infer_instance

def entry (w : World E) (id : Nat) : Option (Entry E) :=
  (w.rows id).map fun row => ⟨id, row.rawEvent, row.retryCount, row.maxRetries, w.counted id⟩

/-- The loop of `processRetries`: the next entry goes to the handler. -/
def next (w : World E) : List (Entry E) → World E × Option (Task E)
  | [] => (w, none)
  | entry :: rest => (w.handle entry, some (.handler entry rest))

end World

variable (maxRetries retryDelay : Nat)

/-- The start of the `catch` branch. -/
def fail (w : World E) (message : String) (entry : Entry E) (rest : List (Entry E)) : World E × Option (Task E) :=
  let newCount := entry.retryCount + 1
  if newCount ≥ entry.maxRetries then (w, some (.retrying false none message entry rest))
  else (w, (validDate (w.now + computeNextRetryDelay retryDelay newCount)).map fun date =>
    .retrying false (some date) message entry rest)

def start (w : World E) : Request E → Option (World E × Option (Task E))
  | .enqueue rawEvent message =>
    if isTransientError message then
      some (w, (validDate (w.now + retryDelay)).map fun date => .insert rawEvent message maxRetries (some date))
    else some (w, some (.insert rawEvent message 0 none))
  | .processRetries => some (w, some .select)
  | .resolve id => some (w, some (.resolve id))
  | .replay id => some (w, some (.find id))

def resume (w : World E) (task : Task E) (answer : Answer) : Option (World E × Option (Task E)) :=
  match task, answer with
  | .insert rawEvent message maxRetries nextRetryAt, .execute =>
    some (w.insert rawEvent message maxRetries nextRetryAt, none)
  | .select, .select ids => if w.Selects ids then some (w, some (.selected (ids.filterMap w.entry))) else none
  | .selected rows, .returned => some (w.next rows)
  | .handler entry rest, .handled none => some (w, some (.resolving false entry rest))
  | .handler entry rest, .handled (some message) => some (fail retryDelay w message entry rest)
  | .resolving false entry rest, .execute => some (w.markResolved entry.id, some (.resolving true entry rest))
  | .resolving true _ rest, .returned => some (w.next rest)
  | .resolving _ entry rest, .threw message => some (fail retryDelay w message entry rest)
  | .retrying false nextRetryAt message entry rest, .execute =>
    some (w.recordRetry entry nextRetryAt message, some (.retrying true nextRetryAt message entry rest))
  | .retrying true _ _ _ rest, .returned => some (w.next rest)
  | .resolve id, .execute => some (w.markResolved id, none)
  | .find id, .execute => some (w, (w.rows id).map fun row => .replayHandler id row.rawEvent)
  | .replayHandler id _, .handled none => some (w, some (.replayed false id))
  | .replayHandler id _, .handled (some message) => some (w, some (.replayFailed id message))
  | .replayed false id, .execute => some (w.markResolved id, some (.replayed true id))
  | .replayed true _, .returned => some (w, none)
  | .replayed _ id, .threw message => some (w, some (.replayFailed id message))
  | .replayFailed id message, .execute => some (w.recordReplay id message, none)
  | .handler .., .threw _ | .replayHandler .., .threw _ => none
  | _, .threw _ => some (w, none)
  | _, _ => none

def environment (w : World E) : Event → Option (World E)
  | .clock now dbNow => some { w with now, dbNow }

def program : Program (World E) (Task E) (Request E) Answer Event where
  start := start maxRetries retryDelay
  resume := resume retryDelay
  environment := environment

/-- The table starts empty. -/
def system : Transition.System (Config (World E) (Task E)) (Act (Request E) Answer Event) :=
  (program maxRetries retryDelay).system fun w => w.nextId = 1 ∧ (w.rows = fun _ => none) ∧ w.handled = [] ∧ w.retried = []

/-- Whatever is unresolved and has retries left has a date for the next one. -/
def Scheduled (w : World E) : Prop :=
  ∀ id row, w.rows id = some row → row.resolved = false → row.retryCount < row.maxRetries → row.nextRetryAt ≠ none

/-- The automatic handler is called for an entry at most `max_retries` times, and not after the entry
was marked resolved. -/
structure Disciplined (w : World E) : Prop where
  scheduled : Scheduled w
  bounded : ∀ id row, w.rows id = some row → w.calls id ≤ row.maxRetries
  unresolved : ∀ call ∈ w.handled, call.resolved = false

namespace Task

/-- The entries that a run has read and not yet handed over. -/
def waiting : Task E → List (Entry E)
  | selected rows => rows
  | handler _ rest | resolving _ _ rest | retrying _ _ _ _ rest => rest
  | _ => []

/-- The entry that a run has handed over, until its failure is counted. -/
def current : Task E → List (Entry E)
  | handler entry _ | resolving _ entry _ | retrying false _ _ entry _ => [entry]
  | _ => []

/-- The entry that the step hands over to the automatic handler. -/
def hands (task : Task E) (answer : Answer) : Option (Entry E) :=
  match task, answer with
  | selected rows, .returned => rows.head?
  | resolving true _ rest, .returned | retrying true _ _ _ rest, .returned => rest.head?
  | _, _ => none

/-- The entry that the step marks as resolved. -/
def resolves (task : Task E) (answer : Answer) : Option Nat :=
  match task, answer with
  | resolving false entry _, .execute => some entry.id
  | resolve id, .execute | replayed false id, .execute => some id
  | _, _ => none

end Task

/-- When an entry is handed over, all its earlier automatic calls had failed and been counted before
the run read it, and no entry is marked as resolved that a run has still to hand over. -/
structure Orderly (c : Config (World E) (Task E)) (a : Act (Request E) Answer Event) : Prop where
  counted : ∀ k answer task entry, a = .resume k answer → c.live k = some task → task.hands answer = some entry →
    c.world.calls entry.id = entry.counted
  resolved : ∀ k answer task id, a = .resume k answer → c.live k = some task → task.resolves answer = some id →
    ∀ j other, c.live j = some other → ∀ entry ∈ other.waiting, entry.id ≠ id

/-! ### What a segment does -/

/-- A retry without a date is only written when no retries are left. -/
def Task.Fit : Task E → Prop
  | insert _ _ maxRetries nextRetryAt => nextRetryAt = none → maxRetries = 0
  | retrying _ nextRetryAt _ entry _ => nextRetryAt = none → entry.maxRetries ≤ entry.retryCount + 1
  | _ => True

structure Within (task later : Task E) : Prop where
  waiting : later.waiting ⊆ task.waiting
  current : later.current ⊆ task.current
  fit : task.Fit → later.Fit

inductive Moved (w : World E) (task : Task E) (answer : Answer) : World E → Option (Task E) → Prop where
  | quiet : (∀ later ∈ next, Within task later) → Moved w task answer w next
  | read : w.Selects ids → Moved w task answer w (some (.selected (ids.filterMap w.entry)))
  | handed : task.hands answer = some entry → task.waiting = entry :: rest →
      Moved w task answer (w.handle entry) (some (.handler entry rest))
  | resolved {id : Nat} : task.resolves answer = some id → (∀ later ∈ next, Within task later) →
      Moved w task answer (w.markResolved id) next
  | counted : task = .retrying false date message entry rest →
      Moved w task answer (w.recordRetry entry date message) (some (.retrying true date message entry rest))
  | inserted : task = .insert rawEvent message limit date →
      Moved w task answer (w.insert rawEvent message limit date) none
  | replayed {id : Nat} : Moved w task answer (w.recordReplay id message) none

variable {maxRetries retryDelay : Nat}

theorem start_fit {w w' : World E} {request : Request E} {next : Option (Task E)}
    (started : start maxRetries retryDelay w request = some (w', next)) :
    w' = w ∧ ∀ later ∈ next, later.waiting = [] ∧ later.current = [] ∧ later.Fit := by
  cases request with
  | enqueue rawEvent message =>
    simp only [start] at started
    split at started
    · cases started
      refine ⟨rfl, fun later found => ?_⟩
      obtain ⟨date, _, rfl⟩ := Option.map_eq_some_iff.mp found
      exact ⟨rfl, rfl, fun impossible => by cases impossible⟩
    · cases started
      refine ⟨rfl, ?_⟩
      rintro later ⟨⟩
      exact ⟨rfl, rfl, fun _ => rfl⟩
  | processRetries | resolve | replay =>
    cases started
    refine ⟨rfl, ?_⟩
    rintro later ⟨⟩
    exact ⟨rfl, rfl, trivial⟩

theorem fail_within {w w' : World E} {task : Task E} {message : String} {entry : Entry E} {rest : List (Entry E)}
    {next : Option (Task E)} (waiting : task.waiting = rest) (current : task.current = [entry])
    (failed : fail retryDelay w message entry rest = (w', next)) : Moved w task answer w' next := by
  simp only [fail] at failed
  split at failed
  · rename_i exhausted
    cases failed
    apply Moved.quiet
    rintro later ⟨⟩
    exact ⟨waiting ▸ List.Subset.refl _, current ▸ List.Subset.refl _, fun _ _ => exhausted⟩
  · cases failed
    apply Moved.quiet
    intro later found
    obtain ⟨date, _, rfl⟩ := Option.map_eq_some_iff.mp found
    exact ⟨waiting ▸ List.Subset.refl _, current ▸ List.Subset.refl _, fun _ impossible => by cases impossible⟩

theorem next_moved {w w' : World E} {task : Task E} {rest : List (Entry E)} {next : Option (Task E)}
    (waiting : task.waiting = rest) (hands : task.hands answer = rest.head?)
    (advanced : w.next rest = (w', next)) : Moved w task answer w' next := by
  cases rest with
  | nil =>
    cases advanced
    exact .quiet fun _ impossible => by cases impossible
  | cons entry rest =>
    cases advanced
    exact .handed hands waiting

theorem ended {w : World E} {task : Task E} : Moved w task answer w none :=
  .quiet fun _ impossible => by cases impossible

theorem resume_moved {w w' : World E} {task : Task E} {answer : Answer} {next : Option (Task E)}
    (resumed : resume retryDelay w task answer = some (w', next)) : Moved w task answer w' next := by
  cases task with
  | insert =>
    cases answer <;> cases resumed
    · exact .inserted rfl
    · exact ended
  | select =>
    cases answer with
    | select ids =>
      simp only [resume] at resumed
      split at resumed
      · rename_i selects
        cases resumed
        exact .read selects
      · cases resumed
    | threw =>
      cases resumed
      exact ended
    | execute | returned | handled => cases resumed
  | selected rows =>
    cases answer with
    | returned => exact next_moved rfl rfl (Option.some.inj resumed)
    | threw =>
      cases resumed
      exact ended
    | execute | select | handled => cases resumed
  | handler entry rest =>
    cases answer with
    | handled error =>
      cases error with
      | none =>
        cases resumed
        apply Moved.quiet
        rintro later ⟨⟩
        exact ⟨List.Subset.refl _, List.Subset.refl _, id⟩
      | some message => exact fail_within rfl rfl (Option.some.inj resumed)
    | execute | select | returned | threw => cases resumed
  | resolving sent entry rest =>
    cases answer with
    | execute =>
      cases sent <;> cases resumed
      apply Moved.resolved rfl
      rintro later ⟨⟩
      exact ⟨List.Subset.refl _, List.Subset.refl _, id⟩
    | returned =>
      cases sent with
      | false => cases resumed
      | true => exact next_moved rfl rfl (Option.some.inj resumed)
    | threw message =>
      cases sent <;> exact fail_within rfl rfl (Option.some.inj resumed)
    | select | handled => cases sent <;> cases resumed
  | retrying sent date message entry rest =>
    cases answer with
    | execute =>
      cases sent <;> cases resumed
      exact .counted rfl
    | returned =>
      cases sent with
      | false => cases resumed
      | true => exact next_moved rfl rfl (Option.some.inj resumed)
    | threw =>
      cases sent <;> cases resumed <;> exact ended
    | select | handled => cases sent <;> cases resumed
  | resolve id =>
    cases answer <;> cases resumed
    · exact .resolved rfl fun _ impossible => by cases impossible
    · exact ended
  | find id =>
    cases answer <;> cases resumed
    · apply Moved.quiet
      intro later found
      obtain ⟨row, _, rfl⟩ := Option.map_eq_some_iff.mp found
      exact ⟨List.Subset.refl _, List.Subset.refl _, fun _ => trivial⟩
    · exact ended
  | replayHandler id rawEvent =>
    cases answer with
    | handled error =>
      cases error <;> cases resumed <;> apply Moved.quiet <;> rintro later ⟨⟩ <;>
        exact ⟨List.Subset.refl _, List.Subset.refl _, fun _ => trivial⟩
    | execute | select | returned | threw => cases resumed
  | replayed sent id =>
    cases answer with
    | execute =>
      cases sent <;> cases resumed
      apply Moved.resolved rfl
      rintro later ⟨⟩
      exact ⟨List.Subset.refl _, List.Subset.refl _, fun _ => trivial⟩
    | returned =>
      cases sent <;> cases resumed
      exact ended
    | threw =>
      cases sent <;> cases resumed <;> apply Moved.quiet <;> rintro later ⟨⟩ <;>
        exact ⟨List.Subset.refl _, List.Subset.refl _, fun _ => trivial⟩
    | select | handled => cases sent <;> cases resumed
  | replayFailed id message =>
    cases answer <;> cases resumed
    · exact .replayed
    · exact ended

/-! ### What every run keeps -/

theorem rows_update {w : World E} {id j : Nat} {f : Row E → Row E} {row' : Row E} :
    (w.update id f).rows j = some row' ↔ ∃ row, w.rows j = some row ∧ (if j = id then f row else row) = row' := by
  simp only [World.update, Function.update_apply]
  by_cases same : j = id
  · simp [same]
  · simp [same]

structure Filed (w : World E) : Prop where
  fresh : ∀ id, w.nextId ≤ id → w.rows id = none
  scheduled : ∀ id row, w.rows id = some row → row.nextRetryAt = none → row.maxRetries ≤ row.retryCount

/-- The entry is still in the table, with the retries it had. -/
def Kept (w : World E) (entry : Entry E) : Prop :=
  ∃ row, w.rows entry.id = some row ∧ row.maxRetries = entry.maxRetries

structure Assured (w : World E) (task : Task E) : Prop where
  fit : task.Fit
  waiting : ∀ entry ∈ task.waiting, Kept w entry
  current : ∀ entry ∈ task.current, Kept w entry

theorem Assured.within {w : World E} {task later : Task E} (assured : Assured w task) (within : Within task later) :
    Assured w later :=
  ⟨within.fit assured.fit, fun entry member => assured.waiting entry (within.waiting member),
    fun entry member => assured.current entry (within.current member)⟩

theorem Assured.keep {w w' : World E} {task : Task E} (assured : Assured w task)
    (keeps : ∀ entry, Kept w entry → Kept w' entry) : Assured w' task :=
  ⟨assured.fit, fun entry member => keeps entry (assured.waiting entry member),
    fun entry member => keeps entry (assured.current entry member)⟩

theorem kept_update {w : World E} {id : Nat} {f : Row E → Row E} (same : ∀ row, (f row).maxRetries = row.maxRetries)
    (entry : Entry E) (kept : Kept w entry) : Kept (w.update id f) entry := by
  obtain ⟨row, found, limit⟩ := kept
  refine ⟨_, rows_update.mpr ⟨row, found, rfl⟩, ?_⟩
  split
  · rw [same, limit]
  · exact limit

theorem Filed.update {w : World E} {id : Nat} {f : Row E → Row E} (filed : Filed w)
    (scheduled : ∀ row, w.rows id = some row → (f row).nextRetryAt = none → (f row).maxRetries ≤ (f row).retryCount) :
    Filed (w.update id f) where
  fresh j large := by
    rw [Option.eq_none_iff_forall_ne_some]
    intro row found
    obtain ⟨old, before, _⟩ := rows_update.mp found
    rw [filed.fresh j large] at before
    cases before
  scheduled j row found dateless := by
    obtain ⟨old, before, rfl⟩ := rows_update.mp found
    split at dateless
    · rename_i same
      rw [if_pos same]
      exact scheduled old (same ▸ before) dateless
    · rename_i other
      rw [if_neg other]
      exact filed.scheduled j old before dateless

theorem kept_insert {w : World E} (filed : Filed w) {rawEvent : E} {message : String} {limit : Nat} {date : Option Int}
    (entry : Entry E) (kept : Kept w entry) : Kept (w.insert rawEvent message limit date) entry := by
  obtain ⟨row, found, same⟩ := kept
  have old : entry.id ≠ w.nextId := by
    intro named
    rw [named, filed.fresh _ (le_refl _)] at found
    cases found
  exact ⟨row, by simpa [World.insert, Function.update_apply, old] using found, same⟩

theorem Filed.insert {w : World E} (filed : Filed w) {rawEvent : E} {message : String} {limit : Nat} {date : Option Int}
    (fit : date = none → limit = 0) : Filed (w.insert rawEvent message limit date) where
  fresh j large := by
    have beyond : w.nextId + 1 ≤ j := large
    simp only [World.insert, Function.update_apply, if_neg (by omega : j ≠ w.nextId)]
    exact filed.fresh j (by omega)
  scheduled j row found dateless := by
    simp only [World.insert, Function.update_apply] at found
    split at found
    · cases found
      exact (fit dateless).le
    · exact filed.scheduled j row found dateless

theorem mem_entries {w : World E} {ids : List Nat} {entry : Entry E} (member : entry ∈ ids.filterMap w.entry) :
    ∃ id ∈ ids, ∃ row, w.rows id = some row ∧ entry = ⟨id, row.rawEvent, row.retryCount, row.maxRetries, w.counted id⟩ := by
  obtain ⟨id, chosen, read⟩ := List.mem_filterMap.mp member
  obtain ⟨row, found, rfl⟩ := Option.map_eq_some_iff.mp read
  exact ⟨id, chosen, row, found, rfl⟩

/-- A segment keeps the table in order, and what the tasks rely on in it. -/
theorem moved_filed {w w' : World E} {task : Task E} {answer : Answer} {next : Option (Task E)} (filed : Filed w)
    (assured : Assured w task) (moved : Moved w task answer w' next) :
    Filed w' ∧ (∀ later ∈ next, Assured w' later) ∧ ∀ entry, Kept w entry → Kept w' entry := by
  cases moved with
  | quiet within => exact ⟨filed, fun later found => assured.within (within later found), fun _ => id⟩
  | read =>
    refine ⟨filed, ?_, fun _ => id⟩
    rintro later ⟨⟩
    refine ⟨trivial, fun entry member => ?_, nofun⟩
    obtain ⟨id, _, row, found, rfl⟩ := mem_entries member
    exact ⟨row, found, rfl⟩
  | handed _ waiting =>
    refine ⟨⟨filed.fresh, filed.scheduled⟩, ?_, fun _ => id⟩
    rintro later ⟨⟩
    have all := List.forall_mem_cons.mp (waiting ▸ assured.waiting)
    exact ⟨trivial, all.2, List.forall_mem_singleton.mpr all.1⟩
  | @resolved _ id _ within =>
    have keeps : ∀ entry, Kept w entry → Kept (w.markResolved id) entry := kept_update fun _ => rfl
    exact ⟨filed.update fun row => filed.scheduled id row,
      fun later found => (assured.within (within later found)).keep keeps, keeps⟩
  | @counted date message entry rest sending =>
    subst sending
    have keeps : ∀ other, Kept w other → Kept (w.recordRetry entry date message) other := kept_update fun _ => rfl
    obtain ⟨row, found, limit⟩ := assured.current entry List.mem_cons_self
    have filed' : Filed (w.update entry.id fun row =>
        { row with retryCount := entry.retryCount + 1, nextRetryAt := date, errorMessage := message }) := by
      apply filed.update
      intro other same dateless
      obtain rfl := Option.some.inj (same.symm.trans found)
      exact limit.trans_le (assured.fit dateless)
    refine ⟨⟨filed'.fresh, filed'.scheduled⟩, ?_, keeps⟩
    rintro later ⟨⟩
    exact ⟨assured.fit, fun other member => keeps other (assured.waiting other member), nofun⟩
  | inserted sending =>
    subst sending
    exact ⟨filed.insert assured.fit, nofun, kept_insert filed⟩
  | @replayed message id =>
    refine ⟨filed.update fun row found dateless => ?_, nofun, kept_update fun _ => rfl⟩
    exact (filed.scheduled id row found dateless).trans (Nat.le_succ _)

theorem step_filed {c c' : Config (World E) (Task E)} {a : Act (Request E) Answer Event}
    (holds : c.Holds Filed Assured) (stepped : (system maxRetries retryDelay).step c a = some c') :
    c'.Holds Filed Assured := by
  cases Program.step_cases stepped with
  | start _ started =>
    obtain ⟨rfl, fits⟩ := start_fit started
    apply Config.holds_put holds.world
    · intro later found
      obtain ⟨waiting, current, fit⟩ := fits later found
      refine ⟨fit, fun _ member => ?_, fun _ member => ?_⟩
      · simp [waiting] at member
      · simp [current] at member
    · exact fun _ _ _ live => holds.live live
  | resume found resumed =>
    obtain ⟨filed, own, keeps⟩ := moved_filed holds.world (holds.live found) (resume_moved resumed)
    exact Config.holds_put filed own fun _ _ _ live => (holds.live live).keep keeps
  | abort => exact holds.abort
  | @environment event w moved =>
    cases event
    cases moved
    refine ⟨⟨holds.world.fresh, holds.world.scheduled⟩, fun live => ?_⟩
    exact (holds.live live).keep fun _ => id

theorem reachable_filed {c : Config (World E) (Task E)} {guard : Config (World E) (Task E) → Act (Request E) Answer Event → Prop}
    (reached : (system maxRetries retryDelay).ReachableWhen guard c) : c.Holds Filed Assured := by
  apply reached.invariant _ fun holds _ => step_filed holds
  rintro ⟨w, live⟩ ⟨⟨_, empty, _⟩, idle⟩
  apply Config.holds_idle _ idle
  constructor
  · exact fun id _ => congrFun empty id
  · intro id row found
    rw [show w.rows id = none from congrFun empty id] at found
    cases found

theorem Filed.dated {w : World E} (filed : Filed w) : Scheduled w := by
  intro id row found _ left dateless
  exact absurd (filed.scheduled id row found dateless) (Nat.not_le.mpr left)

/-! ### Orderly runs -/

/-- The counters beside the table. -/
structure Counted (w : World E) : Prop where
  unknown : ∀ id, w.rows id = none → w.calls id = 0
  counted : ∀ id, w.counted id ≤ w.calls id
  bounded : ∀ id row, w.rows id = some row → w.calls id ≤ row.maxRetries
  retryCount : ∀ id row, w.rows id = some row → w.counted id ≤ row.retryCount
  unresolved : ∀ call ∈ w.handled, call.resolved = false

structure Ready (w : World E) (entry : Entry E) : Prop where
  counted : entry.counted ≤ entry.retryCount
  left : entry.retryCount < entry.maxRetries
  read : entry.counted ≤ w.counted entry.id
  unresolved : ∀ row, w.rows entry.id = some row → row.resolved = false

/-- The call that is going on is the only one that is not counted. -/
structure Taken (w : World E) (entry : Entry E) : Prop where
  counted : entry.counted ≤ entry.retryCount
  calls : w.calls entry.id = entry.counted + 1
  uncounted : w.counted entry.id ≤ entry.counted

structure Expected (w : World E) (task : Task E) : Prop where
  waiting : ∀ entry ∈ task.waiting, Ready w entry
  current : ∀ entry ∈ task.current, Taken w entry

theorem Expected.within {w : World E} {task later : Task E} (expected : Expected w task) (within : Within task later) :
    Expected w later :=
  ⟨fun entry member => expected.waiting entry (within.waiting member),
    fun entry member => expected.current entry (within.current member)⟩

theorem Expected.keep {w w' : World E} {task : Task E} (expected : Expected w task)
    (ready : ∀ entry ∈ task.waiting, Ready w entry → Ready w' entry)
    (taken : ∀ entry ∈ task.current, Taken w entry → Taken w' entry) : Expected w' task :=
  ⟨fun entry member => ready entry member (expected.waiting entry member),
    fun entry member => taken entry member (expected.current entry member)⟩

theorem calls_handle (w : World E) (entry : Entry E) (id : Nat) :
    (w.handle entry).calls id = w.calls id + if entry.id = id then 1 else 0 := by
  simp [World.calls, World.handle, List.countP_cons]

theorem counted_recordRetry (w : World E) (entry : Entry E) (date : Option Int) (message : String) (id : Nat) :
    (w.recordRetry entry date message).counted id = w.counted id + if entry.id = id then 1 else 0 := by
  simp [World.counted, World.recordRetry, List.count_cons]

/-- A write that leaves the limits as they are and lowers no count. -/
theorem Counted.update {w : World E} {id : Nat} {f : Row E → Row E} (counts : Counted w)
    (same : ∀ row, (f row).maxRetries = row.maxRetries)
    (retryCount : ∀ row, w.rows id = some row → w.counted id ≤ (f row).retryCount) : Counted (w.update id f) where
  unknown j missing := by
    apply counts.unknown j
    rw [Option.eq_none_iff_forall_ne_some] at missing ⊢
    exact fun row found => missing _ (rows_update.mpr ⟨row, found, rfl⟩)
  counted := counts.counted
  bounded j row found := by
    obtain ⟨old, before, rfl⟩ := rows_update.mp found
    have bound := counts.bounded j old before
    split
    · rw [same]
      exact bound
    · exact bound
  retryCount j row found := by
    obtain ⟨old, before, rfl⟩ := rows_update.mp found
    split
    · rename_i named
      subst named
      exact retryCount old before
    · exact counts.retryCount j old before
  unresolved := counts.unresolved

theorem Ready.update {w : World E} {id : Nat} {f : Row E → Row E} {entry : Entry E} (ready : Ready w entry)
    (same : entry.id = id → ∀ row, (f row).resolved = row.resolved) : Ready (w.update id f) entry where
  counted := ready.counted
  left := ready.left
  read := ready.read
  unresolved row found := by
    obtain ⟨old, before, rfl⟩ := rows_update.mp found
    have unresolved := ready.unresolved old before
    split
    · rename_i named
      rw [same named]
      exact unresolved
    · exact unresolved

theorem Ready.congr {w w' : World E} {entry : Entry E} (ready : Ready w entry) (rows : w'.rows = w.rows)
    (retried : w'.retried = w.retried) : Ready w' entry where
  counted := ready.counted
  left := ready.left
  read := by
    rw [World.counted, retried]
    exact ready.read
  unresolved row found := ready.unresolved row (rows ▸ found)

theorem Taken.congr {w w' : World E} {entry : Entry E} (taken : Taken w entry) (handled : w'.handled = w.handled)
    (retried : w'.retried = w.retried) : Taken w' entry where
  counted := taken.counted
  calls := by
    rw [World.calls, handled]
    exact taken.calls
  uncounted := by
    rw [World.counted, retried]
    exact taken.uncounted

/-- A run that hands an entry over in order is the only one that has it. -/
theorem Ready.alone {w : World E} {entry other : Entry E} (ready : Ready w entry) (taken : Taken w other)
    (ordered : w.calls entry.id = entry.counted) : entry.id ≠ other.id := by
  intro same
  have read := ready.read
  rw [same] at read ordered
  have calls := taken.calls
  have uncounted := taken.uncounted
  omega

theorem Counted.handle {w : World E} {entry : Entry E} (counts : Counted w) (kept : Kept w entry) (ready : Ready w entry)
    (ordered : w.calls entry.id = entry.counted) : Counted (w.handle entry) where
  unknown id missing := by
    have other : entry.id ≠ id := by
      rintro rfl
      obtain ⟨row, found, _⟩ := kept
      rw [show w.rows entry.id = none from missing] at found
      cases found
    rw [calls_handle, if_neg other]
    exact counts.unknown id missing
  counted id := by
    rw [calls_handle]
    exact (counts.counted id).trans (Nat.le_add_right _ _)
  bounded id row found := by
    have bound := counts.bounded id row found
    rw [calls_handle]
    split
    · rename_i named
      subst named
      obtain ⟨old, before, limit⟩ := kept
      obtain rfl := Option.some.inj (before.symm.trans found)
      have counted := ready.counted
      have left := ready.left
      omega
    · exact bound
  retryCount := counts.retryCount
  unresolved := by
    apply List.forall_mem_cons.mpr ⟨?_, counts.unresolved⟩
    obtain ⟨row, found, _⟩ := kept
    simp [found, ready.unresolved row found]

theorem Counted.recordRetry {w : World E} {entry : Entry E} {date : Option Int} {message : String} (counts : Counted w)
    (taken : Taken w entry) : Counted (w.recordRetry entry date message) := by
  have updated : Counted (w.update entry.id fun row =>
      { row with retryCount := entry.retryCount + 1, nextRetryAt := date, errorMessage := message }) := by
    refine counts.update (fun _ => rfl) fun row found => ?_
    exact taken.uncounted.trans (taken.counted.trans (Nat.le_succ _))
  refine ⟨updated.unknown, fun id => ?_, updated.bounded, fun id row found => ?_, updated.unresolved⟩
  · rw [counted_recordRetry]
    change _ ≤ w.calls id
    have counted := counts.counted id
    split
    · rename_i named
      subst named
      rw [taken.calls]
      exact Nat.succ_le_succ taken.uncounted
    · exact counted
  · have bound := updated.retryCount id row found
    rw [counted_recordRetry]
    split
    · rename_i named
      subst named
      obtain ⟨old, _, rfl⟩ := rows_update.mp (show (w.update _ _).rows _ = _ from found)
      rw [if_pos rfl]
      exact Nat.succ_le_succ (taken.uncounted.trans taken.counted)
    · exact bound

theorem Counted.insert {w : World E} {rawEvent : E} {message : String} {limit : Nat} {date : Option Int}
    (counts : Counted w) (filed : Filed w) : Counted (w.insert rawEvent message limit date) where
  unknown id missing := by
    simp only [World.insert, Function.update_apply] at missing
    split at missing
    · cases missing
    · exact counts.unknown id missing
  counted := counts.counted
  bounded id row found := by
    simp only [World.insert, Function.update_apply] at found
    split at found
    · rename_i named
      have new := counts.unknown id (named ▸ filed.fresh _ (le_refl _))
      exact (show w.calls id = 0 from new).trans_le (Nat.zero_le _)
    · exact counts.bounded id row found
  retryCount id row found := by
    simp only [World.insert, Function.update_apply] at found
    split at found
    · rename_i named
      have new := counts.unknown id (named ▸ filed.fresh _ (le_refl _))
      exact ((counts.counted id).trans_eq new).trans (Nat.zero_le _)
    · exact counts.retryCount id row found
  unresolved := counts.unresolved

theorem Ready.insert {w : World E} {rawEvent : E} {message : String} {limit : Nat} {date : Option Int} {entry : Entry E}
    (ready : Ready w entry) (kept : Kept w entry) (filed : Filed w) :
    Ready (w.insert rawEvent message limit date) entry where
  counted := ready.counted
  left := ready.left
  read := ready.read
  unresolved row found := by
    obtain ⟨old, before, _⟩ := kept
    have other : entry.id ≠ w.nextId := by
      intro named
      rw [named, filed.fresh _ (le_refl _)] at before
      cases before
    simp only [World.insert, Function.update_apply, if_neg other] at found
    exact ready.unresolved row found

theorem Ready.recordRetry {w : World E} {entry other : Entry E} {date : Option Int} {message : String}
    (ready : Ready w other) : Ready (w.recordRetry entry date message) other where
  counted := ready.counted
  left := ready.left
  read := by
    rw [counted_recordRetry]
    exact ready.read.trans (Nat.le_add_right _ _)
  unresolved := (ready.update (f := fun row =>
    { row with retryCount := entry.retryCount + 1, nextRetryAt := date, errorMessage := message }) fun _ _ => rfl).unresolved

theorem Taken.recordRetry {w : World E} {entry other : Entry E} {date : Option Int} {message : String}
    (taken : Taken w other) (apart : entry.id ≠ other.id) : Taken (w.recordRetry entry date message) other where
  counted := taken.counted
  calls := taken.calls
  uncounted := by
    rw [counted_recordRetry, if_neg apart]
    exact taken.uncounted

theorem Taken.handle {w : World E} {entry other : Entry E} (taken : Taken w other) (apart : entry.id ≠ other.id) :
    Taken (w.handle entry) other where
  counted := taken.counted
  calls := by
    rw [calls_handle, if_neg apart]
    exact taken.calls
  uncounted := taken.uncounted

theorem Ready.handle {w : World E} {entry : Entry E} (ready : Ready w entry) (counts : Counted w)
    (ordered : w.calls entry.id = entry.counted) : Taken (w.handle entry) entry where
  counted := ready.counted
  calls := by rw [calls_handle, if_pos rfl, ordered]
  uncounted := ordered ▸ counts.counted entry.id

theorem ready_of_selects {w : World E} {ids : List Nat} (selects : w.Selects ids) (counts : Counted w) :
    ∀ entry ∈ ids.filterMap w.entry, Ready w entry := by
  intro entry member
  obtain ⟨id, chosen, row, found, rfl⟩ := mem_entries member
  have due := (List.mem_filter.mp (selects.2.1 id chosen)).2
  simp only [found, Option.any_some, World.isDue, Bool.and_eq_true, decide_eq_true_eq] at due
  refine ⟨counts.retryCount id row found, due.2, le_refl _, fun other same => ?_⟩
  obtain rfl := Option.some.inj (found.symm.trans same)
  simpa using due.1.1

/-- What a run relies on in an orderly run of the system. -/
structure Sound (c : Config (World E) (Task E)) : Prop where
  filed : c.Holds Filed Assured
  counts : c.Holds Counted Expected
  apart : c.Apart fun task => task.current.map Entry.id

theorem Sound.put {c : Config (World E) (Task E)} {task : Task E} {w : World E} {next : Option (Task E)} (sound : Sound c)
    (filed : (c.put k w next).Holds Filed Assured) (found : c.live k = some task) (counts : Counted w)
    (current : ∀ later ∈ next, later.current ⊆ task.current) (own : ∀ later ∈ next, Expected w later)
    (others : ∀ j other, j ≠ k → c.live j = some other → Expected w other) : Sound (c.put k w next) where
  filed := filed
  counts := Config.holds_put counts own others
  apart := sound.apart.put fun later mine j other apart live =>
    List.disjoint_of_subset_left (List.map_subset _ (current later mine)) (sound.apart k j task other apart.symm found live)

theorem resume_sound {c : Config (World E) (Task E)} {task : Task E} {answer : Answer} {w : World E}
    {next : Option (Task E)} (sound : Sound c) (orderly : Orderly c (.resume k answer)) (found : c.live k = some task)
    (filed : (c.put k w next).Holds Filed Assured) (moved : Moved c.world task answer w next) :
    Sound (c.put k w next) := by
  have counts := sound.counts.world
  have expected := sound.counts.live found
  have assured := sound.filed.live found
  cases moved with
  | quiet within =>
    apply sound.put filed found counts
    · exact fun later mine => (within later mine).current
    · exact fun later mine => expected.within (within later mine)
    · exact fun j other _ live => sound.counts.live live
  | read selects =>
    apply sound.put filed found counts
    · rintro later ⟨⟩
      exact List.nil_subset _
    · rintro later ⟨⟩
      exact ⟨ready_of_selects selects counts, nofun⟩
    · exact fun j other _ live => sound.counts.live live
  | @handed entry rest hands waiting =>
    have ordered := orderly.counted k answer task entry rfl found hands
    have member : entry ∈ task.waiting := waiting ▸ List.mem_cons_self
    have ready := expected.waiting entry member
    have alone {j : Nat} (other : Task E) (live : c.live j = some other) (taken : Entry E) (present : taken ∈ other.current) :
        entry.id ≠ taken.id := ready.alone ((sound.counts.live live).current taken present) ordered
    constructor
    · exact filed
    · apply Config.holds_put (counts.handle (assured.waiting entry member) ready ordered)
      · rintro later ⟨⟩
        refine ⟨fun other present => ?_, List.forall_mem_singleton.mpr (ready.handle counts ordered)⟩
        exact (expected.waiting other (waiting ▸ List.mem_cons_of_mem _ present)).congr rfl rfl
      · intro j other _ live
        apply (sound.counts.live live).keep
        · exact fun _ _ waits => waits.congr rfl rfl
        · exact fun taken present same => same.handle (alone other live taken present)
    · apply sound.apart.put
      rintro later ⟨⟩ j other _ live
      apply List.singleton_disjoint.mpr
      intro named
      obtain ⟨taken, present, same⟩ := List.mem_map.mp named
      exact alone other live taken present same.symm
  | @resolved _ id resolves within =>
    have others (j : Nat) (other : Task E) (live : c.live j = some other) : Expected (c.world.markResolved id) other := by
      apply (sound.counts.live live).keep
      · intro entry member ready
        exact ready.update fun named => absurd named (orderly.resolved k answer task id rfl found resolves j other live entry member)
      · exact fun _ _ taken => taken.congr rfl rfl
    apply sound.put filed found
    · exact counts.update (fun _ => rfl) fun row => counts.retryCount id row
    · exact fun later mine => (within later mine).current
    · exact fun later mine => (others k task found).within (within later mine)
    · exact fun j other _ live => others j other live
  | @counted date message entry rest sending =>
    subst sending
    have taken := expected.current entry List.mem_cons_self
    apply sound.put filed found (counts.recordRetry taken)
    · rintro later ⟨⟩
      exact List.nil_subset _
    · rintro later ⟨⟩
      exact ⟨fun other member => (expected.waiting other member).recordRetry, nofun⟩
    · intro j other apart live
      apply (sound.counts.live live).keep
      · exact fun _ _ ready => ready.recordRetry
      · intro busy member same
        apply same.recordRetry
        intro named
        apply sound.apart k j _ other apart.symm found live (List.mem_cons_self (a := entry.id))
        exact named ▸ List.mem_map_of_mem member
  | inserted sending =>
    subst sending
    apply sound.put filed found (counts.insert sound.filed.world) nofun nofun
    intro j other _ live
    apply (sound.counts.live live).keep
    · exact fun entry member ready => ready.insert ((sound.filed.live live).waiting entry member) sound.filed.world
    · exact fun _ _ taken => taken.congr rfl rfl
  | @replayed message id =>
    refine sound.put filed found (counts.update (fun _ => rfl) fun row found => ?_) nofun nofun ?_
    · exact (counts.retryCount id row found).trans (Nat.le_succ _)
    · intro j other _ live
      apply (sound.counts.live live).keep
      · exact fun _ _ ready => ready.update fun _ _ => rfl
      · exact fun _ _ taken => taken.congr rfl rfl

theorem step_sound {c c' : Config (World E) (Task E)} {a : Act (Request E) Answer Event} (sound : Sound c)
    (orderly : Orderly c a) (stepped : (system maxRetries retryDelay).step c a = some c') : Sound c' := by
  have filed := step_filed sound.filed stepped
  cases Program.step_cases stepped with
  | start idle started =>
    obtain ⟨rfl, fits⟩ := start_fit started
    constructor
    · exact filed
    · apply Config.holds_put sound.counts.world
      · intro later mine
        obtain ⟨waiting, current, _⟩ := fits later mine
        refine ⟨fun _ member => ?_, fun _ member => ?_⟩
        · simp [waiting] at member
        · simp [current] at member
      · exact fun _ _ _ live => sound.counts.live live
    · apply sound.apart.put
      intro later mine j other _ _
      rw [(fits later mine).2.1]
      exact List.disjoint_nil_left _
  | resume found resumed => exact resume_sound sound orderly found filed (resume_moved resumed)
  | abort found => exact ⟨filed, sound.counts.abort, sound.apart.put fun _ ended => nomatch ended⟩
  | @environment event w moved =>
    cases event
    cases moved
    have counts := sound.counts.world
    refine ⟨filed, ⟨⟨counts.unknown, counts.counted, counts.bounded, counts.retryCount, counts.unresolved⟩, fun live => ?_⟩,
      sound.apart⟩
    apply (sound.counts.live live).keep
    · exact fun _ _ ready => ready.congr rfl rfl
    · exact fun _ _ taken => taken.congr rfl rfl

theorem initial_sound {c : Config (World E) (Task E)} (start : (system maxRetries retryDelay).initial c) : Sound c := by
  have reached : (system maxRetries retryDelay).Reachable c := .initial start
  have filed := reachable_filed reached
  obtain ⟨w, live⟩ := c
  obtain ⟨⟨_, empty, unhandled, unretried⟩, idle⟩ := start
  cases idle
  have none (id : Nat) : w.calls id = 0 := by
    rw [World.calls, unhandled]
    rfl
  have vacant (id : Nat) (row : Row E) : w.rows id ≠ some row := by
    rw [show w.rows id = Option.none from congrFun empty id]
    exact nofun
  refine ⟨filed, ⟨⟨fun id _ => none id, fun id => ?_, ?_, ?_, ?_⟩, nofun⟩, nofun⟩
  · rw [World.counted, unretried]
    exact Nat.zero_le _
  · exact fun id row found => absurd found (vacant id row)
  · exact fun id row found => absurd found (vacant id row)
  · rw [unhandled]
    exact nofun

/-- Every run keeps a date for what has retries left. A run in which no entry is handed over on counts
that are out of date, and none is resolved that a run has still to hand over, never calls the handler
more often than `max_retries` allows, nor for an entry that is resolved. -/
theorem retries_disciplined :
    (∀ c : Config (World E) (Task E), (system maxRetries retryDelay).Reachable c → Scheduled c.world) ∧
      ∀ c : Config (World E) (Task E), (system maxRetries retryDelay).ReachableWhen Orderly c → Disciplined c.world := by
  constructor
  · exact fun c reached => (reachable_filed reached).world.dated
  · intro c reached
    have sound : Sound c := reached.invariant initial_sound step_sound
    exact ⟨sound.filed.world.dated, sound.counts.world.bounded, sound.counts.world.unresolved⟩

/-- `Orderly` for the calls below `n`. -/
def orderly (n : Nat) (c : Config (World E) (Task E)) : Act (Request E) Answer Event → Bool
  | .resume k answer => (c.live k).all fun task =>
    (task.hands answer).all (fun entry => c.world.calls entry.id = entry.counted) &&
      (task.resolves answer).all fun id => (List.range n).all fun j =>
        (c.live j).all fun other => other.waiting.all fun entry => entry.id ≠ id
  | _ => true

theorem orderly_sound {n : Nat} (c : Config (World E) (Task E)) (a : Act (Request E) Answer Event)
    (idle : ∀ k, n ≤ k → c.live k = none) (checked : orderly n c a = true) : Orderly c a := by
  constructor
  · rintro k answer task entry rfl found hands
    simp only [orderly, found, hands, Option.all_some, Bool.and_eq_true, decide_eq_true_eq] at checked
    exact checked.1
  · rintro k answer task id rfl found resolves j other live entry member
    simp only [orderly, found, resolves, Option.all_some, Bool.and_eq_true, List.all_eq_true] at checked
    have apart := checked.2 j (List.mem_range.mpr (Config.lt_of_live idle live))
    rw [live, Option.all_some, List.all_eq_true] at apart
    exact of_decide_eq_true (apart entry member)

def boot : Config (World String) (Task String) := ⟨⟨0, 0, 1, fun _ => none, [], []⟩, fun _ => none⟩

/-- The first retry fails, the second one, after twice the delay, resolves the entry. -/
theorem retries_disciplined_second : ∃ c : Config (World String) (Task String), (system 2 1000).Reachable c ∧
    Disciplined c.world ∧ c.world.calls 1 = 2 ∧ (c.world.rows 1).any Row.resolved = true := by
  let labels : List (Act (Request String) Answer Event) :=
    [.start 0 (.enqueue "event" "timeout"), .resume 0 .execute, .environment (.clock 1000 1000),
      .start 0 .processRetries, .resume 0 (.select [1]), .resume 0 .returned, .resume 0 (.handled (some "timeout")),
      .resume 0 .execute, .resume 0 .returned, .environment (.clock 3000 3000), .start 0 .processRetries,
      .resume 0 (.select [1]), .resume 0 .returned, .resume 0 (.handled none), .resume 0 .execute]
  have guarded : (system 2 1000).Guarded Orderly boot labels :=
    Program.guarded_below 1 (orderly 1) orderly_sound rfl (fun _ _ => rfl) (by decide)
  have ended : ((system 2 1000).run boot labels).any
      (fun c => c.world.calls 1 = 2 && (c.world.rows 1).any Row.resolved) = true := by decide
  obtain ⟨c, executed, both⟩ := (Option.any_eq_true _ _).mp ended
  obtain ⟨calls, resolved⟩ := Bool.and_eq_true_iff.mp both
  have start : (system 2 1000).initial boot := ⟨⟨rfl, rfl, rfl, rfl⟩, rfl⟩
  have reached := Transition.System.reachableWhen_of_run (system 2 1000) boot labels start guarded executed
  exact ⟨c, Transition.System.reachable_of_run (system 2 1000) boot labels start executed,
    retries_disciplined.2 c reached, of_decide_eq_true calls, resolved⟩

/-- Two runs that read an entry before either has counted its failure both call the handler, and a run
calls it for an entry that was resolved since the run read it. -/
theorem retries_disciplined_overlapping :
    (∃ c : Config (World String) (Task String), (system 1 1000).Reachable c ∧ ¬ Disciplined c.world ∧
      c.world.calls 1 = 2 ∧ (c.world.rows 1).map Row.maxRetries = some 1) ∧
    ∃ c : Config (World String) (Task String), (system 1 1000).Reachable c ∧ ¬ Disciplined c.world ∧
      c.world.handled.any HandlerCall.resolved = true := by
  have start : (system 1 1000).initial boot := ⟨⟨rfl, rfl, rfl, rfl⟩, rfl⟩
  constructor
  · let labels : List (Act (Request String) Answer Event) :=
      [.start 0 (.enqueue "event" "timeout"), .resume 0 .execute, .environment (.clock 1000 1000),
        .start 0 .processRetries, .start 1 .processRetries, .resume 0 (.select [1]), .resume 1 (.select [1]),
        .resume 0 .returned, .resume 1 .returned]
    have ended : ((system 1 1000).run boot labels).any
        (fun c => c.world.calls 1 = 2 && (c.world.rows 1).map Row.maxRetries = some 1) = true := by decide
    obtain ⟨c, executed, both⟩ := (Option.any_eq_true _ _).mp ended
    obtain ⟨twice, once⟩ := Bool.and_eq_true_iff.mp both
    have calls : c.world.calls 1 = 2 := of_decide_eq_true twice
    have limit : (c.world.rows 1).map Row.maxRetries = some 1 := of_decide_eq_true once
    refine ⟨c, Transition.System.reachable_of_run (system 1 1000) boot labels start executed, fun disciplined => ?_, calls, limit⟩
    obtain ⟨row, found, single⟩ := Option.map_eq_some_iff.mp limit
    have bounded := disciplined.bounded 1 row found
    omega
  · let labels : List (Act (Request String) Answer Event) :=
      [.start 0 (.enqueue "event" "timeout"), .resume 0 .execute, .environment (.clock 1000 1000),
        .start 0 .processRetries, .resume 0 (.select [1]), .start 1 (.resolve 1), .resume 1 .execute, .resume 0 .returned]
    have ended : ((system 1 1000).run boot labels).any
        (fun c => c.world.handled.any HandlerCall.resolved) = true := by decide
    obtain ⟨c, executed, late⟩ := (Option.any_eq_true _ _).mp ended
    refine ⟨c, Transition.System.reachable_of_run (system 1 1000) boot labels start executed, fun disciplined => ?_, late⟩
    obtain ⟨call, member, resolved⟩ := List.any_eq_true.mp late
    rw [disciplined.unresolved call member] at resolved
    cases resolved

end Octraban.DeadLetterQueue
