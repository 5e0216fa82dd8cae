import Octraban.Core.JavaScript
import Octraban.Core.Upsert

/-! temporal-scanner.ts: scheduled operations from transactions, and the job that reconciles them. -/
namespace Octraban.TemporalScanner
open JavaScript

inductive TimerType where
  | TIMELOCK
  | VESTING
  | DEADLINE
  | COOLDOWN
  | RECURRING
  | ABSOLUTE
  deriving DecidableEq

inductive Status where
  | PENDING
  | ACTIVE
  | EXECUTED
  | EXPIRED
  deriving DecidableEq

/-- An argument: whether it is a number or a text, and what `Number` makes of it. -/
structure Arg where
  key : String
  numeric : Bool
  number : Number

/-- Times are in milliseconds; the arguments stand in the order of their keys. -/
structure TxEvent where
  contractAddress : String
  functionName : String
  args : Option (List Arg)
  txHash : Option String
  ledgerCloseTime : Int

structure ScheduledOperation where
  contractAddress : String
  timerType : TimerType
  status : Status
  functionName : String
  triggerTime : Int
  intervalSeconds : Option Int
  recurrenceCount : Option Nat
  eventsExecuted : Nat
  parameters : Option (List Arg)
  sourceTx : Option String
  detectedAt : Int
  lastExecutedAt : Option Int
  nextTriggerAt : Option Int

structure VestingSchedule where
  status : String
  endDate : Int

structure GovernanceTimelock where
  status : String
  executionTime : Int
  expiryTime : Int

/-- The rows of three tables, by their ids. -/
structure Database where
  operations : Sql.Table String ScheduledOperation
  timelocks : Sql.Table String GovernanceTimelock
  vestings : Sql.Table String VestingSchedule

/-! ### Transactions -/

def TIMELOCK_FUNCTIONS : List String := ["execute", "queue", "cancel", "schedule", "timelock"]

def VESTING_FUNCTIONS : List String := ["vest", "vesting", "claim", "release", "unlock", "cliff"]

def DEADLINE_FUNCTIONS : List String := ["bid", "buy", "expire", "settle", "end", "close_auction"]

def COOLDOWN_FUNCTIONS : List String := ["withdraw", "unstake", "redeem", "cooldown"]

def RECURRING_FUNCTIONS : List String := ["distribute", "rebase", "harvest", "drip", "emit"]

/-- `text.toLowerCase().includes(part)` for the names of functions and arguments. -/
def names (text part : String) : Bool := (text.toList.map Char.toLower).tails.any part.toList.isPrefixOf

def detectTimerType (functionName : String) : Option TimerType :=
  if TIMELOCK_FUNCTIONS.any (names functionName) then some .TIMELOCK
  else if RECURRING_FUNCTIONS.any (names functionName) then some .RECURRING
  else if VESTING_FUNCTIONS.any (names functionName) then some .VESTING
  else if DEADLINE_FUNCTIONS.any (names functionName) then some .DEADLINE
  else if COOLDOWN_FUNCTIONS.any (names functionName) then some .COOLDOWN
  else none

/-- `new Date(ts * 1000)` of a positive number. -/
def fromSeconds (ts : Number) : Option Int :=
  match ts.mul (.finite 1000) with
  | .finite x => some ⌊x⌋
  | _ => none

def extractTimestamp (args : Option (List Arg)) : Option Int :=
  (args.getD []).findSome? fun arg =>
    if ["timestamp", "unlock_time", "execute_time", "deadline"].any (names arg.key) ∧ arg.numeric ∧
        (Number.finite 1000000000).lt arg.number ∧ arg.number.lt (.finite 9999999999) then
      fromSeconds arg.number
    else none

def extractInterval (args : Option (List Arg)) : Option Number :=
  (args.getD []).findSome? fun arg =>
    if ["interval", "period", "frequency"].any (names arg.key) ∧ (Number.finite 0).lt arg.number then some arg.number else none

/-- What the client takes for an `Int?`: nothing, or a whole number of 32 bits; `none` where it throws. -/
def intColumn : Option Number → Option (Option Int)
  | none => some none
  | some (.finite x) => if x.den = 1 ∧ |x| < 2 ^ 31 then some (some x.num) else none
  | some _ => none

def operationOf (event : TxEvent) (timerType : TimerType) (intervalSeconds : Option Int) : ScheduledOperation :=
  let triggerTime := (extractTimestamp event.args).getD event.ledgerCloseTime
  { contractAddress := event.contractAddress
    timerType
    status := if event.ledgerCloseTime < triggerTime then .PENDING else .ACTIVE
    functionName := event.functionName
    triggerTime
    intervalSeconds
    recurrenceCount := none
    eventsExecuted := 0
    parameters := event.args
    sourceTx := event.txHash
    detectedAt := event.ledgerCloseTime
    lastExecutedAt := none
    nextTriggerAt := some triggerTime }

/-- The operation of the same contract and function from the same transaction. -/
def isSource (event : TxEvent) (operation : ScheduledOperation) : Bool :=
  operation.contractAddress = event.contractAddress ∧ operation.functionName = event.functionName ∧ operation.sourceTx = event.txHash

/-- The database after an event, whose operation gets the id; `none` where it throws. -/
def processTxForTimers (event : TxEvent) (id : String) (db : Database) : Option Database :=
  match detectTimerType event.functionName with
  | none => some db
  | some timerType =>
    let intervalSeconds := if timerType = .RECURRING then extractInterval event.args else none
    let existing := event.txHash.any (· ≠ "") && db.operations.entries.any fun row => isSource event row.2
    if existing then some db
    else
      (intColumn intervalSeconds).map fun intervalSeconds =>
        { db with operations := db.operations.insert id (operationOf event timerType intervalSeconds) }

/-! ### The periodic job -/

def overdue (now : Int) (operation : ScheduledOperation) : Bool :=
  (operation.status = .PENDING ∨ operation.status = .ACTIVE) ∧ operation.timerType ≠ .RECURRING ∧
    operation.triggerTime < now - 7 * 24 * 3600 * 1000

def due (now : Int) (operation : ScheduledOperation) : Bool :=
  operation.status = .ACTIVE ∧ operation.timerType = .RECURRING ∧ (operation.nextTriggerAt.any fun next => next < now) ∧
    operation.intervalSeconds.isSome

/-- What is written for `op` as it was found, into its row. -/
def advance (now : Int) (op row : ScheduledOperation) : ScheduledOperation :=
  let next := op.nextTriggerAt.getD now + op.intervalSeconds.getD 86400 * 1000
  let shouldStop := op.recurrenceCount.any fun recurrenceCount => recurrenceCount ≤ op.eventsExecuted
  { row with
    eventsExecuted := row.eventsExecuted + 1
    lastExecutedAt := some now
    nextTriggerAt := if shouldStop then none else some next
    status := if shouldStop then .EXECUTED else .ACTIVE }

def reconcileScheduledOperations (now : Int) (db : Database) : Database :=
  let expired := db.operations.updateMany (overdue now) fun row => { row with status := .EXPIRED }
  let recurring := expired.entries.filter fun entry => due now entry.2
  let timelocks := db.timelocks.updateMany
    (fun row => (row.status = "queued" ∨ row.status = "executable") ∧ row.expiryTime < now) fun row => { row with status := "expired" }
  { operations := recurring.foldl (fun operations entry => operations.updateRow entry.1 (advance now entry.2)) expired
    timelocks := timelocks.updateMany (fun row => row.status = "queued" ∧ row.executionTime ≤ now) fun row =>
      { row with status := "executable" }
    vestings := db.vestings.updateMany (fun row => row.status = "active" ∧ row.endDate < now) fun row =>
      { row with status := "completed" } }

/-- Runs of the job, at these times. -/
def reconcileAll (db : Database) (times : List Int) : Database := times.foldl (fun db now => reconcileScheduledOperations now db) db

/-! ### Firing -/

/-- The number of times that an operation is to be executed; none is without end. -/
def limit (id : String) (recurrenceCount : Option Nat) (db : Database) : Database :=
  { db with operations := db.operations.updateRow id fun row => { row with recurrenceCount } }

/-- One execution more, and the next trigger later. -/
def Advanced (before after : ScheduledOperation) : Prop :=
  after.eventsExecuted = before.eventsExecuted + 1 ∧ ∀ next ∈ before.nextTriggerAt, ∀ later ∈ after.nextTriggerAt, next < later

/-- An operation is never executed too often, and each run after its next trigger advances it until it was executed often enough. -/
structure Fires (id : String) (db : Database) (times : List Int) : Prop where
  bounded : ∀ early, early <+: times → ∀ row, (reconcileAll db early).operations.lookup id = some row →
    ∀ c ∈ row.recurrenceCount, row.eventsExecuted ≤ c
  advances : ∀ early now, early ++ [now] <+: times → ∀ row, (reconcileAll db early).operations.lookup id = some row →
    (∀ c ∈ row.recurrenceCount, row.eventsExecuted < c) → ∀ next ∈ row.nextTriggerAt, next < now →
      ∃ after, (reconcileAll db (early ++ [now])).operations.lookup id = some after ∧ Advanced row after

/-- No run finds an operation due whose first trigger was to come when it was recorded, or that was executed often enough. -/
def Timely (id : String) (db : Database) (triggerTime ledgerCloseTime : Int) (times : List Int) : Prop :=
  ∀ early now, early ++ [now] <+: times → ∀ row, (reconcileAll db early).operations.lookup id = some row →
    ∀ next ∈ row.nextTriggerAt, next < now → triggerTime ≤ ledgerCloseTime ∧ ∀ c ∈ row.recurrenceCount, row.eventsExecuted < c

variable {db : Database} {id : String} {now : Int} {row first : ScheduledOperation} {times early : List Int}

/-- What a run makes of one operation. -/
def reconciled (now : Int) (row : ScheduledOperation) : ScheduledOperation :=
  let expired := if overdue now row then { row with status := .EXPIRED } else row
  if due now expired then advance now expired expired else expired

theorem lookup_reconcile (now : Int) (db : Database) (id : String) :
    (reconcileScheduledOperations now db).operations.lookup id = (db.operations.lookup id).map (reconciled now) := by
  rw [reconcileScheduledOperations]
  dsimp only
  rw [Sql.Table.lookup_updateEach, Sql.Table.lookup_updateMany, Option.map_map]
  rfl

theorem reconcileAll_concat (db : Database) (early : List Int) (now : Int) :
    reconcileAll db (early ++ [now]) = reconcileScheduledOperations now (reconcileAll db early) := by
  rw [reconcileAll, List.foldl_append, List.foldl_cons, List.foldl_nil]
  rfl

/-- A recurring operation with an interval. -/
structure Recurs (interval : Int) (recurrenceCount : Option Nat) (row : ScheduledOperation) : Prop where
  type : row.timerType = .RECURRING
  interval : row.intervalSeconds = some interval
  count : row.recurrenceCount = recurrenceCount

theorem Recurs.reconciled {interval : Int} {recurrenceCount : Option Nat} (recurs : Recurs interval recurrenceCount row) (now : Int) :
    reconciled now row = if row.status = .ACTIVE ∧ row.nextTriggerAt.any (· < now) then advance now row row else row := by
  have current : overdue now row = false := by simp [overdue, recurs.type]
  rw [TemporalScanner.reconciled, current, if_neg Bool.false_ne_true]
  simp [due, recurs.type, recurs.interval]

theorem Recurs.kept {interval : Int} {recurrenceCount : Option Nat} (recurs : Recurs interval recurrenceCount row) (now : Int) :
    Recurs interval recurrenceCount (TemporalScanner.reconciled now row) := by
  rw [recurs.reconciled]
  split <;> exact ⟨recurs.type, recurs.interval, recurs.count⟩

/-- Each run finds the operation as the runs before left it. -/
theorem lookup_concat {after : ScheduledOperation} (found : (reconcileAll db (early ++ [now])).operations.lookup id = some after) :
    ∃ row, (reconcileAll db early).operations.lookup id = some row ∧ after = reconciled now row := by
  rw [reconcileAll_concat, lookup_reconcile, Option.map_eq_some_iff] at found
  obtain ⟨row, found, same⟩ := found
  exact ⟨row, found, same.symm⟩

/-- What holds at first and is kept by every run. -/
theorem invariant (P : ScheduledOperation → Prop) (start : db.operations.lookup id = some first) (initially : P first)
    (kept : ∀ now row, P row → P (reconciled now row)) (early : List Int) (found : (reconcileAll db early).operations.lookup id = some row) :
    P row := by
  induction early using List.reverseRecOn generalizing row with
  | nil =>
    obtain rfl := Option.some.inj (start.symm.trans found)
    exact initially
  | append_singleton early now ih =>
    obtain ⟨before, earlier, rfl⟩ := lookup_concat found
    exact kept now before (ih earlier)

section
variable {interval : Int} {recurrenceCount : Option Nat} (start : db.operations.lookup id = some first)
  (recurs : Recurs interval recurrenceCount first)
include start recurs

/-- An operation that is pending stays as it was recorded. -/
theorem stuck (pending : first.status = .PENDING) (found : (reconcileAll db early).operations.lookup id = some row) : row = first := by
  refine invariant (· = first) start rfl (fun now row same => ?_) early found
  rw [same, recurs.reconciled, if_neg fun active => by rw [pending] at active; cases active.1]

/-- One that is active has no next trigger when it is no longer. -/
theorem active (is_active : first.status = .ACTIVE) (found : (reconcileAll db early).operations.lookup id = some row) :
    Recurs interval recurrenceCount row ∧ (row.nextTriggerAt = none ∨ row.status = .ACTIVE) := by
  refine invariant (fun row => Recurs interval recurrenceCount row ∧ (row.nextTriggerAt = none ∨ row.status = .ACTIVE)) start
    ⟨recurs, .inr is_active⟩ (fun now row kept => ⟨kept.1.kept now, ?_⟩) early found
  rw [kept.1.reconciled]
  split
  · rw [advance]
    dsimp only
    split
    · exact .inl rfl
    · exact .inr rfl
  · exact kept.2

/-- A run that finds an active operation due executes it. -/
theorem executed (is_active : first.status = .ACTIVE) (found : (reconcileAll db early).operations.lookup id = some row) {next : Int}
    (set : next ∈ row.nextTriggerAt) (late : next < now) :
    (reconcileAll db (early ++ [now])).operations.lookup id = some (advance now row row) := by
  obtain ⟨kept, runs⟩ := active start recurs is_active found
  have set : row.nextTriggerAt = some next := set
  have due_now : row.status = .ACTIVE ∧ row.nextTriggerAt.any (· < now) := by
    rw [set] at runs ⊢
    exact ⟨runs.resolve_left (Option.some_ne_none next), decide_eq_true late⟩
  rw [reconcileAll_concat, lookup_reconcile, found, Option.map_some, kept.reconciled, if_pos due_now]

theorem bounded_of_timely (is_active : first.status = .ACTIVE) (unexecuted : first.eventsExecuted = 0) {triggerTime ledgerCloseTime : Int}
    (timely : Timely id db triggerTime ledgerCloseTime times) (runs : early <+: times)
    (found : (reconcileAll db early).operations.lookup id = some row) : ∀ c ∈ row.recurrenceCount, row.eventsExecuted ≤ c := by
  induction early using List.reverseRecOn generalizing row with
  | nil =>
    obtain rfl := Option.some.inj (start.symm.trans found)
    rw [unexecuted]
    exact fun c _ => Nat.zero_le c
  | append_singleton early now ih =>
    obtain ⟨before, earlier, rfl⟩ := lookup_concat found
    have bounded := ih ((List.prefix_append _ _).trans runs) earlier
    have kept := (active start recurs is_active earlier).1
    rw [kept.reconciled]
    split
    · rename_i due_now
      obtain ⟨next, set, late⟩ := (Option.any_eq_true _ _).mp due_now.2
      exact (timely early now runs before earlier next set (of_decide_eq_true late)).2
    · exact bounded

theorem fires_of_timely (positive : 0 < interval) (unexecuted : first.eventsExecuted = 0) {ledgerCloseTime : Int}
    (status : first.status = if ledgerCloseTime < first.triggerTime then .PENDING else .ACTIVE)
    (timely : Timely id db first.triggerTime ledgerCloseTime times) : Fires id db times := by
  constructor
  · intro early runs row found
    by_cases later : ledgerCloseTime < first.triggerTime
    · rw [stuck start recurs (status.trans (if_pos later)) found, unexecuted]
      exact fun c _ => Nat.zero_le c
    · exact bounded_of_timely start recurs (status.trans (if_neg later)) unexecuted timely runs found
  · intro early now runs row found _ next set late
    have active_first := status.trans (if_neg (Int.not_lt.mpr (timely early now runs row found next set late).1))
    have kept := (active start recurs active_first found).1
    refine ⟨_, executed start recurs active_first found set late, rfl, fun before same later after => ?_⟩
    rw [advance, kept.interval, Option.mem_def.mp same] at after
    dsimp only [Option.getD_some] at after
    split at after
    · cases after
    · obtain rfl := Option.some.inj after
      omega

theorem timely_of_fires (unexecuted : first.eventsExecuted = 0) (several : ∀ c ∈ recurrenceCount, 1 ≤ c) {ledgerCloseTime : Int}
    (status : first.status = if ledgerCloseTime < first.triggerTime then .PENDING else .ACTIVE)
    (fires : Fires id db times) : Timely id db first.triggerTime ledgerCloseTime times := by
  intro early now runs row found next set late
  have reached : first.triggerTime ≤ ledgerCloseTime := by
    by_contra later
    have pending := status.trans (if_pos (Int.not_le.mp later))
    obtain rfl := stuck start recurs pending found
    have below : ∀ c ∈ row.recurrenceCount, row.eventsExecuted < c := by
      rw [unexecuted, recurs.count]
      exact several
    obtain ⟨after, found', advanced, -⟩ := fires.advances early now runs row found below next set late
    rw [stuck start recurs pending found'] at advanced
    omega
  refine ⟨reached, fun c limited => ?_⟩
  have after := executed start recurs (status.trans (if_neg (Int.not_lt.mpr reached))) found set late
  exact fires.bounded _ runs _ after c limited

end

/-! ### Recorded operations -/

/-- What is recorded for an event. -/
theorem recorded_operation {event : TxEvent} {after : Database} (new : db.operations.lookup id = none)
    (processed : processTxForTimers event id db = some after) (found : after.operations.lookup id = some row) :
    ∃ timerType intervalSeconds, row = operationOf event timerType intervalSeconds := by
  rw [processTxForTimers] at processed
  split at processed
  · obtain rfl := Option.some.inj processed
    rw [new] at found
    cases found
  · rename_i timerType _
    dsimp only at processed
    split at processed
    · obtain rfl := Option.some.inj processed
      rw [new] at found
      cases found
    · obtain ⟨intervalSeconds, -, rfl⟩ := Option.map_eq_some_iff.mp processed
      have inserted : some (operationOf event timerType intervalSeconds) = some row := (AList.lookup_insert _).symm.trans found
      exact ⟨timerType, intervalSeconds, (Option.some.inj inserted).symm⟩

/-- A recorded operation fires as it should exactly when no run finds it due whose first trigger
was after its ledger's close, or that was executed often enough. -/
theorem fires_iff {event : TxEvent} {after : Database} {interval : Int} {recurrenceCount : Option Nat}
    (new : db.operations.lookup id = none) (processed : processTxForTimers event id db = some after)
    (found : after.operations.lookup id = some row) (recurring : row.timerType = .RECURRING)
    (every : row.intervalSeconds = some interval) (positive : 0 < interval) (several : ∀ c ∈ recurrenceCount, 1 ≤ c) (times : List Int) :
    Fires id (limit id recurrenceCount after) times ↔
      Timely id (limit id recurrenceCount after) row.triggerTime event.ledgerCloseTime times := by
  obtain ⟨timerType, intervalSeconds, rfl⟩ := recorded_operation new processed found
  have start : (limit id recurrenceCount after).operations.lookup id =
      some { operationOf event timerType intervalSeconds with recurrenceCount } := by
    rw [limit, Sql.Table.lookup_updateRow_self, found]
    rfl
  have recurs : Recurs interval recurrenceCount { operationOf event timerType intervalSeconds with recurrenceCount } :=
    ⟨recurring, every, rfl⟩
  constructor
  · exact timely_of_fires start recurs rfl several rfl
  · exact fires_of_timely start recurs positive rfl rfl

/-- A distribution every minute. -/
def distribution (args : List Arg) : TxEvent := ⟨"POOL", "distribute", some (⟨"interval", true, .finite 60⟩ :: args), some "tx", 0⟩

def nothing : Database := ⟨∅, ∅, ∅⟩

def recorded (event : TxEvent) : Database :=
  ⟨(∅ : Sql.Table String ScheduledOperation).insert "op" (operationOf event .RECURRING (some 60)), ∅, ∅⟩

theorem processed_distribution {event : TxEvent} (type : detectTimerType event.functionName = some .RECURRING)
    (interval : extractInterval event.args = some (.finite 60)) : processTxForTimers event "op" nothing = some (recorded event) := by
  have unknown : (event.txHash.any (· ≠ "") && nothing.operations.entries.any fun row => isSource event row.2) = false := Bool.and_false _
  have column : intColumn (some (.finite 60)) = some (some 60) := by decide
  rw [processTxForTimers, type]
  dsimp only
  rw [if_pos rfl, unknown, if_neg Bool.false_ne_true, interval, column]
  rfl

theorem lookup_recorded (event : TxEvent) (recurrenceCount : Option Nat) :
    (limit "op" recurrenceCount (recorded event)).operations.lookup "op" =
      some { operationOf event .RECURRING (some 60) with recurrenceCount } := by
  rw [limit, Sql.Table.lookup_updateRow_self, recorded, AList.lookup_insert]
  rfl

theorem fires_iff_distribution : Fires "op" (limit "op" (some 2) (recorded (distribution []))) [1000] := by
  have processed := @processed_distribution (distribution []) (by decide) (by decide)
  refine (fires_iff rfl processed (AList.lookup_insert _) rfl rfl (by decide) (by simp) [1000]).mpr ?_
  intro early now runs row found next set late
  have first : early = [] := by
    have length := runs.length_le
    rw [List.length_append] at length
    exact List.eq_nil_of_length_eq_zero (by simpa using length)
  rw [first, reconcileAll, List.foldl_nil, lookup_recorded] at found
  obtain rfl := Option.some.inj found
  refine ⟨by decide, fun c limited => ?_⟩
  obtain rfl := Option.some.inj limited
  decide

/-- One distribution is made twice, and one that is to begin later is never made. -/
theorem distribution_misfires : ¬ Fires "op" (limit "op" (some 1) (recorded (distribution []))) [1000, 61000] ∧
    ¬ Fires "op" (limit "op" (some 1) (recorded (distribution [⟨"timestamp", true, .finite 1700000000⟩]))) [1700000001000] := by
  constructor
  · intro fires
    have twice : (reconcileAll (limit "op" (some 1) (recorded (distribution []))) [1000, 61000]).operations.lookup "op" =
        some (reconciled 61000 (reconciled 1000 { operationOf (distribution []) .RECURRING (some 60) with recurrenceCount := some 1 })) := by
      rw [reconcileAll, List.foldl_cons, List.foldl_cons, List.foldl_nil, lookup_reconcile, lookup_reconcile, lookup_recorded]
      rfl
    have bounded := fires.bounded _ (List.prefix_refl _) _ twice 1 (by decide)
    exact absurd bounded (by decide)
  · intro fires
    have never := lookup_recorded (distribution [⟨"timestamp", true, .finite 1700000000⟩]) (some 1)
    obtain ⟨after, found, advanced, -⟩ := fires.advances [] 1700000001000 (List.prefix_refl _) _ never (by decide) 1700000000000
      (by decide +kernel) (by decide)
    obtain ⟨row, earlier, rfl⟩ := lookup_concat found
    obtain rfl := Option.some.inj (never.symm.trans earlier)
    exact absurd advanced (by decide +kernel)

end Octraban.TemporalScanner
