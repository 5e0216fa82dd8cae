import Octraban.Core.Transition
import Octraban.Webhooks.SsrfGuard

/-! dispatcher.ts: any number of replicas over one table of deliveries. A call of the database
is one step, and the network answers as it likes. -/
namespace Octraban.Dispatcher
open JavaScript Transition

def MAX_ATTEMPTS : Nat := 5

def REQUEST_TIMEOUT_MS : Nat := 10000

def LEASE_DURATION_MS : Nat := 60000

/-- Nothing stands for NaN. -/
def DISPATCH_CONCURRENCY (WEBHOOK_DISPATCH_CONCURRENCY : Option String) : Option Int :=
  parseInt (WEBHOOK_DISPATCH_CONCURRENCY.getD "10")

def backoffMs (attempt : Nat) : Nat := min (10000 * 3 ^ (attempt - 1)) 900000

inductive Status where
  | pending
  | success
  | failed
  | cancelled
  deriving DecidableEq

inductive ProcessingStatus where
  | idle
  | processing
  | done
  deriving DecidableEq

structure WebhookPayload where
  id : String
  contractAddress : String
  eventType : String
  topicSymbol : Option String
  deriving DecidableEq

structure WebhookSubscription where
  id : Nat
  contractAddress : Option String
  eventType : Option String
  topicSymbol : Option String
  active : Bool
  responseRetentionDays : Nat
  deriving DecidableEq

structure WebhookDelivery where
  id : Nat
  subscriptionId : Nat
  eventId : Option String
  attempt : Option Nat
  status : Status
  processingStatus : ProcessingStatus
  leaseExpiresAt : Option Nat
  httpStatus : Option Nat
  errorMsg : Option String
  deliveredAt : Option Nat
  nextRetryAt : Option Nat
  expiresAt : Option Nat
  deriving DecidableEq

/-- The arguments of `deliverOnce`. -/
structure Call where
  subscriptionId : Nat
  event : Option WebhookPayload
  attempt : Nat
  deliveryId : Option Nat
  responseRetentionDays : Nat
  deriving DecidableEq

/-- What a callback of `runWithConcurrency` awaits. `schedule` is the update of
`scheduleRetryOrFail`, `caught` when it is called by the catch block; `now` is the clock at the
call. -/
inductive Await where
  | cancel (id : Nat)
  | findDelivery (call : Call)
  | findEvent (call : Call) (eventId : String)
  | assertSafeUrl (call : Call) (eventId : String)
  | reject (id : Nat) (errorMsg : String)
  | persist (call : Call) (eventId : String) (now : Nat)
  | safePost (id attempt startMs : Nat)
  | succeed (id attempt httpStatus now : Nat)
  | schedule (caught : Bool) (id attempt : Nat) (errorMsg : String) (httpStatus : Option Nat) (now : Nat)
  | block (id : Nat) (errorMsg : String)
  deriving DecidableEq

inductive Stage where
  | queued
  | awaiting (call : Await)
  | settled
  deriving DecidableEq

/-- An item of `runWithConcurrency`. -/
inductive Job where
  | dispatch (sub : WebhookSubscription) (event : WebhookPayload)
  | retry (d : WebhookDelivery) (subscription : WebhookSubscription)
  deriving DecidableEq

structure Task where
  run : Nat
  job : Job
  stage : Stage
  deriving DecidableEq

/-- The tables, the `PATCH` handlers that have deactivated a subscription and not yet cancelled
its deliveries, and the items of every call of `runWithConcurrency`. -/
structure State where
  now : Nat
  nextId : Nat
  webhookSubscription : List WebhookSubscription
  event : List WebhookPayload
  webhookDelivery : List WebhookDelivery
  handlers : List Nat
  runs : Nat
  tasks : List Task

inductive Thrown where
  | SsrfBlockedError (message : String)
  | other (message : String)

/-- A call of the database is carried out and answered, or refused, or carried out and its answer
lost. -/
inductive Answer where
  | done
  | refused (message : String)
  | lost (message : String)
  | safe
  | responded (status : Nat)
  | threw (err : Thrown)

def Answer.isFailure : Answer → Bool
  | .refused _ | .lost _ => true
  | _ => false

def WebhookDelivery.cancelled (row : WebhookDelivery) : WebhookDelivery :=
  { row with status := .cancelled, processingStatus := .done, leaseExpiresAt := none }

def WebhookDelivery.failed (errorMsg : String) (row : WebhookDelivery) : WebhookDelivery :=
  { row with
    status := .failed, processingStatus := .done, leaseExpiresAt := none, errorMsg := some errorMsg
    nextRetryAt := none }

def WebhookDelivery.begun (attempt : Nat) (row : WebhookDelivery) : WebhookDelivery :=
  { row with attempt := some attempt, status := .pending, nextRetryAt := none }

def WebhookDelivery.succeeded (httpStatus now : Nat) (row : WebhookDelivery) : WebhookDelivery :=
  { row with
    status := .success, processingStatus := .done, leaseExpiresAt := none, httpStatus := some httpStatus
    deliveredAt := some now }

/-- Its update, called at `now`; an undefined status leaves the column as it is. -/
def scheduleRetryOrFail (now attempt : Nat) (errorMsg : String) (httpStatus : Option Nat)
    (row : WebhookDelivery) : WebhookDelivery :=
  let nextAttempt := attempt + 1
  if nextAttempt > MAX_ATTEMPTS then
    { row with
      status := .failed, processingStatus := .done, leaseExpiresAt := none, errorMsg := some errorMsg
      httpStatus := httpStatus <|> row.httpStatus, nextRetryAt := none }
  else
    { row with
      status := .pending, processingStatus := .idle, leaseExpiresAt := none, errorMsg := some errorMsg
      httpStatus := httpStatus <|> row.httpStatus, nextRetryAt := some (now + backoffMs nextAttempt)
      attempt := some nextAttempt }

/-- `update` of one row, and how the callback goes on. -/
structure Update where
  id : Nat
  data : WebhookDelivery → WebhookDelivery
  fulfilled : Stage
  rejected : String → Stage

def Update.rows (update : Update) (rows : List WebhookDelivery) : List WebhookDelivery :=
  rows.map fun row => if row.id = update.id then update.data row else row

/-- An error of the database within the try block is not an `SsrfBlockedError`. -/
def Await.update (now : Nat) : Await → Option Update
  | .cancel id => some ⟨id, .cancelled, .settled, fun _ => .settled⟩
  | .reject id errorMsg => some ⟨id, .failed errorMsg, .settled, fun _ => .settled⟩
  | .persist call _ _ => call.deliveryId.map fun id =>
      ⟨id, .begun call.attempt, .awaiting (.safePost id call.attempt now), fun _ => .settled⟩
  | .succeed id attempt httpStatus issued =>
    some ⟨id, .succeeded httpStatus issued, .settled, fun msg => .awaiting (.schedule true id attempt msg none now)⟩
  | .schedule false id attempt errorMsg httpStatus issued =>
    some ⟨id, scheduleRetryOrFail issued attempt errorMsg httpStatus, .settled,
      fun msg => .awaiting (.schedule true id attempt msg none now)⟩
  | .schedule true id attempt errorMsg httpStatus issued =>
    some ⟨id, scheduleRetryOrFail issued attempt errorMsg httpStatus, .settled, fun _ => .settled⟩
  | .block id errorMsg => some ⟨id, .failed errorMsg, .settled, fun _ => .settled⟩
  | _ => none

/-- A row that is missing is an error of the database. -/
def Update.perform (update : Update) (rows : List WebhookDelivery) : Answer → Option (List WebhookDelivery × Stage)
  | .done => if rows.any (·.id = update.id) then some (update.rows rows, update.fulfilled) else none
  | .refused msg => some (rows, update.rejected msg)
  | .lost msg => some (update.rows rows, update.rejected msg)
  | _ => none

/-- `deliverOnce` up to its first await. -/
def deliverOnce (call : Call) : Stage :=
  match call.event, call.deliveryId with
  | some event, _ => .awaiting (.assertSafeUrl call event.id)
  | none, some _ => .awaiting (.findDelivery call)
  | none, none => .settled

/-- The callbacks given to `runWithConcurrency`, up to their first await. -/
def Job.callback : Job → Stage
  | .dispatch sub event => deliverOnce ⟨sub.id, some event, 1, none, sub.responseRetentionDays⟩
  | .retry d subscription =>
    if subscription.active then
      deliverOnce ⟨d.subscriptionId, none, d.attempt.getD 1, some d.id, subscription.responseRetentionDays⟩
    else .awaiting (.cancel d.id)

def Call.row (call : Call) (eventId : String) (id now : Nat) : WebhookDelivery where
  id := id
  subscriptionId := call.subscriptionId
  eventId := some eventId
  attempt := some call.attempt
  status := .pending
  processingStatus := .processing
  leaseExpiresAt := some (now + LEASE_DURATION_MS)
  httpStatus := none
  errorMsg := none
  deliveredAt := none
  nextRetryAt := none
  expiresAt := some (now + call.responseRetentionDays * 24 * 60 * 60 * 1000)

/-- `create`, which needs the subscription to be there. -/
def State.create (s : State) (call : Call) (eventId : String) (now : Nat) : Answer → Option (State × Stage)
  | .done =>
    if s.webhookSubscription.any (·.id = call.subscriptionId) then
      some ({ s with
          nextId := s.nextId + 1, webhookDelivery := s.webhookDelivery ++ [call.row eventId s.nextId now] },
        .awaiting (.safePost s.nextId call.attempt s.now))
    else none
  | .refused _ => some (s, .settled)
  | .lost _ =>
    if s.webhookSubscription.any (·.id = call.subscriptionId) then
      some ({ s with
          nextId := s.nextId + 1, webhookDelivery := s.webhookDelivery ++ [call.row eventId s.nextId now] },
        .settled)
    else none
  | _ => none

/-- What the response, or what `safePost` throws, makes of the try block. -/
def responded (now id attempt : Nat) : Answer → Option Await
  | .responded status =>
    if 200 ≤ status ∧ status < 300 then some (.succeed id attempt status now)
    else some (.schedule false id attempt ("HTTP " ++ toString status) (some status) now)
  | .threw (.SsrfBlockedError msg) => some (.block id msg)
  | .threw (.other msg) => some (.schedule true id attempt msg none now)
  | _ => none

/-- A callback from one await to the next. -/
def resume (s : State) (await : Await) (answer : Answer) : Option (State × Stage) :=
  match await.update s.now with
  | some update => (update.perform s.webhookDelivery answer).map fun (rows, stage) =>
      ({ s with webhookDelivery := rows }, stage)
  | none =>
    match await, answer with
    | .findDelivery call, .done =>
      match s.webhookDelivery.find? (fun row => call.deliveryId = some row.id) with
      | some row => some (s, .awaiting (.findEvent call (row.eventId.getD "")))
      | none => some (s, .settled)
    | .findEvent call eventId, .done =>
      match s.event.find? (·.id = eventId) with
      | some _ => some (s, .awaiting (.assertSafeUrl call eventId))
      | none => some (s, .settled)
    | .findDelivery _, .refused _ | .findDelivery _, .lost _ | .findEvent _ _, .refused _ | .findEvent _ _, .lost _ =>
      some (s, .settled)
    | .assertSafeUrl call eventId, .safe => some (s, .awaiting (.persist call eventId s.now))
    | .assertSafeUrl call _, .threw (.SsrfBlockedError msg) | .assertSafeUrl call _, .threw (.other msg) =>
      some (s, call.deliveryId.elim .settled fun id => .awaiting (.reject id msg))
    | .persist call eventId now, answer => s.create call eventId now answer
    | .safePost id attempt _, answer => (responded s.now id attempt answer).map fun await => (s, .awaiting await)
    | _, _ => none

/-- The filter of the retry query on `processingStatus`. -/
def isFree (now : Nat) (row : WebhookDelivery) : Bool :=
  row.processingStatus = .idle ||
    (row.processingStatus = .processing && row.leaseExpiresAt.any fun lease => lease ≤ now)

def isDue (now : Nat) (row : WebhookDelivery) : Bool :=
  row.status = .pending && row.nextRetryAt.any (fun due => due ≤ now) && isFree now row

def WebhookDelivery.claimed (now : Nat) (row : WebhookDelivery) : WebhookDelivery :=
  { row with processingStatus := .processing, leaseExpiresAt := some (now + LEASE_DURATION_MS) }

/-- The transaction of `retryPendingDeliveries`: the table, and the rows it returns. -/
def claim (now : Nat) (rows : List WebhookDelivery) : List WebhookDelivery × List WebhookDelivery :=
  let ids := (rows.filter (isDue now)).map WebhookDelivery.id
  let updated := rows.map fun row => if ids.contains row.id && isFree now row then row.claimed now else row
  (updated, updated.filter fun row => ids.contains row.id && row.processingStatus = .processing &&
    row.leaseExpiresAt = some (now + LEASE_DURATION_MS))

/-- A call of `runWithConcurrency`. -/
def State.runWithConcurrency (s : State) (items : List Job) : State :=
  { s with runs := s.runs + 1, tasks := s.tasks ++ items.map fun item => ⟨s.runs, item, .queued⟩ }

/-- An empty filter is no filter. -/
def passes (filter : Option String) (value : Option String) : Bool :=
  filter = none || filter = some "" || filter = value

def dispatchWebhooks (s : State) (event : WebhookPayload) : State :=
  let subs := s.webhookSubscription.filter fun sub => sub.active &&
    (event.contractAddress = "" || sub.contractAddress = none || sub.contractAddress = some event.contractAddress)
  let matching := subs.filter fun sub =>
    passes sub.eventType (some event.eventType) && passes sub.topicSymbol event.topicSymbol
  s.runWithConcurrency (matching.map fun sub => .dispatch sub event)

def retryPendingDeliveries (s : State) (now : Nat) : State :=
  let jobs := (claim now s.webhookDelivery).2.filterMap fun d =>
    (s.webhookSubscription.find? fun sub => sub.id = d.subscriptionId).map fun subscription => Job.retry d subscription
  State.runWithConcurrency { s with webhookDelivery := (claim now s.webhookDelivery).1 } jobs

/-- `start` is the pool taking the next item, `retryPendingDeliveries` the transaction of a call
made at `now`, `cancelPending` the second update of a `PATCH` handler, `crash` the end of one
item's worker (a replica that dies takes all of its own). -/
inductive Act where
  | elapse (ms : Nat)
  | subscribe (sub : WebhookSubscription)
  | patch (id : Nat) (active : Bool)
  | cancelPending (handler : Nat)
  | unsubscribe (id : Nat)
  | ingest (event : WebhookPayload)
  | deleteEvent (id : String)
  | cleanupExpiredWebhookDeliveries (now : Nat)
  | dispatchWebhooks (event : WebhookPayload)
  | retryPendingDeliveries (now : Nat)
  | start (k : Nat)
  | resume (k : Nat) (answer : Answer)
  | crash (k : Nat)

namespace State

def patch (s : State) (id : Nat) (active : Bool) : State :=
  { s with
    webhookSubscription := s.webhookSubscription.map fun sub => if sub.id = id then { sub with active := active } else sub
    handlers := if active then s.handlers else s.handlers ++ [id] }

def cancelPending (s : State) (handler id : Nat) : State :=
  { s with
    handlers := s.handlers.eraseIdx handler
    webhookDelivery := s.webhookDelivery.map fun row =>
      if row.subscriptionId = id ∧ row.status = .pending then { row.cancelled with nextRetryAt := none } else row }

/-- The deliveries of a subscription go with it. -/
def unsubscribe (s : State) (id : Nat) : State :=
  { s with
    webhookSubscription := s.webhookSubscription.filter (·.id ≠ id)
    webhookDelivery := s.webhookDelivery.filter (·.subscriptionId ≠ id) }

def cleanupExpired (s : State) (now : Nat) : State :=
  { s with webhookDelivery := s.webhookDelivery.filter fun row => !row.expiresAt.any (· ≤ now) }

def setStage (s : State) (k : Nat) (task : Task) (stage : Stage) : State :=
  { s with tasks := s.tasks.set k { task with stage := stage } }

def active (s : State) (run : Nat) : Nat :=
  s.tasks.countP fun task => task.run = run && task.stage matches .awaiting _

/-- `queue.shift()`, while fewer than `concurrency` items are active. -/
def isNext (s : State) (concurrency : Option Int) (k : Nat) (task : Task) : Bool :=
  task.stage = .queued && (s.tasks.take k).all (fun other => !(other.run = task.run && other.stage = .queued)) &&
    concurrency.any fun limit => (s.active task.run : Int) < limit

end State

def step (concurrency : Option Int) (s : State) : Act → Option State
  | .elapse ms => some { s with now := s.now + ms }
  | .subscribe sub =>
    if s.webhookSubscription.any (·.id = sub.id) then none
    else some { s with webhookSubscription := s.webhookSubscription ++ [sub] }
  | .patch id active => if s.webhookSubscription.any (·.id = id) then some (s.patch id active) else none
  | .cancelPending handler => s.handlers[handler]?.map (s.cancelPending handler)
  | .unsubscribe id => some (s.unsubscribe id)
  | .ingest event => some { s with event := s.event ++ [event] }
  | .deleteEvent id => some { s with event := s.event.filter fun event => event.id ≠ id }
  | .cleanupExpiredWebhookDeliveries now => if now ≤ s.now then some (s.cleanupExpired now) else none
  | .dispatchWebhooks event => some (Dispatcher.dispatchWebhooks s event)
  | .retryPendingDeliveries now => if now ≤ s.now then some (Dispatcher.retryPendingDeliveries s now) else none
  | .start k => s.tasks[k]?.bind fun task =>
      if s.isNext concurrency k task then some (s.setStage k task task.job.callback) else none
  | .resume k answer => s.tasks[k]?.bind fun task =>
      match task.stage with
      | .awaiting await => (Dispatcher.resume s await answer).map fun (t, stage) => t.setStage k task stage
      | _ => none
  | .crash k => s.tasks[k]?.bind fun task =>
      if task.stage = .settled then none else some (s.setStage k task .settled)

def system (concurrency : Option Int) : System State Act where
  initial s := s.webhookDelivery = [] ∧ s.tasks = [] ∧ s.handlers = []
  step := step concurrency

def empty : State := ⟨0, 0, [], [], [], [], 0, []⟩

def hook : WebhookSubscription := ⟨0, none, none, none, true, 90⟩

def transfer (id : String) : WebhookPayload := ⟨id, "C1", "transfer", none⟩

end Octraban.Dispatcher
