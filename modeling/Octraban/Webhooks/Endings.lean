import Octraban.Core.Trace
import Octraban.Webhooks.Retries

/-! Every delivery ends: each attempt that is not lost ends its row or schedules the next, and
there are `MAX_ATTEMPTS` of them. -/
namespace Octraban.Dispatcher
open Transition

def Job.attempt : Job → Nat
  | .dispatch _ _ => 1
  | .retry d _ => d.attempt.getD 1

def Stage.attempt (job : Job) : Stage → Option Nat
  | .queued => some job.attempt
  | .awaiting await => await.attempt
  | .settled => none

def Task.attempt (task : Task) : Option Nat := task.stage.attempt task.job

/-- What holds of the attempts of the workers, by the row they hold, and of the rows to be
retried. -/
structure Attempts (T : Nat → Option Nat → Nat → Prop) (R : Nat → Nat → Prop) (s : State) : Prop where
  tasks : ∀ (k : Nat) (task : Task) attempt, s.tasks[k]? = some task → task.attempt = some attempt →
    T k task.holds attempt
  rows : ∀ row ∈ s.webhookDelivery, row.nextRetryAt ≠ none → R row.id (row.attempt.getD 1)

/-- The last update of a delivery that fails: its URL was rejected, or that of a redirect, or the
attempt is the last. -/
inductive Fails (id : Nat) : Await → Prop where
  | rejected : Fails id (.reject id msg)
  | blocked : Fails id (.block id msg)
  | last : Fails id (.schedule caught id MAX_ATTEMPTS msg status now)

variable {concurrency : Option Int} {s t : State} {a : Act} {await : Await} {answer : Answer} {stage : Stage}
  {u : Update} {task : Task} {row : WebhookDelivery} {now k id attempt : Nat} {msg : String}
  {T : Nat → Option Nat → Nat → Prop} {R : Nat → Nat → Prop}

theorem callback_attempt (job : Job) (counts : job.callback.attempt job = some attempt) : job.attempt = attempt := by
  cases job with
  | dispatch => exact Option.some.inj counts
  | retry d subscription =>
    simp only [Job.callback] at counts
    split at counts
    · exact Option.some.inj counts
    · cases counts

/-- Only a schedule sets `nextRetryAt`, together with the next attempt. -/
theorem update_attempt (updates : await.update now = some u) (row : WebhookDelivery)
    (set : (u.data row).nextRetryAt ≠ none) : (row.nextRetryAt ≠ none ∧ (u.data row).attempt = row.attempt) ∨
      ∃ attempt, await.attempt = some attempt ∧ attempt + 1 ≤ MAX_ATTEMPTS ∧
        (u.data row).attempt = some (attempt + 1) := by
  have scheduled (issued attempt : Nat) (errorMsg : String) (httpStatus : Option Nat)
      (set : (scheduleRetryOrFail issued attempt errorMsg httpStatus row).nextRetryAt ≠ none) :
      attempt + 1 ≤ MAX_ATTEMPTS ∧
        (scheduleRetryOrFail issued attempt errorMsg httpStatus row).attempt = some (attempt + 1) := by
    simp only [scheduleRetryOrFail] at set ⊢
    split at set
    · exact absurd rfl set
    · rename_i more
      rw [if_neg more]
      exact ⟨Nat.le_of_not_gt more, rfl⟩
  cases await with
  | cancel | succeed =>
    cases updates
    exact .inl ⟨set, rfl⟩
  | reject | block =>
    cases updates
    exact absurd rfl set
  | persist call =>
    obtain ⟨id, _, rfl⟩ := Option.map_eq_some_iff.mp updates
    exact absurd rfl set
  | schedule caught =>
    cases caught
    all_goals
      cases updates
      exact .inr ⟨_, rfl, scheduled _ _ _ _ set⟩
  | _ => cases updates

/-- A worker goes on with the attempt it had, for its own row or the one it has made for it. -/
theorem Resumed.counts (resumed : Resumed s await answer t stage) (job : Job)
    (counts : stage.attempt job = some attempt) : await.attempt = some attempt ∧
      (stage.holds job = await.holds ∨ await.holds = none ∧ stage.holds job = some s.nextId) := by
  rcases resumed.next_cases with rfl | ⟨next, rfl, follows⟩
  · cases counts
  · cases follows with
    | findEvent | assertSafeUrl | persist => exact ⟨counts, .inl rfl⟩
    | created fresh => exact ⟨counts, .inr ⟨fresh, rfl⟩⟩
    | bound _ own same => exact ⟨same attempt counts, .inl own⟩

/-- What one step does to the attempts. -/
theorem Attempts.step (attempts : Attempts T R s) (known : Known s) (stepped : step concurrency s a = some t)
    (dispatched : ∀ k, s.tasks.length ≤ k → T k none 1)
    (claimed : ∀ k id attempt, s.tasks.length ≤ k → R id attempt → T k (some id) attempt)
    (created : ∀ k attempt, T k none attempt → T k (some s.nextId) attempt)
    (scheduled : ∀ k id attempt, T k (some id) attempt → attempt + 1 ≤ MAX_ATTEMPTS → R id (attempt + 1)) :
    Attempts T R t := by
  obtain ⟨tasks, rows⟩ := attempts
  have goOn {k : Nat} {task : Task} {stage : Stage} (found : s.tasks[k]? = some task)
      (kept : ∀ attempt, stage.attempt task.job = some attempt → task.attempt = some attempt ∧
        (stage.holds task.job = task.holds ∨ task.holds = none ∧ stage.holds task.job = some s.nextId))
      (j : Nat) (other : Task) (n : Nat) (at_ : (s.tasks.set k { task with stage := stage })[j]? = some other)
      (counts : other.attempt = some n) : T j other.holds n := by
    by_cases same : j = k
    · subst same
      obtain ⟨inside, _⟩ := List.getElem?_eq_some_iff.mp found
      rw [List.getElem?_set_self inside] at at_
      cases at_
      obtain ⟨before, own | ⟨unheld, made⟩⟩ := kept n counts
      · rw [Task.holds, own]
        exact tasks j task n found before
      · have holds := tasks j task n found before
        rw [unheld] at holds
        rw [Task.holds, made]
        exact created j n holds
    · rw [List.getElem?_set_ne (Ne.symm same)] at at_
      exact tasks j other n at_ counts
  cases step_cases stepped with
  | outside moved =>
    constructor
    · rw [moved.tasks]
      exact tasks
    · exact fun row present => rows row (moved.rows.subset present)
  | cancelPending =>
    refine ⟨tasks, fun row present set => ?_⟩
    rcases mem_cancelPending present with old | ⟨_, _, _, rfl⟩
    · exact rows row old set
    · exact absurd rfl set
  | dispatchWebhooks =>
    refine ⟨fun k task n at_ counts => ?_, rows⟩
    by_cases old : k < s.tasks.length
    · exact tasks k task n ((List.getElem?_append_left old).symm.trans at_) counts
    · have new := (List.getElem?_append_right (Nat.le_of_not_lt old)).symm.trans at_
      obtain ⟨item, chosen, rfl⟩ := List.mem_map.mp (List.mem_of_getElem? new)
      obtain ⟨sub, _, rfl⟩ := List.mem_map.mp chosen
      cases counts
      exact dispatched k (Nat.le_of_not_lt old)
  | retryPendingDeliveries =>
    constructor
    · intro k task n at_ counts
      by_cases old : k < s.tasks.length
      · exact tasks k task n ((List.getElem?_append_left old).symm.trans at_) counts
      · have new := (List.getElem?_append_right (Nat.le_of_not_lt old)).symm.trans at_
        obtain ⟨item, chosen, rfl⟩ := List.mem_map.mp (List.mem_of_getElem? new)
        obtain ⟨row, source, due, subscription, rfl⟩ := mem_jobs known chosen
        cases counts
        exact claimed k row.id _ (Nat.le_of_not_lt old) (rows row source (pending_of_isDue due).2)
    · intro row present set
      rcases mem_claim present with old | ⟨old, source, rfl, _⟩
      · exact rows row old set
      · exact rows old source set
  | start found queued =>
    refine ⟨goOn found fun n counts => ?_, rows⟩
    rw [Task.attempt, Task.holds, queued]
    exact ⟨congrArg some (callback_attempt _ counts), .inl (callback_holds _)⟩
  | resume found at_ resumed =>
    constructor
    · rw [State.setStage, resumed.tasks]
      refine goOn found fun n counts => ?_
      rw [Task.attempt, Task.holds, at_]
      exact resumed.counts _ counts
    · intro row present set
      rcases resumed.row_cases present with old | ⟨u, updates, old, source, same, rfl⟩ | ⟨_, _, _, _, _, rfl, _⟩
      · exact rows row old set
      · rw [update_id updates]
        rcases update_attempt updates old set with ⟨before, kept⟩ | ⟨n, counts, more, next⟩
        · rw [kept]
          exact rows old source before
        · rw [next]
          have holds := tasks _ _ n found (by rw [Task.attempt, at_]; exact counts)
          rw [Task.holds, at_, Stage.holds, update_holds updates, ← same] at holds
          exact scheduled _ _ _ holds more
      · exact absurd rfl set
  | crash found live => exact ⟨goOn found fun n counts => (by cases counts), rows⟩

/-- The event a worker has yet to make a delivery of. -/
def Await.sends : Await → Option String
  | .assertSafeUrl call eventId | .persist call eventId _ => if call.deliveryId = none then some eventId else none
  | _ => none

def Job.sends : Job → Option String
  | .dispatch _ event => some event.id
  | .retry _ _ => none

def Stage.sends (job : Job) : Stage → Option String
  | .queued => job.sends
  | .awaiting await => await.sends
  | .settled => none

def Task.sends (task : Task) : Option String := task.stage.sends task.job

/-- No event is deleted while there is a delivery of it to make, or one that is pending or held by
a worker; and events are stored before they are dispatched. -/
def Undeleted (s : State) : Act → Prop
  | .deleteEvent id => (∀ task ∈ s.tasks, task.sends ≠ some id) ∧
      ∀ row ∈ s.webhookDelivery, row.eventId.getD "" = id → row.status ≠ .pending ∧
        ∀ task ∈ s.tasks, task.holds ≠ some row.id
  | .dispatchWebhooks event => ∃ stored ∈ s.event, stored.id = event.id
  | _ => True

/-- The events that are needed are there, and a worker looks for that of its row. -/
structure Stored (s : State) : Prop where
  rows : ∀ row ∈ s.webhookDelivery, (row.status = .pending ∨ ∃ task ∈ s.tasks, task.holds = some row.id) →
    ∃ event ∈ s.event, event.id = row.eventId.getD ""
  sends : ∀ task ∈ s.tasks, ∀ eventId, task.sends = some eventId → ∃ event ∈ s.event, event.id = eventId
  reads : ∀ task ∈ s.tasks, ∀ call eventId, task.stage = .awaiting (.findEvent call eventId) →
    ∀ row ∈ s.webhookDelivery, call.deliveryId = some row.id → row.eventId.getD "" = eventId

theorem callback_sends (job : Job) {eventId : String} (sends : job.callback.sends job = some eventId) :
    job.sends = some eventId := by
  cases job with
  | dispatch => exact sends
  | retry d subscription =>
    simp only [Job.callback] at sends
    split at sends <;> cases sends

theorem callback_reads (job : Job) {call : Call} {eventId : String} :
    job.callback ≠ .awaiting (.findEvent call eventId) := by
  cases job with
  | dispatch =>
    intro same
    cases same
  | retry d subscription =>
    simp only [Job.callback]
    split <;> intro same <;> cases same

theorem Await.sends_of_isBound (bound : await.isBound = true) : await.sends = none := by
  cases await <;> first | rfl | cases bound

theorem Resumed.sends (resumed : Resumed s await answer t stage) (job : Job) {eventId : String}
    (sends : stage.sends job = some eventId) :
    await.sends = some eventId ∨ ∃ event ∈ s.event, event.id = eventId := by
  rcases resumed.next_cases with rfl | ⟨next, rfl, follows⟩
  · cases sends
  · cases follows with
    | findEvent | created => cases sends
    | assertSafeUrl found =>
      obtain ⟨_, same⟩ := Option.ite_none_right_eq_some.mp sends
      cases same
      exact .inr found
    | persist => exact .inl sends
    | bound isBound => cases (Await.sends_of_isBound isBound).symm.trans sends

theorem Resumed.reads (resumed : Resumed s await answer t stage) {call : Call} {eventId : String}
    (reads : stage = .awaiting (.findEvent call eventId)) :
    t = s ∧ ∃ row ∈ s.webhookDelivery, call.deliveryId = some row.id ∧ row.eventId.getD "" = eventId := by
  rcases resumed.next_cases with rfl | ⟨next, rfl, follows⟩
  · cases reads
  · cases reads
    cases follows with
    | findEvent present held => exact ⟨rfl, _, present, held, rfl⟩
    | bound isBound => cases isBound

theorem Stored.outside (stored : Stored s) (undeleted : Undeleted s a) (moved : Outside s a t) : Stored t := by
  obtain ⟨rows, sends, reads⟩ := stored
  rw [← moved.tasks] at sends reads
  refine ⟨fun row present needed => ?_, fun task member eventId sent => ?_, fun task member call eventId reading
    row present => reads task member call eventId reading row (moved.rows.subset present)⟩
  · rw [moved.tasks] at needed
    obtain ⟨event, there, same⟩ := rows row (moved.rows.subset present) needed
    refine ⟨event, moved.events event there fun deleted => ?_, same⟩
    subst deleted
    obtain ⟨idle, free⟩ := undeleted.2 row (moved.rows.subset present) same.symm
    rcases needed with pending | ⟨task, member, held⟩
    · exact idle pending
    · exact free task member held
  · obtain ⟨event, there, same⟩ := sends task member eventId sent
    refine ⟨event, moved.events event there fun deleted => ?_, same⟩
    subst deleted
    exact undeleted.1 task (moved.tasks ▸ member) (sent.trans (congrArg some same.symm))

theorem Stored.resume (stored : Stored s) (known : Known s) (found : s.tasks[k]? = some task)
    (at_ : task.stage = .awaiting await) (resumed : Resumed s await answer t stage) :
    Stored (t.setStage k task stage) := by
  obtain ⟨rows, sends, reads⟩ := stored
  have mine : task.holds = await.holds := by rw [Task.holds, at_]; rfl
  have member := List.mem_of_getElem? found
  have events : t.event = s.event := by cases resumed <;> rfl
  have kept {old row : WebhookDelivery} (same : old.origin = row.origin) : old.eventId = row.eventId :=
    congrArg (·.2.2) same
  -- a row that was there and is held after the call was held before it
  have heldBefore {row : WebhookDelivery} (present : row ∈ s.webhookDelivery)
      (held : ∃ other ∈ (t.setStage k task stage).tasks, other.holds = some row.id) :
      ∃ other ∈ s.tasks, other.holds = some row.id := by
    obtain ⟨other, after, held⟩ := held
    rcases mem_setStage after with old | rfl
    · exact ⟨other, resumed.tasks ▸ old, held⟩
    · rcases resumed.holds task.job with gone | own | ⟨made, _⟩
      · cases gone.symm.trans held
      · exact ⟨task, member, (mine.trans own.symm).trans held⟩
      · have new := Option.some.inj (made.symm.trans held)
        exact absurd (known.rows _ (List.mem_map_of_mem present)) (by omega)
  refine ⟨fun row present needed => ?_, fun other after eventId sent => ?_, fun other after call eventId reading
    row present held => ?_⟩
  · simp only [State.setStage, events]
    rcases resumed.row_cases present with old | ⟨u, updates, old, source, same, rfl⟩ | ⟨_, _, _, rfl, fresh, rfl, _⟩
    · exact rows row old (needed.imp_right (heldBefore old))
    · rw [← kept (update_origin updates old).symm]
      refine rows old source (.inr ⟨task, member, ?_⟩)
      rw [mine, update_holds updates, same]
    · refine sends task member _ ?_
      rw [Task.sends, at_]
      exact if_pos fresh
  · simp only [State.setStage, events]
    rcases mem_setStage after with old | rfl
    · exact sends other (resumed.tasks ▸ old) eventId sent
    · rcases resumed.sends task.job sent with before | there
      · exact sends task member eventId (by rw [Task.sends, at_]; exact before)
      · exact there
  · rcases mem_setStage after with old | rfl
    · rw [resumed.tasks] at old
      rcases resumed.row_cases present with there | ⟨u, updates, before, source, same, rfl⟩ | ⟨_, _, _, _, _, rfl, _⟩
      · exact reads other old call eventId reading row there held
      · rw [← kept (update_origin updates before).symm]
        exact reads other old call eventId reading before source (held.trans (congrArg some (update_id updates before)))
      · refine absurd (known.tasks other old s.nextId ?_) (Nat.lt_irrefl _)
        rw [Task.holds, reading]
        exact held
    · obtain ⟨rfl, read, there, own, same⟩ := resumed.reads reading
      rw [known.same present there (Option.some.inj (held.symm.trans own))]
      exact same

theorem Stored.setStage (stored : Stored s) (found : s.tasks[k]? = some task)
    (holds : ∀ id, stage.holds task.job = some id → task.holds = some id)
    (sends : ∀ eventId, stage.sends task.job = some eventId → task.sends = some eventId)
    (reads : ∀ call eventId, stage ≠ .awaiting (.findEvent call eventId)) : Stored (s.setStage k task stage) := by
  have member := List.mem_of_getElem? found
  refine ⟨fun row present needed => stored.rows row present (needed.imp_right ?_), fun other after eventId sent => ?_,
    fun other after call eventId reading => ?_⟩
  · rintro ⟨other, after, held⟩
    rcases mem_setStage after with old | rfl
    · exact ⟨other, old, held⟩
    · exact ⟨task, member, holds _ held⟩
  · rcases mem_setStage after with old | rfl
    · exact stored.sends other old eventId sent
    · exact stored.sends task member eventId (sends eventId sent)
  · rcases mem_setStage after with old | rfl
    · exact stored.reads other old call eventId reading
    · exact absurd reading (reads call eventId)

theorem Stored.step (stored : Stored s) (known : Known s) (undeleted : Undeleted s a)
    (stepped : step concurrency s a = some t) : Stored t := by
  obtain ⟨rows, sends, reads⟩ := id stored
  cases step_cases stepped with
  | outside moved => exact stored.outside undeleted moved
  | cancelPending =>
    refine ⟨fun row present needed => ?_, sends, fun task member call eventId reading row present held => ?_⟩
    · rcases mem_cancelPending present with old | ⟨old, source, _, rfl⟩
      · exact rows row old needed
      · exact rows old source (.inr (needed.resolve_left fun pending => by cases pending))
    · rcases mem_cancelPending present with old | ⟨old, source, _, rfl⟩
      · exact reads task member call eventId reading row old held
      · exact reads task member call eventId reading old source held
  | dispatchWebhooks =>
    refine ⟨fun row present needed => rows row present (needed.imp_right ?_), fun task member eventId sent => ?_,
      fun task member call eventId reading => ?_⟩
    · rintro ⟨task, member, held⟩
      rcases mem_runWithConcurrency member with old | ⟨item, chosen, rfl⟩
      · exact ⟨task, old, held⟩
      · obtain ⟨sub, _, rfl⟩ := List.mem_map.mp chosen
        cases held
    · rcases mem_runWithConcurrency member with old | ⟨item, chosen, rfl⟩
      · exact sends task old eventId sent
      · obtain ⟨sub, _, rfl⟩ := List.mem_map.mp chosen
        cases sent
        exact undeleted
    · rcases mem_runWithConcurrency member with old | ⟨item, _, rfl⟩
      · exact reads task old call eventId reading
      · cases reading
  | retryPendingDeliveries =>
    refine ⟨fun row present needed => ?_, fun task member eventId sent => ?_,
      fun task member call eventId reading row present held => ?_⟩
    · have before : ∃ old ∈ s.webhookDelivery, old.origin = row.origin ∧ old.status = row.status := by
        rcases mem_claim present with old | ⟨old, source, rfl, _⟩
        · exact ⟨row, old, rfl, rfl⟩
        · exact ⟨old, source, rfl, rfl⟩
      obtain ⟨old, source, origin, status⟩ := before
      have sameId : old.id = row.id := congrArg Prod.fst origin
      have sameEvent : old.eventId = row.eventId := congrArg (·.2.2) origin
      rw [← sameEvent]
      refine rows old source ?_
      rcases needed with pending | ⟨task, member, held⟩
      · exact .inl (status.trans pending)
      · rcases mem_runWithConcurrency member with waiting | ⟨item, chosen, rfl⟩
        · exact .inr ⟨task, waiting, held.trans (congrArg some sameId.symm)⟩
        · obtain ⟨due, there, isDue, _, rfl⟩ := mem_jobs known chosen
          rw [known.same source there (sameId.trans (Option.some.inj held).symm)]
          exact .inl (pending_of_isDue isDue).1
    · rcases mem_runWithConcurrency member with old | ⟨item, chosen, rfl⟩
      · exact sends task old eventId sent
      · obtain ⟨_, _, _, _, rfl⟩ := mem_jobs known chosen
        cases sent
    · rcases mem_runWithConcurrency member with waiting | ⟨item, _, rfl⟩
      · rcases mem_claim present with old | ⟨old, source, rfl, _⟩
        · exact reads task waiting call eventId reading row old held
        · exact reads task waiting call eventId reading old source held
      · cases reading
  | start found queued =>
    refine stored.setStage found (fun id held => ?_) (fun eventId sent => ?_) fun _ _ => callback_reads _
    · rw [Task.holds, queued]
      exact (callback_holds _).symm.trans held
    · rw [Task.sends, queued]
      exact callback_sends _ sent
  | resume found at_ resumed => exact stored.resume known found at_ resumed
  | crash found live =>
    exact stored.setStage found (fun _ held => by cases held) (fun _ sent => by cases sent) fun _ _ => Stage.noConfusion

/-- The worker of a delivery dies, or the database fails it. -/
def Lost (id : Nat) (s : State) (a : Act) : Prop :=
  ∃ (k : Nat) (task : Task), s.tasks[k]? = some task ∧ task.holds = some id ∧
    (a = .crash k ∨ ∃ answer, answer.isFailure = true ∧ a = .resume k answer)

def Settled (k : Nat) (s : State) : Prop := ∃ task, s.tasks[k]? = some task ∧ task.stage = .settled

def Holds (k id : Nat) (s : State) : Prop := ∃ task, s.tasks[k]? = some task ∧ task.holds = some id

/-- The delivery is a success, failed or cancelled, or its row is gone. -/
def Ended (id : Nat) (s : State) : Prop := ∀ row ∈ s.webhookDelivery, row.id = id → row.status ≠ .pending

/-- An update that ends its worker ends its row or schedules the next attempt. -/
theorem update_outcome (updates : await.update now = some u) (settled : u.fulfilled = .settled) :
    (∀ row, (u.data row).status ≠ .pending) ∨
      ∃ attempt, await.attempt = some attempt ∧ ∀ row, (u.data row).attempt = some (attempt + 1) := by
  have scheduled (issued attempt : Nat) (errorMsg : String) (httpStatus : Option Nat) :
      (∀ row, (scheduleRetryOrFail issued attempt errorMsg httpStatus row).status ≠ .pending) ∨
        ∀ row, (scheduleRetryOrFail issued attempt errorMsg httpStatus row).attempt = some (attempt + 1) := by
    by_cases last : attempt + 1 > MAX_ATTEMPTS
    · refine .inl fun row => ?_
      simp only [scheduleRetryOrFail, if_pos last]
      exact Status.noConfusion
    · refine .inr fun row => ?_
      simp only [scheduleRetryOrFail, if_neg last]
  cases await with
  | cancel | reject | succeed | block =>
    cases updates
    exact .inl fun _ => Status.noConfusion
  | persist call =>
    obtain ⟨id, _, rfl⟩ := Option.map_eq_some_iff.mp updates
    cases settled
  | schedule caught =>
    cases caught
    all_goals
      cases updates
      rcases scheduled _ _ _ _ with ended | next
      · exact .inl ended
      · exact .inr ⟨_, rfl, next⟩
  | _ => cases updates

/-- A worker that is not lost lets go of a pending row by ending it or scheduling it. -/
theorem Resumed.released (resumed : Resumed s await answer t stage) (stored : Stored s) (member : task ∈ s.tasks)
    (at_ : task.stage = .awaiting await) (held : await.holds = some id) (gone : stage.holds task.job ≠ some id)
    (kept : answer.isFailure ≠ true) (there : ∃ row ∈ s.webhookDelivery, row.id = id ∧ row.status = .pending) :
    Ended id t ∨ ∃ attempt, await.attempt = some attempt ∧
      ∀ row ∈ t.webhookDelivery, row.id = id → row.attempt = some (attempt + 1) := by
  obtain ⟨row, present, rfl, pending⟩ := there
  cases resumed with
  | fulfilled updates =>
    rename_i u _
    have own : row.id = u.id := Option.some.inj (held.symm.trans (update_holds updates))
    have settled : u.fulfilled = .settled := by
      rcases (update_stages updates).1 with ended | ⟨_, goesOn, _⟩
      · exact ended
      · rw [goesOn] at gone
        exact absurd (congrArg some own.symm) gone
    have written {other : WebhookDelivery} (after : other ∈ u.rows s.webhookDelivery) (same : other.id = row.id) :
        ∃ old, other = u.data old := by
      obtain ⟨old, _, ⟨_, rfl⟩ | ⟨different, rfl⟩⟩ := mem_update_rows after
      · exact ⟨old, rfl⟩
      · exact absurd (same.trans own) different
    rcases update_outcome updates settled with ended | ⟨attempt, counts, next⟩
    · refine .inl fun other after same => ?_
      obtain ⟨old, rfl⟩ := written after same
      exact ended old
    · refine .inr ⟨attempt, counts, fun other after same => ?_⟩
      obtain ⟨old, rfl⟩ := written after same
      exact next old
  | refused | lost | createLost | createRefused => exact absurd rfl kept
  | unreadDelivery failed | unreadEvent failed => exact absurd failed kept
  | created fresh => cases fresh.symm.trans held
  | noDelivery missing => exact absurd held (missing row present)
  | noEvent missing =>
    obtain ⟨event, found, same⟩ := stored.rows row present (.inl pending)
    exact absurd (same.trans (stored.reads task member _ _ at_ row present held)) (missing event found)
  | notSafe =>
    rename_i call
    rw [show call.deliveryId = some row.id from held] at gone
    exact absurd rfl gone
  | responded outcome =>
    rcases responded_cases outcome with ⟨_, _, rfl⟩ | ⟨_, _, _, _, rfl⟩ | ⟨_, rfl⟩ <;> exact absurd held gone
  | foundDelivery | foundEvent | safe => exact absurd held gone

/-- The task of a step, and what the step makes of any other. -/
theorem task_step (stepped : step concurrency s a = some t) (found : s.tasks[k]? = some task) :
    t.tasks[k]? = some task ∨ ∃ stage, t.tasks[k]? = some { task with stage := stage } ∧
      ((task.stage = .queued ∧ stage = task.job.callback) ∨ (a = .crash k ∧ stage = .settled) ∨
        ∃ answer await u, a = .resume k answer ∧ task.stage = .awaiting await ∧ Resumed s await answer u stage ∧
          t.webhookDelivery = u.webhookDelivery) := by
  have inside := (List.getElem?_eq_some_iff.mp found).1
  have set {j : Nat} {other : Task} {stage : Stage} (at_ : s.tasks[j]? = some other) :
      (s.tasks.set j { other with stage := stage })[k]? = some task ∨
        j = k ∧ (s.tasks.set j { other with stage := stage })[k]? = some { task with stage := stage } := by
    by_cases same : j = k
    · subst same
      cases found.symm.trans at_
      exact .inr ⟨rfl, List.getElem?_set_self inside⟩
    · exact .inl ((List.getElem?_set_ne same).trans found)
  cases step_cases stepped with
  | outside moved => exact .inl (moved.tasks ▸ found)
  | cancelPending => exact .inl found
  | dispatchWebhooks | retryPendingDeliveries => exact .inl ((List.getElem?_append_left inside).trans found)
  | start at_ queued =>
    rcases set at_ with other | ⟨rfl, after⟩
    · exact .inl other
    · cases found.symm.trans at_
      exact .inr ⟨_, after, .inl ⟨queued, rfl⟩⟩
  | resume at_ stage resumed =>
    rw [State.setStage, resumed.tasks]
    rcases set at_ with other | ⟨rfl, after⟩
    · exact .inl other
    · cases found.symm.trans at_
      exact .inr ⟨_, after, .inr (.inr ⟨_, _, _, rfl, stage, resumed, rfl⟩)⟩
  | crash at_ live =>
    rcases set at_ with other | ⟨rfl, after⟩
    · exact .inl other
    · exact .inr ⟨_, after, .inr (.inl ⟨rfl, rfl⟩)⟩

theorem Settled.step (settled : Settled k s) (stepped : step concurrency s a = some t) : Settled k t := by
  obtain ⟨task, found, ended⟩ := settled
  rcases task_step stepped found with same | ⟨stage, after, ⟨queued, _⟩ | ⟨_, rfl⟩ | ⟨_, _, _, _, waits, _⟩⟩
  · exact ⟨task, same, ended⟩
  · cases queued.symm.trans ended
  · exact ⟨_, after, rfl⟩
  · cases waits.symm.trans ended

theorem Settled.not_holds (settled : Settled k s) : ¬ Holds k id s := by
  rintro ⟨task, found, held⟩
  obtain ⟨same, at_, ended⟩ := settled
  cases found.symm.trans at_
  rw [Task.holds, ended] at held
  cases held

theorem released (stepped : step concurrency s a = some t) (stored : Stored s) (holds : Holds k id s)
    (gone : ¬ Holds k id t) (kept : ¬ Lost id s a) (there : ¬ Ended id s) :
    Ended id t ∨ ∃ task attempt, s.tasks[k]? = some task ∧ task.holds = some id ∧ task.attempt = some attempt ∧
      ∀ row ∈ t.webhookDelivery, row.id = id → row.attempt = some (attempt + 1) := by
  obtain ⟨task, found, held⟩ := holds
  simp only [Ended, not_forall, not_not] at there
  obtain ⟨row, present, isRow, pending⟩ := there
  rcases task_step stepped found with same | ⟨stage, after, ⟨queued, rfl⟩ | ⟨crashed, rfl⟩ |
    ⟨answer, await, u, resumes, waits, resumed, rows⟩⟩
  · exact absurd ⟨task, same, held⟩ gone
  · refine absurd ⟨_, after, ?_⟩ gone
    rw [Task.holds, queued] at held
    exact (callback_holds _).trans held
  · exact absurd ⟨k, task, found, held, .inl crashed⟩ kept
  · have goneOn : stage.holds task.job ≠ some id := fun still => gone ⟨_, after, still⟩
    have answered : answer.isFailure ≠ true := fun failed => kept ⟨k, task, found, held, .inr ⟨answer, failed, resumes⟩⟩
    have mine : await.holds = some id := by
      rw [Task.holds, waits] at held
      exact held
    rcases resumed.released stored (List.mem_of_getElem? found) waits mine goneOn answered
      ⟨row, present, isRow, pending⟩ with ended | ⟨attempt, counts, next⟩
    · exact .inl fun row after => ended row (rows ▸ after)
    · refine .inr ⟨task, attempt, found, held, ?_, fun row after => next row (rows ▸ after)⟩
      rw [Task.attempt, waits]
      exact counts

/-- A row that is due is given to a worker. -/
theorem due_held (known : Known s) (present : row ∈ s.webhookDelivery) (due : isDue now row = true) :
    ∃ k, Holds k row.id (retryPendingDeliveries s now) := by
  obtain ⟨sub, subscribed, same⟩ := known.subscribed row present
  have listed : (s.webhookSubscription.find? fun sub => sub.id = row.subscriptionId).isSome = true :=
    List.find?_isSome.mpr ⟨sub, subscribed, decide_eq_true same⟩
  obtain ⟨subscription, found⟩ := Option.isSome_iff_exists.mp listed
  have job : Job.retry (row.claimed now) subscription ∈ (claim now s.webhookDelivery).2.filterMap fun d =>
      (s.webhookSubscription.find? fun sub => sub.id = d.subscriptionId).map fun sub => Job.retry d sub :=
    List.mem_filterMap.mpr ⟨row.claimed now, claim_complete present due, by
      rw [show (row.claimed now).subscriptionId = row.subscriptionId from rfl, found]
      rfl⟩
  obtain ⟨k, at_⟩ := List.mem_iff_getElem?.mp (List.mem_append_right s.tasks (List.mem_map_of_mem job))
  exact ⟨k, _, at_, rfl⟩

/-- A pending row that no worker holds stays as it is until one does. -/
theorem untouched (known : Known s) (stepped : step concurrency s a = some t) (present : row ∈ s.webhookDelivery)
    (free : ∀ k, ¬ Holds k row.id s) (freeAfter : ∀ k, ¬ Holds k row.id t) (still : ¬ Ended row.id t) :
    row ∈ t.webhookDelivery := by
  simp only [Ended, not_forall, not_not] at still
  obtain ⟨other, after, sameId, pending⟩ := still
  have unchanged (old : other ∈ s.webhookDelivery) : row ∈ t.webhookDelivery := by
    rwa [known.same present old sameId.symm]
  cases step_cases stepped with
  | outside moved => exact unchanged (moved.rows.subset after)
  | cancelPending =>
    rcases mem_cancelPending after with old | ⟨_, _, _, rfl⟩
    · exact unchanged old
    · cases pending
  | dispatchWebhooks | start | crash => exact unchanged after
  | retryPendingDeliveries =>
    rcases mem_claim after with old | ⟨old, source, rfl, due, there, isDue, same⟩
    · exact unchanged old
    · have own : due = row := known.same there present (same.trans sameId)
      subst own
      obtain ⟨k, held⟩ := due_held known there isDue
      exact absurd held (freeAfter k)
  | resume found at_ resumed =>
    rcases resumed.row_cases after with old | ⟨u, updates, old, source, same, rfl⟩ | ⟨_, _, _, _, _, rfl, _⟩
    · exact unchanged old
    · refine absurd ⟨_, found, ?_⟩ (free _)
      rw [Task.holds, at_, ← sameId, update_id updates, same]
      exact update_holds updates
    · have before := known.rows _ (List.mem_map_of_mem present)
      exact absurd sameId.symm (Nat.ne_of_lt before)

/-- A bound from below on the attempts of a delivery: that of each worker, and of the row. -/
def Level (id : Nat) (low : Nat → Nat) (least : Nat) : State → Prop :=
  Attempts (fun k held attempt => held = some id → low k ≤ attempt) fun row attempt => row = id → least ≤ attempt

theorem Level.step {low : Nat → Nat} {least : Nat} (level : Level id low least s) (known : Known s)
    (stepped : step concurrency s a = some t) (before : id < s.nextId)
    (near : ∀ k, low k ≤ least ∧ least ≤ low k + 1) : Level id low least t := by
  refine Attempts.step level known stepped ?_ ?_ ?_ ?_
  · intro k _ held
    cases held
  · intro k row attempt _ atLeast held
    exact (near k).1.trans (atLeast (Option.some.inj held))
  · intro k attempt _ held
    exact absurd (Option.some.inj held) (Nat.ne_of_gt before)
  · intro k row attempt atLeast _ same
    exact (near k).2.trans (Nat.succ_le_succ (atLeast (congrArg some same)))

/-- No attempt goes past the last one. -/
def Bounded : State → Prop :=
  Attempts (fun _ _ attempt => attempt ≤ MAX_ATTEMPTS) fun _ attempt => attempt ≤ MAX_ATTEMPTS

theorem Bounded.step (bounded : Bounded s) (known : Known s) (stepped : step concurrency s a = some t) : Bounded t :=
  Attempts.step bounded known stepped (fun _ _ => by decide) (fun _ _ _ _ most => most) (fun _ _ most => most)
    fun _ _ _ _ most => most

/-- No worker is lost in an attempt, and no event that is needed is deleted. -/
def Kept (s : State) (a : Act) : Prop := Unlost s a ∧ Undeleted s a

structure Sound (s : State) : Prop where
  known : Known s
  attended : Attended s
  stored : Stored s
  bounded : Bounded s

theorem Sound.step (sound : Sound s) (kept : Kept s a) (stepped : step concurrency s a = some t) : Sound t where
  known := sound.known.step stepped
  attended := sound.attended.step kept.1 stepped
  stored := sound.stored.step sound.known kept.2 stepped
  bounded := sound.bounded.step sound.known stepped

theorem sound_of_initial (start : (system concurrency).initial s) : Sound s := by
  obtain ⟨empty, idle, _⟩ := id start
  refine ⟨known_of_initial start, ⟨?_, ?_⟩, ⟨?_, ?_, ?_⟩, ⟨?_, ?_⟩⟩
  all_goals simp [empty, idle]

/-- Every worker comes to an end, `retryPendingDeliveries` is called again and again, and the
workers of one delivery are lost finitely often. -/
structure Fair (trace : (system concurrency).Trace) : Prop where
  settles : ∀ n k task, (trace.states n).tasks[k]? = some task → ∃ m, n ≤ m ∧ Settled k (trace.states m)
  polls : ∀ n time, ∃ m, n ≤ m ∧ ∃ now, time ≤ now ∧ trace.labels m = .retryPendingDeliveries now
  survives : ∀ id, ∃ n, ∀ m, n ≤ m → ¬ Lost id (trace.states m) (trace.labels m)

section
variable {trace : (system concurrency).Trace} (fair : Fair trace) (sound : ∀ n, Sound (trace.states n)) {n : Nat}
  (survives : ∀ m, n ≤ m → ¬ Lost id (trace.states m) (trace.labels m))
  (pending : ∀ m, n ≤ m → ¬ Ended id (trace.states m))
include fair sound survives pending

/-- A delivery that stays pending is given to a worker. -/
theorem held_again (from_ : n ≤ i) : ∃ m k, i ≤ m ∧ Holds k id (trace.states m) := by
  by_contra free
  have never (m : Nat) (later : i ≤ m) (k : Nat) : ¬ Holds k id (trace.states m) := fun held => free ⟨m, k, later, held⟩
  have open_ := pending i from_
  simp only [Ended, not_forall, not_not] at open_
  obtain ⟨row, present, rfl, isPending⟩ := open_
  have set : row.nextRetryAt ≠ none := by
    intro unset
    obtain ⟨task, member, attempting⟩ := (sound i).attended.attempted row present ⟨isPending, unset⟩
    obtain ⟨k, found⟩ := List.mem_iff_getElem?.mp member
    exact never i (Nat.le_refl i) k
      ⟨task, found, Stage.holds_of_delivers _ (Stage.delivers_of_attempting attempting)⟩
  obtain ⟨time, _, due⟩ := isDue_later ((sound i).attended.claimable row present) isPending set 0
  obtain ⟨m, later, now, reached, polled⟩ := fair.polls i time
  have stays : row ∈ (trace.states m).webhookDelivery := by
    refine trace.stays (P := fun s => row ∈ s.webhookDelivery) (fun j after there => ?_) present later
    exact untouched (sound j).known (trace.steps j) there (never j after) (never (j + 1) (Nat.le_succ_of_le after))
      (pending (j + 1) (from_.trans (Nat.le_succ_of_le after)))
  have stepped := trace.steps m
  rw [polled] at stepped
  obtain ⟨_, same⟩ := Option.ite_none_right_eq_some.mp stepped
  obtain ⟨k, held⟩ := due_held (sound m).known stays (isDue_mono reached due)
  rw [Option.some.inj same] at held
  exact never (m + 1) (Nat.le_succ_of_le later) k held

/-- Its worker ends and, as the row stays pending, has scheduled the next attempt. -/
theorem scheduled_again (from_ : n ≤ i) : ∃ (m k : Nat) (task : Task) (attempt : Nat), i ≤ m ∧
    (trace.states m).tasks[k]? = some task ∧ task.holds = some id ∧ task.attempt = some attempt ∧
    ∀ row ∈ (trace.states (m + 1)).webhookDelivery, row.id = id → row.attempt = some (attempt + 1) := by
  obtain ⟨j, k, later, task, found, held⟩ := held_again fair sound survives pending from_
  obtain ⟨last, after, settled⟩ := fair.settles j k task found
  obtain ⟨m, afterHeld, before, gone⟩ :=
    trace.lost_between (P := Holds k id) ⟨task, found, held⟩ after settled.not_holds
  have beyond : i ≤ m := later.trans afterHeld
  rcases released (trace.steps m) (sound m).stored before gone (survives m (from_.trans beyond))
    (pending m (from_.trans beyond)) with ended | ⟨task, attempt, found, held, counts, next⟩
  · exact absurd ended (pending (m + 1) (from_.trans (Nat.le_succ_of_le beyond)))
  · exact ⟨m, k, task, attempt, beyond, found, held, counts, next⟩

omit fair survives in
theorem level_stays {low : Nat → Nat} {least m : Nat} (near : ∀ k, low k ≤ least ∧ least ≤ low k + 1) (from_ : n ≤ i)
    (level : Level id low least (trace.states i)) (later : i ≤ m) : Level id low least (trace.states m) := by
  refine trace.stays (P := Level id low least) (fun j after level => ?_) level later
  have open_ := pending j (from_.trans after)
  simp only [Ended, not_forall, not_not] at open_
  obtain ⟨row, present, rfl, _⟩ := open_
  exact level.step (sound j).known (trace.steps j) ((sound j).known.rows _ (List.mem_map_of_mem present)) near

/-- A bound on the attempts of a delivery that stays pending is passed in the end. -/
theorem level_raised (from_ : n ≤ i) {l : Nat} (level : Level id (fun _ => l) l (trace.states i)) :
    ∃ m, i ≤ m ∧ Level id (fun _ => l + 1) (l + 1) (trace.states m) := by
  obtain ⟨m, k, task, attempt, later, found, held, counts, next⟩ := scheduled_again fair sound survives pending from_
  have start : n ≤ m + 1 := from_.trans (Nat.le_succ_of_le later)
  have stays {j : Nat} (later : i ≤ j) : Level id (fun _ => l) l (trace.states j) :=
    level_stays sound pending (fun _ => ⟨Nat.le_refl l, Nat.le_succ l⟩) from_ level later
  have least : l ≤ attempt := (stays later).tasks k task attempt found counts held
  -- from the schedule on the row's attempt is above `l`, and that of the workers to come
  let low (k : Nat) : Nat := if k < (trace.states (m + 1)).tasks.length then l else l + 1
  have near (k : Nat) : low k ≤ l + 1 ∧ l + 1 ≤ low k + 1 := by
    simp only [low]
    split <;> omega
  have raised : Level id low (l + 1) (trace.states (m + 1)) := by
    refine ⟨fun j other n at_ counts held => ?_, fun row present _ same => ?_⟩
    · have old : j < (trace.states (m + 1)).tasks.length := (List.getElem?_eq_some_iff.mp at_).1
      simp only [low, if_pos old]
      exact (stays (Nat.le_succ_of_le later)).tasks j other n at_ counts held
    · rw [next row present same]
      exact Nat.succ_le_succ least
  obtain ⟨last, after, settled⟩ := trace.all_done (D := Settled) (fun _ j settled => settled.step (trace.steps j))
    (trace.states (m + 1)).tasks.length fun k small =>
      fair.settles (m + 1) k _ (List.getElem?_eq_getElem small)
  have final : Level id low (l + 1) (trace.states last) := level_stays sound pending near start raised after
  refine ⟨last, (Nat.le_succ_of_le later).trans after, fun j other n at_ counts held => ?_, final.rows⟩
  have new : ¬ j < (trace.states (m + 1)).tasks.length := by
    intro old
    exact (settled j old).not_holds ⟨other, at_, held⟩
  have bound := final.tasks j other n at_ counts held
  simpa only [low, if_neg new] using bound

end

/-- A pending delivery ends. -/
theorem delivery_ends {trace : (system concurrency).Trace} (fair : Fair trace)
    (kept : ∀ n, Kept (trace.states n) (trace.labels n)) (id n : Nat) : ∃ m, n ≤ m ∧ Ended id (trace.states m) := by
  have sound (n : Nat) : Sound (trace.states n) :=
    (trace.reachableWhen kept n).invariant sound_of_initial Sound.step
  obtain ⟨safe, survives⟩ := fair.survives id
  by_contra open_
  have lasts (m : Nat) (later : max n safe ≤ m) : ¬ Lost id (trace.states m) (trace.labels m) :=
    survives m ((Nat.le_max_right n safe).trans later)
  have pending (m : Nat) (later : max n safe ≤ m) : ¬ Ended id (trace.states m) :=
    fun ended => open_ ⟨m, (Nat.le_max_left n safe).trans later, ended⟩
  obtain ⟨m, later, level⟩ := trace.climbs (L := fun l => Level id (fun _ => l) l)
    (fun l i after level => level_raised fair sound lasts pending after level)
    ⟨fun _ _ _ _ _ _ => Nat.zero_le _, fun _ _ _ _ => Nat.zero_le _⟩ (MAX_ATTEMPTS + 1)
  -- above `MAX_ATTEMPTS` no worker could hold the row
  obtain ⟨i, k, task, attempt, after, found, held, counts, _⟩ := scheduled_again fair sound lasts pending later
  have reached := level_stays sound pending (fun _ => ⟨Nat.le_refl _, Nat.le_succ _⟩) later level after
  have least : MAX_ATTEMPTS + 1 ≤ attempt := reached.tasks k task attempt found counts held
  have most : attempt ≤ MAX_ATTEMPTS := (sound i).bounded.tasks k task attempt found counts
  omega

theorem update_failed (updates : await.update now = some u) (row : WebhookDelivery) (own : row.id = u.id)
    (most : ∀ attempt, await.attempt = some attempt → attempt ≤ MAX_ATTEMPTS) (failed : (u.data row).status = .failed) :
    Fails row.id await := by
  have last (issued attempt : Nat) (errorMsg : String) (httpStatus : Option Nat)
      (failed : (scheduleRetryOrFail issued attempt errorMsg httpStatus row).status = .failed) :
      MAX_ATTEMPTS ≤ attempt := by
    simp only [scheduleRetryOrFail] at failed
    split at failed
    · rename_i beyond
      exact Nat.le_of_lt_succ beyond
    · cases failed
  cases await with
  | reject | block =>
    cases updates
    rw [own]
    first | exact .rejected | exact .blocked
  | schedule caught id attempt =>
    cases caught
    all_goals
      cases updates
      cases Nat.le_antisymm (most attempt rfl) (last _ _ _ _ failed)
      rw [own]
      exact .last
  | persist call =>
    obtain ⟨id, _, rfl⟩ := Option.map_eq_some_iff.mp updates
    cases failed
  | cancel | succeed =>
    cases updates
    cases failed
  | _ => cases updates

theorem failed_cases (known : Known s) (bounded : Bounded s) (stepped : step concurrency s a = some t)
    (present : row ∈ t.webhookDelivery) (failed : row.status = .failed) : row ∈ s.webhookDelivery ∨
      ∃ task ∈ s.tasks, ∃ await, task.stage = .awaiting await ∧ Fails row.id await := by
  cases step_cases stepped with
  | outside moved => exact .inl (moved.rows.subset present)
  | cancelPending =>
    rcases mem_cancelPending present with old | ⟨_, _, _, rfl⟩
    · exact .inl old
    · cases failed
  | dispatchWebhooks | start | crash => exact .inl present
  | retryPendingDeliveries =>
    rcases mem_claim present with old | ⟨old, source, rfl, due, there, isDue, same⟩
    · exact .inl old
    · cases known.same there source same
      cases (pending_of_isDue isDue).1.symm.trans failed
  | resume found at_ resumed =>
    rcases resumed.row_cases present with old | ⟨u, updates, old, source, same, rfl⟩ | ⟨_, _, _, _, _, rfl, _⟩
    · exact .inl old
    · refine .inr ⟨_, List.mem_of_getElem? found, _, at_, ?_⟩
      rw [update_id updates]
      refine update_failed updates old same (fun attempt counts => bounded.tasks _ _ attempt found ?_) failed
      rw [Task.attempt, at_]
      exact counts
    · cases failed

theorem bounded_of_reached (reached : (system concurrency).Reachable s) : Known s ∧ Bounded s := by
  induction reached with
  | initial start => exact ⟨(sound_of_initial start).known, (sound_of_initial start).bounded⟩
  | step _ _ stepped ih => exact ⟨ih.1.step stepped, ih.2.step ih.1 stepped⟩

/-- No delivery is stranded where no worker is lost in an attempt, and where the events stay every
delivery ends: failed only by its last attempt or by the guard of its URL. -/
theorem deliveries_end (concurrency : Option Int) :
    (∀ s, (system concurrency).ReachableWhen Unlost s → Unstranded s) ∧
    (∀ trace : (system concurrency).Trace, Fair trace → (∀ n, Kept (trace.states n) (trace.labels n)) →
      ∀ n, ∀ row ∈ (trace.states n).webhookDelivery, ∃ m, n ≤ m ∧ Ended row.id (trace.states m)) ∧
    ∀ s a t, (system concurrency).Reachable s → step concurrency s a = some t →
      ∀ row ∈ t.webhookDelivery, row.status = .failed → row ∈ s.webhookDelivery ∨
        ∃ task ∈ s.tasks, ∃ await, task.stage = .awaiting await ∧ Fails row.id await := by
  refine ⟨fun s reached => (attended_of_reached reached).unstranded,
    fun trace fair kept n row _ => delivery_ends fair kept row.id n, fun s a t reached stepped row present failed => ?_⟩
  obtain ⟨known, bounded⟩ := bounded_of_reached reached
  exact failed_cases known bounded stepped present failed

/-- A delivery that succeeds at once. -/
def served : List Act :=
  [.subscribe hook, .ingest (transfer "e1"), .dispatchWebhooks (transfer "e1"), .start 0, .resume 0 .safe,
    .resume 0 .done, .resume 0 (.responded 200), .resume 0 .done]

def createdRow : WebhookDelivery := Call.row ⟨0, some (transfer "e1"), 1, none, 90⟩ "e1" 0 0

def deliveredRow : WebhookDelivery := createdRow.succeeded 200 0

/-- What `served` ends in, when the clock has gone on and the table was polled. -/
def idling (n : Nat) : State where
  now := (n + 1) / 2
  nextId := 1
  webhookSubscription := [hook]
  event := [transfer "e1"]
  webhookDelivery := [deliveredRow]
  handlers := []
  runs := 1 + n / 2
  tasks := [⟨0, .dispatch hook (transfer "e1"), .settled⟩]

def idle (n : Nat) : Act := if n % 2 = 0 then .elapse 1 else .retryPendingDeliveries ((n + 1) / 2)

theorem idling_step (concurrency : Option Int) (n : Nat) :
    step concurrency (idling n) (idle n) = some (idling (n + 1)) := by
  simp only [idle]
  by_cases even : n % 2 = 0
  · have clock : (n + 1) / 2 + 1 = (n + 1 + 1) / 2 := by omega
    have runs : n / 2 = (n + 1) / 2 := by omega
    simp only [if_pos even, step, idling, clock, runs]
  · have clock : (n + 1) / 2 = (n + 1 + 1) / 2 := by omega
    have runs : 1 + n / 2 + 1 = 1 + (n + 1) / 2 := by omega
    rw [if_neg even]
    refine (if_pos (Nat.le_refl _)).trans ?_
    have polled : claim ((n + 1) / 2) [deliveredRow] = ([deliveredRow], []) := rfl
    simp only [retryPendingDeliveries, idling, polled, State.runWithConcurrency, List.filterMap_nil, List.map_nil,
      List.append_nil, ← clock, runs]

/-- `served`, and from then on a poll in every second step. -/
def servedTrace : (system (DISPATCH_CONCURRENCY none)).Trace where
  states n := if n < 8 then ((system (DISPATCH_CONCURRENCY none)).run empty (served.take n)).getD empty else idling (n - 8)
  labels n := if n < 8 then (served[n]?).getD (idle n) else idle (n - 8)
  starts := ⟨rfl, rfl, rfl⟩
  steps n := by
    by_cases inside : n < 8
    · interval_cases n <;> rfl
    · have next : n + 1 - 8 = n - 8 + 1 := by omega
      have beyond : ¬ n + 1 < 8 := by omega
      simp only [if_neg inside, if_neg beyond, next]
      exact idling_step _ _

theorem servedTrace_beyond (n : Nat) : servedTrace.states (n + 8) = idling n ∧ servedTrace.labels (n + 8) = idle n := by
  have beyond : ¬ n + 8 < 8 := by omega
  simp only [servedTrace, if_neg beyond, Nat.add_sub_cancel, and_self]

theorem servedTrace_tasks (n : Nat) : (servedTrace.states n).tasks.length ≤ 1 := by
  by_cases inside : n < 8
  · interval_cases n <;> decide
  · obtain ⟨m, rfl⟩ := Nat.exists_eq_add_of_le' (Nat.le_of_not_lt inside)
    rw [(servedTrace_beyond m).1]
    exact Nat.le_refl 1

theorem servedTrace_fair : Fair servedTrace where
  settles n k task found := by
    have first : k = 0 := by
      have inside := (List.getElem?_eq_some_iff.mp found).1
      have one := servedTrace_tasks n
      omega
    subst first
    refine ⟨n + 8, Nat.le_add_right n 8, ?_⟩
    rw [Settled, (servedTrace_beyond n).1]
    exact ⟨_, rfl, rfl⟩
  polls n time := by
    refine ⟨2 * (n + time) + 1 + 8, by omega, n + time + 1, by omega, ?_⟩
    have odd : ¬ (2 * (n + time) + 1) % 2 = 0 := by omega
    have half : (2 * (n + time) + 1 + 1) / 2 = n + time + 1 := by omega
    rw [(servedTrace_beyond _).2, idle, if_neg odd, half]
  survives id := by
    refine ⟨8, fun m later lost => ?_⟩
    obtain ⟨n, rfl⟩ := Nat.exists_eq_add_of_le' later
    obtain ⟨k, task, _, _, act⟩ := lost
    rw [(servedTrace_beyond n).2, idle] at act
    split at act
    · rcases act with same | ⟨_, _, same⟩ <;> cases same
    · rcases act with same | ⟨_, _, same⟩ <;> cases same

theorem servedTrace_kept (n : Nat) : Kept (servedTrace.states n) (servedTrace.labels n) := by
  by_cases inside : n < 8
  · by_cases dispatched : n = 2
    · subst dispatched
      exact ⟨trivial, transfer "e1", List.mem_cons_self, rfl⟩
    · interval_cases n <;> first | exact absurd rfl dispatched | exact ⟨trivial, trivial⟩
  · obtain ⟨m, rfl⟩ := Nat.exists_eq_add_of_le' (Nat.le_of_not_lt inside)
    rw [(servedTrace_beyond m).1, (servedTrace_beyond m).2, idle]
    split <;> exact ⟨trivial, trivial⟩

/-- The first redirect leads to an address that is blocked. -/
def redirected : List Act := served.take 6 ++ [.resume 0 (.threw (.SsrfBlockedError "blocked"))]

def blocking : State :=
  { idling 0 with
    webhookDelivery := [createdRow], tasks := [⟨0, .dispatch hook (transfer "e1"), .awaiting (.block 0 "blocked")⟩] }

theorem served_ends : Unstranded (servedTrace.states 6) ∧
    (∃ row ∈ (servedTrace.states 6).webhookDelivery, row.status = .pending ∧
      ∃ m, 6 ≤ m ∧ Ended row.id (servedTrace.states m)) ∧
    ∃ t, (system (DISPATCH_CONCURRENCY none)).run empty (redirected ++ [.resume 0 .done]) = some t ∧
      ∃ row ∈ t.webhookDelivery, row.status = .failed ∧
        ∃ task ∈ blocking.tasks, ∃ await, task.stage = .awaiting await ∧ Fails row.id await := by
  refine ⟨?_, ⟨createdRow, List.mem_cons_self, rfl, ?_⟩,
    { idling 0 with webhookDelivery := [createdRow.failed "blocked"] }, rfl, createdRow.failed "blocked",
    List.mem_cons_self, rfl, ?_⟩
  · exact (deliveries_end _).1 _ (servedTrace.reachableWhen (fun n => (servedTrace_kept n).1) 6)
  · exact (deliveries_end _).2.1 servedTrace servedTrace_fair servedTrace_kept 6 createdRow List.mem_cons_self
  · have reached := System.reachable_of_run (t := blocking) (system (DISPATCH_CONCURRENCY none)) empty redirected
      ⟨rfl, rfl, rfl⟩ rfl
    have stepped : step (DISPATCH_CONCURRENCY none) blocking (.resume 0 .done) =
        some { idling 0 with webhookDelivery := [createdRow.failed "blocked"] } := rfl
    refine ((deliveries_end _).2.2 blocking _ _ reached stepped (createdRow.failed "blocked") List.mem_cons_self
      rfl).resolve_left ?_
    decide

/-- The worker dies between the row it makes and the answer to its request. -/
def crashed : List Act := served.take 6 ++ [.crash 0]

theorem crashed_stranded : ¬ ∀ concurrency s, (system concurrency).Reachable s → Unstranded s := by
  intro claim
  have reached := System.reachable_of_run (system (DISPATCH_CONCURRENCY none)) empty crashed ⟨rfl, rfl, rfl⟩ rfl
  rcases claim _ _ reached _ List.mem_cons_self rfl with ⟨task, member, delivers⟩ | ⟨later, _, due⟩
  · cases List.mem_singleton.mp member
    cases delivers
  · exact Bool.false_ne_true due

end Octraban.Dispatcher
