import Octraban.Webhooks.Dispatcher

/-! What one step of the dispatcher can do, and what every step keeps. -/
namespace Octraban.Dispatcher
open Transition

/-- The delivery a worker has been given or has made. -/
def Await.holds : Await → Option Nat
  | .cancel id | .reject id _ | .safePost id _ _ | .succeed id _ _ _ | .schedule _ id _ _ _ _ | .block id _ => some id
  | .findDelivery call | .findEvent call _ | .assertSafeUrl call _ | .persist call _ _ => call.deliveryId

/-- The number of the attempt that a worker may still come to schedule the next one of. -/
def Await.attempt : Await → Option Nat
  | .findDelivery call | .findEvent call _ | .assertSafeUrl call _ | .persist call _ _ => some call.attempt
  | .safePost _ attempt _ | .succeed _ attempt _ _ | .schedule _ _ attempt _ _ _ => some attempt
  | .cancel _ | .reject _ _ | .block _ _ => none

def Job.holds : Job → Option Nat
  | .dispatch _ _ => none
  | .retry d _ => some d.id

def Stage.holds (job : Job) : Stage → Option Nat
  | .queued => job.holds
  | .awaiting await => await.holds
  | .settled => none

/-- The row that a `deliverOnce` in progress is for. -/
def Stage.delivers : Stage → Option Nat
  | .awaiting (.cancel _) => none
  | .awaiting await => await.holds
  | _ => none

def Task.holds (task : Task) : Option Nat := task.stage.holds task.job

/-- Everything that executing an awaited call can do. -/
inductive Resumed (s : State) : Await → Answer → State → Stage → Prop where
  | fulfilled {u : Update} : await.update s.now = some u → (∃ row ∈ s.webhookDelivery, row.id = u.id) →
      Resumed s await .done { s with webhookDelivery := u.rows s.webhookDelivery } u.fulfilled
  | refused {u : Update} : await.update s.now = some u → Resumed s await (.refused msg) s (u.rejected msg)
  | lost {u : Update} : await.update s.now = some u →
      Resumed s await (.lost msg) { s with webhookDelivery := u.rows s.webhookDelivery } (u.rejected msg)
  | created {call : Call} : call.deliveryId = none →
      (∃ sub ∈ s.webhookSubscription, sub.id = call.subscriptionId) → Resumed s (.persist call eventId now) .done
      { s with nextId := s.nextId + 1, webhookDelivery := s.webhookDelivery ++ [call.row eventId s.nextId now] }
      (.awaiting (.safePost s.nextId call.attempt s.now))
  | createLost {call : Call} : call.deliveryId = none →
      (∃ sub ∈ s.webhookSubscription, sub.id = call.subscriptionId) → Resumed s (.persist call eventId now) (.lost msg)
      { s with nextId := s.nextId + 1, webhookDelivery := s.webhookDelivery ++ [call.row eventId s.nextId now] } .settled
  | createRefused {call : Call} : call.deliveryId = none →
      Resumed s (.persist call eventId now) (.refused msg) s .settled
  | foundDelivery {call : Call} {row : WebhookDelivery} : row ∈ s.webhookDelivery → call.deliveryId = some row.id →
      Resumed s (.findDelivery call) .done s (.awaiting (.findEvent call (row.eventId.getD "")))
  | noDelivery {call : Call} : (∀ row ∈ s.webhookDelivery, call.deliveryId ≠ some row.id) →
      Resumed s (.findDelivery call) .done s .settled
  | foundEvent : (∃ event ∈ s.event, event.id = eventId) →
      Resumed s (.findEvent call eventId) .done s (.awaiting (.assertSafeUrl call eventId))
  | noEvent : (∀ event ∈ s.event, event.id ≠ eventId) → Resumed s (.findEvent call eventId) .done s .settled
  | unreadDelivery : answer.isFailure = true → Resumed s (.findDelivery call) answer s .settled
  | unreadEvent : answer.isFailure = true → Resumed s (.findEvent call eventId) answer s .settled
  | safe : Resumed s (.assertSafeUrl call eventId) .safe s (.awaiting (.persist call eventId s.now))
  | notSafe {call : Call} : Resumed s (.assertSafeUrl call eventId) (.threw err) s
      (call.deliveryId.elim .settled fun id => .awaiting (.reject id msg))
  | responded {id : Nat} : Dispatcher.responded s.now id attempt answer = some next →
      Resumed s (.safePost id attempt startMs) answer s (.awaiting next)

/-- The calls for a row from the request of its attempt on, and the updates that end it unsent. -/
def Await.isBound : Await → Bool
  | .findDelivery _ | .findEvent _ _ | .assertSafeUrl _ _ | .persist _ _ _ => false
  | _ => true

/-- What a worker goes on to await. -/
inductive Next (s : State) : Await → State → Await → Prop where
  | findEvent {call : Call} {row : WebhookDelivery} : row ∈ s.webhookDelivery → call.deliveryId = some row.id →
      Next s (.findDelivery call) s (.findEvent call (row.eventId.getD ""))
  | assertSafeUrl : (∃ event ∈ s.event, event.id = eventId) →
      Next s (.findEvent call eventId) s (.assertSafeUrl call eventId)
  | persist : Next s (.assertSafeUrl call eventId) s (.persist call eventId s.now)
  | created {call : Call} {t : State} : call.deliveryId = none → t.nextId = s.nextId + 1 →
      Next s (.persist call eventId now) t (.safePost s.nextId call.attempt s.now)
  | bound {await next : Await} {t : State} : next.isBound = true → next.holds = await.holds →
      (∀ attempt, next.attempt = some attempt → await.attempt = some attempt) → Next s await t next

/-- The columns that no update writes. -/
def WebhookDelivery.origin (row : WebhookDelivery) : Nat × Nat × Option String :=
  (row.id, row.subscriptionId, row.eventId)

/-- Steps of the world outside the workers, which may remove rows. -/
structure Outside (s : State) (a : Act) (t : State) : Prop where
  tasks : t.tasks = s.tasks
  nextId : t.nextId = s.nextId
  rows : t.webhookDelivery.Sublist s.webhookDelivery
  subscribed : ∀ row ∈ t.webhookDelivery, ∀ sub ∈ s.webhookSubscription, sub.id = row.subscriptionId →
    ∃ sub ∈ t.webhookSubscription, sub.id = row.subscriptionId
  events : ∀ event ∈ s.event, a ≠ .deleteEvent event.id → event ∈ t.event

/-- Everything one step can do. -/
inductive Stepped (concurrency : Option Int) (s : State) : Act → State → Prop where
  | outside {a : Act} {t : State} : Outside s a t → Stepped concurrency s a t
  | cancelPending {handler id : Nat} : s.handlers[handler]? = some id →
      Stepped concurrency s (.cancelPending handler) (s.cancelPending handler id)
  | dispatchWebhooks : Stepped concurrency s (.dispatchWebhooks event) (dispatchWebhooks s event)
  | retryPendingDeliveries {now : Nat} : now ≤ s.now →
      Stepped concurrency s (.retryPendingDeliveries now) (retryPendingDeliveries s now)
  | start {task : Task} : s.tasks[k]? = some task → task.stage = .queued →
      Stepped concurrency s (.start k) (s.setStage k task task.job.callback)
  | resume {task : Task} : s.tasks[k]? = some task → task.stage = .awaiting await → Resumed s await answer t stage →
      Stepped concurrency s (.resume k answer) (t.setStage k task stage)
  | crash {task : Task} : s.tasks[k]? = some task → task.stage ≠ .settled →
      Stepped concurrency s (.crash k) (s.setStage k task .settled)

variable {concurrency : Option Int} {s t : State} {a : Act} {await : Await} {answer : Answer} {stage : Stage}
  {u : Update} {call : Call} {task : Task} {row : WebhookDelivery} {now k : Nat}

theorem resume_cases (resumed : resume s await answer = some (t, stage)) : Resumed s await answer t stage := by
  unfold resume at resumed
  cases found : await.update s.now with
  | some u =>
    simp only [found, Option.map_eq_some_iff, Prod.mk.injEq, Prod.exists] at resumed
    obtain ⟨rows, _, performed, rfl, rfl⟩ := resumed
    cases answer with
    | done =>
      simp only [Update.perform, Option.ite_none_right_eq_some, Option.some.injEq, Prod.mk.injEq, List.any_eq_true,
        decide_eq_true_eq] at performed
      obtain ⟨present, rfl, rfl⟩ := performed
      exact .fulfilled found present
    | refused msg =>
      simp only [Update.perform, Option.some.injEq, Prod.mk.injEq] at performed
      obtain ⟨rfl, rfl⟩ := performed
      exact .refused found
    | lost msg =>
      simp only [Update.perform, Option.some.injEq, Prod.mk.injEq] at performed
      obtain ⟨rfl, rfl⟩ := performed
      exact .lost found
    | _ => contradiction
  | none =>
    simp only [found] at resumed
    cases await with
    | findDelivery call =>
      cases answer with
      | done =>
        cases read : s.webhookDelivery.find? (fun row => call.deliveryId = some row.id) with
        | some row =>
          simp only [read, Option.some.injEq, Prod.mk.injEq] at resumed
          obtain ⟨rfl, rfl⟩ := resumed
          exact .foundDelivery (List.mem_of_find?_eq_some read) (by simpa using List.find?_some read)
        | none =>
          simp only [read, Option.some.injEq, Prod.mk.injEq] at resumed
          obtain ⟨rfl, rfl⟩ := resumed
          exact .noDelivery (by simpa using read)
      | refused | lost =>
        simp only [Option.some.injEq, Prod.mk.injEq] at resumed
        obtain ⟨rfl, rfl⟩ := resumed
        exact .unreadDelivery rfl
      | _ => contradiction
    | findEvent call eventId =>
      cases answer with
      | done =>
        cases read : s.event.find? (·.id = eventId) with
        | some event =>
          simp only [read, Option.some.injEq, Prod.mk.injEq] at resumed
          obtain ⟨rfl, rfl⟩ := resumed
          exact .foundEvent ⟨event, List.mem_of_find?_eq_some read, by simpa using List.find?_some read⟩
        | none =>
          simp only [read, Option.some.injEq, Prod.mk.injEq] at resumed
          obtain ⟨rfl, rfl⟩ := resumed
          exact .noEvent (by simpa using read)
      | refused | lost =>
        simp only [Option.some.injEq, Prod.mk.injEq] at resumed
        obtain ⟨rfl, rfl⟩ := resumed
        exact .unreadEvent rfl
      | _ => contradiction
    | assertSafeUrl call eventId =>
      cases answer with
      | safe =>
        simp only [Option.some.injEq, Prod.mk.injEq] at resumed
        obtain ⟨rfl, rfl⟩ := resumed
        exact .safe
      | threw err =>
        cases err
        all_goals
          simp only [Option.some.injEq, Prod.mk.injEq] at resumed
          obtain ⟨rfl, rfl⟩ := resumed
          exact .notSafe
      | _ => contradiction
    | persist call eventId now =>
      have fresh : call.deliveryId = none := by simpa [Await.update] using found
      cases answer with
      | done =>
        simp only [State.create, Option.ite_none_right_eq_some, Option.some.injEq, Prod.mk.injEq, List.any_eq_true,
          decide_eq_true_eq] at resumed
        obtain ⟨subscribed, rfl, rfl⟩ := resumed
        exact .created fresh subscribed
      | refused =>
        simp only [State.create, Option.some.injEq, Prod.mk.injEq] at resumed
        obtain ⟨rfl, rfl⟩ := resumed
        exact .createRefused fresh
      | lost =>
        simp only [State.create, Option.ite_none_right_eq_some, Option.some.injEq, Prod.mk.injEq, List.any_eq_true,
          decide_eq_true_eq] at resumed
        obtain ⟨subscribed, rfl, rfl⟩ := resumed
        exact .createLost fresh subscribed
      | _ => contradiction
    | safePost id attempt startMs =>
      simp only [Option.map_eq_some_iff, Prod.mk.injEq] at resumed
      obtain ⟨next, outcome, rfl, rfl⟩ := resumed
      exact .responded outcome
    | schedule caught => cases caught <;> simp [Await.update] at found
    | _ => simp [Await.update] at found

theorem Outside.refl (tasks : t.tasks = s.tasks) (nextId : t.nextId = s.nextId)
    (rows : t.webhookDelivery = s.webhookDelivery)
    (subs : s.webhookSubscription.map WebhookSubscription.id ⊆ t.webhookSubscription.map WebhookSubscription.id)
    (events : ∀ event ∈ s.event, a ≠ .deleteEvent event.id → event ∈ t.event) : Outside s a t := by
  refine ⟨tasks, nextId, rows ▸ List.Sublist.refl _, fun row _ sub member same => ?_, events⟩
  obtain ⟨kept, present, identified⟩ := List.mem_map.mp (subs (List.mem_map_of_mem member))
  exact ⟨kept, present, identified.trans same⟩

theorem start_cases (stepped : step concurrency s (.start k) = some t) :
    ∃ task, s.tasks[k]? = some task ∧ task.stage = .queued ∧ t = s.setStage k task task.job.callback := by
  obtain ⟨task, found, taken⟩ := Option.bind_eq_some_iff.mp stepped
  simp only [Option.ite_none_right_eq_some, Option.some.injEq] at taken
  obtain ⟨next, rfl⟩ := taken
  simp only [State.isNext, Bool.and_eq_true, decide_eq_true_eq] at next
  exact ⟨task, found, next.1.1, rfl⟩

theorem step_cases (stepped : step concurrency s a = some t) : Stepped concurrency s a t := by
  cases a with
  | elapse =>
    cases stepped
    exact .outside (.refl rfl rfl rfl (List.Subset.refl _) fun _ member _ => member)
  | ingest event =>
    cases stepped
    exact .outside (.refl rfl rfl rfl (List.Subset.refl _) fun _ member _ => List.mem_append_left _ member)
  | deleteEvent id =>
    cases stepped
    refine .outside (.refl rfl rfl rfl (List.Subset.refl _) fun event member other => ?_)
    refine List.mem_filter.mpr ⟨member, decide_eq_true fun same => other ?_⟩
    rw [same]
  | subscribe sub =>
    simp only [step, Option.ite_none_left_eq_some, Option.some.injEq] at stepped
    obtain ⟨_, rfl⟩ := stepped
    exact .outside (.refl rfl rfl rfl (List.map_subset _ (List.subset_append_left _ _)) fun _ member _ => member)
  | patch id active =>
    simp only [step, Option.ite_none_right_eq_some, Option.some.injEq] at stepped
    obtain ⟨_, rfl⟩ := stepped
    have same : (s.patch id active).webhookSubscription.map WebhookSubscription.id =
        s.webhookSubscription.map WebhookSubscription.id := by
      simp only [State.patch, List.map_map]
      refine List.map_congr_left fun sub _ => ?_
      simp only [Function.comp_apply]
      split <;> rfl
    exact .outside (.refl rfl rfl rfl (same ▸ List.Subset.refl _) fun _ member _ => member)
  | cancelPending handler =>
    obtain ⟨id, handled, rfl⟩ := Option.map_eq_some_iff.mp stepped
    exact .cancelPending handled
  | unsubscribe id =>
    cases stepped
    refine .outside ⟨rfl, rfl, List.filter_sublist, fun row member sub present same => ⟨sub, ?_, same⟩,
      fun _ member _ => member⟩
    have other := (List.mem_filter.mp member).2
    exact List.mem_filter.mpr ⟨present, by rwa [same]⟩
  | cleanupExpiredWebhookDeliveries now =>
    simp only [step, Option.ite_none_right_eq_some, Option.some.injEq] at stepped
    obtain ⟨_, rfl⟩ := stepped
    exact .outside ⟨rfl, rfl, List.filter_sublist, fun _ _ sub present same => ⟨sub, present, same⟩,
      fun _ member _ => member⟩
  | dispatchWebhooks event =>
    cases stepped
    exact .dispatchWebhooks
  | retryPendingDeliveries now =>
    simp only [step, Option.ite_none_right_eq_some, Option.some.injEq] at stepped
    obtain ⟨past, rfl⟩ := stepped
    exact .retryPendingDeliveries past
  | start k =>
    obtain ⟨task, found, queued, rfl⟩ := start_cases stepped
    exact .start found queued
  | resume k answer =>
    obtain ⟨task, found, taken⟩ := Option.bind_eq_some_iff.mp stepped
    cases stage : task.stage with
    | awaiting await =>
      simp only [stage, Option.map_eq_some_iff, Prod.exists] at taken
      obtain ⟨next, reached, resumed, rfl⟩ := taken
      exact .resume found stage (resume_cases resumed)
    | _ => simp [stage] at taken
  | crash k =>
    obtain ⟨task, found, taken⟩ := Option.bind_eq_some_iff.mp stepped
    simp only [Option.ite_none_left_eq_some, Option.some.injEq] at taken
    obtain ⟨live, rfl⟩ := taken
    exact .crash found live

variable {rows : List WebhookDelivery} {old : Task} {id : Nat}

theorem mem_cancelPending {handler : Nat} (member : row ∈ (s.cancelPending handler id).webhookDelivery) :
    row ∈ s.webhookDelivery ∨ ∃ old ∈ s.webhookDelivery, old.subscriptionId = id ∧
      row = { old.cancelled with nextRetryAt := none } := by
  obtain ⟨old, source, rfl⟩ := List.mem_map.mp member
  split
  · rename_i chosen
    exact .inr ⟨old, source, chosen.1, rfl⟩
  · exact .inl source

theorem map_ids {f : WebhookDelivery → WebhookDelivery} (kept : ∀ row, (f row).id = row.id)
    (rows : List WebhookDelivery) : (rows.map f).map WebhookDelivery.id = rows.map WebhookDelivery.id := by
  rw [List.map_map]
  exact List.map_congr_left fun row _ => kept row

theorem cancelPending_ids (s : State) (handler id : Nat) :
    (s.cancelPending handler id).webhookDelivery.map WebhookDelivery.id =
      s.webhookDelivery.map WebhookDelivery.id := by
  refine map_ids (fun row => ?_) _
  split <;> rfl

theorem mem_claim (member : row ∈ (claim now rows).1) : row ∈ rows ∨
    ∃ old ∈ rows, row = old.claimed now ∧ ∃ due ∈ rows, isDue now due = true ∧ due.id = old.id := by
  obtain ⟨old, present, rfl⟩ := List.mem_map.mp member
  split
  · rename_i taken
    simp only [Bool.and_eq_true, List.contains_eq_mem, decide_eq_true_eq] at taken
    obtain ⟨due, found, same⟩ := List.mem_map.mp taken.1
    obtain ⟨there, isDue⟩ := List.mem_filter.mp found
    exact .inr ⟨old, present, rfl, due, there, isDue, same⟩
  · exact .inl present

theorem claim_ids (now : Nat) (rows : List WebhookDelivery) :
    (claim now rows).1.map WebhookDelivery.id = rows.map WebhookDelivery.id := by
  refine map_ids (fun row => ?_) rows
  split <;> rfl

/-- Among rows with ids of their own, those returned are those that were due. -/
theorem mem_claimed (distinct : (rows.map WebhookDelivery.id).Nodup) (member : row ∈ (claim now rows).2) :
    ∃ old ∈ rows, isDue now old = true ∧ row = old.claimed now := by
  obtain ⟨updated, returned⟩ := List.mem_filter.mp member
  simp only [Bool.and_eq_true, List.contains_eq_mem, decide_eq_true_eq] at returned
  obtain ⟨due, found, same⟩ := List.mem_map.mp returned.1.1
  obtain ⟨present, isDue⟩ := List.mem_filter.mp found
  obtain ⟨old, source, rfl⟩ := List.mem_map.mp updated
  have kept : old.id = due.id := by
    rw [same]
    split <;> rfl
  cases List.inj_on_of_nodup_map distinct source present kept
  refine ⟨due, present, isDue, if_pos ?_⟩
  rw [Bool.and_eq_true, List.contains_eq_mem, decide_eq_true_eq]
  exact ⟨List.mem_map_of_mem found, (Bool.and_eq_true_iff.mp isDue).2⟩

theorem claim_complete (present : row ∈ rows) (due : isDue now row = true) : row.claimed now ∈ (claim now rows).2 := by
  have chosen : row.id ∈ (rows.filter (isDue now)).map WebhookDelivery.id :=
    List.mem_map_of_mem (List.mem_filter.mpr ⟨present, due⟩)
  have free : isFree now row = true := (Bool.and_eq_true_iff.mp due).2
  refine List.mem_filter.mpr ⟨List.mem_map.mpr ⟨row, present, if_pos ?_⟩, ?_⟩
  · simp only [Bool.and_eq_true, List.contains_eq_mem, decide_eq_true_eq]
    exact ⟨chosen, free⟩
  · simp only [Bool.and_eq_true, List.contains_eq_mem, decide_eq_true_eq]
    exact ⟨⟨chosen, rfl⟩, rfl⟩

theorem mem_runWithConcurrency {items : List Job} (member : task ∈ (s.runWithConcurrency items).tasks) :
    task ∈ s.tasks ∨ ∃ item ∈ items, task = ⟨s.runs, item, .queued⟩ := by
  rcases List.mem_append.mp member with old | new
  · exact .inl old
  · obtain ⟨item, present, rfl⟩ := List.mem_map.mp new
    exact .inr ⟨item, present, rfl⟩

theorem mem_update_rows (member : row ∈ u.rows s.webhookDelivery) : ∃ old ∈ s.webhookDelivery,
    (old.id = u.id ∧ row = u.data old) ∨ (old.id ≠ u.id ∧ row = old) := by
  obtain ⟨old, present, rfl⟩ := List.mem_map.mp member
  refine ⟨old, present, ?_⟩
  split
  · rename_i same
    exact .inl ⟨same, rfl⟩
  · rename_i other
    exact .inr ⟨other, rfl⟩

theorem scheduleRetryOrFail_origin (now attempt : Nat) (msg : String) (httpStatus : Option Nat)
    (row : WebhookDelivery) : (scheduleRetryOrFail now attempt msg httpStatus row).origin = row.origin := by
  simp only [scheduleRetryOrFail]
  split <;> rfl

theorem update_origin (found : await.update now = some u) (row : WebhookDelivery) :
    (u.data row).origin = row.origin := by
  cases await with
  | cancel | reject | block | succeed =>
    cases found
    rfl
  | persist call =>
    obtain ⟨id, _, rfl⟩ := Option.map_eq_some_iff.mp found
    rfl
  | schedule caught =>
    cases caught
    all_goals
      cases found
      exact scheduleRetryOrFail_origin _ _ _ _ _
  | _ => cases found

theorem update_id (found : await.update now = some u) (row : WebhookDelivery) : (u.data row).id = row.id :=
  congrArg Prod.fst (update_origin found row)

theorem update_holds (found : await.update now = some u) : await.holds = some u.id := by
  cases await with
  | cancel | reject | block | succeed =>
    cases found
    rfl
  | persist call =>
    obtain ⟨id, held, rfl⟩ := Option.map_eq_some_iff.mp found
    exact held
  | schedule caught =>
    cases caught
    all_goals
      cases found
      rfl
  | _ => cases found

theorem update_ids (found : await.update now = some u) (rows : List WebhookDelivery) :
    (u.rows rows).map WebhookDelivery.id = rows.map WebhookDelivery.id := by
  refine map_ids (fun row => ?_) rows
  split
  · exact update_id found row
  · rfl

/-- A row after a worker's call is as it was, or the worker's own update of it, or new. -/
theorem Resumed.row_cases (resumed : Resumed s await answer t stage) (present : row ∈ t.webhookDelivery) :
    row ∈ s.webhookDelivery ∨
    (∃ u, await.update s.now = some u ∧ ∃ old ∈ s.webhookDelivery, old.id = u.id ∧ row = u.data old) ∨
    ∃ call eventId now, await = .persist call eventId now ∧ call.deliveryId = none ∧
      row = call.row eventId s.nextId now ∧ ∃ sub ∈ s.webhookSubscription, sub.id = call.subscriptionId := by
  cases resumed with
  | fulfilled updates | lost updates =>
    obtain ⟨old, source, ⟨same, rfl⟩ | ⟨_, rfl⟩⟩ := mem_update_rows present
    · exact .inr (.inl ⟨_, updates, old, source, same, rfl⟩)
    · exact .inl source
  | created fresh subscribed | createLost fresh subscribed =>
    rcases List.mem_append.mp present with old | new
    · exact .inl old
    · exact .inr (.inr ⟨_, _, _, rfl, fresh, List.mem_singleton.mp new, subscribed⟩)
  | _ => exact .inl present

theorem Resumed.tasks (resumed : Resumed s await answer t stage) : t.tasks = s.tasks := by
  cases resumed <;> rfl

theorem Resumed.ids (resumed : Resumed s await answer t stage) :
    (t.nextId = s.nextId ∧
      t.webhookDelivery.map WebhookDelivery.id = s.webhookDelivery.map WebhookDelivery.id) ∨
    t.nextId = s.nextId + 1 ∧
      t.webhookDelivery.map WebhookDelivery.id = s.webhookDelivery.map WebhookDelivery.id ++ [s.nextId] := by
  cases resumed with
  | fulfilled updates | lost updates => exact .inl ⟨rfl, update_ids updates _⟩
  | created | createLost => exact .inr ⟨rfl, List.map_append⟩
  | _ => exact .inl ⟨rfl, rfl⟩

/-- An update ends its worker, or begins an attempt, or fails in the try block. -/
theorem update_stages (updates : await.update now = some u) :
    (u.fulfilled = .settled ∨ ∃ attempt, u.fulfilled = .awaiting (.safePost u.id attempt now) ∧
      await.attempt = some attempt) ∧
    ∀ msg, u.rejected msg = .settled ∨ ∃ attempt,
      u.rejected msg = .awaiting (.schedule true u.id attempt msg none now) ∧ await.attempt = some attempt := by
  cases await with
  | cancel | reject | block =>
    cases updates
    exact ⟨.inl rfl, fun _ => .inl rfl⟩
  | succeed =>
    cases updates
    exact ⟨.inl rfl, fun _ => .inr ⟨_, rfl, rfl⟩⟩
  | persist call =>
    obtain ⟨id, _, rfl⟩ := Option.map_eq_some_iff.mp updates
    exact ⟨.inr ⟨_, rfl, rfl⟩, fun _ => .inl rfl⟩
  | schedule caught =>
    cases caught
    · cases updates
      exact ⟨.inl rfl, fun _ => .inr ⟨_, rfl, rfl⟩⟩
    · cases updates
      exact ⟨.inl rfl, fun _ => .inl rfl⟩
  | _ => cases updates

theorem responded_cases {attempt : Nat} {next : Await} (outcome : responded now id attempt answer = some next) :
    (∃ status issued, next = .succeed id attempt status issued) ∨
    (∃ caught msg status issued, next = .schedule caught id attempt msg status issued) ∨
    ∃ msg, next = .block id msg := by
  cases answer with
  | responded status =>
    simp only [responded] at outcome
    split at outcome
    · cases outcome
      exact .inl ⟨_, _, rfl⟩
    · cases outcome
      exact .inr (.inl ⟨_, _, _, _, rfl⟩)
  | threw err =>
    cases err with
    | SsrfBlockedError =>
      cases outcome
      exact .inr (.inr ⟨_, rfl⟩)
    | other =>
      cases outcome
      exact .inr (.inl ⟨_, _, _, _, rfl⟩)
  | _ => cases outcome

theorem Resumed.next_cases (resumed : Resumed s await answer t stage) :
    stage = .settled ∨ ∃ next, stage = .awaiting next ∧ Next s await t next := by
  cases resumed with
  | fulfilled updates =>
    rcases (update_stages updates).1 with ended | ⟨_, goesOn, counts⟩
    · exact .inl ended
    · exact .inr ⟨_, goesOn, .bound rfl (update_holds updates).symm fun _ same => counts.trans same⟩
  | refused updates | lost updates =>
    rcases (update_stages updates).2 _ with ended | ⟨_, goesOn, counts⟩
    · exact .inl ended
    · exact .inr ⟨_, goesOn, .bound rfl (update_holds updates).symm fun _ same => counts.trans same⟩
  | created fresh => exact .inr ⟨_, rfl, .created fresh rfl⟩
  | foundDelivery present held => exact .inr ⟨_, rfl, .findEvent present held⟩
  | foundEvent found => exact .inr ⟨_, rfl, .assertSafeUrl found⟩
  | safe => exact .inr ⟨_, rfl, .persist⟩
  | notSafe =>
    rename_i call
    cases held : call.deliveryId with
    | none => exact .inl rfl
    | some id => exact .inr ⟨_, rfl, .bound rfl held.symm fun _ same => (by cases same)⟩
  | responded outcome =>
    refine .inr ⟨_, rfl, ?_⟩
    rcases responded_cases outcome with ⟨_, _, rfl⟩ | ⟨_, _, _, _, rfl⟩ | ⟨_, rfl⟩
    · exact .bound rfl rfl fun _ same => same
    · exact .bound rfl rfl fun _ same => same
    · exact .bound rfl rfl fun _ same => (by cases same)
  | _ => exact .inl rfl

/-- A worker keeps its row, or lets go of it, or has made one. -/
theorem Resumed.holds (resumed : Resumed s await answer t stage) (job : Job) :
    stage.holds job = none ∨ stage.holds job = await.holds ∨
      stage.holds job = some s.nextId ∧ t.nextId = s.nextId + 1 := by
  rcases resumed.next_cases with rfl | ⟨next, rfl, follows⟩
  · exact .inl rfl
  · cases follows with
    | findEvent | assertSafeUrl | persist => exact .inr (.inl rfl)
    | created _ more => exact .inr (.inr ⟨rfl, more⟩)
    | bound _ own => exact .inr (.inl own)

theorem Stage.holds_of_delivers (job : Job) (delivers : stage.delivers = some id) : stage.holds job = some id := by
  cases stage with
  | awaiting await => cases await <;> first | exact delivers | cases delivers
  | _ => cases delivers

theorem callback_holds (job : Job) : job.callback.holds job = job.holds := by
  cases job with
  | dispatch => rfl
  | retry d subscription =>
    simp only [Job.callback]
    split <;> rfl

theorem mem_setStage (member : task ∈ (s.setStage k old stage).tasks) :
    task ∈ s.tasks ∨ task = { old with stage := stage } :=
  List.mem_or_eq_of_mem_set member

/-- Deliveries have ids of their own, never given again, and a subscription. -/
structure Known (s : State) : Prop where
  distinct : (s.webhookDelivery.map WebhookDelivery.id).Nodup
  rows : ∀ id ∈ s.webhookDelivery.map WebhookDelivery.id, id < s.nextId
  tasks : ∀ task ∈ s.tasks, ∀ id, task.holds = some id → id < s.nextId
  subscribed : ∀ row ∈ s.webhookDelivery, ∃ sub ∈ s.webhookSubscription, sub.id = row.subscriptionId

theorem Known.same {other : WebhookDelivery} (known : Known s) (first : row ∈ s.webhookDelivery)
    (second : other ∈ s.webhookDelivery) (same : row.id = other.id) : row = other :=
  List.inj_on_of_nodup_map known.distinct first second same

theorem subscribed_of_origin {old : WebhookDelivery} (same : old.origin = row.origin)
    (subscribed : ∃ sub ∈ s.webhookSubscription, sub.id = old.subscriptionId) :
    ∃ sub ∈ s.webhookSubscription, sub.id = row.subscriptionId := by
  have kept : old.subscriptionId = row.subscriptionId := congrArg (·.2.1) same
  rwa [← kept]

theorem pending_of_isDue (due : isDue now row = true) : row.status = .pending ∧ row.nextRetryAt ≠ none := by
  simp only [isDue, Bool.and_eq_true, decide_eq_true_eq] at due
  refine ⟨due.1.1, fun unset => ?_⟩
  rw [unset] at due
  cases due.1.2

/-- The jobs of a claim are the rows that were due, which no worker has. -/
theorem mem_jobs {item : Job} (known : Known s) (chosen : item ∈ (claim now s.webhookDelivery).2.filterMap fun d =>
      (s.webhookSubscription.find? fun sub => sub.id = d.subscriptionId).map fun sub => Job.retry d sub) :
    ∃ old ∈ s.webhookDelivery, isDue now old = true ∧ ∃ subscription, item = .retry (old.claimed now) subscription := by
  obtain ⟨d, returned, isJob⟩ := List.mem_filterMap.mp chosen
  obtain ⟨subscription, _, rfl⟩ := Option.map_eq_some_iff.mp isJob
  obtain ⟨old, source, due, rfl⟩ := mem_claimed known.distinct returned
  exact ⟨old, source, due, subscription, rfl⟩

theorem Known.outside (known : Known s) (moved : Outside s a t) : Known t := by
  obtain ⟨distinct, rows, tasks, subscribed⟩ := known
  refine ⟨(moved.rows.map _).nodup distinct, ?_, ?_, fun row member => ?_⟩
  · rw [moved.nextId]
    exact fun id member => rows id ((moved.rows.map _).subset member)
  · rw [moved.tasks, moved.nextId]
    exact tasks
  · obtain ⟨sub, present, same⟩ := subscribed row (moved.rows.subset member)
    exact moved.subscribed row member sub present same

theorem Known.cancelPending (known : Known s) (handler id : Nat) : Known (s.cancelPending handler id) := by
  obtain ⟨distinct, rows, tasks, subscribed⟩ := known
  refine ⟨?_, ?_, tasks, fun row member => ?_⟩
  · rwa [cancelPending_ids]
  · rwa [cancelPending_ids]
  · rcases mem_cancelPending member with old | ⟨old, source, _, rfl⟩
    · exact subscribed row old
    · exact subscribed old source

theorem Known.resume (known : Known s) (found : s.tasks[k]? = some task) (at_ : task.stage = .awaiting await)
    (resumed : Resumed s await answer t stage) : Known (t.setStage k task stage) := by
  obtain ⟨distinct, rows, tasks, subscribed⟩ := known
  have grows : s.nextId ≤ t.nextId := by
    rcases resumed.ids with ⟨same, _⟩ | ⟨next, _⟩ <;> omega
  have fresh : s.nextId ∉ s.webhookDelivery.map WebhookDelivery.id :=
    fun member => Nat.lt_irrefl _ (rows _ member)
  refine ⟨?_, ?_, fun other member id held => ?_, fun row present => ?_⟩
  · simp only [State.setStage]
    rcases resumed.ids with ⟨_, same⟩ | ⟨_, next⟩
    · rwa [same]
    · rw [next]
      exact List.nodup_append.mpr ⟨distinct, List.nodup_singleton _, fun id old _ new same =>
        fresh (List.mem_singleton.mp new ▸ same ▸ old)⟩
  · simp only [State.setStage]
    rcases resumed.ids with ⟨same, kept⟩ | ⟨next, more⟩
    · rwa [same, kept]
    · rw [next, more]
      intro id member
      rcases List.mem_append.mp member with old | new
      · exact Nat.lt_succ_of_lt (rows id old)
      · rw [List.mem_singleton.mp new]
        exact Nat.lt_succ_self _
  · rcases mem_setStage member with old | rfl
    · rw [resumed.tasks] at old
      exact Nat.lt_of_lt_of_le (tasks other old id held) grows
    · rcases resumed.holds task.job with gone | kept | ⟨made, next⟩
      · cases gone.symm.trans held
      · have before : task.holds = some id := by rw [Task.holds, at_, ← held, Task.holds, kept]; rfl
        exact Nat.lt_of_lt_of_le (tasks task (List.mem_of_getElem? found) id before) grows
      · cases made.symm.trans held
        rw [State.setStage, next]
        exact Nat.lt_succ_self _
  · have same : t.webhookSubscription = s.webhookSubscription := by cases resumed <;> rfl
    simp only [State.setStage, same]
    rcases resumed.row_cases present with old | ⟨u, updates, old, source, _, rfl⟩ | ⟨_, _, _, _, _, rfl, made⟩
    · exact subscribed row old
    · exact subscribed_of_origin (update_origin updates old).symm (subscribed old source)
    · exact made

theorem Known.step (known : Known s) (stepped : step concurrency s a = some t) : Known t := by
  obtain ⟨distinct, rows, tasks, subscribed⟩ := id known
  cases step_cases stepped with
  | outside moved => exact known.outside moved
  | cancelPending => exact known.cancelPending _ _
  | dispatchWebhooks =>
    refine ⟨distinct, rows, fun task member id held => ?_, subscribed⟩
    rcases mem_runWithConcurrency member with old | ⟨item, chosen, rfl⟩
    · exact tasks task old id held
    · obtain ⟨sub, _, rfl⟩ := List.mem_map.mp chosen
      cases held
  | retryPendingDeliveries =>
    refine ⟨?_, ?_, fun task member id held => ?_, fun row present => ?_⟩
    · exact (claim_ids _ _).symm ▸ distinct
    · exact (claim_ids _ _).symm ▸ rows
    · rcases mem_runWithConcurrency member with old | ⟨item, chosen, rfl⟩
      · exact tasks task old id held
      · obtain ⟨d, returned, isJob⟩ := List.mem_filterMap.mp chosen
        obtain ⟨sub, _, rfl⟩ := Option.map_eq_some_iff.mp isJob
        obtain ⟨old, source, _, rfl⟩ := mem_claimed distinct returned
        cases held
        exact rows old.id (List.mem_map_of_mem source)
    · rcases mem_claim present with old | ⟨old, source, rfl, _⟩
      · exact subscribed row old
      · exact subscribed old source
  | start found queued =>
    refine ⟨distinct, rows, fun other member id held => ?_, subscribed⟩
    rcases mem_setStage member with old | rfl
    · exact tasks other old id held
    · refine tasks _ (List.mem_of_getElem? found) id ?_
      rw [Task.holds, queued]
      exact (callback_holds _).symm.trans held
  | resume found at_ resumed => exact known.resume found at_ resumed
  | crash found live =>
    refine ⟨distinct, rows, fun other member id held => ?_, subscribed⟩
    rcases mem_setStage member with old | rfl
    · exact tasks other old id held
    · cases held

theorem known_of_initial (start : (system concurrency).initial s) : Known s := by
  obtain ⟨empty, idle, _⟩ := start
  constructor
  · rw [empty]
    exact List.nodup_nil
  all_goals simp [empty, idle]

end Octraban.Dispatcher
