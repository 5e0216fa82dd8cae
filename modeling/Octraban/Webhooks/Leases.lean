import Octraban.Webhooks.Workers

/-! Two workers never have one delivery, as long as every lease outlives the part of the work it
stands for: the wait in the pool's queue and all that comes before the attempt is recorded. -/
namespace Octraban.Dispatcher
open Transition

/-- `deliverOnce` never runs twice at once for a row, nor begins for one that has ended. -/
structure Undisturbed (concurrency : Option Int) (s : State) : Prop where
  alone : s.tasks.Pairwise fun first second => ∀ id, first.stage.delivers = some id → second.stage.delivers ≠ some id
  unmarked : ∀ k t task id, step concurrency s (.start k) = some t → t.tasks[k]? = some task →
    task.stage.delivers = some id → ∀ row ∈ s.webhookDelivery, row.id = id → row.status = .pending

/-- An HTTP attempt takes at most `REQUEST_TIMEOUT_MS` on each of its hops. -/
def Timely (s : State) : Act → Prop
  | .elapse ms => ∀ task ∈ s.tasks, ∀ id attempt startMs, task.stage = .awaiting (.safePost id attempt startMs) →
      s.now + ms ≤ startMs + (SsrfGuard.MAX_REDIRECTS + 1) * REQUEST_TIMEOUT_MS
  | _ => True

/-- No lease has run out on a live worker when the retry query asks, no delivery is cancelled in
the queue, and the update that ends an attempt, called in the try block, is not called a second
time for the loss of its answer. -/
def Unexpired (s : State) : Act → Prop
  | .retryPendingDeliveries now => ∀ task ∈ s.tasks, ∀ row ∈ s.webhookDelivery, task.holds = some row.id →
      row.processingStatus = .processing → isDue now row = false
  | .cancelPending handler => ∀ id ∈ s.handlers[handler]?, ∀ task ∈ s.tasks, task.stage = .queued →
      ∀ d subscription, task.job = .retry d subscription → subscription.active = true → d.subscriptionId ≠ id
  | .resume k (.lost _) => ∀ task ∈ s.tasks[k]?, ∀ id attempt errorMsg httpStatus now,
      task.stage ≠ .awaiting (.schedule false id attempt errorMsg httpStatus now)
  | _ => True

/-- Each row is with one worker at most. While it is, the retry query can only find it through its
lease, and while its worker is queued it is pending. -/
structure Exclusive (s : State) : Prop where
  known : Known s
  apart : s.tasks.Pairwise fun first second => ∀ id, first.holds = some id → second.holds ≠ some id
  leased : ∀ task ∈ s.tasks, ∀ row ∈ s.webhookDelivery, task.holds = some row.id → row.status = .pending →
    row.nextRetryAt ≠ none → row.processingStatus = .processing
  queued : ∀ task ∈ s.tasks, task.stage = .queued → ∀ d subscription, task.job = .retry d subscription →
    subscription.active = true → ∀ row ∈ s.webhookDelivery, row.id = d.id →
      row.status = .pending ∧ row.subscriptionId = d.subscriptionId

variable {concurrency : Option Int} {s t : State} {a : Act} {await : Await} {answer : Answer} {stage : Stage}
  {u : Update} {task : Task} {row : WebhookDelivery} {now k id : Nat} {msg : String}

/-- The other workers have other rows. -/
theorem Exclusive.other {other : Task} {j : Nat} (exclusive : Exclusive s) (found : s.tasks[k]? = some task)
    (at_ : s.tasks[j]? = some other) (different : j ≠ k) (held : task.holds = some id) : other.holds ≠ some id := by
  intro same
  obtain ⟨inside, rfl⟩ := List.getElem?_eq_some_iff.mp found
  obtain ⟨within, rfl⟩ := List.getElem?_eq_some_iff.mp at_
  rcases Nat.lt_or_gt_of_ne different with before | after
  · exact List.pairwise_iff_getElem.mp exclusive.apart j k within inside before id same held
  · exact List.pairwise_iff_getElem.mp exclusive.apart k j inside within after id held same

theorem Exclusive.outside (exclusive : Exclusive s) (moved : Outside s a t) : Exclusive t := by
  obtain ⟨known, apart, leased, queued⟩ := exclusive
  refine ⟨known.outside moved, ?_, ?_, ?_⟩
  · rwa [moved.tasks]
  · rw [moved.tasks]
    exact fun task member row present => leased task member row (moved.rows.subset present)
  · rw [moved.tasks]
    exact fun task member waits d subscription isRetry active row present =>
      queued task member waits d subscription isRetry active row (moved.rows.subset present)

theorem Exclusive.cancelPending {handler : Nat} (exclusive : Exclusive s) (handled : s.handlers[handler]? = some id)
    (unexpired : Unexpired s (.cancelPending handler)) : Exclusive (s.cancelPending handler id) := by
  obtain ⟨known, apart, leased, queued⟩ := exclusive
  refine ⟨known.cancelPending _ _, apart, fun task member row present held => ?_,
    fun task member waits d subscription isRetry active row present same => ?_⟩
  · rcases mem_cancelPending present with old | ⟨old, _, _, rfl⟩
    · exact leased task member row old held
    · intro pending
      cases pending
  · rcases mem_cancelPending present with old | ⟨old, source, subscribed, rfl⟩
    · exact queued task member waits d subscription isRetry active row old same
    · have before := (queued task member waits d subscription isRetry active old source same).2
      exact absurd (before.symm.trans subscribed) (unexpired id handled task member waits d subscription isRetry active)

theorem apart_runWithConcurrency {items : List Job}
    (apart : s.tasks.Pairwise fun first second => ∀ id, first.holds = some id → second.holds ≠ some id)
    (new : items.Pairwise fun first second => ∀ id, first.holds = some id → second.holds ≠ some id)
    (free : ∀ task ∈ s.tasks, ∀ item ∈ items, ∀ id, task.holds = some id → item.holds ≠ some id) :
    (s.runWithConcurrency items).tasks.Pairwise fun first second => ∀ id, first.holds = some id →
      second.holds ≠ some id := by
  refine List.pairwise_append.mpr ⟨apart, List.pairwise_map.mpr new, fun task old other added id held => ?_⟩
  obtain ⟨item, chosen, rfl⟩ := List.mem_map.mp added
  exact free task old item chosen id held

theorem Exclusive.dispatchWebhooks (exclusive : Exclusive s) (event : WebhookPayload)
    (known : Known (dispatchWebhooks s event)) : Exclusive (dispatchWebhooks s event) := by
  obtain ⟨_, apart, leased, queued⟩ := exclusive
  refine ⟨known, apart_runWithConcurrency apart (List.pairwise_map.mpr (List.pairwise_of_forall ?_)) ?_, ?_, ?_⟩
  · intro _ _ id held
    cases held
  · intro task _ item chosen id _ held
    obtain ⟨sub, _, rfl⟩ := List.mem_map.mp chosen
    cases held
  · intro task member row present held
    rcases mem_runWithConcurrency member with old | ⟨item, chosen, rfl⟩
    · exact leased task old row present held
    · obtain ⟨sub, _, rfl⟩ := List.mem_map.mp chosen
      cases held
  · intro task member waits d subscription isRetry
    rcases mem_runWithConcurrency member with old | ⟨item, chosen, rfl⟩
    · exact queued task old waits d subscription isRetry
    · obtain ⟨sub, _, rfl⟩ := List.mem_map.mp chosen
      cases isRetry

theorem Exclusive.unheld (exclusive : Exclusive s) (unexpired : Unexpired s (.retryPendingDeliveries now))
    (present : row ∈ s.webhookDelivery) (due : isDue now row = true) (member : task ∈ s.tasks) :
    task.holds ≠ some row.id := by
  intro held
  obtain ⟨pending, set⟩ := pending_of_isDue due
  have processing := exclusive.leased task member row present held pending set
  rw [unexpired task member row present held processing] at due
  cases due

theorem Exclusive.retryPendingDeliveries (exclusive : Exclusive s)
    (unexpired : Unexpired s (.retryPendingDeliveries now)) (known : Known (retryPendingDeliveries s now)) :
    Exclusive (retryPendingDeliveries s now) := by
  obtain ⟨before, apart, leased, queued⟩ := id exclusive
  have own {old row : WebhookDelivery} (source : old ∈ s.webhookDelivery) (due : isDue now old = true)
      (present : row ∈ (claim now s.webhookDelivery).1) (same : row.id = old.id) : row = old.claimed now :=
    known.same present (List.mem_filter.mp (claim_complete source due)).1 same
  refine ⟨known, apart_runWithConcurrency apart ?_ ?_, ?_, ?_⟩
  · refine List.pairwise_filterMap.mpr ?_
    have distinct : ((claim now s.webhookDelivery).2).Pairwise fun d other => d.id ≠ other.id := by
      have ids := before.distinct
      rw [← claim_ids now] at ids
      exact (List.pairwise_map.mp ids).sublist List.filter_sublist
    refine distinct.imp fun {d other} different first isFirst second isSecond id held => ?_
    obtain ⟨_, _, rfl⟩ := Option.map_eq_some_iff.mp isFirst
    obtain ⟨_, _, rfl⟩ := Option.map_eq_some_iff.mp isSecond
    cases held
    exact fun same => different (Option.some.inj same).symm
  · intro task member item chosen id held
    obtain ⟨old, source, due, subscription, rfl⟩ := mem_jobs before chosen
    rintro ⟨⟩
    exact exclusive.unheld unexpired source due member held
  · intro task member row present held pending set
    rcases mem_runWithConcurrency member with waiting | ⟨item, chosen, rfl⟩
    · rcases mem_claim present with kept | ⟨old, source, rfl, _⟩
      · exact leased task waiting row kept held pending set
      · rfl
    · obtain ⟨old, source, due, subscription, rfl⟩ := mem_jobs before chosen
      rw [own source due present (Option.some.inj held).symm]
      rfl
  · intro task member waits d subscription isRetry active row present same
    rcases mem_runWithConcurrency member with waiting | ⟨item, chosen, rfl⟩
    · rcases mem_claim present with kept | ⟨old, source, rfl, _⟩
      · exact queued task waiting waits d subscription isRetry active row kept same
      · exact queued task waiting waits d subscription isRetry active old source same
    · obtain ⟨old, source, due, _, rfl⟩ := mem_jobs before chosen
      cases isRetry
      rw [own source due present same]
      exact ⟨(pending_of_isDue due).1, rfl⟩

/-- A worker that goes on with its own row, or one just made, or none. -/
theorem Exclusive.setStage (exclusive : Exclusive s) (found : s.tasks[k]? = some task) (known : Known t)
    (tasks : t.tasks = s.tasks.set k { task with stage := stage })
    (holds : stage.holds task.job = none ∨ stage.holds task.job = task.holds ∨ stage.holds task.job = some s.nextId)
    (notQueued : stage ≠ .queued)
    (rows : ∀ row ∈ t.webhookDelivery, row ∈ s.webhookDelivery ∨ task.holds = some row.id ∨ row.id = s.nextId)
    (leased : ∀ row ∈ t.webhookDelivery, stage.holds task.job = some row.id → row.status = .pending →
      row.nextRetryAt ≠ none → row.processingStatus = .processing) : Exclusive t := by
  obtain ⟨before, apart, leasedBefore, queued⟩ := id exclusive
  have fresh {other : Task} (member : other ∈ s.tasks) : other.holds ≠ some s.nextId :=
    fun held => Nat.lt_irrefl _ (before.tasks other member _ held)
  have elsewhere {other : Task} {j id : Nat} (different : j ≠ k) (at_ : s.tasks[j]? = some other)
      (held : other.holds = some id) {row : WebhookDelivery} (present : row ∈ t.webhookDelivery) (same : row.id = id) :
      row ∈ s.webhookDelivery := by
    rcases rows row present with old | mine | new
    · exact old
    · exact absurd (held.trans (congrArg some same.symm)) (exclusive.other found at_ different mine)
    · rw [same.symm.trans new] at held
      exact absurd held (fresh (List.mem_of_getElem? at_))
  refine ⟨known, ?_, fun other member row present held => ?_, fun other member waits d subscription isRetry active
    row present same => ?_⟩
  · rw [tasks]
    refine pairwise_set apart found (fun other member separate id held mine => ?_)
      (fun other member separate id mine held => ?_)
    · rcases holds with gone | kept | made
      · cases gone.symm.trans mine
      · exact separate id held (kept.symm.trans mine)
      · cases made.symm.trans mine
        exact fresh member held
    · rcases holds with gone | kept | made
      · cases gone.symm.trans mine
      · exact separate id (kept.symm.trans mine) held
      · cases made.symm.trans mine
        exact fresh member held
  · rw [tasks] at member
    rcases mem_set_cases member with rfl | ⟨j, different, at_⟩
    · exact leased row present held
    · exact leasedBefore other (List.mem_of_getElem? at_) row (elsewhere different at_ held present rfl) held
  · rw [tasks] at member
    rcases mem_set_cases member with rfl | ⟨j, different, at_⟩
    · exact absurd waits notQueued
    · have held : other.holds = some d.id := by rw [Task.holds, waits, isRetry]; rfl
      exact queued other (List.mem_of_getElem? at_) waits d subscription isRetry active row
        (elsewhere different at_ held present same) same

theorem Resumed.notQueued (resumed : Resumed s await answer t stage) : stage ≠ .queued := by
  rcases resumed.next_cases with rfl | ⟨next, rfl, _⟩
  · exact Stage.noConfusion
  · exact Stage.noConfusion

theorem callback_notQueued (job : Job) : job.callback ≠ .queued := by
  cases job with
  | dispatch => exact Stage.noConfusion
  | retry d subscription =>
    simp only [Job.callback]
    split <;> exact Stage.noConfusion

/-- After an update its worker has either ended, or begun an attempt, or delivered, or is to
schedule again. -/
theorem update_leased (msg : String) (updates : await.update now = some u) (row : WebhookDelivery)
    (pending : (u.data row).status = .pending) (set : (u.data row).nextRetryAt ≠ none) (job : Job) :
    u.fulfilled.holds job = none ∧ ((u.rejected msg).holds job = none ∨
      ∃ id attempt errorMsg httpStatus now, await = .schedule false id attempt errorMsg httpStatus now) := by
  cases await with
  | persist call =>
    obtain ⟨id, _, rfl⟩ := Option.map_eq_some_iff.mp updates
    exact absurd rfl set
  | schedule caught =>
    cases caught
    · cases updates
      exact ⟨rfl, .inr ⟨_, _, _, _, _, rfl⟩⟩
    · cases updates
      exact ⟨rfl, .inl rfl⟩
  | cancel | reject | succeed | block =>
    cases updates
    cases pending
  | _ => cases updates

theorem Exclusive.resume (exclusive : Exclusive s) (unexpired : Unexpired s (.resume k answer))
    (found : s.tasks[k]? = some task) (at_ : task.stage = .awaiting await) (resumed : Resumed s await answer t stage) :
    Exclusive (t.setStage k task stage) := by
  have mine : task.holds = await.holds := by rw [Task.holds, at_]; rfl
  have before (row : WebhookDelivery) (present : row ∈ s.webhookDelivery) (held : await.holds = some row.id) :=
    exclusive.leased task (List.mem_of_getElem? found) row present (mine.trans held)
  have fresh {row : WebhookDelivery} (present : row ∈ s.webhookDelivery) : row.id ≠ s.nextId :=
    Nat.ne_of_lt (exclusive.known.rows _ (List.mem_map_of_mem present))
  refine exclusive.setStage found (exclusive.known.resume found at_ resumed) ?_ ?_ resumed.notQueued
    (fun row present => ?_) (fun row present held pending set => ?_)
  · rw [State.setStage, resumed.tasks]
  · rw [mine]
    exact (resumed.holds task.job).imp_right (Or.imp_right And.left)
  · rcases resumed.row_cases present with old | ⟨u, updates, old, _, same, rfl⟩ | ⟨_, _, _, _, _, rfl, _⟩
    · exact .inl old
    · rw [mine, update_holds updates, update_id updates, same]
      exact .inr (.inl rfl)
    · exact .inr (.inr rfl)
  · have kept (old : row ∈ s.webhookDelivery) : row.processingStatus = .processing := by
      rcases resumed.holds task.job with gone | kept | ⟨made, _⟩
      · cases gone.symm.trans held
      · exact before row old (kept.symm.trans held) pending set
      · exact absurd (Option.some.inj (made.symm.trans held)).symm (fresh old)
    cases resumed with
    | fulfilled updates =>
      obtain ⟨old, source, ⟨_, rfl⟩ | ⟨_, rfl⟩⟩ := mem_update_rows present
      · cases (update_leased "" updates old pending set task.job).1.symm.trans held
      · exact kept source
    | lost updates =>
      obtain ⟨old, source, ⟨_, rfl⟩ | ⟨_, rfl⟩⟩ := mem_update_rows present
      · rcases (update_leased _ updates old pending set task.job).2 with gone | ⟨_, _, _, _, _, rfl⟩
        · cases gone.symm.trans held
        · exact absurd at_ (unexpired task found _ _ _ _ _)
      · exact kept source
    | created | createLost =>
      rcases List.mem_append.mp present with old | new
      · exact kept old
      · cases List.mem_singleton.mp new
        exact absurd rfl set
    | _ => exact kept present

theorem Exclusive.step (exclusive : Exclusive s) (unexpired : Unexpired s a)
    (stepped : step concurrency s a = some t) : Exclusive t := by
  have known := exclusive.known.step stepped
  cases step_cases stepped with
  | outside moved => exact exclusive.outside moved
  | cancelPending handled => exact exclusive.cancelPending handled unexpired
  | dispatchWebhooks => exact exclusive.dispatchWebhooks _ known
  | retryPendingDeliveries => exact exclusive.retryPendingDeliveries unexpired known
  | start found queued =>
    rename_i k task
    have same : task.job.callback.holds task.job = task.holds := by
      rw [callback_holds, Task.holds, queued]
      rfl
    refine exclusive.setStage found known rfl (.inr (.inl same)) (callback_notQueued _) (fun _ present => .inl present)
      fun row present held => ?_
    exact exclusive.leased task (List.mem_of_getElem? found) row present (same.symm.trans held)
  | resume found at_ resumed => exact exclusive.resume unexpired found at_ resumed
  | crash found live =>
    refine exclusive.setStage found known rfl (.inl rfl) Stage.noConfusion (fun _ present => .inl present)
      fun row present held => ?_
    cases held

theorem exclusive_of_initial (start : (system concurrency).initial s) : Exclusive s := by
  obtain ⟨empty, idle, _⟩ := id start
  refine ⟨known_of_initial start, ?_, ?_, ?_⟩
  · rw [idle]
    exact .nil
  all_goals
    intro task member
    rw [idle] at member
    cases member

theorem callback_delivers {job : Job} (delivers : job.callback.delivers = some id) :
    ∃ d subscription, job = .retry d subscription ∧ subscription.active = true ∧ d.id = id := by
  cases job with
  | dispatch => cases delivers
  | retry d subscription =>
    refine ⟨d, subscription, rfl, ?_⟩
    simp only [Job.callback] at delivers
    split at delivers
    · rename_i active
      exact ⟨active, Option.some.inj delivers⟩
    · cases delivers

theorem Exclusive.undisturbed (exclusive : Exclusive s) : Undisturbed concurrency s := by
  refine ⟨exclusive.apart.imp fun separate id first second => ?_,
    fun k t task id started found delivers row present same => ?_⟩
  · exact separate id (Stage.holds_of_delivers _ first) (Stage.holds_of_delivers _ second)
  · obtain ⟨waiting, at_, queued, rfl⟩ := start_cases started
    obtain ⟨inside, _⟩ := List.getElem?_eq_some_iff.mp at_
    rw [State.setStage, List.getElem?_set_self inside] at found
    cases found
    obtain ⟨d, subscription, isRetry, active, rfl⟩ := callback_delivers delivers
    exact (exclusive.queued waiting (List.mem_of_getElem? at_) queued d subscription isRetry active row present same).1

/-- In a run in which no lease runs out on a worker, no delivery is worked on twice at once. -/
theorem never_disturbed (reached : (system concurrency).ReachableWhen Unexpired s) : Undisturbed concurrency s :=
  (reached.invariant exclusive_of_initial Exclusive.step).undisturbed

/-- An event's first delivery, the `k`-th task, answered with 500. -/
def refusedDelivery (id : String) (k : Nat) : List Act :=
  [.ingest (transfer id), .dispatchWebhooks (transfer id), .start k, .resume k .safe, .resume k .done,
    .resume k (.responded 500), .resume k .done]

/-- A retry up to its request. -/
def retried (k : Nat) : List Act :=
  [.start k, .resume k .done, .resume k .done, .resume k .safe, .resume k .done]

/-- A sufficient test of `Unexpired`. -/
def unexpired (s : State) : Act → Bool
  | .retryPendingDeliveries now => s.tasks.all fun task => s.webhookDelivery.all fun row =>
      task.holds != some row.id || row.processingStatus != .processing || !isDue now row
  | .cancelPending _ | .resume _ (.lost _) => false
  | _ => true

theorem unexpired_sound (s : State) (a : Act) (checked : unexpired s a = true) : Unexpired s a := by
  cases a with
  | retryPendingDeliveries now =>
    intro task member row present held processing
    have both := List.all_eq_true.mp (List.all_eq_true.mp checked task member) row present
    simpa [held, processing] using both
  | cancelPending => cases checked
  | resume k answer =>
    cases answer with
    | lost => cases checked
    | _ => trivial
  | _ => trivial

def inTime : List Act :=
  .subscribe hook :: refusedDelivery "e1" 0 ++ [.elapse 30000, .retryPendingDeliveries 30000] ++ retried 1 ++
    [.resume 1 (.responded 200), .elapse 90000, .retryPendingDeliveries 120000, .resume 1 .done]

theorem inTime_undisturbed : ∃ s, (system (DISPATCH_CONCURRENCY none)).run empty inTime = some s ∧
    s.webhookDelivery.map WebhookDelivery.status = [.success] ∧ Undisturbed (DISPATCH_CONCURRENCY none) s := by
  have ends : ((system (DISPATCH_CONCURRENCY none)).run empty inTime).any
      (fun s => s.webhookDelivery.map WebhookDelivery.status = [.success]) = true := by decide +kernel
  have calm : (system (DISPATCH_CONCURRENCY none)).guardedBy unexpired empty inTime = true := by decide +kernel
  obtain ⟨s, executed, sent⟩ := (Option.any_eq_true _ _).mp ends
  have guarded := System.guarded_of_guardedBy unexpired unexpired_sound calm
  have reached := System.reachableWhen_of_run (system (DISPATCH_CONCURRENCY none)) empty inTime ⟨rfl, rfl, rfl⟩ guarded executed
  exact ⟨s, executed, of_decide_eq_true sent, never_disturbed reached⟩

def timely (s : State) : Act → Bool
  | .elapse ms => s.tasks.all fun task => match task.stage with
      | .awaiting (.safePost _ _ startMs) => s.now + ms ≤ startMs + (SsrfGuard.MAX_REDIRECTS + 1) * REQUEST_TIMEOUT_MS
      | _ => true
  | _ => true

theorem timely_sound (s : State) (a : Act) (checked : timely s a = true) : Timely s a := by
  cases a with
  | elapse ms =>
    intro task member id attempt startMs posting
    have inside := List.all_eq_true.mp checked task member
    rw [posting] at inside
    exact of_decide_eq_true inside
  | _ => trivial

/-- A pool of one worker: the first retry takes the minute that the lease of the second lasts. -/
def outlasted : List Act :=
  .subscribe hook :: refusedDelivery "e1" 0 ++ refusedDelivery "e2" 1 ++
    [.elapse 30000, .retryPendingDeliveries 30000] ++ retried 2 ++
    [.elapse 60000, .retryPendingDeliveries 90000, .start 4, .resume 2 (.responded 200), .resume 2 .done, .start 3]

theorem outlasted_disturbed : ¬ ∀ concurrency s, (system concurrency).ReachableWhen Timely s →
    Undisturbed concurrency s := by
  intro claim
  have ends : ((system (DISPATCH_CONCURRENCY (some "1"))).run empty outlasted).any (fun s =>
      (s.tasks[3]?.bind fun task => task.stage.delivers) = some 1 ∧ (s.tasks[4]?.bind fun task => task.stage.delivers) = some 1) =
        true := by decide +kernel
  have kept : (system (DISPATCH_CONCURRENCY (some "1"))).guardedBy timely empty outlasted = true := by decide +kernel
  obtain ⟨s, executed, facts⟩ := (Option.any_eq_true _ _).mp ends
  obtain ⟨third, fourth⟩ := of_decide_eq_true facts
  obtain ⟨task, at_third, delivers⟩ := Option.bind_eq_some_iff.mp third
  obtain ⟨other, at_fourth, delivers'⟩ := Option.bind_eq_some_iff.mp fourth
  obtain ⟨inside, rfl⟩ := List.getElem?_eq_some_iff.mp at_third
  obtain ⟨inside', rfl⟩ := List.getElem?_eq_some_iff.mp at_fourth
  have guarded := System.guarded_of_guardedBy timely timely_sound kept
  have reached := System.reachableWhen_of_run (system (DISPATCH_CONCURRENCY (some "1"))) empty outlasted ⟨rfl, rfl, rfl⟩ guarded executed
  exact List.pairwise_iff_getElem.mp (claim _ s reached).alone 3 4 inside inside' (by decide) 1 delivers delivers'

end Octraban.Dispatcher
