import Octraban.Webhooks.Workers

/-! No delivery is stranded as long as no worker is lost in an attempt: the write that begins an
attempt unsets `nextRetryAt`, which the retry query asks for. -/
namespace Octraban.Dispatcher
open Transition

/-- The row of an attempt that has been begun and not ended. -/
def Stage.attempting : Stage → Option Nat
  | .awaiting (.safePost id _ _) | .awaiting (.succeed id _ _ _) | .awaiting (.schedule _ id _ _ _ _)
  | .awaiting (.block id _) => some id
  | _ => none

/-- A pending row is being worked on, or the retry query finds it at some time from now on. -/
def Unstranded (s : State) : Prop :=
  ∀ row ∈ s.webhookDelivery, row.status = .pending →
    (∃ task ∈ s.tasks, task.stage.delivers = some row.id) ∨ ∃ later, s.now ≤ later ∧ isDue later row = true

def Unset (row : WebhookDelivery) : Prop := row.status = .pending ∧ row.nextRetryAt = none

/-- The update that begins an attempt is answered, and no worker is lost, by a crash or by the
refusal of its last update, while the row of its attempt is pending with `nextRetryAt` unset. -/
def Unlost (s : State) : Act → Prop
  | .crash k => ∀ task ∈ s.tasks[k]?, ∀ row ∈ s.webhookDelivery, task.stage.attempting = some row.id → ¬ Unset row
  | .resume k (.lost _) => ∀ task ∈ s.tasks[k]?, ∀ call eventId now, task.stage ≠ .awaiting (.persist call eventId now)
  | .resume k (.refused msg) => ∀ task ∈ s.tasks[k]?, ∀ await, task.stage = .awaiting await →
      ∀ u ∈ await.update s.now, u.rejected msg = .settled →
        ∀ row ∈ s.webhookDelivery, task.stage.attempting = some row.id → ¬ Unset row
  | _ => True

/-- Once it is due, the retry query finds the row when its lease has run out. -/
def Claimable (row : WebhookDelivery) : Prop :=
  row.status = .pending → row.nextRetryAt ≠ none →
    row.processingStatus = .idle ∨ row.processingStatus = .processing ∧ row.leaseExpiresAt ≠ none

structure Attended (s : State) : Prop where
  claimable : ∀ row ∈ s.webhookDelivery, Claimable row
  attempted : ∀ row ∈ s.webhookDelivery, Unset row → ∃ task ∈ s.tasks, task.stage.attempting = some row.id

variable {concurrency : Option Int} {s t : State} {a : Act} {await : Await} {answer : Answer} {stage : Stage}
  {u : Update} {task : Task} {row : WebhookDelivery} {now k id : Nat} {msg : String}

theorem Stage.delivers_of_attempting (attempting : stage.attempting = some id) : stage.delivers = some id := by
  cases stage with
  | awaiting await => cases await <;> first | exact attempting | cases attempting
  | _ => cases attempting

theorem scheduleRetryOrFail_set (now attempt : Nat) (msg : String) (httpStatus : Option Nat) (row : WebhookDelivery) :
    ¬ Unset (scheduleRetryOrFail now attempt msg httpStatus row) := by
  rintro ⟨pending, unset⟩
  simp only [scheduleRetryOrFail] at pending unset
  split at pending
  · cases pending
  · rename_i more
    rw [if_neg more] at unset
    cases unset

theorem scheduleRetryOrFail_claimable (now attempt : Nat) (msg : String) (httpStatus : Option Nat)
    (row : WebhookDelivery) : Claimable (scheduleRetryOrFail now attempt msg httpStatus row) := by
  intro pending _
  simp only [scheduleRetryOrFail] at pending ⊢
  split at pending
  · cases pending
  · rename_i more
    rw [if_neg more]
    exact .inl rfl

/-- The update that begins an attempt is the only one that leaves a row pending with
`nextRetryAt` unset. -/
theorem update_cases (found : await.update now = some u) (row : WebhookDelivery) : Claimable (u.data row) ∧
      (¬ Unset (u.data row) ∨ ∃ call eventId issued, await = .persist call eventId issued ∧
        u.fulfilled.attempting = some u.id) := by
  cases await with
  | cancel | reject | block | succeed =>
    cases found
    refine ⟨?_, .inl ?_⟩
    · intro pending
      cases pending
    · rintro ⟨pending, _⟩
      cases pending
  | persist call eventId issued =>
    obtain ⟨id, held, rfl⟩ := Option.map_eq_some_iff.mp found
    exact ⟨fun _ set => absurd rfl set, .inr ⟨call, eventId, issued, rfl, rfl⟩⟩
  | schedule caught =>
    cases caught
    all_goals
      cases found
      exact ⟨scheduleRetryOrFail_claimable _ _ _ _ _, .inl (scheduleRetryOrFail_set _ _ _ _ _)⟩
  | _ => cases found

theorem attempting_update (msg : String) (found : await.update now = some u)
    (attempting : (Stage.awaiting await).attempting = some id) :
    id = u.id ∧ (u.rejected msg = .settled ∨ (u.rejected msg).attempting = some id) := by
  cases await with
  | succeed | block =>
    cases found
    cases attempting
    exact ⟨rfl, by first | exact .inl rfl | exact .inr rfl⟩
  | schedule caught =>
    cases caught
    all_goals
      cases found
      cases attempting
      exact ⟨rfl, by first | exact .inl rfl | exact .inr rfl⟩
  | safePost => cases found
  | _ => cases attempting

theorem responded_attempting {attempt : Nat} {next : Await} (outcome : responded now id attempt answer = some next) :
    (Stage.awaiting next).attempting = some id := by
  rcases responded_cases outcome with ⟨_, _, rfl⟩ | ⟨_, _, _, _, rfl⟩ | ⟨_, rfl⟩ <;> rfl

/-- What a worker leaves behind: an unset row it is at work on, or one that was unset before and
that it was not at work on. -/
theorem Resumed.unset (resumed : Resumed s await answer t stage) (unlost : Unlost s (.resume k answer))
    (found : s.tasks[k]? = some task) (at_ : task.stage = .awaiting await) (present : row ∈ t.webhookDelivery)
    (unset : Unset row) : stage.attempting = some row.id ∨
      row ∈ s.webhookDelivery ∧ (Stage.awaiting await).attempting ≠ some row.id := by
  have outside {u : Update} {old : WebhookDelivery} (updates : await.update s.now = some u) (other : old.id ≠ u.id) :
      (Stage.awaiting await).attempting ≠ some old.id :=
    fun attempting => other (attempting_update "" updates attempting).1
  cases resumed with
  | fulfilled updates =>
    obtain ⟨old, present, ⟨same, rfl⟩ | ⟨other, rfl⟩⟩ := mem_update_rows present
    · obtain ⟨_, set | ⟨_, _, _, _, begun⟩⟩ := update_cases updates old
      · exact absurd unset set
      · rw [update_id updates, same]
        exact .inl begun
    · exact .inr ⟨present, outside updates other⟩
  | refused updates =>
    by_cases attempting : (Stage.awaiting await).attempting = some row.id
    · rcases (attempting_update _ updates attempting).2 with settled | goesOn
      · exact absurd unset (unlost task found await at_ _ updates settled row present (by rw [at_]; exact attempting))
      · exact .inl goesOn
    · exact .inr ⟨present, attempting⟩
  | lost updates =>
    obtain ⟨old, present, ⟨same, rfl⟩ | ⟨other, rfl⟩⟩ := mem_update_rows present
    · obtain ⟨_, set | ⟨call, eventId, issued, rfl, _⟩⟩ := update_cases updates old
      · exact absurd unset set
      · exact absurd at_ (unlost task found call eventId issued)
    · exact .inr ⟨present, outside updates other⟩
  | created =>
    rcases List.mem_append.mp present with old | new
    · exact .inr ⟨old, nofun⟩
    · cases List.mem_singleton.mp new
      exact .inl rfl
  | createLost => exact absurd at_ (unlost task found _ _ _)
  | responded outcome =>
    rename_i _ _ _ id
    by_cases same : id = row.id
    · exact .inl ((responded_attempting outcome).trans (congrArg some same))
    · exact .inr ⟨present, fun attempting => same (Option.some.inj attempting)⟩
  | createRefused | foundDelivery | noDelivery | foundEvent | noEvent | unreadDelivery | unreadEvent | safe | notSafe =>
    exact .inr ⟨present, nofun⟩

theorem Resumed.claimable (resumed : Resumed s await answer t stage)
    (claimable : ∀ row ∈ s.webhookDelivery, Claimable row) : ∀ row ∈ t.webhookDelivery, Claimable row := by
  intro row present
  have updated {u : Update} (updates : await.update s.now = some u) (present : row ∈ u.rows s.webhookDelivery) :
      Claimable row := by
    obtain ⟨old, present, ⟨_, rfl⟩ | ⟨_, rfl⟩⟩ := mem_update_rows present
    · exact (update_cases updates old).1
    · exact claimable _ present
  cases resumed with
  | fulfilled updates | lost updates => exact updated updates present
  | created | createLost =>
    rcases List.mem_append.mp present with old | new
    · exact claimable row old
    · cases List.mem_singleton.mp new
      exact fun _ set => absurd rfl set
  | _ => exact claimable row present

theorem attempting_setStage (found : s.tasks[k]? = some task)
    (before : ∃ other ∈ s.tasks, other.stage.attempting = some id)
    (kept : stage.attempting = some id ∨ task.stage.attempting ≠ some id) :
    ∃ other ∈ (s.setStage k task stage).tasks, other.stage.attempting = some id := by
  obtain ⟨other, member, attempting⟩ := before
  obtain ⟨j, at_⟩ := List.mem_iff_getElem?.mp member
  by_cases same : j = k
  · subst same
    cases found.symm.trans at_
    rcases kept with goesOn | idle
    · obtain ⟨inside, _⟩ := List.getElem?_eq_some_iff.mp found
      exact ⟨_, List.mem_set inside _, goesOn⟩
    · exact absurd attempting idle
  · refine ⟨other, List.mem_iff_getElem?.mpr ⟨j, ?_⟩, attempting⟩
    rw [State.setStage, List.getElem?_set_ne (Ne.symm same)]
    exact at_

theorem Attended.resume (attended : Attended s) (unlost : Unlost s (.resume k answer)) (found : s.tasks[k]? = some task)
    (at_ : task.stage = .awaiting await) (resumed : Resumed s await answer t stage) :
    Attended (t.setStage k task stage) := by
  refine ⟨resumed.claimable attended.claimable, fun row present unset => ?_⟩
  rw [← resumed.tasks] at found
  rcases resumed.unset unlost (resumed.tasks ▸ found) at_ present unset with goesOn | ⟨old, idle⟩
  · obtain ⟨inside, _⟩ := List.getElem?_eq_some_iff.mp found
    exact ⟨_, List.mem_set inside _, goesOn⟩
  · refine attempting_setStage found ?_ (.inr (at_ ▸ idle))
    rw [resumed.tasks]
    exact attended.attempted row old unset

theorem Attended.step (attended : Attended s) (unlost : Unlost s a) (stepped : step concurrency s a = some t) :
    Attended t := by
  cases step_cases stepped with
  | outside moved =>
    refine ⟨fun row present => attended.claimable row (moved.rows.subset present), fun row present unset => ?_⟩
    rw [moved.tasks]
    exact attended.attempted row (moved.rows.subset present) unset
  | cancelPending =>
    constructor
    · intro row present
      rcases mem_cancelPending present with old | ⟨old, _, _, rfl⟩
      · exact attended.claimable row old
      · intro pending
        cases pending
    · intro row present unset
      rcases mem_cancelPending present with old | ⟨old, _, _, rfl⟩
      · exact attended.attempted row old unset
      · cases unset.1
  | dispatchWebhooks =>
    refine ⟨attended.claimable, fun row present unset => ?_⟩
    obtain ⟨task, member, attempting⟩ := attended.attempted row present unset
    exact ⟨task, List.mem_append_left _ member, attempting⟩
  | retryPendingDeliveries =>
    constructor
    · intro row present
      rcases mem_claim present with old | ⟨old, _, rfl, _⟩
      · exact attended.claimable row old
      · exact fun _ _ => .inr ⟨rfl, nofun⟩
    · intro row present unset
      have before : ∃ task ∈ s.tasks, task.stage.attempting = some row.id := by
        rcases mem_claim present with old | ⟨old, source, rfl, _⟩
        · exact attended.attempted row old unset
        · exact attended.attempted old source unset
      obtain ⟨task, member, attempting⟩ := before
      exact ⟨task, List.mem_append_left _ member, attempting⟩
  | start found queued =>
    refine ⟨attended.claimable, fun row present unset => ?_⟩
    refine attempting_setStage found (attended.attempted row present unset) (.inr ?_)
    rw [queued]
    exact nofun
  | resume found at_ resumed => exact attended.resume unlost found at_ resumed
  | crash found live =>
    refine ⟨attended.claimable, fun row present unset => ?_⟩
    refine attempting_setStage found (attended.attempted row present unset) (.inr fun attempting => ?_)
    exact unlost _ found row present attempting unset

theorem attended_of_reached (reached : (system concurrency).ReachableWhen Unlost s) : Attended s := by
  refine reached.invariant ?_ Attended.step
  rintro s ⟨empty, _⟩
  constructor
  all_goals
    intro row present
    rw [empty] at present
    cases present

theorem isDue_later (claimable : Claimable row) (pending : row.status = .pending) (set : row.nextRetryAt ≠ none)
    (now : Nat) : ∃ later, now ≤ later ∧ isDue later row = true := by
  obtain ⟨due, isSet⟩ := Option.ne_none_iff_exists'.mp set
  rcases claimable pending set with idle | ⟨processing, leased⟩
  · exact ⟨max now due, Nat.le_max_left _ _, by simp [isDue, isFree, pending, isSet, idle]⟩
  · obtain ⟨lease, isLeased⟩ := Option.ne_none_iff_exists'.mp leased
    refine ⟨max now (max due lease), Nat.le_max_left _ _, ?_⟩
    simp [isDue, isFree, pending, isSet, processing, isLeased]

/-- A row stays due. -/
theorem isDue_mono {earlier later : Nat} (order : earlier ≤ later) (due : isDue earlier row = true) :
    isDue later row = true := by
  have past {time : Option Nat} (reached : time.any (· ≤ earlier) = true) : time.any (· ≤ later) = true := by
    cases time with
    | none => exact reached
    | some at_ =>
      simp only [Option.any_some, decide_eq_true_eq] at reached ⊢
      exact reached.trans order
  simp only [isDue, isFree, Bool.and_eq_true, Bool.or_eq_true] at due ⊢
  obtain ⟨⟨pending, set⟩, free⟩ := due
  exact ⟨⟨pending, past set⟩, free.imp_right fun leased => ⟨leased.1, past leased.2⟩⟩

theorem Attended.unstranded (attended : Attended s) : Unstranded s := by
  intro row present pending
  by_cases unset : row.nextRetryAt = none
  · obtain ⟨task, member, attempting⟩ := attended.attempted row present ⟨pending, unset⟩
    exact .inl ⟨task, member, Stage.delivers_of_attempting attempting⟩
  · exact .inr (isDue_later (attended.claimable row present) pending unset s.now)

end Octraban.Dispatcher
