import Octraban.Core.Upsert
import Octraban.Indexer.CronEngine

/-! The runs of cron-engine.ts. A tick starts a run of each job that is due and waits for none of them, so runs of
one job overlap when it comes back before they are recorded. -/
namespace Octraban.CronRuns
open CronEngine (nextCronDate)

def MAX_RETRIES : ℕ := 3

structure CronJob where
  cronExpression : String
  lastRunAt : Option ℤ
  nextRunAt : Option ℤ
  totalRuns : ℕ
  successfulRuns : ℕ
  failedRuns : ℕ
  maxRuns : Option ℕ
  enabled : Bool
  deriving DecidableEq

structure CronExecution where
  cronJobId : String
  executedAt : ℤ
  success : Bool
  txHash : Option String
  errorMessage : Option String
  gasUsed : Option ℕ
  duration : ℤ
  deriving DecidableEq

/-- What `executeContractFunction` resolves to. -/
structure Result where
  success : Bool
  txHash : Option String
  gasUsed : Option ℕ
  error : Option String
  deriving DecidableEq

/-- Where a run waits: for `findUnique`, for an attempt (with the backoff before it), or for its transaction. -/
inductive Stage where
  | due
  | attempting (job : CronJob) (start : ℤ) (attempt : ℕ)
  | recording (job : CronJob) (execution : CronExecution) (next : ℤ)
  | ended
  deriving DecidableEq

structure Run where
  jobId : String
  stage : Stage
  deriving DecidableEq

structure World where
  cronJob : Sql.Table String CronJob
  cronExecution : List CronExecution

structure State where
  world : World
  runs : List Run

/-- What the call that a run waits for gives it, and when; the fuel is that of `nextCronDate`. -/
inductive Reply where
  | row (now : ℤ)
  | result (result : Result) (fuel : ℕ) (now : ℤ)
  | committed
  | rejected

inductive Act where
  | runDueCronJobs (now : ℤ)
  | resume (k : ℕ) (reply : Reply)

def due (cronJob : Sql.Table String CronJob) (now : ℤ) : List String :=
  (cronJob.entries.filter fun row => row.2.enabled && row.2.nextRunAt.any (· ≤ now)).map Sigma.fst

def found (now : ℤ) : Option CronJob → Stage
  | none => .ended
  | some job => if job.enabled then .attempting job now 0 else .ended

/-- The synchronous part before the transaction; an expression without a next date ends the run. -/
def record (job : CronJob) (execution : CronExecution) (fuel : ℕ) : Option Stage :=
  (nextCronDate fuel job.cronExpression execution.executedAt).map fun
    | .ok next => .recording job execution next
    | .error _ => .ended

def attempted (jobId : String) (job : CronJob) (start : ℤ) (attempt : ℕ) (result : Result) (fuel : ℕ) (now : ℤ) :
    Option Stage :=
  if result.success then record job ⟨jobId, now, true, result.txHash, none, result.gasUsed, now - start⟩ fuel
  else if attempt + 1 < MAX_RETRIES then some (.attempting job start (attempt + 1))
  else record job ⟨jobId, now, false, none, some (result.error.getD "unknown error"), none, now - start⟩ fuel

/-- The row's counters are incremented, while `enabled` is decided from the row that the run has read. -/
def update (job : CronJob) (execution : CronExecution) (next : ℤ) (row : CronJob) : CronJob :=
  if execution.success then
    { row with
      lastRunAt := some execution.executedAt
      nextRunAt := some next
      totalRuns := row.totalRuns + 1
      successfulRuns := row.successfulRuns + 1
      enabled := job.maxRuns.elim true (job.totalRuns + 1 < ·) }
  else
    { row with
      lastRunAt := some execution.executedAt
      nextRunAt := some next
      totalRuns := row.totalRuns + 1
      failedRuns := row.failedRuns + 1 }

def transaction (w : World) (jobId : String) (job : CronJob) (execution : CronExecution) (next : ℤ) : World where
  cronJob := w.cronJob.updateRow jobId (update job execution next)
  cronExecution := w.cronExecution ++ [execution]

/-- A segment of `runCronJob`, from a reply to the next call. -/
def runCronJob (w : World) (jobId : String) : Stage → Reply → Option (World × Stage)
  | .due, .row now => some (w, found now (w.cronJob.lookup jobId))
  | .attempting job start attempt, .result result fuel now =>
    (attempted jobId job start attempt result fuel now).map (w, ·)
  | .recording job execution next, .committed => some (transaction w jobId job execution next, .ended)
  | .due, .rejected | .attempting .., .rejected | .recording .., .rejected => some (w, .ended)
  | _, _ => none

def step (s : State) : Act → Option State
  | .runDueCronJobs now => some { s with runs := s.runs ++ (due s.world.cronJob now).map (⟨·, .due⟩) }
  | .resume k reply =>
    s.runs[k]?.bind fun run => (runCronJob s.world run.jobId run.stage reply).map fun next =>
      ⟨next.1, s.runs.set k ⟨run.jobId, next.2⟩⟩

/-- Jobs as they are created. -/
def system : Transition.System State Act where
  initial s := s.runs = [] ∧ s.world.cronExecution = [] ∧ ∀ id job, s.world.cronJob.lookup id = some job →
    job.totalRuns = 0 ∧ job.successfulRuns = 0 ∧ job.failedRuns = 0
  step := step

/-- The row that a run has read and not yet recorded. -/
def Stage.snapshot : Stage → Option CronJob
  | .attempting job _ _ | .recording job _ _ => some job
  | .due | .ended => none

/-- The execution that a run is about to record. -/
def Stage.execution : Stage → Option CronExecution
  | .recording _ execution _ => some execution
  | .due | .attempting .. | .ended => none

def Run.isInFlight (id : String) (run : Run) : Bool := run.jobId = id && run.stage.snapshot.isSome

/-- The runs of a job between its read and its record. -/
def inFlight (runs : List Run) (id : String) : ℕ := runs.countP (Run.isInFlight id)

/-- No job has run more often than its limit, and one that has run as often is disabled. -/
def Respected (s : State) : Prop :=
  ∀ id job, s.world.cronJob.lookup id = some job → ∀ m, job.maxRuns = some m → 1 ≤ m →
    job.totalRuns ≤ m ∧ (job.totalRuns = m → job.enabled = false)

/-- A job is read while no other run of it is in flight, or while those in flight and this one stay below its
limit; and the last run that the limit allows is not recorded as a failure. -/
def Alone (s : State) : Act → Prop
  | .resume k (.row _) => ∀ run ∈ s.runs[k]?, run.stage = .due → ∀ job ∈ s.world.cronJob.lookup run.jobId,
      job.enabled = true → ∀ m ∈ job.maxRuns,
        inFlight s.runs run.jobId = 0 ∨ job.totalRuns + inFlight s.runs run.jobId + 1 < m
  | .resume k .committed => ∀ run ∈ s.runs[k]?, (∃ execution ∈ run.stage.execution, execution.success = false) →
      ∀ row ∈ s.world.cronJob.lookup run.jobId, ∀ m ∈ row.maxRuns, row.totalRuns + 1 < m
  | _ => True

instance (s : State) : DecidablePred (Alone s)
  | .resume k (.row _) => inferInstanceAs (Decidable (∀ run ∈ s.runs[k]?, run.stage = .due →
      ∀ job ∈ s.world.cronJob.lookup run.jobId, job.enabled = true → ∀ m ∈ job.maxRuns,
        inFlight s.runs run.jobId = 0 ∨ job.totalRuns + inFlight s.runs run.jobId + 1 < m))
  | .resume k .committed => inferInstanceAs (Decidable (∀ run ∈ s.runs[k]?,
      (∃ execution ∈ run.stage.execution, execution.success = false) →
        ∀ row ∈ s.world.cronJob.lookup run.jobId, ∀ m ∈ row.maxRuns, row.totalRuns + 1 < m))
  | .resume _ (.result ..) | .resume _ .rejected | .runDueCronJobs _ => inferInstanceAs (Decidable True)

/-- Every run in flight has read the row as it stands. -/
def Fresh (runs : List Run) (id : String) (job : CronJob) : Prop :=
  ∀ run ∈ runs, run.jobId = id → ∀ snapshot ∈ run.stage.snapshot, snapshot.totalRuns = job.totalRuns

/-- What the runs in flight leave of a limit: they stay below it, or the one of them that reaches it knows of all
that were recorded, or it is reached. -/
inductive Room (runs : List Run) (id : String) (job : CronJob) (m : ℕ) : Prop where
  | below : job.totalRuns + inFlight runs id < m → Room runs id job m
  | last : inFlight runs id = 1 → job.totalRuns + 1 = m → Fresh runs id job → Room runs id job m
  | full : inFlight runs id = 0 → job.totalRuns = m → job.enabled = false → Room runs id job m

structure Limited (s : State) : Prop where
  room : ∀ id job, s.world.cronJob.lookup id = some job → ∀ m, job.maxRuns = some m → 1 ≤ m → Room s.runs id job m
  limits : ∀ run ∈ s.runs, ∀ snapshot ∈ run.stage.snapshot, ∃ job,
    s.world.cronJob.lookup run.jobId = some job ∧ job.maxRuns = snapshot.maxRuns

/-- Everything a reply can do to a run. -/
inductive Resumed (w : World) (jobId : String) : Stage → Reply → World → Stage → Prop where
  | read : w.cronJob.lookup jobId = some job → job.enabled = true →
      Resumed w jobId .due (.row now) w (.attempting job now 0)
  | kept : stage.snapshot = some job → next.snapshot = some job →
      (∀ execution ∈ next.execution, execution.cronJobId = jobId) → Resumed w jobId stage reply w next
  | dropped : Resumed w jobId stage reply w .ended
  | recorded : Resumed w jobId (.recording job execution next) .committed (transaction w jobId job execution next) .ended

variable {s t : State} {w w' : World} {runs : List Run} {run : Run} {id jobId : String} {job row : CronJob}
  {stage next : Stage} {reply : Reply} {execution : CronExecution} {k m fuel : ℕ} {now : ℤ}

theorem record_cases (recorded : record job execution fuel = some stage) (named : execution.cronJobId = jobId) :
    stage = .ended ∨ stage.snapshot = some job ∧ ∀ execution ∈ stage.execution, execution.cronJobId = jobId := by
  obtain ⟨result, -, rfl⟩ := Option.map_eq_some_iff.mp recorded
  cases result with
  | ok next =>
    refine .inr ⟨rfl, fun other recording => ?_⟩
    cases recording
    exact named
  | error error => exact .inl rfl

theorem attempted_cases {start : ℤ} {attempt : ℕ} {result : Result}
    (ended : attempted jobId job start attempt result fuel now = some stage) :
    stage = .ended ∨ stage.snapshot = some job ∧ ∀ execution ∈ stage.execution, execution.cronJobId = jobId := by
  unfold attempted at ended
  split at ended
  · exact record_cases ended rfl
  · split at ended
    · cases ended
      exact .inr ⟨rfl, fun _ recording => nomatch recording⟩
    · exact record_cases ended rfl

theorem runCronJob_cases (resumed : runCronJob w jobId stage reply = some (w', next)) :
    Resumed w jobId stage reply w' next := by
  unfold runCronJob at resumed
  split at resumed
  · rename_i now
    cases read : w.cronJob.lookup jobId with
    | none =>
      rw [read] at resumed
      cases resumed
      exact .dropped
    | some job =>
      rw [read] at resumed
      by_cases enabled : job.enabled
      · simp only [found, if_pos enabled] at resumed
        cases resumed
        exact .read read enabled
      · simp only [found, if_neg enabled] at resumed
        cases resumed
        exact .dropped
  · obtain ⟨_, ended, same⟩ := Option.map_eq_some_iff.mp resumed
    cases same
    rcases attempted_cases ended with rfl | ⟨kept, named⟩
    · exact .dropped
    · exact .kept rfl kept named
  · cases resumed
    exact .recorded
  · cases resumed
    exact .dropped
  · cases resumed
    exact .dropped
  · cases resumed
    exact .dropped
  · contradiction

/-! ### Counters -/

/-- The counters of a job agree with each other and with the executions that were recorded. -/
def Counted (w : World) : Prop :=
  ∀ id job, w.cronJob.lookup id = some job → job.totalRuns = job.successfulRuns + job.failedRuns ∧
    w.cronExecution.countP (fun execution => execution.cronJobId = id) = job.totalRuns ∧
    w.cronExecution.countP (fun execution => execution.cronJobId = id && execution.success) = job.successfulRuns

structure Recorded (s : State) : Prop where
  counted : Counted s.world
  named : ∀ run ∈ s.runs, ∀ execution ∈ run.stage.execution, execution.cronJobId = run.jobId

theorem Counted.transaction {next : ℤ} (counted : Counted w) (named : execution.cronJobId = jobId) :
    Counted (transaction w jobId job execution next) := by
  intro id other present
  simp only [CronRuns.transaction, List.countP_append, List.countP_singleton, named]
  by_cases own : id = jobId
  · subst own
    rw [CronRuns.transaction, Sql.Table.lookup_updateRow_self] at present
    obtain ⟨row, stored, rfl⟩ := Option.map_eq_some_iff.mp present
    obtain ⟨sum, total, successful⟩ := counted id row stored
    cases success : execution.success with
    | true => simp [update, success, sum, total, successful, Nat.add_right_comm]
    | false => simp [update, success, sum, total, successful, Nat.add_assoc]
  · rw [CronRuns.transaction, Sql.Table.lookup_updateRow_ne own] at present
    simpa [Ne.symm own] using counted id other present

theorem Recorded.step {a : Act} (before : Recorded s) (stepped : system.step s a = some t) : Recorded t := by
  cases a with
  | runDueCronJobs now =>
    cases stepped
    refine ⟨before.counted, fun run member => ?_⟩
    rcases List.mem_append.mp member with old | started
    · exact before.named run old
    · obtain ⟨jobId, -, rfl⟩ := List.mem_map.mp started
      exact fun _ recording => nomatch recording
  | resume k reply =>
    obtain ⟨⟨jobId, stage⟩, found, moved⟩ := Option.bind_eq_some_iff.mp stepped
    obtain ⟨⟨w, next⟩, resumed, rfl⟩ := Option.map_eq_some_iff.mp moved
    cases runCronJob_cases resumed with
    | read => exact ⟨before.counted, Transition.forall_mem_set k before.named fun _ recording => nomatch recording⟩
    | kept _ _ named => exact ⟨before.counted, Transition.forall_mem_set k before.named named⟩
    | dropped => exact ⟨before.counted, Transition.forall_mem_set k before.named fun _ recording => nomatch recording⟩
    | recorded =>
      have named := before.named _ (List.mem_of_getElem? found) _ rfl
      refine ⟨before.counted.transaction named, ?_⟩
      exact Transition.forall_mem_set k before.named fun _ recording => nomatch recording

theorem recorded_of_initial (start : system.initial s) : Recorded s := by
  obtain ⟨idle, none, fresh⟩ := start
  refine ⟨fun id job stored => ?_, fun run member => ?_⟩
  · obtain ⟨total, successful, failed⟩ := fresh id job stored
    simp [total, successful, failed, none]
  · rw [idle] at member
    exact nomatch member

/-- Whatever runs overlap, fail or reject. -/
theorem counted_reachable (reached : system.Reachable s) : Counted s.world := by
  have recorded : Recorded s := reached.invariant recorded_of_initial fun before _ stepped => before.step stepped
  exact recorded.counted

/-! ### Runs in flight -/

theorem inFlight_set (found : runs[k]? = some run) (other : Run) (id : String) :
    inFlight (runs.set k other) id + (run.isInFlight id).toNat = inFlight runs id + (other.isInFlight id).toNat := by
  obtain ⟨inside, rfl⟩ := List.getElem?_eq_some_iff.mp found
  have counted : (runs[k].isInFlight id).toNat ≤ inFlight runs id := by
    cases flying : runs[k].isInFlight id with
    | false => exact Nat.zero_le _
    | true => exact List.countP_pos_iff.mpr ⟨runs[k], List.getElem_mem inside, flying⟩
  have set := List.countP_set (p := Run.isInFlight id) (a := other) inside
  have plain (b : Bool) : (if b = true then 1 else 0) = b.toNat := by
    cases b <;> rfl
  rw [plain, plain] at set
  unfold inFlight at counted ⊢
  omega

theorem isInFlight_of_ne (ne : run.jobId ≠ id) : run.isInFlight id = false := by
  simp [Run.isInFlight, ne]

theorem isInFlight_eq : (Run.mk id stage).isInFlight id = stage.snapshot.isSome := by
  simp [Run.isInFlight]

theorem Fresh.set (fresh : Fresh runs id job) (new : run.jobId = id → ∀ snapshot ∈ run.stage.snapshot,
    snapshot.totalRuns = job.totalRuns) : Fresh (runs.set k run) id job :=
  Transition.forall_mem_set k fresh new

/-- A run of another job, or one that still holds the row it has read, takes no room. -/
theorem Room.kept (room : Room runs id job m) (found : runs[k]? = some run)
    (kept : run.jobId = id → next.snapshot = run.stage.snapshot) : Room (runs.set k ⟨run.jobId, next⟩) id job m := by
  have same : (Run.mk run.jobId next).isInFlight id = run.isInFlight id := by
    by_cases own : run.jobId = id
    · simp [Run.isInFlight, kept own]
    · have other : (Run.mk run.jobId next).jobId ≠ id := own
      exact (isInFlight_of_ne other).trans (isInFlight_of_ne own).symm
  have count := inFlight_set found ⟨run.jobId, next⟩ id
  rw [same, Nat.add_right_cancel_iff] at count
  cases room with
  | below room => exact .below (count ▸ room)
  | last one last fresh =>
    refine .last (count.trans one) last (fresh.set fun own snapshot read => ?_)
    rw [kept own] at read
    exact fresh run (List.mem_of_getElem? found) own snapshot read
  | full idle full disabled => exact .full (count.trans idle) full disabled

theorem Room.dropped (room : Room runs id job m) (found : runs[k]? = some run) :
    Room (runs.set k ⟨run.jobId, .ended⟩) id job m := by
  have count := inFlight_set found ⟨run.jobId, .ended⟩ id
  have gone : (Run.mk run.jobId .ended).isInFlight id = false := by simp [Run.isInFlight, Stage.snapshot]
  rw [gone, Bool.toNat_false, Nat.add_zero] at count
  cases room with
  | below room => exact .below (by omega)
  | last one last fresh =>
    by_cases still : inFlight (runs.set k ⟨run.jobId, .ended⟩) id = 1
    · exact .last still last (fresh.set fun _ _ read => nomatch read)
    · exact .below (by omega)
  | full idle full disabled => exact .full (by omega) full disabled

theorem Room.read (room : Room runs id job m) (found : runs[k]? = some ⟨id, .due⟩) (enabled : job.enabled = true)
    (alone : inFlight runs id = 0 ∨ job.totalRuns + inFlight runs id + 1 < m) :
    Room (runs.set k ⟨id, .attempting job now 0⟩) id job m := by
  have count := inFlight_set found ⟨id, .attempting job now 0⟩ id
  rw [isInFlight_eq, isInFlight_eq] at count
  simp only [Stage.snapshot, Option.isSome_none, Option.isSome_some, Bool.toNat_false, Bool.toNat_true, Nat.add_zero] at count
  cases room with
  | below room =>
    rcases alone with idle | below
    · by_cases final : job.totalRuns + 1 = m
      · refine .last (by omega) final (Fresh.set (fun run member own snapshot read => ?_) fun _ snapshot read => ?_)
        · -- no run was in flight
          have flying : run.isInFlight id = true := by
            simp [Run.isInFlight, own, Option.isSome_iff_exists.mpr ⟨snapshot, read⟩]
          have some := List.countP_pos_iff.mpr ⟨run, member, flying⟩
          unfold inFlight at idle
          omega
        · cases read
          rfl
      · exact .below (by omega)
    · exact .below (by omega)
  | last one last fresh =>
    rcases alone with idle | below
    · omega
    · omega
  | full idle full disabled =>
    rw [disabled] at enabled
    contradiction

theorem update_maxRuns (next : ℤ) : (update job execution next row).maxRuns = row.maxRuns := by
  unfold update
  split <;> rfl

theorem update_totalRuns (next : ℤ) : (update job execution next row).totalRuns = row.totalRuns + 1 := by
  unfold update
  split <;> rfl

theorem Room.recorded {next : ℤ} (room : Room runs id row m) (found : runs[k]? = some ⟨id, .recording job execution next⟩)
    (limit : job.maxRuns = some m) (short : execution.success = false → row.totalRuns + 1 < m) :
    Room (runs.set k ⟨id, .ended⟩) id (update job execution next row) m := by
  have count := inFlight_set found ⟨id, .ended⟩ id
  rw [isInFlight_eq, isInFlight_eq] at count
  simp only [Stage.snapshot, Option.isSome_none, Option.isSome_some, Bool.toNat_false, Bool.toNat_true, Nat.add_zero] at count
  cases room with
  | below room =>
    refine .below ?_
    rw [update_totalRuns]
    omega
  | last one last fresh =>
    refine .full (by omega) (by rw [update_totalRuns, last]) ?_
    have current := fresh ⟨id, _⟩ (List.mem_of_getElem? found) rfl job rfl
    cases success : execution.success with
    | false => exact absurd (short success) (by omega)
    | true => simp [update, success, limit, current, last]
  | full idle full disabled => omega

/-! ### Limits -/

theorem Limited.tick (limited : Limited s) (now : ℤ) :
    Limited { s with runs := s.runs ++ (due s.world.cronJob now).map (⟨·, .due⟩) } := by
  have idle (id : String) : inFlight ((due s.world.cronJob now).map (⟨·, .due⟩)) id = 0 := by
    refine List.countP_eq_zero.mpr fun run member => ?_
    obtain ⟨jobId, -, rfl⟩ := List.mem_map.mp member
    simp [Run.isInFlight, Stage.snapshot]
  have new (run : Run) (member : run ∈ s.runs ++ (due s.world.cronJob now).map (⟨·, .due⟩)) (snapshot : CronJob)
      (read : snapshot ∈ run.stage.snapshot) : run ∈ s.runs := by
    rcases List.mem_append.mp member with old | started
    · exact old
    · obtain ⟨jobId, -, rfl⟩ := List.mem_map.mp started
      exact nomatch read
  refine ⟨fun id job stored m limit some => ?_, fun run member snapshot read => ?_⟩
  · have same : inFlight (s.runs ++ (due s.world.cronJob now).map (⟨·, .due⟩)) id = inFlight s.runs id := by
      unfold inFlight at idle ⊢
      rw [List.countP_append, idle id, Nat.add_zero]
    cases limited.room id job stored m limit some with
    | below room => exact .below (same ▸ room)
    | last one last fresh =>
      refine .last (same.trans one) last fun run member own snapshot read => ?_
      exact fresh run (new run member snapshot read) own snapshot read
    | full idle full disabled => exact .full (same.trans idle) full disabled
  · exact limited.limits run (new run member snapshot read) snapshot read

/-- The world stays as it is, and what the run then holds is a row of its job. -/
theorem Limited.moved (limited : Limited s)
    (room : ∀ id job, s.world.cronJob.lookup id = some job → ∀ m, job.maxRuns = some m → 1 ≤ m →
      Room s.runs id job m → Room (s.runs.set k ⟨jobId, next⟩) id job m)
    (held : ∀ snapshot ∈ next.snapshot, ∃ job,
      s.world.cronJob.lookup jobId = some job ∧ job.maxRuns = snapshot.maxRuns) :
    Limited ⟨s.world, s.runs.set k ⟨jobId, next⟩⟩ where
  room id job stored m limit some := room id job stored m limit some (limited.room id job stored m limit some)
  limits := Transition.forall_mem_set k limited.limits held

theorem Limited.recorded {next : ℤ} (limited : Limited s)
    (found : s.runs[k]? = some ⟨jobId, .recording job execution next⟩)
    (short : execution.success = false → ∀ row ∈ s.world.cronJob.lookup jobId, ∀ m ∈ row.maxRuns,
      row.totalRuns + 1 < m) :
    Limited ⟨transaction s.world jobId job execution next, s.runs.set k ⟨jobId, .ended⟩⟩ := by
  obtain ⟨row, stored, limits⟩ := limited.limits _ (List.mem_of_getElem? found) job rfl
  have written : (transaction s.world jobId job execution next).cronJob.lookup jobId =
      some (update job execution next row) := by
    rw [transaction, Sql.Table.lookup_updateRow_self, stored, Option.map_some]
  refine ⟨fun id other present m limit some => ?_, fun run member snapshot read => ?_⟩
  · by_cases own : id = jobId
    · subst own
      cases written.symm.trans present
      rw [update_maxRuns] at limit
      exact (limited.room id row stored m limit some).recorded found (limits.symm.trans limit)
        fun failed => short failed row stored m limit
    · rw [transaction, Sql.Table.lookup_updateRow_ne own] at present
      exact (limited.room id other present m limit some).kept found fun same => absurd same.symm own
  · rcases List.mem_or_eq_of_mem_set member with old | rfl
    · obtain ⟨holder, present, same⟩ := limited.limits run old snapshot read
      by_cases own : run.jobId = jobId
      · rw [own] at present ⊢
        cases stored.symm.trans present
        exact ⟨_, written, (update_maxRuns next).trans same⟩
      · exact ⟨holder, (Sql.Table.lookup_updateRow_ne own).trans present, same⟩
    · exact nomatch read

theorem Limited.step {a : Act} (limited : Limited s) (alone : Alone s a) (stepped : system.step s a = some t) : Limited t := by
  cases a with
  | runDueCronJobs now =>
    cases stepped
    exact limited.tick now
  | resume k reply =>
    obtain ⟨⟨jobId, stage⟩, found, moved⟩ := Option.bind_eq_some_iff.mp stepped
    obtain ⟨⟨w, next⟩, resumed, rfl⟩ := Option.map_eq_some_iff.mp moved
    have runs := limited.limits _ (List.mem_of_getElem? found)
    cases runCronJob_cases resumed with
    | read stored enabled =>
      refine limited.moved (fun id job present m limit some room => ?_) fun snapshot read => ?_
      · by_cases own : id = jobId
        · subst own
          cases stored.symm.trans present
          exact room.read found enabled (alone _ found rfl _ stored enabled m limit)
        · exact room.kept found fun same => absurd same.symm own
      · cases read
        exact ⟨_, stored, rfl⟩
    | kept before after _ =>
      refine limited.moved (fun id job _ m _ _ room => room.kept found fun _ => after.trans before.symm) ?_
      intro snapshot read
      cases after.symm.trans read
      exact runs _ before
    | dropped => exact limited.moved (fun id job _ m _ _ room => room.dropped found) fun _ read => nomatch read
    | recorded => exact limited.recorded found fun failed => alone _ found ⟨_, rfl, failed⟩

theorem limited_of_initial (start : system.initial s) : Limited s := by
  obtain ⟨idle, -, fresh⟩ := start
  refine ⟨fun id job stored m _ some => .below ?_, fun run member => ?_⟩
  · rw [(fresh id job stored).1, idle]
    exact some
  · rw [idle] at member
    exact nomatch member

def everyMinute : CronJob where
  cronExpression := "* * * * *"
  lastRunAt := none
  nextRunAt := some 60000
  totalRuns := 0
  successfulRuns := 0
  failedRuns := 0
  maxRuns := some 1
  enabled := true

def created (job : CronJob) : State := ⟨⟨AList.insert "job" job ∅, []⟩, []⟩

theorem initial_created (fresh : job.totalRuns = 0 ∧ job.successfulRuns = 0 ∧ job.failedRuns = 0) :
    system.initial (created job) := by
  refine ⟨rfl, rfl, fun id row stored => ?_⟩
  by_cases same : id = "job"
  · subst same
    cases (AList.lookup_insert _).symm.trans stored
    exact fresh
  · cases (AList.lookup_insert_ne same).symm.trans stored

def succeeded : Result := ⟨true, none, none, none⟩

def reverted : Result := ⟨false, none, none, some "reverted"⟩

def twice : CronJob := { everyMinute with maxRuns := some 2 }

/-- A run that succeeds, a tick that comes while the job is not due, and the run that reaches the limit. -/
def turns : List Act :=
  [.runDueCronJobs 60000, .resume 0 (.row 60000), .resume 0 (.result reverted 1 60000), .resume 0 (.result succeeded 1 62000),
    .resume 0 .committed, .runDueCronJobs 90000, .runDueCronJobs 120000, .resume 1 (.row 120000),
    .resume 1 (.result succeeded 1 120000), .resume 1 .committed]

/-- Of a job whose runs are read one by one near its limit, and whose last run succeeds. -/
theorem limits_respected (reached : system.ReachableWhen Alone s) : Respected s := by
  have limited : Limited s := reached.invariant limited_of_initial fun before alone stepped => before.step alone stepped
  intro id job stored m limit some
  cases limited.room id job stored m limit some with
  | below room => exact ⟨by omega, fun full => by omega⟩
  | last one last fresh => exact ⟨by omega, fun full => by omega⟩
  | full idle full disabled => exact ⟨full.le, fun _ => disabled⟩

theorem limits_respected_turns : ∃ s, system.run (created twice) turns = some s ∧ Respected s := by
  obtain ⟨s, executed⟩ : ∃ s, system.run (created twice) turns = some s :=
    Option.isSome_iff_exists.mp (by decide +kernel)
  refine ⟨s, executed, limits_respected (Transition.System.reachableWhen_of_run system _ turns ?_ ?_ executed)⟩
  · exact initial_created ⟨rfl, rfl, rfl⟩
  · refine Transition.System.guarded_of_guardedBy (fun s a => decide (Alone s a)) (fun s a => of_decide_eq_true) ?_
    decide +kernel

/-! ### Runs that overlap or fail -/

/-- The second tick comes before the first run is recorded. -/
def overlapping : List Act :=
  [.runDueCronJobs 60000, .runDueCronJobs 120000, .resume 0 (.row 120000), .resume 1 (.row 120000),
    .resume 0 (.result succeeded 1 120000), .resume 1 (.result succeeded 1 120000), .resume 0 .committed, .resume 1 .committed]

/-- One run, which fails at each of its attempts. -/
def failing : List Act :=
  [.runDueCronJobs 60000, .resume 0 (.row 60000), .resume 0 (.result reverted 1 60000), .resume 0 (.result reverted 1 62000),
    .resume 0 (.result reverted 1 66000), .resume 0 .committed]

/-- Whether the job has passed its limit, or reached it and is still enabled. -/
def passed (s : State) : Bool :=
  (s.world.cronJob.lookup "job").any fun job => job.maxRuns.any fun m =>
    1 ≤ m && (m < job.totalRuns || job.totalRuns = m && job.enabled)

theorem not_respected_of_passed (passed : passed s = true) : ¬Respected s := by
  intro respected
  obtain ⟨job, stored, passed⟩ := (Option.any_eq_true ..).mp passed
  obtain ⟨m, limit, passed⟩ := (Option.any_eq_true ..).mp passed
  simp only [Bool.and_eq_true, Bool.or_eq_true, decide_eq_true_eq] at passed
  obtain ⟨bound, disabled⟩ := respected "job" job stored m limit passed.1
  rcases passed.2 with more | ⟨full, enabled⟩
  · omega
  · rw [disabled full] at enabled
    contradiction

theorem exists_passed {labels : List Act} (executed : (system.run (created everyMinute) labels).any passed = true) :
    ∃ s, system.run (created everyMinute) labels = some s ∧ system.Reachable s ∧ ¬Respected s := by
  obtain ⟨s, executed, passed⟩ := (Option.any_eq_true ..).mp executed
  exact ⟨s, executed, Transition.System.reachable_of_run _ _ _ (initial_created ⟨rfl, rfl, rfl⟩) executed,
    not_respected_of_passed passed⟩

/-- Two runs that both succeed pass a limit of one, and one that fails leaves its job enabled. -/
theorem limits_passed :
    (∃ s, system.run (created everyMinute) overlapping = some s ∧ system.Reachable s ∧ ¬Respected s) ∧
    ∃ s, system.run (created everyMinute) failing = some s ∧ system.Reachable s ∧ ¬Respected s :=
  ⟨exists_passed (by decide +kernel), exists_passed (by decide +kernel)⟩

theorem counted_reachable_overlapping : ∃ s, system.run (created everyMinute) overlapping = some s ∧ Counted s.world := by
  obtain ⟨s, executed⟩ : ∃ s, system.run (created everyMinute) overlapping = some s :=
    Option.isSome_iff_exists.mp (by decide +kernel)
  refine ⟨s, executed, counted_reachable ?_⟩
  exact Transition.System.reachable_of_run _ _ _ (initial_created ⟨rfl, rfl, rfl⟩) executed

end Octraban.CronRuns
