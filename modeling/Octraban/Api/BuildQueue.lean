import Octraban.Core.Transition
import Mathlib.Data.List.Basic

/-! build-queue.ts: jobs wait in the queue of their tier. The limit is tested when a job is
queued, the counter moves when it starts and when it is completed. -/
namespace Octraban.BuildQueue

inductive Status where
  | queued
  | running
  | completed
  | failed
  | timeout
  deriving DecidableEq

inductive Promise where
  | pending
  | resolved
  | rejected
  deriving DecidableEq

/-- Only the first of the calls of `resolve` and `reject` counts. -/
def Promise.settle : Promise → Promise → Promise
  | pending, outcome => outcome
  | settled, _ => settled

/-- `timer` until the timeout set by `startBuildJob` has fired, `timedOut` once it has found the
job running. -/
structure BuildJob where
  id : String
  apiKeyId : Option String
  tier : String
  startTime : Nat
  memoryLimitMb : Nat
  timeoutMs : Nat
  status : Status
  promise : Promise
  timer : Bool
  timedOut : Bool

structure Quota where
  memoryMb : Nat
  timeoutSec : Nat

def concurrencyLimits : List (String × Nat) :=
  [("unauthenticated", 0), ("free", 0), ("developer", 2), ("pro", 5), ("enterprise", 10)]

def resourceQuotas : List (String × Quota) :=
  [("unauthenticated", ⟨0, 0⟩), ("free", ⟨0, 0⟩), ("developer", ⟨1024, 120⟩), ("pro", ⟨2048, 180⟩),
    ("enterprise", ⟨4096, 240⟩)]

def getConcurrencyLimit (tier : String) : Nat := (concurrencyLimits.lookup tier).getD 0

def getResourceQuota (tier : String) : Quota := (resourceQuotas.lookup tier).getD ⟨0, 0⟩

/-- A job is known by its place in the queue of a tier, which it never leaves. -/
structure Ref where
  tier : String
  index : Nat

structure State where
  jobsByTier : String → List BuildJob
  activeByTier : String → Option Nat

namespace State

def job? (s : State) (ref : Ref) : Option BuildJob := (s.jobsByTier ref.tier)[ref.index]?

def setJob (s : State) (ref : Ref) (job : BuildJob) : State :=
  { s with jobsByTier := Function.update s.jobsByTier ref.tier ((s.jobsByTier ref.tier).set ref.index job) }

def running (s : State) (tier : String) : Nat :=
  (s.jobsByTier tier).countP fun job => job.status = .running

end State

def getActiveBuildCount (s : State) (tier : String) : Nat := (s.activeByTier tier).getD 0

/-- The error a rejected promise is given, or the queue with the job. -/
def pushBuildJob (s : State) (tier : String) (apiKeyId : Option String) (id : String) (now : Nat) :
    Except String State :=
  let limit := getConcurrencyLimit tier
  if limit = 0 then .error "Build jobs not allowed for this tier"
  else if limit ≤ getActiveBuildCount s tier then .error "Concurrent build limit exceeded for tier"
  else
    let quota := getResourceQuota tier
    let job := ⟨id, apiKeyId, tier, now, quota.memoryMb, quota.timeoutSec * 1000, .queued, .pending, false, false⟩
    .ok { s with jobsByTier := Function.update s.jobsByTier tier (s.jobsByTier tier ++ [job]) }

/-- The first queued job of the tier. -/
def next? (s : State) (tier : String) : Option Nat :=
  (s.jobsByTier tier).findIdx? fun job => job.status = .queued

def startBuildJob (s : State) (tier : String) : State × Option Ref :=
  match (next? s tier).map (Ref.mk tier) with
  | none => (s, none)
  | some ref =>
    match s.job? ref with
    | none => (s, none)
    | some job =>
      let active := getActiveBuildCount s tier + 1
      ({ s.setJob ref { job with status := .running, timer := 0 < job.timeoutMs } with
        activeByTier := Function.update s.activeByTier tier (some active) }, some ref)

/-- A counter never goes below zero. -/
def completeBuildJob (s : State) (tier : String) (ref : Ref) (job : BuildJob) (success : Bool) : State :=
  let finalStatus := if success then .completed else .failed
  let active := (s.activeByTier tier).getD 1 - 1
  { s.setJob ref { job with status := finalStatus, promise := job.promise.settle .resolved } with
    activeByTier := Function.update s.activeByTier tier (some active) }

/-- The callback of a job's timer. -/
def timeoutFires (s : State) (ref : Ref) (job : BuildJob) : State :=
  if job.status = .running then
    completeBuildJob s ref.tier ref
      { job with status := .timeout, promise := job.promise.settle .rejected, timer := false, timedOut := true } false
  else s.setJob ref { job with timer := false }

inductive Act where
  | pushBuildJob (tier : String) (apiKeyId : Option String) (id : String) (now : Nat)
  | startBuildJob (tier : String)
  | completeBuildJob (tier : String) (ref : Ref) (success : Bool)
  | timeout (ref : Ref)

/-- A timer may fire late, and it fires once. -/
def step (s : State) : Act → Option State
  | .pushBuildJob tier apiKeyId id now =>
    match pushBuildJob s tier apiKeyId id now with
    | .error _ => some s
    | .ok t => some t
  | .startBuildJob tier => some (startBuildJob s tier).1
  | .completeBuildJob tier ref success =>
    (s.job? ref).map fun job => completeBuildJob s tier ref job success
  | .timeout ref => ((s.job? ref).filter BuildJob.timer).map (timeoutFires s ref)

def empty : State := ⟨fun _ => [], fun _ => none⟩

def system : Transition.System State Act where
  initial s := s = empty
  step := step

structure Bounded (s : State) : Prop where
  limited : ∀ tier, s.running tier ≤ getConcurrencyLimit tier
  counted : ∀ tier, getActiveBuildCount s tier = s.running tier

/-- A job is settled when it ends, and as rejected just if it timed out. -/
structure BuildJob.Settled (job : BuildJob) : Prop where
  ended : job.promise = .pending ↔ job.status = .queued ∨ job.status = .running
  rejected : job.promise = .rejected ↔ job.timedOut = true

def Settled (s : State) : Prop := ∀ ref job, s.job? ref = some job → job.Settled

/-- A settled promise stays as it is. -/
def Kept (s t : State) : Prop :=
  ∀ ref job, s.job? ref = some job → job.promise ≠ .pending →
    ∃ later, t.job? ref = some later ∧ later.promise = job.promise

/-- A queued job is started only below the limit. A completed job is running and counted under
the named tier, or it is not running and neither is any other of that tier. -/
def Orderly (s : State) : Act → Prop
  | .startBuildJob tier => (next? s tier).isSome → s.running tier < getConcurrencyLimit tier
  | .completeBuildJob tier ref _ => ∀ job ∈ s.job? ref,
      (ref.tier = tier ∧ job.status = .running) ∨ (job.status ≠ .running ∧ s.running tier = 0)
  | .pushBuildJob .. | .timeout _ => True

variable {s t : State} {ref : Ref} {job new ended : BuildJob} {tier : String} {success : Bool}

@[simp] theorem job?_setJob_self (found : s.job? ref = some job) : (s.setJob ref new).job? ref = some new := by
  obtain ⟨inside, -⟩ := List.getElem?_eq_some_iff.mp found
  simp [State.job?, State.setJob, inside]

theorem job?_setJob_ne {other : Ref} (different : other ≠ ref) : (s.setJob ref new).job? other = s.job? other := by
  obtain ⟨tier, index⟩ := ref
  obtain ⟨otherTier, otherIndex⟩ := other
  unfold State.job? State.setJob
  by_cases same : otherTier = tier
  · subst same
    have apart : index ≠ otherIndex := by
      rintro rfl
      exact different rfl
    simp [apart]
  · simp [same]

theorem countP_set {p : BuildJob → Bool} {jobs : List BuildJob} {index : Nat} (new : BuildJob)
    (found : jobs[index]? = some job) :
    (jobs.set index new).countP p + (if p job then 1 else 0) = jobs.countP p + if p new then 1 else 0 := by
  induction jobs generalizing index with
  | nil => simp at found
  | cons first rest ih =>
    cases index with
    | zero =>
      cases found
      simp only [List.set_cons_zero, List.countP_cons]
      omega
    | succ index =>
      have later := ih found
      simp only [List.set_cons_succ, List.countP_cons]
      omega

/-- What a change of one job does to the numbers of running jobs. -/
theorem running_setJob (new : BuildJob) (found : s.job? ref = some job) (tier : String) :
    (s.setJob ref new).running tier + (if tier = ref.tier ∧ job.status = .running then 1 else 0) =
      s.running tier + if tier = ref.tier ∧ new.status = .running then 1 else 0 := by
  by_cases own : tier = ref.tier
  · subst own
    have counts := countP_set (p := fun job => job.status = .running) new found
    simpa [State.running, State.setJob] using counts
  · simp [State.running, State.setJob, own]

theorem active_complete : getActiveBuildCount (completeBuildJob s tier ref ended success) =
    Function.update (getActiveBuildCount s) tier (getActiveBuildCount s tier - 1) := by
  funext other
  unfold getActiveBuildCount completeBuildJob
  by_cases same : other = tier
  · subst same
    cases s.activeByTier other with
    | none => simp
    | some active => simp
  · simp [same]

theorem running_complete (ended : BuildJob) (success : Bool) (found : s.job? ref = some job) (tier other : String) :
    (completeBuildJob s tier ref ended success).running other +
      (if other = ref.tier ∧ job.status = .running then 1 else 0) = s.running other := by
  have stopped : (if success then Status.completed else Status.failed) ≠ .running := by cases success <;> decide
  refine (running_setJob _ found other).trans ?_
  rw [if_neg fun both => stopped both.2, Nat.add_zero]

/-- `ended` is the job as its completion finds it. -/
theorem complete_bounded (bounded : Bounded s) (found : s.job? ref = some job)
    (orderly : Orderly s (.completeBuildJob tier ref success)) :
    Bounded (completeBuildJob s tier ref ended success) := by
  have counts := fun other => running_complete ended success found tier other
  constructor
  · intro other
    have limited := bounded.limited other
    have count := counts other
    omega
  · intro other
    have counted := bounded.counted other
    have count := counts other
    rw [active_complete]
    rcases orderly job found with ⟨rfl, running⟩ | ⟨stopped, none⟩
    · by_cases own : other = ref.tier
      · subst own
        simp only [running, and_self, if_true] at count
        rw [Function.update_self]
        omega
      · rw [Function.update_of_ne own, counted]
        simpa [own] using count.symm
    · rw [if_neg fun both => stopped both.2] at count
      by_cases own : other = tier
      · subst own
        rw [Function.update_self]
        omega
      · rw [Function.update_of_ne own]
        omega

/-- A completion keeps the counts right only if it is orderly. -/
theorem orderly_of_complete (bounded : Bounded s) (found : s.job? ref = some job)
    (kept : Bounded (completeBuildJob s tier ref job success)) :
    Orderly s (.completeBuildJob tier ref success) := by
  intro other same
  rw [Option.mem_def, found] at same
  cases same
  have count := running_complete job success found tier tier
  have counted := bounded.counted tier
  have after := kept.counted tier
  rw [active_complete, Function.update_self] at after
  by_cases running : job.status = .running
  · by_cases own : ref.tier = tier
    · exact .inl ⟨own, running⟩
    · -- the tier of the job still counts it
      have lost := running_complete job success found tier ref.tier
      have before := bounded.counted ref.tier
      have still := kept.counted ref.tier
      rw [active_complete, Function.update_of_ne own] at still
      simp only [running, and_self, if_true] at lost
      omega
  · rw [if_neg fun both => running both.2] at count
    exact .inr ⟨running, by omega⟩

theorem next?_job (found : next? s tier = some index) :
    ∃ job, s.job? ⟨tier, index⟩ = some job ∧ job.status = .queued := by
  obtain ⟨inside, queued, -⟩ := List.findIdx?_eq_some_iff_getElem.mp found
  exact ⟨_, List.getElem?_eq_getElem inside, of_decide_eq_true queued⟩

/-- Starting a job makes one more run, and counts it. -/
theorem startBuildJob_cases (s : State) (tier : String) : (next? s tier = none ∧ (startBuildJob s tier).1 = s) ∨
    ∃ ref job, next? s tier = some ref.index ∧ ref.tier = tier ∧ s.job? ref = some job ∧ job.status = .queued ∧
      (startBuildJob s tier).1 = { s.setJob ref { job with status := .running, timer := 0 < job.timeoutMs } with
        activeByTier := Function.update s.activeByTier tier (some (getActiveBuildCount s tier + 1)) } := by
  unfold startBuildJob
  cases waiting : next? s tier with
  | none => exact .inl ⟨rfl, rfl⟩
  | some index =>
    obtain ⟨job, found, queued⟩ := next?_job waiting
    right
    refine ⟨⟨tier, index⟩, job, rfl, rfl, found, queued, ?_⟩
    simp only [Option.map_some, found]

theorem started_counts (found : s.job? ref = some job) (queued : job.status = .queued) (other : String) :
    (s.setJob ref { job with status := .running, timer := 0 < job.timeoutMs }).running other =
      s.running other + if other = ref.tier then 1 else 0 := by
  have counts := running_setJob { job with status := .running, timer := 0 < job.timeoutMs } found other
  simpa [queued] using counts

theorem start_bounded (bounded : Bounded s) (room : Orderly s (.startBuildJob tier)) :
    Bounded (startBuildJob s tier).1 := by
  rcases startBuildJob_cases s tier with ⟨-, same⟩ | ⟨ref, job, waits, rfl, found, queued, started⟩
  · rwa [same]
  · rw [started]
    have counts := fun other => started_counts found queued other
    constructor
    · intro other
      have limited := bounded.limited other
      have count := counts other
      by_cases own : other = ref.tier
      · subst own
        have below := room (by rw [waits]; rfl)
        rw [if_pos rfl] at count
        exact count ▸ below
      · rw [if_neg own] at count
        exact count ▸ limited
    · intro other
      have counted := bounded.counted other
      have count := counts other
      unfold getActiveBuildCount at counted ⊢
      by_cases own : other = ref.tier
      · subst own
        rw [if_pos rfl] at count
        simp only [Function.update_self, Option.getD_some]
        exact (congrArg (· + 1) counted).trans count.symm
      · rw [if_neg own] at count
        simp only [Function.update_of_ne own]
        exact counted.trans count.symm

theorem room_of_start (kept : Bounded (startBuildJob s tier).1) : Orderly s (.startBuildJob tier) := by
  intro waits
  rcases startBuildJob_cases s tier with ⟨none, -⟩ | ⟨ref, job, -, rfl, found, queued, started⟩
  · rw [none] at waits
    contradiction
  · rw [started] at kept
    have limited : (s.setJob ref { job with status := .running, timer := 0 < job.timeoutMs }).running ref.tier ≤
        getConcurrencyLimit ref.tier := kept.limited ref.tier
    rw [started_counts found queued ref.tier, if_pos rfl] at limited
    exact limited

/-- A push is rejected, or adds a queued job. -/
theorem push_cases {apiKeyId : Option String} {id : String} {now : Nat}
    (stepped : step s (.pushBuildJob tier apiKeyId id now) = some t) :
    t = s ∨ ∃ job : BuildJob, job.status = .queued ∧ job.promise = .pending ∧ job.timedOut = false ∧
      t = { s with jobsByTier := Function.update s.jobsByTier tier (s.jobsByTier tier ++ [job]) } := by
  simp only [step] at stepped
  cases pushed : pushBuildJob s tier apiKeyId id now with
  | error text =>
    rw [pushed] at stepped
    cases stepped
    exact .inl rfl
  | ok next =>
    rw [pushed] at stepped
    cases stepped
    simp only [pushBuildJob] at pushed
    split at pushed
    · contradiction
    · split at pushed
      · contradiction
      · cases pushed
        exact .inr ⟨_, rfl, rfl, rfl, rfl⟩

theorem pushed_running (queued : job.status = .queued) (other : String) :
    State.running { s with jobsByTier := Function.update s.jobsByTier tier (s.jobsByTier tier ++ [job]) } other =
      s.running other := by
  by_cases own : other = tier
  · subst own
    simp [State.running, List.countP_append, queued]
  · simp [State.running, own]

theorem setTimer_running (found : s.job? ref = some job) (tier : String) :
    (s.setJob ref { job with timer := false }).running tier = s.running tier := by
  have counts := running_setJob { job with timer := false } found tier
  simpa using counts

/-- A timer that finds its job running completes it under its own tier. -/
theorem timeout_bounded (bounded : Bounded s) (found : s.job? ref = some job) : Bounded (timeoutFires s ref job) := by
  unfold timeoutFires
  by_cases running : job.status = .running
  · rw [if_pos running]
    refine complete_bounded bounded found ?_
    intro other same
    rw [Option.mem_def, found] at same
    cases same
    exact .inl ⟨rfl, running⟩
  · rw [if_neg running]
    exact ⟨fun tier => setTimer_running found tier ▸ bounded.limited tier,
      fun tier => (bounded.counted tier).trans (setTimer_running found tier).symm⟩

theorem step_bounded {a : Act} (bounded : Bounded s) (orderly : Orderly s a) (stepped : step s a = some t) :
    Bounded t := by
  cases a with
  | pushBuildJob tier apiKeyId id now =>
    rcases push_cases stepped with rfl | ⟨job, queued, -, -, rfl⟩
    · exact bounded
    · constructor
      · intro other
        rw [pushed_running queued]
        exact bounded.limited other
      · intro other
        rw [pushed_running queued]
        exact bounded.counted other
  | startBuildJob tier =>
    cases stepped
    exact start_bounded bounded orderly
  | completeBuildJob tier ref success =>
    obtain ⟨job, found, rfl⟩ := Option.map_eq_some_iff.mp stepped
    exact complete_bounded bounded found orderly
  | timeout ref =>
    obtain ⟨job, armed, rfl⟩ := Option.map_eq_some_iff.mp stepped
    exact timeout_bounded bounded (Option.filter_eq_some_iff.mp armed).1

theorem orderly_of_step {a : Act} (bounded : Bounded s) (stepped : step s a = some t) (kept : Bounded t) :
    Orderly s a := by
  cases a with
  | pushBuildJob | timeout => trivial
  | startBuildJob tier =>
    cases stepped
    exact room_of_start kept
  | completeBuildJob tier ref success =>
    obtain ⟨job, found, rfl⟩ := Option.map_eq_some_iff.mp stepped
    exact orderly_of_complete bounded found kept

theorem empty_bounded : Bounded empty := ⟨fun _ => Nat.zero_le _, fun _ => rfl⟩

theorem Promise.settle_of_settled {promise : Promise} (settled : promise ≠ .pending) (outcome : Promise) :
    promise.settle outcome = promise := by
  cases promise with
  | pending => contradiction
  | resolved | rejected => rfl

/-- A job that was settled keeps its promise, and its successor is settled right. -/
structure Follows (job new : BuildJob) : Prop where
  settled : job.Settled → new.Settled
  kept : job.promise ≠ .pending → new.promise = job.promise

/-- What a step does to the jobs, whatever it does to the counters. -/
structure Progress (s t : State) : Prop where
  settled : Settled s → Settled t
  kept : Kept s t

theorem Progress.refl (s : State) : Progress s s := ⟨id, fun _ job found _ => ⟨job, found, rfl⟩⟩

theorem Progress.setJob (found : s.job? ref = some job) (follows : Follows job new)
    (jobs : t.jobsByTier = (s.setJob ref new).jobsByTier) : Progress s t := by
  have same (other : Ref) : t.job? other = (s.setJob ref new).job? other := by
    unfold State.job?
    rw [jobs]
  constructor
  · intro settled other later member
    rw [same] at member
    by_cases own : other = ref
    · subst own
      rw [job?_setJob_self found] at member
      cases member
      exact follows.settled (settled _ job found)
    · rw [job?_setJob_ne own] at member
      exact settled other later member
  · intro other earlier member settled
    rw [same]
    by_cases own : other = ref
    · subst own
      rw [found] at member
      cases member
      exact ⟨new, job?_setJob_self found, follows.kept settled⟩
    · exact ⟨earlier, (job?_setJob_ne own).trans member, rfl⟩

theorem follows_complete (job : BuildJob) (success : Bool) : Follows job { job with
    status := if success then .completed else .failed, promise := job.promise.settle .resolved } := by
  constructor
  · rintro ⟨ended, rejected⟩
    cases promise : job.promise with
    | pending =>
      have unexpired : job.timedOut ≠ true := fun late => by
        rw [← rejected, promise] at late
        contradiction
      constructor <;> cases success <;> simp [Promise.settle, unexpired]
    | resolved | rejected =>
      rw [promise] at rejected
      constructor
      · cases success <;> simp [Promise.settle]
      · simpa [Promise.settle] using rejected
  · exact fun settled => Promise.settle_of_settled settled _

theorem follows_start (queued : job.status = .queued) (timer : Bool) :
    Follows job { job with status := .running, timer := timer } := by
  constructor
  · rintro ⟨ended, rejected⟩
    exact ⟨by simpa [queued] using ended, rejected⟩
  · exact fun _ => rfl

/-- The timer rejects the promise before `completeBuildJob` would resolve it. -/
theorem follows_timeout (running : job.status = .running) : Follows job { job with
    status := .failed, promise := (job.promise.settle .rejected).settle .resolved, timer := false,
    timedOut := true } := by
  constructor
  · rintro ⟨ended, -⟩
    have pending : job.promise = .pending := ended.mpr (.inr running)
    rw [pending]
    exact ⟨by simp [Promise.settle], by simp [Promise.settle]⟩
  · intro settled
    rw [Promise.settle_of_settled settled, Promise.settle_of_settled settled]

theorem pushed_progress (queued : job.status = .queued) (pending : job.promise = .pending)
    (inTime : job.timedOut = false) : Progress s
      { s with jobsByTier := Function.update s.jobsByTier tier (s.jobsByTier tier ++ [job]) } := by
  constructor
  · intro settled other later member
    by_cases own : other.tier = tier
    · subst own
      simp only [State.job?, Function.update_self] at member
      rcases List.mem_append.mp (List.mem_of_getElem? member) with old | new
      · obtain ⟨index, found⟩ := List.mem_iff_getElem?.mp old
        exact settled ⟨other.tier, index⟩ later found
      · rw [List.mem_singleton.mp new]
        exact ⟨by simp [queued, pending], by simp [pending, inTime]⟩
    · simp only [State.job?, Function.update_of_ne own] at member
      exact settled other later member
  · intro other earlier member settled
    refine ⟨earlier, ?_, rfl⟩
    by_cases own : other.tier = tier
    · subst own
      simp only [State.job?, Function.update_self]
      obtain ⟨inside, -⟩ := List.getElem?_eq_some_iff.mp member
      rwa [List.getElem?_append_left inside]
    · simpa only [State.job?, Function.update_of_ne own] using member

theorem step_progress {a : Act} (stepped : step s a = some t) : Progress s t := by
  cases a with
  | pushBuildJob tier apiKeyId id now =>
    rcases push_cases stepped with rfl | ⟨job, queued, pending, inTime, rfl⟩
    · exact .refl t
    · exact pushed_progress queued pending inTime
  | startBuildJob tier =>
    cases stepped
    rcases startBuildJob_cases s tier with ⟨-, same⟩ | ⟨ref, job, -, -, found, queued, started⟩
    · rw [same]
      exact .refl s
    · rw [started]
      exact .setJob found (follows_start queued _) rfl
  | completeBuildJob tier ref success =>
    obtain ⟨job, found, rfl⟩ := Option.map_eq_some_iff.mp stepped
    exact .setJob found (follows_complete job success) rfl
  | timeout ref =>
    obtain ⟨job, armed, rfl⟩ := Option.map_eq_some_iff.mp stepped
    have found := (Option.filter_eq_some_iff.mp armed).1
    unfold timeoutFires
    by_cases running : job.status = .running
    · rw [if_pos running]
      exact .setJob found (follows_timeout running) rfl
    · rw [if_neg running]
      have follows : Follows job { job with timer := false } :=
        ⟨fun settled => ⟨settled.ended, settled.rejected⟩, fun _ => rfl⟩
      exact .setJob found follows rfl

theorem reachable_settled (reached : system.Reachable s) : Settled s := by
  refine reached.invariant ?_ fun settled _ stepped => (step_progress stepped).settled settled
  rintro _ rfl ref job found
  simp [State.job?, empty] at found

/-- A run keeps the counts right and within the limits throughout iff jobs start below the limit
and only running ones are completed, under their own tier, or ones that change no count. The
promises are settled once in every run, and as rejected for those that timed out. -/
theorem builds_bounded_iff (labels : List Act) :
    (system.Along Bounded empty labels ↔ system.Guarded Orderly empty labels) ∧
      ∀ s, system.Reachable s → Settled s ∧ ∀ a t, system.step s a = some t → Kept s t := by
  constructor
  · exact Transition.System.along_iff_guarded id step_bounded orderly_of_step empty_bounded labels
  · intro s reached
    exact ⟨reachable_settled reached, fun a t stepped => (step_progress stepped).kept⟩

def push (tier : String) : Act := .pushBuildJob tier none "build-1-a" 1

/-- Two jobs of one tier run side by side; one is completed, the other times out. -/
def sideBySide : List Act :=
  [push "developer", push "developer", .startBuildJob "developer", .startBuildJob "developer",
    .completeBuildJob "developer" ⟨"developer", 0⟩ true, .timeout ⟨"developer", 1⟩, push "developer"]

def orderly (s : State) : Act → Bool
  | .startBuildJob tier => s.running tier < getConcurrencyLimit tier
  | .completeBuildJob tier ref _ => ref.tier = tier ∧ (s.job? ref).all fun job => job.status = .running
  | .pushBuildJob .. | .timeout _ => true

theorem orderly_sound (s : State) (a : Act) (checked : orderly s a = true) : Orderly s a := by
  cases a with
  | startBuildJob tier => exact fun _ => of_decide_eq_true checked
  | completeBuildJob tier ref success =>
    obtain ⟨own, running⟩ := of_decide_eq_true checked
    intro job found
    rw [Option.mem_def] at found
    rw [found] at running
    exact .inl ⟨own, of_decide_eq_true running⟩
  | pushBuildJob | timeout => trivial

theorem sideBySide_bounded : system.Along Bounded empty sideBySide :=
  (builds_bounded_iff sideBySide).1.mpr (Transition.System.guarded_of_guardedBy orderly orderly_sound (by decide))

/-- The counter does not move while the jobs queue. -/
def queuedAhead : List Act :=
  [push "developer", push "developer", push "developer", .startBuildJob "developer", .startBuildJob "developer",
    .startBuildJob "developer"]

theorem queuedAhead_unbounded : ¬ ∀ s, system.Reachable s → Bounded s := by
  intro claim
  have reached := Transition.System.reachable_of_run system empty queuedAhead rfl rfl
  exact absurd ((claim _ reached).limited "developer") (by decide)

end Octraban.BuildQueue
