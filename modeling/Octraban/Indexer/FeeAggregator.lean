import Octraban.Core.BigInt
import Octraban.Core.Upsert

/-! fee-aggregator.ts: the revenue of each contract by hour and by day, and the yields over the last days. -/
namespace Octraban.FeeAggregator
open JavaScript (Number number roundRat bigIntText bigInt_bigIntText lastField_inj)
open Sql

inductive RevenuePeriod where
  | HOUR
  | DAY
  deriving DecidableEq

def RevenuePeriod.name : RevenuePeriod → String
  | .HOUR => "HOUR"
  | .DAY => "DAY"

def PERIOD_MS : RevenuePeriod → ℤ
  | .HOUR => 60 * 60 * 1000
  | .DAY => 24 * 60 * 60 * 1000

structure FeeEvent where
  contractAddress : String
  destination : String
  amount : String
  timestamp : ℤ

/-- A row of the table, as far as the yields and the anomalies read it. -/
structure ProtocolRevenue where
  contractAddress : String
  period : RevenuePeriod
  timestamp : ℤ
  totalFees : String
  lpRewards : String
  stakerRewards : String

abbrev Revenue := Table String ProtocolRevenue

structure YieldSnapshot where
  contractAddress : String
  timestamp : ℤ
  lpApr1d : Option Number
  lpApr7d : Option Number
  lpApr30d : Option Number
  stakingApr1d : Option Number
  stakingApr7d : Option Number
  stakingApr30d : Option Number
  totalValueLocked : Option String
  stakedValue : Option String
  revenueShare : Option Number

/-- What a run meets: the events, the clock as it starts and at the snapshot of each contract, the value
that the profile of a contract has, and `String` of a number. -/
structure Run where
  events : List FeeEvent
  now : ℤ
  clock : String → ℤ
  tvl : String → Option String
  string : Number → String

def alignedBucketStart (period : RevenuePeriod) (now : ℤ) : ℤ := now / PERIOD_MS period * PERIOD_MS period - PERIOD_MS period

/-- The events of a period, by its start. -/
def within (period : RevenuePeriod) (bucketStart : ℤ) (events : List FeeEvent) : List FeeEvent :=
  events.filter fun e => bucketStart ≤ e.timestamp ∧ e.timestamp < bucketStart + PERIOD_MS period

def sumOf (events : List FeeEvent) : Number := events.foldl (fun s e => s.add (number e.amount)) (.finite 0)

def destSum (events : List FeeEvent) (dests : List String) : Number :=
  sumOf (events.filter fun e => e.destination ∈ dests)

def revenueId (contractAddress : String) (period : RevenuePeriod) (bucketStart : ℤ) : String :=
  contractAddress ++ "_" ++ period.name ++ "_" ++ bigIntText bucketStart

section
variable (run : Run) (period : RevenuePeriod) (bucketStart : ℤ)

def aggregateForContract (revenue : Revenue) (contractAddress : String) : Revenue :=
  let events := (within period bucketStart run.events).filter fun e => e.contractAddress = contractAddress
  if events = [] then revenue
  else
    let totalFees := run.string (sumOf events)
    let lpRewards := run.string (destSum events ["LP_REWARDS"])
    let stakerRewards := run.string (destSum events ["STAKER_REWARDS"])
    revenue.upsert (revenueId contractAddress period bucketStart)
      { contractAddress, period, timestamp := bucketStart, totalFees, lpRewards, stakerRewards }
      fun row => { row with totalFees, lpRewards, stakerRewards }

/-- The contracts with an event in the period, each once. -/
def contractsOf : List String := ((within period bucketStart run.events).map FeeEvent.contractAddress).dedup

end

def computeApr (rewardsPerPeriod value periodsPerYear : Number) : Number :=
  if value.le (.finite 0) then .finite 0
  else ((rewardsPerPeriod.div value).mul periodsPerYear).mul (.finite 100)

def computeLpApr (lpRewardsPerPeriod tvl periodsPerYear : Number) : Number :=
  computeApr lpRewardsPerPeriod tvl periodsPerYear

def computeStakingApr (stakerRewardsPerPeriod stakedTvl periodsPerYear : Number) : Number :=
  computeApr stakerRewardsPerPeriod stakedTvl periodsPerYear

/-- The daily rows of a contract that a window of so many days takes. -/
def windowRows (revenue : Revenue) (contractAddress : String) (now days : ℤ) : List ProtocolRevenue :=
  let since := now - days * 24 * 60 * 60 * 1000
  (revenue.entries.map Sigma.snd).filter fun r =>
    r.contractAddress = contractAddress ∧ r.period = .DAY ∧ since ≤ r.timestamp

structure Rewards where
  lp : Number
  staker : Number

def revForWindow (revenue : Revenue) (contractAddress : String) (now days : ℤ) : Rewards :=
  (windowRows revenue contractAddress now days).foldl
    (fun acc r => ⟨acc.lp.add (number r.lpRewards), acc.staker.add (number r.stakerRewards)⟩)
    ⟨.finite 0, .finite 0⟩

def finiteOnly (x : Number) : Option Number := if x.isFinite then some x else none

def computeYieldSnapshot (run : Run) (revenue : Revenue) (contractAddress : String) : YieldSnapshot :=
  let now := run.clock contractAddress
  let tvl := ((run.tvl contractAddress).map number).getD (.finite 0)
  let stakedValue := tvl.mul (roundRat (1 / 2))
  let w1 := revForWindow revenue contractAddress now 1
  let w7 := revForWindow revenue contractAddress now 7
  let w30 := revForWindow revenue contractAddress now 30
  let totalRev := w30.lp.add w30.staker
  { contractAddress, timestamp := now
    lpApr1d := finiteOnly (computeLpApr w1.lp tvl (.finite 365))
    lpApr7d := finiteOnly (computeLpApr (w7.lp.div (.finite 7)) tvl (.finite 365))
    lpApr30d := finiteOnly (computeLpApr (w30.lp.div (.finite 30)) tvl (.finite 365))
    stakingApr1d := finiteOnly (computeStakingApr w1.staker stakedValue (.finite 365))
    stakingApr7d := finiteOnly (computeStakingApr (w7.staker.div (.finite 7)) stakedValue (.finite 365))
    stakingApr30d := finiteOnly (computeStakingApr (w30.staker.div (.finite 30)) stakedValue (.finite 365))
    totalValueLocked := run.tvl contractAddress
    stakedValue := if (Number.finite 0).lt stakedValue then some (run.string stakedValue) else none
    revenueShare :=
      if (Number.finite 0).lt tvl ∧ (Number.finite 0).lt totalRev then
        some ((totalRev.div tvl).mul (.finite 100))
      else none }

def runHourlyAggregation (run : Run) (revenue : Revenue) : Revenue :=
  let bucketStart := alignedBucketStart .HOUR run.now
  (contractsOf run .HOUR bucketStart).foldl (aggregateForContract run .HOUR bucketStart) revenue

/-- The table after some contracts of a daily run, and the snapshots made. -/
def dailyStep (run : Run) (state : Revenue × List YieldSnapshot) (contractAddress : String) :
    Revenue × List YieldSnapshot :=
  let revenue := aggregateForContract run .DAY (alignedBucketStart .DAY run.now) state.1 contractAddress
  (revenue, state.2 ++ [computeYieldSnapshot run revenue contractAddress])

def runDailyAggregation (run : Run) (revenue : Revenue) : Revenue × List YieldSnapshot :=
  (contractsOf run .DAY (alignedBucketStart .DAY run.now)).foldl (dailyStep run) (revenue, [])

/-! ### Whole days -/

/-- The tables that the snapshots of a daily run read, each with its contract. -/
def snapshotReads (run : Run) : Revenue → List String → List (String × Revenue)
  | _, [] => []
  | revenue, contractAddress :: rest =>
    let aggregated := aggregateForContract run .DAY (alignedBucketStart .DAY run.now) revenue contractAddress
    (contractAddress, aggregated) :: snapshotReads run aggregated rest

/-- The start of the UTC day. -/
def midnight (t : ℤ) : ℤ := t / PERIOD_MS .DAY * PERIOD_MS .DAY

/-- The rows of a contract for the last so many days that are over. -/
def recentRows (revenue : Revenue) (contractAddress : String) (t days : ℤ) : List ProtocolRevenue :=
  (revenue.entries.map Sigma.snd).filter fun r => r.contractAddress = contractAddress ∧ r.period = .DAY ∧
    midnight t - days * PERIOD_MS .DAY ≤ r.timestamp ∧ r.timestamp < midnight t

/-- Every window of every snapshot takes the rows of the last days that are over. -/
def WholeDays (run : Run) (revenue : Revenue) : Prop :=
  ∀ read ∈ snapshotReads run revenue (contractsOf run .DAY (alignedBucketStart .DAY run.now)), ∀ days ∈ [1, 7, 30],
    windowRows read.2 read.1 (run.clock read.1) days = recentRows read.2 read.1 run.now days

inductive Job where
  | hourly (run : Run)
  | daily (run : Run)

def Job.run : Job → Run
  | hourly run | daily run => run

def Job.perform (revenue : Revenue) : Job → Revenue
  | hourly run => runHourlyAggregation run revenue
  | daily run => (runDailyAggregation run revenue).1

/-- The rows have their own ids, and the daily ones are for days that are over. -/
structure Kept (t : ℤ) (revenue : Revenue) : Prop where
  ids : ∀ id row, revenue.lookup id = some row → id = revenueId row.contractAddress row.period row.timestamp
  days : ∀ id row, revenue.lookup id = some row → row.period = .DAY →
    ∃ day : ℤ, row.timestamp = day * PERIOD_MS .DAY ∧ row.timestamp < midnight t

variable {run : Run} {revenue : Revenue} {t now days : ℤ} {c d : String} {period other : RevenuePeriod}
  {bucketStart start : ℤ}

theorem runDailyAggregation_eq (run : Run) (revenue : Revenue) :
    let contracts := contractsOf run .DAY (alignedBucketStart .DAY run.now)
    runDailyAggregation run revenue =
      (contracts.foldl (aggregateForContract run .DAY (alignedBucketStart .DAY run.now)) revenue,
        (snapshotReads run revenue contracts).map fun read => computeYieldSnapshot run read.2 read.1) := by
  have whole (contracts : List String) (revenue : Revenue) (made : List YieldSnapshot) :
      contracts.foldl (dailyStep run) (revenue, made) =
        (contracts.foldl (aggregateForContract run .DAY (alignedBucketStart .DAY run.now)) revenue,
          made ++ (snapshotReads run revenue contracts).map fun read => computeYieldSnapshot run read.2 read.1) := by
    induction contracts generalizing revenue made with
    | nil => simp [snapshotReads]
    | cons c contracts ih =>
      rw [List.foldl_cons, dailyStep, ih]
      simp [snapshotReads]
  exact whole _ revenue []

theorem revenueId_inj (same : revenueId c period bucketStart = revenueId d other start) :
    c = d ∧ period = other ∧ bucketStart = start := by
  have digits (n : ℤ) : '_' ∉ (bigIntText n).toList := by
    rw [bigIntText, String.toList_ofList]
    split
    · exact List.not_mem_cons_of_ne_of_not_mem (by decide) (JavaScript.notMem_decimal rfl _)
    · exact JavaScript.notMem_decimal rfl _
  have plain (p : RevenuePeriod) : '_' ∉ p.name.toList := by cases p <;> decide
  have texts := String.toList_inj.mpr same
  simp only [revenueId, String.toList_append] at texts
  obtain ⟨front, times⟩ := lastField_inj ⟨digits bucketStart, digits start⟩ texts
  obtain ⟨contracts, periods⟩ := lastField_inj ⟨plain period, plain other⟩ front
  refine ⟨String.toList_inj.mp contracts, ?_, ?_⟩
  · cases period <;> cases other <;> first | rfl | exact absurd periods (by decide)
  · have read := congrArg JavaScript.bigInt (String.toList_inj.mp times)
    rw [bigInt_bigIntText, bigInt_bigIntText] at read
    exact Option.some.inj read

/-- The row written is for the contract, the period and the start. -/
theorem aggregateForContract_cases (run : Run) (period : RevenuePeriod) (bucketStart : ℤ) (c : String)
    (kept : Kept t revenue) :
    aggregateForContract run period bucketStart revenue c = revenue ∧
        c ∉ contractsOf run period bucketStart ∨
      ∃ row : ProtocolRevenue, row.contractAddress = c ∧ row.period = period ∧ row.timestamp = bucketStart ∧
        (aggregateForContract run period bucketStart revenue c).lookup (revenueId c period bucketStart) = some row ∧
        ∀ id, id ≠ revenueId c period bucketStart →
          (aggregateForContract run period bucketStart revenue c).lookup id = revenue.lookup id := by
  unfold aggregateForContract
  dsimp only
  split
  · rename_i none
    refine .inl ⟨rfl, fun member => ?_⟩
    obtain ⟨e, inside, rfl⟩ := List.mem_map.mp (List.mem_dedup.mp member)
    exact List.filter_eq_nil_iff.mp none e inside (decide_eq_true rfl)
  · refine .inr ?_
    cases stored : revenue.lookup (revenueId c period bucketStart) with
    | none =>
      refine ⟨_, ?_, ?_, ?_, by rw [Table.lookup_upsert_self, stored], fun id ne => Table.lookup_upsert_ne ne⟩ <;> rfl
    | some old =>
      obtain ⟨contract, sort, time⟩ := revenueId_inj (kept.ids _ old stored)
      refine ⟨_, ?_, ?_, ?_, by rw [Table.lookup_upsert_self, stored], fun id ne => Table.lookup_upsert_ne ne⟩
      · exact contract.symm
      · exact sort.symm
      · exact time.symm

theorem Kept.aggregate (kept : Kept t revenue) (earlier : run.now ≤ t) (period : RevenuePeriod) (c : String) :
    Kept t (aggregateForContract run period (alignedBucketStart period run.now) revenue c) := by
  rcases aggregateForContract_cases run period (alignedBucketStart period run.now) c kept with ⟨same, -⟩ | ⟨row, contract, sort, time, written, others⟩
  · rw [same]
    exact kept
  · constructor
    · intro id stored found
      by_cases same : id = revenueId c period (alignedBucketStart period run.now)
      · rw [same, written] at found
        cases found
        rw [same, contract, sort, time]
      · rw [others id same] at found
        exact kept.ids id stored found
    · intro id stored found daily
      by_cases same : id = revenueId c period (alignedBucketStart period run.now)
      · rw [same, written] at found
        cases found
        rw [sort] at daily
        subst daily
        refine ⟨run.now / PERIOD_MS .DAY - 1, ?_, ?_⟩
        · rw [time, alignedBucketStart]
          ring
        · rw [time, alignedBucketStart, midnight, PERIOD_MS]
          omega
      · rw [others id same] at found
        exact kept.days id stored found daily

theorem Kept.aggregateAll (kept : Kept t revenue) (earlier : run.now ≤ t) (period : RevenuePeriod)
    (contracts : List String) :
    Kept t (contracts.foldl (aggregateForContract run period (alignedBucketStart period run.now)) revenue) :=
  List.foldlRecOn contracts _ kept fun _ kept c _ => kept.aggregate earlier period c

theorem Kept.jobs (kept : Kept t revenue) (jobs : List Job) (earlier : ∀ job ∈ jobs, job.run.now ≤ t) :
    Kept t (jobs.foldl Job.perform revenue) := by
  refine List.foldlRecOn jobs _ kept fun revenue kept job member => ?_
  cases job with
  | hourly run => exact kept.aggregateAll (earlier _ member) .HOUR _
  | daily run =>
    rw [Job.perform, runDailyAggregation_eq]
    exact kept.aggregateAll (earlier _ member) .DAY _

theorem kept_empty (t : ℤ) : Kept t ∅ where
  ids _ _ found := by simp at found
  days _ _ found := by simp at found

/-- What a snapshot reads has the row of the day before. -/
theorem snapshotReads_spec (kept : Kept run.now revenue) {contracts : List String}
    (known : ∀ c ∈ contracts, c ∈ contractsOf run .DAY (alignedBucketStart .DAY run.now)) :
    (snapshotReads run revenue contracts).map Prod.fst = contracts ∧
    ∀ read ∈ snapshotReads run revenue contracts, Kept run.now read.2 ∧ ∃ id row, read.2.lookup id = some row ∧
      row.contractAddress = read.1 ∧ row.period = .DAY ∧ row.timestamp = alignedBucketStart .DAY run.now := by
  induction contracts generalizing revenue with
  | nil => exact ⟨rfl, fun read member => nomatch member⟩
  | cons c rest ih =>
    obtain ⟨here, later⟩ := List.forall_mem_cons.mp known
    obtain ⟨names, reads⟩ := ih (kept.aggregate le_rfl .DAY c) later
    refine ⟨congrArg (c :: ·) names, fun read member => ?_⟩
    rcases List.mem_cons.mp member with rfl | member
    · refine ⟨kept.aggregate le_rfl .DAY c, ?_⟩
      rcases aggregateForContract_cases run .DAY (alignedBucketStart .DAY run.now) c kept with
        ⟨-, absent⟩ | ⟨row, contract, sort, time, written, -⟩
      · exact absurd here absent
      · exact ⟨_, row, written, contract, sort, time⟩
    · exact reads read member

theorem windows_of_midnight (kept : Kept t revenue) (c : String) (days : ℤ) :
    windowRows revenue c (midnight t) days = recentRows revenue c t days := by
  refine List.filter_congr fun row member => ?_
  obtain ⟨⟨id, row⟩, stored, rfl⟩ := List.mem_map.mp member
  have found := AList.mem_lookup_iff.mpr stored
  refine decide_eq_decide.mpr (and_congr_right fun _ => and_congr_right fun daily => ?_)
  obtain ⟨-, -, ended⟩ := kept.days id row found daily
  rw [and_iff_left ended, PERIOD_MS]
  ring_nf

/-- The window of one day shows it: it misses the day before as soon as the clock is past midnight. -/
theorem midnight_of_window (present : ∃ id row, revenue.lookup id = some row ∧ row.contractAddress = c ∧
      row.period = .DAY ∧ row.timestamp = alignedBucketStart .DAY t)
    (later : t ≤ now) (same : windowRows revenue c now 1 = recentRows revenue c t 1) : now = midnight t := by
  obtain ⟨id, row, found, contract, daily, time⟩ := present
  have stored : row ∈ revenue.entries.map Sigma.snd :=
    List.mem_map_of_mem (f := Sigma.snd) (AList.mem_lookup_iff.mp found)
  have recent : row ∈ recentRows revenue c t 1 := by
    refine List.mem_filter.mpr ⟨stored, decide_eq_true ⟨contract, daily, ?_, ?_⟩⟩
    · rw [time, alignedBucketStart, midnight, one_mul]
    · rw [time, alignedBucketStart, midnight, PERIOD_MS]
      omega
  rw [← same] at recent
  obtain ⟨-, -, inside⟩ := of_decide_eq_true (List.mem_filter.mp recent).2
  rw [time, alignedBucketStart, PERIOD_MS] at inside
  rw [midnight, PERIOD_MS]
  omega

theorem wholeDays_iff (kept : Kept run.now revenue) (later : ∀ c, run.now ≤ run.clock c) : WholeDays run revenue ↔
    ∀ c ∈ contractsOf run .DAY (alignedBucketStart .DAY run.now), run.clock c = midnight run.now := by
  obtain ⟨names, reads⟩ := snapshotReads_spec kept fun c member => member
  constructor
  · intro whole c member
    rw [← names] at member
    obtain ⟨read, inside, rfl⟩ := List.mem_map.mp member
    exact midnight_of_window (reads read inside).2 (later read.1) (whole read inside 1 (by decide))
  · intro punctual read inside days _
    have member := List.mem_map_of_mem (f := Prod.fst) inside
    rw [names] at member
    rw [punctual read.1 member]
    exact windows_of_midnight (reads read inside).1 read.1 days

/-- After any hourly and daily runs, the windows of a daily run cover whole days if and only if each of
its snapshots is made at midnight, to the millisecond. -/
theorem windows_cover_iff (jobs : List Job) (run : Run) (earlier : ∀ job ∈ jobs, job.run.now ≤ run.now)
    (later : ∀ c, run.now ≤ run.clock c) : WholeDays run (jobs.foldl Job.perform ∅) ↔
      ∀ c ∈ contractsOf run .DAY (alignedBucketStart .DAY run.now), run.clock c = midnight run.now :=
  wholeDays_iff ((kept_empty run.now).jobs jobs earlier) later

/-- One swap in the second day. -/
def feeOf : FeeEvent := ⟨"CAMM", "LP_REWARDS", "25", 100000000⟩

/-- A run in the third day, with the same instant on every reading of the clock. -/
def runAt (now : ℤ) : Run := ⟨[feeOf], now, fun _ => now, fun _ => some "1000", Number.text⟩

theorem windows_cover_midnight : WholeDays (runAt 172800000) ∅ :=
  (windows_cover_iff [] (runAt 172800000) (fun _ member => nomatch member) fun _ => le_rfl).mpr fun _ _ => rfl

/-- One millisecond late the window of one day is empty, though the day before has been aggregated. -/
theorem windows_miss_yesterday : ¬ ∀ (jobs : List Job) (run : Run), (∀ job ∈ jobs, job.run.now ≤ run.now) →
    (∀ c, run.now ≤ run.clock c) → WholeDays run (jobs.foldl Job.perform ∅) := by
  intro claimed
  have whole := claimed [] (runAt 172800001) (fun _ member => nomatch member) fun _ => le_rfl
  have known : "CAMM" ∈ contractsOf (runAt 172800001) .DAY (alignedBucketStart .DAY 172800001) := by decide
  exact absurd ((wholeDays_iff (kept_empty _) fun _ => le_rfl).mp whole "CAMM" known) (by decide)

end Octraban.FeeAggregator
