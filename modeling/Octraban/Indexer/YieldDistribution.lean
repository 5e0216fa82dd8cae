import Octraban.Core.FirstWrite
import Octraban.Core.Value

/-! yield-distribution.ts: the payouts of distribution events, recorded as the events come in and by
backfills over ranges of ledgers. Both insert a row under an id made of what the event names. -/
namespace Octraban.YieldDistribution
open JavaScript Sql

structure Topic where
  isSymbol : Bool
  native : Value

/-- An event as the RPC node serves it, its XDR decoded by `scValToNative`; `data` is absent where that fails. -/
structure Event where
  contractId : String
  transactionHash : String
  ledgerSequence : Nat
  ledgerCloseTime : Nat
  topics : List Topic
  data : Option Value

def distributionTopics : List String :=
  ["distribute", "distribute_yield", "distribute_yields", "yield_payout", "yield_distribution", "dividend",
    "dividend_payout", "reward_payout", "batch_distribute"]

structure DistributionData where
  recipient : String
  amount : String
  tokenSymbol : Option String
  distributionId : Option String
  deriving DecidableEq

def recipientOf (d : Value) : String :=
  ((d.get "recipient").orElse ((d.get "to").orElse ((d.get "address").orElse
    ((d.get "account").orElse (.text ""))))).string

def amountOf (d : Value) : String :=
  ((d.get "amount").orElse ((d.get "value").orElse ((d.get "quantity").orElse
    ((d.get "yield").orElse (.text ""))))).string

/-- The first of some fields that is truthy. -/
def firstTruthy (d : Value) (names : List String) : Option String :=
  (names.find? fun name => (d.get name).truthy).map fun name => (d.get name).string

def readDistributionData (d : Value) : Option DistributionData :=
  let recipient := recipientOf d
  let amount := amountOf d
  if recipient = "" ∨ amount = "" ∨ amount = "0" ∨ amount = "0n" then none
  else some {
    recipient, amount
    tokenSymbol := firstTruthy d ["token", "tokenSymbol"]
    distributionId := firstTruthy d ["distributionId", "batchId", "payoutId"] }

def extractDistributionData (decoded : Value) : Option DistributionData :=
  if ¬ decoded.truthy then none
  else
    let data := (decoded.field? "data").getD decoded
    readDistributionData (if data.truthy ∧ data.isObject then data else decoded)

/-- A row of the table; every column but `amount`, `tokenSymbol` and `windowLabel` is required. -/
structure Row where
  id : String
  transactionHash : String
  contractAddress : String
  distributionId : String
  recipient : String
  amount : String
  tokenSymbol : Option String
  windowLabel : String
  ledgerSequence : Nat
  ledgerCloseTime : Nat
  deriving DecidableEq

abbrev Rows := Table String Row

/-- What both paths create. There is no row without a distribution id. -/
def createRow (transactionHash contractAddress topicSymbol : String) (ledgerSequence ledgerCloseTime : Nat)
    (data : DistributionData) : Option Row :=
  data.distributionId.map fun distributionId => {
    id := "-".intercalate [transactionHash, contractAddress, data.recipient, topicSymbol]
    transactionHash, contractAddress, distributionId
    recipient := data.recipient
    amount := data.amount
    tokenSymbol := data.tokenSymbol
    windowLabel := "Corporate Yield Distribution Sync"
    ledgerSequence, ledgerCloseTime }

/-- The upsert of both paths, which updates nothing; it throws where a required column is missing. -/
def upsert (rows : Rows) (created : Option Row) : Option Rows := created.map (rows.insertNew Row.id)

def processYieldEvent (rows : Rows) (transactionHash contractAddress : String) (topicSymbol : Option String)
    (decoded : Value) (ledgerSequence ledgerCloseTime : Nat) : Option Rows :=
  match topicSymbol with
  | none => some rows
  | some topicSymbol =>
    if topicSymbol ∉ distributionTopics then some rows
    else match extractDistributionData decoded with
      | none => some rows
      | some data =>
        upsert rows (createRow transactionHash contractAddress topicSymbol ledgerSequence ledgerCloseTime data)

/-- The topic symbol and the decoded data of the pipeline. No distribution topic is one of SEP-41,
which it decodes in another way. -/
def decodeEvent (event : Event) : Option String × Value :=
  match event.data with
  | none => (none, .object [("raw", .object [])])
  | some native =>
    let rawSymbol := (event.topics.head?.map fun topic => topic.native.string).getD "unknown"
    (some rawSymbol, .object [("event", .text rawSymbol), ("topics", .array (event.topics.map Topic.native)),
      ("data", native)])

def fetchEvents (startLedger endLedger : Nat) (served : List Event) : List Event :=
  served.filter fun event => startLedger ≤ event.ledgerSequence ∧ event.ledgerSequence ≤ endLedger

/-- The events fetched one after the other, up to the first whose upsert throws; how many are stored. -/
def backfill (rows : Rows) (stored : Nat) : List Event → Rows × Option Nat
  | [] => (rows, some stored)
  | event :: events =>
    match event.topics.head? with
    | none => backfill rows stored events
    | some topic =>
      if ¬ topic.isSymbol ∨ topic.native.string ∉ distributionTopics then backfill rows stored events
      else
        let decoded := match event.data with
          | none => .null
          | some native => if native.isObject then native else .object [("value", .text native.string)]
        match extractDistributionData decoded with
        | none => backfill rows stored events
        | some data =>
          match upsert rows (createRow event.transactionHash event.contractId topic.native.string event.ledgerSequence
            event.ledgerCloseTime data) with
          | none => (rows, none)
          | some rows => backfill rows (stored + 1) events

/-- `served` is what the RPC node has for a backfill. -/
inductive Act where
  | processYieldEvent (event : Event)
  | backfillYieldDistributions (startLedger endLedger : Nat) (served : List Event)

def Act.events : Act → List Event
  | processYieldEvent event => [event]
  | backfillYieldDistributions startLedger endLedger served => fetchEvents startLedger endLedger served

def step (rows : Rows) : Act → Rows
  | .processYieldEvent event =>
    let (topicSymbol, decoded) := decodeEvent event
    (processYieldEvent rows event.transactionHash event.contractId topicSymbol decoded event.ledgerSequence
      event.ledgerCloseTime).getD rows
  | .backfillYieldDistributions startLedger endLedger served =>
    (backfill rows 0 (fetchEvents startLedger endLedger served)).1

def run (acts : List Act) : Rows := acts.foldl step ∅

structure Payee where
  transactionHash : String
  contractAddress : String
  recipient : String
  deriving DecidableEq

/-- A distribution event whose data are an object with a recipient and an integer amount. -/
@[ext] structure Distribution where
  event : Event
  topic : Topic
  native : Value
  recipient : String
  amount : Int
  announced : event.topics.head? = some topic
  known : topic.native.string ∈ distributionTopics
  decoded : event.data = some native
  isObject : native.isObject = true
  carriesRecipient : recipientOf native = recipient
  someone : recipient ≠ ""
  carriesAmount : amountOf native = bigIntText amount

namespace Distribution

def payee (d : Distribution) : Payee := ⟨d.event.transactionHash, d.event.contractId, d.recipient⟩

def paidTo (payee : Payee) (d : Distribution) : Int := if d.payee = payee then d.amount else 0

def distributionId (d : Distribution) : Option String :=
  firstTruthy d.native ["distributionId", "batchId", "payoutId"]

def rowId (d : Distribution) : String :=
  "-".intercalate [d.event.transactionHash, d.event.contractId, d.recipient, d.topic.native.string]

/-- The row of a payout: none for nothing, and none without a distribution id. -/
def row (d : Distribution) : Option Row :=
  if d.amount = 0 then none
  else d.distributionId.map fun distributionId => {
    id := d.rowId
    transactionHash := d.event.transactionHash
    contractAddress := d.event.contractId
    distributionId
    recipient := d.recipient
    amount := bigIntText d.amount
    tokenSymbol := firstTruthy d.native ["token", "tokenSymbol"]
    windowLabel := "Corporate Yield Distribution Sync"
    ledgerSequence := d.event.ledgerSequence
    ledgerCloseTime := d.event.ledgerCloseTime }

/-- A backfill takes an object under `data` for the data. -/
def backfilled (d : Distribution) : Option Row :=
  if d.topic.isSymbol then
    (extractDistributionData d.native).bind (createRow d.event.transactionHash d.event.contractId
      d.topic.native.string d.event.ledgerSequence d.event.ledgerCloseTime)
  else none

end Distribution

def Row.payee (row : Row) : Payee := ⟨row.transactionHash, row.contractAddress, row.recipient⟩

def Row.paidTo (payee : Payee) (row : Row) : Int := if row.payee = payee then (bigInt row.amount).getD 0 else 0

/-- Every payee is recorded with the sum of the payouts. -/
def Recorded (events : List Distribution) (rows : Rows) : Prop :=
  ∀ payee, rows.total (fun _ => true) (Row.paidTo payee) = (events.map (Distribution.paidTo payee)).sum

/-- One of the events, or one that announces no distribution. -/
def Among (events : List Distribution) (event : Event) : Prop :=
  (∃ d ∈ events, d.event = event) ∨ ∀ topic ∈ event.topics.head?, topic.native.string ∉ distributionTopics

/-- Every event is processed as it comes in, and no other distribution is met. -/
structure Schedule (events : List Distribution) (acts : List Act) : Prop where
  processed : ∀ d ∈ events, .processYieldEvent d.event ∈ acts
  only : ∀ act ∈ acts, ∀ event ∈ act.events, Among events event

/-- The payouts without a row of their own: no distribution id, or an earlier one has the row id. -/
def leftOut : List String → List Distribution → List Distribution
  | _, [] => []
  | seen, d :: events =>
    match d.row with
    | none => d :: leftOut seen events
    | some row => if row.id ∈ seen then d :: leftOut seen events else leftOut (row.id :: seen) events

def offered (events : List Distribution) : List Row :=
  events.filterMap Distribution.row ++ events.filterMap Distribution.backfilled

structure Separated (events : List Distribution) : Prop where
  agree : ∀ row ∈ offered events, ∀ other ∈ offered events, row.id = other.id →
    ∀ payee, row.paidTo payee = other.paidTo payee
  paid : ∀ row ∈ events.filterMap Distribution.backfilled,
    row.id ∈ (events.filterMap Distribution.row).map Row.id ∨ ∀ payee, row.paidTo payee = 0
  balanced : ∀ payee, ((leftOut [] events).map (Distribution.paidTo payee)).sum = 0

theorem bigIntText_ne {n : Int} {text : String} (differs : bigInt text ≠ some n) : bigIntText n ≠ text := by
  rintro rfl
  exact differs (bigInt_bigIntText n)

theorem bigIntText_injective {n m : Int} (same : bigIntText n = bigIntText m) : n = m := by
  have read := bigInt_bigIntText n
  rw [same, bigInt_bigIntText] at read
  exact (Option.some.inj read).symm

theorem bigIntText_eq_zero {n : Int} : bigIntText n = "0" ↔ n = 0 := by
  have zero : bigIntText 0 = "0" := by decide
  constructor
  · intro same
    exact bigIntText_injective (same.trans zero.symm)
  · rintro rfl
    exact zero

variable {d : Distribution} {events : List Distribution} {rows : Rows} {row : Row} {payee : Payee}

theorem readDistributionData_native : readDistributionData d.native =
    if d.amount = 0 then none else some ⟨d.recipient, bigIntText d.amount,
      firstTruthy d.native ["token", "tokenSymbol"], d.distributionId⟩ := by
  unfold readDistributionData
  rw [d.carriesRecipient, d.carriesAmount]
  by_cases nothing : d.amount = 0
  · rw [if_pos (.inr (.inr (.inl (bigIntText_eq_zero.mpr nothing)))), if_pos nothing]
  · have empty : bigInt "" = some 0 := by decide
    have suffixed : bigInt "0n" = none := by decide
    have notEmpty : bigIntText d.amount ≠ "" := bigIntText_ne (by simpa [empty] using Ne.symm nothing)
    have notZero : bigIntText d.amount ≠ "0" := fun zero => nothing (bigIntText_eq_zero.mp zero)
    have notSuffixed : bigIntText d.amount ≠ "0n" := bigIntText_ne (by simp [suffixed])
    rw [if_neg (by simp [d.someone, notEmpty, notZero, notSuffixed]), if_neg nothing]
    rfl

theorem extractDistributionData_of_data {fields : List (String × Value)} {data : Value}
    (found : (Value.object fields).field? "data" = some data) (isObject : data.isObject = true) :
    extractDistributionData (.object fields) = readDistributionData data := by
  have truthy : (Value.object fields).truthy = true := rfl
  rw [extractDistributionData, if_neg (not_not_intro truthy), found]
  dsimp only [Option.getD_some]
  rw [if_pos ⟨Value.truthy_of_isObject isObject, isObject⟩]

/-- The event pipeline wraps the data, so that nothing in them is taken for their wrapping. -/
theorem step_processYieldEvent :
    step rows (.processYieldEvent d.event) = d.row.elim rows (rows.insertNew Row.id) := by
  have decoded : decodeEvent d.event = (some d.topic.native.string, .object [("event", .text d.topic.native.string),
      ("topics", .array (d.event.topics.map Topic.native)), ("data", d.native)]) := by
    rw [decodeEvent, d.decoded, d.announced]
    rfl
  have found : (Value.object [("event", .text d.topic.native.string),
      ("topics", .array (d.event.topics.map Topic.native)), ("data", d.native)]).field? "data" = some d.native := by
    simp [Value.field?, List.lookup_cons]
  rw [step, decoded]
  dsimp only
  rw [processYieldEvent, if_neg (not_not_intro d.known), extractDistributionData_of_data found d.isObject,
    readDistributionData_native, Distribution.row]
  by_cases nothing : d.amount = 0
  · rw [if_pos nothing, if_pos nothing]
    rfl
  · rw [if_neg nothing, if_neg nothing]
    dsimp only
    cases d.distributionId with
    | none => rfl
    | some distributionId => rfl

theorem paidTo_of_row (recorded : d.row = some row) : row.paidTo payee = d.paidTo payee := by
  unfold Distribution.row at recorded
  split at recorded
  · cases recorded
  · obtain ⟨distributionId, -, rfl⟩ := Option.map_eq_some_iff.mp recorded
    unfold Row.paidTo Distribution.paidTo
    rw [bigInt_bigIntText]
    rfl

/-- One round of a backfill's loop: a row, or none, or the end of the backfill. -/
theorem backfill_cons (d : Distribution) (rows : Rows) (stored : Nat) (later : List Event) :
    match d.backfilled with
    | some row => backfill rows stored (d.event :: later) = backfill (rows.insertNew Row.id row) (stored + 1) later
    | none => backfill rows stored (d.event :: later) = (rows, none) ∨
      backfill rows stored (d.event :: later) = backfill rows stored later := by
  rw [backfill, d.announced, d.decoded, Distribution.backfilled]
  dsimp only
  rw [if_pos d.isObject]
  by_cases symbol : d.topic.isSymbol = true
  · rw [if_pos symbol, if_neg (by simp [symbol, d.known])]
    cases extractDistributionData d.native with
    | none => exact .inr rfl
    | some data =>
      dsimp only [Option.bind_some]
      cases createRow d.event.transactionHash d.event.contractId d.topic.native.string d.event.ledgerSequence
        d.event.ledgerCloseTime data with
      | none => exact .inl rfl
      | some row => rfl
  · rw [if_neg symbol, if_pos (.inl symbol)]
    exact .inr rfl

theorem backfill_other {stored : Nat} {event : Event} {later : List Event}
    (other : ∀ topic ∈ event.topics.head?, topic.native.string ∉ distributionTopics) :
    backfill rows stored (event :: later) = backfill rows stored later := by
  rw [backfill]
  cases announced : event.topics.head? with
  | none => rfl
  | some topic => exact if_pos (.inr (other topic (Option.mem_def.mpr announced)))

theorem step_other {event : Event} (other : ∀ topic ∈ event.topics.head?, topic.native.string ∉ distributionTopics) :
    step rows (.processYieldEvent event) = rows := by
  rw [step, decodeEvent]
  cases event.data with
  | none => rfl
  | some native =>
    have unknown : (event.topics.head?.map fun topic => topic.native.string).getD "unknown" ∉ distributionTopics := by
      cases announced : event.topics.head? with
      | none => decide
      | some topic => exact other topic (Option.mem_def.mpr announced)
    dsimp only
    rw [processYieldEvent, if_pos unknown, Option.getD_some]

theorem backfill_writes (rows : Rows) (stored : Nat) {fetched : List Event}
    (within : ∀ event ∈ fetched, Among events event) :
    ∃ written : List Row, (backfill rows stored fetched).1 = written.foldl (Table.insertNew Row.id) rows ∧
      ∀ row ∈ written, row ∈ events.filterMap Distribution.backfilled := by
  induction fetched generalizing rows stored with
  | nil => exact ⟨[], rfl, List.forall_mem_nil _⟩
  | cons event fetched ih =>
    have rest := fun event among => within event (List.mem_cons_of_mem _ among)
    obtain ⟨d, member, rfl⟩ | other := within event List.mem_cons_self
    case inr =>
      rw [backfill_other other]
      exact ih rows stored rest
    have round := backfill_cons d rows stored fetched
    cases read : d.backfilled with
    | none =>
      rw [read] at round
      rcases round with ended | skipped
      · exact ⟨[], congrArg Prod.fst ended, List.forall_mem_nil _⟩
      · rw [skipped]
        exact ih rows stored rest
    | some row =>
      rw [read] at round
      obtain ⟨written, written_eq, offers⟩ := ih (rows.insertNew Row.id row) (stored + 1) rest
      refine ⟨row :: written, (congrArg Prod.fst round).trans written_eq, fun other among => ?_⟩
      rcases List.mem_cons.mp among with rfl | later
      · exact List.mem_filterMap.mpr ⟨d, member, read⟩
      · exact offers other later

/-- What an event pays is in the event. -/
theorem Distribution.eq_of_event {other : Distribution} (same : d.event = other.event) : d = other := by
  have topics : d.topic = other.topic := by
    apply Option.some.inj
    rw [← d.announced, same, other.announced]
  have natives : d.native = other.native := by
    apply Option.some.inj
    rw [← d.decoded, same, other.decoded]
  have recipients : d.recipient = other.recipient := by
    rw [← d.carriesRecipient, natives, other.carriesRecipient]
  have amounts : d.amount = other.amount := by
    apply bigIntText_injective
    rw [← d.carriesAmount, natives, other.carriesAmount]
  exact Distribution.ext same topics natives recipients amounts

/-- What an action writes over the events of a schedule. -/
theorem step_writes (rows : Rows) {act : Act} (within : ∀ event ∈ act.events, Among events event) :
    ∃ written : List Row, step rows act = written.foldl (Table.insertNew Row.id) rows ∧
      (∀ row ∈ written, row ∈ offered events) ∧
      ∀ d : Distribution, act = .processYieldEvent d.event → ∀ row, d.row = some row → row ∈ written := by
  cases act with
  | processYieldEvent event =>
    obtain ⟨d, member, rfl⟩ | other := within event List.mem_cons_self
    case inr =>
      refine ⟨[], step_other other, List.forall_mem_nil _, fun d same => ?_⟩
      obtain rfl := Act.processYieldEvent.inj same
      exact absurd d.known (other d.topic (Option.mem_def.mpr d.announced))
    refine ⟨d.row.toList, ?_, fun row written => ?_, fun other same row recorded => ?_⟩
    · rw [step_processYieldEvent]
      cases d.row with
      | none => rfl
      | some row => rfl
    · exact List.mem_append_left _ (List.mem_filterMap.mpr ⟨d, member, Option.mem_toList.mp written⟩)
    · obtain rfl := Distribution.eq_of_event (Act.processYieldEvent.inj same)
      exact Option.mem_toList.mpr recorded
  | backfillYieldDistributions startLedger endLedger served =>
    obtain ⟨written, stepped, offers⟩ := backfill_writes rows 0 within
    refine ⟨written, stepped, fun row among => List.mem_append_right _ (offers row among), ?_⟩
    intro d isProcess
    cases isProcess

/-- What a run writes: only rows that the events offer, and the row of every event processed. -/
theorem foldl_writes (rows : Rows) {acts : List Act}
    (only : ∀ act ∈ acts, ∀ event ∈ act.events, Among events event) :
    ∃ written : List Row, acts.foldl step rows = written.foldl (Table.insertNew Row.id) rows ∧
      (∀ row ∈ written, row ∈ offered events) ∧
      ∀ d : Distribution, .processYieldEvent d.event ∈ acts → ∀ row, d.row = some row → row ∈ written := by
  induction acts generalizing rows with
  | nil => exact ⟨[], rfl, List.forall_mem_nil _, fun _ never => absurd never List.not_mem_nil⟩
  | cons act acts ih =>
    obtain ⟨now, stepped, offersNow, processedNow⟩ := step_writes rows (only act List.mem_cons_self)
    obtain ⟨later, ran, offersLater, processedLater⟩ :=
      ih (step rows act) fun other among => only other (List.mem_cons_of_mem _ among)
    refine ⟨now ++ later, ?_, fun row among => ?_, fun d processed row recorded => ?_⟩
    · rw [List.foldl_cons, ran, stepped, List.foldl_append]
    · rcases List.mem_append.mp among with early | late
      · exact offersNow row early
      · exact offersLater row late
    · rcases List.mem_cons.mp processed with this | among
      · exact List.mem_append_left _ (processedNow d this.symm row recorded)
      · exact List.mem_append_right _ (processedLater d among row recorded)

/-- The payouts are those of the first rows and those left out. -/
theorem sum_paidTo (events : List Distribution) (payee : Payee) (seen : List String) :
    (events.map (Distribution.paidTo payee)).sum =
      ((firsts Row.id seen (events.filterMap Distribution.row)).map (Row.paidTo payee)).sum +
        ((leftOut seen events).map (Distribution.paidTo payee)).sum := by
  induction events generalizing seen with
  | nil => rfl
  | cons d events ih =>
    rw [List.map_cons, List.sum_cons]
    cases recorded : d.row with
    | none =>
      rw [List.filterMap_cons_none recorded, leftOut, recorded, ih seen]
      dsimp only
      rw [List.map_cons, List.sum_cons]
      omega
    | some row =>
      rw [List.filterMap_cons_some recorded, leftOut, recorded]
      dsimp only
      by_cases known : row.id ∈ seen
      · rw [firsts_cons_of_mem known, if_pos known, ih seen, List.map_cons, List.sum_cons]
        omega
      · rw [firsts_cons_of_notMem known, if_neg known, ih (row.id :: seen), List.map_cons, List.sum_cons,
          paidTo_of_row recorded]
        omega

theorem total_foldl (written : List Row) :
    (written.foldl (Table.insertNew Row.id) (∅ : Rows)).total (fun _ => true) (Row.paidTo payee) =
      ((firsts Row.id [] written).map (Row.paidTo payee)).sum := by
  have empty : (∅ : Rows).total (fun _ => true) (Row.paidTo payee) = 0 := rfl
  have unseen : ∀ id, id ∈ ([] : List String) ↔ id ∈ (∅ : Rows) :=
    fun id => iff_of_false List.not_mem_nil (AList.notMem_empty id)
  rw [total_foldl_insertNew unseen, empty, Int.zero_add]

theorem recorded_of_separated {acts : List Act} (separated : Separated events) (schedule : Schedule events acts) :
    Recorded events (run acts) := by
  intro payee
  obtain ⟨written, ran, offers, processed⟩ := foldl_writes ∅ schedule.only
  have kept : ∀ row ∈ events.filterMap Distribution.row, row ∈ written := by
    intro row member
    obtain ⟨d, among, recorded⟩ := List.mem_filterMap.mp member
    exact processed d (schedule.processed d among) row recorded
  have within : ∀ row ∈ written ++ events.filterMap Distribution.row, row ∈ offered events := by
    intro row member
    rcases List.mem_append.mp member with wrote | own
    · exact offers row wrote
    · exact List.mem_append_left _ own
  rw [run, ran, total_foldl, sum_paidTo events payee [], separated.balanced payee, Int.add_zero]
  apply sum_firsts_congr
  · intro id member
    obtain ⟨row, among, rfl⟩ := List.mem_map.mp member
    exact List.mem_map_of_mem (kept row among)
  · intro row wrote
    rcases List.mem_append.mp (offers row wrote) with own | backfilled
    · exact .inl (List.mem_map_of_mem own)
    · exact (separated.paid row backfilled).imp_right fun nothing => nothing payee
  · intro row wrote other member same
    exact separated.agree row (offers row wrote) other (within other member) same payee

/-- The events processed as they come in. -/
def ingest (events : List Distribution) : List Act := events.map fun d => .processYieldEvent d.event

theorem foldl_ingest (rows : Rows) :
    (ingest events).foldl step rows = (events.filterMap Distribution.row).foldl (Table.insertNew Row.id) rows := by
  induction events generalizing rows with
  | nil => rfl
  | cons d events ih =>
    rw [ingest, List.map_cons, List.foldl_cons, step_processYieldEvent]
    cases recorded : d.row with
    | none =>
      rw [List.filterMap_cons_none recorded]
      exact ih rows
    | some row =>
      rw [List.filterMap_cons_some recorded, List.foldl_cons]
      exact ih (rows.insertNew Row.id row)

theorem schedule_ingest : Schedule events (ingest events) where
  processed d member := List.mem_map.mpr ⟨d, member, rfl⟩
  only act processed event among := by
    obtain ⟨d, member, rfl⟩ := List.mem_map.mp processed
    exact .inl ⟨d, member, (List.mem_singleton.mp among).symm⟩

theorem Schedule.cons {act : Act} {acts : List Act} (schedule : Schedule events acts)
    (within : ∀ event ∈ act.events, Among events event) : Schedule events (act :: acts) where
  processed d member := List.mem_cons_of_mem _ (schedule.processed d member)
  only := List.forall_mem_cons.mpr ⟨within, schedule.only⟩

/-- Every row that an event offers can be written on its own. -/
theorem exists_act (offers : row ∈ offered events) :
    ∃ act : Act, (∀ event ∈ act.events, Among events event) ∧
      ∀ rows : Rows, step rows act = rows.insertNew Row.id row := by
  rcases List.mem_append.mp offers with own | backfilled
  · obtain ⟨d, member, recorded⟩ := List.mem_filterMap.mp own
    refine ⟨.processYieldEvent d.event, fun event among => .inl ⟨d, member, (List.mem_singleton.mp among).symm⟩, ?_⟩
    intro rows
    rw [step_processYieldEvent, recorded]
    rfl
  · obtain ⟨d, member, read⟩ := List.mem_filterMap.mp backfilled
    have fetched : fetchEvents d.event.ledgerSequence d.event.ledgerSequence [d.event] = [d.event] := by
      simp [fetchEvents]
    refine ⟨.backfillYieldDistributions d.event.ledgerSequence d.event.ledgerSequence [d.event], ?_, fun rows => ?_⟩
    · intro event among
      rw [Act.events, fetched] at among
      exact .inl ⟨d, member, (List.mem_singleton.mp among).symm⟩
    · have round := backfill_cons d rows 0 []
      rw [read] at round
      rw [step, fetched, round]
      rfl

/-- A row written before the events come in takes the place of theirs. -/
theorem total_written_first (payee : Payee) (recorded : ∀ acts, Schedule events acts → Recorded events (run acts))
    (offers : row ∈ offered events) :
    row.paidTo payee + ((firsts Row.id [row.id] (events.filterMap Distribution.row)).map (Row.paidTo payee)).sum =
      (events.map (Distribution.paidTo payee)).sum := by
  obtain ⟨act, within, writes⟩ := exists_act offers
  have complete := recorded (act :: ingest events) (schedule_ingest.cons within) payee
  have ran : run (act :: ingest events) =
      (row :: events.filterMap Distribution.row).foldl (Table.insertNew Row.id) ∅ := by
    rw [run, List.foldl_cons, writes, foldl_ingest, List.foldl_cons]
  rw [ran, total_foldl, firsts_cons_of_notMem List.not_mem_nil, List.map_cons, List.sum_cons] at complete
  exact complete

theorem separated_of_recorded (recorded : ∀ acts, Schedule events acts → Recorded events (run acts)) :
    Separated events := by
  have plain : ∀ payee, ((firsts Row.id [] (events.filterMap Distribution.row)).map (Row.paidTo payee)).sum =
      (events.map (Distribution.paidTo payee)).sum := by
    intro payee
    rw [← recorded _ schedule_ingest payee, run, foldl_ingest, total_foldl]
  refine ⟨fun row offers other offers' same payee => ?_, fun row backfilled => ?_, fun payee => ?_⟩
  · have first := total_written_first payee recorded offers
    have second := total_written_first payee recorded offers'
    rw [same] at first
    omega
  · by_cases known : row.id ∈ (events.filterMap Distribution.row).map Row.id
    · exact .inl known
    · refine .inr fun payee => ?_
      have first := total_written_first payee recorded (List.mem_append_right _ backfilled)
      have unseen : firsts Row.id [row.id] (events.filterMap Distribution.row) =
          firsts Row.id [] (events.filterMap Distribution.row) := by
        refine firsts_congr fun other member => ?_
        have apart : other.id ≠ row.id := fun same => known (List.mem_map.mpr ⟨other, member, same⟩)
        simp [apart]
      rw [unseen, plain payee] at first
      omega
  · have parts := sum_paidTo events payee []
    rw [plain payee] at parts
    omega

/-- Both paths write the same row, but for data with an object under `data`. -/
theorem backfilled_eq_row (symbol : d.topic.isSymbol = true)
    (plain : ∀ inner, d.native.field? "data" = some inner → inner.isObject = false) : d.backfilled = d.row := by
  have extracted : extractDistributionData d.native = readDistributionData d.native := by
    rw [extractDistributionData, if_neg (not_not_intro (Value.truthy_of_isObject d.isObject))]
    cases found : d.native.field? "data" with
    | none =>
      dsimp only [Option.getD_none]
      rw [ite_self]
    | some inner =>
      have primitive := plain inner found
      simp [primitive]
  rw [Distribution.backfilled, if_pos symbol, extracted, readDistributionData_native, Distribution.row]
  by_cases nothing : d.amount = 0
  · rw [if_pos nothing, if_pos nothing]
    rfl
  · rw [if_neg nothing, if_neg nothing]
    rfl

theorem mem_of_mem_leftOut {seen : List String} (left : d ∈ leftOut seen events) : d ∈ events := by
  induction events generalizing seen with
  | nil => exact left
  | cons first events ih =>
    unfold leftOut at left
    split at left
    · rcases List.mem_cons.mp left with rfl | later
      · exact List.mem_cons_self
      · exact List.mem_cons_of_mem _ (ih later)
    · split at left
      · rcases List.mem_cons.mp left with rfl | later
        · exact List.mem_cons_self
        · exact List.mem_cons_of_mem _ (ih later)
      · exact List.mem_cons_of_mem _ (ih left)

/-- Without negative amounts nothing makes up for a payout that is left out. -/
theorem balanced_iff_of_nonneg (nonneg : ∀ d ∈ events, 0 ≤ d.amount) :
    (∀ payee, ((leftOut [] events).map (Distribution.paidTo payee)).sum = 0) ↔
      ∀ d ∈ leftOut [] events, d.amount = 0 := by
  constructor
  · intro balanced d left
    have parts : ∀ n ∈ (leftOut [] events).map (Distribution.paidTo d.payee), 0 ≤ n := by
      intro n member
      obtain ⟨other, among, rfl⟩ := List.mem_map.mp member
      unfold Distribution.paidTo
      split
      · exact nonneg other (mem_of_mem_leftOut among)
      · exact Int.le_refl 0
    have own : d.paidTo d.payee = d.amount := if_pos rfl
    have small := List.single_le_sum parts _ (List.mem_map_of_mem left)
    rw [balanced d.payee, own] at small
    exact Int.le_antisymm small (nonneg d (mem_of_mem_leftOut left))
  · intro nothing payee
    apply List.sum_eq_zero
    intro n member
    obtain ⟨d, left, rfl⟩ := List.mem_map.mp member
    unfold Distribution.paidTo
    rw [nothing d left, ite_self]

/-- Whatever the order and the backfills, every payout is recorded once exactly where the rows that the
events offer under one id are one payout, and the payouts without a row of their own sum up to nothing. -/
theorem recorded_iff (events : List Distribution) :
    (∀ acts, Schedule events acts → Recorded events (run acts)) ↔ Separated events :=
  ⟨separated_of_recorded, fun separated _ schedule => recorded_of_separated separated schedule⟩

def payout (amount : Int) : Distribution where
  event := {
    contractId := "CA", transactionHash := "9c1f", ledgerSequence := 100, ledgerCloseTime := 1700000000
    topics := [⟨true, .text "distribute"⟩]
    data := some (.object [("recipient", .text "GB"), ("amount", .bigint amount), ("distributionId", .text "7")]) }
  topic := ⟨true, .text "distribute"⟩
  native := .object [("recipient", .text "GB"), ("amount", .bigint amount), ("distributionId", .text "7")]
  recipient := "GB"
  amount
  announced := rfl
  known := by decide
  decoded := rfl
  isObject := rfl
  carriesRecipient := by simp [recipientOf, Value.get, Value.field?, List.lookup_cons, Value.orElse, Value.string]
  someone := by decide
  carriesAmount := by simp [amountOf, Value.get, Value.field?, List.lookup_cons, Value.orElse, Value.string]

/-- Of two payouts to one recipient in one transaction the second has no row. -/
theorem second_payout_lost : Schedule [payout 5, payout 7] (ingest [payout 5, payout 7]) ∧
    ¬ Recorded [payout 5, payout 7] (run (ingest [payout 5, payout 7])) := by
  refine ⟨schedule_ingest, fun recorded => ?_⟩
  have sums := recorded ⟨"9c1f", "CA", "GB"⟩
  exact absurd sums (by decide)

end Octraban.YieldDistribution
